/-
Nsparse/WindowInversion.lean

The two inversions of a corpus against its transpose.

`transposed` is the posting list a term should have: its entries in document order, each
with the position of its document.  `build_inverted_lists` walks all documents and stores
their ids in 32 bits; `fill_from_corpus` walks only as many as the number of documents
comes to in 32 bits, and leaves the slots of the others as they were allocated, document 0
with a value of zeros.  So both are the transpose as long as no entry of the window lies
beyond the documents walked (`windowInversion_iff`).
-/
import Nsparse.WindowPostings

namespace Nsparse

/-! ### The transpose -/

/-- The postings of `term` as the rows have them. -/
def transposed {V : Type} (rows : List (SparseRow V)) (term : ℕ) : InvertedList V :=
  .ofPostings ((postingsOf rows term).map fun p => ((p.1 : ℤ), p.2))

theorem ofPostings_inj {V : Type} {ps qs : List (ℤ × V)} :
    InvertedList.ofPostings ps = .ofPostings qs ↔ ps = qs := by
  constructor
  · intro h
    rw [← InvertedList.postings_ofPostings ps, h, InvertedList.postings_ofPostings]
  · rintro rfl
    rfl

/-- Ids in 32 bits are the positions as long as these fit. -/
theorem postingList_eq_transposed {V : Type} {rows : List (SparseRow V)} {term : ℕ}
    (h : ∀ p ∈ postingsOf rows term, p.1 < 2 ^ 31) :
    postingList rows term = transposed rows term := by
  rw [postingList, transposed, ofPostings_inj]
  exact List.map_congr_left fun p hp => by rw [toIdx_eq_self_iff.mpr (h p hp)]

theorem postingsFrom_append {V : Type} (start : ℕ) (rows rows' : List (SparseRow V)) (term : ℕ) :
    postingsFrom start (rows ++ rows') term
      = postingsFrom start rows term ++ postingsFrom (start + rows.length) rows' term := by
  simp [postingsFrom, List.zipIdx_append]

/-! ### The documents walked -/

variable {window : TermWindow} {elementSize : ℕ} {counts : ℕ → ℕ}
  {done : ℕ → List (ℤ × Code)} {vectors : SparseVectors Code} {dim : ℕ}

theorem toNat_toIdx_le (n : ℕ) : (toIdx n).toNat ≤ n := by
  rw [toIdx, BitVec.toInt_ofInt, Int.bmod_def]
  have := Nat.two_pow_pos 32
  split <;> omega

/-- How many documents `fill_from_corpus` walks. -/
def SparseVectors.scanned (vectors : SparseVectors Code) : ℕ := (toIdx vectors.numVectors).toNat

/-- A slot as it is allocated. -/
def unfilledSlot (elementSize : ℕ) : ℤ × Code := (0, List.replicate elementSize 0)

/-- The postings of the documents walked, then the slots left as they were allocated. -/
def windowPostings (vectors : SparseVectors Code) (elementSize term : ℕ) : List (ℤ × Code) :=
  (postingsOf (vectors.rows.take vectors.scanned) term).map (fun p => ((p.1 : ℤ), p.2))
    ++ List.replicate
        (postingsFrom vectors.scanned (vectors.rows.drop vectors.scanned) term).length
        (unfilledSlot elementSize)

theorem fillFromCorpus_eq_foldlM (lists : WindowLists) :
    fillFromCorpus vectors window lists
      = ((vectors.rows.take vectors.scanned).zipIdx 0).foldlM
          (fun lists r => fillRow window (r.2 : ℕ) lists r.1) lists := by
  have hzip : (vectors.rows.take vectors.scanned).zipIdx 0
      = (List.range vectors.scanned).map fun i => (vectors.row i, i) := by
    have hle : vectors.scanned ≤ vectors.numVectors := toNat_toIdx_le _
    rw [SparseVectors.rows_eq_map_row, ← List.map_take, List.take_range, min_eq_left hle]
    exact List.ext_getElem (by simp) fun i _ _ => by simp
  rw [hzip, List.foldlM_map]
  rfl

theorem postingsOf_split (term : ℕ) :
    postingsOf vectors.rows term
      = postingsOf (vectors.rows.take vectors.scanned) term
        ++ postingsFrom vectors.scanned (vectors.rows.drop vectors.scanned) term := by
  have hlength : (vectors.rows.take vectors.scanned).length = vectors.scanned := by
    rw [List.length_take, SparseVectors.length_rows]
    exact min_eq_left (toNat_toIdx_le _)
  conv_lhs => rw [← List.take_append_drop vectors.scanned vectors.rows, postingsOf,
    postingsFrom_append, hlength, Nat.zero_add]
  rfl

/-- Arrays are handed over with the slots nothing was filled into. -/
theorem sealed_filled_within :
    (filled window elementSize counts done).sealed
      = .ok ((List.range window.size).map fun i => .ofPostings
          (done i ++ List.replicate (counts i - (done i).length) (unfilledSlot elementSize))) := by
  have hzip : (filled window elementSize counts done).ids.zip
      (filled window elementSize counts done).codes
        = (List.range window.size).map fun i =>
            ((done i).map Prod.fst ++ List.replicate (counts i - (done i).length) 0,
              (done i).map Prod.snd ++ List.replicate (counts i - (done i).length)
                (List.replicate elementSize 0)) := by
    rw [filled, List.zip_map']
  rw [WindowLists.sealed, hzip, List.mapM_map]
  refine mapM_eq_ok fun i _ => ?_
  simp [InvertedList.setEntries, InvertedList.ofPostings, unfilledSlot]

/-- **A window's lists**, whatever the number of documents. -/
theorem windowLists_eq {termCounts : List ℕ}
    (hcounts : ∀ i < window.size, termCounts.getD (window.start + i) 0
      = (postingsOf vectors.rows (window.start + i)).length) :
    ((fillFromCorpus vectors window (WindowLists.new termCounts window elementSize)).bind
        WindowLists.sealed)
      = .ok ((List.range window.size).map fun i =>
          .ofPostings (windowPostings vectors elementSize (window.start + i))) := by
  rw [fillFromCorpus_eq_foldlM, new_eq_filled, fillRows_filled]
  · show WindowLists.sealed _ = _
    rw [sealed_filled_within]
    refine congrArg _ (List.map_congr_left fun i hi => ?_)
    rw [hcounts i (List.mem_range.mp hi), postingsOf_split, List.nil_append, List.length_append,
      List.length_map, windowPostings]
    show InvertedList.ofPostings (_ ++ List.replicate (_ + _ - _) _) = _
    rw [postingsOf, Nat.add_sub_cancel_left]
  · intro i hi
    rw [hcounts i hi, postingsOf_split, List.length_append, List.length_nil, Nat.zero_add]
    exact Nat.le_add_right _ _

/-! ### When both are the transpose -/

theorem le_of_mem_postingsFrom {V : Type} {start term : ℕ} {rows : List (SparseRow V)} {p : ℕ × V}
    (h : p ∈ postingsFrom start rows term) : start ≤ p.1 := by
  simp only [postingsFrom, List.mem_flatMap, List.mem_map] at h
  obtain ⟨r, hr, entry, -, rfl⟩ := h
  exact (List.mk_mem_zipIdx_iff_le_and_getElem?_sub.mp hr).1

/-- A term's list is the transpose exactly when the postings that are left out look like
slots nothing was filled into. -/
theorem windowPostings_eq_iff {term : ℕ} :
    InvertedList.ofPostings (windowPostings vectors elementSize term)
        = transposed vectors.rows term ↔
      ∀ p ∈ postingsOf vectors.rows term,
        p.1 < vectors.scanned ∨ ((p.1 : ℤ), p.2) = unfilledSlot elementSize := by
  rw [transposed, ofPostings_inj, windowPostings, postingsOf_split, List.map_append,
    List.append_cancel_left_eq, eq_comm, List.eq_replicate_iff, List.length_map]
  simp only [List.forall_mem_map, true_and, List.forall_mem_append]
  constructor
  · refine fun h => ⟨fun p hp => .inl ?_, fun p hp => .inr (h p hp)⟩
    obtain ⟨row, hrow, -⟩ := mem_postingsOf_iff.mp hp
    exact (List.getElem?_eq_some_iff.mp hrow).1.trans_le (List.length_take_le _ _)
  · intro h p hp
    exact (h.2 p hp).resolve_left (not_lt.mpr (le_of_mem_postingsFrom hp))

theorem lt_scanned_iff {i : ℕ} : i < vectors.scanned ↔ (i : ℤ) < toIdx vectors.numVectors := by
  unfold SparseVectors.scanned
  omega

theorem unfilledSlot_eq_iff {i : ℕ} {code : Code} :
    ((i : ℤ), code) = unfilledSlot elementSize ↔ i = 0 ∧ code = List.replicate elementSize 0 := by
  simp [unfilledSlot]

/-- Every entry of the window is in a document that is walked, or it is what a slot holds
before anything is filled into it. -/
def WindowWalked (vectors : SparseVectors Code) (window : TermWindow) : Prop :=
  ∀ (i : ℕ) (row : SparseRow Code), vectors.rows[i]? = some row → ∀ entry ∈ row,
    window.start ≤ entry.1 → entry.1 < window.stop →
      (i : ℤ) < toIdx vectors.numVectors ∨
        (i = 0 ∧ entry.2 = List.replicate vectors.elementSize 0)

theorem windowWalked_iff :
    WindowWalked vectors window ↔ ∀ term, window.start ≤ term → term < window.stop →
      ∀ p ∈ postingsOf vectors.rows term,
        p.1 < vectors.scanned ∨ ((p.1 : ℤ), p.2) = unfilledSlot vectors.elementSize := by
  constructor
  · intro h term hlow hhigh p hp
    obtain ⟨row, hrow, hmem⟩ := mem_postingsOf_iff.mp hp
    rw [lt_scanned_iff, unfilledSlot_eq_iff]
    exact h p.1 row hrow (term, p.2) hmem hlow hhigh
  · intro h i row hrow entry hentry hlow hhigh
    rw [← lt_scanned_iff, ← unfilledSlot_eq_iff]
    exact h entry.1 hlow hhigh (i, entry.2) (mem_postingsOf_iff.mpr ⟨row, hrow, hentry⟩)

/-- What the two inversions owe each other on a window: both take the corpus or neither does,
and then the window's lists are those of the whole, each the transpose. -/
def InvertsWindow (vectors : SparseVectors Code) (dim : ℕ) (window : TermWindow) : Prop :=
  (TermsBelow dim vectors.rows →
    ∃ counts lists, countPostingsPerTerm vectors dim = .ok counts ∧
      buildInvertedLists dim vectors = .ok lists ∧
      (fillFromCorpus vectors window (.new counts window vectors.elementSize)).bind
          WindowLists.sealed = .ok ((lists.drop window.start).take window.size) ∧
      ∀ term, window.start ≤ term → term < window.stop →
        lists[term]? = some (transposed vectors.rows term)) ∧
  (¬ TermsBelow dim vectors.rows →
    (∃ e, countPostingsPerTerm vectors dim = .error e) ∧
      ∃ e, buildInvertedLists dim vectors = .error e)

/-- The part of a table that a window covers. -/
theorem take_drop_map_range {α : Type} (f : ℕ → α) (hstop : window.stop ≤ dim) :
    (((List.range dim).map f).drop window.start).take window.size
      = (List.range window.size).map fun i => f (window.start + i) := by
  have hsize : window.size ≤ dim - window.start := Nat.sub_le_sub_right hstop _
  apply List.ext_getElem
  · rw [List.length_take, List.length_drop, List.length_map, List.length_map, List.length_range,
      List.length_range, min_eq_left hsize]
  · intro i _ _
    simp

/-- With all terms below the dimension, what is owed is one equation for each term. -/
theorem invertsWindow_iff_transposed (hv : vectors.WellFormed) (hstop : window.stop ≤ dim)
    (hterms : TermsBelow dim vectors.rows) :
    InvertsWindow vectors dim window ↔ ∀ term, window.start ≤ term → term < window.stop →
      InvertedList.ofPostings (windowPostings vectors vectors.elementSize term)
        = transposed vectors.rows term := by
  obtain ⟨counts, hcounts, hlength, hcount⟩ := countPostingsPerTerm_eq_ok hv hterms
  have hbuild := buildInvertedLists_eq dim vectors
  rw [if_pos hterms] at hbuild
  have hinside : ∀ i < window.size, window.start + i < window.stop := fun i hi => by
    unfold TermWindow.size at hi
    omega
  have hlists : (fillFromCorpus vectors window (.new counts window vectors.elementSize)).bind
      WindowLists.sealed = _ :=
    windowLists_eq fun i hi => hcount (window.start + i) ((hinside i hi).trans_le hstop)
  have hat : ∀ term < window.stop, ((List.range dim).map (postingList vectors.rows))[term]?
      = some (postingList vectors.rows term) := fun term hterm => by
    simp [hterm.trans_le hstop]
  constructor
  · intro h term hlow hhigh
    obtain ⟨counts', lists, hcounts', hlists', heq, htransposed⟩ := h.1 hterms
    obtain rfl := Except.ok.inj (hcounts.symm.trans hcounts')
    obtain rfl := Except.ok.inj (hbuild.symm.trans hlists')
    rw [hlists, take_drop_map_range _ hstop, Except.ok.injEq] at heq
    have hterm : term - window.start < window.size := Nat.sub_lt_sub_right hlow hhigh
    have hmap := List.map_inj_left.mp heq (term - window.start) (List.mem_range.mpr hterm)
    rw [Nat.add_sub_cancel' hlow] at hmap
    have hpost := htransposed term hlow hhigh
    rw [hat term hhigh, Option.some.injEq] at hpost
    exact hmap.trans hpost
  · intro h
    have hpost : ∀ term, window.start ≤ term → term < window.stop →
        postingList vectors.rows term = transposed vectors.rows term := by
      intro term hlow hhigh
      apply postingList_eq_transposed
      intro p hp
      rcases windowPostings_eq_iff.mp (h term hlow hhigh) p hp with hlt | hslot
      · have hbound := toIdx_lt vectors.numVectors
        rw [lt_scanned_iff] at hlt
        omega
      · rw [(unfilledSlot_eq_iff.mp hslot).1]
        exact Nat.two_pow_pos 31
    refine ⟨fun _ => ⟨counts, _, hcounts, hbuild, ?_, fun term hlow hhigh => ?_⟩,
      fun hnot => absurd hterms hnot⟩
    · rw [hlists, take_drop_map_range _ hstop]
      refine congrArg _ (List.map_congr_left fun i hi => ?_)
      have hhigh := hinside i (List.mem_range.mp hi)
      rw [h _ (Nat.le_add_right _ _) hhigh, hpost _ (Nat.le_add_right _ _) hhigh]
    · rw [hat term hhigh, hpost term hlow hhigh]

/-- **The windowed inversion is that of the whole corpus** and both are the transpose, exactly
when no entry of the window lies beyond the documents `fill_from_corpus` walks. -/
theorem windowInversion_iff (hv : vectors.WellFormed) (hstop : window.stop ≤ dim) :
    InvertsWindow vectors dim window ↔
      (TermsBelow dim vectors.rows → WindowWalked vectors window) := by
  by_cases hterms : TermsBelow dim vectors.rows
  · rw [invertsWindow_iff_transposed hv hstop hterms, windowWalked_iff]
    simp only [windowPostings_eq_iff, hterms, true_implies]
  · have hbuild := buildInvertedLists_eq dim vectors
    rw [if_neg hterms] at hbuild
    exact ⟨fun _ h => absurd h hterms, fun _ => ⟨fun h => absurd h hterms, fun _ =>
      ⟨countPostingsPerTerm_eq_error hv hterms, _, hbuild⟩⟩⟩

/-- Four documents over three terms. -/
def fourDocs : SparseVectors Code :=
  ⟨1, 3, [0, 1, 2, 4, 7], [0, 1, 0, 1, 0, 1, 2], [[5], [5], [1], [4], [3], [1], [2]]⟩

theorem fourDocs_wellFormed : fourDocs.WellFormed :=
  ⟨rfl, fun h => absurd h (List.cons_ne_nil _ _), fun _ => ⟨rfl, by decide, rfl⟩⟩

/-- The window of the last two of three terms. -/
theorem windowInversion_iff_last_terms :
    (fillFromCorpus fourDocs ⟨1, 3⟩ (.new [3, 3, 1] ⟨1, 3⟩ 1)).bind WindowLists.sealed
        = .ok [⟨[1, 2, 3], [[5], [4], [1]]⟩, ⟨[3], [[2]]⟩] ∧
      (InvertsWindow fourDocs 3 ⟨1, 3⟩ ↔
        (TermsBelow 3 fourDocs.rows → WindowWalked fourDocs ⟨1, 3⟩)) :=
  ⟨by decide, windowInversion_iff fourDocs_wellFormed le_rfl⟩

/-- A corpus of `n` documents: the first has one entry, the others none. -/
def oneEntryAmong (n : ℕ) : SparseVectors Code where
  elementSize := 1
  dimension := 1
  indptr := 0 :: List.replicate n 1
  indices := [0]
  values := [[1]]

theorem oneEntryAmong_numVectors (n : ℕ) : (oneEntryAmong n).numVectors = n := by
  rw [SparseVectors.numVectors_eq, oneEntryAmong, List.length_cons, List.length_replicate,
    Nat.add_sub_cancel]

theorem oneEntryAmong_wellFormed {n : ℕ} (h : 0 < n) : (oneEntryAmong n).WellFormed where
  paired := rfl
  empty hnil := absurd hnil (List.cons_ne_nil _ _)
  offsets _ := by
    refine ⟨rfl, List.pairwise_cons.mpr ⟨fun _ _ => Nat.zero_le _, ?_⟩, ?_⟩
    · exact List.pairwise_replicate.mpr (.inr le_rfl)
    · rw [oneEntryAmong, List.getLast?_cons, List.getLast?_replicate, if_neg h.ne']
      rfl

theorem oneEntryAmong_row {n : ℕ} (h : 0 < n) :
    (oneEntryAmong n).rows[0]? = some [(0, [1])] := by
  obtain ⟨m, rfl⟩ := Nat.exists_eq_add_of_le' h
  rw [SparseVectors.rows_eq_map_row, List.getElem?_map, oneEntryAmong_numVectors,
    List.getElem?_range h]
  rfl

/-- Its entry is lost when the number of documents is negative in 32 bits. -/
theorem not_invertsWindow_oneEntryAmong {n : ℕ} (h : 0 < n) (hneg : toIdx n ≤ 0) :
    ¬ InvertsWindow (oneEntryAmong n) 1 ⟨0, 1⟩ := by
  have hterms : TermsBelow 1 (oneEntryAmong n).rows := by
    intro row hrow entry hentry
    have hmem : entry ∈ (oneEntryAmong n).rows.flatten := List.mem_flatten.mpr ⟨row, hrow, hentry⟩
    rw [(oneEntryAmong_wellFormed h).flatten_rows] at hmem
    rw [List.mem_singleton.mp hmem]
    exact Nat.one_pos
  have hstop : (⟨0, 1⟩ : TermWindow).stop ≤ 1 := le_rfl
  rw [invertsWindow_iff_transposed (oneEntryAmong_wellFormed h) hstop hterms]
  intro hall
  have hmem : (0, [1]) ∈ postingsOf (oneEntryAmong n).rows 0 :=
    mem_postingsOf_iff.mpr ⟨_, oneEntryAmong_row h, List.mem_singleton_self _⟩
  rcases windowPostings_eq_iff.mp (hall 0 le_rfl Nat.one_pos) _ hmem with hlt | hslot
  · rw [lt_scanned_iff, oneEntryAmong_numVectors] at hlt
    exact absurd hlt (not_lt.mpr hneg)
  · have hcode : ([1] : Code) = List.replicate 1 0 := (unfilledSlot_eq_iff.mp hslot).2
    exact absurd hcode (by decide)

/-- **No document is walked** when there are `2 ^ 31`, so the list of the term comes out with a
zero for its value. -/
theorem windowInversion_fails : ¬ InvertsWindow (oneEntryAmong (2 ^ 31)) 1 ⟨0, 1⟩ :=
  not_invertsWindow_oneEntryAmong (Nat.two_pow_pos 31) (by decide)

end Nsparse
