/-
Nsparse/PlainRows.lean

The rows of the brute-force and the inverted index.

The brute-force index offers every document to its heap, whatever the selector of the
search is: a search with room for all documents returns all of them
(`BrutalIndex.singleQuery_all`).

The inverted index offers the documents whose slots are marked in the bitmap.  A slot
is marked for a posting of a scorer, and a scorer's postings are those of a list; so a
label of its rows is a document of a list, and one that passes.
-/
import Nsparse.Heaps
import Nsparse.ResultRows

namespace Nsparse

variable {F : Type}

/-! ### A heap without duplicates -/

namespace DedupeTopKHolder

variable {T ID : Type} [LinearOrder F] {Q : ItemQueue F T} [DecidableEq ID] {key : T → ID}
  {h : DedupeTopKHolder Q ID} {k : ℕ} {P : TopKItem F T → Prop}

/-- The heap has room for `k`, and everything it holds satisfies `P`. -/
structure Keeps (h : DedupeTopKHolder Q ID) (k : ℕ) (P : TopKItem F T → Prop) : Prop where
  cap : h.k = k
  card : h.items.card ≤ k
  all : ∀ x ∈ h.items, P x

omit [DecidableEq ID] in
theorem new_keeps (Q : ItemQueue F T) (k : ℕ) (P : TopKItem F T → Prop) :
    (new Q k : DedupeTopKHolder Q ID).Keeps k P := by
  have hitems : (new Q k : DedupeTopKHolder Q ID).items = 0 := Q.items_empty
  refine ⟨rfl, ?_, ?_⟩
  · rw [hitems]
    exact Nat.zero_le k
  · rw [hitems]
    exact fun x hx => absurd hx (Multiset.notMem_zero x)

/-- Whatever `add` does with an item, the heap holds nothing else that is new. -/
theorem Keeps.add (hh : h.Keeps k P) {score : F} {item : T} (hP : P ⟨score, item⟩) :
    (h.add key score item).Keeps k P := by
  obtain ⟨hcap, hcard, hall⟩ := hh
  have hcons : ∀ held ≤ h.items, ∀ x ∈ (⟨score, item⟩ : TopKItem F T) ::ₘ held, P x := by
    intro held hle x hx
    rcases Multiset.mem_cons.mp hx with rfl | hx
    · exact hP
    · exact hall x (Multiset.mem_of_le hle hx)
  unfold DedupeTopKHolder.add
  split
  · exact ⟨hcap, hcard, hall⟩
  split
  · exact ⟨hcap, hcard, hall⟩
  split
  · -- there is room
    rename_i hroom
    have hitems : Q.items (Q.push h.pq ⟨score, item⟩) = ⟨score, item⟩ ::ₘ h.items :=
      Q.items_push _ _
    refine ⟨hcap, ?_, ?_⟩
    · show (Q.items (Q.push h.pq ⟨score, item⟩)).card ≤ k
      rw [hitems, Multiset.card_cons]
      rw [hcap] at hroom
      exact_mod_cast hroom
    · show ∀ x ∈ Q.items (Q.push h.pq ⟨score, item⟩), P x
      rw [hitems]
      exact hcons _ le_rfl
  · split
    · exact ⟨hcap, hcard, hall⟩
    · rename_i top htop
      split
      · -- the top makes way
        have hpop : h.items = top ::ₘ Q.items (Q.pop h.pq) := Q.items_pop _ _ htop
        have hitems : Q.items (Q.push (Q.pop h.pq) ⟨score, item⟩)
            = ⟨score, item⟩ ::ₘ Q.items (Q.pop h.pq) := Q.items_push _ _
        refine ⟨hcap, ?_, ?_⟩
        · show (Q.items (Q.push (Q.pop h.pq) ⟨score, item⟩)).card ≤ k
          rw [hitems, Multiset.card_cons]
          rwa [hpop, Multiset.card_cons] at hcard
        · show ∀ x ∈ Q.items (Q.push (Q.pop h.pq) ⟨score, item⟩), P x
          rw [hitems]
          apply hcons
          rw [hpop]
          exact Multiset.le_cons_self _ _
      · exact ⟨hcap, hcard, hall⟩

omit [DecidableEq ID] in
/-- What is drained was held, and comes by descending score. -/
theorem drained (h : DedupeTopKHolder Q ID) (padWith : T) (scorePad : F) :
    ∃ items : List (TopKItem F T), (items : Multiset (TopKItem F T)) = h.items ∧
      items.Pairwise (fun a b => b.score ≤ a.score) ∧
      h.topKDescendingWithScoresAndPadding padWith scorePad
        = (resize (items.map TopKItem.id) h.k.toNat padWith,
          resize (items.map TopKItem.score) h.k.toNat scorePad) := by
  obtain ⟨items, hdrain, hitems, hsorted⟩ := TopKHolder.drain_spec h.pq []
  refine ⟨items, hitems, hsorted, ?_⟩
  rw [topKDescendingWithScoresAndPadding, size, DedupeTopKHolder.items, hdrain, List.append_nil]

end DedupeTopKHolder

/-! ### The brute-force index -/

namespace BrutalIndex

variable [Ring F] [LinearOrder F] {Q : ItemQueue F ℤ} {vectors : SparseVectors F}
  {rows : List (SparseRow F)} {behind dense : List F} {k : ℤ}

/-- The documents of the vectors, each with its score. -/
def scored (dense : List F) (rows : List (SparseRow F)) (x : TopKItem F ℤ) : Prop :=
  ∃ (i : ℕ) (row : SparseRow F), rows[i]? = some row ∧ x.id = toIdx i ∧
    dotProductFloatDense dense row = some x.score

theorem scoreAll_keeps {k i : ℕ} {P : TopKItem F ℤ → Prop} {holder holder' : DedupeTopKHolder Q ℤ}
    (hholder : holder.Keeps k P)
    (hP : ∀ (j : ℕ) row score, rows[j]? = some row → dotProductFloatDense dense row = some score →
      P ⟨score, toIdx (i + j : ℕ)⟩)
    (h : scoreAll dense i rows holder = .ok holder') : holder'.Keeps k P := by
  induction rows generalizing i holder with
  | nil => exact Except.ok.inj h ▸ hholder
  | cons row rows ih =>
      unfold scoreAll at h
      split at h
      · cases h
      · rename_i score hscore
        refine ih (hholder.add (hP 0 row score rfl hscore)) (fun j row score hrow hscore => ?_) h
        rw [Nat.add_right_comm]
        exact hP (j + 1) row score hrow hscore

/-- **A row of the brute-force index**: documents of the vectors, selected or not. -/
theorem singleQuery_filled (hk : 0 < k) (hne : vectors.numVectors ≠ 0) {row : List F × List ℤ}
    (h : singleQuery Q vectors dense k = .ok row) :
    FilledRow k.toNat (scored dense vectors.rows) id row := by
  rw [singleQuery, if_neg hne] at h
  rcases hscore : scoreAll dense 0 vectors.rows (DedupeTopKHolder.new Q k) with e | holder
  · rw [hscore] at h
    cases h
  · rw [hscore] at h
    obtain ⟨n, rfl⟩ := Int.eq_ofNat_of_zero_le hk.le
    obtain ⟨hcap, hcard, hall⟩ := scoreAll_keeps (P := scored dense vectors.rows)
      (DedupeTopKHolder.new_keeps Q n _)
      (fun j row score hrow hscore => ⟨j, row, hrow, by rw [Nat.zero_add], hscore⟩) hscore
    -- what is drained was held, and padding fills the rest of the row
    obtain ⟨items, hitems, -, hdrained⟩ := holder.drained INVALID_IDX (-1)
    rw [hcap] at hdrained
    rw [← hitems, Multiset.coe_card] at hcard
    rw [← hitems] at hall
    have hpadded := filledRow_padded id hcard hall
    rw [List.map_id] at hpadded
    obtain rfl := Except.ok.inj h
    simp only [hdrained]
    exact hpadded

/-- The documents of an index, scored for a query. -/
def hits (behind : List F) (dimension : ℕ) (vectors : SparseVectors F) (query : SparseRow F)
    (x : TopKItem F ℤ) : Prop :=
  ∃ dense, getDenseVectorFloat dimension query = .ok dense ∧ scored (dense ++ behind) vectors.rows x

theorem searchQueries_filled {dimension : ℕ} (hk : 0 < k) (hne : vectors.numVectors ≠ 0)
    {queries : List (SparseRow F)} {rows : SearchRows F}
    (h : searchQueriesOver Q behind dimension vectors k queries = .ok rows) :
    FilledRows k.toNat (hits behind dimension vectors) id queries rows := by
  induction queries generalizing rows with
  | nil =>
      obtain rfl := Except.ok.inj h
      exact filledRows_nil
  | cons query queries ih =>
      obtain ⟨dense, hdense, h⟩ := bind_eq_ok h
      obtain ⟨row, hsingle, h⟩ := bind_eq_ok h
      obtain ⟨rest, hrest, h⟩ := bind_eq_ok h
      obtain rfl := Except.ok.inj h
      refine (ih hrest).cons ?_
      obtain ⟨items, hlen, hitems, hrow⟩ := singleQuery_filled hk hne hsingle
      exact ⟨items, hlen, fun x hx => ⟨dense, hdense, hitems x hx⟩, hrow⟩

/-- Without documents every row is empty. -/
theorem searchQueries_of_no_documents {dimension : ℕ} (hnone : vectors.numVectors = 0)
    {queries : List (SparseRow F)} {rows : SearchRows F}
    (h : searchQueriesOver Q behind dimension vectors k queries = .ok rows) :
    rows = (List.replicate queries.length [], List.replicate queries.length []) := by
  induction queries generalizing rows with
  | nil => exact (Except.ok.inj h).symm
  | cons query queries ih =>
      obtain ⟨dense, -, h⟩ := bind_eq_ok h
      obtain ⟨row, hsingle, h⟩ := bind_eq_ok h
      obtain ⟨rest, hrest, h⟩ := bind_eq_ok h
      rw [singleQuery, if_pos hnone] at hsingle
      obtain rfl := Except.ok.inj hsingle
      obtain rfl := Except.ok.inj h
      rw [ih hrest]
      rfl

omit [LinearOrder F] in
/-- A score that was read has its weights in the buffer. -/
theorem termsWithin_of_score {row : SparseRow F} {score : F}
    (h : dotProductFloatDense dense row = some score) : TermsWithin dense.length row := by
  unfold dotProductFloatDense at h
  generalize (0 : F) = result at h
  induction row generalizing result with
  | nil => exact fun _ hentry => absurd hentry List.not_mem_nil
  | cons entry row ih =>
      rw [List.foldlM_cons] at h
      obtain ⟨result', hread, hrest⟩ := Option.bind_eq_some_iff.mp h
      obtain ⟨weight, hweight, -⟩ := Option.map_eq_some_iff.mp hread
      refine List.forall_mem_cons.mpr ⟨?_, ih result' hrest⟩
      exact (List.getElem?_eq_some_iff.mp hweight).1

theorem termsBelow_of_scoreAll {i : ℕ} {holder holder' : DedupeTopKHolder Q ℤ}
    (h : scoreAll dense i rows holder = .ok holder') : TermsBelow dense.length rows := by
  induction rows generalizing i holder with
  | nil => exact fun _ hrow => absurd hrow List.not_mem_nil
  | cons row rows ih =>
      unfold scoreAll at h
      split at h
      · cases h
      · rename_i score hscore
        exact List.forall_mem_cons.mpr ⟨termsWithin_of_score hscore, ih h⟩

omit [LinearOrder F] in
theorem length_getDenseVectorFloat {dimension : ℕ} {query : SparseRow F}
    (h : getDenseVectorFloat dimension query = .ok dense) : dense.length = dimension := by
  refine foldlM_keeps (I := fun dense : List F => dense.length = dimension) ?_
    (List.length_replicate ..) h
  intro entry _ s s' hs hset
  split at hset
  · obtain rfl := Except.ok.inj hset
    rw [List.length_set]
    exact hs
  · cases hset

/-- A search of the index gets as far as its documents. -/
structure Answers (x : BrutalIndex F) (vectors : SparseVectors F) : Prop where
  positive : 0 < x.dimension
  holds : x.vectors = some vectors

/-- **What a brute-force search returns**: a filled row for every query, unless there are no
documents. -/
theorem search_filled {x : BrutalIndex F} {queries : CsrArgs F} {indptr indices : List ℕ}
    {values : List F} {rows : SearchRows F} (hk : 0 < k)
    (hqueries : queries.checked = .ok (indptr, indices, values))
    (h : x.searchOver Q behind queries.n indptr indices values k = .ok rows) :
    (rows = emptyRows F queries.n ∧ x.numVectors = 0) ∨
      ∃ vectors, x.Answers vectors ∧ vectors.numVectors ≠ 0 ∧
        FilledRows k.toNat (hits behind x.dimension vectors) id queries.rows rows := by
  obtain ⟨hn, -, -, -, -, hcount⟩ := CsrArgs.checked_eq_ok hqueries
  unfold searchOver at h
  split at h
  · rename_i hnone
    refine Or.inl ⟨(Except.ok.inj h).symm, ?_⟩
    rw [numVectors, hnone]
    rfl
  rename_i vectors hvectors
  rw [if_neg hn.ne'] at h
  dsimp only at h
  obtain ⟨empty, hempty, h⟩ := bind_eq_ok h
  obtain ⟨stored, hstored, h⟩ := bind_eq_ok h
  rw [rows_storedFloats hqueries (lift_eq_ok hempty) (lift_eq_ok hstored)] at h
  by_cases hnone : vectors.numVectors = 0
  · -- every query returns early
    left
    constructor
    · rw [searchQueries_of_no_documents hnone h, ← Int.toNat_natCast queries.rows.length, hcount]
      rfl
    · rw [numVectors, hvectors]
      exact hnone
  · have hpos : 0 < x.dimension := by
      have hnew := lift_eq_ok hempty
      unfold SparseVectors.new at hnew
      split at hnew
      · cases hnew
      · rename_i hdim
        exact Nat.pos_of_ne_zero hdim
    exact Or.inr ⟨vectors, ⟨hpos, hvectors⟩, hnone, searchQueries_filled hk hnone h⟩

/-! ### All documents -/

/-- What the loop over the documents offers, when the `j`-th scores `score j`. -/
def scoredDocs (score : ℕ → F) (i n : ℕ) : List (F × ℤ) :=
  (List.range' i n).map fun j : ℕ => (score j, toIdx j)

theorem scoreAll_eq {score : ℕ → F} {i : ℕ}
    (hscore : ∀ (j : ℕ) row, rows[j]? = some row →
      dotProductFloatDense dense row = some (score (i + j)))
    (holder : DedupeTopKHolder Q ℤ) :
    scoreAll dense i rows holder = .ok (holder.addAll id (scoredDocs score i rows.length)) := by
  induction rows generalizing i holder with
  | nil => rfl
  | cons row rows ih =>
      unfold scoreAll
      rw [hscore 0 row rfl]
      refine ih (fun j row hrow => ?_) (holder.add id (score i) (toIdx i))
      rw [Nat.add_right_comm]
      exact hscore (j + 1) row hrow

omit [Ring F] [LinearOrder F] in
/-- No id comes twice while ids fit 32 bits. -/
theorem scoredDocs_nodup (score : ℕ → F) {n : ℕ} (hfew : n < 2 ^ 31) :
    ((scoredDocs score 0 n).map fun call => id call.2).Nodup := by
  rw [scoredDocs, List.map_map]
  refine List.Nodup.map_on ?_ List.nodup_range'
  intro i hi j hj heq
  have hsmall : ∀ i ∈ List.range' 0 n, toIdx i = i := by
    intro i hi
    obtain ⟨-, hlt⟩ := List.mem_range'_1.mp hi
    exact toIdx_eq_self_iff.mpr (by omega)
  have hid : toIdx i = toIdx j := heq
  rw [hsmall i hi, hsmall j hj] at hid
  exact Int.ofNat_inj.mp hid

/-! ### A query without terms -/

omit [LinearOrder F] in
/-- Against a buffer of zeros every document scores 0. -/
theorem dotProductFloatDense_zeros {dimension : ℕ} {row : SparseRow F}
    (hrow : TermsWithin dimension row) :
    dotProductFloatDense (List.replicate dimension 0) row = some 0 := by
  unfold dotProductFloatDense
  induction row with
  | nil => rfl
  | cons entry row ih =>
      obtain ⟨hentry, hrow⟩ := List.forall_mem_cons.mp hrow
      rw [List.foldlM_cons, List.getElem?_replicate_of_lt hentry]
      show List.foldlM _ (0 + entry.2 * 0) row = some 0
      rw [mul_zero, add_zero]
      exact ih hrow

/-- What the loop over the documents offers when all of them score 0. -/
def zeroScored (F : Type) [Zero F] (i n : ℕ) : List (F × ℤ) :=
  (List.range' i n).map fun j : ℕ => (0, toIdx j)

theorem scoreAll_zeros (hzero : ∀ row ∈ rows, dotProductFloatDense dense row = some 0) (i : ℕ)
    (holder : DedupeTopKHolder Q ℤ) :
    scoreAll dense i rows holder = .ok (holder.addAll id (zeroScored F i rows.length)) :=
  scoreAll_eq (fun _ row hrow => hzero row (List.mem_of_getElem? hrow)) holder

omit [LinearOrder F] in
theorem zeroScored_nodup {n : ℕ} (hfew : n < 2 ^ 31) :
    ((zeroScored F 0 n).map fun call => id call.2).Nodup := scoredDocs_nodup (fun _ => 0) hfew

/-- **With room for all documents** all of them are returned. -/
theorem singleQuery_all (hfew : vectors.numVectors < 2 ^ 31) (hne : vectors.numVectors ≠ 0)
    (hzero : ∀ row ∈ vectors.rows, dotProductFloatDense dense row = some 0) :
    ∃ row, singleQuery Q vectors dense vectors.numVectors = .ok row ∧
      ∀ i < vectors.numVectors, (i : ℤ) ∈ row.2 := by
  have hheld := DedupeTopKHolder.new_addAll Q (Nat.pos_of_ne_zero hne)
    (zeroScored_nodup (F := F) hfew)
  refine ⟨_, by rw [singleQuery, if_neg hne, scoreAll_zeros hzero]; rfl, fun i hi => ?_⟩
  rw [SparseVectors.length_rows]
  generalize (DedupeTopKHolder.new Q (vectors.numVectors : ℤ)).addAll id
    (zeroScored F 0 vectors.numVectors) = holder at hheld
  obtain ⟨items, hitems, -, hdrained⟩ := holder.drained INVALID_IDX (-1)
  -- nothing was turned away
  have hcount : (offeredBy (zeroScored F 0 vectors.numVectors)).card = vectors.numVectors := by
    rw [card_offeredBy, zeroScored, List.length_map, List.length_range']
  have hall : holder.items = offeredBy (zeroScored F 0 vectors.numVectors) := by
    refine Multiset.eq_of_le_of_card_le hheld.best.le ?_
    rw [hheld.best.card_eq, hcount, min_self]
  have hlabels : (i : ℤ) ∈ items.map TopKItem.id := by
    have hoffered : (⟨0, (i : ℤ)⟩ : TopKItem F ℤ) ∈ holder.items := by
      rw [hall, offeredBy, Multiset.mem_coe]
      refine List.mem_map.mpr ⟨(0, toIdx i), ?_, ?_⟩
      · exact List.mem_map.mpr ⟨i, List.mem_range'_1.mpr ⟨Nat.zero_le i, by omega⟩, rfl⟩
      · rw [toIdx_eq_self_iff.mpr (by omega)]
    rw [← hitems] at hoffered
    exact List.mem_map.mpr ⟨_, Multiset.mem_coe.mp hoffered, rfl⟩
  have hroom : items.length ≤ holder.k.toNat := by
    rw [← Multiset.coe_card, hitems, hheld.cap]
    exact hheld.best.card_le
  simp only [hdrained]
  rw [resize_of_length_le (by rwa [List.length_map])]
  exact List.mem_append_left _ hlabels

/-- So does a search with one query that has no terms, over as many zeros as the documents need. -/
theorem search_all {x : BrutalIndex F} (hx : x.Answers vectors) {spare : ℕ}
    (hterms : TermsBelow (x.dimension + spare) vectors.rows)
    (hfew : vectors.numVectors < 2 ^ 31) (hne : vectors.numVectors ≠ 0) :
    ∃ row : List F × List ℤ,
      x.searchOver Q (List.replicate spare 0) 1 [0, 0] [] [] vectors.numVectors
        = .ok ([row.1], [row.2]) ∧
      ∀ i < vectors.numVectors, (i : ℤ) ∈ row.2 := by
  have hzero : ∀ row ∈ vectors.rows, dotProductFloatDense
      (List.replicate x.dimension 0 ++ List.replicate spare 0) row = some 0 := by
    intro row hrow
    rw [List.replicate_append_replicate]
    exact dotProductFloatDense_zeros (hterms row hrow)
  obtain ⟨row, hrow, hall⟩ := singleQuery_all (Q := Q) hfew hne hzero
  refine ⟨row, ?_, hall⟩
  have hnew : SparseVectors.new (V := F) kElementSize x.dimension
      = .ok ⟨kElementSize, x.dimension, [], [], []⟩ := if_neg hx.positive.ne'
  unfold searchOver
  rw [hx.holds]
  dsimp only
  rw [if_neg one_ne_zero, hnew]
  show searchQueriesOver Q _ x.dimension vectors vectors.numVectors [[]] = _
  simp only [searchQueriesOver]
  show (singleQuery Q vectors (List.replicate x.dimension 0 ++ _) vectors.numVectors >>= _) = _
  rw [hrow]
  rfl

end BrutalIndex

/-! ### The inverted index -/

section Inverted

variable [Ring F] [LinearOrder F] {Q : ItemQueue F ℤ} {sel : Option IDSelector} {k : ℕ}
  {P : ℤ → Prop}

/-- The scorer is at one of its postings or past them, and their documents are as `P` says. -/
structure DirectTermScorer.Reads (s : DirectTermScorer F) (P : ℤ → Prop) : Prop where
  start : 0 ≤ s.currentIndex
  size : s.listSize ≤ s.docIds.length
  docs : ∀ doc ∈ s.docIds, P doc

namespace DirectTermScorer

variable {s : DirectTermScorer F}

omit [Ring F] [LinearOrder F] in
theorem Reads.docAt (h : s.Reads P) (hleft : ¬ s.listSize ≤ s.currentIndex) :
    P (s.docAt s.currentIndex) := by
  have hlt : s.currentIndex.toNat < s.docIds.length := by
    have hstart := h.start
    have hsize := h.size
    omega
  unfold DirectTermScorer.docAt
  rw [List.getD_eq_getElem _ _ hlt]
  exact h.docs _ (List.getElem_mem hlt)

omit [Ring F] [LinearOrder F] in
theorem Reads.nextDoc (h : s.Reads P) : s.nextDoc.Reads P :=
  ⟨Int.add_nonneg h.start Int.one_nonneg, h.size, h.docs⟩

omit [Ring F] [LinearOrder F] in
theorem Reads.advanceTo (h : s.Reads P) (doc : ℤ) : (s.advanceTo doc).Reads P := by
  unfold DirectTermScorer.advanceTo
  split
  · -- past its postings
    exact h
  split
  · -- at the document or behind it
    exact h
  · rename_i hleft _
    have hstart : 0 ≤ (if s.currentIndex < 0 then 0 else s.currentIndex + 1) := by
      split
      · exact le_rfl
      · exact Int.add_nonneg h.start Int.one_nonneg
    refine ⟨?_, h.size, h.docs⟩
    dsimp only
    generalize (if s.currentIndex < 0 then 0 else s.currentIndex + 1) = start at hstart ⊢
    split
    · exact h.start.trans (not_le.mp hleft).le
    · exact Int.add_nonneg hstart (Int.natCast_nonneg _)

end DirectTermScorer

/-- Every marked slot of the window is that of a document as `P` says. -/
def ScoreWindow.Marks (w : ScoreWindow F) (base : ℤ) (P : ℤ → Prop) : Prop :=
  ∀ slot, BitSet.isMarked w.bitmap slot = true → P (base + slot)

omit [LinearOrder F] in
theorem scorePostings_marks {base : ℤ} (windowEnd : ℤ) (fuel : ℕ) {s : DirectTermScorer F}
    {w : ScoreWindow F} (hs : s.Reads P) (hw : w.Marks base P) :
    (scorePostings base windowEnd fuel s w).1.Reads P ∧
      (scorePostings base windowEnd fuel s w).2.Marks base P := by
  induction fuel generalizing s w with
  | zero => exact ⟨hs, hw⟩
  | succ fuel ih =>
      unfold scorePostings
      split
      · -- past its postings
        exact ⟨hs, hw⟩
      rename_i hleft
      dsimp only
      split
      · -- the rest is for later windows
        exact ⟨hs, hw⟩
      split
      · -- an earlier window's, which nothing marked
        exact ih hs.nextDoc hw
      · -- a posting of the window
        rename_i hbase
        refine ih hs.nextDoc fun slot hslot => ?_
        rcases BitSet.isMarked_of_mark hslot with hbefore | rfl
        · exact hw slot hbefore
        · rw [Int.toNat_of_nonneg (by omega), add_sub_cancel]
          exact hs.docAt hleft

omit [LinearOrder F] in
theorem scoreEssentialTerms_marks {base : ℤ} (windowEnd : ℤ) {scorers : List (DirectTermScorer F)}
    {w : ScoreWindow F} (hs : ∀ s ∈ scorers, s.Reads P) (hw : w.Marks base P) :
    (∀ s ∈ (scoreEssentialTerms base windowEnd scorers w).1, s.Reads P) ∧
      (scoreEssentialTerms base windowEnd scorers w).2.Marks base P := by
  induction scorers generalizing w with
  | nil => exact ⟨hs, hw⟩
  | cons s scorers ih =>
      obtain ⟨hfirst, hrest⟩ := List.forall_mem_cons.mp hs
      obtain ⟨hscorer, hmarks⟩ := scorePostings_marks windowEnd
        (s.listSize - s.currentIndex).toNat hfirst hw
      obtain ⟨hscorers, hall⟩ := ih hrest hmarks
      exact ⟨List.forall_mem_cons.mpr ⟨hscorer, hscorers⟩, hall⟩

theorem scoreNonEssential_reads {maxScorePrefix : List F} {threshold total : F} {doc : ℤ} {j : ℕ}
    {scorers : List (DirectTermScorer F)} (hs : ∀ s ∈ scorers, s.Reads P) :
    ∀ s ∈ (scoreNonEssential maxScorePrefix threshold doc j scorers total).1, s.Reads P := by
  induction j generalizing scorers total with
  | zero => exact hs
  | succ j ih =>
      unfold scoreNonEssential
      split
      · exact hs
      · rename_i s hj
        have hset : ∀ t ∈ scorers.set j (s.advanceTo doc), t.Reads P := by
          intro t ht
          rcases List.mem_or_eq_of_mem_set ht with hold | rfl
          · exact hs t hold
          · exact (hs s (List.mem_of_getElem? hj)).advanceTo doc
        dsimp only
        generalize (if (s.advanceTo doc).docId = doc then _ else total) = sum
        split
        · exact hset
        · exact ih hset

/-- The heap was offered documents that pass and are as `P` says. -/
def OfferedPassing (heap : TopKHolder Q) (k : ℕ) (sel : Option IDSelector) (P : ℤ → Prop) : Prop :=
  heap.Offered k fun x => IDSelector.passes sel x.id = true ∧ P x.id

/-- What the loop over a window's candidates keeps. -/
structure CandidateState.Offers (c : CandidateState Q) (k : ℕ) (sel : Option IDSelector)
    (P : ℤ → Prop) : Prop where
  reads : ∀ s ∈ c.scorers, s.Reads P
  offered : OfferedPassing c.heap k sel P

theorem evaluateSlot_offers (fe : ℕ) {base : ℤ} (maxScorePrefix : List F) {c : CandidateState Q}
    (hc : c.Offers k sel P) {slot : ℕ} (hslot : P (base + slot)) :
    (evaluateSlot fe base maxScorePrefix sel c slot).Offers k sel P := by
  obtain ⟨hreads, hoffered⟩ := hc
  unfold evaluateSlot
  dsimp only
  split
  · -- its bound does not beat the threshold
    exact ⟨hreads, hoffered⟩
  · split
    · -- the selector turns it down
      exact ⟨hreads, hoffered⟩
    · rename_i hpasses
      exact ⟨scoreNonEssential_reads hreads, hoffered.add ⟨by simpa using hpasses, hslot⟩⟩

theorem evaluateSlots_offers (fe : ℕ) {base : ℤ} (maxScorePrefix : List F) {slots : List ℕ}
    (hslots : ∀ slot ∈ slots, P (base + slot)) {c : CandidateState Q} (hc : c.Offers k sel P) :
    (slots.foldl (evaluateSlot fe base maxScorePrefix sel) c).Offers k sel P := by
  induction slots generalizing c with
  | nil => exact hc
  | cons slot slots ih =>
      obtain ⟨hslot, hslots⟩ := List.forall_mem_cons.mp hslots
      exact ih hslots (evaluateSlot_offers fe maxScorePrefix hc hslot)

theorem evaluateWindowCandidates_offers (fe : ℕ) {base : ℤ} (maxScorePrefix : List F)
    {w : ScoreWindow F} (hw : w.Marks base P) (windowScores : List F)
    {scorers : List (DirectTermScorer F)} (hs : ∀ s ∈ scorers, s.Reads P) {heap : TopKHolder Q}
    (hheap : OfferedPassing heap k sel P) :
    (evaluateWindowCandidates fe base maxScorePrefix sel w.bitmap scorers windowScores heap).Offers
      k sel P := by
  rw [evaluateWindowCandidates, BitSet.foldMarked_eq]
  exact evaluateSlots_offers fe maxScorePrefix
    (fun slot hslot => hw slot (List.mem_filter.mp hslot).2) ⟨hs, hheap⟩

/-- What the main loop keeps. -/
structure SearchState.Offers (s : SearchState Q) (k : ℕ) (sel : Option IDSelector)
    (P : ℤ → Prop) : Prop where
  reads : ∀ t ∈ s.scorers, t.Reads P
  offered : OfferedPassing s.heap k sel P

theorem searchWindow_offers {maxScorePrefix : List F} {s s' : SearchState Q}
    (hs : s.Offers k sel P) (h : searchWindow maxScorePrefix sel s = some s') :
    s'.Offers k sel P := by
  unfold searchWindow at h
  dsimp only at h
  generalize (if s.heap.full then _ else s.firstEssential) = fe at h
  split at h
  · cases h
  · obtain rfl := Option.some.inj h
    generalize (minDocId (s.scorers.drop fe)).tdiv kScoreWindowSize * kScoreWindowSize = base
    -- nothing is marked at first
    have hclear : (⟨s.windowScores, List.replicate kBitmapWords 0⟩ : ScoreWindow F).Marks base P := by
      intro slot hslot
      rw [BitSet.isMarked_replicate_zero] at hslot
      cases hslot
    have hdropped : ∀ t ∈ s.scorers.drop fe, t.Reads P := fun t ht =>
      hs.reads t (List.mem_of_mem_drop ht)
    have hscored := scoreEssentialTerms_marks (toIdx (base + kScoreWindowSize)) hdropped hclear
    generalize scoreEssentialTerms base (toIdx (base + kScoreWindowSize)) (s.scorers.drop fe)
      ⟨s.windowScores, List.replicate kBitmapWords 0⟩ = scored at hscored ⊢
    obtain ⟨hessential, hmarks⟩ := hscored
    -- the scorers that were not essential stand where they stood
    have hscorers : ∀ t ∈ s.scorers.take fe ++ scored.1, t.Reads P := by
      intro t ht
      rcases List.mem_append.mp ht with hleft | hright
      · exact hs.reads t (List.mem_of_mem_take hleft)
      · exact hessential t hright
    have hwindow := evaluateWindowCandidates_offers fe maxScorePrefix hmarks
      scored.2.windowScores hscorers hs.offered
    exact ⟨hwindow.reads, hwindow.offered⟩

namespace InvertedIndex

variable {sort : StdSort} {fuel : ℕ} {lists : List (InvertedList F)} {maxTermScores : List F}
  {k : ℤ}

/-- The document has a posting in the list of a term of the query. -/
def Posted (lists : List (InvertedList F)) (terms : List ℕ) (doc : ℤ) : Prop :=
  ∃ term ∈ terms, ∃ list, lists[term]? = some list ∧ doc ∈ list.docIds

omit [LinearOrder F] in
theorem buildScorer_reads {terms : List ℕ} {term : ℕ} (hterm : term ∈ terms) (weight : F) :
    (buildScorer lists maxTermScores term weight).Reads (Posted lists terms) := by
  unfold buildScorer
  split
  · exact ⟨le_rfl, le_rfl, fun _ hdoc => absurd hdoc List.not_mem_nil⟩
  · rename_i list hlist
    refine ⟨le_rfl, ?_, fun doc hdoc => ⟨term, hterm, list, hlist, hdoc⟩⟩
    show toIdx list.size ≤ (list.size : ℤ)
    by_cases hsmall : (list.size : ℤ) < 2 ^ 31
    · exact (toIdx_eq_self_iff.mpr (by exact_mod_cast hsmall)).le
    · exact (toIdx_lt _).le.trans (not_lt.mp hsmall)

/-- **A row of the inverted index**: documents that pass and have a posting. -/
theorem singleQuery_filled {indices : List ℕ} {values : List F} {windowScores left : List F}
    {row : List F × List ℤ}
    (h : singleQuery Q sort fuel lists maxTermScores windowScores indices values k sel
      = some (.ok row, left)) :
    FilledRow k.toNat (fun x => IDSelector.passes sel x.id = true ∧ Posted lists indices x.id) id
      row := by
  unfold singleQuery at h
  split at h
  · split at h
    · cases h
    · obtain rfl := Except.ok.inj (Prod.mk.inj (Option.some.inj h)).1
      exact filledRow_replicate _ _ _
  · split at h
    · cases h
    · rename_i heap hnew
      dsimp only at h
      split at h
      · cases h
      · rename_i s hloop
        obtain rfl := Except.ok.inj (Prod.mk.inj (Option.some.inj h)).1
        -- sorting the scorers by their bounds loses none
        have hreads : ∀ t ∈ (buildScorers sort indices values lists maxTermScores).1,
            t.Reads (Posted lists indices) := by
          intro t ht
          obtain ⟨⟨term, weight⟩, hentry, rfl⟩ := List.mem_map.mp ((sort.perm _ _).mem_iff.mp ht)
          exact buildScorer_reads (List.of_mem_zip hentry).1 weight
        have hoffers : s.Offers k.toNat sel (Posted lists indices) := by
          refine Loop.iterate_invariant
            (fun s : SearchState Q => s.Offers k.toNat sel (Posted lists indices)) ?_ hloop
            ⟨hreads, TopKHolder.offered_new hnew _⟩
          intro s s' hs hround
          exact searchWindow_offers hs hround
        have hrow := filledRow_of_offered id hoffers.offered
        rwa [paddedResult, List.map_id] at hrow

theorem searchQueries_filled {queries : List (SparseRow F)} {windowScores left : List F}
    {rows : SearchRows F}
    (h : searchQueries Q sort fuel lists maxTermScores k sel queries windowScores
      = some (.ok rows, left)) :
    FilledRows k.toNat (fun query x => IDSelector.passes sel x.id = true ∧
      Posted lists (query.map Prod.fst) x.id) id queries rows := by
  induction queries generalizing windowScores left rows with
  | nil =>
      obtain rfl := Except.ok.inj (Prod.mk.inj (Option.some.inj h)).1
      exact filledRows_nil
  | cons query queries ih =>
      unfold searchQueries at h
      split at h
      · cases h
      · cases h
      · rename_i hsingle
        split at h
        · cases h
        · cases h
        · rename_i hrest
          obtain rfl := Except.ok.inj (Prod.mk.inj (Option.some.inj h)).1
          exact (ih hrest).cons (singleQuery_filled hsingle)

/-- **What a search of an inverted index returns**: a filled row for every query, unless there are
no lists. -/
theorem search_filled {x : InvertedIndex F} {queries : CsrArgs F} {indptr indices : List ℕ}
    {values windowScores left : List F} {rows : SearchRows F}
    (hqueries : queries.checked = .ok (indptr, indices, values))
    (h : x.search Q sort fuel windowScores queries.n indptr indices values k sel
      = some (.ok rows, left)) :
    (rows = emptyRows F queries.n ∧ x.invertedLists = none) ∨
      ∃ lists, x.invertedLists = some lists ∧
        FilledRows k.toNat (fun query x => IDSelector.passes sel x.id = true ∧
          Posted lists (query.map Prod.fst) x.id) id queries.rows rows := by
  have hn := (CsrArgs.checked_eq_ok hqueries).1
  unfold search at h
  split at h
  · rename_i hnone
    exact Or.inl ⟨(Except.ok.inj (Prod.mk.inj (Option.some.inj h)).1).symm, hnone⟩
  · rename_i lists hlists
    rw [if_neg hn.ne'] at h
    dsimp only at h
    split at h
    · cases h
    · rename_i stored hstored
      obtain ⟨empty, hempty, hstored⟩ := bind_eq_ok hstored
      rw [rows_storedFloats hqueries hempty hstored] at h
      exact Or.inr ⟨lists, hlists, searchQueries_filled h⟩

end InvertedIndex

end Inverted

end Nsparse
