/-
Nsparse/WindowPostings.lean

What inverting a window computes.

Whatever the counts, the windows follow one another over the whole term space
(`makeWindows_contiguous`).  Within a window the arrays hold the postings met so far
and zeros behind them (`filled`); adding a posting to a term that still lacks some
moves one from the corpus into its array, so a scan of a corpus that matches the
counts never throws and leaves each term its posting list
(`windowLists_eq_postingLists`).
-/
import Nsparse.Windows

namespace Nsparse

/-! ### The windows -/

/-- The windows follow one another from the term `a` up to the term `b`. -/
def Contiguous : ℕ → ℕ → List TermWindow → Prop
  | a, b, [] => a = b
  | a, b, w :: ws => w.start = a ∧ a ≤ w.stop ∧ w.stop ≤ b ∧ Contiguous w.stop b ws

theorem growWindow_bounds (termCounts : List ℕ) (lambda start maxEnd target fuel stop load : ℕ) :
    stop ≤ (growWindow termCounts lambda start maxEnd target fuel stop load).1 ∧
      (growWindow termCounts lambda start maxEnd target fuel stop load).1 ≤ max stop maxEnd := by
  induction fuel generalizing stop load with
  | zero => exact ⟨le_rfl, le_max_left _ _⟩
  | succ fuel ih =>
      rw [growWindow]
      split
      · rename_i h
        obtain ⟨hlo, hhi⟩ := ih (stop + 1) (load + loadOf lambda (termCounts.getD stop 0))
        refine ⟨by omega, hhi.trans ?_⟩
        omega
      · exact ⟨le_rfl, le_max_left _ _⟩

/-- The last window takes all terms that are left. -/
theorem lastWindow_contiguous {start dim : ℕ} (h : start ≤ dim) :
    Contiguous start dim (if start < dim then [⟨start, dim⟩] else []) := by
  split
  · exact ⟨rfl, h, le_rfl, rfl⟩
  · show start = dim
    omega

theorem makeWindowsFrom_contiguous (termCounts : List ℕ) (lambda windowsLeft start load : ℕ)
    (h : start ≤ termCounts.length) :
    Contiguous start termCounts.length
      (makeWindowsFrom termCounts lambda windowsLeft start load) := by
  induction windowsLeft using Nat.twoStepInduction generalizing start load with
  | zero => exact lastWindow_contiguous h
  | one => exact lastWindow_contiguous h
  | more windowsLeft _ ih =>
      rw [makeWindowsFrom]
      split
      · obtain ⟨hlo, hhi⟩ := growWindow_bounds termCounts lambda start
          (termCounts.length - (windowsLeft + 1))
          ((load + (windowsLeft + 2) - 1) / (windowsLeft + 2))
          (termCounts.length - (windowsLeft + 1) - start) start 0
        have hstop := hhi.trans (max_le h (Nat.sub_le _ (windowsLeft + 1)))
        exact ⟨rfl, hlo, hstop, ih _ _ hstop⟩
      · show start = termCounts.length
        omega

/-- **The windows cover the term space** without gap or overlap, in order. -/
theorem makeWindows_contiguous (termCounts : List ℕ) (lambda batches : ℕ) :
    Contiguous 0 termCounts.length (makeWindows termCounts lambda batches) :=
  makeWindowsFrom_contiguous termCounts lambda batches 0 _ (Nat.zero_le _)

/-! ### Filling a window -/

variable {window : TermWindow} {elementSize : ℕ} {counts : ℕ → ℕ}
  {done : ℕ → List (ℤ × Code)}

/-- The arrays of a window after `done i` has been filled into those of its `i`-th term, with
`counts i` slots in all. -/
def filled (window : TermWindow) (elementSize : ℕ) (counts : ℕ → ℕ)
    (done : ℕ → List (ℤ × Code)) : WindowLists where
  ids := (List.range window.size).map fun i =>
    (done i).map Prod.fst ++ List.replicate (counts i - (done i).length) 0
  codes := (List.range window.size).map fun i =>
    (done i).map Prod.snd
      ++ List.replicate (counts i - (done i).length) (List.replicate elementSize 0)
  fill := (List.range window.size).map fun i => (done i).length

theorem filled_congr {done' : ℕ → List (ℤ × Code)} (h : ∀ i < window.size, done i = done' i) :
    filled window elementSize counts done = filled window elementSize counts done' := by
  unfold filled
  congr 1 <;> refine List.map_congr_left fun i hi => ?_ <;> rw [h i (List.mem_range.mp hi)]

theorem new_eq_filled (termCounts : List ℕ) :
    WindowLists.new termCounts window elementSize
      = filled window elementSize (fun i => termCounts.getD (window.start + i) 0)
          fun _ => [] := by
  simp [WindowLists.new, filled, Function.comp_def]

theorem modify_map_range {α : Type} (n : ℕ) (f : ℕ → α) (i : ℕ) (g : α → α) :
    ((List.range n).map f).modify i g = (List.range n).map (Function.update f i (g (f i))) := by
  apply List.ext_getElem
  · simp
  · intro j hj hj'
    rw [List.getElem_modify]
    by_cases h : i = j
    · subst h
      simp
    · simp [h, Function.update_of_ne (Ne.symm h)]

theorem set_append_replicate {α : Type} (l : List α) {n : ℕ} (hn : 0 < n) (x y : α) :
    (l ++ List.replicate n x).set l.length y = (l ++ [y]) ++ List.replicate (n - 1) x := by
  obtain ⟨n, rfl⟩ : ∃ m, n = m + 1 := ⟨n - 1, by omega⟩
  simp [List.replicate_succ]

/-- A term that still lacks a posting takes one. -/
theorem add_filled {i : ℕ} (hi : i < window.size) (hlt : (done i).length < counts i) (docId : ℤ)
    (code : Code) :
    (filled window elementSize counts done).add i docId code
      = .ok (filled window elementSize counts
          (Function.update done i (done i ++ [(docId, code)]))) := by
  have hslot : (filled window elementSize counts done).fill.getD i 0 = (done i).length := by
    simp [filled, List.getD_eq_getElem?_getD, hi]
  have hroom : ((filled window elementSize counts done).ids.getD i []).length = counts i := by
    simp only [filled, List.getD_eq_getElem?_getD, List.getElem?_map, List.getElem?_range hi,
      Option.map_some, Option.getD_some, List.length_append, List.length_map,
      List.length_replicate]
    omega
  rw [WindowLists.add, hslot, hroom, if_neg (not_le.mpr hlt)]
  have hpos : 0 < counts i - (done i).length := by omega
  have hids := set_append_replicate ((done i).map Prod.fst) hpos 0 docId
  have hcodes := set_append_replicate ((done i).map Prod.snd) hpos
    (List.replicate elementSize 0) code
  rw [List.length_map] at hids hcodes
  simp only [filled, modify_map_range, hids, hcodes]
  congr 1
  -- each array differs from the old one at `i` only
  congr 1 <;> refine List.map_congr_left fun j _ => ?_
  all_goals
    rcases eq_or_ne j i with rfl | hj
    · simp [Nat.sub_sub]
    · simp [Function.update_of_ne hj]

/-- The entries of a document that belong to the `i`-th term of a window. -/
def entriesAt (window : TermWindow) (row : SparseRow Code) (i : ℕ) : SparseRow Code :=
  row.filter fun entry => entry.1 = window.start + i

theorem fillRow_filled (docId : ℤ) (row : SparseRow Code)
    (h : ∀ i < window.size, (done i).length + (entriesAt window row i).length ≤ counts i) :
    fillRow window docId (filled window elementSize counts done) row
      = .ok (filled window elementSize counts fun i =>
          done i ++ (entriesAt window row i).map fun entry => (docId, entry.2)) := by
  unfold fillRow
  induction row generalizing done with
  | nil => simp only [entriesAt, List.filter_nil, List.map_nil, List.append_nil]; rfl
  | cons entry row ih =>
      rw [List.foldlM_cons]
      by_cases hout : entry.1 < window.start ∨ window.stop ≤ entry.1
      · have hskip : ∀ i < window.size, entriesAt window (entry :: row) i = entriesAt window row i := by
          intro i hi
          rw [entriesAt, List.filter_cons_of_neg]
          · rfl
          · have : window.size = window.stop - window.start := rfl
            simp only [decide_eq_true_eq]
            omega
        rw [if_pos hout]
        show List.foldlM _ (filled window elementSize counts done) row = _
        rw [ih fun i hi => by rw [← hskip i hi]; exact h i hi]
        exact congrArg _ (filled_congr fun i hi => by rw [hskip i hi])
      · obtain ⟨i, hi, hentry⟩ : ∃ i < window.size, entry.1 = window.start + i :=
          ⟨entry.1 - window.start, by unfold TermWindow.size; omega, by omega⟩
        have hlocal : entry.1 - window.start = i := by omega
        have hhere : entriesAt window (entry :: row) i = entry :: entriesAt window row i := by
          rw [entriesAt, List.filter_cons_of_pos (by simp [hentry])]
          rfl
        have hother : ∀ j, j ≠ i → entriesAt window (entry :: row) j = entriesAt window row j := by
          intro j hj
          rw [entriesAt, List.filter_cons_of_neg]
          · rfl
          · simp only [hentry, decide_eq_true_eq]
            omega
        have hlt : (done i).length < counts i := by
          have := h i hi
          rw [hhere, List.length_cons] at this
          omega
        rw [if_neg hout, hlocal, add_filled hi hlt]
        show List.foldlM _ (filled window elementSize counts
          (Function.update done i (done i ++ [(docId, entry.2)]))) row = _
        rw [ih]
        · refine congrArg _ (filled_congr fun j _ => ?_)
          by_cases hj : j = i
          · subst hj
            simp [hhere]
          · simp [Function.update_of_ne hj, hother j hj]
        · intro j hj
          have hcount := h j hj
          by_cases hji : j = i
          · subst hji
            rw [hhere, List.length_cons] at hcount
            rw [Function.update_self, List.length_append, List.length_singleton]
            omega
          · rw [hother j hji] at hcount
            rwa [Function.update_of_ne hji]

/-- Scanning documents from position `first` on appends their postings. -/
theorem fillRows_filled (first : ℕ) (rows : List (SparseRow Code))
    (h : ∀ i < window.size, (done i).length
      + (postingsFrom first rows (window.start + i)).length ≤ counts i) :
    (rows.zipIdx first).foldlM (fun lists r => fillRow window (r.2 : ℕ) lists r.1)
        (filled window elementSize counts done)
      = .ok (filled window elementSize counts fun i => done i
          ++ (postingsFrom first rows (window.start + i)).map fun p => ((p.1 : ℤ), p.2)) := by
  induction rows generalizing first done with
  | nil =>
      simp only [postingsFrom, List.zipIdx_nil, List.flatMap_nil, List.map_nil, List.append_nil]
      rfl
  | cons row rows ih =>
      have hsplit : ∀ i, postingsFrom first (row :: rows) (window.start + i)
          = ((entriesAt window row i).map fun entry => (first, entry.2))
            ++ postingsFrom (first + 1) rows (window.start + i) := fun i =>
        postingsFrom_cons first row rows (window.start + i)
      have hcount : ∀ i < window.size, (done i).length + (entriesAt window row i).length
          + (postingsFrom (first + 1) rows (window.start + i)).length ≤ counts i := by
        intro i hi
        have := h i hi
        rw [hsplit, List.length_append, List.length_map] at this
        omega
      rw [List.zipIdx_cons, List.foldlM_cons,
        fillRow_filled first row fun i hi => by have := hcount i hi; omega]
      show List.foldlM _ (filled window elementSize counts _) (rows.zipIdx (first + 1)) = _
      rw [ih (first + 1) fun i hi => by
        rw [List.length_append, List.length_map]
        exact hcount i hi]
      refine congrArg _ (congrArg _ (funext fun i => ?_))
      rw [hsplit, List.map_append, List.map_map, ← List.append_assoc]
      rfl

/-! ### The lists of a window -/

/-- Full arrays are handed over as posting lists. -/
theorem sealed_filled (hfull : ∀ i < window.size, (done i).length = counts i) :
    (filled window elementSize counts done).sealed
      = .ok ((List.range window.size).map fun i => .ofPostings (done i)) := by
  have hzip : (filled window elementSize counts done).ids.zip
      (filled window elementSize counts done).codes
        = (List.range window.size).map fun i => ((done i).map Prod.fst, (done i).map Prod.snd) := by
    rw [filled, List.zip_map']
    refine List.map_congr_left fun i hi => ?_
    rw [hfull i (List.mem_range.mp hi)]
    simp
  rw [WindowLists.sealed, hzip, List.mapM_map]
  refine mapM_eq_ok fun i _ => ?_
  simp [InvertedList.setEntries, InvertedList.ofPostings]

variable {vectors : SparseVectors Code} {dim : ℕ}

/-- The counting pass finds the number of postings of every term. -/
theorem countPostingsPerTerm_eq_ok (hv : vectors.WellFormed)
    (hterms : TermsBelow dim vectors.rows) :
    ∃ counts, countPostingsPerTerm vectors dim = .ok counts ∧ counts.length = dim ∧
      ∀ t < dim, counts.getD t 0 = (postingsOf vectors.rows t).length := by
  have hbelow : ∀ term ∈ vectors.indices, term < dim := by
    intro term hterm
    rw [← hv.map_fst_entries, ← hv.flatten_rows] at hterm
    obtain ⟨entry, hentry, rfl⟩ := List.mem_map.mp hterm
    obtain ⟨row, hrow, hmem⟩ := List.mem_flatten.mp hentry
    exact hterms row hrow entry hmem
  have hfold : ∀ (terms : List ℕ) (counts : List ℕ), (∀ term ∈ terms, term < dim) →
      terms.foldlM (fun counts term =>
          if dim ≤ term then
            .error (.invalidArgument
              s!"for_each_clustered_window: corpus has term {term} outside dimension {dim}")
          else .ok (counts.modify term (· + 1))) counts
        = (.ok (terms.foldl (fun counts term => counts.modify term (· + 1)) counts) :
            Except Exception (List ℕ)) := by
    intro terms
    induction terms with
    | nil => intro counts _; rfl
    | cons term terms ih =>
        intro counts hall
        obtain ⟨hterm, hall⟩ := List.forall_mem_cons.mp hall
        rw [List.foldlM_cons, if_neg (not_le.mpr hterm)]
        exact ih _ hall
  have hlen : ∀ (terms : List ℕ) (counts : List ℕ),
      (terms.foldl (fun counts term => counts.modify term (· + 1)) counts).length
        = counts.length := by
    intro terms
    induction terms with
    | nil => intro counts; rfl
    | cons term terms ih => intro counts; rw [List.foldl_cons, ih, List.length_modify]
  refine ⟨_, by
    rw [countPostingsPerTerm, hv.getD_numVectors, List.take_length]
    exact hfold _ _ hbelow, ?_, ?_⟩
  · rw [hlen, List.length_replicate]
  · intro t ht
    have hcount := getD_foldl_count vectors.entries (List.replicate dim 0)
      (by simpa using ht : t < (List.replicate dim 0).length)
    rw [← hv.map_fst_entries, List.foldl_map, hcount, postingsOf, length_postingsFrom,
      hv.flatten_rows]
    simp [List.getD_eq_getElem?_getD, ht]

/-- The counting pass throws on a term at or above the dimension. -/
theorem countPostingsPerTerm_eq_error (hv : vectors.WellFormed)
    (hterms : ¬ TermsBelow dim vectors.rows) :
    ∃ e, countPostingsPerTerm vectors dim = .error e := by
  have habove : ∃ term ∈ vectors.indices, dim ≤ term := by
    by_contra hnone
    refine hterms fun row hrow entry hentry => ?_
    by_contra hlt
    refine hnone ⟨entry.1, ?_, not_lt.mp hlt⟩
    rw [← hv.map_fst_entries, ← hv.flatten_rows]
    exact List.mem_map.mpr ⟨entry, List.mem_flatten.mpr ⟨row, hrow, hentry⟩, rfl⟩
  rw [countPostingsPerTerm, hv.getD_numVectors, List.take_length]
  generalize List.replicate dim 0 = counts
  -- by induction on the terms: one below the dimension is counted, the first other one throws
  revert counts habove
  induction vectors.indices with
  | nil => exact fun ⟨_, hmem, _⟩ _ => absurd hmem List.not_mem_nil
  | cons first terms ih =>
      rintro ⟨term, hmem, hle⟩ counts
      rw [List.foldlM_cons]
      by_cases hfirst : dim ≤ first
      · rw [if_pos hfirst]
        exact ⟨_, rfl⟩
      · rw [if_neg hfirst]
        rcases List.mem_cons.mp hmem with rfl | hmem
        · exact absurd hle hfirst
        · exact ih ⟨term, hmem, hle⟩ _

/-- **A window's lists** are the posting lists of its terms. -/
theorem windowLists_eq_postingLists (hsize : vectors.numVectors < 2 ^ 31) {termCounts : List ℕ}
    (hcounts : ∀ i < window.size, termCounts.getD (window.start + i) 0
      = (postingsOf vectors.rows (window.start + i)).length) :
    ((fillFromCorpus vectors window (WindowLists.new termCounts window elementSize)).bind
        WindowLists.sealed)
      = .ok ((List.range window.size).map fun i =>
          postingList vectors.rows (window.start + i)) := by
  have hdocs : (toIdx vectors.numVectors).toNat = vectors.numVectors := by
    rw [toIdx_eq_self_iff.mpr hsize]
    rfl
  have hscan : fillFromCorpus vectors window (WindowLists.new termCounts window elementSize)
      = (vectors.rows.zipIdx 0).foldlM (fun lists r => fillRow window (r.2 : ℕ) lists r.1)
          (WindowLists.new termCounts window elementSize) := by
    rw [SparseVectors.zipIdx_rows, List.foldlM_map, fillFromCorpus, hdocs]
  rw [hscan, new_eq_filled, fillRows_filled]
  · show WindowLists.sealed _ = _
    rw [sealed_filled]
    · refine congrArg _ (List.map_congr_left fun i _ => ?_)
      have hids : ∀ term, postingList vectors.rows term
          = .ofPostings ((postingsOf vectors.rows term).map fun p => ((p.1 : ℤ), p.2)) := by
        refine postingList_eq_iff.mpr fun j row hrow _ => ?_
        have hj := (List.getElem?_eq_some_iff.mp hrow).1
        rw [SparseVectors.length_rows] at hj
        omega
      rw [hids]
      rfl
    · intro i hi
      rw [List.nil_append, List.length_map, hcounts i hi]
      rfl
  · intro i hi
    rw [hcounts i hi, List.length_nil, zero_add]
    rfl

end Nsparse
