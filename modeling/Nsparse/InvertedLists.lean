/-
Nsparse/InvertedLists.lean

Posting lists: for every term, the documents that hold it with their values.

`buildInvertedLists` is the source's two passes: one that counts each term's
entries and rejects a term outside the dimension, one that appends every entry to
its term's buffers.  `postingsOf` says in one line what a posting list should be,
and `buildInvertedLists_eq` that the passes compute it.
-/
import Nsparse.Lib.Buckets
import Nsparse.SparseVectors

namespace Nsparse

variable {V : Type}

/-- A term's postings: document ids, and the stored values beside them. -/
structure InvertedList (V : Type) where
  docIds : List ℤ
  codes : List V
  deriving Repr, DecidableEq

namespace InvertedList

def empty : InvertedList V := ⟨[], []⟩

def size (l : InvertedList V) : ℕ := l.docIds.length

/-- Replace the contents; there has to be one value per document. -/
def setEntries (docIds : List ℤ) (codes : List V) : Except Exception (InvertedList V) :=
  if codes.length ≠ docIds.length then
    .error (.invalidArgument "codes must hold one element_size-wide value per doc id")
  else .ok ⟨docIds, codes⟩

/-- The largest value, or zero when none is positive. -/
def maxValue {F : Type} [Zero F] [LT F] [DecidableLT F] (l : InvertedList F) : F :=
  l.codes.foldl (fun maxVal v => if maxVal < v then v else maxVal) 0

/-- A list of document/value pairs as a posting list. -/
def ofPostings (ps : List (ℤ × V)) : InvertedList V := ⟨ps.map Prod.fst, ps.map Prod.snd⟩

def postings (l : InvertedList V) : List (ℤ × V) := l.docIds.zip l.codes

@[simp] theorem ofPostings_nil : (ofPostings [] : InvertedList V) = empty := rfl

@[simp] theorem postings_ofPostings (ps : List (ℤ × V)) : (ofPostings ps).postings = ps :=
  (List.zip_of_prod rfl rfl).symm

end InvertedList

section MaxValue

variable {F : Type} [LinearOrder F]

theorem le_foldl_max (codes : List F) (init : F) :
    init ≤ codes.foldl (fun maxVal v => if maxVal < v then v else maxVal) init ∧
      ∀ v ∈ codes, v ≤ codes.foldl (fun maxVal v => if maxVal < v then v else maxVal) init := by
  induction codes generalizing init with
  | nil => simp
  | cons c codes ih =>
      obtain ⟨hinit, hall⟩ := ih (if init < c then c else init)
      have hstep : init ≤ (if init < c then c else init) ∧ c ≤ (if init < c then c else init) := by
        split
        · exact ⟨le_of_lt ‹_›, le_rfl⟩
        · exact ⟨le_rfl, not_lt.mp ‹_›⟩
      rw [List.foldl_cons]
      refine ⟨hstep.1.trans hinit, List.forall_mem_cons.mpr ⟨hstep.2.trans hinit, hall⟩⟩

theorem foldl_max_mem (codes : List F) (init : F) :
    codes.foldl (fun maxVal v => if maxVal < v then v else maxVal) init ∈ init :: codes := by
  induction codes generalizing init with
  | nil => simp
  | cons c codes ih =>
      rw [List.foldl_cons]
      rcases List.mem_cons.mp (ih (if init < c then c else init)) with h | h
      · rw [h]
        split <;> simp
      · exact List.mem_cons_of_mem _ (List.mem_cons_of_mem _ h)

variable [Zero F]

theorem InvertedList.maxValue_nonneg (l : InvertedList F) : 0 ≤ l.maxValue := (le_foldl_max l.codes 0).1

theorem InvertedList.le_maxValue {l : InvertedList F} {v : F} (h : v ∈ l.codes) : v ≤ l.maxValue :=
  (le_foldl_max l.codes 0).2 v h

/-- The cached maximum is one when the list has a value that is not negative, and only then. -/
theorem InvertedList.isGreatest_maxValue_iff (l : InvertedList F) :
    IsGreatest {v | v ∈ l.codes} l.maxValue ↔ ∃ v ∈ l.codes, 0 ≤ v := by
  constructor
  · exact fun h => ⟨l.maxValue, h.1, l.maxValue_nonneg⟩
  · rintro ⟨v, hv, h0⟩
    refine ⟨?_, fun w hw => InvertedList.le_maxValue hw⟩
    rcases List.mem_cons.mp (foldl_max_mem l.codes 0) with h | h
    · have hzero : l.maxValue = 0 := h
      have hv0 : v = 0 := le_antisymm (hzero ▸ InvertedList.le_maxValue hv) h0
      show l.maxValue ∈ l.codes
      rwa [hzero, ← hv0]
    · exact h

end MaxValue

/-! ### Building -/

/-- The counting pass over one document. -/
def countRow (nTerm : ℕ) (counts : List ℕ) (row : SparseRow V) : Except Exception (List ℕ) :=
  row.foldlM (fun counts entry =>
    if nTerm ≤ entry.1 then .error (.invalidArgument "term_id out of range")
    else .ok (counts.modify entry.1 (· + 1))) counts

/-- The counting pass. -/
def countTerms (nTerm : ℕ) (rows : List (SparseRow V)) (counts : List ℕ) :
    Except Exception (List ℕ) :=
  rows.foldlM (countRow nTerm) counts

/-- Append the payloads of every document's entries to their terms' buffers. -/
def fillTerms {β : Type} (nTerm : ℕ) (vectors : SparseVectors V) (payload : ℕ → ℕ × V → β) :
    List (List β) :=
  (List.range vectors.numVectors).foldl
    (fun buffers i => Buckets.scatter Prod.fst (payload i) buffers (vectors.row i))
    (List.replicate nTerm [])

/-- `build_inverted_lists`: count, fill the ids and the codes of every term, and hand each
term that has entries its buffers. -/
def buildInvertedLists (nTerm : ℕ) (vectors : SparseVectors V) :
    Except Exception (List (InvertedList V)) := do
  let counts ← countTerms nTerm ((List.range vectors.numVectors).map vectors.row)
    (List.replicate nTerm 0)
  let docIds := fillTerms nTerm vectors fun i _ => toIdx i
  let codes := fillTerms nTerm vectors fun _ entry => entry.2
  (List.range nTerm).mapM fun term =>
    if counts.getD term 0 = 0 then .ok InvertedList.empty
    else InvertedList.setEntries (docIds.getD term []) (codes.getD term [])

/-! ### What the passes compute -/

/-- The postings of `term` in a list of documents: its entries, in document order, each
with the position of its document. -/
def postingsFrom (start : ℕ) (rows : List (SparseRow V)) (term : ℕ) : List (ℕ × V) :=
  (rows.zipIdx start).flatMap fun r =>
    (r.1.filter fun entry => entry.1 = term).map fun entry => (r.2, entry.2)

/-- The postings of `term` in a whole corpus. -/
def postingsOf (rows : List (SparseRow V)) (term : ℕ) : List (ℕ × V) := postingsFrom 0 rows term

/-- The posting list the program should hold for `term`, document ids in 32 bits. -/
def postingList (rows : List (SparseRow V)) (term : ℕ) : InvertedList V :=
  .ofPostings ((postingsOf rows term).map fun p => (toIdx p.1, p.2))

/-- Every term of every document is below the dimension. -/
def TermsBelow (nTerm : ℕ) (rows : List (SparseRow V)) : Prop :=
  ∀ row ∈ rows, ∀ entry ∈ row, entry.1 < nTerm

instance (nTerm : ℕ) (rows : List (SparseRow V)) : Decidable (TermsBelow nTerm rows) :=
  inferInstanceAs (Decidable (∀ row ∈ rows, ∀ entry ∈ row, entry.1 < nTerm))

/-- A posting is an entry of the document at its position. -/
theorem mem_postingsOf_iff {rows : List (SparseRow V)} {term : ℕ} {p : ℕ × V} :
    p ∈ postingsOf rows term ↔ ∃ row, rows[p.1]? = some row ∧ (term, p.2) ∈ row := by
  simp only [postingsOf, postingsFrom, List.mem_flatMap, List.mem_map, List.mem_filter,
    decide_eq_true_eq]
  constructor
  · rintro ⟨⟨row, i⟩, hrow, ⟨t, v⟩, ⟨hmem, rfl⟩, rfl⟩
    exact ⟨row, List.mem_zipIdx_iff_getElem?.mp hrow, hmem⟩
  · rintro ⟨row, hrow, hmem⟩
    exact ⟨(row, p.1), List.mem_zipIdx_iff_getElem?.mpr hrow, (term, p.2), ⟨hmem, rfl⟩, rfl⟩

section Postings

variable {docs : List (SparseRow V)}

theorem postingsOf_eq_nil {nTerm : ℕ} (hterms : TermsBelow nTerm docs) {term : ℕ} (h : nTerm ≤ term) :
    postingsOf docs term = [] := by
  refine List.eq_nil_iff_forall_not_mem.mpr fun p hp => ?_
  obtain ⟨row, hrow, hmem⟩ := mem_postingsOf_iff.mp hp
  exact absurd (hterms row (List.mem_of_getElem? hrow) _ hmem) (not_lt.mpr h)

/-- The stored ids are the positions when those of documents with terms fit 32 bits. -/
theorem postingList_eq_iff :
    (∀ term, postingList docs term
      = .ofPostings ((postingsOf docs term).map fun p => ((p.1 : ℤ), p.2))) ↔
    ∀ (i : ℕ) (row : SparseRow V), docs[i]? = some row → row ≠ [] → i < 2 ^ 31 := by
  constructor
  · intro h i row hrow hne
    obtain ⟨⟨t, v⟩, hmem⟩ := List.exists_mem_of_ne_nil row hne
    have hids := congrArg InvertedList.docIds (h t)
    simp only [postingList, InvertedList.ofPostings, List.map_map] at hids
    have hp : (i, v) ∈ postingsOf docs t := mem_postingsOf_iff.mpr ⟨row, hrow, hmem⟩
    have hi : toIdx i = i := List.map_inj_left.mp hids (i, v) hp
    exact toIdx_eq_self_iff.mp hi
  · intro h t
    rw [postingList]
    congr 1
    refine List.map_congr_left fun p hp => ?_
    obtain ⟨row, hrow, hmem⟩ := mem_postingsOf_iff.mp hp
    rw [toIdx_eq_self_iff.mpr (h p.1 row hrow (List.ne_nil_of_mem hmem))]

end Postings

theorem countRow_eq_ok {nTerm : ℕ} {row : SparseRow V} (h : ∀ entry ∈ row, entry.1 < nTerm)
    (counts : List ℕ) :
    countRow nTerm counts row
      = .ok (row.foldl (fun counts entry => counts.modify entry.1 (· + 1)) counts) := by
  unfold countRow
  induction row generalizing counts with
  | nil => rfl
  | cons entry row ih =>
      have hlt : entry.1 < nTerm := h entry (List.mem_cons_self ..)
      rw [List.foldlM_cons, if_neg (not_le.mpr hlt), List.foldl_cons]
      exact ih (fun e he => h e (List.mem_cons_of_mem _ he)) _

theorem countRow_eq_error {nTerm : ℕ} {row : SparseRow V}
    (h : ¬ ∀ entry ∈ row, entry.1 < nTerm) (counts : List ℕ) :
    countRow nTerm counts row = .error (.invalidArgument "term_id out of range") := by
  unfold countRow
  induction row generalizing counts with
  | nil => simp at h
  | cons entry row ih =>
      rw [List.foldlM_cons]
      by_cases hlt : entry.1 < nTerm
      · rw [if_neg (not_le.mpr hlt)]
        exact ih (fun hall => h (List.forall_mem_cons.mpr ⟨hlt, hall⟩)) _
      · rw [if_pos (not_lt.mp hlt)]
        rfl

/-- The counting pass throws exactly when a term is out of range, and otherwise returns each
term's number of entries. -/
theorem countTerms_eq (nTerm : ℕ) (rows : List (SparseRow V)) (counts : List ℕ) :
    countTerms nTerm rows counts
      = if TermsBelow nTerm rows then
          .ok (rows.flatten.foldl (fun counts entry => counts.modify entry.1 (· + 1)) counts)
        else .error (.invalidArgument "term_id out of range") := by
  unfold countTerms
  induction rows generalizing counts with
  | nil => simp [TermsBelow]; rfl
  | cons row rows ih =>
      rw [List.foldlM_cons]
      by_cases hrow : ∀ entry ∈ row, entry.1 < nTerm
      · rw [countRow_eq_ok hrow]
        show rows.foldlM (countRow nTerm) _ = _
        rw [ih, List.flatten_cons, List.foldl_append]
        have hiff : TermsBelow nTerm (row :: rows) ↔ TermsBelow nTerm rows := by
          simp only [TermsBelow, List.forall_mem_cons]
          exact and_iff_right hrow
        simp only [hiff]
      · rw [countRow_eq_error hrow, if_neg]
        · rfl
        · intro h
          exact hrow (h row (List.mem_cons_self ..))

/-- The number of entries the counting pass finds for a term. -/
theorem getD_foldl_count (entries : List (ℕ × V)) (counts : List ℕ) {term : ℕ}
    (h : term < counts.length) :
    (entries.foldl (fun counts entry => counts.modify entry.1 (· + 1)) counts).getD term 0
      = counts.getD term 0 + (entries.filter fun entry => entry.1 = term).length := by
  induction entries generalizing counts with
  | nil => simp
  | cons entry entries ih =>
      rw [List.foldl_cons, ih _ (by simpa using h), List.filter_cons]
      simp only [List.getD_eq_getElem?_getD, List.getElem?_modify,
        List.getElem?_eq_getElem h, Option.map_eq_map, Option.map_some, Option.getD_some]
      by_cases he : entry.1 = term
      · simp only [he, if_true, decide_true, List.length_cons]
        omega
      · simp [he]

theorem postingsFrom_cons (start : ℕ) (row : SparseRow V) (rows : List (SparseRow V)) (term : ℕ) :
    postingsFrom start (row :: rows) term
      = ((row.filter fun entry => entry.1 = term).map fun entry => (start, entry.2))
        ++ postingsFrom (start + 1) rows term := by
  simp [postingsFrom, List.zipIdx_cons]

theorem length_postingsFrom (start : ℕ) (rows : List (SparseRow V)) (term : ℕ) :
    (postingsFrom start rows term).length
      = (rows.flatten.filter fun entry => entry.1 = term).length := by
  induction rows generalizing start with
  | nil => rfl
  | cons row rows ih => simp [postingsFrom_cons, ih]

/-- The fill pass leaves in each term's buffer the payloads of its postings. -/
theorem getElem?_fillTerms {β : Type} {nTerm term : ℕ} (vectors : SparseVectors V)
    (payload : ℕ → ℕ × V → β) (hterm : term < nTerm) :
    (fillTerms nTerm vectors payload)[term]?
      = some ((postingsOf vectors.rows term).map fun p => payload p.1 (term, p.2)) := by
  have key : ∀ (rows : List (SparseRow V)) (start : ℕ) (buffers : List (List β)),
      ((rows.zipIdx start).foldl
        (fun buffers r => Buckets.scatter Prod.fst (payload r.2) buffers r.1) buffers)[term]?
        = buffers[term]?.map
            (· ++ (postingsFrom start rows term).map fun p => payload p.1 (term, p.2)) := by
    intro rows
    induction rows with
    | nil => intro start buffers; simp [postingsFrom]
    | cons row rows ih =>
        intro start buffers
        have hpay : (row.filter fun entry => entry.1 = term).map (payload start)
            = (row.filter fun entry => entry.1 = term).map
                fun entry => payload start (term, entry.2) := by
          refine List.map_congr_left fun entry he => ?_
          have hterm : entry.1 = term := by simpa using (List.mem_filter.mp he).2
          rw [← hterm]
        rw [List.zipIdx_cons, List.foldl_cons, ih, Buckets.getElem?_scatter, postingsFrom_cons,
          hpay, Option.map_map]
        congr 1
        funext buffer
        simp [Function.comp_def]
  have hfold : fillTerms nTerm vectors payload
      = (vectors.rows.zipIdx 0).foldl
          (fun buffers r => Buckets.scatter Prod.fst (payload r.2) buffers r.1)
          (List.replicate nTerm []) := by
    rw [SparseVectors.zipIdx_rows, List.foldl_map, fillTerms]
  rw [hfold, key, postingsOf]
  simp [hterm]

/-- **The posting lists.**  Building throws exactly when a term is out of range, and
otherwise yields each term's postings in document order. -/
theorem buildInvertedLists_eq (nTerm : ℕ) (vectors : SparseVectors V) :
    buildInvertedLists nTerm vectors
      = if TermsBelow nTerm vectors.rows then
          .ok ((List.range nTerm).map (postingList vectors.rows))
        else .error (.invalidArgument "term_id out of range") := by
  rw [buildInvertedLists, ← SparseVectors.rows_eq_map_row, countTerms_eq]
  split
  · show (List.range nTerm).mapM _ = _
    refine mapM_eq_ok fun term hterm => ?_
    have hlt : term < nTerm := List.mem_range.mp hterm
    have hcount := getD_foldl_count vectors.rows.flatten (List.replicate nTerm 0)
      (by simpa using hlt : term < (List.replicate nTerm 0).length)
    have hlen := length_postingsFrom 0 vectors.rows term
    simp only [List.getD_eq_getElem?_getD, getElem?_fillTerms _ _ hlt, Option.getD_some] at hcount ⊢
    rw [hcount]
    simp only [List.getElem?_replicate, hlt, if_true, Option.getD_some, zero_add]
    split
    · rename_i h0
      have hnil : postingsOf vectors.rows term = [] :=
        List.eq_nil_of_length_eq_zero (hlen.trans h0)
      simp [postingList, hnil]
    · simp [InvertedList.setEntries, postingList, InvertedList.ofPostings, Function.comp_def]
  · rfl

end Nsparse
