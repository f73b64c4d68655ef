/-
Nsparse/ExactSearch.lean

The inverted index answers a query exactly.

`innerProduct` is the exact score of a document and `ExactAnswer` says what a query
should return: the largest positive scores of the selected documents, descending,
padded to `k`, every label with its own score.  The scorers of a query over posting
lists built from a corpus are valid and their contributions are the terms of the
inner product (`buildScorer_valid`, `buildScorer_contribution`), so the windowed search
of `MaxScore` returns an exact answer (`singleQuery_exact`).
-/
import Nsparse.InvertedHistory
import Nsparse.MaxScore

namespace Nsparse

variable {F : Type} [Ring F]

theorem sum_map_filter_cast (w : F) (doc : ℕ) (ps : List (ℕ × F)) :
    ((((ps.map fun p => (p.1 : ℤ)).zip (ps.map Prod.snd)).filter
      fun e => e.1 = (doc : ℤ)).map fun e => w * e.2).sum
      = w * ((ps.filter fun p => p.1 = doc).map Prod.snd).sum := by
  induction ps with
  | nil => simp
  | cons p ps ih =>
      by_cases hp : p.1 = doc
      · simp [hp, ih, mul_add]
      · simp [hp, ih]

variable [LinearOrder F]

/-! ### What a query should return -/

/-- The value of a term in a document, zero when the document does not hold it. -/
def weight (row : SparseRow F) (term : ℕ) : F :=
  ((row.filter fun entry => entry.1 = term).map Prod.snd).sum

/-- The score of document `doc`: its inner product with the query. -/
def innerProduct (docs : List (SparseRow F)) (query : SparseRow F) (doc : ℕ) : F :=
  (query.map fun q => q.2 * weight (docs.getD doc []) q.1).sum

/-- The scores of the documents a search may return. -/
def positiveScores (n : ℕ) (score : ℕ → F) (sel : Option IDSelector) : Multiset F :=
  ((List.range n).filter fun d : ℕ => decide (0 < score d) && IDSelector.passes sel d).map score

/-- The `k` largest positive scores of selected documents among `n`, descending and padded with
`(-1, INVALID_IDX)`, each label a different selected document with its own score. -/
def ExactAnswer (n : ℕ) (score : ℕ → F) (sel : Option IDSelector) (k : ℕ) (scores : List F)
    (labels : List ℤ) : Prop :=
  ∃ found : List ℕ, found.Nodup ∧
    (∀ d ∈ found, d < n ∧ IDSelector.passes sel d = true ∧ 0 < score d) ∧
    found.map score = ((positiveScores n score sel).sort (· ≥ ·)).take k ∧
    scores = found.map score ++ List.replicate (k - found.length) (-1) ∧
    labels = found.map (fun d : ℕ => (d : ℤ)) ++ List.replicate (k - found.length) INVALID_IDX

/-! ### Posting lists of a corpus -/

section Postings

variable {V : Type} {docs : List (SparseRow V)} {term : ℕ}

theorem mem_postingsFrom {start : ℕ} {p : ℕ × V} (h : p ∈ postingsFrom start docs term) :
    start ≤ p.1 ∧ p.1 < start + docs.length := by
  induction docs generalizing start with
  | nil => simp [postingsFrom] at h
  | cons row docs ih =>
      rw [postingsFrom_cons, List.mem_append] at h
      rw [List.length_cons]
      rcases h with h | h
      · obtain ⟨e, -, rfl⟩ := List.mem_map.mp h
        simp only
        omega
      · have := ih h
        omega

/-- A document with distinct terms holds a term at most once. -/
theorem length_filter_term_le_one {row : SparseRow V} (h : (row.map Prod.fst).Nodup) (term : ℕ) :
    (row.filter fun entry => entry.1 = term).length ≤ 1 := by
  have hcount := List.nodup_iff_count_le_one.mp h term
  rwa [List.count, List.countP_map, List.countP_eq_length_filter] at hcount

theorem postingsFrom_ascending (start : ℕ) (hd : ∀ row ∈ docs, (row.map Prod.fst).Nodup) :
    ((postingsFrom start docs term).map Prod.fst).Pairwise (· < ·) := by
  induction docs generalizing start with
  | nil => exact List.Pairwise.nil
  | cons row docs ih =>
      obtain ⟨hrow, hd⟩ := List.forall_mem_cons.mp hd
      rw [postingsFrom_cons, List.map_append, List.map_map]
      refine List.pairwise_append.mpr ⟨?_, ih (start + 1) hd, ?_⟩
      · have hone := length_filter_term_le_one hrow term
        generalize (row.filter fun entry => entry.1 = term) = es at hone ⊢
        rcases es with - | ⟨e, - | ⟨e', es⟩⟩
        · exact List.Pairwise.nil
        · exact List.pairwise_singleton _ _
        · simp at hone
      · intro a ha b hb
        obtain ⟨e, -, rfl⟩ := List.mem_map.mp ha
        obtain ⟨p, hp, rfl⟩ := List.mem_map.mp hb
        have := (mem_postingsFrom hp).1
        simp only [Function.comp_apply]
        omega

/-- The postings of one document are its entries for the term. -/
theorem filter_postingsFrom (start : ℕ) (doc : ℕ) :
    (postingsFrom start docs term).filter (fun p => p.1 = start + doc)
      = ((docs.getD doc []).filter fun entry => entry.1 = term).map
          fun entry => (start + doc, entry.2) := by
  induction docs generalizing start doc with
  | nil => simp [postingsFrom]
  | cons row docs ih =>
      rw [postingsFrom_cons, List.filter_append]
      cases doc with
      | zero =>
          have htail : (postingsFrom (start + 1) docs term).filter (fun p => p.1 = start + 0)
              = [] := by
            refine List.filter_eq_nil_iff.mpr fun p hp => ?_
            have := (mem_postingsFrom hp).1
            simp only [decide_eq_true_eq]
            omega
          rw [htail, List.append_nil, List.filter_eq_self.mpr]
          · rfl
          · intro p hp
            obtain ⟨e, -, rfl⟩ := List.mem_map.mp hp
            simp
      | succ doc =>
          have hhead : ((row.filter fun entry => entry.1 = term).map
              fun entry => (start, entry.2)).filter (fun p => p.1 = start + (doc + 1)) = [] := by
            refine List.filter_eq_nil_iff.mpr fun p hp => ?_
            obtain ⟨e, -, rfl⟩ := List.mem_map.mp hp
            simp
          have hih := ih (start + 1) doc
          rw [hhead, List.nil_append, List.getD_cons_succ]
          simpa [Nat.add_assoc, Nat.add_comm 1 doc] using hih

theorem mem_postingsOf {p : ℕ × V} (h : p ∈ postingsOf docs term) : p.1 < docs.length := by
  simpa using (mem_postingsFrom h).2

theorem postingsOf_ascending (hd : ∀ row ∈ docs, (row.map Prod.fst).Nodup) (term : ℕ) :
    ((postingsOf docs term).map Prod.fst).Pairwise (· < ·) := postingsFrom_ascending 0 hd

theorem filter_postingsOf (docs : List (SparseRow V)) (term doc : ℕ) :
    (postingsOf docs term).filter (fun p => p.1 = doc)
      = ((docs.getD doc []).filter fun entry => entry.1 = term).map fun entry => (doc, entry.2) := by
  have h := @filter_postingsFrom V docs term 0 doc
  rwa [Nat.zero_add] at h

/-- Document ids are positions as long as these fit 32 bits. -/
theorem postingList_docIds (hsize : docs.length ≤ 2 ^ 31) (term : ℕ) :
    (postingList docs term).docIds = (postingsOf docs term).map fun p => (p.1 : ℤ) := by
  simp only [postingList, InvertedList.ofPostings, List.map_map]
  refine List.map_congr_left fun p hp => ?_
  have := mem_postingsOf hp
  simp only [Function.comp_apply]
  exact toIdx_of_lt (by omega) (by omega)

theorem postingList_codes (term : ℕ) :
    (postingList docs term).codes = (postingsOf docs term).map Prod.snd := by
  simp [postingList, InvertedList.ofPostings, Function.comp_def]

end Postings

/-! ### The scorers of a query -/

variable {docs : List (SparseRow F)} {dim : ℕ}

/-- The posting lists and the maxima of a corpus. -/
def listsOf (dim : ℕ) (docs : List (SparseRow F)) : List (InvertedList F) :=
  (List.range dim).map (postingList docs)

/-- The maxima of a corpus. -/
def maximaOf (dim : ℕ) (docs : List (SparseRow F)) : List F :=
  (List.range dim).map fun t => (postingList docs t).maxValue

theorem buildScorer_of_lt {term : ℕ} (hterm : term < dim) (w : F) :
    buildScorer (listsOf dim docs) (maximaOf dim docs) term w
      = ⟨(postingList docs term).docIds, (postingList docs term).codes,
          toIdx (postingList docs term).size, 0, w, w * (postingList docs term).maxValue⟩ := by
  simp [buildScorer, listsOf, maximaOf, hterm, DirectTermScorer.nextDoc]

theorem buildScorer_of_le {term : ℕ} (hterm : dim ≤ term) (w : F) :
    buildScorer (listsOf dim docs) (maximaOf dim docs) term w = ⟨[], [], 0, 0, w, 0⟩ := by
  simp [buildScorer, listsOf, hterm]

/-- The contribution of a query entry to a document is its term of the inner product. -/
theorem buildScorer_contribution (hsize : docs.length ≤ 2 ^ 31) (hterms : TermsBelow dim docs)
    (term : ℕ) (w : F) (doc : ℕ) :
    (buildScorer (listsOf dim docs) (maximaOf dim docs) term w).contribution doc
      = w * weight (docs.getD doc []) term := by
  unfold DirectTermScorer.contribution DirectTermScorer.contributionFrom
  by_cases hterm : term < dim
  · rw [buildScorer_of_lt hterm, List.drop_zero]
    simp only [postingList_docIds hsize, postingList_codes]
    rw [sum_map_filter_cast, filter_postingsOf, List.map_map]
    rfl
  · have hzero : weight (docs.getD doc []) term = 0 := by
      have hnil : ((docs.getD doc []).filter fun entry => entry.1 = term) = [] := by
        refine List.filter_eq_nil_iff.mpr fun entry he => ?_
        rw [List.getD_eq_getElem?_getD] at he
        rcases hrow : docs[doc]? with - | row
        · simp [hrow] at he
        · rw [hrow, Option.getD_some] at he
          have := hterms row (List.mem_of_getElem? hrow) entry he
          simp only [decide_eq_true_eq]
          omega
      rw [weight, hnil]
      rfl
    rw [buildScorer_of_le (not_lt.mp hterm), hzero, mul_zero]
    rfl

/-- A document holds at most the term's maximum. -/
theorem weight_le_maxValue (hdistinct : ∀ row ∈ docs, (row.map Prod.fst).Nodup) (term doc : ℕ) :
    weight (docs.getD doc []) term ≤ (postingList docs term).maxValue := by
  have hnodup : ((docs.getD doc []).map Prod.fst).Nodup := by
    rw [List.getD_eq_getElem?_getD]
    rcases hrow : docs[doc]? with - | row
    · simp
    · exact hdistinct row (List.mem_of_getElem? hrow)
  have hone := length_filter_term_le_one hnodup term
  unfold weight
  rcases hes : (docs.getD doc []).filter fun entry => entry.1 = term with - | ⟨e, - | ⟨e', es⟩⟩
  · rw [hes]
    exact InvertedList.maxValue_nonneg _
  · have hmem : (doc, e.2) ∈ postingsOf docs term := by
      refine List.mem_of_mem_filter (p := fun p => p.1 = doc) ?_
      rw [filter_postingsOf, hes]
      simp
    have hcode : e.2 ∈ (postingList docs term).codes := by
      rw [postingList_codes]
      exact List.mem_map.mpr ⟨(doc, e.2), hmem, rfl⟩
    rw [hes]
    simpa using InvertedList.le_maxValue hcode
  · rw [hes] at hone
    simp at hone

/-- What a heap holds of all documents is an exact answer. -/
theorem exactAnswer_of_holds {T : List (DirectTermScorer F)} {sel : Option IDSelector} {k n : ℕ}
    {Q : ItemQueue F ℤ} {heap : TopKHolder Q} (h : heap.Holds k (candidates T sel n)) :
    ExactAnswer n (fun d => score T d) sel k
      (resize heap.topKItemsDescending.1 k (-1))
      (resize heap.topKItemsDescending.2 k INVALID_IDX) := by
  obtain ⟨l, hitems, -, heq⟩ := heap.topKItemsDescending_spec
  have htake := h.scores_eq_take
  have hle : (l : Multiset (TopKItem F ℤ)) ≤ candidates T sel n := hitems ▸ h.best.le
  have hcand : ∀ x ∈ l, ∃ d : ℕ, x = ⟨score T d, d⟩ ∧ d < n ∧ IDSelector.passes sel d = true ∧
      0 < score T d := by
    intro x hx
    obtain ⟨d, hd, rfl⟩ := List.mem_map.mp
      (Multiset.mem_coe.mp (Multiset.mem_of_le hle (Multiset.mem_coe.mpr hx)))
    obtain ⟨hlt, hcond⟩ := List.mem_filter.mp hd
    rw [Bool.and_eq_true, decide_eq_true_eq] at hcond
    exact ⟨d, rfl, List.mem_range.mp hlt, hcond.2, hcond.1⟩
  have hids : l.map TopKItem.id = (l.map fun x => x.id.toNat).map fun d : ℕ => (d : ℤ) := by
    rw [List.map_map]
    refine List.map_congr_left fun x hx => ?_
    obtain ⟨d, rfl, -⟩ := hcand x hx
    simp
  have hscores : l.map TopKItem.score
      = (l.map fun x => x.id.toNat).map fun d : ℕ => score T d := by
    rw [List.map_map]
    refine List.map_congr_left fun x hx => ?_
    obtain ⟨d, rfl, -⟩ := hcand x hx
    simp
  have hnodup : (l.map TopKItem.id).Nodup := by
    have hall : ((candidates T sel n).map TopKItem.id).Nodup := by
      rw [candidates, Multiset.map_coe, List.map_map, Multiset.coe_nodup]
      exact (List.nodup_range.filter _).map (fun a b hab => by simpa using hab)
    exact Multiset.coe_nodup.mp (Multiset.nodup_of_le (Multiset.map_le_map hle) hall)
  have hpos : (candidates T sel n).map TopKItem.score
      = positiveScores n (fun d => score T d) sel := by
    rw [candidates, positiveScores, Multiset.map_coe, List.map_map]
    rfl
  have hlen : l.length ≤ k := by
    have hcard := h.best.card_le
    rwa [← hitems, Multiset.coe_card] at hcard
  rw [heq] at htake ⊢
  refine ⟨l.map fun x => x.id.toNat, ?_, ?_, ?_, ?_, ?_⟩
  · rw [hids] at hnodup
    exact hnodup.of_map _
  · intro d hd
    obtain ⟨x, hx, rfl⟩ := List.mem_map.mp hd
    obtain ⟨d, rfl, hrest⟩ := hcand x hx
    simpa using hrest
  · rw [← hscores, ← hpos]
    exact htake
  · rw [resize, List.take_of_length_le (by simpa using hlen), hscores]
    simp
  · rw [resize, List.take_of_length_le (by simpa using hlen), hids]
    simp

variable [IsOrderedRing F]

/-- Every scorer of a query with non-negative weights is valid. -/
theorem buildScorer_valid (hsize : docs.length + kScoreWindowSize < 2 ^ 31)
    (hdistinct : ∀ row ∈ docs, (row.map Prod.fst).Nodup) (hterms : TermsBelow dim docs)
    (term : ℕ) {w : F} (hw : 0 ≤ w) :
    (buildScorer (listsOf dim docs) (maximaOf dim docs) term w).Valid := by
  have hle : docs.length ≤ 2 ^ 31 := by omega
  by_cases hterm : term < dim
  · have hids := postingList_docIds hle term
    have hmem : ∀ d ∈ (postingList docs term).docIds, ∃ i : ℕ, d = i ∧ i < docs.length := by
      intro d hd
      rw [hids] at hd
      obtain ⟨p, hp, rfl⟩ := List.mem_map.mp hd
      exact ⟨p.1, rfl, mem_postingsOf hp⟩
    have hascending : (postingList docs term).docIds.Pairwise (· < ·) := by
      have hpos := List.pairwise_map.mp (postingsOf_ascending hdistinct term)
      rw [hids]
      exact List.pairwise_map.mpr (hpos.imp fun h => by exact_mod_cast h)
    have hlen : (postingList docs term).codes.length = (postingList docs term).docIds.length := by
      rw [hids, postingList_codes, List.length_map, List.length_map]
    have hcount : (postingList docs term).docIds.length ≤ docs.length := by
      have hpos := postingsOf_ascending hdistinct term
      have hsub : (postingsOf docs term).map Prod.fst ⊆ List.range docs.length := by
        intro i hi
        obtain ⟨p, hp, rfl⟩ := List.mem_map.mp hi
        exact List.mem_range.mpr (mem_postingsOf hp)
      have hsubperm := List.subperm_of_subset (hpos.imp fun h => Nat.ne_of_lt h) hsub
      simpa [hids] using hsubperm.length_le
    have hmax : 0 ≤ w * (postingList docs term).maxValue :=
      mul_nonneg hw (InvertedList.maxValue_nonneg _)
    have hbound : ∀ doc, (buildScorer (listsOf dim docs) (maximaOf dim docs) term w).contribution
        doc ≤ w * (postingList docs term).maxValue := by
      intro doc
      rcases lt_or_ge doc 0 with hneg | hnat
      · have hnil : (((postingList docs term).docIds.zip (postingList docs term).codes).filter
            fun e => e.1 = doc) = [] := by
          refine List.filter_eq_nil_iff.mpr fun e he => ?_
          obtain ⟨i, hi, -⟩ := hmem e.1 (List.of_mem_zip he).1
          simp only [decide_eq_true_eq]
          omega
        rw [buildScorer_of_lt hterm]
        simpa [DirectTermScorer.contribution, DirectTermScorer.contributionFrom, hnil] using hmax
      · obtain ⟨d, rfl⟩ := Int.eq_ofNat_of_zero_le hnat
        rw [buildScorer_contribution hle hterms]
        exact mul_le_mul_of_nonneg_left (weight_le_maxValue hdistinct term d) hw
    rw [buildScorer_of_lt hterm] at hbound ⊢
    refine ⟨hascending, ?_, hlen, ?_, hmax, hbound⟩
    · intro d hd
      obtain ⟨i, rfl, hi⟩ := hmem d hd
      omega
    · exact toIdx_of_lt (by omega) (by simp only [InvertedList.size]; omega)
  · rw [buildScorer_of_le (not_lt.mp hterm)]
    exact ⟨List.Pairwise.nil, by simp, rfl, rfl, le_rfl, fun doc => le_rfl⟩

/-! ### A query -/

/-- The scorers of a query are valid, start at their first posting, and sum up to the inner
product. -/
theorem buildScorers_spec (sort : StdSort) (hsize : docs.length + kScoreWindowSize < 2 ^ 31)
    (hdistinct : ∀ row ∈ docs, (row.map Prod.fst).Nodup) (hterms : TermsBelow dim docs)
    {query : SparseRow F} (hw : ∀ q ∈ query, 0 ≤ q.2) :
    ∃ T, buildScorers sort (query.map Prod.fst) (query.map Prod.snd) (listsOf dim docs)
        (maximaOf dim docs) = (T, prefixSums T) ∧
      (∀ t ∈ T, t.Valid) ∧ (∀ t ∈ T, t.currentIndex = 0) ∧
      ∀ doc : ℕ, score T doc = innerProduct docs query doc := by
  have hzip : (query.map Prod.fst).zip (query.map Prod.snd) = query :=
    (List.zip_of_prod rfl rfl).symm
  have hperm := sort.perm
    (fun lhs rhs : DirectTermScorer F => decide (lhs.maxScore < rhs.maxScore))
    (query.map fun q => buildScorer (listsOf dim docs) (maximaOf dim docs) q.1 q.2)
  refine ⟨_, by rw [buildScorers, hzip]; rfl, fun t ht => ?_, fun t ht => ?_, fun doc => ?_⟩
  · obtain ⟨q, hq, rfl⟩ := List.mem_map.mp (hperm.mem_iff.mp ht)
    exact buildScorer_valid hsize hdistinct hterms q.1 (hw q hq)
  · obtain ⟨q, hq, rfl⟩ := List.mem_map.mp (hperm.mem_iff.mp ht)
    rcases lt_or_ge q.1 dim with hlt | hge
    · rw [buildScorer_of_lt hlt]
    · rw [buildScorer_of_le hge]
  · rw [score, (hperm.map fun t => t.contribution doc).sum_eq, List.map_map, innerProduct]
    refine congrArg List.sum (List.map_congr_left fun q _ => ?_)
    exact buildScorer_contribution (by omega) hterms q.1 q.2 doc

/-- **A query over the lists of a corpus** is answered exactly and leaves the score window clear. -/
theorem singleQuery_listsOf (Q : ItemQueue F ℤ) (sort : StdSort)
    (hdistinct : ∀ row ∈ docs, (row.map Prod.fst).Nodup) (hterms : TermsBelow dim docs)
    (hsize : docs.length + kScoreWindowSize < 2 ^ 31) {query : SparseRow F}
    (hw : ∀ q ∈ query, 0 ≤ q.2) {k : ℤ} (hk : 1 ≤ k) (sel : Option IDSelector) :
    ∃ enough : ℕ, ∀ fuel, enough ≤ fuel → ∃ scores labels,
      InvertedIndex.singleQuery Q sort fuel (listsOf dim docs) (maximaOf dim docs)
          (List.replicate kScoreWindowSize 0) (query.map Prod.fst) (query.map Prod.snd) k sel
        = some (.ok (scores, labels), List.replicate kScoreWindowSize 0) ∧
      ExactAnswer docs.length (innerProduct docs query) sel k.toNat scores labels := by
  obtain ⟨T, hbuilt, hT, hstart, hscore⟩ := buildScorers_spec sort hsize hdistinct hterms hw
  have hexact : (fun d : ℕ => score T d) = innerProduct docs query := funext hscore
  unfold InvertedIndex.singleQuery
  by_cases hempty : query.map Prod.fst = []
  · -- an empty query scores every document zero
    obtain rfl : query = [] := by simpa using hempty
    refine ⟨0, fun fuel _ => ⟨List.replicate k.toNat (-1), List.replicate k.toNat INVALID_IDX,
      ?_, ?_⟩⟩
    · rw [if_pos hempty, if_neg (by omega)]
    · refine ⟨[], List.nodup_nil, by simp, ?_, by simp, by simp⟩
      simp [positiveScores, innerProduct]
  · have hnew : TopKHolder.new Q k = .ok ⟨k, Q.empty, ⊤⟩ := by
      rw [TopKHolder.new, if_neg (by omega)]
    obtain ⟨enough, hrun⟩ := search_spec sel hT hstart hnew
    refine ⟨enough, fun fuel hfuel => ?_⟩
    obtain ⟨s, p, hloop, hclear, hholds⟩ := hrun fuel hfuel
    have hfar : ∀ d : ℕ, docs.length ≤ d → score T d = 0 := by
      intro d hd
      rw [hscore, innerProduct]
      simp only [List.getD_eq_default _ _ hd]
      simp [weight]
    have hall : s.heap.Holds k.toNat (candidates T sel docs.length) := by
      have hmax := hholds (max p docs.length) (le_max_left _ _)
      rwa [candidates_eq_of_le hfar (le_max_right _ _)] at hmax
    refine ⟨_, _, ?_, hexact ▸ exactAnswer_of_holds hall⟩
    rw [if_neg hempty, hnew]
    simp only [hbuilt, hloop, hclear]

/-- **The windowed search is exact.**  On an index built from a corpus whose documents hold a
term at most once, every query with non-negative weights is answered exactly, and leaves
the score window clear for the next one. -/
theorem singleQuery_exact (Q : ItemQueue F ℤ) (sort : StdSort) (index built : InvertedIndex F)
    (corpus : SparseVectors F) (hvectors : index.vectors = some corpus)
    (hbuild : index.build = (built, .ok ()))
    (hdistinct : ∀ row ∈ corpus.rows, (row.map Prod.fst).Nodup)
    (hsize : corpus.rows.length + kScoreWindowSize < 2 ^ 31)
    (query : SparseRow F) (hw : ∀ q ∈ query, 0 ≤ q.2) {k : ℤ} (hk : 1 ≤ k)
    (sel : Option IDSelector) :
    ∃ lists, built.invertedLists = some lists ∧ ∃ enough : ℕ, ∀ fuel, enough ≤ fuel →
      ∃ scores labels,
        InvertedIndex.singleQuery Q sort fuel lists built.maxTermScores
            (List.replicate kScoreWindowSize 0) (query.map Prod.fst) (query.map Prod.snd) k sel
          = some (.ok (scores, labels), List.replicate kScoreWindowSize 0) ∧
        ExactAnswer corpus.rows.length (innerProduct corpus.rows query) sel k.toNat
          scores labels := by
  obtain ⟨hlists, hmax, hterms⟩ : built.invertedLists = some (listsOf index.dimension corpus.rows)
      ∧ built.maxTermScores = maximaOf index.dimension corpus.rows ∧
        TermsBelow index.dimension corpus.rows := by
    rcases index.build_cases with ⟨hnone, -⟩ | ⟨v, hv, ⟨e, he⟩ | ⟨hterms, hok⟩⟩
    · rw [hvectors] at hnone
      cases hnone
    · rw [he] at hbuild
      cases hbuild
    · obtain rfl : corpus = v := by simpa [hvectors] using hv
      rw [hok] at hbuild
      cases hbuild
      exact ⟨rfl, rfl, hterms⟩
  refine ⟨_, hlists, ?_⟩
  rw [hmax]
  exact singleQuery_listsOf Q sort hdistinct hterms hsize hw hk sel

/-- The theorem at a corpus of two documents. -/
theorem singleQuery_exact_two_documents :
    ∃ lists : List (InvertedList ℤ), ∃ built : InvertedIndex ℤ,
      built.invertedLists = some lists ∧ ∃ enough : ℕ, ∀ fuel, enough ≤ fuel →
        ∃ scores labels,
          InvertedIndex.singleQuery (sortedQueue TopKItem.score) insertionSort fuel lists
              built.maxTermScores (List.replicate kScoreWindowSize 0) [0, 1] [2, 1] 1 none
            = some (.ok (scores, labels), List.replicate kScoreWindowSize 0) ∧
          ExactAnswer 2 (innerProduct [[(0, 3)], [(1, 5)]] [(0, 2), (1, 1)]) none 1
            scores labels := by
  obtain ⟨lists, hlists, hrest⟩ := singleQuery_exact (F := ℤ) (sortedQueue TopKItem.score)
    insertionSort ⟨2, some ⟨4, 2, [0, 1, 2], [0, 1], [3, 5]⟩, none, 2, []⟩
    ⟨2, none, some [⟨[0], [3]⟩, ⟨[1], [5]⟩], 2, [3, 5]⟩ ⟨4, 2, [0, 1, 2], [0, 1], [3, 5]⟩ rfl (by decide) (by decide) (by decide)
    [(0, 2), (1, 1)] (by decide) (k := 1) le_rfl none
  exact ⟨lists, _, hlists, hrest⟩

end Nsparse
