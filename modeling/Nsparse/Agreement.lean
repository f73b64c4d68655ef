/-
Nsparse/Agreement.lean

The inverted index and the brute-force index agree.

Both are given the same batches of documents and the same queries.  The brute-force index
shows the best of all documents, whatever their scores are; the inverted index shows the
best of those that score above 0.  Sorted by descending score the latter come first, so an
inverted row is the brute-force row with every score that is not positive taken for
padding (`scores_eq_shown`), and so is every row of a search (`InvertedIndex.search_agrees`).
-/
import Nsparse.BruteForce

namespace Nsparse

variable {F : Type}

attribute [local instance] TopK.isTrans_ge TopK.antisymm_ge

/-! ### Rows of positive scores -/

section Rows

variable [Ring F] [LinearOrder F] {k : ℕ}

/-- A score as the inverted index shows it. -/
def shown (score : F) : F := if 0 < score then score else -1

theorem map_shown_of_pos {scores : List F} (h : ∀ score ∈ scores, 0 < score) :
    scores.map shown = scores :=
  (List.map_congr_left fun score hscore => if_pos (h score hscore)).trans (List.map_id _)

theorem map_shown_of_not_pos {scores : List F} (h : ∀ score ∈ scores, ¬ 0 < score) :
    scores.map shown = List.replicate scores.length (-1) := by
  have hpadding : scores.map shown = scores.map fun _ => (-1 : F) :=
    List.map_congr_left fun score hscore => if_neg (h score hscore)
  rw [hpadding, List.map_const']

/-- **The positive scores come first**: of the `k` largest of all scores those that are shown are
the `k` largest of the positive ones. -/
theorem map_shown_sort (scores : Multiset F) :
    ((scores.sort (· ≥ ·)).take k ++ List.replicate (k - scores.card) (-1)).map shown
      = ((scores.filter (0 < ·)).sort (· ≥ ·)).take k
        ++ List.replicate (k - (scores.filter (0 < ·)).card) (-1) := by
  -- the scores that are shown as they are sort before the ones shown as padding
  set high := scores.filter (0 < ·) with hhigh
  set low := scores.filter (¬ 0 < ·) with hlow
  have hsplit : high + low = scores := Multiset.filter_add_not (0 < ·) scores
  have hsort : scores.sort (· ≥ ·) = high.sort (· ≥ ·) ++ low.sort (· ≥ ·) := by
    rw [← hsplit]
    refine TopK.sort_add_eq_append fun x hx y hy => ?_
    have hpos : 0 < x := (Multiset.mem_filter.mp hx).2
    exact (not_lt.mp (Multiset.mem_filter.mp hy).2).trans hpos.le
  have hcard : high.card + low.card = scores.card := by
    rw [← Multiset.card_add, hsplit]
  have hshown : ((high.sort (· ≥ ·)).take k).map shown = (high.sort (· ≥ ·)).take k := by
    refine map_shown_of_pos fun score hscore => ?_
    exact (Multiset.mem_filter.mp ((Multiset.mem_sort _).mp (List.mem_of_mem_take hscore))).2
  have hpadded : ((low.sort (· ≥ ·)).take (k - high.card)).map shown
      = List.replicate (min (k - high.card) low.card) (-1) := by
    rw [map_shown_of_not_pos, List.length_take, Multiset.length_sort]
    intro score hscore
    exact (Multiset.mem_filter.mp ((Multiset.mem_sort _).mp (List.mem_of_mem_take hscore))).2
  have hpad : shown (-1 : F) = -1 := ite_self _
  rw [hsort, List.take_append, Multiset.length_sort, List.map_append, List.map_append, hshown,
    hpadded, List.map_replicate, hpad, List.append_assoc, List.replicate_append_replicate]
  congr 2
  omega

/-- The scores of an exact answer are those of a row of the best of all documents, as shown. -/
theorem scores_eq_shown {n : ℕ} {score : ℕ → F} {best : List F × List ℤ} {scores : List F}
    {labels : List ℤ}
    (hbest : BestRow k (fun doc => score doc.toNat) id (documents n) best)
    (hanswer : ExactAnswer n score none k scores labels) : scores = best.1.map shown := by
  obtain ⟨found, -, -, hfound, hscores, -⟩ := hanswer
  have hall : (documents n).val.map (fun doc => score doc.toNat)
      = ((List.range n).map score : List F) := by
    rw [documents, Finset.map_val, Multiset.map_map]
    rfl
  have hpositive : positiveScores n score none
      = (((List.range n).map score : List F) : Multiset F).filter (0 < ·) := by
    rw [positiveScores, Multiset.filter_coe, List.filter_map]
    congr 2
    exact List.filter_congr fun doc _ => Bool.and_true _
  have hcard : (documents n).card = (((List.range n).map score : List F) : Multiset F).card := by
    rw [← hall, Multiset.card_map]
    rfl
  have hlen : k - found.length = k - (positiveScores n score none).card := by
    have hcount := congrArg List.length hfound
    rw [List.length_map, List.length_take, Multiset.length_sort] at hcount
    omega
  rw [hbest.scores_eq, List.map_id, hall, hcard, map_shown_sort, ← hpositive, hscores, hfound, hlen]

/-- So are those of a batch. -/
theorem map_fst_eq_shown {A : Type} {P R : A → List F × List ℤ → Prop} {queries : List A}
    {best rows : List (List F × List ℤ)} (hbest : List.Forall₂ P queries best)
    (hrows : List.Forall₂ R queries rows)
    (hshown : ∀ query best row, P query best → R query row → row.1 = best.1.map shown) :
    rows.map Prod.fst = (best.map Prod.fst).map (List.map shown) := by
  induction hbest generalizing rows with
  | nil =>
      cases hrows
      rfl
  | cons hfirst _ ih =>
      cases hrows with
      | cons hrow hrows =>
          rw [List.map_cons, List.map_cons, List.map_cons, ih hrows, hshown _ _ _ hfirst hrow]

end Rows

namespace InvertedIndex

section Documents

variable [Ring F] [LinearOrder F] {dim : ℕ} {docs : List (SparseRow F)}

/-! ### The documents of a run -/

/-- **A run of `add` calls** leaves its rows waiting for the build. -/
theorem adds_track (hdim : 0 < dim) (batches : List (CsrArgs F)) {x : InvertedIndex F}
    (hx : Tracks dim x docs) (hlists : x.invertedLists = none) :
    Tracks dim (batches.foldl (fun x a => (x.add a).1) x) (docs ++ batches.flatMap CsrArgs.rows) ∧
      (batches.foldl (fun x a => (x.add a).1) x).invertedLists = none := by
  induction batches generalizing x docs with
  | nil =>
      rw [List.flatMap_nil, List.append_nil]
      exact ⟨hx, hlists⟩
  | cons a batches ih =>
      rw [List.flatMap_cons, ← List.append_assoc]
      rcases add_cases x a hx.wellFormed with ⟨e, hthrown, hnone⟩ | ⟨v, hok, hw, hne, hpos, hrows⟩
      · have hdimension : x.dimension ≠ 0 := by
          cases hx with
          | fresh => exact hdim.ne'
          | waiting => exact hdim.ne'
          | inverted => exact hdim.ne'
        have hadd : (x.add a).1 = x := by rw [hthrown]
        rw [hnone.resolve_right hdimension, List.append_nil, List.foldl_cons, hadd]
        exact ih hx hlists
      · -- the rows of a call that throws on an index with a dimension are none, so only this case
        -- appends
        have hadd : (x.add a).1 = { x with
            vectors := some v
            numVectors := x.numVectors + a.rows.length } := by rw [hok]
        rw [List.foldl_cons, hadd]
        exact ih (add_tracks hx hlists hw hne hpos hrows) hlists

/-- A build that returns then inverts them. -/
theorem build_of_adds (hdim : 0 < dim) {batches : List (CsrArgs F)}
    (hdocs : batches.flatMap CsrArgs.rows = docs) (hne : docs ≠ []) {built : InvertedIndex F}
    (hbuild : (batches.foldl (fun x a => (x.add a).1) (new dim)).build = (built, .ok ())) :
    built = invertedOf dim docs ∧ TermsBelow dim docs := by
  have hnew : (new dim : InvertedIndex F).invertedLists = none := rfl
  obtain ⟨htracks, hlists⟩ := adds_track hdim batches Tracks.fresh hnew
  rw [hdocs, List.nil_append] at htracks
  generalize batches.foldl (fun x a => (x.add a).1) (new dim) = x at *
  cases htracks with
  | fresh => exact absurd rfl hne
  | inverted => cases hlists
  | waiting v _ _ _ =>
      rcases build_cases ⟨dim, some v, none, v.rows.length, []⟩ with ⟨hnone, -⟩ | ⟨v', hv, hres⟩
      · cases hnone
      · obtain rfl := Option.some_inj.mp hv
        rcases hres with ⟨e, hthrown⟩ | ⟨hterms, hok⟩
        · rw [hthrown] at hbuild
          cases hbuild
        · rw [hok] at hbuild
          obtain ⟨rfl, -⟩ := Prod.mk.inj hbuild
          exact ⟨rfl, hterms⟩

/-! ### Batches -/

/-- **The queries of a batch** are answered exactly, each with the score window clear. -/
theorem searchQueries_listsOf [IsOrderedRing F] (Q : ItemQueue F ℤ) (sort : StdSort)
    (hdistinct : ∀ row ∈ docs, (row.map Prod.fst).Nodup) (hterms : TermsBelow dim docs)
    (hsize : docs.length + kScoreWindowSize < 2 ^ 31) {queries : List (SparseRow F)}
    (hw : ∀ query ∈ queries, ∀ q ∈ query, 0 ≤ q.2) {k : ℤ} (hk : 1 ≤ k)
    (sel : Option IDSelector) :
    ∃ enough : ℕ, ∀ fuel, enough ≤ fuel → ∃ answers : List (List F × List ℤ),
      searchQueries Q sort fuel (listsOf dim docs) (maximaOf dim docs) k sel queries
          (List.replicate kScoreWindowSize 0)
        = some (.ok (answers.map Prod.fst, answers.map Prod.snd),
          List.replicate kScoreWindowSize 0) ∧
      List.Forall₂ (fun query answer => ExactAnswer docs.length (innerProduct docs query) sel
        k.toNat answer.1 answer.2) queries answers := by
  induction queries with
  | nil => exact ⟨0, fun fuel _ => ⟨[], rfl, .nil⟩⟩
  | cons query queries ih =>
      obtain ⟨hfirst, hw⟩ := List.forall_mem_cons.mp hw
      obtain ⟨enough, hsingle⟩ :=
        singleQuery_listsOf Q sort hdistinct hterms hsize hfirst hk sel
      obtain ⟨later, hrest⟩ := ih hw
      refine ⟨max enough later, fun fuel hfuel => ?_⟩
      obtain ⟨scores, labels, hrun, hanswer⟩ := hsingle fuel ((le_max_left _ _).trans hfuel)
      obtain ⟨answers, hruns, hanswers⟩ := hrest fuel ((le_max_right _ _).trans hfuel)
      refine ⟨(scores, labels) :: answers, ?_, .cons hanswer hanswers⟩
      rw [searchQueries, hrun]
      dsimp only
      rw [hruns]
      rfl

end Documents

/-! ### Searches -/

variable [CommRing F] [LinearOrder F] [IsOrderedRing F]

/-- **The inverted index agrees with the brute-force index.**  Given the same `add` calls, those
that throw included, and a build that returns, a search of the inverted index without a selector
shows for every query of distinct terms and non-negative weights the scores that a brute-force search
shows, with every score that is not positive taken for padding, and each label is a document that
has its score. -/
theorem search_agrees (Q : ItemQueue F ℤ) (sort : StdSort) {dim : ℕ} (hdim : 0 < dim)
    (batches : List (CsrArgs F)) {docs : List (SparseRow F)}
    (hdocs : batches.flatMap CsrArgs.rows = docs) (hne : docs ≠ [])
    (hdistinct : ∀ row ∈ docs, (row.map Prod.fst).Nodup)
    (hsize : docs.length + kScoreWindowSize < 2 ^ 31) {built : InvertedIndex F}
    (hbuild : (batches.foldl (fun x a => (x.add a).1) (new dim)).build = (built, .ok ()))
    {queries : CsrArgs F} {indptr indices : List ℕ} {values : List F}
    (hqueries : queries.checked = .ok (indptr, indices, values))
    (hterms : ∀ query ∈ queries.rows, (query.map Prod.fst).Nodup)
    (hwithin : TermsBelow dim queries.rows)
    (hw : ∀ query ∈ queries.rows, ∀ q ∈ query, 0 ≤ q.2) {k : ℤ} (hk : 0 < k) :
    ∃ rows : SearchRows F,
      (batches.foldl (fun x a => (x.add a).1) (BrutalIndex.new dim)).search Q queries.n indptr
        indices values k = .ok rows ∧
      ∃ enough : ℕ, ∀ fuel, enough ≤ fuel → ∃ answers : List (List F × List ℤ),
        built.search Q sort fuel (List.replicate kScoreWindowSize 0) queries.n indptr indices
            values k none
          = some (.ok (answers.map Prod.fst, answers.map Prod.snd),
            List.replicate kScoreWindowSize 0) ∧
        answers.map Prod.fst = rows.1.map (List.map shown) ∧
        List.Forall₂ (fun query answer => ExactAnswer docs.length (innerProduct docs query) none
          k.toNat answer.1 answer.2) queries.rows answers := by
  obtain ⟨rfl, hbelow⟩ := build_of_adds hdim hdocs hne hbuild
  have hn := (CsrArgs.checked_eq_ok hqueries).1
  obtain ⟨_, hbrutal, best, rfl, hbest⟩ := BrutalIndex.search_best Q hdim hdocs hne (by omega)
    hbelow hqueries hterms hwithin hk
  refine ⟨_, hbrutal, ?_⟩
  obtain ⟨enough, hinverted⟩ := searchQueries_listsOf Q sort hdistinct hbelow hsize hw hk none
  refine ⟨enough, fun fuel hfuel => ?_⟩
  obtain ⟨answers, hruns, hanswers⟩ := hinverted fuel hfuel
  refine ⟨answers, ?_, ?_, hanswers⟩
  · obtain ⟨empty, stored, hnew, happend, hstored⟩ := stored_queries hdim hqueries
    have hread : ((SparseVectors.new kElementSize dim).bind fun queries' : SparseVectors F =>
        queries'.addVectors indptr (indices.take (indptr.getD queries.n.toNat 0))
          (values.take (indptr.getD queries.n.toNat 0))) = .ok stored := by
      rw [hnew]
      exact happend
    unfold search invertedOf
    dsimp only
    rw [if_neg hn.ne', hread]
    dsimp only
    rw [hstored]
    exact hruns
  · exact map_fst_eq_shown hbest hanswers fun _ _ _ => scores_eq_shown

/-- **Three documents**, of which two are asked for. -/
theorem search_agrees_three_documents :
    ∃ rows : SearchRows ℤ,
      ([threeDocuments].foldl (fun x a => (x.add a).1) (BrutalIndex.new 2)).search
        (sortedQueue TopKItem.score) 1 [0, 2] [0, 1] [1, 1] 2 = .ok rows ∧
      ∃ enough : ℕ, ∀ fuel, enough ≤ fuel → ∃ answers : List (List ℤ × List ℤ),
        ([threeDocuments].foldl (fun x a => (x.add a).1) (new 2)).build.1.search
            (sortedQueue TopKItem.score) insertionSort fuel (List.replicate kScoreWindowSize 0) 1
            [0, 2] [0, 1] [1, 1] 2 none
          = some (.ok (answers.map Prod.fst, answers.map Prod.snd),
            List.replicate kScoreWindowSize 0) ∧
        answers.map Prod.fst = rows.1.map (List.map shown) ∧
        List.Forall₂ (fun query answer => ExactAnswer 3 (innerProduct threeDocuments.rows query) none
          2 answer.1 answer.2) twoTermQuery.rows answers :=
  search_agrees (sortedQueue TopKItem.score) insertionSort Nat.two_pos [threeDocuments]
    (List.flatMap_singleton ..) (by decide) (by decide) (by decide)
    (show ([threeDocuments].foldl (fun x a => (x.add a).1) (new 2)).build
      = (([threeDocuments].foldl (fun x a => (x.add a).1) (new 2)).build.1, .ok ()) by decide)
    (show twoTermQuery.checked = .ok ([0, 2], [0, 1], [1, 1]) from rfl) (by decide) (by decide)
    (by decide) (by decide)

end InvertedIndex

end Nsparse
