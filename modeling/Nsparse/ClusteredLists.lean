/-
Nsparse/ClusteredLists.lean

The lists a build produces do not depend on the windows.

`clusteredList` is the clustered list of a term computed from the whole corpus.  On an
indexable corpus every sink is handed exactly these, window after window
(`forEachClusteredWindow_spec`), so that what a build returns follows from what its
sink does with the next few of them.
-/
import Nsparse.ClusteredBuild
import Nsparse.WindowPostings

namespace Nsparse

/-- A corpus the build accepts: not empty, row numbers of 32 bits, terms below the dimension. -/
structure Indexable (vectors : SparseVectors Code) (dim : ℕ) : Prop where
  wellFormed : vectors.WellFormed
  nonempty : vectors.numVectors ≠ 0
  size : vectors.numVectors < 2 ^ 31
  terms : TermsBelow dim vectors.rows

variable {F : Type} [Mul F] [FloatFormat F] [Zero F] [Add F] [Sub F] [LT F] [DecidableLT F]
  {rng : Rng} {sort : StdSort} {vectors : SparseVectors Code} {dim : ℕ}

/-- The clustered list of a term. -/
def clusteredList (rng : Rng) (sort : StdSort) (vectors : SparseVectors Code)
    (params : ResolvedParameters F) (term : ℕ) : InvertedListClusters :=
  clusterTerm rng sort vectors params term (postingList vectors.rows term)

/-- The clustered lists of `n` terms from the term `a` on. -/
def clusteredLists (rng : Rng) (sort : StdSort) (vectors : SparseVectors Code)
    (params : ResolvedParameters F) (a n : ℕ) : List InvertedListClusters :=
  (List.range n).map fun i => clusteredList rng sort vectors params (a + i)

@[simp] theorem length_clusteredLists (params : ResolvedParameters F) (a n : ℕ) :
    (clusteredLists rng sort vectors params a n).length = n := by simp [clusteredLists]

theorem clusteredLists_append (params : ResolvedParameters F) (m n : ℕ) :
    clusteredLists rng sort vectors params 0 m ++ clusteredLists rng sort vectors params m n
      = clusteredLists rng sort vectors params 0 (m + n) := by
  simp [clusteredLists, List.range_add, Function.comp_def]

variable {σ : Type} {sink : σ → ℕ → List InvertedListClusters → Except Exception σ}

/-- One turn of the loop hands the sink the lists of its window. -/
theorem clusteredWindow_eq (h : Indexable vectors dim) (params : ResolvedParameters F)
    {termCounts : List ℕ}
    (hcounts : ∀ t < dim, termCounts.getD t 0 = (postingsOf vectors.rows t).length)
    {window : TermWindow} (hstart : window.start ≤ window.stop) (hstop : window.stop ≤ dim)
    (s : σ) :
    clusteredWindow rng sort vectors params termCounts sink s window
      = sink s window.start
          (clusteredLists rng sort vectors params window.start window.size) := by
  have hlists := @windowLists_eq_postingLists window vectors.elementSize vectors h.size
    termCounts fun i hi => hcounts _ (by
      have : window.size = window.stop - window.start := rfl
      omega)
  unfold clusteredWindow
  rcases hfill : fillFromCorpus vectors window
      (WindowLists.new termCounts window vectors.elementSize) with e | lists
  · rw [hfill] at hlists
    cases hlists
  · rw [hfill] at hlists
    have hsealed : lists.sealed = .ok ((List.range window.size).map fun i =>
        postingList vectors.rows (window.start + i)) := hlists
    show (lists.sealed >>= fun lists => sink s window.start
      (clusterWindow rng sort vectors lists window params)) = _
    rw [hsealed]
    show sink s window.start (clusterWindow rng sort vectors _ window params) = _
    congr 1
    refine List.map_congr_left fun i hi => ?_
    rw [clusteredList, List.getD_eq_getElem?_getD, List.getElem?_map,
      List.getElem?_range (List.mem_range.mp hi)]
    rfl

/-- **The loop over the windows.**  What the sink keeps from one stretch of terms to the next
holds at the end, and nothing throws. -/
theorem forEachClusteredWindow_spec (h : Indexable vectors dim)
    (params : SeismicClusterParameters F) (entropy : ℕ) (P : ℕ → σ → Prop)
    (hstep : ∀ a n s, a + n ≤ dim → P a s →
      ∃ s', sink s a (clusteredLists rng sort vectors
        (params.resolve vectors.numVectors entropy) a n) = .ok s' ∧ P (a + n) s')
    {s : σ} (hs : P 0 s) :
    ∃ s', forEachClusteredWindow rng sort (some vectors) dim params entropy sink s = .ok s' ∧
      P dim s' := by
  obtain ⟨termCounts, hcount, hlen, hcounts⟩ := countPostingsPerTerm_eq_ok h.wellFormed h.terms
  -- by induction on the windows, which follow one another from `a` to the dimension
  have key : ∀ (windows : List TermWindow) (a : ℕ) (s : σ), Contiguous a dim windows → P a s →
      ∃ s', windows.foldlM (clusteredWindow rng sort vectors
        (params.resolve vectors.numVectors entropy) termCounts sink) s = .ok s' ∧ P dim s' := by
    intro windows
    induction windows with
    | nil =>
        rintro a s rfl hs
        exact ⟨s, rfl, hs⟩
    | cons window windows ih =>
        rintro a s ⟨rfl, hlo, hhi, hrest⟩ hs
        have hsize : window.start + window.size = window.stop := Nat.add_sub_cancel' hlo
        obtain ⟨s', hsink, hs'⟩ := hstep window.start window.size s (by omega) hs
        rw [hsize] at hs'
        obtain ⟨s'', hfold, hs''⟩ := ih window.stop s' hrest hs'
        refine ⟨s'', ?_, hs''⟩
        rw [List.foldlM_cons, clusteredWindow_eq h _ hcounts hlo hhi, hsink]
        exact hfold
  simp only [forEachClusteredWindow, if_neg h.nonempty, hcount]
  refine key _ 0 s ?_ hs
  have hcover := makeWindows_contiguous termCounts
    (toSize (params.resolve vectors.numVectors entropy).lambda)
    (min params.batchClustering.effectiveBatchSize dim)
  rwa [hlen] at hcover

/-- **The whole-corpus build** returns the clustered list of every term. -/
theorem buildInvertedListsClusters_eq (h : Indexable vectors dim)
    (params : SeismicClusterParameters F) (entropy : ℕ) :
    buildInvertedListsClusters rng sort (some vectors) dim params entropy
      = .ok (clusteredLists rng sort vectors (params.resolve vectors.numVectors entropy) 0 dim) := by
  let sink : List InvertedListClusters → ℕ → List InvertedListClusters →
      Except Exception (List InvertedListClusters) :=
    fun clustered termBegin window => .ok (placeWindow clustered termBegin window)
  obtain ⟨s, hs, hfinal⟩ := @forEachClusteredWindow_spec F _ _ _ _ _ _ _ rng sort vectors dim _
    sink h params entropy
    (fun a clustered => clustered
      = clusteredLists rng sort vectors (params.resolve vectors.numVectors entropy) 0 a
        ++ List.replicate (dim - a) .empty)
    (fun a n clustered hn hc => by
      refine ⟨_, rfl, ?_⟩
      rw [hc, placeWindow, length_clusteredLists,
        List.take_left' (length_clusteredLists _ 0 a), clusteredLists_append,
        List.drop_append, length_clusteredLists, List.drop_replicate, List.drop_of_length_le]
      · rw [List.nil_append]
        congr 2
        omega
      · rw [length_clusteredLists]
        omega)
    (List.replicate dim .empty) (by simp [clusteredLists])
  rw [buildInvertedListsClusters, hs, hfinal, Nat.sub_self, List.replicate_zero, List.append_nil]

end Nsparse
