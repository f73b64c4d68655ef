/-
Nsparse/ClusterCount.lean

How many clusters a posting list gets.

Every cluster has one summary, so a list has as many as training makes: as many as
documents are kept, but no more than `beta`.  Nothing in that bounds the number by what
16 bits can name, and the lists of a window all stay within it exactly when their lengths
and the resolved parameters say so (`clusterWindow_nameable_iff`).
-/
import Nsparse.PrunedClusters
import Nsparse.StorableLists
import Nsparse.WindowInversion

namespace Nsparse

/-! ### One summary for each cluster -/

section Summaries

variable {F : Type} [Zero F] [Add F] [FloatFormat F] (vt : ValueType F) (sort : StdSort)
  {vectors out : SparseVectors Code}

theorem SparseVectors.numVectors_addVector {V : Type} (v : SparseVectors V) (indices : List ℕ)
    (weights : List V) : (v.addVector indices weights).numVectors = v.numVectors + 1 := by
  rw [SparseVectors.numVectors_eq, SparseVectors.numVectors_eq, SparseVectors.addVector]
  dsimp only
  rw [List.length_append, List.length_singleton, Nat.add_sub_cancel]
  split
  · rename_i hnil
    rw [hnil]
    rfl
  · rename_i hne
    exact (Nat.sub_add_cancel (List.length_pos_iff.mpr hne)).symm

theorem numVectors_summarizeClusters (alpha : F) (i : ℕ) (clusters : List (List ℤ))
    (acc : List vt.T) (epoch : List ℕ) :
    (summarizeClusters vt sort vectors alpha i clusters acc epoch out).numVectors
      = out.numVectors + clusters.length := by
  induction clusters generalizing i acc epoch out with
  | nil => rfl
  | cons docIds clusters ih =>
      rw [summarizeClusters, ih, summarizeEmitCluster, SparseVectors.numVectors_addVector,
        List.length_cons, Nat.add_assoc, Nat.add_comm 1]

end Summaries

variable {F : Type} [Zero F] [Add F] [FloatFormat F] [Sub F] [Mul F] [LT F] [DecidableLT F]

/-- A list has as many clusters as it is made of. -/
theorem InvertedListClusters.nClusters_summarize (sort : StdSort) (vectors : SparseVectors Code)
    (alpha : F) (clusters : List (List ℤ)) :
    (InvertedListClusters.summarize sort vectors alpha (.ofDocs clusters)).nClusters
      = clusters.length := by
  rw [InvertedListClusters.summarize]
  by_cases hnil : clusters = []
  · rw [hnil, if_pos (by decide), InvertedListClusters.nClusters_buildTranspose]
    rfl
  · have hoffsets := InvertedListClusters.length_offsets_ofDocs hnil
    have hpos := List.length_pos_iff.mpr hnil
    rw [if_neg (by omega), InvertedListClusters.nClusters_buildTranspose, summarizeWithCpu,
      numVectors_summarizeClusters, List.length_map, List.length_range, hoffsets,
      Nat.add_sub_cancel]
    exact Nat.zero_add _

/-! ### The clusters of a posting list -/

/-- The number of clusters a list of `n` postings gets. -/
def clusterCount (lambda beta n : ℕ) : ℕ :=
  if n = 0 then 0 else boundaryCheckNClusters (keptCount lambda n) beta

theorem keptCount_eq_zero_iff {lambda n : ℕ} : keptCount lambda n = 0 ↔ n = 0 := by
  rw [keptCount]
  split <;> omega

theorem nClusters_clusterTerm (rng : Rng) (sort : StdSort) (vectors : SparseVectors Code)
    (params : ResolvedParameters F) (term : ℕ) {l : InvertedList Code}
    (hpaired : l.codes.length = l.docIds.length) :
    (clusterTerm rng sort vectors params term l).nClusters
      = clusterCount (toSize params.lambda) (toSize params.beta) l.docIds.length := by
  have hkept := length_pruneAndKeepDocIds F sort vectors.elementSize (toSize params.lambda) hpaired
  rw [clusterTerm, InvertedListClusters.nClusters_summarize, clusterCount]
  split
  · rename_i hzero
    rw [keptCount_eq_zero_iff.mpr hzero] at hkept
    rw [List.eq_nil_of_length_eq_zero hkept]
    rfl
  · rename_i hpos
    have hne : pruneAndKeepDocIds F sort vectors.elementSize l (toSize params.lambda) ≠ [] := by
      intro hnil
      rw [hnil] at hkept
      exact hpos (keptCount_eq_zero_iff.mp hkept.symm)
    rw [length_train F rng sort vectors hne, hkept]

/-! ### What 16 bits can name -/

/-- Every cluster number of a list keeps its value in 16 bits. -/
def InvertedListClusters.Nameable (l : InvertedListClusters) : Prop :=
  l.nClusters ≤ 2 ^ 16 ∧ ∀ cluster < l.nClusters, cluster % 2 ^ 16 = cluster

theorem InvertedListClusters.nameable_iff {l : InvertedListClusters} :
    l.Nameable ↔ l.nClusters ≤ 2 ^ 16 :=
  ⟨fun h => h.1, fun h => ⟨h, fun _ hlt => Nat.mod_eq_of_lt (hlt.trans_le h)⟩⟩

/-- The parameters keep a list of `n` postings within 16 bits: few documents are kept, or a
number of clusters is asked for that fits, or the square root of the documents kept does. -/
def FewClusters (lambda beta n : ℕ) : Prop :=
  keptCount lambda n ≤ 2 ^ 16 ∨ (beta ≠ 0 ∧ beta ≤ 2 ^ 16) ∨
    (beta = 0 ∧ keptCount lambda n < (2 ^ 16 + 1) ^ 2)

theorem clusterCount_le_iff {lambda beta n : ℕ} :
    clusterCount lambda beta n ≤ 2 ^ 16 ↔ FewClusters lambda beta n := by
  rw [clusterCount, FewClusters]
  split
  · rename_i hzero
    rw [keptCount_eq_zero_iff.mpr hzero]
    simp
  · rename_i hpos
    have hkept : 0 < keptCount lambda n :=
      Nat.pos_of_ne_zero fun h => hpos (keptCount_eq_zero_iff.mp h)
    rw [boundaryCheckNClusters_eq hkept]
    split
    · rename_i hbeta
      -- the square root of what 16 bits can count is below it
      have hsqrt : (keptCount lambda n).sqrt ≤ 2 ^ 16 ↔
          keptCount lambda n < (2 ^ 16 + 1) ^ 2 := by
        rw [← Nat.lt_succ_iff, Nat.sqrt_lt']
      rw [hsqrt]
      have hsquare : 2 ^ 16 < (2 ^ 16 + 1) ^ 2 := by norm_num
      constructor
      · exact fun h => .inr (.inr ⟨hbeta, h⟩)
      · rintro (h | ⟨h, -⟩ | ⟨-, h⟩)
        · exact h.trans_lt hsquare
        · exact absurd hbeta h
        · exact h
    · rename_i hbeta
      rw [max_le_iff, min_le_iff]
      constructor
      · rintro ⟨-, h | h⟩
        · exact .inl h
        · exact .inr (.inl ⟨hbeta, h⟩)
      · rintro (h | ⟨-, h⟩ | ⟨h, -⟩)
        · exact ⟨Nat.one_le_two_pow, .inl h⟩
        · exact ⟨Nat.one_le_two_pow, .inr h⟩
        · exact absurd h hbeta

/-! ### The lists of a window -/

section Window

variable {vectors : SparseVectors Code} {window : TermWindow} {dim : ℕ}

theorem length_windowPostings (vectors : SparseVectors Code) (elementSize term : ℕ) :
    (windowPostings vectors elementSize term).length
      = (postingsOf vectors.rows term).length := by
  rw [windowPostings, List.length_append, List.length_map, List.length_replicate,
    postingsOf_split, List.length_append]

/-- Counting the postings of the terms succeeds only if all are below the dimension. -/
theorem termsBelow_of_countPostingsPerTerm (hv : vectors.WellFormed) {counts : List ℕ}
    (hcounts : countPostingsPerTerm vectors dim = .ok counts) :
    TermsBelow dim vectors.rows ∧
      ∀ t < dim, counts.getD t 0 = (postingsOf vectors.rows t).length := by
  by_cases hterms : TermsBelow dim vectors.rows
  · obtain ⟨counts', hcounts', -, hcount⟩ := countPostingsPerTerm_eq_ok hv hterms
    obtain rfl := Except.ok.inj (hcounts.symm.trans hcounts')
    exact ⟨hterms, hcount⟩
  · obtain ⟨e, he⟩ := countPostingsPerTerm_eq_error hv hterms
    cases hcounts.symm.trans he

/-- The clusters of a window's lists can be named exactly when each length allows it. -/
theorem forall_clusterWindow_nameable (rng : Rng) (sort : StdSort)
    (params : ResolvedParameters F) (elementSize : ℕ) :
    (∀ l ∈ clusterWindow rng sort vectors ((List.range window.size).map fun i =>
        .ofPostings (windowPostings vectors elementSize (window.start + i))) window params,
      l.Nameable) ↔
    ∀ term, window.start ≤ term → term < window.stop →
      FewClusters (toSize params.lambda) (toSize params.beta)
        (postingsOf vectors.rows term).length := by
  have hcount : ∀ i < window.size, (clusterTerm rng sort vectors params (window.start + i)
      (((List.range window.size).map fun i =>
        InvertedList.ofPostings
          (windowPostings vectors elementSize (window.start + i))).getD i .empty)).Nameable ↔
      FewClusters (toSize params.lambda) (toSize params.beta)
        (postingsOf vectors.rows (window.start + i)).length := by
    intro i hi
    rw [List.getD_eq_getElem?_getD, List.getElem?_map, List.getElem?_range hi, Option.map_some,
      Option.getD_some, InvertedListClusters.nameable_iff, nClusters_clusterTerm, clusterCount_le_iff]
    · rw [InvertedList.ofPostings, List.length_map, length_windowPostings]
    · rw [InvertedList.ofPostings, List.length_map, List.length_map]
  rw [clusterWindow, List.forall_mem_map]
  constructor
  · intro h term hlow hhigh
    have hi : term - window.start < window.size := Nat.sub_lt_sub_right hlow hhigh
    have hterm := (hcount _ hi).mp (h _ (List.mem_range.mpr hi))
    rwa [Nat.add_sub_cancel' hlow] at hterm
  · intro h i hi
    have hlt : i < window.stop - window.start := List.mem_range.mp hi
    exact (hcount i hlt).mpr (h _ (Nat.le_add_right _ _) (by omega))

/-- **The clusters of a window's lists** can all be named in 16 bits, and none of them loses its
number, exactly when for every term of the window few documents are kept or few clusters are
asked for. -/
theorem clusterWindow_nameable_iff (rng : Rng) (sort : StdSort)
    (params : SeismicClusterParameters F) (entropy : ℕ) (hv : vectors.WellFormed)
    {counts : List ℕ} (hcounts : countPostingsPerTerm vectors dim = .ok counts)
    (hstop : window.stop ≤ dim) :
    ∃ lists, (fillFromCorpus vectors window (.new counts window vectors.elementSize)).bind
        WindowLists.sealed = .ok lists ∧
      ((∀ l ∈ clusterWindow rng sort vectors lists window
          (params.resolve vectors.numVectors entropy), l.Nameable) ↔
        ∀ term, window.start ≤ term → term < window.stop →
          FewClusters (toSize (params.resolve vectors.numVectors entropy).lambda)
            (toSize (params.resolve vectors.numVectors entropy).beta)
            (postingsOf vectors.rows term).length) := by
  obtain ⟨-, hcount⟩ := termsBelow_of_countPostingsPerTerm hv hcounts
  refine ⟨_, windowLists_eq fun i hi => hcount (window.start + i) ?_, ?_⟩
  · have hsize : i < window.stop - window.start := hi
    omega
  · exact forall_clusterWindow_nameable rng sort _ _

/-- Two lists of three documents: of each two are kept, in two clusters. -/
theorem clusterWindow_nameable_iff_two_lists :
    (((fillFromCorpus fourDocs ⟨0, 2⟩ (.new [3, 3, 1] ⟨0, 2⟩ 1)).bind
        WindowLists.sealed).toOption.map fun lists =>
      (clusterWindow countingRng insertionSort fourDocs lists ⟨0, 2⟩
        ((⟨2, 2, 1, ⟨1, ""⟩, 42⟩ : SeismicClusterParameters ℤ).resolve 4 0)).map
          fun l => (l.nClusters, l.docs.length)) = some [(2, 2), (2, 2)] ∧
    ∃ lists, (fillFromCorpus fourDocs ⟨0, 2⟩ (.new [3, 3, 1] ⟨0, 2⟩ 1)).bind WindowLists.sealed
        = .ok lists ∧
      ((∀ l ∈ clusterWindow countingRng insertionSort fourDocs lists ⟨0, 2⟩
          ((⟨2, 2, 1, ⟨1, ""⟩, 42⟩ : SeismicClusterParameters ℤ).resolve 4 0), l.Nameable) ↔
        ∀ term, 0 ≤ term → term < 2 →
          FewClusters (toSize 2) (toSize 2) (postingsOf fourDocs.rows term).length) :=
  ⟨by decide, clusterWindow_nameable_iff countingRng insertionSort ⟨2, 2, 1, ⟨1, ""⟩, 42⟩ 0
    fourDocs_wellFormed (by decide : countPostingsPerTerm fourDocs 3 = .ok [3, 3, 1]) (by decide)⟩

/-! ### Too many clusters -/

/-- `n` documents with the same term. -/
def sameTerm (n : ℕ) : SparseVectors Code where
  elementSize := 1
  dimension := 1
  indptr := List.range (n + 1)
  indices := List.replicate n 0
  values := List.replicate n [1]

theorem sameTerm_wellFormed (n : ℕ) : (sameTerm n).WellFormed where
  paired := by rw [sameTerm, List.length_replicate, List.length_replicate]
  empty hnil := absurd hnil (by simp [sameTerm])
  offsets _ := by
    refine ⟨?_, List.pairwise_le_range, ?_⟩
    · rw [sameTerm, List.range_succ_eq_map]
      rfl
    · rw [sameTerm, List.range_succ, List.getLast?_concat, List.length_replicate]

theorem entries_sameTerm (n : ℕ) : (sameTerm n).rows.flatten = List.replicate n (0, [1]) := by
  rw [(sameTerm_wellFormed n).flatten_rows, SparseVectors.entries, sameTerm, List.zip_replicate,
    min_self]

theorem termsBelow_sameTerm (n : ℕ) : TermsBelow 1 (sameTerm n).rows := by
  intro row hrow entry hentry
  have hmem : entry ∈ (sameTerm n).rows.flatten := List.mem_flatten.mpr ⟨row, hrow, hentry⟩
  rw [entries_sameTerm] at hmem
  rw [List.eq_of_mem_replicate hmem]
  exact Nat.one_pos

theorem length_postingsOf_sameTerm (n : ℕ) :
    (postingsOf (sameTerm n).rows 0).length = n := by
  rw [postingsOf, length_postingsFrom, entries_sameTerm,
    List.filter_eq_self.mpr fun entry hentry => by
      rw [List.eq_of_mem_replicate hentry]
      rfl, List.length_replicate]

/-- A list of `n` postings from which nothing is dropped gets as many clusters as `beta` says,
and beyond 16 bits not all of them can be named. -/
theorem not_nameable_sameTerm {n : ℕ} {params : ResolvedParameters F}
    (hlambda : toSize params.lambda = 0) (hn : 2 ^ 16 < n) (hbeta : 2 ^ 16 < toSize params.beta)
    (rng : Rng) (sort : StdSort) :
    ∃ counts lists, countPostingsPerTerm (sameTerm n) 1 = .ok counts ∧
      (fillFromCorpus (sameTerm n) ⟨0, 1⟩ (.new counts ⟨0, 1⟩ 1)).bind WindowLists.sealed
        = .ok lists ∧
      ¬ ∀ l ∈ clusterWindow rng sort (sameTerm n) lists ⟨0, 1⟩ params, l.Nameable := by
  obtain ⟨counts, hcounts, -, hcount⟩ :=
    countPostingsPerTerm_eq_ok (sameTerm_wellFormed n) (termsBelow_sameTerm n)
  refine ⟨counts, _, hcounts, windowLists_eq fun i hi => ?_, ?_⟩
  · obtain rfl : i = 0 := Nat.lt_one_iff.mp hi
    exact hcount 0 Nat.one_pos
  · rw [forall_clusterWindow_nameable rng sort params 1]
    intro h
    have hfew := h 0 le_rfl Nat.one_pos
    rw [length_postingsOf_sameTerm, hlambda] at hfew
    rcases hfew with hkept | ⟨-, hasked⟩ | ⟨hzero, -⟩
    · exact absurd hkept (not_le.mpr hn)
    · exact absurd hasked (not_le.mpr hbeta)
    · omega

/-- **Too many clusters.**  65537 documents with the same term, no pruning, 70000 clusters asked
for. -/
theorem clusterWindow_not_nameable :
    ∃ counts lists, countPostingsPerTerm (sameTerm 65537) 1 = .ok counts ∧
      (fillFromCorpus (sameTerm 65537) ⟨0, 1⟩ (.new counts ⟨0, 1⟩ 1)).bind WindowLists.sealed
        = .ok lists ∧
      ¬ ∀ l ∈ clusterWindow countingRng insertionSort (sameTerm 65537) lists ⟨0, 1⟩
          ((⟨0, 70000, 1, ⟨1, ""⟩, 42⟩ : SeismicClusterParameters ℤ).resolve 65537 0),
        l.Nameable :=
  not_nameable_sameTerm (by decide) (by decide) (by decide) countingRng insertionSort

end Window

end Nsparse
