/-
Nsparse/PrunedClusters.lean

What the build makes of one posting list.

Pruning keeps the documents of the largest values (`pruneAndKeepDocIds_spec`), drawing
leaves as many centroids as asked for, all of them different, and assignment appends
every other document to one cluster without touching a head.  Together: `clusters_of_list`.
-/
import Nsparse.ClusteredBuild
import Nsparse.KmeansPartition

namespace Nsparse

/-! ### Pruning -/

/-- In a list in descending order whatever is cut off is no larger than what is kept. -/
theorem le_of_take_drop {F : Type} [LE F] {pairs : List (F × ℤ)}
    (h : pairs.Pairwise fun a b => b.1 ≤ a.1) (n : ℕ) :
    ∀ a ∈ pairs.take n, ∀ b ∈ pairs.drop n, b.1 ≤ a.1 := by
  rw [← List.take_append_drop n pairs] at h
  exact (List.pairwise_append.mp h).2.2

/-- How many documents pruning keeps of `n`. -/
def keptCount (lambda n : ℕ) : ℕ := if lambda = 0 then n else min lambda n

theorem length_pruneAndKeepDocIds (F : Type) [Zero F] [Add F] [Sub F] [Mul F] [LT F]
    [DecidableLT F] [FloatFormat F] (sort : StdSort) (elementSize lambda : ℕ)
    {l : InvertedList Code} (hpaired : l.codes.length = l.docIds.length) :
    (pruneAndKeepDocIds F sort elementSize l lambda).length
      = keptCount lambda l.docIds.length := by
  rw [pruneAndKeepDocIds, keptCount]
  split
  · rename_i hall
    rcases hall with hzero | hnil | hle
    · rw [if_pos hzero]
    · rw [hnil]
      simp
    · split
      · rfl
      · rw [min_eq_right hle]
  · rename_i hcut
    rw [if_neg fun hzero => hcut (.inl hzero), List.length_map, List.length_take,
      (sort.perm _ _).length_eq, List.length_zip, List.length_map, hpaired, min_self]

section Pruning

variable {F : Type} [LinearOrder F] [Zero F] [Add F] [Sub F] [Mul F] [FloatFormat F]

/-- The value of a posting as the pruning reads it. -/
def postingValue (F : Type) [LinearOrder F] [Zero F] [Add F] [Sub F] [Mul F] [FloatFormat F]
    (elementSize : ℕ) (code : Code) : F :=
  (ValueType.ofWidth F elementSize).toFloat ((ValueType.ofWidth F elementSize).decode code)

/-- The pairs that are sorted. -/
def valueDocPairs (F : Type) [LinearOrder F] [Zero F] [Add F] [Sub F] [Mul F] [FloatFormat F]
    (elementSize : ℕ) (l : InvertedList Code) : List (F × ℤ) :=
  l.postings.map fun p => (postingValue F elementSize p.2, p.1)

variable {elementSize : ℕ} {l : InvertedList Code}

theorem valueDocPairs_eq_zip :
    (l.codes.map (postingValue F elementSize)).zip l.docIds
      = valueDocPairs F elementSize l := by
  rw [valueDocPairs, InvertedList.postings, ← List.zip_swap, List.zip_map_right, List.map_map]
  rfl

theorem map_snd_valueDocPairs (hpaired : l.codes.length = l.docIds.length) :
    (valueDocPairs F elementSize l).map Prod.snd = l.docIds := by
  rw [valueDocPairs, List.map_map]
  exact List.map_fst_zip hpaired.ge

/-- What pruning owes: the documents kept and those dropped make up the list, as many are kept
as asked for, and no value dropped is above one kept. -/
structure PrunedTo (F : Type) [LinearOrder F] [Zero F] [Add F] [Sub F] [Mul F] [FloatFormat F]
    (elementSize lambda : ℕ) (l : InvertedList Code) (kept : List ℤ) : Prop where
  split : ∃ dropped, (kept ++ dropped).Perm l.docIds
  length : kept.length = keptCount lambda l.docIds.length
  best : ∀ p ∈ l.postings, p.1 ∈ kept → ∀ q ∈ l.postings, q.1 ∉ kept →
    postingValue F elementSize q.2 ≤ postingValue F elementSize p.2

/-- **Pruning** keeps the documents with the largest values. -/
theorem pruneAndKeepDocIds_spec (F : Type) [LinearOrder F] [Zero F] [Add F] [Sub F] [Mul F]
    [FloatFormat F] (sort : StdSort) (elementSize lambda : ℕ) {l : InvertedList Code}
    (hpaired : l.codes.length = l.docIds.length) (hnodup : l.docIds.Nodup) :
    PrunedTo F elementSize lambda l (pruneAndKeepDocIds F sort elementSize l lambda) := by
  have hcount := length_pruneAndKeepDocIds F sort elementSize lambda hpaired
  by_cases hall : lambda = 0 ∨ l.docIds = [] ∨ l.docIds.length ≤ lambda
  · -- nothing is dropped
    rw [pruneAndKeepDocIds, if_pos hall] at hcount ⊢
    exact ⟨⟨[], by rw [List.append_nil]⟩, hcount, fun p _ _ q hq hdropped =>
      absurd (List.of_mem_zip hq).1 hdropped⟩
  · rw [not_or, not_or, not_le] at hall
    obtain ⟨hzero, -, hlt⟩ := hall
    have hkept : pruneAndKeepDocIds F sort elementSize l lambda
        = ((sort.sort (fun a b => decide (b.1 < a.1)) (valueDocPairs F elementSize l)).take
            lambda).map Prod.snd := by
      have hnil : l.docIds ≠ [] := List.ne_nil_of_length_pos ((Nat.zero_le _).trans_lt hlt)
      rw [pruneAndKeepDocIds, if_neg (by simp [hzero, hlt, hnil]), ← valueDocPairs_eq_zip]
      rfl
    have hperm := sort.perm (fun a b : F × ℤ => decide (b.1 < a.1))
      (valueDocPairs F elementSize l)
    have hsorted := sort.sorted (fun a b : F × ℤ => decide (b.1 < a.1))
      (fun a b h => by simpa using (le_of_lt (by simpa using h : b.1 < a.1)))
      (fun a b c hab hbc => by
        simp only [decide_eq_false_iff_not, not_lt] at *
        exact hab.trans hbc)
      (valueDocPairs F elementSize l)
    simp only [decide_eq_false_iff_not, not_lt] at hsorted
    rw [hkept] at hcount ⊢
    generalize sort.sort _ (valueDocPairs F elementSize l) = sorted at hperm hsorted hcount ⊢
    have hdocs : (sorted.map Prod.snd).Perm l.docIds := by
      have hids : (valueDocPairs F elementSize l).map Prod.snd = l.docIds :=
        map_snd_valueDocPairs hpaired
      exact hids ▸ hperm.map _
    refine ⟨⟨(sorted.drop lambda).map Prod.snd, ?_⟩, hcount, fun p hp hpkept q hq hqdropped => ?_⟩
    · rw [← List.map_append, List.take_append_drop]
      exact hdocs
    · have hin : ∀ r ∈ l.postings, (postingValue F elementSize r.2, r.1) ∈ sorted := fun r hr =>
        hperm.mem_iff.mpr (List.mem_map_of_mem hr)
      obtain ⟨a, ha, hap⟩ := List.mem_map.mp hpkept
      -- documents are different, so the pair kept is that of the posting
      have hpair := List.inj_on_of_nodup_map (hdocs.nodup_iff.mpr hnodup)
        (List.mem_of_mem_take ha) (hin p hp) hap
      rw [hpair] at ha
      have hdrop : (postingValue F elementSize q.2, q.1) ∈ sorted.drop lambda := by
        have hmem := hin q hq
        rw [← List.take_append_drop lambda sorted] at hmem
        exact (List.mem_append.mp hmem).resolve_left fun htake =>
          hqdropped (List.mem_map_of_mem (f := Prod.snd) htake)
      exact le_of_take_drop hsorted lambda _ ha _ hdrop

end Pruning

/-! ### Drawing and assigning -/

/-- What is appended to a cluster stands behind its head. -/
theorem centroidOf_append {cluster : List ℤ} (h : cluster ≠ []) (doc : ℤ) :
    centroidOf (cluster ++ [doc]) = centroidOf cluster := by
  obtain ⟨head, rest, rfl⟩ := List.exists_cons_of_ne_nil h
  rfl

theorem map_centroidOf_modify {clusters : List (List ℤ)}
    (h : ∀ cluster ∈ clusters, cluster ≠ []) (c : ℕ) (doc : ℤ) :
    (clusters.modify c (· ++ [doc])).map centroidOf = clusters.map centroidOf := by
  induction clusters generalizing c with
  | nil => rw [List.modify_nil]
  | cons cluster clusters ih =>
      obtain ⟨hne, hrest⟩ := List.forall_mem_cons.mp h
      cases c with
      | zero =>
          show centroidOf (cluster ++ [doc]) :: _ = _
          rw [centroidOf_append hne]
          rfl
      | succ c => exact congrArg (centroidOf cluster :: ·) (ih hrest c)

theorem ne_nil_of_mem_modify {clusters : List (List ℤ)}
    (h : ∀ cluster ∈ clusters, cluster ≠ []) (c : ℕ) (doc : ℤ) :
    ∀ cluster ∈ clusters.modify c (· ++ [doc]), cluster ≠ [] := by
  intro cluster hcluster
  obtain ⟨j, hj, rfl⟩ := List.mem_iff_getElem.mp hcluster
  rw [List.getElem_modify]
  split
  · exact List.append_ne_nil_of_right_ne_nil _ (List.cons_ne_nil _ _)
  · exact h _ (List.getElem_mem _)

/-- Assignment leaves every centroid at the head of its cluster. -/
theorem mapDocsToClustersTyped_centroids {F : Type} (vt : ValueType F) (sort : StdSort)
    (vectors : SparseVectors Code) (docs : List ℤ) {clusters : List (List ℤ)}
    (h : ∀ cluster ∈ clusters, cluster ≠ []) :
    (mapDocsToClustersTyped vt sort vectors docs clusters).map centroidOf
      = clusters.map centroidOf := by
  unfold mapDocsToClustersTyped
  dsimp only
  generalize buildCentroidIndex vt vectors clusters = index
  generalize sort.sort (fun a b => a < b) (clusters.map centroidOf) = centroidIds
  induction docs generalizing clusters with
  | nil => rfl
  | cons doc docs ih =>
      rw [List.foldl_cons]
      split
      · exact ih h
      · exact (ih (ne_nil_of_mem_modify h _ doc)).trans (map_centroidOf_modify h _ doc)

/-! ### Training -/

/-- A partition of a list of documents, each cluster led by its own centroid. -/
structure Clustering (docs centroids : List ℤ) (clusters : List (List ℤ)) : Prop where
  nonempty : ∀ cluster ∈ clusters, cluster ≠ []
  disjoint : clusters.Pairwise List.Disjoint
  union : clusters.flatten.Perm docs
  heads : clusters.map centroidOf = centroids
  distinct : centroids.Nodup

/-- With no document twice, the others and the centroids make up the list. -/
theorem filter_append_perm {centroids rest docs : List ℤ} (h : (centroids ++ rest).Perm docs)
    (hnodup : docs.Nodup) :
    (docs.filter (fun doc => doc ∉ centroids) ++ centroids).Perm docs := by
  have hdisjoint := List.disjoint_of_nodup_append (h.nodup_iff.mpr hnodup)
  have hfilter := h.filter fun doc => doc ∉ centroids
  rw [List.filter_append, List.filter_eq_nil_iff.mpr fun doc hdoc => by simpa using hdoc,
    List.nil_append, List.filter_eq_self.mpr fun doc hdoc => by
      simpa using fun hmem => hdisjoint hmem hdoc] at hfilter
  exact (hfilter.symm.append_right centroids).trans (List.perm_append_comm.trans h)

section Training

variable (F : Type) [Zero F] [Add F] [Sub F] [Mul F] [LT F] [DecidableLT F] [FloatFormat F]

/-- One cluster for each centroid. -/
theorem length_train (rng : Rng) (sort : StdSort) (vectors : SparseVectors Code)
    {docIds : List ℤ} (hne : docIds ≠ []) (nClusters seed : ℕ) :
    (train F rng sort vectors docIds nClusters seed).length
      = boundaryCheckNClusters docIds.length nClusters := by
  obtain ⟨hle, hpos⟩ := boundaryCheckNClusters_le (List.length_pos_iff.mpr hne) nClusters
  obtain ⟨hlength, hsingle, -⟩ := randomSelectInitialCentroids_spec rng hle hpos seed
  rw [train, if_neg hne, mapDocsToClusters]
  split
  · exact hlength
  · have hheads := mapDocsToClustersTyped_centroids
      (ValueType.ofWidth F vectors.elementSize) sort vectors docIds fun cluster hcluster => by
        obtain ⟨d, rfl⟩ := hsingle cluster hcluster
        exact List.cons_ne_nil _ _
    have hcount := congrArg List.length hheads
    rw [List.length_map, List.length_map] at hcount
    exact hcount.trans hlength

/-- **Training** partitions documents that are all different. -/
theorem train_clustering (rng : Rng) (sort : StdSort) (vectors : SparseVectors Code)
    {docIds : List ℤ} (hne : docIds ≠ []) (hnodup : docIds.Nodup) (nClusters seed : ℕ) :
    Clustering docIds
        (randomSelectInitialCentroids rng docIds
          (boundaryCheckNClusters docIds.length nClusters) seed).flatten
        (train F rng sort vectors docIds nClusters seed) := by
  obtain ⟨hle, hpos⟩ := boundaryCheckNClusters_le (List.length_pos_iff.mpr hne) nClusters
  rw [train, if_neg hne]
  obtain ⟨hlength, hsingle, rest, hdraw⟩ :=
    randomSelectInitialCentroids_spec rng hle hpos seed
  generalize randomSelectInitialCentroids rng docIds _ seed = drawn at hlength hsingle hdraw ⊢
  have hdrawn : drawn ≠ [] := List.ne_nil_of_length_pos (hlength ▸ Nat.pos_of_ne_zero hpos)
  have hfull : ∀ cluster ∈ drawn, cluster ≠ [] := by
    intro cluster hcluster
    obtain ⟨d, rfl⟩ := hsingle cluster hcluster
    exact List.cons_ne_nil _ _
  rw [mapDocsToClusters, if_neg (not_or.mpr ⟨hdrawn, hne⟩)]
  obtain ⟨hperm, hnonempty⟩ := mapDocsToClustersTyped_perm
    (ValueType.ofWidth F vectors.elementSize) sort vectors docIds hdrawn
  have hheads := mapDocsToClustersTyped_centroids
    (ValueType.ofWidth F vectors.elementSize) sort vectors docIds hfull
  have hunion := hperm
  rw [map_centroidOf hsingle] at hheads hunion
  have hall := hunion.trans (filter_append_perm hdraw hnodup)
  exact ⟨hnonempty hfull, (List.nodup_flatten.mp (hall.nodup_iff.mpr hnodup)).2, hall, hheads,
    (List.nodup_append.mp (hdraw.nodup_iff.mpr hnodup)).1⟩

end Training

/-! ### One posting list -/

/-- The number of clusters in the words of the parameters. -/
theorem boundaryCheckNClusters_eq {nDocs : ℕ} (h : 0 < nDocs) (nClusters : ℕ) :
    boundaryCheckNClusters nDocs nClusters
      = if nClusters = 0 then nDocs.sqrt else max 1 (min nDocs nClusters) := by
  unfold boundaryCheckNClusters
  split
  · rw [min_eq_left nDocs.sqrt_le_self]
    exact max_eq_right (Nat.sqrt_pos.mpr h)
  · rw [min_comm]

/-- What pruning keeps of a list with postings is not empty. -/
theorem PrunedTo.ne_nil {F : Type} [LinearOrder F] [Zero F] [Add F] [Sub F] [Mul F]
    [FloatFormat F] {elementSize lambda : ℕ} {l : InvertedList Code} {kept : List ℤ}
    (h : PrunedTo F elementSize lambda l kept) (hne : l.docIds ≠ []) : kept ≠ [] := by
  rintro rfl
  have hpos := List.length_pos_iff.mpr hne
  have hlength := h.length
  rw [List.length_nil, keptCount] at hlength
  split at hlength <;> omega

/-- **One posting list.**  Pruning keeps the documents of the largest values, as many as
`lambda` allows, and training partitions these into clusters around centroids of their own, as
many as `beta` asks for. -/
theorem clusters_of_list (F : Type) [LinearOrder F] [Zero F] [Add F] [Sub F] [Mul F]
    [FloatFormat F] (rng : Rng) (sort : StdSort) (vectors : SparseVectors Code)
    (l : InvertedList Code) (lambda beta seed : ℕ) (hpaired : l.codes.length = l.docIds.length)
    (hne : l.docIds ≠ []) (hnodup : l.docIds.Nodup) :
    ∃ kept centroids,
      kept = pruneAndKeepDocIds F sort vectors.elementSize l lambda ∧
      PrunedTo F vectors.elementSize lambda l kept ∧
      Clustering kept centroids (train F rng sort vectors kept beta seed) ∧
      (train F rng sort vectors kept beta seed).length
        = if beta = 0 then kept.length.sqrt else max 1 (min kept.length beta) := by
  have hpruned := pruneAndKeepDocIds_spec F sort vectors.elementSize lambda hpaired hnodup
  have hkept := hpruned.ne_nil hne
  obtain ⟨dropped, hsplit⟩ := hpruned.split
  have hclustering := train_clustering F rng sort vectors hkept
    (List.nodup_append.mp (hsplit.nodup_iff.mpr hnodup)).1 beta seed
  have hlength := length_train F rng sort vectors hkept beta seed
  rw [boundaryCheckNClusters_eq (List.length_pos_iff.mpr hkept)] at hlength
  exact ⟨_, _, rfl, hpruned, hclustering, hlength⟩

/-- Five documents that have the term 0, three of them the term 1 too. -/
def fiveRows : SparseVectors Code :=
  ⟨U8, 2, [0, 2, 3, 5, 6, 8], [0, 1, 0, 0, 1, 0, 0, 1],
    [[9], [1], [2], [7], [3], [4], [5], [6]]⟩

/-- The list of the term 0. -/
def fivePostings : InvertedList Code := ⟨[0, 1, 2, 3, 4], [[9], [2], [7], [4], [5]]⟩

/-- A list of five documents, of which four are kept, in two clusters. -/
theorem clusters_of_list_five :
    ∃ kept centroids,
      kept = pruneAndKeepDocIds ℤ insertionSort U8 fivePostings 4 ∧
      PrunedTo ℤ U8 4 fivePostings kept ∧
      Clustering kept centroids (train ℤ countingRng insertionSort fiveRows kept 2 0) ∧
      (train ℤ countingRng insertionSort fiveRows kept 2 0).length
        = if 2 = 0 then kept.length.sqrt else max 1 (min kept.length 2) :=
  clusters_of_list ℤ countingRng insertionSort fiveRows fivePostings 4 2 0 rfl
    (List.cons_ne_nil _ _) (by decide)

end Nsparse
