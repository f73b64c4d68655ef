/-
Nsparse/KmeansPartition.lean

Random k-means distributes the documents of its list: no cluster is empty, and the
clusters together hold no document more often than the list does.

The draws are the first steps of a shuffle, so that the centroids and what is left of
the pool make up the list (`drawCentroids_perm`).  Every later document is appended to
one cluster unless it is a centroid (`mapDocsToClustersTyped_perm`).
-/
import Nsparse.Kmeans

namespace Nsparse

/-! ### The centroids -/

/-- Swapping the document at `r` behind the pool of the first `m` removes it from the pool. -/
theorem cons_take_swapDocs_perm {docs : List ℤ} {r m : ℕ} (hr : r < m) (hm : m ≤ docs.length) :
    (docs.getD r 0 :: (swapDocs docs r (m - 1)).take (m - 1)).Perm (docs.take m) := by
  obtain ⟨n, rfl⟩ : ∃ n, m = n + 1 := ⟨m - 1, by omega⟩
  have hn : n < docs.length := hm
  have hlast : docs.take (n + 1) = docs.take n ++ [docs.getD n 0] := by
    rw [List.take_add_one, List.getElem?_eq_getElem hn, List.getD_eq_getElem _ _ hn]
    rfl
  have hpool : (swapDocs docs r n).take n = (docs.take n).set r (docs.getD n 0) := by
    rw [swapDocs, List.take_set_of_le le_rfl, List.take_set]
  rw [Nat.add_sub_cancel, hlast, hpool]
  rcases Nat.lt_or_ge r n with hlt | hge
  · -- the last document of the pool takes the place of the one drawn
    have hrlen : r < (docs.take n).length := by
      rw [List.length_take]
      omega
    have hget : docs.getD r 0 = (docs.take n)[r] := by
      rw [List.getElem_take, List.getD_eq_getElem _ _ (hlt.trans hn)]
    calc docs.getD r 0 :: (docs.take n).set r (docs.getD n 0)
        |>.Perm (docs.getD r 0 :: docs.getD n 0 :: (docs.take n).eraseIdx r) :=
          (List.set_perm_cons_eraseIdx hrlen _).cons _
      _ |>.Perm (docs.getD n 0 :: docs.getD r 0 :: (docs.take n).eraseIdx r) := List.Perm.swap ..
      _ |>.Perm (docs.getD n 0 :: docs.take n) := by
          rw [hget]
          exact (List.getElem_cons_eraseIdx_perm hrlen).cons _
      _ |>.Perm (docs.take n ++ [docs.getD n 0]) := (List.perm_append_singleton _ _).symm
  · -- the last document itself was drawn
    obtain rfl : r = n := by omega
    rw [List.set_eq_of_length_le (by rw [List.length_take]; omega)]
    exact (List.perm_append_singleton _ _).symm

theorem length_swapDocs (docs : List ℤ) (i j : ℕ) : (swapDocs docs i j).length = docs.length := by
  rw [swapDocs, List.length_set, List.length_set]

/-- The centroids are drawn from the pool, each of them once. -/
theorem drawCentroids_perm (rng : Rng) {nDocs remaining i : ℕ} (gen : rng.State) {docs : List ℤ}
    (hlen : docs.length = nDocs) (h : remaining + i ≤ nDocs) :
    ∃ rest, ((drawCentroids rng nDocs remaining i gen docs).flatten ++ rest).Perm
      (docs.take (nDocs - i)) := by
  induction remaining generalizing i gen docs with
  | zero => exact ⟨_, List.Perm.refl _⟩
  | succ remaining ih =>
      have hr := rng.uniform_le gen (nDocs - i - 1)
      obtain ⟨rest, hrest⟩ := @ih (i + 1) (rng.uniform gen (nDocs - i - 1)).2
        (swapDocs docs (rng.uniform gen (nDocs - i - 1)).1 (nDocs - 1 - i))
        (by rw [length_swapDocs, hlen]) (by omega)
      refine ⟨rest, ?_⟩
      have hswap := @cons_take_swapDocs_perm docs (rng.uniform gen (nDocs - i - 1)).1 (nDocs - i)
        (by omega) (by omega)
      have hindex : nDocs - 1 - i = nDocs - i - 1 := by omega
      have hpool : nDocs - (i + 1) = nDocs - i - 1 := by omega
      rw [hindex, hpool] at hrest
      have hdraw : (drawCentroids rng nDocs (remaining + 1) i gen docs).flatten
          = docs.getD (rng.uniform gen (nDocs - i - 1)).1 0
            :: (drawCentroids rng nDocs remaining (i + 1) (rng.uniform gen (nDocs - i - 1)).2
              (swapDocs docs (rng.uniform gen (nDocs - i - 1)).1 (nDocs - 1 - i))).flatten := rfl
      rw [hdraw, hindex]
      exact (hrest.cons _).trans hswap

theorem mem_drawCentroids (rng : Rng) {nDocs remaining i : ℕ} {gen : rng.State} {docs : List ℤ}
    {cluster : List ℤ} (h : cluster ∈ drawCentroids rng nDocs remaining i gen docs) :
    ∃ d, cluster = [d] := by
  induction remaining generalizing i gen docs with
  | zero => cases h
  | succ remaining ih =>
      rcases List.mem_cons.mp h with rfl | h
      · exact ⟨_, rfl⟩
      · exact ih h

theorem length_drawCentroids (rng : Rng) {nDocs remaining i : ℕ} {gen : rng.State}
    {docs : List ℤ} : (drawCentroids rng nDocs remaining i gen docs).length = remaining := by
  induction remaining generalizing i gen docs with
  | zero => rfl
  | succ remaining ih => exact congrArg Nat.succ ih

theorem boundaryCheckNClusters_le {nDocs : ℕ} (h : 0 < nDocs) (nClusters : ℕ) :
    boundaryCheckNClusters nDocs nClusters ≤ nDocs ∧ boundaryCheckNClusters nDocs nClusters ≠ 0 := by
  unfold boundaryCheckNClusters
  omega

/-- The centroids drawn are different documents of the list, as many as asked for. -/
theorem randomSelectInitialCentroids_spec (rng : Rng) {docs : List ℤ} {nClusters : ℕ}
    (hle : nClusters ≤ docs.length) (hne : nClusters ≠ 0) (seed : ℕ) :
    (randomSelectInitialCentroids rng docs nClusters seed).length = nClusters ∧
      (∀ cluster ∈ randomSelectInitialCentroids rng docs nClusters seed, ∃ d, cluster = [d]) ∧
      ∃ rest, ((randomSelectInitialCentroids rng docs nClusters seed).flatten ++ rest).Perm docs := by
  rw [randomSelectInitialCentroids, if_neg (not_lt.mpr hle), if_neg hne]
  refine ⟨length_drawCentroids rng, fun cluster => mem_drawCentroids rng, ?_⟩
  obtain ⟨rest, hdraw⟩ := @drawCentroids_perm rng docs.length nClusters 0 (rng.seed seed) docs rfl hle
  rw [Nat.sub_zero, List.take_length] at hdraw
  exact ⟨rest, hdraw⟩

/-! ### The other documents -/

variable {F : Type} (vt : ValueType F)

theorem length_accumulateTerm (index : CentroidIndex vt.T) (similarities : List vt.Acc)
    (entry : ℕ × Code) :
    (accumulateTerm vt index similarities entry).length = similarities.length := by
  have key : ∀ (ps : List ℕ) (similarities : List vt.Acc),
      (ps.foldl (fun similarities p =>
        similarities.modify (index.cluster.getD p 0)
          fun acc => vt.mulAdd acc (vt.decode entry.2) (index.weight.getD p vt.zero))
        similarities).length = similarities.length := by
    intro ps
    induction ps with
    | nil => intro similarities; rfl
    | cons p ps ih => intro similarities; rw [List.foldl_cons, ih, List.length_modify]
  unfold accumulateTerm
  split
  · rfl
  · exact key _ _

theorem length_similaritiesOf (vectors : SparseVectors Code) (index : CentroidIndex vt.T)
    (nClusters : ℕ) (doc : ℤ) :
    (similaritiesOf vt vectors index nClusters doc).length = nClusters := by
  have key : ∀ (row : SparseRow Code) (similarities : List vt.Acc),
      (row.foldl (accumulateTerm vt index) similarities).length = similarities.length := by
    intro row
    induction row with
    | nil => intro similarities; rfl
    | cons entry row ih =>
        intro similarities
        rw [List.foldl_cons, ih, length_accumulateTerm]
  rw [similaritiesOf, key, List.length_replicate]

/-- The chosen cluster exists. -/
theorem bestCluster_lt {similarities : List vt.Acc} (h : similarities ≠ []) :
    bestCluster vt similarities < similarities.length := by
  have hpos : 0 < similarities.length := List.length_pos_iff.mpr h
  -- the best so far is 0 or one of the positions passed
  have key : ∀ (cs : List ℕ) (best : ℕ × vt.Acc), best.1 < similarities.length →
      (∀ c ∈ cs, c < similarities.length) →
      (cs.foldl (fun best c =>
        let similarity := similarities.getD c vt.accZero
        if vt.accGt similarity best.2 then (c, similarity) else best) best).1
        < similarities.length := by
    intro cs
    induction cs with
    | nil => exact fun best hb _ => hb
    | cons c cs ih =>
        intro best hb hcs
        obtain ⟨hc, hcs⟩ := List.forall_mem_cons.mp hcs
        rw [List.foldl_cons]
        refine ih _ ?_ hcs
        dsimp only
        split
        · exact hc
        · exact hb
  refine key _ _ hpos fun c hc => ?_
  obtain ⟨hlo, hhi⟩ := List.mem_range'_1.mp hc
  omega

/-- Appending to one of the clusters adds one document. -/
theorem flatten_modify_append_perm {clusters : List (List ℤ)} {c : ℕ} (h : c < clusters.length)
    (doc : ℤ) :
    (clusters.modify c (· ++ [doc])).flatten.Perm (doc :: clusters.flatten) := by
  induction clusters generalizing c with
  | nil => exact absurd h (Nat.not_lt_zero c)
  | cons cluster clusters ih =>
      cases c with
      | zero =>
          show ((cluster ++ [doc]) ++ clusters.flatten).Perm (doc :: (cluster ++ clusters.flatten))
          rw [List.append_assoc]
          exact List.perm_middle
      | succ c =>
          show (cluster ++ (clusters.modify c (· ++ [doc])).flatten).Perm
            (doc :: (cluster ++ clusters.flatten))
          exact ((ih (Nat.lt_of_succ_lt_succ h)).append_left cluster).trans List.perm_middle

/-- **Assignment** appends every document that is no centroid to one cluster. -/
theorem mapDocsToClustersTyped_perm (sort : StdSort) (vectors : SparseVectors Code)
    (docs : List ℤ) {clusters : List (List ℤ)} (h : clusters ≠ []) :
    (mapDocsToClustersTyped vt sort vectors docs clusters).flatten.Perm
        (docs.filter (fun doc => doc ∉ clusters.map centroidOf) ++ clusters.flatten) ∧
      ((∀ cluster ∈ clusters, cluster ≠ []) →
        ∀ cluster ∈ mapDocsToClustersTyped vt sort vectors docs clusters, cluster ≠ []) := by
  have hmem : ∀ doc, doc ∈ sort.sort (fun a b => a < b) (clusters.map centroidOf)
      ↔ doc ∈ clusters.map centroidOf := fun doc => (sort.perm _ _).mem_iff
  unfold mapDocsToClustersTyped
  dsimp only
  generalize buildCentroidIndex vt vectors clusters = index
  -- the fold's clusters change, the centroids it compares with do not
  generalize clusters.map centroidOf = centroids at hmem ⊢
  generalize sort.sort (fun a b => a < b) centroids = centroidIds at hmem ⊢
  induction docs generalizing clusters with
  | nil => exact ⟨List.Perm.refl _, id⟩
  | cons doc docs ih =>
      rw [List.foldl_cons]
      by_cases hc : doc ∈ centroids
      · rw [if_pos ((hmem doc).mpr hc), List.filter_cons_of_neg (by simpa using hc)]
        exact ih h
      · rw [if_neg ((hmem doc).not.mpr hc), List.filter_cons_of_pos (by simpa using hc)]
        have hlen := length_similaritiesOf vt vectors index clusters.length doc
        have hsims : similaritiesOf vt vectors index clusters.length doc ≠ [] := fun hnil => by
          rw [hnil] at hlen
          exact h (List.eq_nil_of_length_eq_zero hlen.symm)
        have hbest := bestCluster_lt vt hsims
        rw [hlen] at hbest
        have hmodify : clusters.modify
            (bestCluster vt (similaritiesOf vt vectors index clusters.length doc))
            (· ++ [doc]) ≠ [] := fun hnil => by
          apply h
          rw [← List.length_eq_zero_iff, ← List.length_modify, hnil]
          rfl
        obtain ⟨hperm, hne⟩ := ih hmodify
        refine ⟨hperm.trans ?_, fun hclusters => hne fun cluster hcluster => ?_⟩
        · rw [List.cons_append]
          exact ((flatten_modify_append_perm hbest doc).append_left _).trans List.perm_middle
        · obtain ⟨j, hj, rfl⟩ := List.mem_iff_getElem.mp hcluster
          rw [List.getElem_modify]
          split
          · simp
          · exact hclusters _ (List.getElem_mem _)

/-! ### Training -/

/-- Clusters of one document are their centroids. -/
theorem map_centroidOf {clusters : List (List ℤ)} (h : ∀ cluster ∈ clusters, ∃ d, cluster = [d]) :
    clusters.map centroidOf = clusters.flatten := by
  induction clusters with
  | nil => rfl
  | cons cluster clusters ih =>
      obtain ⟨⟨d, rfl⟩, hrest⟩ := List.forall_mem_cons.mp h
      rw [List.map_cons, List.flatten_cons, ih hrest]
      rfl

/-- What is in the list and no centroid is in the rest of the pool. -/
theorem filter_append_subperm {centroids rest docs : List ℤ} (h : (centroids ++ rest).Perm docs) :
    (docs.filter (fun doc => doc ∉ centroids) ++ centroids).Subperm docs := by
  have hnone : centroids.filter (fun doc => doc ∉ centroids) = [] :=
    List.filter_eq_nil_iff.mpr fun doc hdoc => by simpa using hdoc
  have hfilter := h.filter fun doc => doc ∉ centroids
  rw [List.filter_append, hnone, List.nil_append] at hfilter
  have hrest : (docs.filter (fun doc => doc ∉ centroids) ++ centroids).Subperm
      (rest ++ centroids) :=
    (hfilter.symm.append_right centroids).subperm.trans
      (List.filter_sublist.append_right centroids).subperm
  exact hrest.trans (List.perm_append_comm.trans h).subperm

variable (F) [Zero F] [Add F] [Sub F] [Mul F] [LT F] [DecidableLT F] [FloatFormat F]

/-- **Training** leaves no cluster empty and takes no document more often than the list has it. -/
theorem train_subperm (rng : Rng) (sort : StdSort) (vectors : SparseVectors Code)
    (docIds : List ℤ) (nClusters seed : ℕ) :
    (train F rng sort vectors docIds nClusters seed).flatten.Subperm docIds ∧
      ∀ cluster ∈ train F rng sort vectors docIds nClusters seed, cluster ≠ [] := by
  unfold train
  split
  · exact ⟨List.nil_subperm, fun _ h => absurd h List.not_mem_nil⟩
  · rename_i hdocs
    obtain ⟨hle, hpos⟩ :=
      boundaryCheckNClusters_le (List.length_pos_iff.mpr hdocs) nClusters
    obtain ⟨hlength, hsingle, rest, hdraw⟩ :=
      randomSelectInitialCentroids_spec rng hle hpos seed
    generalize randomSelectInitialCentroids rng docIds _ seed = clusters
      at hlength hsingle hdraw ⊢
    have hne : clusters ≠ [] :=
      List.ne_nil_of_length_pos (hlength ▸ Nat.pos_of_ne_zero hpos)
    unfold mapDocsToClusters
    rw [if_neg (not_or.mpr ⟨hne, hdocs⟩)]
    obtain ⟨hperm, hnonempty⟩ := mapDocsToClustersTyped_perm
      (ValueType.ofWidth F vectors.elementSize) sort vectors docIds hne
    refine ⟨?_, hnonempty fun cluster hcluster => ?_⟩
    · rw [map_centroidOf hsingle] at hperm
      exact hperm.subperm.trans (filter_append_subperm hdraw)
    · obtain ⟨d, rfl⟩ := hsingle cluster hcluster
      exact List.cons_ne_nil _ _

end Nsparse
