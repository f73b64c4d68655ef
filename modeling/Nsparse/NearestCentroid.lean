/-
Nsparse/NearestCentroid.lean

Sparse assignment against the dense one.

`similaritiesOf` walks a document's terms through an index of the centroids that is a
counting sort by term.  Reading a column of that index gives the centroids' entries at the
term (`accumulateTerm_eq`), so what is summed up for a cluster is the inner product of the
document with its centroid, and the first of the largest sums is the nearest centroid.
The offsets of the columns are 32-bit: all this holds exactly when the centroids have
fewer than `2 ^ 31` entries together (`mapDocsToClusters_nearest_iff`).
-/
import Nsparse.DenseQuery
import Nsparse.PrunedClusters
import Nsparse.SummarySpec
import Nsparse.WindowInversion

namespace Nsparse

/-! ### The index of the centroids -/

section Index

variable {F : Type} (vt : ValueType F)

/-- The rows of the centroids. -/
def centroidRows (vectors : SparseVectors Code) (clusters : List (List ℤ)) :
    List (SparseRow Code) := clusters.map fun cluster => docRow vectors (centroidOf cluster)

/-- The columns of the index reach beyond every term of the centroids. -/
theorem lt_nCols {terms : List ℕ} {term : ℕ} (h : term ∈ terms) :
    term < if terms.length = 0 then 0 else terms.foldl max 0 + 1 := by
  rw [if_neg (List.length_pos_of_mem h).ne']
  have key : ∀ (terms : List ℕ) (m : ℕ), m ≤ terms.foldl max m ∧
      ∀ t ∈ terms, t ≤ terms.foldl max m := by
    intro terms
    induction terms with
    | nil => exact fun m => ⟨le_rfl, fun t ht => absurd ht List.not_mem_nil⟩
    | cons t terms ih =>
        intro m
        obtain ⟨hle, hall⟩ := ih (max m t)
        exact ⟨(le_max_left m t).trans hle,
          List.forall_mem_cons.mpr ⟨(le_max_right m t).trans hle, hall⟩⟩
  exact Nat.lt_succ_of_le ((key terms 0).2 term h)

/-- The terms of the centroids, each as often as a centroid has it. -/
def centroidTerms (vectors : SparseVectors Code) (clusters : List (List ℤ)) : List ℕ :=
  (centroidRows vectors clusters).flatten.map Prod.fst

/-- The columns of the index. -/
def centroidColumns (vectors : SparseVectors Code) (clusters : List (List ℤ)) : ℕ :=
  if (centroidTerms vectors clusters).length = 0 then 0
  else (centroidTerms vectors clusters).foldl max 0 + 1

/-- No counter of the index of the centroids exceeds 32 bits. -/
def CentroidCountersFit (vectors : SparseVectors Code) (clusters : List (List ℤ)) : Prop :=
  ∀ offset ∈ CountingSort.offsets (centroidColumns vectors clusters)
    (centroidTerms vectors clusters), offset < 2 ^ 31

theorem centroidCountersFit_iff {vectors : SparseVectors Code} {clusters : List (List ℤ)} :
    CentroidCountersFit vectors clusters ↔ (centroidTerms vectors clusters).length < 2 ^ 31 :=
  CountingSort.forall_offsets_lt_iff fun _ hterm => lt_nCols hterm

/-- The centroids' entries as items of the columns. -/
def centroidPostings (vectors : SparseVectors Code) (clusters : List (List ℤ)) :
    List (ℕ × ℕ × vt.T) :=
  CountingSort.rowItems 0 ((centroidRows vectors clusters).map (decodeRow vt.decode))

theorem map_fst_centroidPostings (vectors : SparseVectors Code) (clusters : List (List ℤ)) :
    (centroidPostings vt vectors clusters).map Prod.fst = centroidTerms vectors clusters := by
  rw [centroidPostings, CountingSort.map_fst_rowItems, centroidTerms, List.map_flatten,
    List.map_flatten, List.map_map]
  refine congrArg List.flatten (List.map_congr_left fun row _ => ?_)
  rw [Function.comp_apply, decodeRow, List.map_map]
  rfl

/-- The index is a counting sort of the postings. -/
theorem buildCentroidIndex_eq (vectors : SparseVectors Code) (clusters : List (List ℤ)) :
    buildCentroidIndex vt vectors clusters
      = let offsets := CountingSort.offsets (centroidColumns vectors clusters)
          (centroidTerms vectors clusters)
        let placed := CountingSort.place offsets.dropLast
          (List.replicate (centroidTerms vectors clusters).length (0, vt.zero))
          (centroidPostings vt vectors clusters)
        ⟨offsets.map fun n : ℕ => toIdx n, placed.map Prod.fst, placed.map Prod.snd,
          centroidColumns vectors clusters⟩ := by
  have hpostings : centroidPostings vt vectors clusters
      = (centroidRows vectors clusters).zipIdx.flatMap fun r =>
          r.1.map fun entry => (entry.1, r.2, vt.decode entry.2) :=
    CountingSort.rowItems_map id vt.decode 0 (centroidRows vectors clusters)
  rw [hpostings]
  rfl

/-- The counters are stored in 32 bits. -/
theorem getD_termPtr (vectors : SparseVectors Code) (clusters : List (List ℤ)) {p : ℕ}
    (hp : p ≤ centroidColumns vectors clusters) :
    (buildCentroidIndex vt vectors clusters).termPtr.getD p 0
      = toIdx ((CountingSort.offsets (centroidColumns vectors clusters)
          (centroidTerms vectors clusters)).getD p 0 : ℕ) := by
  have hlen : p < (CountingSort.offsets (centroidColumns vectors clusters)
      (centroidTerms vectors clusters)).length := by simpa [Nat.lt_succ_iff] using hp
  show (List.map (fun n : ℕ => toIdx n) (CountingSort.offsets (centroidColumns vectors clusters)
      (centroidTerms vectors clusters))).getD p 0 = _
  rw [List.getD_eq_getElem _ _ (by rwa [List.length_map]), List.getElem_map,
    List.getD_eq_getElem _ _ hlen]

/-- Counters that fit are kept as they are. -/
theorem CentroidCountersFit.getD_termPtr {vectors : SparseVectors Code} {clusters : List (List ℤ)}
    (hfit : CentroidCountersFit vectors clusters) {p : ℕ}
    (hp : p ≤ centroidColumns vectors clusters) :
    ((buildCentroidIndex vt vectors clusters).termPtr.getD p 0).toNat
      = (CountingSort.offsets (centroidColumns vectors clusters)
          (centroidTerms vectors clusters)).getD p 0 := by
  have hlen : p < (CountingSort.offsets (centroidColumns vectors clusters)
      (centroidTerms vectors clusters)).length := by simpa [Nat.lt_succ_iff] using hp
  have hoffset := hfit _ (List.getElem_mem hlen)
  rw [← List.getD_eq_getElem _ 0 hlen] at hoffset
  rw [Nsparse.getD_termPtr vt vectors clusters hp, toIdx_eq_self_iff.mpr hoffset,
    Int.toNat_natCast]

/-- **Adding a term** goes through the centroids' entries at that term. -/
theorem accumulateTerm_eq {vectors : SparseVectors Code} {clusters : List (List ℤ)}
    (hfit : CentroidCountersFit vectors clusters)
    (similarities : List vt.Acc) (entry : ℕ × Code) :
    accumulateTerm vt (buildCentroidIndex vt vectors clusters) similarities entry
      = (CountingSort.itemsOf (centroidPostings vt vectors clusters) entry.1).foldl
          (fun similarities p => similarities.modify p.1
            fun acc => vt.mulAdd acc (vt.decode entry.2) p.2) similarities := by
  have hfst := map_fst_centroidPostings vt vectors clusters
  have hcolumns : ∀ item ∈ centroidPostings vt vectors clusters,
      item.1 < centroidColumns vectors clusters := by
    intro item hitem
    apply lt_nCols
    rw [← hfst]
    exact List.mem_map_of_mem hitem
  have hlength : (List.replicate (centroidTerms vectors clusters).length
      ((0, vt.zero) : ℕ × vt.T)).length = (centroidPostings vt vectors clusters).length := by
    rw [List.length_replicate, ← hfst, List.length_map]
  have hcols : (buildCentroidIndex vt vectors clusters).nCols = centroidColumns vectors clusters :=
    rfl
  rw [accumulateTerm, hcols]
  split
  · -- no centroid has the term
    rename_i hbeyond
    have hnone : CountingSort.itemsOf (centroidPostings vt vectors clusters) entry.1 = [] := by
      rw [CountingSort.itemsOf, List.map_eq_nil_iff, List.filter_eq_nil_iff]
      intro item hitem heq
      have hterm : item.1 = entry.1 := by simpa using heq
      exact absurd (hcolumns item hitem) (not_lt.mpr (hterm ▸ hbeyond))
    rw [hnone]
    rfl
  · rename_i hwithin
    have hterm := not_le.mp hwithin
    have hread := CountingSort.map_place_offsets hcolumns hlength hterm (0, vt.zero)
    rw [hfst] at hread
    rw [hfit.getD_termPtr vt hterm.le, hfit.getD_termPtr vt hterm, ← hread, List.foldl_map,
      buildCentroidIndex_eq]
    apply List.foldl_ext
    intro similarities p _
    show similarities.modify ((List.map Prod.fst _).getD p (Prod.fst (0, vt.zero)))
        (fun acc => vt.mulAdd acc (vt.decode entry.2)
          ((List.map Prod.snd _).getD p (Prod.snd (0, vt.zero)))) = _
    rw [List.getD_map, List.getD_map]

theorem getD_map_nil {R : Type} (decode : Code → R) (rows : List (SparseRow Code)) (c : ℕ) :
    (rows.map (decodeRow decode)).getD c [] = decodeRow decode (rows.getD c []) := by
  rw [← List.getD_map (f := decodeRow decode)]
  rfl

/-- What is summed up for a cluster over one term of a document. -/
def addTerm (row : SparseRow Code) (acc : vt.Acc) (entry : ℕ × Code) : vt.Acc :=
  (CountingSort.itemsOf row entry.1).foldl
    (fun acc code => vt.mulAdd acc (vt.decode entry.2) (vt.decode code)) acc

/-- **The similarity to a centroid** is summed up from the entries of both at the same terms. -/
theorem getElem?_similaritiesOf {vectors : SparseVectors Code} {clusters : List (List ℤ)}
    (hfit : CentroidCountersFit vectors clusters) (doc : ℤ) {c : ℕ} (hc : c < clusters.length) :
    (similaritiesOf vt vectors (buildCentroidIndex vt vectors clusters) clusters.length doc)[c]?
      = some ((docRow vectors doc).foldl
          (addTerm vt ((centroidRows vectors clusters).getD c [])) vt.accZero) := by
  have key : ∀ (row : SparseRow Code) (sums : List vt.Acc),
      (row.foldl (accumulateTerm vt (buildCentroidIndex vt vectors clusters)) sums)[c]?
        = sums[c]?.map fun acc => row.foldl
            (addTerm vt ((centroidRows vectors clusters).getD c [])) acc := by
    intro row
    induction row with
    | nil => simp
    | cons entry row ih =>
        intro sums
        have hcluster := CountingSort.itemsOf_itemsOf_rowItems 0
          ((centroidRows vectors clusters).map (decodeRow vt.decode)) entry.1 c
        rw [Nat.zero_add, getD_map_nil, itemsOf_decodeRow] at hcluster
        rw [List.foldl_cons, ih, accumulateTerm_eq vt hfit, centroidPostings,
          CountingSort.getElem?_foldl_modify fun acc w => vt.mulAdd acc (vt.decode entry.2) w,
          hcluster, Option.map_map]
        congr 1
        funext acc
        rw [Function.comp_apply, List.foldl_map, List.foldl_cons]
        rfl
  rw [similaritiesOf, key, List.getElem?_replicate, if_pos hc]
  rfl

/-! ### One cluster after the other -/

/-- **Assignment** appends to every cluster the documents sent to it, in their order. -/
theorem mapDocsToClustersTyped_eq_mapIdx (sort : StdSort) (vectors : SparseVectors Code)
    (docs : List ℤ) (clusters : List (List ℤ)) :
    mapDocsToClustersTyped vt sort vectors docs clusters
      = clusters.mapIdx fun c cluster => cluster ++ docs.filter fun doc =>
          doc ∉ clusters.map centroidOf ∧ bestCluster vt (similaritiesOf vt vectors
            (buildCentroidIndex vt vectors clusters) clusters.length doc) = c := by
  have hmem : ∀ doc, doc ∈ sort.sort (fun a b => a < b) (clusters.map centroidOf)
      ↔ doc ∈ clusters.map centroidOf := fun doc => (sort.perm _ _).mem_iff
  have key : ∀ (docs : List ℤ) (cs : List (List ℤ)), cs.length = clusters.length →
      docs.foldl (fun cs doc =>
        if doc ∈ sort.sort (fun a b => a < b) (clusters.map centroidOf) then cs
        else cs.modify (bestCluster vt (similaritiesOf vt vectors
          (buildCentroidIndex vt vectors clusters) cs.length doc)) (· ++ [doc])) cs
        = cs.mapIdx fun c cluster => cluster ++ docs.filter fun doc =>
            doc ∉ clusters.map centroidOf ∧ bestCluster vt (similaritiesOf vt vectors
              (buildCentroidIndex vt vectors clusters) clusters.length doc) = c := by
    intro docs
    induction docs with
    | nil =>
        intro cs _
        simp only [List.filter_nil, List.append_nil]
        exact List.ext_getElem (by simp) fun c _ _ => by simp
    | cons doc docs ih =>
        intro cs hlen
        rw [List.foldl_cons]
        by_cases hhead : doc ∈ clusters.map centroidOf
        · rw [if_pos ((hmem doc).mpr hhead), ih cs hlen]
          congr 1
          funext c cluster
          rw [List.filter_cons_of_neg (by simpa using fun h => absurd hhead (by simpa using h))]
        · rw [if_neg ((hmem doc).not.mpr hhead), hlen, ih _ (by rw [List.length_modify, hlen])]
          apply List.ext_getElem (by simp)
          intro c _ _
          rw [List.getElem_mapIdx, List.getElem_mapIdx, List.getElem_modify]
          by_cases hbest : bestCluster vt (similaritiesOf vt vectors
              (buildCentroidIndex vt vectors clusters) clusters.length doc) = c
          · rw [if_pos hbest, List.filter_cons_of_pos (by simpa using ⟨by simpa using hhead, hbest⟩),
              List.append_assoc]
            rfl
          · rw [if_neg hbest, List.filter_cons_of_neg (by simpa using fun _ => hbest)]
  exact key docs clusters rfl

end Index

/-! ### Exact sums -/

section Exact

variable {F : Type} [Ring F] [LinearOrder F]

/-- What an accumulator stands for when its products are summed up exactly. -/
structure ExactSums (vt : ValueType F) (total : vt.Acc → F) : Prop where
  zero : total vt.accZero = 0
  mulAdd : ∀ acc a b, total (vt.mulAdd acc a b) = total acc + vt.toFloat a * vt.toFloat b
  gt : ∀ a b, vt.accGt a b = true ↔ total b < total a

/-- In exact arithmetic the accumulators of every width do. -/
theorem exactSums_ofWidth [FloatFormat F] [IsStrictOrderedRing F] (hF : ExactFloat F) (elementSize : ℕ) :
    ∃ total, ExactSums (ValueType.ofWidth F elementSize) total := by
  have huint : ∀ width, ExactSums (ValueType.uint F width) fun n : ℕ => (n : F) := fun width =>
    { zero := Nat.cast_zero
      mulAdd := fun (acc a b : ℕ) => by
        show ((acc + a * b : ℕ) : F)
          = acc + (FloatFormat.ofInt (a : ℤ) : F) * FloatFormat.ofInt (b : ℤ)
        rw [hF.ofInt, hF.ofInt, Int.cast_natCast, Int.cast_natCast, Nat.cast_add, Nat.cast_mul]
      gt := fun (a b : ℕ) => by
        show decide (b < a) = true ↔ (b : F) < a
        rw [decide_eq_true_iff, Nat.cast_lt] }
  by_cases h32 : elementSize = U32
  · rw [ValueType.ofWidth, if_pos h32]
    exact ⟨fun x : F => x, rfl, fun _ _ _ => rfl, fun (a b : F) => decide_eq_true_iff⟩
  · by_cases h16 : elementSize = U16
    · rw [ValueType.ofWidth, if_neg h32, if_pos h16]
      exact ⟨_, huint U16⟩
    · rw [ValueType.ofWidth, if_neg h32, if_neg h16]
      exact ⟨_, huint U8⟩

variable {vt : ValueType F} {total : vt.Acc → F}

/-- **What is summed up is the inner product.** -/
theorem ExactSums.similarity (h : ExactSums vt total) (centroid row : SparseRow Code) :
    total (row.foldl (addTerm vt centroid) vt.accZero) = codeProduct vt centroid row := by
  have hsum := foldl_itemsOf_eq_rowProduct
    (fun acc a b => h.mulAdd acc (vt.decode a) (vt.decode b)) centroid row vt.accZero
  rw [h.zero, zero_add] at hsum
  exact hsum

/-! ### The nearest centroid -/

/-- **The cluster a document belongs to**: the first of those with the largest score. -/
structure IsNearest (vt : ValueType F) (vectors : SparseVectors Code) (clusters : List (List ℤ))
    (doc : ℤ) (c : ℕ) : Prop where
  lt : c < clusters.length
  best : ∀ c' < clusters.length,
    codeProduct vt ((centroidRows vectors clusters).getD c' []) (docRow vectors doc)
      ≤ codeProduct vt ((centroidRows vectors clusters).getD c []) (docRow vectors doc)
  first : ∀ c' < c,
    codeProduct vt ((centroidRows vectors clusters).getD c' []) (docRow vectors doc)
      < codeProduct vt ((centroidRows vectors clusters).getD c []) (docRow vectors doc)

/-- The scan keeps the first of the largest similarities so far. -/
theorem ExactSums.bestCluster_spec (h : ExactSums vt total) {similarities : List vt.Acc}
    (hne : similarities ≠ []) :
    (∀ c < similarities.length, total (similarities.getD c vt.accZero)
        ≤ total (similarities.getD (bestCluster vt similarities) vt.accZero)) ∧
      ∀ c < bestCluster vt similarities, total (similarities.getD c vt.accZero)
        < total (similarities.getD (bestCluster vt similarities) vt.accZero) := by
  have key : ∀ n, ∃ b, b ≤ n ∧ (List.range' 1 n).foldl
      (fun best c =>
        let similarity := similarities.getD c vt.accZero
        if vt.accGt similarity best.2 then (c, similarity) else best)
      (0, similarities.getD 0 vt.accZero) = (b, similarities.getD b vt.accZero) ∧
      (∀ c ≤ n, total (similarities.getD c vt.accZero) ≤ total (similarities.getD b vt.accZero)) ∧
      ∀ c < b, total (similarities.getD c vt.accZero) < total (similarities.getD b vt.accZero) := by
    intro n
    induction n with
    | zero =>
        refine ⟨0, le_rfl, rfl, fun c hc => ?_, fun c hc => absurd hc (Nat.not_lt_zero c)⟩
        rw [Nat.le_zero.mp hc]
    | succ n ih =>
        obtain ⟨b, hb, hfold, hbest, hfirst⟩ := ih
        rw [List.range'_1_concat, List.foldl_append, hfold, List.foldl_cons, List.foldl_nil,
          Nat.add_comm 1 n]
        dsimp only
        split
        · rename_i hgt
          have hlt := (h.gt _ _).mp hgt
          refine ⟨n + 1, le_rfl, rfl, fun c hc => ?_, fun c hc => ?_⟩
          · rcases Nat.lt_or_eq_of_le hc with hlow | rfl
            · exact (hbest c (Nat.le_of_lt_succ hlow)).trans hlt.le
            · exact le_rfl
          · exact (hbest c (Nat.le_of_lt_succ hc)).trans_lt hlt
        · rename_i hgt
          have hle := not_lt.mp ((h.gt _ _).not.mp hgt)
          refine ⟨b, hb.trans (Nat.le_succ n), rfl, fun c hc => ?_, hfirst⟩
          rcases Nat.lt_or_eq_of_le hc with hlow | rfl
          · exact hbest c (Nat.le_of_lt_succ hlow)
          · exact hle
  obtain ⟨b, hb, hfold, hbest, hfirst⟩ := key (similarities.length - 1)
  have hpos := List.length_pos_iff.mpr hne
  rw [bestCluster, hfold]
  exact ⟨fun c hc => hbest c (by omega), hfirst⟩

/-- **The chosen cluster** is that of the nearest centroid. -/
theorem ExactSums.isNearest (h : ExactSums vt total) {vectors : SparseVectors Code}
    {clusters : List (List ℤ)} (hfit : CentroidCountersFit vectors clusters) (hne : clusters ≠ [])
    (doc : ℤ) :
    IsNearest vt vectors clusters doc (bestCluster vt (similaritiesOf vt vectors
      (buildCentroidIndex vt vectors clusters) clusters.length doc)) := by
  have hlength := length_similaritiesOf vt vectors (buildCentroidIndex vt vectors clusters)
    clusters.length doc
  have hsims : similaritiesOf vt vectors (buildCentroidIndex vt vectors clusters) clusters.length doc
      ≠ [] := by
    apply List.ne_nil_of_length_pos
    rw [hlength]
    exact List.length_pos_iff.mpr hne
  have hlt := bestCluster_lt vt hsims
  obtain ⟨hbest, hfirst⟩ := h.bestCluster_spec hsims
  have hscore : ∀ c < clusters.length, total ((similaritiesOf vt vectors
      (buildCentroidIndex vt vectors clusters) clusters.length doc).getD c vt.accZero)
      = codeProduct vt ((centroidRows vectors clusters).getD c []) (docRow vectors doc) := by
    intro c hc
    rw [List.getD_eq_getElem?_getD, getElem?_similaritiesOf vt hfit doc hc,
      Option.getD_some, h.similarity]
  rw [hlength] at hlt hbest
  refine ⟨hlt, fun c hc => ?_, fun c hc => ?_⟩
  · rw [← hscore c hc, ← hscore _ hlt]
    exact hbest c hc
  · rw [← hscore c (hc.trans hlt), ← hscore _ hlt]
    exact hfirst c hc

variable (F) [FloatFormat F]

/-- What assignment owes: every document that is no centroid goes, in the order of the
documents, to the nearest centroid. -/
def SentToNearest (sort : StdSort) (vectors : SparseVectors Code) (docs : List ℤ)
    (clusters : List (List ℤ)) : Prop :=
  ∃ nearest : ℤ → ℕ,
    (clusters ≠ [] → ∀ doc ∈ docs,
      IsNearest (ValueType.ofWidth F vectors.elementSize) vectors clusters doc (nearest doc)) ∧
    mapDocsToClusters F sort vectors docs clusters
      = clusters.mapIdx fun c cluster =>
          cluster ++ docs.filter fun doc => doc ∉ clusters.map centroidOf ∧ nearest doc = c

variable {F}

/-- Without clusters or documents there is nothing to assign. -/
theorem sentToNearest_of_empty (sort : StdSort) (vectors : SparseVectors Code) {docs : List ℤ}
    {clusters : List (List ℤ)} (h : clusters = [] ∨ docs = []) (nearest : ℤ → ℕ) :
    mapDocsToClusters F sort vectors docs clusters
      = clusters.mapIdx fun c cluster =>
          cluster ++ docs.filter fun doc => doc ∉ clusters.map centroidOf ∧ nearest doc = c := by
  rw [mapDocsToClusters, if_pos h]
  rcases h with rfl | rfl
  · rfl
  · exact List.ext_getElem (by simp) fun c _ _ => by simp

/-- **Every document goes to the nearest centroid**, and no counter of the index overflows,
exactly when the centroids have fewer than `2 ^ 31` entries together. -/
theorem mapDocsToClusters_nearest_iff [IsStrictOrderedRing F] (hF : ExactFloat F) (sort : StdSort)
    (vectors : SparseVectors Code) (docs : List ℤ) (clusters : List (List ℤ)) :
    ((clusters ≠ [] → docs ≠ [] → CentroidCountersFit vectors clusters) ∧
        SentToNearest F sort vectors docs clusters) ↔
      clusters = [] ∨ docs = [] ∨ (centroidTerms vectors clusters).length < 2 ^ 31 := by
  rw [← centroidCountersFit_iff]
  constructor
  · rintro ⟨hfit, -⟩
    by_cases hclusters : clusters = []
    · exact .inl hclusters
    · by_cases hdocs : docs = []
      · exact .inr (.inl hdocs)
      · exact .inr (.inr (hfit hclusters hdocs))
  · intro h
    refine ⟨fun hclusters hdocs => (h.resolve_left hclusters).resolve_left hdocs, ?_⟩
    obtain ⟨total, hexact⟩ := exactSums_ofWidth hF vectors.elementSize
    by_cases hempty : clusters = [] ∨ docs = []
    · refine ⟨fun _ => 0, fun hclusters doc hdoc => ?_, sentToNearest_of_empty sort vectors hempty _⟩
      rcases hempty with hnil | rfl
      · exact absurd hnil hclusters
      · cases hdoc
    · obtain ⟨hclusters, hdocs⟩ := not_or.mp hempty
      have hfit := (h.resolve_left hclusters).resolve_left hdocs
      refine ⟨_, fun _ doc _ => hexact.isNearest hfit hclusters doc, ?_⟩
      rw [mapDocsToClusters, if_neg hempty, mapDocsToClustersTyped_eq_mapIdx]

set_option maxRecDepth 20000 in
/-- Two documents stand for the clusters, and each of the two others joins the nearer one. -/
theorem mapDocsToClusters_nearest_iff_two_centroids :
    mapDocsToClusters ℤ insertionSort fourDocs [0, 1, 2, 3] [[0], [1]] = [[0, 3], [1, 2]] ∧
      ((([[0], [1]] ≠ ([] : List (List ℤ)) → ([0, 1, 2, 3] : List ℤ) ≠ [] →
            CentroidCountersFit fourDocs [[0], [1]]) ∧
          SentToNearest ℤ insertionSort fourDocs [0, 1, 2, 3] [[0], [1]]) ↔
        [[0], [1]] = ([] : List (List ℤ)) ∨ ([0, 1, 2, 3] : List ℤ) = [] ∨
          (centroidTerms fourDocs [[0], [1]]).length < 2 ^ 31) :=
  ⟨by decide, mapDocsToClusters_nearest_iff exactFloat_int insertionSort fourDocs [0, 1, 2, 3]
    [[0], [1]]⟩

end Exact

/-! ### Too many entries -/

/-- Three documents: one without entries, one with `n` entries of term 0, one with one. -/
def heavyCentroid (n : ℕ) : SparseVectors Code where
  elementSize := 1
  dimension := 1
  indptr := [0, 0, n, n + 1]
  indices := List.replicate (n + 1) 0
  values := List.replicate (n + 1) [1]

theorem docRow_heavyCentroid (n : ℕ) :
    docRow (heavyCentroid n) 0 = [] ∧
      docRow (heavyCentroid n) 1 = List.replicate n (0, [1]) ∧
      docRow (heavyCentroid n) 2 = [(0, [1])] := by
  have hentries : (heavyCentroid n).entries = List.replicate (n + 1) (0, [1]) :=
    List.zip_replicate' ..
  have hrow : ∀ i, (heavyCentroid n).row i
      = Csr.row [0, 0, n, n + 1] (List.replicate (n + 1) (0, [1])) i := fun i => by
    rw [SparseVectors.row, hentries]
    rfl
  simp [docRow, hrow, Csr.row]

theorem centroidTerms_heavyCentroid (n : ℕ) :
    centroidTerms (heavyCentroid n) [[0], [1]] = List.replicate n 0 := by
  obtain ⟨h0, h1, -⟩ := docRow_heavyCentroid n
  simp [centroidTerms, centroidRows, centroidOf, h0, h1]

/-- The column of term 0 ends before it begins. -/
theorem accumulateTerm_heavyCentroid {F : Type} (vt : ValueType F) {n : ℕ} (h : 0 < n)
    (hneg : toIdx n ≤ 0) (similarities : List vt.Acc) (code : Code) :
    accumulateTerm vt (buildCentroidIndex vt (heavyCentroid n) [[0], [1]]) similarities (0, code)
      = similarities := by
  have hcolumns : 1 ≤ centroidColumns (heavyCentroid n) [[0], [1]] := by
    have hmem : 0 ∈ centroidTerms (heavyCentroid n) [[0], [1]] := by
      rw [centroidTerms_heavyCentroid]
      exact List.mem_replicate.mpr ⟨h.ne', rfl⟩
    exact lt_nCols hmem
  have hcount : (CountingSort.offsets (centroidColumns (heavyCentroid n) [[0], [1]])
      (centroidTerms (heavyCentroid n) [[0], [1]])).getD 1 0 = n := by
    rw [CountingSort.getD_offsets hcolumns, centroidTerms_heavyCentroid, List.countP_replicate]
    rfl
  have hstop : ((buildCentroidIndex vt (heavyCentroid n) [[0], [1]]).termPtr.getD 1 0).toNat
      = 0 := by
    rw [getD_termPtr vt _ _ hcolumns, hcount, Int.toNat_eq_zero]
    exact hneg
  rw [accumulateTerm]
  split
  · rfl
  · dsimp only
    rw [hstop, Nat.zero_sub]
    rfl

theorem codeProduct_replicate {F : Type} [Ring F] [LinearOrder F] (vt : ValueType F) (n : ℕ)
    (code : Code) :
    codeProduct vt (List.replicate n (0, code)) [(0, code)]
      = codeValue vt code * (n * codeValue vt code) := by
  simp [codeProduct, rowProduct, decodeRow]

/-- The document with term 0 is sent to the centroid without entries. -/
theorem not_sentToNearest_heavyCentroid {n : ℕ} (h : 0 < n) (hneg : toIdx n ≤ 0) :
    ¬ SentToNearest ℤ insertionSort (heavyCentroid n) [2] [[0], [1]] := by
  obtain ⟨h0, h1, h2⟩ := docRow_heavyCentroid n
  rintro ⟨nearest, hnearest, hresult⟩
  obtain ⟨-, hbest, -⟩ := hnearest (List.cons_ne_nil _ _) 2 (List.mem_singleton_self _)
  -- the nearest centroid is the one with the entries
  have hfar : nearest 2 ≠ 0 := by
    intro hzero
    have hle := hbest 1 (by decide)
    have hrows : centroidRows (heavyCentroid n) [[0], [1]] = [[], List.replicate n (0, [1])] := by
      rw [← h0, ← h1]
      rfl
    have hvalue : codeValue (ValueType.ofWidth ℤ (heavyCentroid n).elementSize) [1] = 1 := rfl
    rw [hzero, hrows, h2, List.getD_cons_succ, List.getD_cons_zero, List.getD_cons_zero,
      codeProduct_replicate, hvalue, one_mul, mul_one] at hle
    have hempty : codeProduct (ValueType.ofWidth ℤ (heavyCentroid n).elementSize) []
        [(0, [1])] = 0 := rfl
    rw [hempty] at hle
    exact absurd (Int.natCast_pos.mpr h) (not_lt.mpr hle)
  -- but no sum is more than the zero it starts from
  have hsums : bestCluster (ValueType.ofWidth ℤ 1) (similaritiesOf (ValueType.ofWidth ℤ 1)
      (heavyCentroid n) (buildCentroidIndex (ValueType.ofWidth ℤ 1) (heavyCentroid n) [[0], [1]])
      2 2) = 0 := by
    rw [similaritiesOf, h2, List.foldl_cons, List.foldl_nil,
      accumulateTerm_heavyCentroid _ h hneg]
    rfl
  have hnonempty : ¬ ([[0], [1]] = ([] : List (List ℤ)) ∨ [2] = ([] : List ℤ)) := by decide
  rw [mapDocsToClusters, if_neg hnonempty, mapDocsToClustersTyped_eq_mapIdx] at hresult
  have hfirst := congrArg List.head? hresult
  simp [List.mapIdx_cons, centroidOf, hfar] at hfirst
  exact hfirst hsums

/-- **A document goes to a centroid it has no term in common with** when the counters of the
index overflow. -/
theorem mapDocsToClusters_not_nearest :
    ¬ SentToNearest ℤ insertionSort (heavyCentroid (2 ^ 31)) [2] [[0], [1]] :=
  not_sentToNearest_heavyCentroid (Nat.two_pow_pos 31) (by decide)

end Nsparse
