/-
Nsparse/StorableLists.lean

What a build makes of a posting list can be stored.

Every cluster of a built list has a document, and every document of a list has a
term, so that the first summary is not empty: a list with clusters has summary terms,
which is what lets a reader take an absent offset array for the empty list's.
-/
import Mathlib.Data.List.Destutter
import Nsparse.ClusterStore
import Nsparse.ClusteredLists
import Nsparse.KmeansPartition

namespace Nsparse

open Wire

/-! ### One summary -/

section Summary

variable {F : Type} [Add F] (vt : ValueType F) {vectors : SparseVectors Code} {P : ℕ → Prop}

/-- Pooling an entry adds its term to the terms met, or changes none of them. -/
theorem touched_poolEntry (curEpoch : ℕ) (s : MaxPool F vt) (entry : ℕ × Code) :
    (poolEntry vt curEpoch s entry).touched = s.touched ∨
      (poolEntry vt curEpoch s entry).touched = s.touched ++ [entry.1] := by
  unfold poolEntry
  dsimp only
  split
  · exact Or.inr rfl
  · split
    · exact Or.inl rfl
    · exact Or.inl rfl

/-- A term of an earlier cluster is met anew. -/
theorem touched_poolEntry_ne_nil {curEpoch : ℕ} {s : MaxPool F vt} {entry : ℕ × Code}
    (h : s.epoch.getD entry.1 0 ≠ curEpoch) : (poolEntry vt curEpoch s entry).touched ≠ [] := by
  unfold poolEntry
  dsimp only
  rw [if_pos h]
  simp

theorem forall_touched_foldl (curEpoch : ℕ) {row : SparseRow Code} {s : MaxPool F vt}
    (hs : ∀ t ∈ s.touched, P t) (hrow : ∀ entry ∈ row, P entry.1) :
    ∀ t ∈ (row.foldl (poolEntry vt curEpoch) s).touched, P t := by
  induction row generalizing s with
  | nil => exact hs
  | cons entry row ih =>
      obtain ⟨hentry, hrest⟩ := List.forall_mem_cons.mp hrow
      refine ih ?_ hrest
      rcases touched_poolEntry vt curEpoch s entry with h | h
      · rw [h]
        exact hs
      · rw [h]
        simpa [or_imp, forall_and] using And.intro hs hentry

theorem touched_foldl_ne_nil (curEpoch : ℕ) {row : SparseRow Code} {s : MaxPool F vt}
    (hs : s.touched ≠ []) : (row.foldl (poolEntry vt curEpoch) s).touched ≠ [] := by
  induction row generalizing s with
  | nil => exact hs
  | cons entry row ih =>
      refine ih ?_
      rcases touched_poolEntry vt curEpoch s entry with h | h
      · rw [h]
        exact hs
      · rw [h]
        simp

/-- The terms met in a cluster are terms of its documents. -/
theorem forall_touched_poolCluster (curEpoch : ℕ) {docIds : List ℤ} {s : MaxPool F vt}
    (hs : ∀ t ∈ s.touched, P t)
    (hdocs : ∀ d ∈ docIds, ∀ entry ∈ docRow vectors d, P entry.1) :
    ∀ t ∈ (poolCluster vt vectors curEpoch s docIds).touched, P t := by
  induction docIds generalizing s with
  | nil => exact hs
  | cons d docIds ih =>
      obtain ⟨hd, hrest⟩ := List.forall_mem_cons.mp hdocs
      exact ih (forall_touched_foldl vt curEpoch hs hd) hrest

/-- A document with a term leaves a term, unless the epochs say it was met already. -/
theorem touched_poolCluster_ne_nil {curEpoch : ℕ} {docIds : List ℤ} {s : MaxPool F vt}
    (hne : docIds ≠ []) (hrows : ∀ d ∈ docIds, docRow vectors d ≠ [])
    (hepoch : ∀ term, s.epoch.getD term 0 ≠ curEpoch) :
    (poolCluster vt vectors curEpoch s docIds).touched ≠ [] := by
  obtain ⟨d, docIds, rfl⟩ := List.exists_cons_of_ne_nil hne
  obtain ⟨entry, row, hrow⟩ := List.exists_cons_of_ne_nil (hrows d (List.mem_cons_self ..))
  have hfirst : ((docRow vectors d).foldl (poolEntry vt curEpoch) s).touched ≠ [] := by
    have hmet := touched_poolEntry_ne_nil vt (hepoch entry.1)
    rw [hrow, List.foldl_cons]
    exact touched_foldl_ne_nil vt curEpoch hmet
  have key : ∀ (docIds : List ℤ) (s : MaxPool F vt), s.touched ≠ [] →
      (poolCluster vt vectors curEpoch s docIds).touched ≠ [] := by
    intro docIds
    induction docIds with
    | nil => exact fun s hs => hs
    | cons d docIds ih => exact fun s hs => ih _ (touched_foldl_ne_nil vt curEpoch hs)
  exact key docIds _ hfirst

variable [FloatFormat F]

theorem cutAtMass_isPrefix (sum alpha addup : F) (pairs : List (ℕ × vt.T)) :
    cutAtMass vt sum alpha addup pairs <+: pairs := by
  induction pairs generalizing addup with
  | nil => exact List.prefix_rfl
  | cons pair pairs ih =>
      rw [cutAtMass]
      split
      · exact ⟨pairs, rfl⟩
      · exact (List.prefix_cons_inj pair).mpr (ih _)

theorem cutAtMass_ne_nil (sum alpha addup : F) {pairs : List (ℕ × vt.T)} (h : pairs ≠ []) :
    cutAtMass vt sum alpha addup pairs ≠ [] := by
  obtain ⟨pair, pairs, rfl⟩ := List.exists_cons_of_ne_nil h
  rw [cutAtMass]
  split
  · exact List.cons_ne_nil _ _
  · exact List.cons_ne_nil _ _

end Summary

/-! ### The summaries of a list -/

/-- Summaries with terms in `P` and codes of `elementSize` bytes. -/
structure Summaries (P : ℕ → Prop) (out : SparseVectors Code) : Prop where
  wellFormed : out.WellFormed
  terms : ∀ t ∈ out.indices, P t
  codes : ∀ code ∈ out.values, code.length = out.elementSize

section Summaries

variable {F : Type} [Zero F] [Add F] [FloatFormat F] (vt : ValueType F) (sort : StdSort)
  {vectors : SparseVectors Code} {P : ℕ → Prop} {out : SparseVectors Code}

/-- Emitting a cluster appends one row. -/
theorem summarizeEmitCluster_spec (hout : Summaries P out)
    (hencode : ∀ v, (vt.encode v).length = out.elementSize) {pairs : List (ℕ × vt.T)}
    (hpairs : ∀ pair ∈ pairs, P pair.1) (sum alpha : F) :
    Summaries P (summarizeEmitCluster vt sort pairs sum alpha out) ∧
      (summarizeEmitCluster vt sort pairs sum alpha out).elementSize = out.elementSize ∧
      ∃ row, (summarizeEmitCluster vt sort pairs sum alpha out).rows = out.rows ++ [row] ∧
        (pairs ≠ [] → row ≠ []) := by
  unfold summarizeEmitCluster
  dsimp only
  set byValue := sort.sort (fun a b => vt.gt a.2 b.2) pairs with hbyValue
  set cut := cutAtMass vt sum alpha 0 byValue with hcut
  set kept := sort.sort (fun a b => decide (a.1 < b.1)) cut with hkept
  have hmem : ∀ pair ∈ kept, pair ∈ pairs := fun pair h =>
    (sort.perm _ pairs).subset
      ((cutAtMass_isPrefix vt sum alpha 0 byValue).subset ((sort.perm _ cut).subset h))
  have hlen : (kept.map Prod.fst).length = (kept.map fun pair => vt.encode pair.2).length := by
    rw [List.length_map, List.length_map]
  obtain ⟨hwf, hrows⟩ := SparseVectors.addVector_spec hout.wellFormed hlen
  refine ⟨⟨hwf, fun t ht => ?_, fun code hcode => ?_⟩, rfl, _, hrows, fun hne hnil => ?_⟩
  · rcases List.mem_append.mp ht with ht | ht
    · exact hout.terms t ht
    · obtain ⟨pair, hpair, rfl⟩ := List.mem_map.mp ht
      exact hpairs pair (hmem pair hpair)
  · rcases List.mem_append.mp hcode with hcode | hcode
    · exact hout.codes code hcode
    · obtain ⟨pair, -, rfl⟩ := List.mem_map.mp hcode
      exact hencode pair.2
  · -- sorting keeps the pairs, and the cut keeps the first of them
    have hbyValue_ne : byValue ≠ [] := fun h => hne (by
      have := sort.perm (fun a b => vt.gt a.2 b.2) pairs
      rw [← hbyValue, h] at this
      exact this.symm.eq_nil)
    apply cutAtMass_ne_nil vt sum alpha 0 hbyValue_ne
    have hkept_nil : kept = [] := by
      have := congrArg List.length hnil
      rw [List.length_zip, ← hlen, min_self, List.length_map] at this
      exact List.eq_nil_of_length_eq_zero this
    have := sort.perm (fun a b => decide (a.1 < b.1)) cut
    rw [← hkept, hkept_nil] at this
    exact this.symm.eq_nil

/-- Every cluster appends one row. -/
theorem summarizeClusters_spec (alpha : F) {clusters : List (List ℤ)}
    (hterms : ∀ cluster ∈ clusters, ∀ d ∈ cluster, ∀ entry ∈ docRow vectors d, P entry.1)
    (i : ℕ) (acc : List vt.T) (epoch : List ℕ) (hout : Summaries P out)
    (hencode : ∀ v, (vt.encode v).length = out.elementSize) :
    Summaries P (summarizeClusters vt sort vectors alpha i clusters acc epoch out) ∧
      (summarizeClusters vt sort vectors alpha i clusters acc epoch out).elementSize
        = out.elementSize ∧
      ∃ rows, (summarizeClusters vt sort vectors alpha i clusters acc epoch out).rows
          = out.rows ++ rows ∧ rows.length = clusters.length ∧
        ((∀ term, epoch.getD term 0 ≠ (i + 1) % 2 ^ 32) →
          (∀ cluster ∈ clusters, cluster ≠ [] ∧ ∀ d ∈ cluster, docRow vectors d ≠ []) →
          clusters ≠ [] → rows.flatten ≠ []) := by
  induction clusters generalizing i acc epoch out with
  | nil => exact ⟨hout, rfl, [], by simp [summarizeClusters], rfl, fun _ _ h => absurd rfl h⟩
  | cons docIds clusters ih =>
      obtain ⟨hfirst, hrest⟩ := List.forall_mem_cons.mp hterms
      rw [summarizeClusters]
      set s := poolCluster vt vectors ((i + 1) % 2 ^ 32) ⟨acc, epoch, [], 0⟩ docIds with hs
      have hpairs : ∀ pair ∈ s.touched.map fun term => (term, s.acc.getD term vt.zero),
          P pair.1 := by
        intro pair hpair
        obtain ⟨term, hterm, rfl⟩ := List.mem_map.mp hpair
        exact forall_touched_poolCluster vt ((i + 1) % 2 ^ 32) (by simp) hfirst term hterm
      obtain ⟨hout', hes, row, hrow, hrow_ne⟩ :=
        summarizeEmitCluster_spec vt sort hout hencode hpairs s.sum alpha
      obtain ⟨hall, hes', rows, hrows, hlen, -⟩ :=
        ih hrest (i + 1) s.acc s.epoch hout' (fun v => (hencode v).trans hes.symm)
      refine ⟨hall, hes'.trans hes, row :: rows, ?_, by simp [hlen], fun hepoch hdocs _ hnil => ?_⟩
      · rw [hrows, hrow, List.append_assoc]
        rfl
      · obtain ⟨⟨hne, hdocs⟩, -⟩ := List.forall_mem_cons.mp hdocs
        have htouched := touched_poolCluster_ne_nil vt (s := ⟨acc, epoch, [], 0⟩) hne hdocs hepoch
        rw [List.flatten_cons, List.append_eq_nil_iff] at hnil
        refine hrow_ne ?_ hnil.1
        rw [ne_eq, List.map_eq_nil_iff]
        exact htouched

end Summaries

/-! ### The transpose -/

theorem fits_toIdx (i : ℤ) : idxCodec.Fits (toIdx i) := by
  have hlo : -2 ^ 31 ≤ toIdx i := BitVec.le_toInt _
  have hhi := toIdx_lt i
  refine Codec.fits_int ?_ ?_
  · norm_num at hlo ⊢
    omega
  · norm_num at hhi ⊢
    omega

theorem fits_term {t : ℕ} (h : t < 2 ^ 16) : termCodec.Fits t :=
  Codec.fits_nat (h.trans_eq (by norm_num))

namespace InvertedListClusters

@[simp] theorem nClusters_buildTranspose (sort : StdSort) (l : InvertedListClusters)
    (summaries : SparseVectors Code) :
    (l.buildTranspose sort summaries).nClusters = summaries.numVectors := by
  unfold buildTranspose
  dsimp only
  split
  · rfl
  · rfl

/-- **The transpose of storable summaries** can be stored. -/
theorem buildTranspose_storable (sort : StdSort) {l : InvertedListClusters}
    (hdocs : ∀ d ∈ l.docs, idxCodec.Fits d) (hoffsets : ∀ i ∈ l.offsets, idxCodec.Fits i)
    {summaries : SparseVectors Code} (h : Summaries (· < 2 ^ 16) summaries)
    (hwidth : summaries.elementSize = U32 ∨ summaries.elementSize = U16 ∨
      summaries.elementSize = U8)
    (hne : summaries.numVectors ≠ 0 → summaries.indices ≠ []) :
    (l.buildTranspose sort summaries).Storable := by
  unfold buildTranspose
  dsimp only
  split
  · exact ⟨hdocs, hoffsets, by simp, by simp, rfl, by simp, hwidth, by simp⟩
  · rename_i hpos
    have hnnz : summaries.indptr.getD summaries.numVectors 0 = summaries.indices.length :=
      h.wellFormed.getD_numVectors
    rw [hnnz, List.take_length]
    set termIds := (sort.sort (fun a b => a < b) summaries.indices).destutter (· ≠ ·) with hids
    have hsort := sort.perm (fun a b : ℕ => a < b) summaries.indices
    have hplaced : ∀ slot ∈ CountingSort.place
        (CountingSort.offsets termIds.length (summaries.indices.map (termColumn termIds))).dropLast
        (List.replicate summaries.indices.length (0, List.replicate summaries.elementSize 0))
        ((List.range summaries.numVectors).flatMap fun cluster =>
          (summaries.row cluster).map fun entry =>
            (termColumn termIds entry.1, cluster % 2 ^ 16, entry.2)),
        slot.1 < 2 ^ 16 ∧ slot.2.length = summaries.elementSize := by
      refine CountingSort.forall_mem_place (fun slot hslot => ?_) fun item hitem => ?_
      · obtain rfl := List.eq_of_mem_replicate hslot
        exact ⟨Nat.two_pow_pos 16, List.length_replicate⟩
      · obtain ⟨cluster, -, hitem⟩ := List.mem_flatMap.mp hitem
        obtain ⟨entry, hentry, rfl⟩ := List.mem_map.mp hitem
        refine ⟨Nat.mod_lt _ (by decide), h.codes _ ?_⟩
        have hstored : entry ∈ summaries.entries :=
          List.mem_of_mem_drop (List.mem_of_mem_take hentry)
        exact (List.of_mem_zip hstored).2
    refine ⟨hdocs, hoffsets, fun t ht => ?_, fun i hi => ?_, ?_, fun c hc => ?_, hwidth, ?_⟩
    · exact fits_term (h.terms t
        (hsort.subset ((List.destutter_sublist _ _).subset ht)))
    · obtain ⟨n, -, rfl⟩ := List.mem_map.mp hi
      exact fits_toIdx n
    · have hids_ne : termIds ≠ [] := by
        rw [hids, ne_eq, List.destutter_eq_nil]
        intro hnil
        rw [hnil] at hsort
        exact hne hpos hsort.symm.eq_nil
      rw [if_neg hids_ne, List.length_map, CountingSort.length_offsets]
    · obtain ⟨slot, hslot, rfl⟩ := List.mem_map.mp hc
      exact fits_term (hplaced slot hslot).1
    · rw [List.length_map, List.length_flatMap,
        List.map_congr_left fun slot hslot => (hplaced slot hslot).2]
      simp

end InvertedListClusters

/-! ### The clusters of a built list -/

namespace InvertedListClusters

theorem ofDocs_of_ne_nil {docs : List (List ℤ)} (h : docs ≠ []) :
    ofDocs docs = { empty with
      docs := docs.flatten
      offsets := (Csr.offsets docs).map fun n : ℕ => toIdx n } := if_neg h

theorem docs_ofDocs (docs : List (List ℤ)) : (ofDocs docs).docs = docs.flatten := by
  by_cases h : docs = []
  · rw [h]
    rfl
  · rw [ofDocs_of_ne_nil h]

theorem length_offsets_ofDocs {docs : List (List ℤ)} (h : docs ≠ []) :
    (ofDocs docs).offsets.length = docs.length + 1 := by
  rw [ofDocs_of_ne_nil h, List.length_map, Csr.length_offsets]

/-- The members of every cluster come back while their number fits the offsets. -/
theorem getDocs_ofDocs {docs : List (List ℤ)} (h : docs.flatten.length < 2 ^ 31) {i : ℕ}
    (hi : i < docs.length) : (ofDocs docs).getDocs i = docs[i] := by
  have hne : docs ≠ [] := fun hnil => by simp [hnil] at hi
  have hoffset : ∀ j ≤ docs.length,
      (ofDocs docs).offsets.getD j 0 = ((Csr.offsets docs).getD j 0 : ℕ) := by
    intro j hj
    have hle : (Csr.offsets docs).getD j 0 ≤ docs.flatten.length := by
      rw [Csr.getD_offsets docs hj]
      exact ((List.take_sublist j docs).flatten).length_le
    have hlen : j < (Csr.offsets docs).length := by
      rw [Csr.length_offsets]
      omega
    rw [ofDocs_of_ne_nil hne, List.getD_eq_getElem?_getD, List.getElem?_map,
      List.getElem?_eq_getElem hlen, ← List.getD_eq_getElem _ 0 hlen]
    exact toIdx_eq_self_iff.mpr (hle.trans_lt h)
  have hrow := Csr.rows_offsets docs
  have hget : (Csr.rows (Csr.offsets docs) docs.flatten)[i]?
      = some (Csr.row (Csr.offsets docs) docs.flatten i) :=
    Csr.getElem?_rows (by rw [Csr.length_offsets]; omega)
  rw [hrow, List.getElem?_eq_getElem hi, Option.some_inj] at hget
  rw [hget, getDocs, if_neg (by rw [length_offsets_ofDocs hne]; omega)]
  dsimp only
  rw [hoffset i hi.le, hoffset (i + 1) hi, docs_ofDocs, Int.toNat_natCast, Csr.row]
  congr 1
  omega

theorem map_getDocs_ofDocs {docs : List (List ℤ)} (h : docs.flatten.length < 2 ^ 31) :
    (List.range docs.length).map (ofDocs docs).getDocs = docs :=
  List.ext_getElem (by simp) fun i hi hi' => by
    rw [List.getElem_map, List.getElem_range, getDocs_ofDocs h]

end InvertedListClusters

section Built

variable {F : Type} [Zero F] [Add F] [Sub F] [Mul F] [LT F] [DecidableLT F] [FloatFormat F]
  (rng : Rng) (sort : StdSort) {vectors : SparseVectors Code}

/-- What a posting list holds: rows of the store that have a term. -/
def Posted (vectors : SparseVectors Code) (d : ℤ) : Prop :=
  ∃ i : ℕ, d = i ∧ i < vectors.numVectors ∧ vectors.row i ≠ []

theorem Posted.docRow_ne_nil {d : ℤ} (h : Posted vectors d) : docRow vectors d ≠ [] := by
  obtain ⟨i, rfl, -, hne⟩ := h
  exact hne

theorem posted_of_mem_postingList (hsize : vectors.numVectors < 2 ^ 31) {term : ℕ} {d : ℤ}
    (h : d ∈ (postingList vectors.rows term).docIds) : Posted vectors d := by
  obtain ⟨p, hp, rfl⟩ := List.mem_map.mp h
  obtain ⟨⟨i, code⟩, hmem, rfl⟩ := List.mem_map.mp hp
  obtain ⟨row, hrow, hterm⟩ := mem_postingsOf_iff.mp hmem
  have hi : i < vectors.numVectors := by
    rw [← vectors.length_rows]
    exact (List.getElem?_eq_some_iff.mp hrow).1
  rw [vectors.rows_eq_map_row, List.getElem?_map, List.getElem?_range hi] at hrow
  obtain rfl := Option.some_inj.mp hrow
  exact ⟨i, toIdx_eq_self_iff.mpr (hi.trans hsize), hi, List.ne_nil_of_mem hterm⟩

/-- Pruning takes no document more often than the list has it. -/
theorem pruneAndKeepDocIds_subperm (F : Type) [Zero F] [Add F] [Sub F] [Mul F] [LT F]
    [DecidableLT F] [FloatFormat F] (sort : StdSort) (elementSize : ℕ) {l : InvertedList Code}
    (h : l.docIds.length ≤ l.codes.length) (lambda : ℕ) :
    (pruneAndKeepDocIds F sort elementSize l lambda).Subperm l.docIds := by
  unfold pruneAndKeepDocIds
  split
  · exact List.Subperm.refl _
  · dsimp only
    refine (((List.take_sublist _ _).map Prod.snd).subperm.trans
      ((sort.perm _ _).map Prod.snd).subperm).trans ?_
    rw [List.map_snd_zip (by rwa [List.length_map])]

/-- The clusters a built list starts from. -/
def clustersOf (rng : Rng) (sort : StdSort) (vectors : SparseVectors Code)
    (params : ResolvedParameters F) (term : ℕ) : List (List ℤ) :=
  train F rng sort vectors
    (pruneAndKeepDocIds F sort vectors.elementSize (postingList vectors.rows term)
      (toSize params.lambda))
    (toSize params.beta) (toUint32 (params.baseSeed + term))

theorem clusteredList_eq (params : ResolvedParameters F) (term : ℕ) :
    clusteredList rng sort vectors params term
      = .summarize sort vectors params.alpha
          (.ofDocs (clustersOf rng sort vectors params term)) := rfl

/-- The clusters of a list are not empty, hold rows with terms, and together no more documents
than there are postings. -/
theorem clustersOf_spec (hsize : vectors.numVectors < 2 ^ 31) (params : ResolvedParameters F)
    (term : ℕ) :
    (∀ cluster ∈ clustersOf rng sort vectors params term,
        cluster ≠ [] ∧ ∀ d ∈ cluster, Posted vectors d) ∧
      (clustersOf rng sort vectors params term).flatten.length
        ≤ (postingsOf vectors.rows term).length := by
  obtain ⟨hsub, hne⟩ := train_subperm F rng sort vectors
    (pruneAndKeepDocIds F sort vectors.elementSize (postingList vectors.rows term)
      (toSize params.lambda))
    (toSize params.beta) (toUint32 (params.baseSeed + term))
  have hlen : (postingList vectors.rows term).docIds.length
      = (postingsOf vectors.rows term).length := by
    simp [postingList, InvertedList.ofPostings]
  have hall := hsub.trans (pruneAndKeepDocIds_subperm F sort vectors.elementSize
    (l := postingList vectors.rows term) (by simp [postingList, InvertedList.ofPostings])
    (toSize params.lambda))
  refine ⟨fun cluster hcluster => ⟨hne cluster hcluster, fun d hd => ?_⟩, ?_⟩
  · exact posted_of_mem_postingList hsize
      (hall.subset (List.mem_flatten.mpr ⟨cluster, hcluster, hd⟩))
  · exact hall.length_le.trans_eq hlen

theorem summaries_nil (P : ℕ → Prop) (elementSize dimension : ℕ) :
    Summaries P ⟨elementSize, dimension, [], [], []⟩ :=
  ⟨⟨rfl, fun _ => rfl, fun h => absurd rfl h⟩, by simp, by simp⟩

theorem summarizeWithCpu_spec {P : ℕ → Prop} (alpha : F)
    (hwidth : vectors.elementSize = U32 ∨ vectors.elementSize = U16 ∨ vectors.elementSize = U8)
    {clusters : List (List ℤ)} (hne : clusters ≠ [])
    (hclusters : ∀ cluster ∈ clusters, cluster ≠ [] ∧ ∀ d ∈ cluster, docRow vectors d ≠ [])
    (hterms : ∀ cluster ∈ clusters, ∀ d ∈ cluster, ∀ entry ∈ docRow vectors d, P entry.1) :
    Summaries P (summarizeWithCpu (ValueType.ofWidth F vectors.elementSize) sort vectors clusters
        alpha) ∧
      (summarizeWithCpu (ValueType.ofWidth F vectors.elementSize) sort vectors clusters
        alpha).elementSize = vectors.elementSize ∧
      (summarizeWithCpu (ValueType.ofWidth F vectors.elementSize) sort vectors clusters
        alpha).numVectors = clusters.length ∧
      (summarizeWithCpu (ValueType.ofWidth F vectors.elementSize) sort vectors clusters
        alpha).indices ≠ [] := by
  obtain ⟨hout, hes, rows, hrows, hlen, hflat⟩ :=
    @summarizeClusters_spec F _ _ _ (ValueType.ofWidth F vectors.elementSize) sort vectors P _ alpha
      clusters hterms 0 (List.replicate vectors.dimension _) (List.replicate vectors.dimension 0)
      (summaries_nil P vectors.elementSize vectors.dimension)
      (ValueType.length_encode F hwidth)
  have hepoch : ∀ term, (List.replicate vectors.dimension 0).getD term 0 ≠ (0 + 1) % 2 ^ 32 := by
    intro term
    rw [List.getD_eq_getElem?_getD, List.getElem?_replicate]
    split
    · decide
    · decide
  have hnil : (⟨vectors.elementSize, vectors.dimension, [], [], []⟩ : SparseVectors Code).rows
      = [] := rfl
  rw [hnil, List.nil_append] at hrows
  refine ⟨hout, hes, ?_, fun hindices => ?_⟩
  · rw [← SparseVectors.length_rows]
    exact (congrArg List.length hrows).trans hlen
  · refine hflat hepoch hclusters hne ?_
    rw [← hrows, hout.wellFormed.flatten_rows, SparseVectors.entries]
    exact List.zip_eq_nil_iff.mpr (Or.inl hindices)

/-- **A built list can be stored.** -/
theorem clusteredList_storable (hsize : vectors.numVectors < 2 ^ 31)
    (hterms : TermsBelow (2 ^ 16) vectors.rows)
    (hwidth : vectors.elementSize = U32 ∨ vectors.elementSize = U16 ∨ vectors.elementSize = U8)
    (params : ResolvedParameters F) {term : ℕ}
    (hpostings : (postingsOf vectors.rows term).length < 2 ^ 31) :
    (clusteredList rng sort vectors params term).Storable ∧
      (clusteredList rng sort vectors params term).nClusters < 2 ^ 31 := by
  obtain ⟨hclusters, hlen⟩ := clustersOf_spec rng sort hsize params term
  rw [clusteredList_eq]
  generalize clustersOf rng sort vectors params term = clusters at hclusters hlen ⊢
  have hflat := hlen.trans_lt hpostings
  have hdocs : ∀ d ∈ (InvertedListClusters.ofDocs clusters).docs, idxCodec.Fits d := by
    rw [InvertedListClusters.docs_ofDocs]
    intro d hd
    obtain ⟨cluster, hcluster, hmem⟩ := List.mem_flatten.mp hd
    obtain ⟨i, rfl, hi, -⟩ := (hclusters cluster hcluster).2 d hmem
    rw [← toIdx_eq_self_iff.mpr (hi.trans hsize)]
    exact fits_toIdx _
  have hoffsets : ∀ i ∈ (InvertedListClusters.ofDocs clusters).offsets, idxCodec.Fits i := by
    intro i hi
    by_cases hnil : clusters = []
    · rw [hnil] at hi
      exact absurd hi List.not_mem_nil
    · rw [InvertedListClusters.ofDocs_of_ne_nil hnil] at hi
      obtain ⟨n, -, rfl⟩ := List.mem_map.mp hi
      exact fits_toIdx _
  by_cases hnil : clusters = []
  · rw [hnil] at hdocs hoffsets ⊢
    refine ⟨?_, Nat.two_pow_pos 31⟩
    exact InvertedListClusters.buildTranspose_storable sort hdocs hoffsets
      (summaries_nil _ _ _) hwidth (fun h => absurd rfl h)
  · have hlength := InvertedListClusters.length_offsets_ofDocs hnil
    have hpos : 0 < clusters.length := List.length_pos_iff.mpr hnil
    rw [InvertedListClusters.summarize, if_neg (by omega), hlength, Nat.add_sub_cancel,
      InvertedListClusters.map_getDocs_ofDocs hflat]
    obtain ⟨hout, hes, hnum, hindices⟩ := @summarizeWithCpu_spec F _ _ _ _ _ _ _ sort vectors
      (· < 2 ^ 16) params.alpha hwidth clusters hnil
      (fun cluster hcluster => ⟨(hclusters cluster hcluster).1, fun d hd =>
        ((hclusters cluster hcluster).2 d hd).docRow_ne_nil⟩)
      (fun cluster hcluster d hd entry hentry => by
        obtain ⟨i, rfl, hi, -⟩ := (hclusters cluster hcluster).2 d hd
        refine hterms (vectors.row i) ?_ entry hentry
        rw [vectors.rows_eq_map_row]
        exact List.mem_map.mpr ⟨i, List.mem_range.mpr hi, rfl⟩)
    refine ⟨InvertedListClusters.buildTranspose_storable sort hdocs hoffsets hout (by rwa [hes])
      (fun _ => hindices), ?_⟩
    rw [InvertedListClusters.nClusters_buildTranspose, hnum]
    refine lt_of_le_of_lt ?_ hflat
    rw [List.length_flatten, ← List.length_map List.length]
    refine List.length_le_sum_of_one_le _ fun n hn => ?_
    obtain ⟨cluster, hcluster, rfl⟩ := List.mem_map.mp hn
    exact List.length_pos_iff.mpr (hclusters cluster hcluster).1

end Built

end Nsparse
