/-
Nsparse/GpuAssigner.lean

Assignment of documents to centroids on the GPU, for 8-bit codes.

The kernels scatter every centroid into a column of a dense matrix and sum the scores
of a document over its entries.  A column has one place for a term: of the codes that a
centroid has for it the last one stays, where the index of the CPU keeps them all.  A
term beyond the dimension has no place.  The sum of the GPU runs in 64 bits, which it never
exceeds; that of the CPU, which meets every code of a repeated term, is taken without
overflow.  Both scans take the first of the largest.  So the GPU does what the CPU
does exactly when every term has its place and the codes that stay order the centroids
for every document as all codes do (`assignsLikeCpu_iff`).
-/
import Nsparse.GpuCorpus
import Nsparse.NearestCentroid

namespace Nsparse

open CountingSort (itemsOf)

/-- A value of `int64_t`. -/
def toLong (i : ℤ) : ℤ := (BitVec.ofInt 64 i).toInt

theorem toLong_of_lt {i : ℤ} (h0 : 0 ≤ i) (h : i < 2 ^ 63) : toLong i = i := by
  rw [toLong, BitVec.toInt_ofInt, Int.bmod_def]
  norm_num at h ⊢
  omega

/-! ### The kernels -/

/-- The threads of a launch, in any interleaving: each does its own in order. -/
structure Interleaving (α : Type) where
  order : List (List α) → List (ℕ × α)
  ofThread : ∀ programs j, itemsOf (order programs) j = programs.getD j []
  threads : ∀ programs, ∀ s ∈ order programs, s.1 < programs.length

/-- The terms and codes of row `d`. -/
def DeviceCorpus.codesOf (corpus : DeviceCorpus) (d : ℤ) : List (ℕ × UInt8) :=
  let indptr := corpus.indptr.getD []
  let start := (indptr.getD d.toNat 0).toNat
  let stop := (indptr.getD (d.toNat + 1) 0).toNat
  (List.range' start (stop - start)).map fun p =>
    (((corpus.indices.getD []).getD p 0).toNat, (corpus.values.getD []).getD p 0)

/-- One store of thread `j` into the dense matrix; beyond it nothing is known. -/
def scatterStore (ldb : ℕ) (b : List UInt8) (store : ℕ × ℕ × UInt8) : Option (List UInt8) :=
  let (j, col, value) := store
  if col * ldb + j < b.length then some (b.set (col * ldb + j) value) else none

/-- `scatter_dense_kernel`, a thread for each centroid. -/
def scatterDense (threads : Interleaving (ℕ × UInt8)) (corpus : DeviceCorpus) (centroids : List ℤ)
    (ldb : ℕ) (b : List UInt8) : Option (List UInt8) :=
  (threads.order (centroids.map corpus.codesOf)).foldlM (scatterStore ldb) b

/-- `assign_u8_spmm_kernel`: the score of a row against column `j`. -/
def assignU8Spmm (entries : List (ℕ × UInt8)) (b : List UInt8) (ldb j : ℕ) : Option ℤ :=
  entries.foldlM
    (fun acc entry => (b[entry.1 * ldb + j]?).map fun weight =>
      toLong (acc + entry.2.toNat * weight.toNat)) 0

/-- `row_argmax_kernel`. -/
def rowArgmax (scores : List ℤ) : ℕ :=
  ((List.range' 1 (scores.length - 1)).foldl
    (fun best j => if best.2 < scores.getD j 0 then (j, scores.getD j 0) else best)
    (0, scores.getD 0 0)).1

/-- `assign_u8`: the best cluster of every document. -/
def assignU8 (threads : Interleaving (ℕ × UInt8)) (corpus : DeviceCorpus)
    (docs centroids : List ℤ) (dim : ℕ) : Option (List ℕ) :=
  let nClusters := centroids.length
  (scatterDense threads corpus centroids nClusters (List.replicate (dim * nClusters) 0)).bind
    fun b => docs.mapM fun d =>
      ((List.range nClusters).mapM fun j => assignU8Spmm (corpus.codesOf d) b nClusters j).map
        rowArgmax

/-! ### A call -/

/-- A call of `assign`: the request for the corpus, the threads of the scatter, what another request
to the device throws, and what the path for floats finds. -/
structure AssignCall where
  resident : ResidentCall
  threads : Interleaving (ℕ × UInt8)
  fault : Option Exception
  floatBest : Except Exception (List ℕ)

/-- How a call ends. -/
inductive AssignOutcome
  | returned (clusters : List (List ℤ))
  | thrown (e : Exception)
  | outOfBounds
  deriving DecidableEq

/-- Append the assignments, skipping documents that are a centroid. -/
def appendAssignments (centroids docs : List ℤ) (best : List ℕ) (clusters : List (List ℤ)) :
    List (List ℤ) :=
  (docs.zip best).foldl
    (fun clusters p =>
      if p.1 ∈ centroids then clusters else clusters.modify p.2 (· ++ [p.1])) clusters

/-- `GpuClusterAssigner::assign`, when `c` is the corpus on the device. -/
def AssignCall.assign (call : AssignCall) (c : DeviceCorpus) (docs : List ℤ)
    (clusters : List (List ℤ)) : AssignOutcome :=
  if docs.length = 0 ∨ clusters.length = 0 then .returned clusters
  else
    let centroidDocs := clusters.map centroidOf
    match (call.resident.ensureResident c).2 with
    | .error e => .thrown e
    | .ok corpus =>
        match call.fault with
        | some e => .thrown e
        | none =>
            if corpus.elementSize = U32 then
              match call.floatBest with
              | .error e => .thrown e
              | .ok best => .returned (appendAssignments centroidDocs docs best clusters)
            else
              match assignU8 call.threads corpus docs centroidDocs
                  call.resident.corpus.vectors.dimension with
              | none => .outOfBounds
              | some best => .returned (appendAssignments centroidDocs docs best clusters)

/-! ### Scores -/

/-- The codes of a centroid at a term: all of them, and the last. -/
def weightSum (centroid : SparseRow Code) (term : ℕ) : ℕ :=
  ((itemsOf centroid term).map Wire.leNat).sum

def weightLast (centroid : SparseRow Code) (term : ℕ) : ℕ :=
  ((itemsOf centroid term).getLast?.map Wire.leNat).getD 0

/-- The score of a document when the terms of the centroid have these weights. -/
def scoreWith (weight : SparseRow Code → ℕ → ℕ) (centroid row : SparseRow Code) : ℕ :=
  (row.map fun entry => Wire.leNat entry.2 * weight centroid entry.1).sum

/-- **When the last codes are enough**: every term has a place in a column, and for every document
the last codes order the centroids as all codes do. -/
structure LastCodesSuffice (vectors : SparseVectors Code) : Prop where
  terms : ∀ a < vectors.numVectors, ∀ entry ∈ vectors.row a, entry.1 < vectors.dimension
  order : ∀ a < vectors.numVectors, ∀ b < vectors.numVectors, ∀ d < vectors.numVectors,
    d ≠ a → d ≠ b →
      (scoreWith weightLast (vectors.row a) (vectors.row d)
          < scoreWith weightLast (vectors.row b) (vectors.row d) ↔
        scoreWith weightSum (vectors.row a) (vectors.row d)
          < scoreWith weightSum (vectors.row b) (vectors.row d))

/-- Lists of documents and clusters that a caller passes: ids of rows, and one centroid each. -/
structure AssignInput (vectors : SparseVectors Code) (docs : List ℤ) (clusters : List (List ℤ)) :
    Prop where
  docs : ∀ d ∈ docs, 0 ≤ d ∧ d.toNat < vectors.numVectors
  nonempty : ∀ cluster ∈ clusters, cluster ≠ []
  centroids : ∀ a ∈ clusters.map centroidOf, 0 ≤ a ∧ a.toNat < vectors.numVectors
  distinct : (clusters.map centroidOf).Nodup

/-! ### The matrix -/

/-- A place in the matrix tells its row and its column. -/
theorem address_inj {ldb j j' col col' : ℕ} (hj : j < ldb) (hj' : j' < ldb) :
    col * ldb + j = col' * ldb + j' ↔ j = j' ∧ col = col' := by
  constructor
  · intro h
    have hmod : (col * ldb + j) % ldb = (col' * ldb + j') % ldb := congrArg (· % ldb) h
    rw [Nat.mul_add_mod', Nat.mul_add_mod', Nat.mod_eq_of_lt hj, Nat.mod_eq_of_lt hj'] at hmod
    rw [hmod] at h
    exact ⟨hmod, Nat.eq_of_mul_eq_mul_right (Nat.zero_lt_of_lt hj) (Nat.add_right_cancel h)⟩
  · rintro ⟨rfl, rfl⟩
    rfl

theorem address_lt_iff {ldb j col dim : ℕ} (hj : j < ldb) :
    col * ldb + j < dim * ldb ↔ col < dim := by
  constructor
  · intro h
    by_contra hge
    have hle := Nat.mul_le_mul_right ldb (not_lt.mp hge)
    omega
  · intro h
    have hle : (col + 1) * ldb ≤ dim * ldb := Nat.mul_le_mul_right ldb h
    rw [Nat.add_one_mul] at hle
    omega

/-- A run of stores is made when all are inside. -/
theorem foldlM_scatterStore (ldb : ℕ) (stores : List (ℕ × ℕ × UInt8)) (b : List UInt8) :
    stores.foldlM (scatterStore ldb) b
      = if ∀ s ∈ stores, s.2.1 * ldb + s.1 < b.length then
          some (stores.foldl (fun b s => b.set (s.2.1 * ldb + s.1) s.2.2) b)
        else none := by
  induction stores generalizing b with
  | nil => simp
  | cons s stores ih =>
      have hstore : scatterStore ldb b s
          = if s.2.1 * ldb + s.1 < b.length then some (b.set (s.2.1 * ldb + s.1) s.2.2) else none :=
        rfl
      rw [List.foldlM_cons, hstore]
      simp only [List.forall_mem_cons]
      by_cases hs : s.2.1 * ldb + s.1 < b.length
      · rw [if_pos hs]
        show List.foldlM (scatterStore ldb) (b.set (s.2.1 * ldb + s.1) s.2.2) stores = _
        rw [ih, List.length_set]
        simp only [hs, true_and, List.foldl_cons]
      · rw [if_neg hs, if_neg (fun h => hs h.1)]
        rfl

/-- What is found at a place was stored there last. -/
theorem getElem?_stores (ldb : ℕ) (stores : List (ℕ × ℕ × UInt8)) (b : List UInt8) (p : ℕ) :
    (stores.foldl (fun b s => b.set (s.2.1 * ldb + s.1) s.2.2) b)[p]?
      = b[p]?.map fun a =>
          (itemsOf (stores.map fun s => (s.2.1 * ldb + s.1, s.2.2)) p).getLast?.getD a := by
  induction stores generalizing b with
  | nil =>
      show b[p]? = b[p]?.map fun a => a
      rw [Option.map_id']
  | cons s stores ih =>
      rw [List.foldl_cons, ih, List.map_cons, List.getElem?_set]
      by_cases hp : s.2.1 * ldb + s.1 = p
      · have hcons : itemsOf ((s.2.1 * ldb + s.1, s.2.2)
            :: stores.map fun s => (s.2.1 * ldb + s.1, s.2.2)) p
            = s.2.2 :: itemsOf (stores.map fun s => (s.2.1 * ldb + s.1, s.2.2)) p := by
          rw [itemsOf, List.filter_cons_of_pos (by simpa using hp), List.map_cons, itemsOf]
        rw [if_pos hp, hcons, List.getLast?_cons]
        by_cases hlt : s.2.1 * ldb + s.1 < b.length
        · rw [if_pos hlt, List.getElem?_eq_getElem (hp ▸ hlt)]
          rfl
        · rw [if_neg hlt, List.getElem?_eq_none (hp ▸ not_lt.mp hlt)]
          rfl
      · have hcons : itemsOf ((s.2.1 * ldb + s.1, s.2.2)
            :: stores.map fun s => (s.2.1 * ldb + s.1, s.2.2)) p
            = itemsOf (stores.map fun s => (s.2.1 * ldb + s.1, s.2.2)) p := by
          rw [itemsOf, List.filter_cons_of_neg (by simpa using hp), itemsOf]
        rw [if_neg hp, hcons]

/-- Column `j` holds what thread `j` stored. -/
theorem itemsOf_addresses {ldb j col : ℕ} (hj : j < ldb) {stores : List (ℕ × ℕ × UInt8)}
    (hthreads : ∀ s ∈ stores, s.1 < ldb) :
    itemsOf (stores.map fun s => (s.2.1 * ldb + s.1, s.2.2)) (col * ldb + j)
      = itemsOf (itemsOf stores j) col := by
  rw [itemsOf, itemsOf, itemsOf, List.filter_map, List.filter_map, List.map_map, List.map_map,
    List.filter_filter]
  show List.map (fun s : ℕ × ℕ × UInt8 => s.2.2) _ = List.map (fun s : ℕ × ℕ × UInt8 => s.2.2) _
  refine congrArg (List.map fun s : ℕ × ℕ × UInt8 => s.2.2) (List.filter_congr fun s hs => ?_)
  show decide (s.2.1 * ldb + s.1 = col * ldb + j) = (decide (s.2.1 = col) && decide (s.1 = j))
  rw [← Bool.decide_and, decide_eq_decide, address_inj (hthreads s hs) hj, and_comm]

section Scatter

variable (threads : Interleaving (ℕ × UInt8)) {corpus : DeviceCorpus} {centroids : List ℤ} {dim : ℕ}

theorem Interleaving.mem_order_iff {α : Type} (threads : Interleaving α) {programs : List (List α)}
    {s : ℕ × α} : s ∈ threads.order programs ↔ s.2 ∈ programs.getD s.1 [] := by
  rw [← threads.ofThread programs s.1, itemsOf, List.mem_map]
  constructor
  · intro h
    exact ⟨s, List.mem_filter.mpr ⟨h, decide_eq_true rfl⟩, rfl⟩
  · rintro ⟨s', hs', heq⟩
    obtain ⟨hmem, hfirst⟩ := List.mem_filter.mp hs'
    have hpair : s' = s := Prod.ext (of_decide_eq_true hfirst) heq
    rwa [← hpair]

/-- **The scatter** leaves in column `j` the last code of every term of centroid `j`. -/
theorem scatterDense_spec (hterms : ∀ a ∈ centroids, ∀ entry ∈ corpus.codesOf a, entry.1 < dim) :
    ∃ b, scatterDense threads corpus centroids centroids.length
        (List.replicate (dim * centroids.length) 0) = some b ∧
      ∀ j < centroids.length, ∀ col < dim, b[col * centroids.length + j]?
        = some ((itemsOf ((centroids.map corpus.codesOf).getD j []) col).getLast?.getD 0) := by
  have hthreads := threads.threads (centroids.map corpus.codesOf)
  rw [List.length_map] at hthreads
  have hinside : ∀ s ∈ threads.order (centroids.map corpus.codesOf),
      s.2.1 * centroids.length + s.1
        < (List.replicate (dim * centroids.length) (0 : UInt8)).length := by
    intro s hs
    have hmem := threads.mem_order_iff.mp hs
    have hlt := hthreads s hs
    rw [List.getD_eq_getElem _ _ (by rwa [List.length_map]), List.getElem_map] at hmem
    rw [List.length_replicate, address_lt_iff hlt]
    exact hterms _ (List.getElem_mem hlt) _ hmem
  refine ⟨_, (foldlM_scatterStore _ _ _).trans (if_pos hinside), fun j hj col hcol => ?_⟩
  rw [getElem?_stores, itemsOf_addresses hj hthreads, threads.ofThread, List.getElem?_replicate,
    if_pos ((address_lt_iff hj).mpr hcol)]
  rfl

/-- A term beyond the dimension is stored beyond the matrix. -/
theorem scatterDense_outside {a : ℤ} (ha : a ∈ centroids) {entry : ℕ × UInt8}
    (hentry : entry ∈ corpus.codesOf a) (hout : dim ≤ entry.1) :
    scatterDense threads corpus centroids centroids.length
      (List.replicate (dim * centroids.length) 0) = none := by
  obtain ⟨j, hj, rfl⟩ := List.mem_iff_getElem.mp ha
  refine (foldlM_scatterStore _ _ _).trans (if_neg fun hall => ?_)
  have hstore : (j, entry) ∈ threads.order (centroids.map corpus.codesOf) := by
    rw [threads.mem_order_iff, List.getD_eq_getElem _ _ (by rwa [List.length_map]),
      List.getElem_map]
    exact hentry
  have hlt := hall _ hstore
  rw [List.length_replicate, address_lt_iff hj] at hlt
  exact absurd hlt (not_lt.mpr hout)

end Scatter

/-! ### The scores of the GPU -/

/-- **A score** is summed up without overflow where a row has fewer than `2 ^ 31` entries. -/
theorem assignU8Spmm_eq {entries : List (ℕ × UInt8)} {b : List UInt8} {ldb j : ℕ}
    {weight : ℕ → UInt8} (hweight : ∀ entry ∈ entries, b[entry.1 * ldb + j]? = some (weight entry.1))
    (hlength : entries.length < 2 ^ 31) :
    assignU8Spmm entries b ldb j
      = some (((entries.map fun entry => entry.2.toNat * (weight entry.1).toNat).sum : ℕ) : ℤ) := by
  have key : ∀ (entries : List (ℕ × UInt8)) (acc : ℕ),
      (∀ entry ∈ entries, b[entry.1 * ldb + j]? = some (weight entry.1)) →
      acc + entries.length * 2 ^ 16 < 2 ^ 63 →
      entries.foldlM
        (fun (acc : ℤ) entry => (b[entry.1 * ldb + j]?).map fun weight : UInt8 =>
          toLong (acc + entry.2.toNat * weight.toNat)) (acc : ℤ)
        = some (((acc + (entries.map fun entry =>
            entry.2.toNat * (weight entry.1).toNat).sum : ℕ)) : ℤ) := by
    intro entries
    induction entries with
    | nil =>
        intro acc _ _
        rw [List.map_nil, List.sum_nil, Nat.add_zero]
        rfl
    | cons entry entries ih =>
        intro acc hweight hacc
        obtain ⟨hfirst, hrest⟩ := List.forall_mem_cons.mp hweight
        rw [List.length_cons, Nat.add_one_mul] at hacc
        -- one product has 16 bits
        have hproduct : entry.2.toNat * (weight entry.1).toNat < 2 ^ 8 * 2 ^ 8 :=
          Nat.mul_lt_mul'' entry.2.toNat_lt (weight entry.1).toNat_lt
        have hsum : toLong ((acc : ℤ) + entry.2.toNat * (weight entry.1).toNat)
            = ((acc + entry.2.toNat * (weight entry.1).toNat : ℕ) : ℤ) := by
          rw [Nat.cast_add, Nat.cast_mul]
          exact toLong_of_lt (by positivity) (by exact_mod_cast (by omega))
        rw [List.foldlM_cons, hfirst, Option.map_some, hsum, List.map_cons, List.sum_cons,
          ← Nat.add_assoc]
        exact ih _ hrest (by omega)
  have hrun := key entries 0 hweight (by omega)
  rw [Nat.zero_add] at hrun
  exact hrun

theorem mapM_some {α β : Type} {f : α → Option β} {g : α → β} {l : List α}
    (h : ∀ a ∈ l, f a = some (g a)) : l.mapM f = some (l.map g) := by
  induction l with
  | nil => rfl
  | cons a l ih =>
      obtain ⟨ha, hl⟩ := List.forall_mem_cons.mp h
      rw [List.mapM_cons, ha, ih hl]
      rfl

/-! ### The corpus on the device -/

theorem flatten_codes {values : List Code} (h : ∀ code ∈ values, code.length = 1) :
    values.flatten = values.map fun code => code.headD 0 := by
  induction values with
  | nil => rfl
  | cons code values ih =>
      obtain ⟨hcode, hvalues⟩ := List.forall_mem_cons.mp h
      obtain ⟨byte, rfl⟩ := List.length_eq_one_iff.mp hcode
      rw [List.flatten_cons, ih hvalues]
      rfl

theorem leNat_of_length_one {code : Code} (h : code.length = 1) :
    Wire.leNat code = (code.headD 0).toNat := by
  obtain ⟨byte, rfl⟩ := List.length_eq_one_iff.mp h
  show byte.toNat + 256 * 0 = byte.toNat
  rw [Nat.mul_zero, Nat.add_zero]

section Shown

variable {c : DeviceCorpus} {v : HostCorpus}

/-- The codes of a row have one byte. -/
theorem HostCorpus.length_code (v : HostCorpus) (hwidth : v.vectors.elementSize = U8) {d : ℕ}
    {entry : ℕ × Code} (h : entry ∈ v.vectors.row d) : entry.2.length = 1 := by
  have hmem : entry ∈ v.vectors.entries := List.mem_of_mem_drop (List.mem_of_mem_take h)
  exact (v.codes _ (List.of_mem_zip hmem).2).trans hwidth

/-- A row of the corpus is not longer than all of it. -/
theorem HostCorpus.length_row_le (v : HostCorpus) (d : ℕ) : (v.vectors.row d).length ≤ v.nnz := by
  rw [v.nnz_eq, ← v.wellFormed.length_entries]
  apply (List.length_take_le' _ _).trans
  rw [List.length_drop]
  exact Nat.sub_le _ _

/-- **What a thread reads** of a row is the row. -/
theorem DeviceCorpus.Shows.codesOf_eq (h : c.Shows v) (hwidth : v.vectors.elementSize = U8) {d : ℤ}
    (hd : d.toNat < v.vectors.numVectors) :
    c.codesOf d = decodeRow (fun code => code.headD 0) (docRow v.vectors d) := by
  have hcast : ∀ (l : List ℕ) (i : ℕ), ((l.map fun n : ℕ => (n : ℤ)).getD i 0).toNat = l.getD i 0 := by
    intro l i
    show ((l.map fun n : ℕ => (n : ℤ)).getD i ((fun n : ℕ => (n : ℤ)) 0)).toNat = _
    rw [List.getD_map, Int.toNat_natCast]
  have hflat := flatten_codes fun code hcode => (v.codes code hcode).trans hwidth
  -- one array of both
  have hpair : ∀ p, (v.vectors.indices.getD p 0, v.vectors.values.flatten.getD p 0)
      = (v.vectors.entries.map fun entry => (entry.1, entry.2.headD 0)).getD p (0, 0) := by
    intro p
    rw [hflat, SparseVectors.entries]
    by_cases hp : p < v.vectors.indices.length
    · have hp' : p < v.vectors.values.length := v.wellFormed.paired ▸ hp
      rw [List.getD_eq_getElem _ _ hp, List.getD_eq_getElem _ _ (by simpa using hp'),
        List.getD_eq_getElem _ _ (by simpa using ⟨hp, hp'⟩), List.getElem_map, List.getElem_map,
        List.getElem_zip]
    · have hp' : ¬ p < v.vectors.values.length := v.wellFormed.paired ▸ hp
      rw [List.getD_eq_default _ _ (not_lt.mp hp),
        List.getD_eq_default _ _ (by simpa using hp'),
        List.getD_eq_default _ _ (by simp [not_lt.mp hp])]
  have hstop : v.vectors.indptr.getD (d.toNat + 1) 0 ≤ v.vectors.entries.length := by
    rw [SparseVectors.numVectors_eq] at hd
    have hlt : d.toNat + 1 < v.vectors.indptr.length := by omega
    have hne : v.vectors.indptr ≠ [] := List.ne_nil_of_length_pos (Nat.zero_lt_of_lt hlt)
    rw [v.wellFormed.length_entries, List.getD_eq_getElem _ _ hlt]
    exact (v.wellFormed.offsets hne).le_of_mem (List.getElem_mem hlt)
  simp only [DeviceCorpus.codesOf, h.indptr, h.indices, h.values, Option.getD_some, hcast, hpair]
  rw [decodeRow, docRow, SparseVectors.row, Csr.row, List.map_take, List.map_drop]
  rw [← List.length_map fun entry : ℕ × Code => (entry.1, entry.2.headD 0)] at hstop
  generalize v.vectors.entries.map (fun entry => (entry.1, entry.2.headD 0)) = entries at hstop ⊢
  generalize v.vectors.indptr.getD d.toNat 0 = start
  generalize v.vectors.indptr.getD (d.toNat + 1) 0 = stop at hstop ⊢
  have hlength : ((entries.drop start).take (stop - start)).length = stop - start := by
    rw [List.length_take, List.length_drop]
    omega
  have hread : (List.range' start ((entries.drop start).take (stop - start)).length).map
      (fun p => entries.getD p (0, 0)) = (entries.drop start).take (stop - start) := by
    apply CountingSort.map_getD_range'
    intro j hj
    rw [hlength] at hj
    rw [List.getElem?_take_of_lt hj, List.getElem?_drop]
  rwa [hlength] at hread

/-- The last code of a term, as a byte. -/
theorem toNat_lastCode {row : SparseRow Code} (hcodes : ∀ entry ∈ row, entry.2.length = 1)
    (term : ℕ) :
    ((itemsOf (decodeRow (fun code => code.headD 0) row) term).getLast?.getD 0).toNat
      = weightLast row term := by
  rw [itemsOf_decodeRow, List.getLast?_map, weightLast]
  rcases hlast : (itemsOf row term).getLast? with - | code
  · rfl
  · have hmem : code ∈ itemsOf row term := List.mem_of_getLast? hlast
    obtain ⟨entry, hentry, rfl⟩ := List.mem_map.mp hmem
    exact (leNat_of_length_one (hcodes entry (List.mem_of_mem_filter hentry))).symm

/-- **The best cluster of every document**, when every term has a place. -/
theorem assignU8_eq (h : c.Shows v) (hwidth : v.vectors.elementSize = U8) (hnnz : v.nnz < 2 ^ 31)
    (threads : Interleaving (ℕ × UInt8)) {docs centroids : List ℤ}
    (hdocs : ∀ d ∈ docs, d.toNat < v.vectors.numVectors)
    (hcentroids : ∀ a ∈ centroids, a.toNat < v.vectors.numVectors)
    (hterms : ∀ a < v.vectors.numVectors, ∀ entry ∈ v.vectors.row a,
      entry.1 < v.vectors.dimension) :
    assignU8 threads c docs centroids v.vectors.dimension
      = some (docs.map fun d => rowArgmax (centroids.map fun a =>
          (scoreWith weightLast (docRow v.vectors a) (docRow v.vectors d) : ℤ))) := by
  have hrow : ∀ d : ℤ, d.toNat < v.vectors.numVectors →
      ∀ entry ∈ c.codesOf d, entry.1 < v.vectors.dimension := by
    intro d hd entry hentry
    rw [h.codesOf_eq hwidth hd] at hentry
    obtain ⟨entry', hentry', rfl⟩ := List.mem_map.mp hentry
    exact hterms _ hd _ hentry'
  obtain ⟨b, hscatter, hb⟩ := scatterDense_spec threads fun a ha => hrow a (hcentroids a ha)
  rw [assignU8, hscatter]
  refine mapM_some fun d hd => ?_
  have hscores : ∀ j ∈ List.range centroids.length,
      assignU8Spmm (c.codesOf d) b centroids.length j
        = some (scoreWith weightLast (docRow v.vectors (centroids.getD j 0))
            (docRow v.vectors d) : ℤ) := by
    intro j hj
    have hj := List.mem_range.mp hj
    have hlength : (c.codesOf d).length < 2 ^ 31 := by
      rw [h.codesOf_eq hwidth (hdocs d hd), decodeRow, List.length_map]
      exact (v.length_row_le _).trans_lt hnnz
    rw [@assignU8Spmm_eq _ b _ j
        (fun col => (itemsOf ((centroids.map c.codesOf).getD j []) col).getLast?.getD 0)
        (fun entry hentry => hb j hj _ (hrow d (hdocs d hd) entry hentry)) hlength,
      h.codesOf_eq hwidth (hdocs d hd), decodeRow, List.map_map,
      List.getD_eq_getElem _ _ (by rwa [List.length_map]), List.getElem_map,
      List.getD_eq_getElem _ _ hj,
      h.codesOf_eq hwidth (hcentroids _ (List.getElem_mem hj)), scoreWith]
    refine congrArg (fun l : List ℕ => some ((l.sum : ℕ) : ℤ)) (List.map_congr_left fun entry hentry => ?_)
    rw [Function.comp_apply, leNat_of_length_one (v.length_code hwidth hentry)]
    exact congrArg _ (toNat_lastCode (fun _ hcode => v.length_code hwidth hcode) _)
  rw [mapM_some hscores]
  refine congrArg (fun scores => some (rowArgmax scores)) ?_
  refine List.ext_getElem (by simp) fun j _ hj => ?_
  rw [List.getElem_map, List.getElem_map, List.getElem_range, List.getD_eq_getElem]

/-- A centroid with a term beyond the dimension. -/
theorem assignU8_outside (h : c.Shows v) (hwidth : v.vectors.elementSize = U8)
    (threads : Interleaving (ℕ × UInt8)) {docs centroids : List ℤ} {a : ℤ} (ha : a ∈ centroids)
    (hlt : a.toNat < v.vectors.numVectors) {entry : ℕ × Code}
    (hentry : entry ∈ docRow v.vectors a) (hout : v.vectors.dimension ≤ entry.1) :
    assignU8 threads c docs centroids v.vectors.dimension = none := by
  have hmem : (entry.1, entry.2.headD 0) ∈ c.codesOf a := by
    rw [h.codesOf_eq hwidth hlt]
    exact List.mem_map_of_mem hentry
  rw [assignU8, scatterDense_outside threads ha hmem hout]
  rfl

end Shown

/-! ### The scores of the CPU -/

section Cpu

variable {F : Type} [FloatFormat F]

/-- The sum over a row, as the CPU makes it. -/
theorem foldl_addTerm_uint (centroid row : SparseRow Code) :
    row.foldl (addTerm (ValueType.uint F U8) centroid) (0 : ℕ)
      = scoreWith weightSum centroid row := by
  have hinner : ∀ (weight : ℕ) (codes : List Code) (acc : ℕ),
      codes.foldl (fun acc code => acc + weight * Wire.leNat code) acc
        = acc + weight * (codes.map Wire.leNat).sum := by
    intro weight codes
    induction codes with
    | nil => intro acc; rfl
    | cons code codes ih =>
        intro acc
        rw [List.foldl_cons, ih, List.map_cons, List.sum_cons, Nat.mul_add, Nat.add_assoc]
  have key : ∀ (row : SparseRow Code) (acc : ℕ),
      row.foldl (addTerm (ValueType.uint F U8) centroid) acc
        = acc + scoreWith weightSum centroid row := by
    intro row
    induction row with
    | nil => intro acc; rfl
    | cons entry row ih =>
        intro acc
        have hterm : addTerm (ValueType.uint F U8) centroid acc entry
            = acc + Wire.leNat entry.2 * weightSum centroid entry.1 := hinner _ _ _
        have hstep : (entry :: row).foldl (addTerm (ValueType.uint F U8) centroid) acc
            = row.foldl (addTerm (ValueType.uint F U8) centroid)
                (acc + Wire.leNat entry.2 * weightSum centroid entry.1 : ℕ) :=
          congrArg (fun acc : ℕ => row.foldl (addTerm (ValueType.uint F U8) centroid) acc) hterm
        refine hstep.trans ((ih _).trans ?_)
        rw [scoreWith, scoreWith, List.map_cons, List.sum_cons, Nat.add_assoc]
  exact (key row 0).trans (Nat.zero_add _)

theorem similaritiesOf_uint {vectors : SparseVectors Code} {clusters : List (List ℤ)}
    (hfit : CentroidCountersFit vectors clusters) (d : ℤ) :
    similaritiesOf (ValueType.uint F U8) vectors
        (buildCentroidIndex (ValueType.uint F U8) vectors clusters) clusters.length d
      = (clusters.map centroidOf).map fun a =>
          scoreWith weightSum (docRow vectors a) (docRow vectors d) := by
  apply List.ext_getElem?
  intro j
  by_cases hj : j < clusters.length
  · have hright : (((clusters.map centroidOf).map fun a =>
        scoreWith weightSum (docRow vectors a) (docRow vectors d)) : List ℕ)[j]?
        = some (scoreWith weightSum ((centroidRows vectors clusters).getD j []) (docRow vectors d)) := by
      rw [List.map_map, List.getElem?_map, List.getElem?_eq_getElem hj, centroidRows,
        List.getD_eq_getElem _ _ (by rwa [List.length_map]), List.getElem_map]
      rfl
    exact (getElem?_similaritiesOf _ hfit d hj).trans
      ((congrArg some (foldl_addTerm_uint _ _)).trans hright.symm)
  · have hright : (((clusters.map centroidOf).map fun a =>
        scoreWith weightSum (docRow vectors a) (docRow vectors d)) : List ℕ)[j]? = none :=
      List.getElem?_eq_none (by simpa using hj)
    exact (List.getElem?_eq_none (by rw [length_similaritiesOf]; exact not_lt.mp hj)).trans
      hright.symm

end Cpu

/-! ### One scan and one loop -/

section Agreement

variable (F : Type) [FloatFormat F]

/-- Both scans keep the first of the largest, so they agree where the scores are ordered alike. -/
theorem rowArgmax_eq_bestCluster {f g : ℤ → ℕ} {centroids : List ℤ}
    (h : ∀ a ∈ centroids, ∀ b ∈ centroids, g a < g b ↔ f a < f b) :
    rowArgmax (centroids.map fun a => (g a : ℤ))
      = bestCluster (ValueType.uint F U8) (centroids.map f) := by
  have hbest : bestCluster (ValueType.uint F U8) (centroids.map f)
      = ((List.range' 1 (centroids.length - 1)).foldl
          (fun best j => if best.2 < (centroids.map f).getD j 0 then (j, (centroids.map f).getD j 0)
            else best) (0, (centroids.map f).getD 0 0)).1 := by
    have hlength : (centroids.map f).length = centroids.length := List.length_map ..
    rw [← hlength]
    show ((List.range' 1 ((centroids.map f).length - 1)).foldl
      (fun (best : ℕ × ℕ) j => if decide (best.2 < (centroids.map f).getD j 0) = true then
        (j, (centroids.map f).getD j 0) else best) (0, (centroids.map f).getD 0 0)).1 = _
    simp only [decide_eq_true_eq]
  have key : ∀ k, k ≤ centroids.length - 1 → ∃ b, b ≤ k ∧
      (List.range' 1 k).foldl
        (fun best j => if best.2 < (centroids.map fun a => (g a : ℤ)).getD j 0 then
          (j, (centroids.map fun a => (g a : ℤ)).getD j 0) else best)
        (0, (centroids.map fun a => (g a : ℤ)).getD 0 0)
        = (b, (centroids.map fun a => (g a : ℤ)).getD b 0) ∧
      (List.range' 1 k).foldl
        (fun best j => if best.2 < (centroids.map f).getD j 0 then (j, (centroids.map f).getD j 0)
          else best) (0, (centroids.map f).getD 0 0)
        = (b, (centroids.map f).getD b 0) := by
    intro k
    induction k with
    | zero => exact fun _ => ⟨0, le_rfl, rfl, rfl⟩
    | succ k ih =>
        intro hk
        obtain ⟨b, hb, hgpu, hcpu⟩ := ih (Nat.le_of_succ_le hk)
        have hlt : ∀ {i}, i ≤ k + 1 → i < centroids.length := fun hi => by omega
        have hget : ∀ i (hi : i < centroids.length),
            (centroids.map fun a => (g a : ℤ)).getD i 0 = (g centroids[i] : ℤ) ∧
              (centroids.map f).getD i 0 = f centroids[i] := by
          intro i hi
          constructor
          · rw [List.getD_eq_getElem _ _ (by rwa [List.length_map]), List.getElem_map]
          · rw [List.getD_eq_getElem _ _ (by rwa [List.length_map]), List.getElem_map]
        have hb' : b < centroids.length := hlt (hb.trans (Nat.le_succ k))
        have hnext : k + 1 < centroids.length := hlt le_rfl
        have hiff : (centroids.map fun a => (g a : ℤ)).getD b 0
              < (centroids.map fun a => (g a : ℤ)).getD (k + 1) 0 ↔
            (centroids.map f).getD b 0 < (centroids.map f).getD (k + 1) 0 := by
          rw [(hget b hb').1, (hget b hb').2, (hget _ hnext).1, (hget _ hnext).2, Nat.cast_lt]
          exact h _ (List.getElem_mem hb') _ (List.getElem_mem hnext)
        rw [List.range'_1_concat, List.foldl_append, List.foldl_append, hgpu, hcpu,
          List.foldl_cons, List.foldl_nil, List.foldl_cons, List.foldl_nil, Nat.add_comm 1 k]
        dsimp only
        by_cases hgt : (centroids.map f).getD b 0 < (centroids.map f).getD (k + 1) 0
        · rw [if_pos (hiff.mpr hgt), if_pos hgt]
          exact ⟨k + 1, le_rfl, rfl, rfl⟩
        · rw [if_neg (hiff.not.mpr hgt), if_neg hgt]
          exact ⟨b, hb.trans (Nat.le_succ k), rfl, rfl⟩
  obtain ⟨b, -, hgpu, hcpu⟩ := key _ le_rfl
  rw [hbest, hcpu, rowArgmax, List.length_map, hgpu]

theorem rowArgmax_pair (x y : ℤ) : rowArgmax [x, y] = if x < y then 1 else 0 := by
  show (if x < y then ((1 : ℕ), y) else (0, x)).1 = _
  split
  · rfl
  · rfl

/-- Appending documents to the clusters that `best` sends them to. -/
def appendBest (centroids : List ℤ) (best : ℤ → ℕ) (docs : List ℤ) (clusters : List (List ℤ)) :
    List (List ℤ) :=
  docs.foldl
    (fun clusters d => if d ∈ centroids then clusters else clusters.modify (best d) (· ++ [d]))
    clusters

theorem appendAssignments_map (centroids docs : List ℤ) (best : ℤ → ℕ) (clusters : List (List ℤ)) :
    appendAssignments centroids docs (docs.map best) clusters
      = appendBest centroids best docs clusters := by
  rw [appendAssignments, ← List.map_prod_left_eq_zip, List.foldl_map]
  rfl

/-- A centroid is sent nowhere. -/
theorem appendBest_congr {centroids docs : List ℤ} {best best' : ℤ → ℕ}
    (h : ∀ d ∈ docs, d ∉ centroids → best d = best' d) (clusters : List (List ℤ)) :
    appendBest centroids best docs clusters = appendBest centroids best' docs clusters := by
  refine List.foldl_ext _ _ _ fun clusters d hd => ?_
  split
  · rfl
  · rename_i hnot
    rw [h d hd hnot]

variable [Zero F] [Add F] [Sub F] [Mul F] [LT F] [DecidableLT F]

/-- **The assignment of the CPU**, for 8-bit codes. -/
theorem mapDocsToClusters_codes (sort : StdSort) {vectors : SparseVectors Code}
    (hwidth : vectors.elementSize = U8) {docs : List ℤ} {clusters : List (List ℤ)}
    (hne : ¬ (clusters = [] ∨ docs = [])) (hfit : CentroidCountersFit vectors clusters) :
    mapDocsToClusters F sort vectors docs clusters
      = appendBest (clusters.map centroidOf) (fun d => bestCluster (ValueType.uint F U8)
          ((clusters.map centroidOf).map fun a =>
            scoreWith weightSum (docRow vectors a) (docRow vectors d))) docs clusters := by
  have hvt : ValueType.ofWidth F vectors.elementSize = ValueType.uint F U8 := by
    rw [hwidth]
    rfl
  have hmem : ∀ doc, doc ∈ sort.sort (fun a b => a < b) (clusters.map centroidOf)
      ↔ doc ∈ clusters.map centroidOf := fun doc => (sort.perm _ _).mem_iff
  have key : ∀ (docs : List ℤ) (cs : List (List ℤ)), cs.length = clusters.length →
      docs.foldl (fun cs doc =>
        if doc ∈ sort.sort (fun a b => a < b) (clusters.map centroidOf) then cs
        else cs.modify (bestCluster (ValueType.uint F U8) (similaritiesOf (ValueType.uint F U8)
          vectors (buildCentroidIndex (ValueType.uint F U8) vectors clusters) cs.length doc))
          (· ++ [doc])) cs
        = appendBest (clusters.map centroidOf) (fun d => bestCluster (ValueType.uint F U8)
            ((clusters.map centroidOf).map fun a =>
              scoreWith weightSum (docRow vectors a) (docRow vectors d))) docs cs := by
    intro docs
    induction docs with
    | nil => exact fun _ _ => rfl
    | cons doc docs ih =>
        intro cs hlength
        rw [List.foldl_cons, appendBest, List.foldl_cons]
        by_cases hhead : doc ∈ clusters.map centroidOf
        · rw [if_pos ((hmem doc).mpr hhead), if_pos hhead]
          exact ih cs hlength
        · rw [if_neg ((hmem doc).not.mpr hhead), if_neg hhead, hlength, similaritiesOf_uint hfit]
          exact ih _ (by rw [List.length_modify, hlength])
  rw [mapDocsToClusters, if_neg hne, hvt]
  exact key docs clusters rfl

end Agreement

/-- The entries of the rows of distinct centroids are entries of the corpus. -/
theorem length_centroidTerms_le (v : HostCorpus) {docs : List ℤ} {clusters : List (List ℤ)}
    (h : AssignInput v.vectors docs clusters) :
    (centroidTerms v.vectors clusters).length ≤ v.nnz := by
  have hflat : v.vectors.rows.flatten.length = v.nnz := by
    rw [v.wellFormed.flatten_rows, v.wellFormed.length_entries, v.nnz_eq]
  have hids : ((clusters.map centroidOf).map Int.toNat).Nodup := by
    refine List.Nodup.map_on (fun a ha b hb heq => ?_) h.distinct
    have ha0 := (h.centroids a ha).1
    have hb0 := (h.centroids b hb).1
    omega
  have hsub : (clusters.map centroidOf).map Int.toNat ⊆ List.range v.vectors.numVectors := by
    intro i hi
    obtain ⟨a, ha, rfl⟩ := List.mem_map.mp hi
    exact List.mem_range.mpr (h.centroids a ha).2
  obtain ⟨ids, hperm, hsublist⟩ := List.subperm_of_subset hids hsub
  calc (centroidTerms v.vectors clusters).length
      = (((clusters.map centroidOf).map Int.toNat).map fun i => (v.vectors.row i).length).sum := by
        rw [centroidTerms, List.length_map, List.length_flatten, centroidRows, List.map_map,
          List.map_map, List.map_map]
        rfl
    _ = (ids.map fun i => (v.vectors.row i).length).sum :=
        (hperm.symm.map fun i => (v.vectors.row i).length).sum_eq
    _ ≤ ((List.range v.vectors.numVectors).map fun i => (v.vectors.row i).length).sum :=
        (hsublist.map fun i => (v.vectors.row i).length).sum_le_sum fun _ _ => Nat.zero_le _
    _ = v.nnz := by
        rw [← hflat, SparseVectors.rows_eq_map_row, List.length_flatten, List.map_map]
        rfl

/-! ### The GPU and the CPU -/

/-- One thread after the other. -/
def Interleaving.oneByOne (α : Type) : Interleaving α where
  order programs := programs.zipIdx.flatMap fun p => p.1.map fun a => (p.2, a)
  ofThread programs j := by
    have key : ∀ (programs : List (List α)) (first j : ℕ),
        itemsOf ((programs.zipIdx first).flatMap fun p => p.1.map fun a => (p.2, a)) j
          = if first ≤ j then programs.getD (j - first) [] else [] := by
      intro programs
      induction programs with
      | nil =>
          intro first j
          split
          · rfl
          · rfl
      | cons program programs ih =>
          intro first j
          have hfirst := CountingSort.itemsOf_map_const first j id program
          rw [List.map_id] at hfirst
          rw [List.zipIdx_cons, List.flatMap_cons, CountingSort.itemsOf_append, ih]
          refine (congrArg (· ++ _) hfirst).trans ?_
          rcases Nat.lt_trichotomy first j with hlt | rfl | hgt
          · rw [if_neg hlt.ne, if_pos (Nat.succ_le_of_lt hlt), if_pos hlt.le, List.nil_append]
            obtain ⟨k, rfl⟩ := Nat.exists_eq_add_of_lt hlt
            rw [show first + k + 1 - first = k + 1 by omega,
              show first + k + 1 - (first + 1) = k by omega]
            rfl
          · rw [if_pos rfl, if_neg (Nat.not_succ_le_self first), if_pos le_rfl, Nat.sub_self,
              List.append_nil]
            rfl
          · rw [if_neg hgt.ne', if_neg (by omega), if_neg (not_le.mpr hgt)]
            rfl
    have hkey := key programs 0 j
    rw [if_pos (Nat.zero_le j), Nat.sub_zero] at hkey
    exact hkey
  threads programs s hs := by
    obtain ⟨p, hp, hs⟩ := List.mem_flatMap.mp hs
    obtain ⟨a, -, rfl⟩ := List.mem_map.mp hs
    exact (List.getElem?_eq_some_iff.mp (List.mem_zipIdx_iff_getElem?.mp hp)).1

namespace AssignCall

variable {call : AssignCall} {c : DeviceCorpus} {docs : List ℤ} {clusters : List (List ℤ)}

/-- A call that reaches the kernels for codes. -/
theorem assign_eq {corpus : DeviceCorpus} (hne : ¬ (clusters = [] ∨ docs = []))
    (hresident : (call.resident.ensureResident c).2 = .ok corpus) (hfault : call.fault = none)
    (hwidth : corpus.elementSize = U8) :
    call.assign c docs clusters
      = match assignU8 call.threads corpus docs (clusters.map centroidOf)
            call.resident.corpus.vectors.dimension with
        | none => .outOfBounds
        | some best =>
            .returned (appendAssignments (clusters.map centroidOf) docs best clusters) := by
  have hempty : ¬ (docs.length = 0 ∨ clusters.length = 0) := by
    rw [List.length_eq_zero_iff, List.length_eq_zero_iff, or_comm]
    exact hne
  have hfloat : ¬ corpus.elementSize = U32 := by
    rw [hwidth]
    decide
  rw [assign, if_neg hempty]
  dsimp only
  rw [hresident]
  dsimp only
  rw [hfault]
  exact if_neg hfloat

/-- **The assignment of the GPU**, when every term has a place. -/
theorem assign_returns {corpus : DeviceCorpus} (hne : ¬ (clusters = [] ∨ docs = []))
    (hresident : (call.resident.ensureResident c).2 = .ok corpus) (hfault : call.fault = none)
    (hshows : corpus.Shows call.resident.corpus)
    (hwidth : call.resident.corpus.vectors.elementSize = U8)
    (hnnz : call.resident.corpus.nnz < 2 ^ 31)
    (hin : AssignInput call.resident.corpus.vectors docs clusters)
    (hterms : ∀ a < call.resident.corpus.vectors.numVectors,
      ∀ entry ∈ call.resident.corpus.vectors.row a,
        entry.1 < call.resident.corpus.vectors.dimension) :
    call.assign c docs clusters
      = .returned (appendBest (clusters.map centroidOf)
          (fun d => rowArgmax ((clusters.map centroidOf).map fun a =>
            (scoreWith weightLast (docRow call.resident.corpus.vectors a)
              (docRow call.resident.corpus.vectors d) : ℤ))) docs clusters) := by
  rw [assign_eq hne hresident hfault (hshows.elementSize.trans hwidth),
    assignU8_eq hshows hwidth hnnz call.threads (fun d hd => (hin.docs d hd).2)
      (fun a ha => (hin.centroids a ha).2) hterms]
  dsimp only
  rw [appendAssignments_map]

end AssignCall

section Main

variable (F : Type) [Zero F] [Add F] [Sub F] [Mul F] [LT F] [DecidableLT F] [FloatFormat F]

/-- The GPU assigns as the CPU does, or throws for the CPU to do it: in every state of the device
where the resident corpus is no other one, in whatever order the threads run. -/
def AssignsLikeCpu (sort : StdSort) (v : HostCorpus) : Prop :=
  ∀ (c : DeviceCorpus) (last : Option ResidentCall) (call : AssignCall) (docs : List ℤ)
    (clusters : List (List ℤ)), c.IsOf last → ResidentCall.NoStaleKey last [call.resident] →
    call.resident.corpus = v → AssignInput v.vectors docs clusters →
      call.assign c docs clusters
          = .returned (mapDocsToClusters F sort v.vectors docs clusters) ∨
        ∃ e, call.assign c docs clusters = .thrown e

variable {F}

/-- Enough for the GPU to agree. -/
theorem assignsLikeCpu_of_suffice (sort : StdSort) {v : HostCorpus}
    (hwidth : v.vectors.elementSize = U8) (h : 2 ^ 31 ≤ v.nnz ∨ LastCodesSuffice v.vectors) :
    AssignsLikeCpu F sort v := by
  rintro c last call docs clusters hof hstale rfl hin
  by_cases hne : clusters = [] ∨ docs = []
  · left
    rw [mapDocsToClusters, if_pos hne, AssignCall.assign, if_pos]
    rwa [List.length_eq_zero_iff, List.length_eq_zero_iff, or_comm]
  obtain ⟨hclusters, hdocs⟩ := not_or.mp hne
  have hempty : ¬ (docs.length = 0 ∨ clusters.length = 0) := by
    rw [List.length_eq_zero_iff, List.length_eq_zero_iff, or_comm]
    exact hne
  have hshows := (ensureResident_step hof call.resident).2.mpr hstale.1
  rcases hresident : (call.resident.ensureResident c).2 with e | corpus
  · right
    refine ⟨e, ?_⟩
    rw [AssignCall.assign, if_neg hempty]
    dsimp only
    rw [hresident]
  have hcorpus := hshows corpus hresident
  rcases hfault : call.fault with - | e
  · left
    have haccepted : call.resident.rejection = none := by
      rcases hreject : call.resident.rejection with - | e
      · rfl
      · rw [ResidentCall.ensureResident, hreject] at hresident
        cases hresident
    have hnnz := (ResidentCall.nnz_of_accepted haccepted).1
    have hsuffice := h.resolve_left (not_le.mpr hnnz)
    have hfit : CentroidCountersFit call.resident.corpus.vectors clusters :=
      centroidCountersFit_iff.mpr ((length_centroidTerms_le _ hin).trans_lt hnnz)
    rw [AssignCall.assign_returns hne hresident hfault hcorpus hwidth hnnz hin hsuffice.terms,
      mapDocsToClusters_codes F sort hwidth hne hfit]
    refine congrArg AssignOutcome.returned (appendBest_congr (fun d hd hnot => ?_) clusters)
    refine rowArgmax_eq_bestCluster F fun a ha b hb => ?_
    -- a document that is no centroid has another id
    have hother : ∀ a ∈ clusters.map centroidOf, d.toNat ≠ a.toNat := by
      intro a ha heq
      have hd0 := (hin.docs d hd).1
      have ha0 := (hin.centroids a ha).1
      have hda : d = a := by omega
      exact hnot (hda ▸ ha)
    exact hsuffice.order _ (hin.centroids a ha).2 _ (hin.centroids b hb).2 _ (hin.docs d hd).2
      (hother a ha) (hother b hb)
  · right
    refine ⟨e, ?_⟩
    rw [AssignCall.assign, if_neg hempty]
    dsimp only
    rw [hresident]
    dsimp only
    rw [hfault]

/-- A call on a device that has nothing yet. -/
def firstCall (v : HostCorpus) : AssignCall :=
  ⟨⟨4096, v, calmDevice⟩, .oneByOne _, none, .ok []⟩

theorem firstCall_resident {v : HostCorpus} (hwidth : v.vectors.elementSize = U8)
    (hnnz : v.nnz < 2 ^ 31) :
    ((firstCall v).resident.ensureResident .null).2 = .ok (firstCall v).resident.shown ∧
      (firstCall v).resident.rejection = none := by
  have haccepted : (firstCall v).resident.rejection = none := by
    have hcount : ¬ 2 ^ 31 - 1 < (firstCall v).resident.corpus.nnz := by
      show ¬ 2 ^ 31 - 1 < v.nnz
      omega
    have hsize : ¬ ((firstCall v).resident.corpus.vectors.elementSize ≠ U32 ∧
        (firstCall v).resident.corpus.vectors.elementSize ≠ U8) := fun hne => hne.2 hwidth
    rw [ResidentCall.rejection, if_neg hcount, if_neg hsize]
  refine ⟨?_, haccepted⟩
  rw [ResidentCall.ensureResident, haccepted]
  dsimp only
  rw [ResidentCall.upload_of_succeeds rfl]
  rfl

/-- The GPU agrees only then: one centroid shows a term without a place, two centroids and a
document an order that is not kept. -/
theorem suffice_of_assignsLikeCpu (sort : StdSort) {v : HostCorpus}
    (hwidth : v.vectors.elementSize = U8) (h : AssignsLikeCpu F sort v) (hnnz : v.nnz < 2 ^ 31) :
    LastCodesSuffice v.vectors := by
  obtain ⟨hresident, haccepted⟩ := firstCall_resident hwidth hnnz
  have hshows := ResidentCall.shown_shows haccepted
  have hsize : (firstCall v).resident.shown.elementSize = U8 := hwidth
  have hcall := fun docs clusters => h .null none (firstCall v) docs clusters rfl
    ⟨fun _ _ => nofun, trivial⟩ rfl
  have hterms : ∀ a < v.vectors.numVectors, ∀ entry ∈ v.vectors.row a,
      entry.1 < v.vectors.dimension := by
    intro a ha entry hentry
    by_contra hout
    have hid : (0 : ℤ) ≤ a ∧ (a : ℤ).toNat < v.vectors.numVectors :=
      ⟨Int.natCast_nonneg a, by rwa [Int.toNat_natCast]⟩
    have hin : AssignInput v.vectors [(a : ℤ)] [[(a : ℤ)]] :=
      ⟨by simpa using ha, by simp, by simpa [centroidOf] using ha, List.nodup_singleton _⟩
    have hout' : (firstCall v).assign .null [(a : ℤ)] [[(a : ℤ)]] = .outOfBounds := by
      have hnone : assignU8 (firstCall v).threads (firstCall v).resident.shown [(a : ℤ)]
          ([[(a : ℤ)]].map centroidOf) (firstCall v).resident.corpus.vectors.dimension = none :=
        assignU8_outside hshows hwidth _ (List.mem_singleton_self (a : ℤ)) hid.2
          (by rwa [docRow, Int.toNat_natCast]) (not_lt.mp hout)
      rw [AssignCall.assign_eq (by simp) hresident rfl hsize, hnone]
    rcases hcall _ _ hin with hreturned | ⟨e, hthrown⟩
    · rw [hout'] at hreturned
      cases hreturned
    · rw [hout'] at hthrown
      cases hthrown
  refine ⟨hterms, fun a ha b hb d hd hda hdb => ?_⟩
  by_cases hab : a = b
  · rw [hab]
    exact iff_of_false (lt_irrefl _) (lt_irrefl _)
  have hin : AssignInput v.vectors [(d : ℤ)] [[(a : ℤ)], [(b : ℤ)]] := by
    refine ⟨by simpa using hd, by simp, by simpa [centroidOf] using ⟨ha, hb⟩, ?_⟩
    simpa [centroidOf] using hab
  have hne : ¬ ([[(a : ℤ)], [(b : ℤ)]] = ([] : List (List ℤ)) ∨ [(d : ℤ)] = ([] : List ℤ)) := by simp
  have hfit : CentroidCountersFit v.vectors [[(a : ℤ)], [(b : ℤ)]] :=
    centroidCountersFit_iff.mpr ((length_centroidTerms_le _ hin).trans_lt hnnz)
  have hgpu := AssignCall.assign_returns hne hresident rfl hshows hwidth hnnz hin hterms
  rcases hcall _ _ hin with hreturned | ⟨e, hthrown⟩
  swap
  · rw [hgpu] at hthrown
    cases hthrown
  rw [hgpu, mapDocsToClusters_codes F sort hwidth hne hfit] at hreturned
  have hsame := AssignOutcome.returned.inj hreturned
  -- the document is the only one, and it is no centroid
  have hone : ∀ best : ℤ → ℕ, appendBest ([[(a : ℤ)], [(b : ℤ)]].map centroidOf) best [(d : ℤ)]
      [[(a : ℤ)], [(b : ℤ)]] = [[(a : ℤ)], [(b : ℤ)]].modify (best d) (· ++ [(d : ℤ)]) := by
    intro best
    exact if_neg (by simpa [centroidOf] using ⟨hda, hdb⟩)
  rw [hone, hone, ← rowArgmax_eq_bestCluster F fun _ _ _ _ => Iff.rfl] at hsame
  have hcorpus : (firstCall v).resident.corpus = v := rfl
  simp only [hcorpus, List.map_cons, List.map_nil, rowArgmax_pair, centroidOf, List.headD_cons,
    docRow, Int.toNat_natCast, Nat.cast_lt] at hsame
  constructor
  · intro hlt
    by_contra hge
    rw [if_pos hlt, if_neg hge] at hsame
    simp at hsame
  · intro hlt
    by_contra hge
    rw [if_neg hge, if_pos hlt] at hsame
    simp at hsame

/-- **The GPU assigns as the CPU does** exactly when every term is below the dimension and, for every
document, the last codes of two centroids compare as the sums of all their codes do; more than
`2 ^ 31 - 1` entries are left to the CPU. -/
theorem assignsLikeCpu_iff (sort : StdSort) (v : HostCorpus)
    (hwidth : v.vectors.elementSize = U8) :
    AssignsLikeCpu F sort v ↔ 2 ^ 31 ≤ v.nnz ∨ LastCodesSuffice v.vectors := by
  constructor
  · intro h
    rcases le_or_gt (2 ^ 31) v.nnz with hlarge | hnnz
    · exact .inl hlarge
    · exact .inr (suffice_of_assignsLikeCpu sort hwidth h hnnz)
  · exact assignsLikeCpu_of_suffice sort hwidth

end Main

/-- Three documents of one term; the second has it twice. -/
def repeatedTerm : HostCorpus where
  vectors := ⟨U8, 1, [0, 1, 3, 4], [0, 0, 0, 0], [[2], [3], [1], [1]]⟩
  wellFormed := ⟨rfl, nofun, fun _ => ⟨rfl, by decide, rfl⟩⟩
  nonempty := by decide
  terms := by decide
  codes := by decide

theorem assignsLikeCpu_iff_repeated_term :
    AssignsLikeCpu ℤ insertionSort repeatedTerm ↔
      2 ^ 31 ≤ repeatedTerm.nnz ∨ LastCodesSuffice repeatedTerm.vectors :=
  assignsLikeCpu_iff insertionSort repeatedTerm rfl

/-- The last document scores 2 against the first; against the second it scores 4 on the CPU, and 1 on
the GPU. -/
theorem assign_keeps_last_code :
    ¬ ∀ v : HostCorpus, v.vectors.elementSize = U8 → AssignsLikeCpu ℤ insertionSort v := by
  intro hall
  have hin : AssignInput repeatedTerm.vectors [2] [[0], [1]] :=
    ⟨by decide, by decide, by decide, by decide⟩
  have hgpu : (firstCall repeatedTerm).assign .null [2] [[0], [1]] = .returned [[0, 2], [1]] := by
    decide +kernel
  have hcpu : mapDocsToClusters ℤ insertionSort repeatedTerm.vectors [2] [[0], [1]]
      = [[0], [1, 2]] := by
    decide +kernel
  rcases hall repeatedTerm rfl .null none (firstCall repeatedTerm) [2] [[0], [1]] rfl
    ⟨fun _ _ => nofun, trivial⟩ rfl hin with hreturned | ⟨e, hthrown⟩
  · rw [hgpu, hcpu] at hreturned
    exact absurd (AssignOutcome.returned.inj hreturned) (by decide)
  · rw [hgpu] at hthrown
    cases hthrown

end Nsparse
