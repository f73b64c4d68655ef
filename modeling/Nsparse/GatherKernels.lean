/-
Nsparse/GatherKernels.lean

The vectorised integer kernels: what they compute, and what they read.

A kernel is loads of whole registers, a gather of four bytes where only one or two are
meant, and a mask over what was gathered.  The arrays are memory (`KernelMemory`) that
goes on past their ends, and a load returns what it found together with the positions it
read, so that the sum and the reads come from one run.

The sum is that of the scalar kernel whatever lies past the arrays (`vectorSum_eq`).
The reads are not always within the arrays: a register that is wider than what is used
of it reads past the end of `indices` or `values` in the last block, and a wide gather
past the end of `dense` at the last terms (`readsWithin_iff`).
-/
import Nsparse.Lib.Wire

namespace Nsparse

open Wire

/-! ### Memory -/

/-- The arrays of a kernel, and whatever follows them: elements of `indices` and `values`, and
bytes of `dense`. -/
structure KernelMemory where
  indices : ℕ → ℕ
  values : ℕ → ℕ
  dense : ℕ → UInt8

inductive KernelArray
  | indices
  | values
  | dense
  deriving Repr, DecidableEq

/-- A position that was read. -/
abbrev Access := KernelArray × ℕ

/-- `count` consecutive elements, and where they were read. -/
def load {A : Type} (array : ℕ → A) (name : KernelArray) (start count : ℕ) :
    List A × List Access :=
  ((List.range count).map fun j => array (start + j),
    (List.range count).map fun j => (name, start + j))

/-- The elements `[0, len)` of the sparse arrays, and `dim` elements of the dense one. -/
def Within (width len dim : ℕ) : Access → Prop
  | (.indices, i) => i < len
  | (.values, i) => i < len
  | (.dense, byte) => byte < width * dim

instance (width len dim : ℕ) (access : Access) : Decidable (Within width len dim access) := by
  rcases access with ⟨_ | _ | _, _⟩ <;> exact Nat.decLt _ _

/-! ### The kernels -/

/-- What the kernels differ in: the bytes of an element, the elements a block uses, the indices and
values it loads, the bytes it gathers for a term, and the accumulator lane of a product. -/
structure GatherKernel where
  width : ℕ
  lanes : ℕ
  indexLoad : ℕ
  valueLoad : ℕ
  gatherBytes : ℕ
  accumulators : ℕ
  accumulator : ℕ → ℕ
  lanes_pos : 0 < lanes
  index_le : lanes ≤ indexLoad
  value_le : lanes ≤ valueLoad
  gather_le : width ≤ gatherBytes
  accumulator_lt : ∀ lane < lanes, accumulator lane < accumulators

namespace GatherKernel

/-- One element after the other, as the tail of every kernel and the scalar kernels go. -/
def scalarStep (width : ℕ) (m : KernelMemory) (s : ℕ × List Access) (i : ℕ) :
    ℕ × List Access :=
  let (idx, indexReads) := load m.indices .indices i 1
  let (vals, valueReads) := load m.values .values i 1
  let words := idx.map fun term => load m.dense .dense (width * term) width
  (s.1 + (List.zipWith (fun val (word : List UInt8 × List Access) => val * leNat word.1)
      vals words).sum,
    s.2 ++ (indexReads ++ valueReads ++ words.flatMap Prod.snd))

/-- Add each product to its lane. -/
def accumulate (k : GatherKernel) (register products : List ℕ) : List ℕ :=
  (products.zipIdx).foldl
    (fun register product => register.modify (k.accumulator product.2) (· + product.1)) register

/-- One block: load, gather, mask, multiply and add. -/
def blockStep (k : GatherKernel) (m : KernelMemory) (s : List ℕ × List Access) (block : ℕ) :
    List ℕ × List Access :=
  let (idx, indexReads) := load m.indices .indices (k.lanes * block) k.indexLoad
  let (vals, valueReads) := load m.values .values (k.lanes * block) k.valueLoad
  let words := (idx.take k.lanes).map fun term =>
    load m.dense .dense (k.width * term) k.gatherBytes
  let gathered := words.map fun word => leNat word.1 % 256 ^ k.width
  (k.accumulate s.1 (List.zipWith (· * ·) (vals.take k.lanes) gathered),
    s.2 ++ (indexReads ++ valueReads ++ words.flatMap Prod.snd))

/-- A kernel: the full blocks, the horizontal sum, the tail. -/
def run (k : GatherKernel) (m : KernelMemory) (len : ℕ) : ℕ × List Access :=
  let blocks := (List.range (len / k.lanes)).foldl (k.blockStep m)
    (List.replicate k.accumulators 0, [])
  (List.range' (k.lanes * (len / k.lanes)) (len % k.lanes)).foldl (scalarStep k.width m)
    (blocks.1.sum, blocks.2)

/-- `dot_product_uint8_dense` and `dot_product_uint16_dense` of the scalar code. -/
def scalarRun (width : ℕ) (m : KernelMemory) (len : ℕ) : ℕ × List Access :=
  (List.range len).foldl (scalarStep width m) (0, [])

end GatherKernel

namespace Avx512

/-- A gather of 32 bits with scale 2, of which 16 are kept. -/
def dotProductUint16Dense : GatherKernel :=
  ⟨2, 16, 16, 16, 4, 16, id, by decide, by decide, by decide, by decide, fun _ h => h⟩

/-- A gather of 32 bits with scale 1, of which 8 are kept. -/
def dotProductUint8Dense : GatherKernel :=
  ⟨1, 16, 16, 16, 4, 16, id, by decide, by decide, by decide, by decide, fun _ h => h⟩

end Avx512

namespace Neon

/-- Single elements are gathered; the products are added up in two registers of two lanes. -/
def dotProductUint16Dense : GatherKernel :=
  ⟨2, 8, 8, 8, 2, 4, fun lane => lane / 4 * 2 + lane % 2, by decide, by decide, by decide,
    by decide, by decide⟩

/-- Single elements are gathered; `vld1_u8` loads eight values, of which four are used. -/
def dotProductUint8Dense : GatherKernel :=
  ⟨1, 4, 4, 8, 1, 4, id, by decide, by decide, by decide, by decide, fun _ h => h⟩

end Neon

namespace Sve

/-- `svld1_u16` loads a register of 16-bit elements for `svcntw()` of them; a gather is 32 bits. -/
def dotProductUint16Dense (vl : ℕ) (hvl : 0 < vl) : GatherKernel :=
  ⟨2, vl, 2 * vl, 2 * vl, 4, vl, id, hvl, by omega, by omega, by decide, fun _ h => h⟩

/-- `svld1_u8` loads a register of bytes for `svcntw()` of them; a gather is 32 bits. -/
def dotProductUint8Dense (vl : ℕ) (hvl : 0 < vl) : GatherKernel :=
  ⟨1, vl, 2 * vl, 4 * vl, 4, vl, id, hvl, by omega, by omega, by decide, fun _ h => h⟩

end Sve

namespace GatherKernel

/-! ### What is computed -/

/-- An element of `dense`. -/
def element (width : ℕ) (m : KernelMemory) (term : ℕ) : ℕ :=
  leNat ((List.range width).map fun j => m.dense (width * term + j))

/-- The product at a position. -/
def product (width : ℕ) (m : KernelMemory) (i : ℕ) : ℕ :=
  m.values i * element width m (m.indices i)

theorem scalarStep_fst (width : ℕ) (m : KernelMemory) (s : ℕ × List Access) (i : ℕ) :
    (scalarStep width m s i).1 = s.1 + product width m i := by
  simp [scalarStep, load, product, element]

theorem foldl_scalarStep_fst (width : ℕ) (m : KernelMemory) (positions : List ℕ)
    (s : ℕ × List Access) :
    (positions.foldl (scalarStep width m) s).1
      = s.1 + (positions.map (product width m)).sum := by
  induction positions generalizing s with
  | nil => rfl
  | cons i positions ih =>
      rw [List.foldl_cons, ih, scalarStep_fst, List.map_cons, List.sum_cons, add_assoc]

theorem scalarRun_fst (width : ℕ) (m : KernelMemory) (len : ℕ) :
    (scalarRun width m len).1 = ((List.range len).map (product width m)).sum := by
  rw [scalarRun, foldl_scalarStep_fst, zero_add]

theorem leNat_append (bs cs : Bytes) : leNat (bs ++ cs) = leNat bs + 256 ^ bs.length * leNat cs := by
  induction bs with
  | nil => simp [leNat]
  | cons b bs ih =>
      rw [List.cons_append, leNat, leNat, ih, List.length_cons, pow_succ]
      ring

/-- The mask keeps the element that was meant. -/
theorem masked_word (k : GatherKernel) (m : KernelMemory) (term : ℕ) :
    leNat (load m.dense .dense (k.width * term) k.gatherBytes).1 % 256 ^ k.width
      = element k.width m term := by
  obtain ⟨extra, hextra⟩ := Nat.exists_eq_add_of_le k.gather_le
  show leNat ((List.range k.gatherBytes).map fun j => m.dense (k.width * term + j)) % _ = _
  have hlength : ((List.range k.width).map fun j => m.dense (k.width * term + j)).length
      = k.width := by rw [List.length_map, List.length_range]
  have hlt := leNat_lt ((List.range k.width).map fun j => m.dense (k.width * term + j))
  rw [hlength] at hlt
  rw [hextra, List.range_add, List.map_append, leNat_append, hlength, Nat.add_mul_mod_self_left,
    Nat.mod_eq_of_lt hlt, element]

theorem sum_modify {register : List ℕ} {lane : ℕ} (h : lane < register.length) (x : ℕ) :
    (register.modify lane (· + x)).sum = register.sum + x := by
  induction register generalizing lane with
  | nil => exact absurd h (Nat.not_lt_zero _)
  | cons a register ih =>
      cases lane with
      | zero =>
          rw [List.modify_zero_cons, List.sum_cons, List.sum_cons]
          omega
      | succ lane =>
          rw [List.modify_succ_cons, List.sum_cons, List.sum_cons,
            ih (Nat.lt_of_succ_lt_succ h), add_assoc]

/-- The lanes together hold every product that was added. -/
theorem accumulate_spec (k : GatherKernel) {register products : List ℕ}
    (hregister : register.length = k.accumulators) (hproducts : products.length ≤ k.lanes) :
    (k.accumulate register products).length = k.accumulators ∧
      (k.accumulate register products).sum = register.sum + products.sum := by
  have hlanes : ∀ entry ∈ products.zipIdx, k.accumulator entry.2 < k.accumulators := by
    intro entry hentry
    have hlt := List.snd_lt_add_of_mem_zipIdx hentry
    exact k.accumulator_lt _ (by omega)
  have hsum : products.sum = (products.zipIdx.map Prod.fst).sum := by
    rw [List.zipIdx_map_fst]
  rw [accumulate, hsum]
  clear hsum hproducts
  generalize products.zipIdx = entries at hlanes ⊢
  induction entries generalizing register with
  | nil => exact ⟨hregister, rfl⟩
  | cons entry entries ih =>
      obtain ⟨hentry, hentries⟩ := List.forall_mem_cons.mp hlanes
      have hstep : (register.modify (k.accumulator entry.2) (· + entry.1)).length
          = k.accumulators := by rw [List.length_modify, hregister]
      obtain ⟨hlength, htotal⟩ := ih hstep hentries
      refine ⟨hlength, ?_⟩
      rw [List.foldl_cons, htotal, sum_modify (by rw [hregister]; exact hentry), List.map_cons,
        List.sum_cons, add_assoc]

/-- A block adds its products to the register. -/
theorem blockStep_spec (k : GatherKernel) (m : KernelMemory) {s : List ℕ × List Access}
    (hregister : s.1.length = k.accumulators) (block : ℕ) :
    (k.blockStep m s block).1.length = k.accumulators ∧
      (k.blockStep m s block).1.sum = s.1.sum
        + ((List.range k.lanes).map fun j => product k.width m (k.lanes * block + j)).sum := by
  have htake : ∀ {A : Type} (array : ℕ → A) (name : KernelArray) (start count : ℕ),
      k.lanes ≤ count → (load array name start count).1.take k.lanes
        = (List.range k.lanes).map fun j => array (start + j) := by
    intro A array name start count hcount
    show ((List.range count).map fun j => array (start + j)).take k.lanes = _
    rw [← List.map_take, List.take_range, min_eq_left hcount]
  have hproducts : List.zipWith (· * ·)
        ((load m.values .values (k.lanes * block) k.valueLoad).1.take k.lanes)
        ((((load m.indices .indices (k.lanes * block) k.indexLoad).1.take k.lanes).map fun term =>
          load m.dense .dense (k.width * term) k.gatherBytes).map
            fun word => leNat word.1 % 256 ^ k.width)
      = (List.range k.lanes).map fun j => product k.width m (k.lanes * block + j) := by
    rw [htake _ _ _ _ k.value_le, htake _ _ _ _ k.index_le, List.map_map, List.map_map,
      List.zipWith_map, List.zipWith_self]
    refine List.map_congr_left fun j _ => ?_
    show m.values _ * (leNat (load m.dense .dense _ k.gatherBytes).1 % 256 ^ k.width) = _
    rw [masked_word, product]
  have hlength : ((List.range k.lanes).map fun j =>
      product k.width m (k.lanes * block + j)).length ≤ k.lanes := by
    rw [List.length_map, List.length_range]
  have hspec := k.accumulate_spec hregister hlength
  simp only [blockStep]
  rw [hproducts]
  exact hspec

theorem foldl_blockStep_spec (k : GatherKernel) (m : KernelMemory) (blocks : ℕ) :
    let s := (List.range blocks).foldl (k.blockStep m) (List.replicate k.accumulators 0, [])
    s.1.length = k.accumulators ∧
      s.1.sum = ((List.range (k.lanes * blocks)).map (product k.width m)).sum := by
  induction blocks with
  | zero => exact ⟨List.length_replicate, by simp⟩
  | succ blocks ih =>
      rw [List.range_succ, List.foldl_append]
      obtain ⟨hlength, hsum⟩ := k.blockStep_spec m ih.1 blocks
      refine ⟨hlength, hsum.trans ?_⟩
      rw [ih.2, Nat.mul_succ, List.range_add, List.map_append, List.sum_append, List.map_map]
      rfl

/-- **A vector kernel computes the scalar sum**, whatever lies past the arrays. -/
theorem vectorSum_eq (k : GatherKernel) (m : KernelMemory) (len : ℕ) :
    (k.run m len).1 = (scalarRun k.width m len).1 := by
  have hsplit : List.range len = List.range (k.lanes * (len / k.lanes))
      ++ List.range' (k.lanes * (len / k.lanes)) (len % k.lanes) := by
    rw [List.range'_eq_map_range, ← List.range_add, Nat.div_add_mod]
  rw [run, foldl_scalarStep_fst, scalarRun_fst, hsplit, List.map_append, List.sum_append,
    (k.foldl_blockStep_spec m _).2]

/-! ### What is read -/

/-- The reads of a block. -/
def blockReads (k : GatherKernel) (m : KernelMemory) (block : ℕ) : List Access :=
  (load m.indices .indices (k.lanes * block) k.indexLoad).2
    ++ (load m.values .values (k.lanes * block) k.valueLoad).2
    ++ ((List.range k.lanes).map fun j => m.indices (k.lanes * block + j)).flatMap fun term =>
      (load m.dense .dense (k.width * term) k.gatherBytes).2

/-- The reads of one element. -/
def scalarReads (width : ℕ) (m : KernelMemory) (i : ℕ) : List Access :=
  [(.indices, i), (.values, i)] ++ (load m.dense .dense (width * m.indices i) width).2

theorem foldl_reads {S : Type} {step : S × List Access → ℕ → S × List Access}
    {reads : ℕ → List Access} (h : ∀ s i, (step s i).2 = s.2 ++ reads i) (positions : List ℕ)
    (s : S × List Access) :
    (positions.foldl step s).2 = s.2 ++ positions.flatMap reads := by
  induction positions generalizing s with
  | nil => exact (List.append_nil _).symm
  | cons i positions ih =>
      rw [List.foldl_cons, ih, h, List.flatMap_cons, List.append_assoc]

theorem run_snd (k : GatherKernel) (m : KernelMemory) (len : ℕ) :
    (k.run m len).2 = (List.range (len / k.lanes)).flatMap (k.blockReads m)
      ++ (List.range' (k.lanes * (len / k.lanes)) (len % k.lanes)).flatMap
        (scalarReads k.width m) := by
  have hscalar : ∀ (s : ℕ × List Access) i,
      (scalarStep k.width m s i).2 = s.2 ++ scalarReads k.width m i := by
    intro s i
    simp [scalarStep, load, scalarReads]
  have hblock : ∀ (s : List ℕ × List Access) block,
      (k.blockStep m s block).2 = s.2 ++ k.blockReads m block := by
    intro s block
    have htake : (load m.indices .indices (k.lanes * block) k.indexLoad).1.take k.lanes
        = (List.range k.lanes).map fun j => m.indices (k.lanes * block + j) := by
      show ((List.range k.indexLoad).map fun j => m.indices (k.lanes * block + j)).take k.lanes = _
      rw [← List.map_take, List.take_range, min_eq_left k.index_le]
    simp only [blockStep]
    rw [htake, List.flatMap_map]
    rfl
  rw [run, foldl_reads hscalar, foldl_reads hblock, List.nil_append]

/-- Every read of a run is within the arrays. -/
def ReadsWithin (k : GatherKernel) (m : KernelMemory) (len dim : ℕ) : Prop :=
  ∀ access ∈ (k.run m len).2, Within k.width len dim access

instance (k : GatherKernel) (m : KernelMemory) (len dim : ℕ) : Decidable (k.ReadsWithin m len dim) :=
  inferInstanceAs (Decidable (∀ access ∈ (k.run m len).2, Within k.width len dim access))

theorem forall_load {A : Type} {array : ℕ → A} {name : KernelArray} {start count : ℕ}
    {P : Access → Prop} :
    (∀ access ∈ (load array name start count).2, P access) ↔ ∀ j < count, P (name, start + j) := by
  simp [load]

/-- Consecutive positions are below a bound when the last one is. -/
theorem forall_add_lt_iff {start count bound : ℕ} (h : count = 0 → start ≤ bound) :
    (∀ j < count, start + j < bound) ↔ start + count ≤ bound := by
  constructor
  · intro hall
    rcases count with - | count
    · exact h rfl
    · exact hall count (Nat.lt_succ_self _)
  · intro hle j hj
    omega

theorem blockReads_within_iff (k : GatherKernel) (m : KernelMemory) (len dim block : ℕ) :
    (∀ access ∈ k.blockReads m block, Within k.width len dim access) ↔
      k.lanes * block + k.indexLoad ≤ len ∧ k.lanes * block + k.valueLoad ≤ len ∧
        ∀ j < k.lanes, k.width * m.indices (k.lanes * block + j) + k.gatherBytes
          ≤ k.width * dim := by
  have hlanes := k.lanes_pos
  have hindex := k.index_le
  have hvalue := k.value_le
  have hgather := k.gather_le
  simp only [blockReads, List.forall_mem_append, forall_load, List.mem_flatMap, List.mem_map,
    List.mem_range]
  rw [and_assoc]
  refine and_congr (forall_add_lt_iff (by omega)) (and_congr (forall_add_lt_iff (by omega)) ?_)
  constructor
  · intro h j hj
    have hbytes := forall_load.mp fun access haccess =>
      h access ⟨_, ⟨j, hj, rfl⟩, haccess⟩
    refine (forall_add_lt_iff fun hzero => ?_).mp hbytes
    -- nothing is gathered for elements without bytes
    rw [show k.width = 0 by omega, Nat.zero_mul, Nat.zero_mul]
  · rintro h access ⟨_, ⟨j, hj, rfl⟩, haccess⟩
    refine forall_load.mpr (fun b hb => ?_) access haccess
    have hle := h j hj
    show _ + b < k.width * dim
    omega

theorem scalarReads_within {width len dim i : ℕ} {m : KernelMemory} (hi : i < len)
    (hterm : m.indices i < dim) : ∀ access ∈ scalarReads width m i, Within width len dim access := by
  simp only [scalarReads, List.forall_mem_append, List.forall_mem_cons, forall_load]
  refine ⟨⟨hi, hi, nofun⟩, fun j hj => ?_⟩
  calc width * m.indices i + j < width * m.indices i + width := Nat.add_lt_add_left hj _
    _ = width * (m.indices i + 1) := rfl
    _ ≤ width * dim := Nat.mul_le_mul_left _ hterm

/-- **The reads of a kernel are within the arrays** exactly when there is no full block, or the
registers of the last one end in time and no gather leaves the dense array. -/
theorem readsWithin_iff (k : GatherKernel) (m : KernelMemory) {len dim : ℕ}
    (hterms : ∀ i < len, m.indices i < dim) :
    k.ReadsWithin m len dim ↔
      len < k.lanes ∨
        k.indexLoad ≤ k.lanes + len % k.lanes ∧ k.valueLoad ≤ k.lanes + len % k.lanes ∧
          ∀ i < k.lanes * (len / k.lanes),
            k.width * m.indices i + k.gatherBytes ≤ k.width * dim := by
  have hpos := k.lanes_pos
  have hsplit := Nat.div_add_mod len k.lanes
  have htail : ∀ access ∈ (List.range' (k.lanes * (len / k.lanes)) (len % k.lanes)).flatMap
      (scalarReads k.width m), Within k.width len dim access := by
    intro access haccess
    obtain ⟨i, hi, hread⟩ := List.mem_flatMap.mp haccess
    have hlt : i < len := by
      have := (List.mem_range'_1.mp hi).2
      omega
    exact scalarReads_within hlt (hterms i hlt) access hread
  have hblocks : k.ReadsWithin m len dim ↔ ∀ block < len / k.lanes,
      ∀ access ∈ k.blockReads m block, Within k.width len dim access := by
    rw [ReadsWithin, run_snd, List.forall_mem_append, and_iff_left htail]
    simp only [List.mem_flatMap, List.mem_range]
    exact ⟨fun h block hblock access haccess => h access ⟨block, hblock, haccess⟩,
      fun h access ⟨block, hblock, haccess⟩ => h block hblock access haccess⟩
  rw [hblocks]
  simp only [blockReads_within_iff]
  constructor
  · intro h
    by_cases hlen : len < k.lanes
    · exact Or.inl hlen
    · -- the last block is the one that can read too far
      have hlast : len / k.lanes - 1 < len / k.lanes := by
        have := Nat.div_pos (not_lt.mp hlen) hpos
        omega
      have hstart : k.lanes * (len / k.lanes - 1) + k.lanes = k.lanes * (len / k.lanes) := by
        rw [← Nat.mul_succ]
        congr 1
        omega
      obtain ⟨hindex, hvalue, -⟩ := h _ hlast
      refine Or.inr ⟨by omega, by omega, fun i hi => ?_⟩
      have hi' := (h (i / k.lanes) (Nat.div_lt_of_lt_mul hi)).2.2 (i % k.lanes)
        (Nat.mod_lt _ hpos)
      rwa [Nat.div_add_mod] at hi'
  · rintro (hlen | ⟨hindex, hvalue, hgather⟩) block hblock
    · rw [Nat.div_eq_of_lt hlen] at hblock
      exact absurd hblock (Nat.not_lt_zero _)
    · have hend : k.lanes * block + k.lanes ≤ k.lanes * (len / k.lanes) := by
        rw [← Nat.mul_succ]
        exact Nat.mul_le_mul_left _ hblock
      exact ⟨by omega, by omega, fun j hj => hgather _ (by omega)⟩

/-- A kernel whose registers are wider than what it uses of them, by a block or more, stays within
the arrays only when there is no full block. -/
theorem readsWithin_iff_of_wide (k : GatherKernel) (m : KernelMemory) {len dim : ℕ}
    (hwide : k.lanes + k.lanes ≤ k.valueLoad) (hterms : ∀ i < len, m.indices i < dim) :
    k.ReadsWithin m len dim ↔ len < k.lanes := by
  rw [k.readsWithin_iff m hterms]
  refine or_iff_left fun h => ?_
  have hlt := Nat.mod_lt len k.lanes_pos
  exact absurd h.2.1 (by omega)

/-- A kernel that loads what it uses reads too far only by what it gathers. -/
theorem readsWithin_iff_of_exact (k : GatherKernel) (m : KernelMemory) {len dim : ℕ}
    (hindex : k.indexLoad = k.lanes) (hvalue : k.valueLoad = k.lanes)
    (hterms : ∀ i < len, m.indices i < dim) :
    k.ReadsWithin m len dim ↔ ∀ i < k.lanes * (len / k.lanes),
      k.width * m.indices i + k.gatherBytes ≤ k.width * dim := by
  rw [k.readsWithin_iff m hterms, hindex, hvalue]
  constructor
  · rintro (hlen | h) i hi
    · rw [Nat.div_eq_of_lt hlen] at hi
      exact absurd hi (Nat.not_lt_zero _)
    · exact h.2.2 i hi
  · intro h
    exact Or.inr ⟨Nat.le_add_right _ _, Nat.le_add_right _ _, h⟩

end GatherKernel

/-! ### The six kernels -/

/-- **The vectorised integer kernels** compute the scalar sum on every input; which of them stay
within the arrays depends on the length, on the largest terms and on the width of a register. -/
theorem gatherKernels_refine_iff (m : KernelMemory) (len dim : ℕ)
    (hterms : ∀ i < len, m.indices i < dim) :
    (∀ k : GatherKernel, (k.run m len).1 = (GatherKernel.scalarRun k.width m len).1) ∧
    (Avx512.dotProductUint16Dense.ReadsWithin m len dim ↔
      ∀ i < 16 * (len / 16), m.indices i + 1 < dim) ∧
    (Avx512.dotProductUint8Dense.ReadsWithin m len dim ↔
      ∀ i < 16 * (len / 16), m.indices i + 3 < dim) ∧
    Neon.dotProductUint16Dense.ReadsWithin m len dim ∧
    (Neon.dotProductUint8Dense.ReadsWithin m len dim ↔ len < 4) ∧
    ∀ vl (hvl : 0 < vl),
      ((Sve.dotProductUint16Dense vl hvl).ReadsWithin m len dim ↔ len < vl) ∧
      ((Sve.dotProductUint8Dense vl hvl).ReadsWithin m len dim ↔ len < vl) := by
  refine ⟨fun k => k.vectorSum_eq m len, ?_, ?_, ?_, ?_, fun vl hvl => ⟨?_, ?_⟩⟩
  · rw [Avx512.dotProductUint16Dense.readsWithin_iff_of_exact m rfl rfl hterms]
    show (∀ i < 16 * (len / 16), 2 * m.indices i + 4 ≤ 2 * dim) ↔ _
    exact forall₂_congr fun i _ => by omega
  · rw [Avx512.dotProductUint8Dense.readsWithin_iff_of_exact m rfl rfl hterms]
    show (∀ i < 16 * (len / 16), 1 * m.indices i + 4 ≤ 1 * dim) ↔ _
    exact forall₂_congr fun i _ => by omega
  · rw [Neon.dotProductUint16Dense.readsWithin_iff_of_exact m rfl rfl hterms]
    show ∀ i < 8 * (len / 8), 2 * m.indices i + 2 ≤ 2 * dim
    intro i hi
    have hlt := hterms i (by omega)
    omega
  · exact Neon.dotProductUint8Dense.readsWithin_iff_of_wide m (by decide) hterms
  · exact (Sve.dotProductUint16Dense vl hvl).readsWithin_iff_of_wide m
      (show vl + vl ≤ 2 * vl by omega) hterms
  · exact (Sve.dotProductUint8Dense vl hvl).readsWithin_iff_of_wide m
      (show vl + vl ≤ 4 * vl by omega) hterms

/-- Terms from 0 on, all with value 1. -/
def rampMemory : KernelMemory := ⟨fun i => i, fun _ => 1, fun _ => 1⟩

/-- Eighteen terms: one round of registers and a tail, which only some kernels read within the
arrays. -/
theorem gatherKernels_refine_iff_ramp :
    (∀ i < 18, rampMemory.indices i < 18) ∧
      (∀ k : GatherKernel, (k.run rampMemory 18).1
        = (GatherKernel.scalarRun k.width rampMemory 18).1) ∧
      Avx512.dotProductUint16Dense.ReadsWithin rampMemory 18 18 ∧
      ¬ Avx512.dotProductUint8Dense.ReadsWithin rampMemory 18 18 ∧
      ¬ Neon.dotProductUint8Dense.ReadsWithin rampMemory 18 18 := by
  obtain ⟨hsum, havx16, havx8, -, hneon8, -⟩ :=
    gatherKernels_refine_iff rampMemory 18 18 fun _ hi => hi
  refine ⟨fun _ hi => hi, hsum, havx16.mpr (show ∀ i < 16, i + 1 < 18 by decide), fun h => ?_,
    fun h => ?_⟩
  · exact absurd (havx8.mp h 15 (by decide)) (show ¬ 15 + 3 < 18 by decide)
  · exact absurd (hneon8.mp h) (by decide)

/-- Sixteen terms below 16: five of the six kernels read past an array. -/
theorem gatherKernels_read_past_the_end :
    (∀ i < 16, rampMemory.indices i < 16) ∧
    ¬ Avx512.dotProductUint16Dense.ReadsWithin rampMemory 16 16 ∧
    ¬ Avx512.dotProductUint8Dense.ReadsWithin rampMemory 16 16 ∧
    ¬ Neon.dotProductUint8Dense.ReadsWithin rampMemory 16 16 ∧
    ¬ (Sve.dotProductUint16Dense 4 (by decide)).ReadsWithin rampMemory 16 16 ∧
    ¬ (Sve.dotProductUint8Dense 4 (by decide)).ReadsWithin rampMemory 16 16 := by
  refine ⟨fun _ hi => hi, ?_⟩
  decide +kernel

end Nsparse
