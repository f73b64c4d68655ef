/-
Nsparse/ArgmaxKernels.lean

The vectorised argmax against the scalar one.

`argmax_simd` keeps one maximum for each lane of a register, reduces the lanes in lane
order and walks over the tail at the end.  Every one of these steps takes the later of
two candidates only when its value is larger (`better`), and this operation is
associative, so the whole kernel is one walk over the positions in another order
(`argmaxLanes_eq`): lane by lane, the lowest position of a lane first, the tail last.

It returns the first position of that order with the maximum.  So it agrees with
`argmax_scalar` where the lowest such position comes first in both orders, and where a
32-bit lane can hold it (`argmaxSimd_iff`).
-/
import Nsparse.Values
import Mathlib.Data.List.GetD

namespace Nsparse

variable {F : Type} [LinearOrder F]

/-! ### The first best candidate -/

/-- `values[i] > max_val` moves on to the later candidate. -/
def better (best candidate : F × ℕ) : F × ℕ := if best.1 < candidate.1 then candidate else best

theorem better_assoc (a b c : F × ℕ) : better (better a b) c = better a (better b c) := by
  unfold better
  by_cases hab : a.1 < b.1
  · by_cases hbc : b.1 < c.1
    · simp [hab, hbc, hab.trans hbc]
    · simp [hab, hbc]
  · by_cases hbc : b.1 < c.1
    · simp [hab, hbc]
    · have hac : ¬ a.1 < c.1 := not_lt.mpr ((not_lt.mp hbc).trans (not_lt.mp hab))
      simp [hab, hbc, hac]

instance : Std.Associative (better : F × ℕ → F × ℕ → F × ℕ) := ⟨better_assoc⟩

/-- What beats every candidate before it, and is not beaten by one after it. -/
def FirstBest (candidates : List (F × ℕ)) (best : F × ℕ) : Prop :=
  ∃ before after, candidates = before ++ best :: after ∧
    (∀ x ∈ before, x.1 < best.1) ∧ ∀ x ∈ after, x.1 ≤ best.1

theorem firstBest_foldl (first : F × ℕ) (rest : List (F × ℕ)) :
    FirstBest (first :: rest) (rest.foldl better first) := by
  induction rest generalizing first with
  | nil => exact ⟨[], [], rfl, nofun, nofun⟩
  | cons next rest ih =>
      rw [List.foldl_cons]
      obtain ⟨before, after, hlist, hbefore, hafter⟩ := ih (better first next)
      by_cases hlt : first.1 < next.1
      · rw [better, if_pos hlt] at hlist hbefore hafter ⊢
        refine ⟨first :: before, after, by rw [hlist, List.cons_append], ?_, hafter⟩
        intro x hx
        rcases List.mem_cons.mp hx with rfl | hx
        · -- the next candidate comes before the best one, or is it
          have hnext : next ∈ before ++ (rest.foldl better next) :: after :=
            hlist ▸ List.mem_cons_self
          rcases List.mem_append.mp hnext with hmem | hmem
          · exact hlt.trans (hbefore next hmem)
          · rcases List.mem_cons.mp hmem with heq | hmem
            · exact heq ▸ hlt
            · exact hlt.trans_le (hafter next hmem)
        · exact hbefore x hx
      · rw [better, if_neg hlt] at hlist hbefore hafter ⊢
        generalize rest.foldl better first = best at hlist hbefore hafter ⊢
        rcases before with - | ⟨b, before⟩
        · obtain ⟨hfirst, hrest⟩ := List.cons.inj hlist
          refine ⟨[], next :: after, by rw [hrest, hfirst]; rfl, nofun, ?_⟩
          intro x hx
          rcases List.mem_cons.mp hx with rfl | hx
          · rw [← hfirst]
            exact not_lt.mp hlt
          · exact hafter x hx
        · obtain ⟨hfirst, hrest⟩ := List.cons.inj hlist
          refine ⟨b :: next :: before, after, by rw [hrest, hfirst]; rfl, ?_, hafter⟩
          intro x hx
          have hb := hbefore b List.mem_cons_self
          rcases List.mem_cons.mp hx with rfl | hx
          · exact hb
          · rcases List.mem_cons.mp hx with rfl | hx
            · rw [hfirst] at hlt
              exact (not_lt.mp hlt).trans_lt hb
            · exact hbefore x (List.mem_cons_of_mem _ hx)

/-- The first best of candidates that name their positions, read off the positions. -/
theorem FirstBest.of_positions {positions : List ℕ} {f : ℕ → F × ℕ} {best : F × ℕ}
    (h : FirstBest (positions.map f) best) :
    ∃ q before after, positions = before ++ q :: after ∧ best = f q ∧
      (∀ i ∈ before, (f i).1 < (f q).1) ∧ ∀ i ∈ positions, (f i).1 ≤ (f q).1 := by
  obtain ⟨before, after, hlist, hbefore, hafter⟩ := h
  obtain ⟨before', rest, rfl, rfl, hrest⟩ := List.map_eq_append_iff.mp hlist
  obtain ⟨q, after', rfl, rfl, rfl⟩ := List.map_eq_cons_iff.mp hrest
  have hlow : ∀ i ∈ before', (f i).1 < (f q).1 := fun i hi =>
    hbefore _ (List.mem_map_of_mem hi)
  refine ⟨q, before', after', rfl, rfl, hlow, fun i hi => ?_⟩
  rcases List.mem_append.mp hi with hi | hi
  · exact (hlow i hi).le
  · rcases List.mem_cons.mp hi with rfl | hi
    · exact le_rfl
    · exact hafter _ (List.mem_map_of_mem hi)

theorem range_eq_cons {n : ℕ} (hn : n ≠ 0) : List.range n = 0 :: List.range' 1 (n - 1) := by
  obtain ⟨m, rfl⟩ := Nat.exists_eq_succ_of_ne_zero hn
  rw [List.range_eq_range', List.range'_succ]
  rfl

/-! ### The scalar kernel -/

variable [Zero F]

/-- A value and where it is. -/
def candidateAt (values : List F) (i : ℕ) : F × ℕ := (values.getD i 0, i)

/-- `argmax_scalar`. -/
def argmaxScalar (values : List F) : ℕ :=
  if values = [] then 0
  else
    (((List.range' 1 (values.length - 1)).map (candidateAt values)).foldl better
      (candidateAt values 0)).2

/-- `p` is the lowest position of the maximum. -/
structure IsFirstMax (values : List F) (p : ℕ) : Prop where
  lt : p < values.length
  max : ∀ i < values.length, values.getD i 0 ≤ values.getD p 0
  first : ∀ i < p, values.getD i 0 < values.getD p 0

theorem IsFirstMax.le {values : List F} {p q : ℕ} (h : IsFirstMax values p)
    (hq : values.getD q 0 = values.getD p 0) : p ≤ q := by
  by_contra hlt
  exact absurd hq (h.first q (not_le.mp hlt)).ne

theorem IsFirstMax.unique {values : List F} {p q : ℕ} (h : IsFirstMax values p)
    (h' : IsFirstMax values q) : p = q := by
  have heq : values.getD q 0 = values.getD p 0 := le_antisymm (h.max q h'.lt) (h'.max p h.lt)
  exact le_antisymm (h.le heq) (h'.le heq.symm)

/-- **The scalar kernel** finds the lowest position of the maximum. -/
theorem argmaxScalar_isFirstMax {values : List F} (hne : values ≠ []) :
    IsFirstMax values (argmaxScalar values) := by
  have hlength : values.length ≠ 0 := fun h => hne (List.length_eq_zero_iff.mp h)
  have hbest := firstBest_foldl (candidateAt values 0)
    ((List.range' 1 (values.length - 1)).map (candidateAt values))
  rw [← List.map_cons, ← range_eq_cons hlength] at hbest
  obtain ⟨q, before, after, hlist, hq, hbefore, hmax⟩ := hbest.of_positions
  have hresult : argmaxScalar values = q := by rw [argmaxScalar, if_neg hne, hq]; rfl
  rw [hresult]
  -- the positions before `q` are the lower ones
  have hsorted : (before ++ q :: after).Pairwise (· < ·) := hlist ▸ List.pairwise_lt_range
  have hmem : q ∈ List.range values.length := by
    rw [hlist]
    exact List.mem_append_right _ List.mem_cons_self
  refine ⟨List.mem_range.mp hmem, fun i hi => hmax i (List.mem_range.mpr hi), fun i hi => ?_⟩
  have hi' : i ∈ before ++ q :: after := by
    rw [← hlist]
    exact List.mem_range.mpr (hi.trans (List.mem_range.mp hmem))
  apply hbefore
  rcases List.mem_append.mp hi' with h | h
  · exact h
  · rcases List.mem_cons.mp h with rfl | h
    · exact absurd hi (lt_irrefl _)
    · have hlt := (List.pairwise_append.mp hsorted).2.1
      exact absurd hi (not_lt.mpr ((List.pairwise_cons.mp hlt).1 i h).le)

/-! ### The vector kernels -/

/-- `size_t` of an index in an `int` lane. -/
def signedLane (i : ℕ) : ℕ :=
  if i % 2 ^ 32 < 2 ^ 31 then i % 2 ^ 32 else i % 2 ^ 32 + (2 ^ 64 - 2 ^ 32)

/-- `size_t` of an index in a `uint32_t` lane. -/
def unsignedLane (i : ℕ) : ℕ := i % 2 ^ 32

/-- What the instruction sets differ in: the floats of a register, and the type of an index lane,
which never moves an index to another lane. -/
structure VectorIsa where
  lanes : ℕ
  readIndex : ℕ → ℕ
  pos : 0 < lanes
  readIndex_mod : ∀ i, readIndex i % lanes = i % lanes

/-- An `int` lane gives back the indices below `2 ^ 31`; no vector has `2 ^ 63` values. -/
theorem signedLane_eq_self_iff {i : ℕ} (hi : i < 2 ^ 63) : signedLane i = i ↔ i < 2 ^ 31 := by
  unfold signedLane
  split <;> omega

theorem unsignedLane_eq_self_iff {i : ℕ} : unsignedLane i = i ↔ i < 2 ^ 32 := by
  unfold unsignedLane
  omega

theorem avx2_lanes_pos : 0 < 8 := by decide

theorem avx512_lanes_pos : 0 < 16 := by decide

theorem neon_lanes_pos : 0 < 4 := by decide

def avx2 : VectorIsa :=
  ⟨8, signedLane, avx2_lanes_pos, fun i => by unfold signedLane; split <;> omega⟩

def avx512 : VectorIsa :=
  ⟨16, signedLane, avx512_lanes_pos, fun i => by unfold signedLane; split <;> omega⟩

def neon : VectorIsa :=
  ⟨4, unsignedLane, neon_lanes_pos, fun i => by unfold unsignedLane; omega⟩

/-- The values from `lanes * block` on, with their indices. -/
def loadBlock (isa : VectorIsa) (values : List F) (block : ℕ) : List (F × ℕ) :=
  (List.range isa.lanes).map fun lane => candidateAt values (isa.lanes * block + lane)

/-- A lane, stored to `max_vals` and `indices`. -/
def storeLane (isa : VectorIsa) (lane : F × ℕ) : F × ℕ := (lane.1, isa.readIndex lane.2)

/-- `argmax_simd`. -/
def argmaxSimd (isa : VectorIsa) (values : List F) : ℕ :=
  if values = [] then 0
  else if values.length < isa.lanes then argmaxScalar values
  else
    let blocks := values.length / isa.lanes
    let register := (List.range' 1 (blocks - 1)).foldl
      (fun register block => List.zipWith better register (loadBlock isa values block))
      (loadBlock isa values 0)
    let stored := register.map (storeLane isa)
    let final := stored.tail.foldl better (stored.headD (0, 0))
    (((List.range' (isa.lanes * blocks) (values.length % isa.lanes)).map
      (candidateAt values)).foldl better final).2

/-! ### One walk in another order -/

omit [Zero F] in
/-- A register of running maxima holds, in each lane, the run of that lane. -/
theorem foldl_zipWith_better (f : ℕ → ℕ → F × ℕ) (lanes blocks : List ℕ) (start : ℕ → F × ℕ) :
    blocks.foldl (fun register block => List.zipWith better register (lanes.map (f block)))
        (lanes.map start)
      = lanes.map fun lane => (blocks.map fun block => f block lane).foldl better (start lane) := by
  induction blocks generalizing start with
  | nil => rfl
  | cons block blocks ih =>
      rw [List.foldl_cons, List.zipWith_map, List.zipWith_self, ih]
      rfl

omit [Zero F] in
/-- Running maxima of runs are the running maximum of the runs one after the other. -/
theorem foldl_better_flatMap (head : ℕ → F × ℕ) (rest : ℕ → List (F × ℕ)) (lanes : List ℕ)
    (first : F × ℕ) :
    (lanes.map fun lane => (rest lane).foldl better (head lane)).foldl better first
      = (lanes.flatMap fun lane => head lane :: rest lane).foldl better first := by
  induction lanes generalizing first with
  | nil => rfl
  | cons lane lanes ih =>
      have hlane : better first ((rest lane).foldl better (head lane))
          = (rest lane).foldl better (better first (head lane)) := List.foldl_assoc.symm
      rw [List.map_cons, List.foldl_cons, ih, List.flatMap_cons, List.foldl_append,
        List.foldl_cons, hlane]

omit [Zero F] in
theorem foldl_better_storeLane (isa : VectorIsa) (first : F × ℕ) (rest : List (F × ℕ)) :
    storeLane isa (rest.foldl better first)
      = (rest.map (storeLane isa)).foldl better (storeLane isa first) := by
  induction rest generalizing first with
  | nil => rfl
  | cons next rest ih =>
      rw [List.foldl_cons, ih, List.map_cons, List.foldl_cons]
      congr 1
      show storeLane isa (if first.1 < next.1 then next else first)
        = if first.1 < next.1 then storeLane isa next else storeLane isa first
      split <;> rfl

/-- The positions of the full blocks, lane by lane. -/
def lanePositions (lanes blocks : ℕ) : List ℕ :=
  (List.range lanes).flatMap fun lane => (List.range blocks).map fun block => lanes * block + lane

theorem mem_lanePositions {lanes blocks i : ℕ} :
    i ∈ lanePositions lanes blocks ↔ i < lanes * blocks := by
  simp only [lanePositions, List.mem_flatMap, List.mem_map, List.mem_range]
  constructor
  · rintro ⟨lane, hlane, block, hblock, rfl⟩
    calc lanes * block + lane < lanes * block + lanes := Nat.add_lt_add_left hlane _
      _ = lanes * (block + 1) := rfl
      _ ≤ lanes * blocks := Nat.mul_le_mul_left _ hblock
  · intro hi
    have hpos : 0 < lanes := Nat.pos_of_mul_pos_right ((Nat.zero_le _).trans_lt hi)
    exact ⟨i % lanes, Nat.mod_lt _ hpos, i / lanes, Nat.div_lt_of_lt_mul hi,
      Nat.div_add_mod _ _⟩

/-- Within a lane the positions increase, and the lanes come in order. -/
theorem pairwise_lanePositions (lanes blocks : ℕ) :
    (lanePositions lanes blocks).Pairwise fun i k =>
      i % lanes < k % lanes ∨ i % lanes = k % lanes ∧ i < k := by
  have hmod : ∀ block lane, lane < lanes → (lanes * block + lane) % lanes = lane := by
    intro block lane hlane
    rw [Nat.mul_add_mod, Nat.mod_eq_of_lt hlane]
  refine List.pairwise_flatMap.mpr ⟨fun lane hlane => ?_, ?_⟩
  · refine List.pairwise_map.mpr (List.pairwise_lt_range.imp fun {b c} hlt => Or.inr ⟨?_, ?_⟩)
    · rw [Nat.mul_add_mod, Nat.mul_add_mod]
    · have hpos : 0 < lanes := (Nat.zero_le _).trans_lt (List.mem_range.mp hlane)
      exact Nat.add_lt_add_right (Nat.mul_lt_mul_of_pos_left hlt hpos) _
  · refine List.pairwise_lt_range.imp_of_mem fun {lane lane'} hlane hlane' hlt => ?_
    intro i hi k hk
    obtain ⟨b, -, rfl⟩ := List.mem_map.mp hi
    obtain ⟨c, -, rfl⟩ := List.mem_map.mp hk
    rw [hmod b lane (List.mem_range.mp hlane), hmod c lane' (List.mem_range.mp hlane')]
    exact Or.inl hlt

/-- All positions, in the order of the kernel. -/
def kernelPositions (isa : VectorIsa) (size : ℕ) : List ℕ :=
  lanePositions isa.lanes (size / isa.lanes)
    ++ List.range' (isa.lanes * (size / isa.lanes)) (size % isa.lanes)

theorem mem_kernelPositions {isa : VectorIsa} {size i : ℕ} :
    i ∈ kernelPositions isa size ↔ i < size := by
  have hsplit := Nat.div_add_mod size isa.lanes
  rw [kernelPositions, List.mem_append, mem_lanePositions, List.mem_range'_1]
  omega

/-- `i` comes before `k`: it is in a full block and `k` in the tail, or it is lower in the tail, or
it comes first in lane order. -/
def EarlierThan (lanes full i k : ℕ) : Prop :=
  i < full ∧ full ≤ k ∨ full ≤ i ∧ i < k ∨
    i < full ∧ k < full ∧ (i % lanes < k % lanes ∨ i % lanes = k % lanes ∧ i < k)

theorem pairwise_kernelPositions (isa : VectorIsa) (size : ℕ) :
    (kernelPositions isa size).Pairwise
      (EarlierThan isa.lanes (isa.lanes * (size / isa.lanes))) := by
  refine List.pairwise_append.mpr ⟨?_, ?_, ?_⟩
  · refine (pairwise_lanePositions _ _).imp_of_mem fun hi hk hlane => ?_
    exact Or.inr (Or.inr ⟨mem_lanePositions.mp hi, mem_lanePositions.mp hk, hlane⟩)
  · refine (List.pairwise_lt_range' ..).imp_of_mem fun hi _ hlt => ?_
    exact Or.inr (Or.inl ⟨(List.mem_range'_1.mp hi).1, hlt⟩)
  · intro i hi k hk
    exact Or.inl ⟨mem_lanePositions.mp hi, (List.mem_range'_1.mp hk).1⟩

/-- What the kernel compares at a position: the index of a full block passes through a lane. -/
def kernelCandidate (isa : VectorIsa) (values : List F) (i : ℕ) : F × ℕ :=
  if i < isa.lanes * (values.length / isa.lanes) then storeLane isa (candidateAt values i)
  else candidateAt values i

omit [LinearOrder F] in
theorem kernelCandidate_fst (isa : VectorIsa) (values : List F) (i : ℕ) :
    (kernelCandidate isa values i).1 = values.getD i 0 := by
  unfold kernelCandidate
  split <;> rfl

/-- **The kernel is one walk** over all positions, lane by lane and then the tail. -/
theorem argmaxSimd_eq (isa : VectorIsa) {values : List F} (hsize : isa.lanes ≤ values.length) :
    ∃ best, argmaxSimd isa values = best.2 ∧
      FirstBest ((kernelPositions isa values.length).map (kernelCandidate isa values)) best := by
  have hne : values ≠ [] := by
    rintro rfl
    exact absurd isa.pos (not_lt.mpr hsize)
  have hblocks : values.length / isa.lanes ≠ 0 := (Nat.div_pos hsize isa.pos).ne'
  set blocks := values.length / isa.lanes with hblocksdef
  -- what a lane starts from, and what it sees after that
  let stored : ℕ → F × ℕ := fun i => storeLane isa (candidateAt values i)
  let head : ℕ → F × ℕ := fun lane => stored (isa.lanes * 0 + lane)
  let rest : ℕ → List (F × ℕ) := fun lane =>
    (List.range' 1 (blocks - 1)).map fun block => stored (isa.lanes * block + lane)
  let tail := (List.range' (isa.lanes * blocks) (values.length % isa.lanes)).map
    (candidateAt values)
  have hregister : ((List.range' 1 (blocks - 1)).foldl
        (fun register block => List.zipWith better register (loadBlock isa values block))
        (loadBlock isa values 0)).map (storeLane isa)
      = (List.range isa.lanes).map fun lane => (rest lane).foldl better (head lane) := by
    simp only [loadBlock]
    rw [foldl_zipWith_better (fun block lane => candidateAt values (isa.lanes * block + lane)),
      List.map_map]
    refine List.map_congr_left fun lane _ => ?_
    show storeLane isa _ = _
    rw [foldl_better_storeLane, List.map_map]
    rfl
  have hrange : List.range isa.lanes = 0 :: List.range' 1 (isa.lanes - 1) :=
    range_eq_cons isa.pos.ne'
  let others := (List.range' 1 (isa.lanes - 1)).flatMap fun lane => head lane :: rest lane
  refine ⟨(rest 0 ++ (others ++ tail)).foldl better (head 0), ?_, ?_⟩
  · rw [argmaxSimd, if_neg hne, if_neg (not_lt.mpr hsize)]
    simp only [← hblocksdef]
    rw [hregister, hrange]
    simp only [List.map_cons, List.tail_cons, List.headD_cons]
    rw [foldl_better_flatMap, List.foldl_append, List.foldl_append]
  · have hlist : (kernelPositions isa values.length).map (kernelCandidate isa values)
        = head 0 :: (rest 0 ++ (others ++ tail)) := by
      have hfull : (lanePositions isa.lanes blocks).map (kernelCandidate isa values)
          = head 0 :: (rest 0 ++ others) := by
        have hstored : (lanePositions isa.lanes blocks).map (kernelCandidate isa values)
            = (lanePositions isa.lanes blocks).map stored :=
          List.map_congr_left fun i hi => if_pos (mem_lanePositions.mp hi)
        rw [hstored, lanePositions, List.map_flatMap, hrange, range_eq_cons hblocks]
        simp only [List.flatMap_cons, List.map_cons, List.map_map, List.cons_append]
        rfl
      have htail : (List.range' (isa.lanes * blocks) (values.length % isa.lanes)).map
          (kernelCandidate isa values) = tail :=
        List.map_congr_left fun i hi =>
          if_neg (not_lt.mpr (List.mem_range'_1.mp hi).1)
      rw [kernelPositions, List.map_append, hfull, htail, List.cons_append, List.append_assoc]
    rw [hlist]
    exact firstBest_foldl _ _

/-! ### Agreement -/

/-- The lowest position of the maximum is the one a vector kernel comes to: by the scalar code,
in the tail, or in the first lane that has the maximum, whose index is read back. -/
def LaneOrderAgrees (isa : VectorIsa) (values : List F) (p : ℕ) : Prop :=
  let full := isa.lanes * (values.length / isa.lanes)
  values.length < isa.lanes ∨ full ≤ p ∨
    (∀ i < full, values.getD i 0 = values.getD p 0 → p % isa.lanes ≤ i % isa.lanes) ∧
      isa.readIndex p = p

/-- **A vector kernel agrees with the scalar one** exactly when the lowest position of the maximum
comes first in lane order. -/
theorem argmaxSimd_iff (isa : VectorIsa) (values : List F) (hne : values ≠ []) :
    ∃ p, IsFirstMax values p ∧ argmaxScalar values = p ∧
      (argmaxSimd isa values = argmaxScalar values ↔ LaneOrderAgrees isa values p) := by
  have hp := argmaxScalar_isFirstMax hne
  refine ⟨argmaxScalar values, hp, rfl, ?_⟩
  set p := argmaxScalar values with hpdef
  by_cases hsmall : values.length < isa.lanes
  · refine ⟨fun _ => Or.inl hsmall, fun _ => ?_⟩
    rw [argmaxSimd, if_neg hne, if_pos hsmall]
  obtain ⟨best, hresult, hbest⟩ := argmaxSimd_eq isa (not_lt.mp hsmall)
  obtain ⟨q, before, after, hlist, rfl, hbefore, hmax⟩ := hbest.of_positions
  simp only [kernelCandidate_fst] at hbefore hmax
  rw [hresult, LaneOrderAgrees]
  set full := isa.lanes * (values.length / isa.lanes) with hfull
  -- `q` has the maximum, and comes before every other position that has it
  have hqmem : q < values.length := by
    apply mem_kernelPositions.mp
    rw [hlist]
    exact List.mem_append_right _ List.mem_cons_self
  have hqp : values.getD q 0 = values.getD p 0 :=
    le_antisymm (hp.max q hqmem) (hmax p (mem_kernelPositions.mpr hp.lt))
  have hpq : p ≤ q := hp.le hqp
  have hearlier : ∀ k < values.length, values.getD k 0 = values.getD p 0 →
      k = q ∨ EarlierThan isa.lanes full q k := by
    intro k hk hkp
    have hmem : k ∈ before ++ q :: after := hlist ▸ mem_kernelPositions.mpr hk
    have hsorted := pairwise_kernelPositions isa values.length
    rw [hlist] at hsorted
    rcases List.mem_append.mp hmem with h | h
    · exact absurd (hkp.trans hqp.symm) (hbefore k h).ne
    · rcases List.mem_cons.mp h with h | h
      · exact Or.inl h
      · exact Or.inr ((List.pairwise_cons.mp (List.pairwise_append.mp hsorted).2.1).1 k h)
  have hfirst := hearlier p hp.lt rfl
  by_cases htail : full ≤ p
  · -- the tail is walked in order
    have hq : q = p := by
      rcases hfirst with h | h | h | h <;> omega
    refine iff_of_true ?_ (Or.inr (Or.inl htail))
    rw [hq, kernelCandidate, if_neg (not_lt.mpr htail)]
    rfl
  · have hqfull : q < full := by
      rcases hfirst with h | h | h | h <;> omega
    rw [kernelCandidate, if_pos hqfull]
    show isa.readIndex q = p ↔ _
    constructor
    · intro hread
      have hlane : q % isa.lanes = p % isa.lanes := by rw [← hread, isa.readIndex_mod]
      have hq : q = p := by
        rcases hfirst with h | h | h | h <;> omega
      subst hq
      refine Or.inr (Or.inr ⟨fun i hi hip => ?_, hread⟩)
      have hle : full ≤ values.length := Nat.mul_div_le _ _
      rcases hearlier i (hi.trans_le hle) hip with h | h | h | h
      · rw [h]
      all_goals omega
    · rintro (h | h | ⟨hlow, hread⟩)
      · exact absurd h hsmall
      · exact absurd h htail
      · have hlane := hlow q hqfull hqp
        have hq : q = p := by
          rcases hfirst with h | h | h | h <;> omega
        rw [hq, hread]

theorem argmaxSimd_iff_six_values :
    ∃ p, IsFirstMax [(1 : ℤ), 4, 2, 4, 4, 0] p ∧ argmaxScalar [(1 : ℤ), 4, 2, 4, 4, 0] = p ∧
      (argmaxSimd neon [(1 : ℤ), 4, 2, 4, 4, 0] = argmaxScalar [(1 : ℤ), 4, 2, 4, 4, 0] ↔
        LaneOrderAgrees neon [(1 : ℤ), 4, 2, 4, 4, 0] p) :=
  argmaxSimd_iff neon [(1 : ℤ), 4, 2, 4, 4, 0] (by decide)

/-- The maximum at position 1, and again in lane 0 of the second block. -/
def laterInFirstLane (lanes : ℕ) : List ℤ :=
  (List.range (2 * lanes)).map fun i => if i = 1 ∨ i = lanes then 1 else 0

/-- The first lane wins, with the higher position. -/
theorem argmaxSimd_takes_first_lane :
    (argmaxSimd avx2 (laterInFirstLane 8) = 8 ∧ argmaxScalar (laterInFirstLane 8) = 1) ∧
    (argmaxSimd avx512 (laterInFirstLane 16) = 16 ∧ argmaxScalar (laterInFirstLane 16) = 1) ∧
    (argmaxSimd neon (laterInFirstLane 4) = 4 ∧ argmaxScalar (laterInFirstLane 4) = 1) := by
  decide +kernel

end Nsparse
