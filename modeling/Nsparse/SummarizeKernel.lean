/-
Nsparse/SummarizeKernel.lean

The max-pool kernel of the GPU, thread by thread.

A block owns a cluster.  Its threads share the documents out and race for three things:
the maximum of a term in `acc`, its flag in `seen`, and the cursor of the output.  Here
every access to memory is a step of its own, and the threads of all blocks interleave
as they like between the barriers.

All blocks work on the same buffers, at addresses that are computed.  A block sees of
them what is at the addresses it computes (`view`), and there it is a `KeyedPool`
(`view_kernelStep`).  As no address is computed by two blocks, a step of one is not seen
by another (`OnlyIn.view_eq`), and the outline of the pool is one of the whole grid
(`kernel_outline`).
-/
import Nsparse.GpuAssigner
import Nsparse.GpuSummarizer
import Nsparse.SummarySpec
import Nsparse.Lib.KeyedPool

namespace Nsparse

open KeyedPool (Thread strided)

/-! ### The launch -/

/-- A launch of `summarize_list_kernel` for a call: its store is on the device, its documents are rows
of it, and what is passed as an `int` fits. -/
structure PoolLaunch where
  call : SummarizeCall
  store : HostCorpus
  vectors : store.vectors = call.vectors
  corpus : DeviceCorpus
  shows : corpus.Shows store
  width : call.vectors.elementSize = U32 ∨ call.vectors.elementSize = U8
  docs : ∀ d ∈ call.docs, 0 ≤ d ∧ d.toNat < call.vectors.numVectors
  dim_lt : call.vectors.dimension < 2 ^ 31
  grid_lt : call.nClusters < 2 ^ 31
  nnz_lt : call.totalNnz < 2 ^ 31
  blockDim : ℕ
  blockDim_pos : 0 < blockDim

/-- What the kernel reads and writes; the last two are shared by the threads of a block. -/
structure PoolMemory (F : Type) where
  acc : ℕ → ℤ
  seen : ℕ → ℤ
  outTerm : ℕ → ℕ
  outVal : ℕ → F
  outCount : ℕ → ℕ
  outSum : ℕ → F
  sCount : ℕ → ℕ
  sSum : ℕ → F

variable {F : Type}

/-- `acc` and `seen` are zero. -/
def PoolMemory.Clean (m : PoolMemory F) : Prop := ∀ p, m.acc p = 0 ∧ m.seen p = 0

/-- `__int_as_float`, or the code as a float. -/
def readMax (F : Type) [FloatFormat F] (elementSize : ℕ) (word : ℤ) : F :=
  if elementSize = U32 then ofWord F word else FloatFormat.ofInt word

namespace PoolLaunch

variable (launch : PoolLaunch)

def dim : ℕ := launch.call.vectors.dimension

/-- `base + term`. -/
def slot (b term : ℕ) : ℕ := b * launch.dim + term

/-- `out_base[b]`. -/
def obase (b : ℕ) : ℕ := launch.call.outBase.getD b 0

/-- The entries of the documents that thread `i` of block `b` loops over. -/
def entries (b i : ℕ) : List (ℕ × ℤ) :=
  launch.corpus.entriesOf (strided launch.blockDim i (launch.call.clusterDocs b))

variable [Zero F] [Add F] [FloatFormat F]

/-- One step of a thread of block `b`. -/
def kernelStep (b : ℕ) (m : PoolMemory F) :
    Thread ℕ ℤ F → Option (PoolMemory F × Thread ℕ ℤ F)
  | .wait => none
  | .zeroCount => some ({ m with sCount := Function.update m.sCount b 0 }, .wait)
  | .fill (.raise []) => none
  -- `atomicMax(&acc[base + term], v)`
  | .fill (.raise (entry :: left)) =>
      let slot := launch.slot b entry.1
      some ({ m with acc := Function.update m.acc slot (max (m.acc slot) entry.2) },
        .fill (.touch entry.1 left))
  -- `atomicCAS(&seen[base + term], 0, 1) == 0`
  | .fill (.touch term left) =>
      let slot := launch.slot b term
      if m.seen slot = 0 then
        some ({ m with seen := Function.update m.seen slot 1 }, .fill (.claim term left))
      else some (m, .fill (.raise left))
  -- `atomicAdd(&s_count, 1)`
  | .fill (.claim term left) =>
      some ({ m with sCount := Function.update m.sCount b (m.sCount b + 1) },
        .fill (.write (m.sCount b) term left))
  | .fill (.write k term left) =>
      some ({ m with outTerm := Function.update m.outTerm (launch.obase b + k) term },
        .fill (.raise left))
  | .zeroSum => some ({ m with sSum := Function.update m.sSum b 0 }, .storeCount)
  | .storeCount => some ({ m with outCount := Function.update m.outCount b (m.sCount b) }, .wait)
  | .drain (.fetch []) => none
  | .drain (.fetch (k :: left)) =>
      some (m, .drain (.read k (m.outTerm (launch.obase b + k)) left))
  | .drain (.read k term left) =>
      let v := readMax F launch.corpus.elementSize (m.acc (launch.slot b term))
      some (m, .drain (.emit k term v left))
  | .drain (.emit k term v left) =>
      some ({ m with outVal := Function.update m.outVal (launch.obase b + k) v },
        .drain (.add k term v left))
  -- `atomicAdd(&s_sum, v)`
  | .drain (.add k term v left) =>
      some ({ m with sSum := Function.update m.sSum b (m.sSum b + v) }, .drain (.clear k term left))
  | .drain (.clear k term left) =>
      some ({ m with acc := Function.update m.acc (launch.slot b term) 0 },
        .drain (.lower k term left))
  | .drain (.lower _ term left) =>
      some ({ m with seen := Function.update m.seen (launch.slot b term) 0 },
        .drain (.fetch left))
  | .storeSum => some ({ m with outSum := Function.update m.outSum b (m.sSum b) }, .wait)

theorem kernelStep_shrinks {b : ℕ} {m m' : PoolMemory F} {t t' : Thread ℕ ℤ F}
    (h : launch.kernelStep b m t = some (m', t')) : t'.size < t.size := by
  unfold kernelStep at h
  split at h
  all_goals try dsimp only at h
  all_goals try split at h
  all_goals cases h
  all_goals simp only [Thread.size, List.length_cons]
  all_goals omega

/-- **The kernel**: a block for every cluster, and four barriers. -/
def kernel : Grid.Kernel (PoolMemory F) (Thread ℕ ℤ F) where
  blocks := launch.call.nClusters
  threads := launch.blockDim
  barriers := 4
  enter b phase i m := KeyedPool.enter (launch.entries b) launch.blockDim phase i (m.sCount b)
  step := launch.kernelStep
  size := Thread.size
  shrinks := launch.kernelStep_shrinks

end PoolLaunch

/-! ### The output segments -/

namespace PoolLaunch

variable (launch : PoolLaunch)

/-- The entries of cluster `b`, and their number: the size of its output segment. -/
def clusterEntries (b : ℕ) : SparseRow Code :=
  Nsparse.clusterEntries launch.call.vectors (launch.call.clusterDocs b)

def segment (b : ℕ) : ℕ := (launch.clusterEntries b).length

/-- The segments follow each other. -/
theorem obase_succ {b : ℕ} (hb : b < launch.call.nClusters) :
    launch.obase (b + 1) = launch.obase b + launch.segment b := by
  have hsegment : launch.segment b
      = ((launch.call.clusterDocs b).map fun d => (docRow launch.call.vectors d).length).sum := by
    rw [segment, clusterEntries, Nsparse.clusterEntries, List.length_flatMap]
  rw [obase, obase, SummarizeCall.outBase, hsegment, List.getD_eq_getElem _ _ (by simp [hb]),
    List.getD_eq_getElem _ _ (by simp; omega), List.getElem_succ_scanl,
    List.getElem_map, List.getElem_range]

theorem obase_le {b c : ℕ} (hbc : b < c) (hc : c < launch.call.nClusters) :
    launch.obase b + launch.segment b ≤ launch.obase c := by
  induction c, hbc using Nat.le_induction with
  | base => rw [obase_succ launch (by omega)]
  | succ c hle ih =>
      rw [obase_succ launch (by omega)]
      exact (ih (by omega)).trans (Nat.le_add_right _ _)

/-- A place of the output is in one segment. -/
theorem place_inj {b c k l : ℕ} (hb : b < launch.call.nClusters) (hc : c < launch.call.nClusters)
    (hk : k < launch.segment b) (hl : l < launch.segment c)
    (h : launch.obase b + k = launch.obase c + l) : b = c := by
  rcases Nat.lt_trichotomy b c with hlt | heq | hlt
  · have hle := launch.obase_le hlt hc
    omega
  · exact heq
  · have hle := launch.obase_le hlt hb
    omega

/-! ### What a block sees -/

/-- The part of an array from an address on. -/
def window {A : Type} (n base : ℕ) (default : A) (array : ℕ → A) (i : ℕ) : A :=
  if i < n then array (base + i) else default

/-- The memory at the addresses that block `b` computes. -/
def view [Zero F] (b : ℕ) (m : PoolMemory F) : KeyedPool.Memory ℕ ℤ F where
  peak := window launch.dim (b * launch.dim) 0 m.acc
  flag term := decide (window launch.dim (b * launch.dim) 0 m.seen term ≠ 0)
  outKey := window (launch.segment b) (launch.obase b) 0 m.outTerm
  outVal := window (launch.segment b) (launch.obase b) 0 m.outVal
  count := m.sCount b
  sum := m.sSum b
  outCount := m.outCount b
  outSum := m.outSum b

/-- The work of block `b`. -/
def job (F : Type) [FloatFormat F] (b : ℕ) : KeyedPool.Job ℕ ℤ F where
  threads := launch.blockDim
  threads_pos := launch.blockDim_pos
  entries := launch.entries b
  read := readMax F launch.corpus.elementSize

variable {launch}

theorem window_of_lt {A : Type} {n base i : ℕ} {default : A} {array : ℕ → A} (hi : i < n) :
    window n base default array i = array (base + i) :=
  if_pos hi

/-- A window moves with what is stored in it. -/
theorem window_update {A : Type} {n base i : ℕ} (default : A) (array : ℕ → A) (a : A) (hi : i < n) :
    window n base default (Function.update array (base + i) a)
      = Function.update (window n base default array) i a := by
  funext j
  by_cases hj : j = i
  · rw [hj, window_of_lt hi, Function.update_self, Function.update_self]
  · have hne : base + j ≠ base + i := fun heq => hj (Nat.add_left_cancel heq)
    rw [Function.update_of_ne hj, window, window, Function.update_of_ne hne]

/-- It does not with what is stored elsewhere. -/
theorem window_congr {A : Type} {n base : ℕ} (default : A) {array array' : ℕ → A}
    (h : ∀ i < n, array' (base + i) = array (base + i)) :
    window n base default array' = window n base default array := by
  funext i
  unfold window
  split
  · rename_i hi
    exact h i hi
  · rfl

section View

variable [Zero F] {b : ℕ} {m : PoolMemory F}

theorem view_acc {term : ℕ} (hterm : term < launch.dim) (w : ℤ) :
    launch.view b { m with acc := Function.update m.acc (launch.slot b term) w }
      = { launch.view b m with peak := Function.update (launch.view b m).peak term w } := by
  have hwindow := @window_update ℤ launch.dim (b * launch.dim) term 0 m.acc w hterm
  simp only [view, slot, hwindow]

theorem view_seen {term : ℕ} (hterm : term < launch.dim) (w : ℤ) :
    launch.view b { m with seen := Function.update m.seen (launch.slot b term) w }
      = { launch.view b m with
          flag := Function.update (launch.view b m).flag term (decide (w ≠ 0)) } := by
  have hwindow := @window_update ℤ launch.dim (b * launch.dim) term 0 m.seen w hterm
  have hflag : (fun t => decide (Function.update (window launch.dim (b * launch.dim) 0 m.seen)
        term w t ≠ 0))
      = Function.update (fun t => decide (window launch.dim (b * launch.dim) 0 m.seen t ≠ 0)) term
          (decide (w ≠ 0)) := by
    funext t
    by_cases ht : t = term
    · rw [ht, Function.update_self, Function.update_self]
    · rw [Function.update_of_ne ht, Function.update_of_ne ht]
  simp only [view, slot, hwindow, hflag]

theorem view_outTerm {k : ℕ} (hk : k < launch.segment b) (term : ℕ) :
    launch.view b { m with outTerm := Function.update m.outTerm (launch.obase b + k) term }
      = { launch.view b m with outKey := Function.update (launch.view b m).outKey k term } := by
  have hwindow := @window_update ℕ (launch.segment b) (launch.obase b) k 0 m.outTerm term hk
  simp only [view, hwindow]

theorem view_outVal {k : ℕ} (hk : k < launch.segment b) (v : F) :
    launch.view b { m with outVal := Function.update m.outVal (launch.obase b + k) v }
      = { launch.view b m with outVal := Function.update (launch.view b m).outVal k v } := by
  have hwindow := @window_update F (launch.segment b) (launch.obase b) k 0 m.outVal v hk
  simp only [view, hwindow]

end View

section Step

variable [AddCommMonoid F] [FloatFormat F] {b : ℕ} {m : PoolMemory F}

/-- **A block is a pool on what it sees.** -/
theorem view_kernelStep {t : Thread ℕ ℤ F} (h : t.Within (· < launch.dim) (launch.segment b)) :
    (launch.kernelStep b m t).map (fun r => (launch.view b r.1, r.2))
      = KeyedPool.step (launch.job F b).read (launch.view b m) t := by
  match t, h with
  | .wait, _ => rfl
  | .zeroCount, _ =>
      simp only [kernelStep, KeyedPool.step, Option.map_some, view, Function.update_self]
  | .fill (.raise []), _ => rfl
  | .fill (.raise (entry :: left)), h =>
      have hpeak : (launch.view b m).peak entry.1 = m.acc (launch.slot b entry.1) := window_of_lt h
      simp only [kernelStep, KeyedPool.step, KeyedPool.fillStep, Option.map_some, view_acc h, hpeak]
  | .fill (.touch term left), h =>
      have hflag : (launch.view b m).flag term = decide (m.seen (launch.slot b term) ≠ 0) :=
        congrArg (fun w : ℤ => decide (w ≠ 0)) (window_of_lt h)
      simp only [kernelStep, KeyedPool.step, KeyedPool.fillStep, hflag]
      by_cases hzero : m.seen (launch.slot b term) = 0
      · rw [if_pos hzero, if_neg (by simpa using hzero)]
        simp only [Option.map_some, view_seen h]
        rfl
      · rw [if_neg hzero, if_pos (by simpa using hzero)]
        rfl
  | .fill (.claim term left), _ =>
      simp only [kernelStep, KeyedPool.step, KeyedPool.fillStep, Option.map_some, view,
        Function.update_self]
  | .fill (.write k term left), h =>
      simp only [kernelStep, KeyedPool.step, KeyedPool.fillStep, Option.map_some, view_outTerm h]
  | .zeroSum, _ =>
      simp only [kernelStep, KeyedPool.step, Option.map_some, view, Function.update_self]
  | .storeCount, _ =>
      simp only [kernelStep, KeyedPool.step, Option.map_some, view, Function.update_self]
  | .drain (.fetch []), _ => rfl
  | .drain (.fetch (k :: left)), h =>
      have hkey : (launch.view b m).outKey k = m.outTerm (launch.obase b + k) := window_of_lt h
      simp only [kernelStep, KeyedPool.step, KeyedPool.drainStep, Option.map_some, hkey]
  | .drain (.read k term left), h =>
      have hpeak : (launch.view b m).peak term = m.acc (launch.slot b term) := window_of_lt h
      simp only [kernelStep, KeyedPool.step, KeyedPool.drainStep, Option.map_some, hpeak, job]
  | .drain (.emit k term v left), h =>
      simp only [kernelStep, KeyedPool.step, KeyedPool.drainStep, Option.map_some, view_outVal h]
  | .drain (.add k term v left), _ =>
      simp only [kernelStep, KeyedPool.step, KeyedPool.drainStep, Option.map_some, view,
        Function.update_self]
  | .drain (.clear k term left), h =>
      simp only [kernelStep, KeyedPool.step, KeyedPool.drainStep, Option.map_some, view_acc h]
  | .drain (.lower k term left), h =>
      simp only [kernelStep, KeyedPool.step, KeyedPool.drainStep, Option.map_some, view_seen h]
      rfl
  | .storeSum, _ =>
      simp only [kernelStep, KeyedPool.step, Option.map_some, view, Function.update_self]

/-- A step writes only what belongs to block `b`. -/
structure OnlyIn (launch : PoolLaunch) (b : ℕ) (m m' : PoolMemory F) : Prop where
  acc : ∀ p, (∀ term < launch.dim, p ≠ launch.slot b term) → m'.acc p = m.acc p
  seen : ∀ p, (∀ term < launch.dim, p ≠ launch.slot b term) → m'.seen p = m.seen p
  outTerm : ∀ p, (∀ k < launch.segment b, p ≠ launch.obase b + k) → m'.outTerm p = m.outTerm p
  outVal : ∀ p, (∀ k < launch.segment b, p ≠ launch.obase b + k) → m'.outVal p = m.outVal p
  outCount : ∀ c, c ≠ b → m'.outCount c = m.outCount c
  outSum : ∀ c, c ≠ b → m'.outSum c = m.outSum c
  sCount : ∀ c, c ≠ b → m'.sCount c = m.sCount c
  sSum : ∀ c, c ≠ b → m'.sSum c = m.sSum c

omit [AddCommMonoid F] [FloatFormat F] in
theorem OnlyIn.refl : OnlyIn launch b m m where
  acc := fun _ _ => rfl
  seen := fun _ _ => rfl
  outTerm := fun _ _ => rfl
  outVal := fun _ _ => rfl
  outCount := fun _ _ => rfl
  outSum := fun _ _ => rfl
  sCount := fun _ _ => rfl
  sSum := fun _ _ => rfl

/-- **No step writes elsewhere.** -/
theorem kernelStep_onlyIn {m' : PoolMemory F} {t t' : Thread ℕ ℤ F}
    (h : t.Within (· < launch.dim) (launch.segment b))
    (hstep : launch.kernelStep b m t = some (m', t')) : OnlyIn launch b m m' := by
  match t, h with
  | .wait, _ => cases hstep
  | .zeroCount, _ =>
      obtain ⟨rfl, -⟩ := Prod.mk.inj (Option.some_inj.mp hstep)
      exact { OnlyIn.refl with sCount := fun _ hc => Function.update_of_ne hc _ _ }
  | .fill (.raise []), _ => cases hstep
  | .fill (.raise (entry :: left)), h =>
      obtain ⟨rfl, -⟩ := Prod.mk.inj (Option.some_inj.mp hstep)
      exact { OnlyIn.refl with acc := fun _ hp => Function.update_of_ne (hp _ h) _ _ }
  | .fill (.touch term left), h =>
      unfold kernelStep at hstep
      dsimp only at hstep
      split at hstep
      · obtain ⟨rfl, -⟩ := Prod.mk.inj (Option.some_inj.mp hstep)
        exact { OnlyIn.refl with seen := fun _ hp => Function.update_of_ne (hp _ h) _ _ }
      · obtain ⟨rfl, -⟩ := Prod.mk.inj (Option.some_inj.mp hstep)
        exact OnlyIn.refl
  | .fill (.claim term left), _ =>
      obtain ⟨rfl, -⟩ := Prod.mk.inj (Option.some_inj.mp hstep)
      exact { OnlyIn.refl with sCount := fun _ hc => Function.update_of_ne hc _ _ }
  | .fill (.write k term left), h =>
      obtain ⟨rfl, -⟩ := Prod.mk.inj (Option.some_inj.mp hstep)
      exact { OnlyIn.refl with outTerm := fun _ hp => Function.update_of_ne (hp _ h) _ _ }
  | .zeroSum, _ =>
      obtain ⟨rfl, -⟩ := Prod.mk.inj (Option.some_inj.mp hstep)
      exact { OnlyIn.refl with sSum := fun _ hc => Function.update_of_ne hc _ _ }
  | .storeCount, _ =>
      obtain ⟨rfl, -⟩ := Prod.mk.inj (Option.some_inj.mp hstep)
      exact { OnlyIn.refl with outCount := fun _ hc => Function.update_of_ne hc _ _ }
  | .drain (.fetch []), _ => cases hstep
  | .drain (.fetch (k :: left)), _ =>
      obtain ⟨rfl, -⟩ := Prod.mk.inj (Option.some_inj.mp hstep)
      exact OnlyIn.refl
  | .drain (.read k term left), _ =>
      obtain ⟨rfl, -⟩ := Prod.mk.inj (Option.some_inj.mp hstep)
      exact OnlyIn.refl
  | .drain (.emit k term v left), h =>
      obtain ⟨rfl, -⟩ := Prod.mk.inj (Option.some_inj.mp hstep)
      exact { OnlyIn.refl with outVal := fun _ hp => Function.update_of_ne (hp _ h) _ _ }
  | .drain (.add k term v left), _ =>
      obtain ⟨rfl, -⟩ := Prod.mk.inj (Option.some_inj.mp hstep)
      exact { OnlyIn.refl with sSum := fun _ hc => Function.update_of_ne hc _ _ }
  | .drain (.clear k term left), h =>
      obtain ⟨rfl, -⟩ := Prod.mk.inj (Option.some_inj.mp hstep)
      exact { OnlyIn.refl with acc := fun _ hp => Function.update_of_ne (hp _ h) _ _ }
  | .drain (.lower k term left), h =>
      obtain ⟨rfl, -⟩ := Prod.mk.inj (Option.some_inj.mp hstep)
      exact { OnlyIn.refl with seen := fun _ hp => Function.update_of_ne (hp _ h) _ _ }
  | .storeSum, _ =>
      obtain ⟨rfl, -⟩ := Prod.mk.inj (Option.some_inj.mp hstep)
      exact { OnlyIn.refl with outSum := fun _ hc => Function.update_of_ne hc _ _ }

omit [FloatFormat F] in
/-- **Another block does not see it.** -/
theorem OnlyIn.view_eq {m' : PoolMemory F} (h : OnlyIn launch b m m') {c : ℕ}
    (hb : b < launch.call.nClusters) (hc : c < launch.call.nClusters) (hne : c ≠ b) :
    launch.view c m' = launch.view c m := by
  have hslot : ∀ i < launch.dim, ∀ term < launch.dim, c * launch.dim + i ≠ launch.slot b term := by
    intro i hi term hterm heq
    exact hne ((address_inj hi hterm).mp heq).2
  have hplace : ∀ i < launch.segment c, ∀ k < launch.segment b,
      launch.obase c + i ≠ launch.obase b + k := by
    intro i hi k hk heq
    exact hne (launch.place_inj hc hb hi hk heq)
  have hacc := window_congr 0 fun i hi => h.acc _ (hslot i hi)
  have hseen := window_congr 0 fun i hi => h.seen _ (hslot i hi)
  have houtTerm := window_congr 0 fun i hi => h.outTerm _ (hplace i hi)
  have houtVal := window_congr 0 fun i hi => h.outVal _ (hplace i hi)
  simp only [view, hacc, hseen, houtTerm, houtVal, h.sCount c hne, h.sSum c hne, h.outCount c hne,
    h.outSum c hne]

end Step

end PoolLaunch

/-! ### What the threads read -/

/-- A code in the array of all bytes. -/
theorem take_drop_flatten_codes {width : ℕ} {codes : List Code} (h : ∀ code ∈ codes, code.length = width)
    {i : ℕ} (hi : i < codes.length) :
    (codes.flatten.drop (i * width)).take width = codes.getD i [] := by
  induction codes generalizing i with
  | nil => cases hi
  | cons code codes ih =>
      obtain ⟨hcode, hcodes⟩ := List.forall_mem_cons.mp h
      cases i with
      | zero =>
          rw [Nat.zero_mul, List.drop_zero, List.flatten_cons, List.take_left' hcode]
          rfl
      | succ i =>
          rw [Nat.succ_mul, Nat.add_comm, ← List.drop_drop, List.flatten_cons,
            List.drop_left' hcode, ih hcodes (Nat.lt_of_succ_lt_succ hi)]
          rfl

/-- **What a thread reads** of documents are their entries, each value as a word of `acc`. -/
theorem DeviceCorpus.Shows.entriesOf_eq {c : DeviceCorpus} {v : HostCorpus} (h : c.Shows v)
    {docs : List ℤ} (hdocs : ∀ d ∈ docs, d.toNat < v.vectors.numVectors) :
    c.entriesOf docs = (clusterEntries v.vectors docs).map fun entry =>
      (entry.1, accWord v.vectors.elementSize entry.2) := by
  have hcast : ∀ (l : List ℕ) (i : ℕ), ((l.map fun n : ℕ => (n : ℤ)).getD i 0).toNat = l.getD i 0 := by
    intro l i
    show ((l.map fun n : ℕ => (n : ℤ)).getD i ((fun n : ℕ => (n : ℤ)) 0)).toNat = _
    rw [List.getD_map, Int.toNat_natCast]
  rw [DeviceCorpus.entriesOf, clusterEntries, List.map_flatMap]
  refine congrArg List.flatten (List.map_congr_left fun d hd => ?_)
  simp only [h.indptr, h.indices, h.values, h.elementSize, Option.getD_some, hcast]
  have hd := hdocs d hd
  rw [SparseVectors.numVectors_eq] at hd
  have hne : v.vectors.indptr ≠ [] := List.ne_nil_of_length_pos (by omega)
  have hstop : v.vectors.indptr.getD (d.toNat + 1) 0 ≤ v.vectors.indices.length := by
    rw [List.getD_eq_getElem _ _ (by omega)]
    exact (v.wellFormed.offsets hne).le_of_mem (List.getElem_mem _)
  have hlength := v.wellFormed.length_entries
  apply List.ext_getElem
  · rw [List.length_map, List.length_range, List.length_map, docRow, SparseVectors.row, Csr.row,
      List.length_take, List.length_drop]
    omega
  · intro t ht ht'
    rw [List.length_map, List.length_range] at ht
    have hindex : v.vectors.indptr.getD d.toNat 0 + t < v.vectors.indices.length := by omega
    have hvalue : v.vectors.indptr.getD d.toNat 0 + t < v.vectors.values.length :=
      v.wellFormed.paired ▸ hindex
    have hrow : t < (docRow v.vectors d).length := by rwa [List.length_map] at ht'
    have hentry : (docRow v.vectors d)[t]
        = (v.vectors.indices.getD (v.vectors.indptr.getD d.toNat 0 + t) 0,
          v.vectors.values.getD (v.vectors.indptr.getD d.toNat 0 + t) []) := by
      simp only [docRow, SparseVectors.row, Csr.row, SparseVectors.entries, List.getElem_take,
        List.getElem_drop, List.getElem_zip, List.getD_eq_getElem _ _ hindex,
        List.getD_eq_getElem _ _ hvalue]
    rw [List.getElem_map, List.getElem_map, List.getElem_range,
      take_drop_flatten_codes v.codes hvalue, hentry]

namespace PoolLaunch

variable {launch : PoolLaunch} {b : ℕ}

/-- The words of cluster `b`. -/
theorem entriesOf_clusterDocs (launch : PoolLaunch) (b : ℕ) :
    launch.corpus.entriesOf (launch.call.clusterDocs b) = (launch.clusterEntries b).map fun entry =>
      (entry.1, accWord launch.call.vectors.elementSize entry.2) := by
  rw [launch.shows.entriesOf_eq, launch.vectors]
  · rfl
  · intro d hd
    rw [launch.vectors]
    exact (launch.docs d (List.mem_of_mem_drop (List.mem_of_mem_take hd))).2

/-- The threads share the entries of the cluster out. -/
theorem job_entry_iff [FloatFormat F] {e : ℕ × ℤ} :
    (launch.job F b).Entry e ↔ e ∈ launch.corpus.entriesOf (launch.call.clusterDocs b) := by
  constructor
  · rintro ⟨i, -, he⟩
    obtain ⟨d, hd, he⟩ := List.mem_flatMap.mp he
    exact List.mem_flatMap.mpr ⟨d, KeyedPool.strided_subset _ hd, he⟩
  · intro he
    obtain ⟨d, hd, he⟩ := List.mem_flatMap.mp he
    obtain ⟨i, hi, hmem⟩ := KeyedPool.exists_mem_strided launch.blockDim_pos hd
    exact ⟨i, hi, List.mem_flatMap.mpr ⟨d, hmem, he⟩⟩

theorem job_key_iff [FloatFormat F] {term : ℕ} :
    (launch.job F b).Key term ↔ term ∈ (launch.clusterEntries b).map Prod.fst := by
  have hfst : (launch.corpus.entriesOf (launch.call.clusterDocs b)).map Prod.fst
      = (launch.clusterEntries b).map Prod.fst := by
    rw [entriesOf_clusterDocs, List.map_map]
    rfl
  rw [← hfst, List.mem_map]
  constructor
  · rintro ⟨w, he⟩
    exact ⟨_, job_entry_iff.mp he, rfl⟩
  · rintro ⟨⟨term, w⟩, he, rfl⟩
    exact ⟨w, job_entry_iff.mpr he⟩

/-- There are no more places than the segment has. -/
theorem length_le_segment [FloatFormat F] {order : List ℕ} (hnodup : order.Nodup)
    (hkeys : ∀ term ∈ order, (launch.job F b).Key term) : order.length ≤ launch.segment b := by
  have hsubset : order ⊆ (launch.clusterEntries b).map Prod.fst := fun term hterm =>
    job_key_iff.mp (hkeys term hterm)
  have hle := (List.subperm_of_subset hnodup hsubset).length_le
  rwa [List.length_map] at hle

/-! ### Runs -/

/-- Every term of the store is below its dimension. -/
def TermsBelow (launch : PoolLaunch) : Prop :=
  ∀ term ∈ launch.call.vectors.indices, term < launch.dim

theorem TermsBelow.cluster (h : launch.TermsBelow) {entry : ℕ × Code}
    (hentry : entry ∈ launch.clusterEntries b) : entry.1 < launch.dim := by
  obtain ⟨d, -, hd⟩ := List.mem_flatMap.mp hentry
  have hmem : entry ∈ launch.call.vectors.entries := List.mem_of_mem_drop (List.mem_of_mem_take hd)
  exact h _ (List.of_mem_zip hmem).1

/-- What belongs to no block is as it was. -/
structure Elsewhere (launch : PoolLaunch) (before m : PoolMemory F) : Prop where
  slots : ∀ p, (∀ b < launch.call.nClusters, ∀ term < launch.dim, p ≠ launch.slot b term) →
    m.acc p = before.acc p ∧ m.seen p = before.seen p
  places : ∀ p, (∀ b < launch.call.nClusters, ∀ k < launch.segment b, p ≠ launch.obase b + k) →
    m.outTerm p = before.outTerm p ∧ m.outVal p = before.outVal p

theorem Elsewhere.step {before m m' : PoolMemory F} (h : launch.Elsewhere before m)
    (hb : b < launch.call.nClusters) (hstep : OnlyIn launch b m m') :
    launch.Elsewhere before m' where
  slots := by
    intro p hp
    obtain ⟨hacc, hseen⟩ := h.slots p hp
    exact ⟨(hstep.acc p (hp b hb)).trans hacc, (hstep.seen p (hp b hb)).trans hseen⟩
  places := by
    intro p hp
    obtain ⟨hterm, hval⟩ := h.places p hp
    exact ⟨(hstep.outTerm p (hp b hb)).trans hterm, (hstep.outVal p (hp b hb)).trans hval⟩

section Outline

variable [AddCommMonoid F] [FloatFormat F]

/-- What a block relies on: the pool is in order on what it sees. -/
def BlockInv (launch : PoolLaunch) (b : ℕ) (m : PoolMemory F) (blk : Grid.Block (Thread ℕ ℤ F)) :
    Prop :=
  KeyedPool.Inv (launch.job F b) (launch.view b m) blk.phase blk.thread

variable {m m' : PoolMemory F} {blk : Grid.Block (Thread ℕ ℤ F)}

/-- The accesses of a block are to its own slots and places. -/
theorem BlockInv.within (hterms : launch.TermsBelow) (h : launch.BlockInv b m blk) {i : ℕ}
    (hi : i < launch.blockDim) :
    (blk.thread i).Within (· < launch.dim) (launch.segment b) := by
  have hwithin := KeyedPool.Inv.within h hi fun order => length_le_segment
  refine hwithin.mono fun term hkey => ?_
  obtain ⟨entry, hentry, rfl⟩ := List.mem_map.mp (job_key_iff.mp hkey)
  exact hterms.cluster hentry

/-- **The blocks do not interfere.** -/
theorem kernel_outline (hterms : launch.TermsBelow) (before : PoolMemory F) :
    Grid.Outline launch.kernel (launch.Elsewhere before) launch.BlockInv where
  step := by
    intro b i m m' blk t hb hi hG hI hstep
    have hwithin := hI.within hterms hi
    refine ⟨hG.step hb (kernelStep_onlyIn hwithin hstep), ?_⟩
    have hview := view_kernelStep (b := b) (m := m) hwithin
    have hstep' : launch.kernelStep b m (blk.thread i) = some (m', t) := hstep
    rw [hstep'] at hview
    exact KeyedPool.Inv.step hI hi hview.symm
  barrier := by
    intro b m blk hb hphase hG hI hwaits
    refine KeyedPool.Inv.barrier hI hphase fun i hi => ?_
    have hview := view_kernelStep (b := b) (m := m) (hI.within hterms hi)
    have hnone : launch.kernelStep b m (blk.thread i) = none :=
      Option.isNone_iff_eq_none.mp (hwaits i hi)
    rw [hnone] at hview
    exact hview.symm
  apart := by
    intro b c i m m' blk blk' t hb hc hne hi hI hI' hstep
    have honly := kernelStep_onlyIn (hI'.within hterms hi) hstep
    show KeyedPool.Inv _ (launch.view b m') _ _
    rw [honly.view_eq hc hb hne]
    exact hI

/-- The assertions hold in every run from clean buffers. -/
theorem kernel_holds (hterms : launch.TermsBelow) {before : PoolMemory F} (hclean : before.Clean)
    (moves : List Grid.Move) :
    Grid.Holds launch.kernel (launch.Elsewhere before) launch.BlockInv
      (launch.kernel.run (launch.kernel.start before) moves) := by
  apply (kernel_outline hterms before).run
  refine ⟨⟨fun _ _ => ⟨rfl, rfl⟩, fun _ _ => ⟨rfl, rfl⟩⟩, fun b _ => ?_⟩
  apply KeyedPool.Inv.start
  intro term
  have hpeak : (launch.view b before).peak term = 0 := by
    show window _ _ _ _ _ = _
    unfold window
    split
    · exact (hclean _).1
    · rfl
  have hseen : window launch.dim (b * launch.dim) 0 before.seen term = 0 := by
    unfold window
    split
    · exact (hclean _).2
    · rfl
  exact ⟨hpeak, decide_eq_false (not_not.mpr hseen)⟩

/-- **No output is written outside the segment of its cluster**, in no step of any run. -/
theorem run_onlyIn (hterms : launch.TermsBelow) {before : PoolMemory F} (hclean : before.Clean)
    (moves : List Grid.Move) {i : ℕ} {s' : Grid.State (PoolMemory F) (Thread ℕ ℤ F)}
    (hmove : launch.kernel.move (launch.kernel.run (launch.kernel.start before) moves)
      (.thread b i) = some s') :
    OnlyIn launch b (launch.kernel.run (launch.kernel.start before) moves).memory s'.memory := by
  obtain ⟨-, hI⟩ := kernel_holds hterms hclean moves
  obtain ⟨hb, hi, m, t, hstep, rfl⟩ := Grid.move_thread hmove
  exact kernelStep_onlyIn ((hI b hb).within hterms hi) hstep

variable {before : PoolMemory F} {moves : List Grid.Move}

/-- **A block that is done** has pooled its cluster. -/
theorem done_pooled (hterms : launch.TermsBelow) (hclean : before.Clean)
    (hdone : launch.kernel.Done (launch.kernel.run (launch.kernel.start before) moves))
    (hb : b < launch.call.nClusters) :
    ∃ order top,
      KeyedPool.Pooled (launch.job F b)
        (launch.view b (launch.kernel.run (launch.kernel.start before) moves).memory) order top ∧
      (launch.kernel.run (launch.kernel.start before) moves).memory.outSum b
        = (launch.kernel.run (launch.kernel.start before) moves).memory.sSum b := by
  have hI := (kernel_holds hterms hclean moves).2 b hb
  obtain ⟨hphase, hwaits⟩ := hdone b hb
  generalize launch.kernel.run (launch.kernel.start before) moves = s at hI hphase hwaits ⊢
  have hwaits' : KeyedPool.Waits (launch.job F b) (launch.view b s.memory) (s.block b).thread := by
    intro i hi
    have hview := view_kernelStep (b := b) (m := s.memory) (hI.within hterms hi)
    have hnone : launch.kernelStep b s.memory ((s.block b).thread i) = none :=
      Option.isNone_iff_eq_none.mp (hwaits i hi)
    rw [hnone] at hview
    exact hview.symm
  have hlast : (s.block b).phase = 4 := by
    refine le_antisymm ?_ hphase
    by_contra hgt
    obtain ⟨n, hn⟩ := Nat.exists_eq_add_of_le (not_le.mp hgt)
    unfold BlockInv at hI
    rw [hn, Nat.succ_add_eq_add_succ, Nat.add_comm] at hI
    exact hI
  unfold BlockInv at hI
  rw [hlast] at hI
  exact KeyedPool.Inv.pooled hI hwaits'

/-- **`acc` and `seen` are zero again.** -/
theorem done_clean (hterms : launch.TermsBelow) (hclean : before.Clean)
    (hdone : launch.kernel.Done (launch.kernel.run (launch.kernel.start before) moves)) :
    (launch.kernel.run (launch.kernel.start before) moves).memory.Clean := by
  intro p
  have hdim : 0 < launch.dim := launch.call.dim_pos
  have hslot : p = launch.slot (p / launch.dim) (p % launch.dim) := (Nat.div_add_mod' _ _).symm
  by_cases hb : p / launch.dim < launch.call.nClusters
  · obtain ⟨order, top, hpooled, -⟩ := done_pooled hterms hclean hdone hb
    obtain ⟨hpeak, hflag⟩ := hpooled.clean (p % launch.dim)
    have hterm : p % launch.dim < launch.dim := Nat.mod_lt _ hdim
    have hacc := (window_of_lt hterm).symm.trans hpeak
    have hseen := of_decide_eq_false hflag
    rw [window_of_lt hterm, not_not] at hseen
    rw [hslot]
    exact ⟨hacc, hseen⟩
  · obtain ⟨hacc, hseen⟩ := (kernel_holds hterms hclean moves).1.slots p fun c hc term hterm heq => by
      rw [heq, slot, Nat.mul_comm, Nat.mul_add_div hdim, Nat.div_eq_of_lt hterm, Nat.add_zero] at hb
      exact hb hc
    rw [hacc, hseen]
    exact hclean p

end Outline

end PoolLaunch

end Nsparse
