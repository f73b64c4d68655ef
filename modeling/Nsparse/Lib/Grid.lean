/-
Nsparse/Lib/Grid.lean

Blocks of threads that share a memory and run in any order.

A thread takes one step after the other until it has none left; then it waits at the
barrier of its block.  When all threads of a block wait, the block enters its next
phase.  Nothing else orders the steps, neither within a block nor between blocks.

`Outline` is the rule of such a machine.  An assertion for each block has to survive
the steps of its own threads, its own barriers, and every step of another block; then
it holds in every run (`Outline.run`).  Every step makes a thread smaller, so no run
goes on for ever and every run can be completed (`exists_done`).
-/
import Mathlib.Tactic

namespace Grid

variable {M T : Type*}

/-- The program of a grid: how many blocks, threads and barriers it has, what a thread begins a
phase with, and what it does next. -/
structure Kernel (M T : Type*) where
  blocks : ℕ
  threads : ℕ
  barriers : ℕ
  enter : ℕ → ℕ → ℕ → M → T
  step : ℕ → M → T → Option (M × T)
  size : T → ℕ
  shrinks : ∀ {b : ℕ} {m m' : M} {t t' : T}, step b m t = some (m', t') → size t' < size t

/-- The phase of a block and its threads. -/
structure Block (T : Type*) where
  phase : ℕ
  thread : ℕ → T

def Block.setThread (blk : Block T) (i : ℕ) (t : T) : Block T :=
  { blk with thread := Function.update blk.thread i t }

structure State (M T : Type*) where
  memory : M
  block : ℕ → Block T

/-- What happens next: a thread of a block takes a step, or the block passes a barrier. -/
inductive Move
  | thread (b i : ℕ)
  | barrier (b : ℕ)
  deriving Repr, DecidableEq

namespace Kernel

variable (K : Kernel M T)

/-- All threads of a block wait. -/
def Waits (b : ℕ) (m : M) (blk : Block T) : Prop :=
  ∀ i < K.threads, (K.step b m (blk.thread i)).isNone = true

instance (b : ℕ) (m : M) (blk : Block T) : Decidable (K.Waits b m blk) := by
  unfold Waits
  infer_instance

/-- The block behind its next barrier. -/
def pass (b : ℕ) (m : M) (blk : Block T) : Block T :=
  ⟨blk.phase + 1, fun i => K.enter b (blk.phase + 1) i m⟩

/-- One move, when it is possible. -/
def move (s : State M T) : Move → Option (State M T)
  | .thread b i =>
      if b < K.blocks ∧ i < K.threads then
        (K.step b s.memory ((s.block b).thread i)).map fun r =>
          ⟨r.1, Function.update s.block b ((s.block b).setThread i r.2)⟩
      else none
  | .barrier b =>
      if b < K.blocks ∧ (s.block b).phase < K.barriers ∧ K.Waits b s.memory (s.block b) then
        some ⟨s.memory, Function.update s.block b (K.pass b s.memory (s.block b))⟩
      else none

def start (m : M) : State M T := ⟨m, fun b => ⟨0, fun i => K.enter b 0 i m⟩⟩

/-- Moves in any order; one that is not possible changes nothing. -/
def run (s : State M T) (moves : List Move) : State M T :=
  moves.foldl (fun s mv => (K.move s mv).getD s) s

/-- No block has a step or a barrier left. -/
def Done (s : State M T) : Prop :=
  ∀ b < K.blocks, K.barriers ≤ (s.block b).phase ∧ K.Waits b s.memory (s.block b)

instance (s : State M T) : Decidable (K.Done s) := by
  unfold Done
  infer_instance

end Kernel

variable {K : Kernel M T} {s s' : State M T}

/-- A move of a thread is a step of it. -/
theorem move_thread {b i : ℕ} (h : K.move s (.thread b i) = some s') :
    b < K.blocks ∧ i < K.threads ∧
      ∃ m t, K.step b s.memory ((s.block b).thread i) = some (m, t) ∧
        s' = ⟨m, Function.update s.block b ((s.block b).setThread i t)⟩ := by
  unfold Kernel.move at h
  dsimp only at h
  split at h
  · rename_i hbi
    obtain ⟨⟨m, t⟩, hstep, hs'⟩ := Option.map_eq_some_iff.mp h
    exact ⟨hbi.1, hbi.2, m, t, hstep, hs'.symm⟩
  · cases h

/-- A barrier opens when all threads wait. -/
theorem move_barrier {b : ℕ} (h : K.move s (.barrier b) = some s') :
    b < K.blocks ∧ (s.block b).phase < K.barriers ∧ K.Waits b s.memory (s.block b) ∧
      s' = ⟨s.memory, Function.update s.block b (K.pass b s.memory (s.block b))⟩ := by
  unfold Kernel.move at h
  dsimp only at h
  split at h
  · rename_i hb
    exact ⟨hb.1, hb.2.1, hb.2.2, (Option.some_inj.mp h).symm⟩
  · cases h

theorem run_append (s : State M T) (moves more : List Move) :
    K.run s (moves ++ more) = K.run (K.run s moves) more :=
  List.foldl_append

/-! ### Assertions -/

/-- **A proof outline**: `I` says for a block what it may rely on, `G` what the memory is like.
Own steps and barriers keep them, and a step of another block does not interfere. -/
structure Outline (K : Kernel M T) (G : M → Prop) (I : ℕ → M → Block T → Prop) : Prop where
  step : ∀ {b i : ℕ} {m m' : M} {blk : Block T} {t' : T}, b < K.blocks → i < K.threads → G m →
    I b m blk → K.step b m (blk.thread i) = some (m', t') → G m' ∧ I b m' (blk.setThread i t')
  barrier : ∀ {b : ℕ} {m : M} {blk : Block T}, b < K.blocks → blk.phase < K.barriers → G m →
    I b m blk → K.Waits b m blk → I b m (K.pass b m blk)
  apart : ∀ {b b' i : ℕ} {m m' : M} {blk blk' : Block T} {t' : T}, b < K.blocks → b' < K.blocks →
    b ≠ b' → i < K.threads → I b m blk → I b' m blk' →
    K.step b' m (blk'.thread i) = some (m', t') → I b m' blk

/-- All assertions. -/
def Holds (K : Kernel M T) (G : M → Prop) (I : ℕ → M → Block T → Prop) (s : State M T) : Prop :=
  G s.memory ∧ ∀ b < K.blocks, I b s.memory (s.block b)

section Rule

variable {G : M → Prop} {I : ℕ → M → Block T → Prop}

theorem Outline.move (h : Outline K G I) (hs : Holds K G I s) {mv : Move}
    (hmove : K.move s mv = some s') : Holds K G I s' := by
  obtain ⟨hG, hI⟩ := hs
  cases mv with
  | thread b i =>
      obtain ⟨hb, hi, m, t, hstep, rfl⟩ := move_thread hmove
      obtain ⟨hG', hI'⟩ := h.step hb hi hG (hI b hb) hstep
      refine ⟨hG', fun c hc => ?_⟩
      show I c m (Function.update s.block b _ c)
      by_cases hcb : c = b
      · rw [hcb, Function.update_self]
        exact hI'
      · rw [Function.update_of_ne hcb]
        exact h.apart hc hb hcb hi (hI c hc) (hI b hb) hstep
  | barrier b =>
      obtain ⟨hb, hphase, hwaits, rfl⟩ := move_barrier hmove
      refine ⟨hG, fun c hc => ?_⟩
      show I c s.memory (Function.update s.block b _ c)
      by_cases hcb : c = b
      · rw [hcb, Function.update_self]
        exact h.barrier hb hphase hG (hI b hb) hwaits
      · rw [Function.update_of_ne hcb]
        exact hI c hc

/-- **The assertions hold in every run.** -/
theorem Outline.run (h : Outline K G I) (hs : Holds K G I s) (moves : List Move) :
    Holds K G I (K.run s moves) := by
  induction moves generalizing s with
  | nil => exact hs
  | cons mv moves ih =>
      show Holds K G I (K.run ((K.move s mv).getD s) moves)
      apply ih
      rcases hmove : K.move s mv with - | s'
      · exact hs
      · exact h.move hs hmove

end Rule

/-! ### Completion -/

/-- The barriers that are left. -/
def barriersLeft (K : Kernel M T) (blocks : ℕ → Block T) : ℕ :=
  ∑ b ∈ Finset.range K.blocks, (K.barriers - (blocks b).phase)

/-- The sizes of all threads. -/
def stepsLeft (K : Kernel M T) (blocks : ℕ → Block T) : ℕ :=
  ∑ b ∈ Finset.range K.blocks, ∑ i ∈ Finset.range K.threads, K.size ((blocks b).thread i)

/-- What is left of a state: the barriers to pass, and then the steps up to them. -/
def rest (K : Kernel M T) (s : State M T) : ℕ ×ₗ ℕ :=
  toLex (barriersLeft K s.block, stepsLeft K s.block)

theorem stepsLeft_lt {blocks : ℕ → Block T} {b i : ℕ} {t : T} (hb : b < K.blocks)
    (hi : i < K.threads) (hlt : K.size t < K.size ((blocks b).thread i)) :
    stepsLeft K (Function.update blocks b ((blocks b).setThread i t)) < stepsLeft K blocks := by
  have hle : ∀ j, K.size (((blocks b).setThread i t).thread j) ≤ K.size ((blocks b).thread j) := by
    intro j
    show K.size (Function.update (blocks b).thread i t j) ≤ _
    by_cases hji : j = i
    · rw [hji, Function.update_self]
      exact hlt.le
    · rw [Function.update_of_ne hji]
  have hself : K.size (((blocks b).setThread i t).thread i) < K.size ((blocks b).thread i) := by
    show K.size (Function.update (blocks b).thread i t i) < _
    rwa [Function.update_self]
  apply Finset.sum_lt_sum
  · intro c _
    by_cases hcb : c = b
    · rw [hcb, Function.update_self]
      exact Finset.sum_le_sum fun j _ => hle j
    · rw [Function.update_of_ne hcb]
  · refine ⟨b, Finset.mem_range.mpr hb, ?_⟩
    rw [Function.update_self]
    exact Finset.sum_lt_sum (fun j _ => hle j) ⟨i, Finset.mem_range.mpr hi, hself⟩

theorem barriersLeft_setThread (blocks : ℕ → Block T) (b i : ℕ) (t : T) :
    barriersLeft K (Function.update blocks b ((blocks b).setThread i t)) = barriersLeft K blocks := by
  apply Finset.sum_congr rfl
  intro c _
  by_cases hcb : c = b
  · rw [hcb, Function.update_self]
    rfl
  · rw [Function.update_of_ne hcb]

theorem barriersLeft_lt {blocks : ℕ → Block T} {b : ℕ} {blk : Block T} (hb : b < K.blocks)
    (hphase : (blocks b).phase < K.barriers) (hnext : blk.phase = (blocks b).phase + 1) :
    barriersLeft K (Function.update blocks b blk) < barriersLeft K blocks := by
  have hfewer : K.barriers - blk.phase < K.barriers - (blocks b).phase := by
    rw [hnext]
    exact Nat.sub_lt_sub_left hphase (Nat.lt_succ_self _)
  apply Finset.sum_lt_sum
  · intro c _
    by_cases hcb : c = b
    · rw [hcb, Function.update_self]
      exact hfewer.le
    · rw [Function.update_of_ne hcb]
  · refine ⟨b, Finset.mem_range.mpr hb, ?_⟩
    rwa [Function.update_self]

/-- Every move leaves less. -/
theorem rest_move {mv : Move} (hmove : K.move s mv = some s') : rest K s' < rest K s := by
  rw [rest, rest, Prod.Lex.toLex_lt_toLex]
  cases mv with
  | thread b i =>
      obtain ⟨hb, hi, m, t, hstep, rfl⟩ := move_thread hmove
      right
      constructor
      · exact barriersLeft_setThread s.block b i t
      · exact stepsLeft_lt hb hi (K.shrinks hstep)
  | barrier b =>
      obtain ⟨hb, hphase, -, rfl⟩ := move_barrier hmove
      left
      exact barriersLeft_lt hb hphase rfl

/-- A state that is not done has a move. -/
theorem exists_move (h : ¬ K.Done s) : ∃ mv s', K.move s mv = some s' := by
  unfold Kernel.Done at h
  push Not at h
  obtain ⟨b, hb, hleft⟩ := h
  by_cases hwaits : K.Waits b s.memory (s.block b)
  · -- the barrier is open
    have hphase : (s.block b).phase < K.barriers := by
      by_contra hle
      exact hleft (not_lt.mp hle) hwaits
    exact ⟨.barrier b, _, if_pos ⟨hb, hphase, hwaits⟩⟩
  · -- a thread has a step left
    unfold Kernel.Waits at hwaits
    push Not at hwaits
    obtain ⟨i, hi, hsome⟩ := hwaits
    rw [ne_eq, Option.isNone_iff_eq_none, ← ne_eq, Option.ne_none_iff_exists'] at hsome
    obtain ⟨r, hr⟩ := hsome
    refine ⟨.thread b i, ?_⟩
    unfold Kernel.move
    dsimp only
    rw [if_pos ⟨hb, hi⟩, hr]
    exact ⟨_, rfl⟩

/-- **Every run can be completed.** -/
theorem exists_done (K : Kernel M T) (s : State M T) : ∃ moves, K.Done (K.run s moves) := by
  induction hn : rest K s using WellFoundedLT.induction generalizing s with
  | ind n ih =>
      by_cases hdone : K.Done s
      · exact ⟨[], hdone⟩
      · obtain ⟨mv, s', hmove⟩ := exists_move hdone
        obtain ⟨moves, hmoves⟩ := ih _ (hn ▸ rest_move hmove) s' rfl
        refine ⟨mv :: moves, ?_⟩
        show K.Done (K.run ((K.move s mv).getD s) moves)
        rwa [hmove]

/-! ### One thread of many -/

section Threads

variable {A : Type*} [AddCommMonoid A] {n i : ℕ} {ts : ℕ → T} {t : T}

/-- What holds of every thread holds still when it does of the one that changed. -/
theorem forall_update {P : T → Prop} (h : ∀ j < n, P (ts j)) (ht : P t) :
    ∀ j < n, P (Function.update ts i t j) := by
  intro j hj
  by_cases hji : j = i
  · rw [hji, Function.update_self]
    exact ht
  · rw [Function.update_of_ne hji]
    exact h j hj

/-- A thread that answers for something is still there when the one that changed answers on. -/
theorem exists_update {P : T → Prop} (hi : i < n) (h : ∃ j < n, P (ts j)) (ht : P (ts i) → P t) :
    ∃ j < n, P (Function.update ts i t j) := by
  obtain ⟨j, hj, hP⟩ := h
  by_cases hji : j = i
  · refine ⟨i, hi, ?_⟩
    rw [Function.update_self]
    exact ht (hji ▸ hP)
  · refine ⟨j, hj, ?_⟩
    rwa [Function.update_of_ne hji]

/-- A sum over all threads changes where the thread does. -/
theorem sum_update (F : T → A) (hi : i < n) :
    ∃ others, ∑ j ∈ Finset.range n, F (ts j) = F (ts i) + others ∧
      ∑ j ∈ Finset.range n, F (Function.update ts i t j) = F t + others := by
  have hmem : i ∈ Finset.range n := Finset.mem_range.mpr hi
  have hcomp : ∀ j, F (Function.update ts i t j) = Function.update (fun j => F (ts j)) i (F t) j := by
    intro j
    by_cases hji : j = i
    · rw [hji, Function.update_self, Function.update_self]
    · rw [Function.update_of_ne hji, Function.update_of_ne hji]
  refine ⟨_, Finset.sum_eq_add_sum_sdiff_singleton_of_mem hmem fun j => F (ts j), ?_⟩
  rw [Finset.sum_congr rfl fun j _ => hcomp j, Finset.sum_update_of_mem hmem]

/-- What does not change for the thread that does changes for none. -/
theorem update_same {B : Type*} {F : T → B} (h : F t = F (ts i)) (j : ℕ) :
    F (Function.update ts i t j) = F (ts j) := by
  by_cases hji : j = i
  · rw [hji, Function.update_self, h]
  · rw [Function.update_of_ne hji]

end Threads

end Grid
