/-
Nsparse/Types.lean

Scalars, exceptions and argument checks.

Document ids (`idx_t`) are 32-bit signed integers, modelled as `ℤ` with `toIdx`
wherever the program narrows a wider value; term ids and CSR offsets are natural
numbers.  A throw is `Except.error` with the kind of the exception and its text.
-/
import Mathlib.Data.Int.Basic
import Mathlib.Tactic

namespace Nsparse

/-- `static_cast<idx_t>`: narrow to 32 bits, two's complement. -/
def toIdx (i : ℤ) : ℤ := (BitVec.ofInt 32 i).toInt

theorem toIdx_of_lt {i : ℤ} (h0 : 0 ≤ i) (h : i < 2 ^ 31) : toIdx i = i := by
  rw [toIdx, BitVec.toInt_ofInt, Int.bmod_def]
  norm_num at h ⊢
  omega

theorem toIdx_lt (i : ℤ) : toIdx i < 2 ^ 31 := BitVec.toInt_lt

/-- Narrowing keeps a natural number exactly when it fits. -/
theorem toIdx_eq_self_iff {i : ℕ} : toIdx i = i ↔ i < 2 ^ 31 := by
  constructor
  · intro h
    have hlt := toIdx_lt i
    rw [h] at hlt
    exact_mod_cast hlt
  · intro h
    exact toIdx_of_lt (Int.natCast_nonneg i) (by exact_mod_cast h)

/-- The result of arithmetic on `int`s; outside of their 32 bits it is undefined. -/
def intResult (x : ℤ) : Option ℤ := if -2 ^ 31 ≤ x ∧ x < 2 ^ 31 then some x else none

/-- The label of a result slot that no document fills. -/
def INVALID_IDX : ℤ := -1

/-- What the program throws, with the text of the exception. -/
inductive Exception
  | invalidArgument (what : String)
  | runtimeError (what : String)
  | logicError (what : String)
  | outOfRange (what : String)
  | lengthError (what : String)
  deriving Repr, DecidableEq

/-- `throw_if_not_positive`. -/
def throwIfNotPositive (value : ℤ) (msg : String) : Except Exception Unit :=
  if value ≤ 0 then .error (.invalidArgument msg) else .ok ()

/-- The text `throw_if_not_positive` uses when its caller gives none. -/
def notPositiveMsg : String := "value must be positive"

/-- The text the null checks use when their caller gives none. -/
def nullMsg : String := "unexpected nullptr"

/-- Whether a loaded corpus is copied or borrowed from a file mapping. -/
inductive Residency
  | kInMemory
  | kMmap
  deriving Repr, DecidableEq

/-- What a sequence returned, its first part returned first. -/
theorem bind_eq_ok {α β ε : Type} {x : Except ε α} {f : α → Except ε β} {b : β}
    (h : (x >>= f) = .ok b) : ∃ a, x = .ok a ∧ f a = .ok b := by
  cases x with
  | error e => cases h
  | ok a => exact ⟨a, rfl, h⟩

/-- A pass that never throws is a map. -/
theorem mapM_eq_ok {α β ε : Type} {f : α → Except ε β} {g : α → β} {l : List α}
    (h : ∀ x ∈ l, f x = .ok (g x)) : l.mapM f = .ok (l.map g) := by
  induction l with
  | nil => rfl
  | cons x l ih =>
      rw [List.mapM_cons, h x (List.mem_cons_self ..),
        ih fun y hy => h y (List.mem_cons_of_mem _ hy)]
      rfl

/-- Loops over one list whose turns are the same end the same. -/
theorem foldlM_congr {m : Type → Type} [Monad m] {α β : Type} {f g : β → α → m β} {l : List α}
    (h : ∀ a ∈ l, ∀ b, f b a = g b a) (b : β) : l.foldlM f b = l.foldlM g b := by
  induction l generalizing b with
  | nil => rfl
  | cons a l ih =>
      obtain ⟨ha, hl⟩ := List.forall_mem_cons.mp h
      rw [List.foldlM_cons, List.foldlM_cons, ha]
      congr 1
      funext b
      exact ih hl b

/-- What no step changes is the same after a run. -/
theorem foldl_keeps {σ α γ : Type} (view : σ → γ) {f : σ → α → σ}
    (hstep : ∀ s a, view (f s a) = view s) (l : List α) (s : σ) : view (l.foldl f s) = view s :=
  List.foldlRecOn (motive := fun s' => view s' = view s) l f rfl
    fun s' hs' a _ => (hstep s' a).trans hs'

@[simp] theorem throwIfNotPositive_eq_ok {value : ℤ} {msg : String} :
    throwIfNotPositive value msg = .ok () ↔ 0 < value := by
  unfold throwIfNotPositive
  split <;> simp <;> omega

end Nsparse
