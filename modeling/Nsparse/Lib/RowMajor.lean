/-
Nsparse/Lib/RowMajor.lean

Rows of equal length, one after the other in a flat buffer.

Column `j` of row `i` is at `i * k + j`, also in rows that are joined
(`getElem?_flatten`).  Every position below `n * k` is the one of exactly one row and
column (`existsUnique_index`), so a loop over the rows and in it one over the columns
is a loop over the buffer (`foldlM_rows`).

`update f` replaces one element of a buffer by what `f` makes of it.  A loop that
updates every position is a map of the buffer (`foldlM_update`), when `f` is defined
on all of it (`isSome_of_foldlM_update`), and a loop with a turn that fails fails
(`foldlM_eq_none`).
-/
import Mathlib.Tactic

namespace RowMajor

variable {n k i j slot : ℕ}

/-! ### Positions -/

theorem index_lt (hi : i < n) (hj : j < k) : i * k + j < n * k :=
  calc i * k + j < i * k + k := Nat.add_lt_add_left hj _
    _ = (i + 1) * k := (Nat.succ_mul i k).symm
    _ ≤ n * k := Nat.mul_le_mul_right k hi

/-- **Every position belongs to one row and column.** -/
theorem existsUnique_index (h : slot < n * k) :
    ∃! p : ℕ × ℕ, p.1 < n ∧ p.2 < k ∧ p.1 * k + p.2 = slot := by
  have hk : 0 < k := Nat.pos_of_mul_pos_left (Nat.zero_lt_of_lt h)
  refine ⟨(slot / k, slot % k), ⟨?_, Nat.mod_lt slot hk, ?_⟩, ?_⟩
  · exact Nat.div_lt_of_lt_mul (Nat.mul_comm n k ▸ h)
  · exact Nat.div_add_mod' slot k
  · rintro ⟨i, j⟩ ⟨-, hj, rfl⟩
    have hdiv : (i * k + j) / k = i := by
      rw [Nat.add_comm, Nat.add_mul_div_right j i hk, Nat.div_eq_of_lt hj, Nat.zero_add]
    have hmod : (i * k + j) % k = j := by
      rw [Nat.add_comm, Nat.add_mul_mod_self_right, Nat.mod_eq_of_lt hj]
    exact Prod.ext hdiv.symm hmod.symm

/-! ### Rows -/

section Rows

variable {α : Type} {rows : List (List α)}

theorem length_flatten (hrows : ∀ row ∈ rows, row.length = k) :
    rows.flatten.length = rows.length * k := by
  induction rows with
  | nil => exact (Nat.zero_mul k).symm
  | cons row rows ih =>
      obtain ⟨hrow, hrest⟩ := List.forall_mem_cons.mp hrows
      rw [List.flatten_cons, List.length_append, hrow, ih hrest, List.length_cons, Nat.succ_mul,
        Nat.add_comm]

/-- **Rows that are joined** keep their places. -/
theorem getElem?_flatten (hrows : ∀ row ∈ rows, row.length = k) (i : ℕ) (hj : j < k) :
    rows.flatten[i * k + j]? = rows[i]?.bind fun row => row[j]? := by
  induction rows generalizing i with
  | nil => rfl
  | cons row rows ih =>
      obtain ⟨hrow, hrest⟩ := List.forall_mem_cons.mp hrows
      rw [List.flatten_cons]
      cases i with
      | zero =>
          rw [Nat.zero_mul, Nat.zero_add, List.getElem?_append_left (hrow.symm ▸ hj)]
          rfl
      | succ i =>
          have hpast : (i + 1) * k + j = row.length + (i * k + j) := by
            rw [hrow, Nat.succ_mul]
            omega
          rw [hpast, List.getElem?_append_right (Nat.le_add_right _ _), Nat.add_sub_cancel_left,
            ih hrest i]
          rfl

end Rows

/-! ### Loops -/

/-- **Two loops over rows and columns are one over the buffer.** -/
theorem foldlM_rows {m : Type → Type} [Monad m] [LawfulMonad m] {σ : Type} (f : σ → ℕ → m σ)
    (n k : ℕ) (s : σ) :
    (List.range n).foldlM (fun s i => (List.range k).foldlM (fun s j => f s (i * k + j)) s) s
      = (List.range (n * k)).foldlM f s := by
  induction n with
  | zero => rw [Nat.zero_mul]; rfl
  | succ n ih =>
      rw [List.range_succ, List.foldlM_append, ih, Nat.succ_mul, List.range_add,
        List.foldlM_append]
      refine bind_congr fun s => ?_
      rw [List.foldlM_cons, List.foldlM_map]
      simp only [List.foldlM_nil, bind_pure]

/-- A loop with a turn that fails in every state fails. -/
theorem foldlM_eq_none {σ α : Type} {f : σ → α → Option σ} {x : α} (hf : ∀ s, f s x = none) :
    ∀ (xs : List α) (s : σ), x ∈ xs → xs.foldlM f s = none := by
  intro xs
  induction xs with
  | nil => exact fun s h => absurd h List.not_mem_nil
  | cons y ys ih =>
      intro s h
      rw [List.foldlM_cons]
      rcases List.mem_cons.mp h with rfl | hmem
      · rw [hf s]
        rfl
      · rcases f s y with - | s'
        · rfl
        · exact ih s' hmem

variable {α : Type}

/-- Replace the element at `slot` by what `f` makes of it. -/
def update (f : α → Option α) (xs : List α) (slot : ℕ) : Option (List α) := do
  let x ← xs[slot]?
  let y ← f x
  some (xs.set slot y)

/-- **Updating every position is a map.** -/
theorem foldlM_update {f : α → Option α} {g : α → α} {xs : List α} {count : ℕ}
    (hcount : count ≤ xs.length) (h : ∀ x ∈ xs.take count, f x = some (g x)) :
    (List.range count).foldlM (update f) xs = some ((xs.take count).map g ++ xs.drop count) := by
  induction count with
  | zero => simp
  | succ count ih =>
      have hlt : count < xs.length := hcount
      have htake : xs.take (count + 1) = xs.take count ++ [xs[count]] :=
        List.take_succ_eq_append_getElem hlt
      rw [htake] at h
      have hdone := ih hlt.le fun x hx => h x (List.mem_append_left _ hx)
      have hx : f xs[count] = some (g xs[count]) :=
        h _ (List.mem_append_right _ (List.mem_singleton_self _))
      have hlen : ((xs.take count).map g).length = count := by
        rw [List.length_map, List.length_take_of_le hlt.le]
      -- the element at `count` is the first that is left
      rw [List.range_succ, List.foldlM_append, hdone, List.drop_eq_getElem_cons hlt]
      show update f ((xs.take count).map g ++ xs[count] :: xs.drop (count + 1)) count >>= some = _
      rw [update, List.getElem?_append_right hlen.le, hlen, Nat.sub_self, List.getElem?_cons_zero]
      show (f xs[count] >>= fun y => some (List.set _ count y)) >>= some = _
      rw [hx, htake, List.map_append]
      show some (List.set _ count (g xs[count])) = _
      rw [List.set_append_right _ _ hlen.le, hlen, Nat.sub_self, List.set_cons_zero,
        List.append_assoc]
      rfl

/-- Only elements on which `f` is defined can be updated. -/
theorem isSome_of_foldlM_update {f : α → Option α} {xs ys : List α} {count : ℕ}
    (hcount : count ≤ xs.length) (h : (List.range count).foldlM (update f) xs = some ys) :
    ∀ x ∈ xs.take count, (f x).isSome = true := by
  induction count generalizing ys with
  | zero => simp
  | succ count ih =>
      have hlt : count < xs.length := hcount
      rw [List.range_succ, List.foldlM_append] at h
      obtain ⟨zs, hzs, h⟩ := Option.bind_eq_some_iff.mp h
      have hbefore := ih hlt.le hzs
      -- so far the loop was a map
      have hmap : ∀ x ∈ xs.take count, f x = some ((f x).getD x) := by
        intro x hx
        obtain ⟨y, hy⟩ := Option.isSome_iff_exists.mp (hbefore x hx)
        rw [hy, Option.getD_some]
      rw [foldlM_update hlt.le hmap] at hzs
      obtain rfl := Option.some.inj hzs
      intro x hx
      rw [List.take_succ_eq_append_getElem hlt] at hx
      rcases List.mem_append.mp hx with hx | hx
      · exact hbefore x hx
      · obtain rfl := List.mem_singleton.mp hx
        rw [List.foldlM_cons] at h
        obtain ⟨ws, hws, -⟩ := Option.bind_eq_some_iff.mp h
        obtain ⟨x, hat, hws⟩ := Option.bind_eq_some_iff.mp hws
        obtain ⟨y, hy, -⟩ := Option.bind_eq_some_iff.mp hws
        have hlen : ((xs.take count).map fun x => (f x).getD x).length = count := by
          rw [List.length_map, List.length_take_of_le hlt.le]
        rw [List.getElem?_append_right hlen.le, hlen, Nat.sub_self, List.getElem?_drop,
          Nat.add_zero, List.getElem?_eq_getElem hlt] at hat
        obtain rfl := Option.some.inj hat
        rw [hy]
        rfl

end RowMajor
