/-
Nsparse/Lib/Csr.lean

Compressed sparse rows: a sequence of rows stored end to end, with an array of
offsets that says where each row begins.

`rows ptr xs` cuts `xs` at the offsets `ptr`; `offsets rs` is the offset array of
a list of rows.  On valid offset arrays (`Offsets`) the two are inverse
(`rows_offsets`, `offsets_rows`, `flatten_rows`), so a fact about a CSR matrix
can be stated and proved about its list of rows.  Appending a matrix whose
offsets are rebased onto the first appends the rows (`rows_append`).
-/
import Mathlib.Data.List.Basic
import Mathlib.Tactic

namespace Csr

variable {α : Type*}

/-- Valid offsets into an array of `n` entries: they start at 0, never decrease and
end at `n`. -/
structure Offsets (ptr : List ℕ) (n : ℕ) : Prop where
  head : ptr.head? = some 0
  mono : ptr.Pairwise (· ≤ ·)
  last : ptr.getLast? = some n

/-- The last offset is the largest. -/
theorem Offsets.le_of_mem {ptr : List ℕ} {n i : ℕ} (h : Offsets ptr n) (hi : i ∈ ptr) : i ≤ n := by
  obtain ⟨init, rfl⟩ := List.getLast?_eq_some_iff.mp h.last
  rcases List.mem_append.mp hi with hi | hi
  · exact (List.pairwise_append.mp h.mono).2.2 i hi n (List.mem_singleton_self n)
  · exact (List.mem_singleton.mp hi).le

/-- Entry `i` of the matrix: the part of `xs` from one offset to the next. -/
def row (ptr : List ℕ) (xs : List α) (i : ℕ) : List α :=
  (xs.drop (ptr.getD i 0)).take (ptr.getD (i + 1) 0 - ptr.getD i 0)

/-- All rows. -/
def rows (ptr : List ℕ) (xs : List α) : List (List α) :=
  (List.range (ptr.length - 1)).map (row ptr xs)

/-- The offsets of `rs` when the first row begins at `a`. -/
def offsetsFrom (a : ℕ) : List (List α) → List ℕ
  | [] => [a]
  | r :: rs => a :: offsetsFrom (a + r.length) rs

/-- The offset array of a list of rows. -/
def offsets (rs : List (List α)) : List ℕ := offsetsFrom 0 rs

/-! ### Offsets of a list of rows -/

@[simp] theorem length_offsetsFrom (a : ℕ) (rs : List (List α)) :
    (offsetsFrom a rs).length = rs.length + 1 := by
  induction rs generalizing a with
  | nil => rfl
  | cons r rs ih => simp [offsetsFrom, ih]

@[simp] theorem length_offsets (rs : List (List α)) : (offsets rs).length = rs.length + 1 :=
  length_offsetsFrom 0 rs

@[simp] theorem offsetsFrom_ne_nil (a : ℕ) (rs : List (List α)) : offsetsFrom a rs ≠ [] := by
  cases rs <;> simp [offsetsFrom]

@[simp] theorem offsets_ne_nil (rs : List (List α)) : offsets rs ≠ [] := offsetsFrom_ne_nil 0 rs

theorem getElem?_offsetsFrom (a : ℕ) (rs : List (List α)) {i : ℕ} (h : i ≤ rs.length) :
    (offsetsFrom a rs)[i]? = some (a + (rs.take i).flatten.length) := by
  induction rs generalizing a i with
  | nil =>
      obtain rfl : i = 0 := by simpa using h
      simp [offsetsFrom]
  | cons r rs ih =>
      cases i with
      | zero => simp [offsetsFrom]
      | succ i =>
          rw [offsetsFrom, List.getElem?_cons_succ, ih _ (by simpa using h)]
          simp [add_assoc]

theorem getD_offsets (rs : List (List α)) {i : ℕ} (h : i ≤ rs.length) :
    (offsets rs).getD i 0 = (rs.take i).flatten.length := by
  rw [List.getD_eq_getElem?_getD, offsets, getElem?_offsetsFrom 0 rs h]
  simp

theorem le_of_mem_offsetsFrom {a b : ℕ} {rs : List (List α)} (h : b ∈ offsetsFrom a rs) :
    a ≤ b := by
  induction rs generalizing a with
  | nil => simpa [offsetsFrom] using (List.mem_singleton.mp h).ge
  | cons r rs ih =>
      rcases List.mem_cons.mp h with rfl | h
      · exact le_rfl
      · exact (Nat.le_add_right a r.length).trans (ih h)

theorem offsetsFrom_pairwise (a : ℕ) (rs : List (List α)) :
    (offsetsFrom a rs).Pairwise (· ≤ ·) := by
  induction rs generalizing a with
  | nil => simp [offsetsFrom]
  | cons r rs ih =>
      refine List.pairwise_cons.mpr ⟨?_, ih _⟩
      intro b hb
      exact (Nat.le_add_right a r.length).trans (le_of_mem_offsetsFrom hb)

theorem getLast?_offsetsFrom (a : ℕ) (rs : List (List α)) :
    (offsetsFrom a rs).getLast? = some (a + rs.flatten.length) := by
  rw [List.getLast?_eq_getElem?, length_offsetsFrom, Nat.add_sub_cancel,
    getElem?_offsetsFrom a rs le_rfl, List.take_length]

/-- Cumulative row lengths are valid offsets. -/
theorem offsets_valid (rs : List (List α)) : Offsets (offsets rs) rs.flatten.length where
  head := by cases rs <;> rfl
  mono := offsetsFrom_pairwise 0 rs
  last := by rw [offsets, getLast?_offsetsFrom, Nat.zero_add]

theorem offsetsFrom_add (a b : ℕ) (rs : List (List α)) :
    offsetsFrom (a + b) rs = (offsetsFrom b rs).map (· + a) := by
  induction rs generalizing b with
  | nil => simp [offsetsFrom, Nat.add_comm]
  | cons r rs ih =>
      rw [offsetsFrom, offsetsFrom, List.map_cons, add_assoc, ih, Nat.add_comm a b]

theorem offsetsFrom_append (a : ℕ) (rs rs' : List (List α)) :
    offsetsFrom a (rs ++ rs')
      = offsetsFrom a rs ++ (offsetsFrom (a + rs.flatten.length) rs').tail := by
  induction rs generalizing a with
  | nil => cases rs' <;> simp [offsetsFrom]
  | cons r rs ih =>
      simp only [List.cons_append, offsetsFrom, ih, List.flatten_cons, List.length_append,
        ← add_assoc]

/-- Offsets of a concatenation: the second array rebased onto the end of the first. -/
theorem offsets_append (rs rs' : List (List α)) :
    offsets (rs ++ rs')
      = offsets rs ++ ((offsets rs').tail).map (· + rs.flatten.length) := by
  rw [offsets, offsetsFrom_append, Nat.zero_add]
  congr 1
  rw [List.map_tail, offsets, ← offsetsFrom_add, Nat.add_zero]

/-! ### Rows of an offset array -/

@[simp] theorem length_rows (ptr : List ℕ) (xs : List α) :
    (rows ptr xs).length = ptr.length - 1 := by simp [rows]

theorem getElem?_rows {ptr : List ℕ} {xs : List α} {i : ℕ} (h : i < ptr.length - 1) :
    (rows ptr xs)[i]? = some (row ptr xs i) := by
  simp [rows, h]

theorem rows_cons_cons (a b : ℕ) (ptr : List ℕ) (xs : List α) :
    rows (a :: b :: ptr) xs = (xs.drop a).take (b - a) :: rows (b :: ptr) xs := by
  simp only [rows, List.length_cons, Nat.add_sub_cancel]
  rw [List.range_succ_eq_map, List.map_cons, List.map_map]
  rfl

/-- Cutting the concatenation of rows at their own offsets gives the rows back. -/
theorem rows_offsets (rs : List (List α)) : rows (offsets rs) rs.flatten = rs := by
  have h : ∀ (rs : List (List α)) (pre : List α),
      rows (offsetsFrom pre.length rs) (pre ++ rs.flatten) = rs := by
    intro rs
    induction rs with
    | nil => intro pre; rfl
    | cons r rs ih =>
        intro pre
        have htail := ih (pre ++ r)
        rw [List.length_append, List.append_assoc] at htail
        obtain ⟨b, ptr, hptr⟩ : ∃ b ptr, offsetsFrom (pre.length + r.length) rs = b :: ptr :=
          List.exists_cons_of_ne_nil (offsetsFrom_ne_nil _ _)
        have hb : b = pre.length + r.length := by
          cases rs <;> simp only [offsetsFrom, List.cons.injEq] at hptr <;> exact hptr.1.symm
        rw [offsetsFrom, hptr, rows_cons_cons, ← hptr, List.flatten_cons, htail, hb,
          List.drop_left, Nat.add_sub_cancel_left, List.take_left]
  simpa [offsets] using h rs []

theorem flatten_rows_cons {a : ℕ} {ptr : List ℕ} {xs : List α}
    (hmono : (a :: ptr).Pairwise (· ≤ ·)) (hlast : (a :: ptr).getLast? = some xs.length) :
    (rows (a :: ptr) xs).flatten = xs.drop a ∧ offsetsFrom a (rows (a :: ptr) xs) = a :: ptr := by
  induction ptr generalizing a with
  | nil =>
      obtain rfl : a = xs.length := by simpa using hlast
      simp [rows, offsetsFrom]
  | cons b ptr ih =>
      obtain ⟨hab, hmono'⟩ := List.pairwise_cons.mp hmono
      have hab : a ≤ b := hab b (List.mem_cons_self ..)
      have hlast' : (b :: ptr).getLast? = some xs.length := by
        rwa [List.getLast?_cons_cons] at hlast
      obtain ⟨hflat, hoff⟩ := ih hmono' hlast'
      have hb : b ≤ xs.length := by
        have hmem := List.mem_of_getLast? hlast'
        rcases List.mem_cons.mp hmem with h | h
        · exact h.ge
        · exact (List.pairwise_cons.mp hmono').1 _ h
      have hlen : ((xs.drop a).take (b - a)).length = b - a := by
        rw [List.length_take, List.length_drop]
        omega
      rw [rows_cons_cons]
      refine ⟨?_, ?_⟩
      · rw [List.flatten_cons, hflat]
        have hdrop : xs.drop b = (xs.drop a).drop (b - a) := by
          rw [List.drop_drop, Nat.add_sub_cancel' hab]
        rw [hdrop, List.take_append_drop]
      · rw [offsetsFrom, hlen, Nat.add_sub_cancel' hab, hoff]

/-- The rows between valid offsets make up the whole array. -/
theorem flatten_rows {ptr : List ℕ} {xs : List α} (h : Offsets ptr xs.length) :
    (rows ptr xs).flatten = xs := by
  obtain ⟨hhead, hmono, hlast⟩ := h
  rcases ptr with - | ⟨a, ptr⟩
  · simp at hhead
  · obtain rfl : a = 0 := by simpa using hhead
    simpa using (flatten_rows_cons hmono hlast).1

/-- Valid offsets are the offsets of the rows they cut. -/
theorem offsets_rows {ptr : List ℕ} {xs : List α} (h : Offsets ptr xs.length) :
    offsets (rows ptr xs) = ptr := by
  obtain ⟨hhead, hmono, hlast⟩ := h
  rcases ptr with - | ⟨a, ptr⟩
  · simp at hhead
  · obtain rfl : a = 0 := by simpa using hhead
    exact (flatten_rows_cons hmono hlast).2

/-- **Rebasing.**  Appending the offsets of a second matrix, shifted by the entry count of
the first, and its entries, appends its rows. -/
theorem rows_append {ptr ptr' : List ℕ} {xs ys : List α} (h : Offsets ptr xs.length)
    (h' : Offsets ptr' ys.length) :
    rows (ptr ++ ptr'.tail.map (· + xs.length)) (xs ++ ys) = rows ptr xs ++ rows ptr' ys := by
  have hx := flatten_rows h
  have hy := flatten_rows h'
  have hptr : ptr ++ ptr'.tail.map (· + xs.length) = offsets (rows ptr xs ++ rows ptr' ys) := by
    rw [offsets_append, offsets_rows h, offsets_rows h', hx]
  have hxs : xs ++ ys = (rows ptr xs ++ rows ptr' ys).flatten := by
    rw [List.flatten_append, hx, hy]
  rw [hptr, hxs, rows_offsets]

/-- Rebasing keeps offsets valid. -/
theorem offsets_valid_append {ptr ptr' : List ℕ} {m n : ℕ} (h : Offsets ptr m)
    (h' : Offsets ptr' n) : Offsets (ptr ++ ptr'.tail.map (· + m)) (m + n) := by
  have hm : ptr = offsets (rows ptr (List.replicate m ())) :=
    (offsets_rows (by simpa using h)).symm
  have hn : ptr' = offsets (rows ptr' (List.replicate n ())) :=
    (offsets_rows (by simpa using h')).symm
  have hml : (rows ptr (List.replicate m ())).flatten.length = m := by
    rw [flatten_rows (by simpa using h), List.length_replicate]
  have hnl : (rows ptr' (List.replicate n ())).flatten.length = n := by
    rw [flatten_rows (by simpa using h'), List.length_replicate]
  have key := offsets_valid (rows ptr (List.replicate m ()) ++ rows ptr' (List.replicate n ()))
  rw [offsets_append, ← hm, ← hn, List.flatten_append, List.length_append, hml, hnl] at key
  exact key

end Csr
