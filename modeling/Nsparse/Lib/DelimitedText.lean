/-
Nsparse/Lib/DelimitedText.lean

Texts cut at a delimiter, blanks around them, and decimal numbers.

A text is a list of characters, or of anything with decidable equality.  Cutting it at a
delimiter gives pieces without it (`notMem_of_mem_splitOn`), and the pieces behind the
first are shorter than the text (`length_intercalate_tail_lt`).  A text that neither starts
nor ends with a blank is what remains when the blanks around it are dropped
(`trim_pad`).  The digits of a number are read back as that number, whatever follows
(`takeWhile_digits`).
-/
import Mathlib.Data.List.DropRight
import Mathlib.Data.List.TakeWhile
import Mathlib.Tactic

namespace DelimitedText

variable {α : Type*}

/-! ### Pieces -/

section Pieces

variable [DecidableEq α] {a : α} {l : List α} {ls : List (List α)}

theorem notMem_of_mem_splitOn {piece : List α} (h : piece ∈ l.splitOn a) : a ∉ piece := by
  induction l generalizing piece with
  | nil =>
      obtain rfl := List.mem_singleton.mp (List.splitOn_nil a ▸ h)
      exact List.not_mem_nil
  | cons x l ih =>
      rw [List.splitOn_cons_eq_if_modifyHead] at h
      split at h
      · rcases List.mem_cons.mp h with rfl | h
        · exact List.not_mem_nil
        · exact ih h
      · rename_i hx
        have hne : x ≠ a := fun heq => hx (heq ▸ beq_self_eq_true x)
        cases hpieces : l.splitOn a with
        | nil => exact absurd hpieces (List.splitOn_ne_nil a l)
        | cons first rest =>
            rw [hpieces] at h ih
            rcases List.mem_cons.mp h with rfl | h
            · intro hmem
              rcases List.mem_cons.mp hmem with heq | hmem
              · exact hne heq.symm
              · exact ih (List.mem_cons_self ..) hmem
            · exact ih (List.mem_cons_of_mem _ h)

omit [DecidableEq α] in
/-- What is in a text is the delimiter or in one of the pieces. -/
theorem mem_intercalate {x : α} (h : x ∈ [a].intercalate ls) : x = a ∨ ∃ piece ∈ ls, x ∈ piece := by
  induction ls with
  | nil => exact absurd h List.not_mem_nil
  | cons first rest ih =>
      cases rest with
      | nil => exact .inr ⟨first, List.mem_singleton_self _, by simpa using h⟩
      | cons second rest =>
          rw [List.intercalate_cons_cons, List.mem_append, List.mem_append, List.mem_singleton] at h
          rcases h with (h | rfl) | h
          · exact .inr ⟨first, List.mem_cons_self .., h⟩
          · exact .inl rfl
          · rcases ih h with rfl | ⟨piece, hpiece, hx⟩
            · exact .inl rfl
            · exact .inr ⟨piece, List.mem_cons_of_mem _ hpiece, hx⟩

/-- **The pieces behind the first** make a shorter text. -/
theorem length_intercalate_tail_lt (h : l ≠ []) :
    ([a].intercalate (l.splitOn a).tail).length < l.length := by
  have hjoin := @List.intercalate_splitOn _ l _ _ a
  cases hpieces : l.splitOn a with
  | nil => exact absurd hpieces (List.splitOn_ne_nil a l)
  | cons first rest =>
      rw [hpieces] at hjoin
      cases rest with
      | nil => exact List.length_pos_iff.mpr h
      | cons second rest =>
          rw [List.intercalate_cons_cons] at hjoin
          rw [List.tail_cons, ← hjoin]
          simp only [List.length_append, List.length_cons, List.length_nil]
          omega

end Pieces

/-! ### Blanks -/

section Blanks

variable {blank : α → Bool} {text left right : List α}

/-- Neither the first nor the last element is a blank. -/
structure Trimmed (blank : α → Bool) (text : List α) : Prop where
  first : text.head?.any blank = false
  last : text.getLast?.any blank = false

theorem dropWhile_pad (hleft : ∀ a ∈ left, blank a = true) :
    (left ++ text).dropWhile blank = text.dropWhile blank := by
  induction left with
  | nil => rfl
  | cons a left ih =>
      obtain ⟨ha, hleft⟩ := List.forall_mem_cons.mp hleft
      rw [List.cons_append, List.dropWhile_cons_of_pos ha]
      exact ih hleft

theorem rdropWhile_pad (hright : ∀ a ∈ right, blank a = true) :
    (text ++ right).rdropWhile blank = text.rdropWhile blank := by
  rw [List.rdropWhile, List.reverse_append,
    dropWhile_pad fun a ha => hright a (List.mem_reverse.mp ha)]
  rfl

/-- **Dropping the blanks around a trimmed text** leaves it. -/
theorem trim_pad (h : Trimmed blank text) (hleft : ∀ a ∈ left, blank a = true)
    (hright : ∀ a ∈ right, blank a = true) :
    ((left ++ text ++ right).dropWhile blank).rdropWhile blank = text := by
  rw [List.append_assoc, dropWhile_pad hleft]
  cases text with
  | nil =>
      rw [List.nil_append, List.dropWhile_eq_nil_iff.mpr hright]
      rfl
  | cons a text =>
      have ha : ¬ blank a = true := by
        intro hblank
        exact Bool.false_ne_true (h.first.symm.trans hblank)
      rw [List.cons_append, List.dropWhile_cons_of_neg ha, ← List.cons_append,
        rdropWhile_pad hright, List.rdropWhile_eq_self_iff]
      intro hne hblank
      have hlast := h.last
      rw [List.getLast?_eq_getLast_of_ne_nil hne] at hlast
      exact Bool.false_ne_true (hlast.symm.trans hblank)

end Blanks

/-! ### Numbers -/

theorem takeWhile_digits (n : ℕ) :
    (Nat.toDigits 10 n).takeWhile Char.isDigit = Nat.toDigits 10 n :=
  List.takeWhile_eq_self_iff.mpr fun _ hc =>
    Nat.isDigit_of_mem_toDigits (by decide) (by decide) hc

/-- A number has a first digit. -/
theorem exists_digit_cons (n : ℕ) :
    ∃ c rest, Nat.toDigits 10 n = c :: rest ∧ c.isDigit = true := by
  cases hdigits : Nat.toDigits 10 n with
  | nil => exact absurd hdigits Nat.toDigits_ne_nil
  | cons c rest =>
      exact ⟨c, rest, rfl, Nat.isDigit_of_mem_toDigits (by decide) (by decide)
        (hdigits ▸ List.mem_cons_self ..)⟩

end DelimitedText
