/-
Nsparse/Lib/BitSet.lean

Sets of slots kept as machine words, and the loop that visits them.

The usual way to walk a bitmap takes a word, finds its lowest set bit with a
count of trailing zeros, clears it with `w & (w - 1)`, and goes on until the
word is zero.  `foldSetBits` is that loop; `foldSetBits_eq` says it visits the
set bits in ascending order, each once, and `foldMarked_eq` says the same of
the marked slots of a whole bitmap.
-/
import Mathlib.Data.List.Sort
import Mathlib.Tactic

namespace BitSet

variable {β : Type*} {n : ℕ}

/-! ### One word -/

/-- The set bits of a word, ascending. -/
def setBits (w : BitVec n) : List ℕ := (List.range n).filter w.getLsbD

/-- Visit the set bits of `w`, lowest first, clearing each as it is visited. -/
def foldSetBits (f : β → ℕ → β) : ℕ → BitVec n → β → β
  | 0, _, b => b
  | fuel + 1, w, b =>
      if w = 0 then b else foldSetBits f fuel (w &&& (w - 1)) (f b w.ctz.toNat)

theorem mem_setBits {w : BitVec n} {i : ℕ} : i ∈ setBits w ↔ w.getLsbD i = true := by
  simp only [setBits, List.mem_filter, List.mem_range, and_iff_right_iff_imp]
  exact BitVec.lt_of_getLsbD

theorem setBits_sortedLT (w : BitVec n) : (setBits w).Pairwise (· < ·) :=
  List.Pairwise.filter _ List.pairwise_lt_range

/-- A number with lowest set bit `c` splits around that bit. -/
theorem exists_eq_of_lowest_bit {m c : ℕ} (hlow : ∀ i < c, m.testBit i = false)
    (hc : m.testBit c = true) : ∃ a, m = 2 ^ (c + 1) * a + 2 ^ c := by
  have hmod : m % 2 ^ c = 0 := by
    refine Nat.eq_of_testBit_eq fun i => ?_
    rw [Nat.testBit_mod_two_pow, Nat.zero_testBit]
    by_cases hi : i < c <;> simp [hi, hlow]
  have hodd : m / 2 ^ c % 2 = 1 := by
    rwa [Nat.testBit_eq_decide_div_mod_eq, decide_eq_true_eq] at hc
  refine ⟨m / 2 ^ c / 2, ?_⟩
  have h1 : m = 2 ^ c * (m / 2 ^ c) := (Nat.mul_div_cancel' (Nat.dvd_of_mod_eq_zero hmod)).symm
  have h2 : m / 2 ^ c = 2 * (m / 2 ^ c / 2) + 1 := by omega
  calc m = 2 ^ c * (2 * (m / 2 ^ c / 2) + 1) := by rw [← h2, ← h1]
    _ = 2 ^ (c + 1) * (m / 2 ^ c / 2) + 2 ^ c := by ring

/-- `m & (m - 1)` clears the lowest set bit and nothing else. -/
theorem testBit_land_sub_one {m c : ℕ} (hlow : ∀ i < c, m.testBit i = false)
    (hc : m.testBit c = true) (i : ℕ) :
    (m &&& (m - 1)).testBit i = (m.testBit i && decide (i ≠ c)) := by
  obtain ⟨a, rfl⟩ := exists_eq_of_lowest_bit hlow hc
  have hpos : 0 < 2 ^ c := Nat.two_pow_pos c
  have hlt : 2 ^ c < 2 ^ (c + 1) := Nat.pow_lt_pow_right (by omega) (by omega)
  have hsub : 2 ^ (c + 1) * a + 2 ^ c - 1 = 2 ^ (c + 1) * a + (2 ^ c - 1) := by omega
  rw [Nat.testBit_and, hsub, Nat.testBit_two_pow_mul_add _ hlt,
    Nat.testBit_two_pow_mul_add _ (by omega)]
  rcases lt_trichotomy i c with hi | rfl | hi
  · have hne : c ≠ i := by omega
    simp [show i < c + 1 by omega, hne]
  · simp [Nat.testBit_two_pow_sub_one]
  · simp [show ¬ i < c + 1 by omega, show i ≠ c by omega]

theorem getLsbD_and_sub_one {w : BitVec n} (hw : w ≠ 0) (i : ℕ) :
    (w &&& (w - 1)).getLsbD i = (w.getLsbD i && decide (i ≠ w.ctz.toNat)) := by
  have hpos : 0 < w.toNat := by
    rcases Nat.eq_zero_or_pos w.toNat with h | h
    · exact absurd (BitVec.eq_of_toNat_eq (by simpa using h)) hw
    · exact h
  have hsub : (w - 1).toNat = w.toNat - 1 := by
    rcases n with - | n
    · exact absurd (Subsingleton.elim w 0) hw
    · have hone : (1 : BitVec (n + 1)).toNat = 1 := by simp
      rw [BitVec.toNat_sub_of_le (by rw [BitVec.le_def, hone]; omega), hone]
  have hbit : ∀ j, w.toNat.testBit j = w.getLsbD j := fun j => BitVec.testBit_toNat w
  rw [← BitVec.testBit_toNat, BitVec.toNat_and, hsub, testBit_land_sub_one, hbit]
  · intro j hj
    rw [hbit]
    exact BitVec.getLsbD_false_of_lt_ctz hj
  · rw [hbit]
    exact BitVec.getLsbD_true_ctz_of_ne_zero hw

/-- The lowest set bit comes first, and clearing it leaves the others. -/
theorem setBits_eq_cons {w : BitVec n} (hw : w ≠ 0) :
    setBits w = w.ctz.toNat :: setBits (w &&& (w - 1)) := by
  refine List.Pairwise.eq_of_mem_iff (r := (· < ·)) (setBits_sortedLT w) ?_ ?_
  · refine List.pairwise_cons.mpr ⟨?_, setBits_sortedLT _⟩
    intro i hi
    rw [mem_setBits, getLsbD_and_sub_one hw, Bool.and_eq_true, decide_eq_true_eq] at hi
    by_contra hle
    have hlt : i < w.ctz.toNat := by omega
    rw [BitVec.getLsbD_false_of_lt_ctz hlt] at hi
    exact Bool.false_ne_true hi.1
  · intro i
    rw [List.mem_cons, mem_setBits, mem_setBits, getLsbD_and_sub_one hw]
    by_cases hi : i = w.ctz.toNat
    · simp [hi, BitVec.getLsbD_true_ctz_of_ne_zero hw]
    · simp [hi]

/-- The loop visits exactly the set bits, ascending. -/
theorem foldSetBits_eq (f : β → ℕ → β) :
    ∀ (fuel : ℕ) (w : BitVec n) (b : β), (setBits w).length ≤ fuel →
      foldSetBits f fuel w b = (setBits w).foldl f b := by
  intro fuel
  induction fuel with
  | zero =>
      intro w b h
      rw [List.eq_nil_of_length_eq_zero (Nat.le_zero.mp h)]
      rfl
  | succ fuel ih =>
      intro w b h
      by_cases hw : w = 0
      · subst hw
        have hnil : setBits (0#n) = [] := by
          refine List.eq_nil_iff_forall_not_mem.mpr fun i hi => ?_
          simp [mem_setBits] at hi
        simp [foldSetBits, hnil]
      · rw [setBits_eq_cons hw, List.length_cons] at h
        rw [foldSetBits, if_neg hw, ih _ _ (by omega), setBits_eq_cons hw, List.foldl_cons]

theorem length_setBits_le (w : BitVec n) : (setBits w).length ≤ n :=
  (List.length_filter_le w.getLsbD (List.range n)).trans (by simp)

/-! ### A bitmap of 64-bit words -/

/-- Set the bit of `slot`. -/
def mark (words : List (BitVec 64)) (slot : ℕ) : List (BitVec 64) :=
  words.modify (slot >>> 6) (· ||| (1#64 <<< (slot &&& 63)))

def isMarked (words : List (BitVec 64)) (slot : ℕ) : Bool :=
  (words.getD (slot >>> 6) 0).getLsbD (slot &&& 63)

/-- Visit the marked slots of the first `count` words. -/
def foldMarked (f : β → ℕ → β) (count : ℕ) (words : List (BitVec 64)) (b : β) : β :=
  (List.range count).foldl
    (fun b i => foldSetBits (fun b bit => f b (i <<< 6 ||| bit)) 64 (words.getD i 0) b) b

@[simp] theorem length_mark (words : List (BitVec 64)) (slot : ℕ) :
    (mark words slot).length = words.length := by
  simp [mark]

theorem land_63 (slot : ℕ) : slot &&& 63 = slot % 64 := Nat.and_two_pow_sub_one_eq_mod slot 6

theorem shiftRight_6 (slot : ℕ) : slot >>> 6 = slot / 64 := Nat.shiftRight_eq_div_pow slot 6

theorem isMarked_mark {words : List (BitVec 64)} {slot : ℕ} (h : slot < 64 * words.length)
    (i : ℕ) : isMarked (mark words slot) i = (isMarked words i || decide (i = slot)) := by
  have hword : slot / 64 < words.length := by omega
  simp only [isMarked, mark, land_63, shiftRight_6, List.getD_eq_getElem?_getD,
    List.getElem?_modify]
  by_cases hw : slot / 64 = i / 64
  · rw [← hw, List.getElem?_eq_getElem hword, Option.map_eq_map, Option.map_some,
      Option.getD_some, Option.getD_some, if_pos rfl, BitVec.getLsbD_or]
    congr 1
    have hlt : i % 64 < 64 := Nat.mod_lt _ (by omega)
    by_cases hi : i = slot
    · subst hi
      simp [hlt]
    · have hne : i % 64 ≠ slot % 64 := by omega
      rw [BitVec.getLsbD_shiftLeft, BitVec.getLsbD_one, decide_eq_false hi]
      by_cases hlow : i % 64 < slot % 64
      · simp [hlow]
      · simp [show i % 64 - slot % 64 ≠ 0 by omega]
  · have hi : i ≠ slot := fun h => hw (by rw [h])
    simp [hw, hi]

/-- Nothing else is marked. -/
theorem isMarked_of_mark {words : List (BitVec 64)} {slot i : ℕ}
    (h : isMarked (mark words slot) i = true) : isMarked words i = true ∨ i = slot := by
  by_cases hin : slot < 64 * words.length
  · rw [isMarked_mark hin, Bool.or_eq_true, decide_eq_true_eq] at h
    exact h
  · left
    have hout : mark words slot = words := by
      rw [mark, List.modify_eq_self (by rw [shiftRight_6]; omega)]
    rwa [hout] at h

theorem isMarked_replicate_zero (n i : ℕ) : isMarked (List.replicate n 0) i = false := by
  have hword : (List.replicate n (0 : BitVec 64)).getD (i >>> 6) 0 = 0 := by
    rw [List.getD_eq_getElem?_getD, List.getElem?_replicate]
    split
    · rfl
    · rfl
  rw [isMarked, hword]
  exact BitVec.getLsbD_zero

theorem foldMarked_eq (f : β → ℕ → β) (count : ℕ) (words : List (BitVec 64)) (b : β) :
    foldMarked f count words b
      = ((List.range (64 * count)).filter (isMarked words)).foldl f b := by
  induction count with
  | zero => simp [foldMarked]
  | succ count ih =>
      have hrange : List.range (64 * (count + 1))
          = List.range (64 * count) ++ (List.range 64).map (64 * count + ·) := by
        rw [Nat.mul_succ, List.range_add]
      have hlast : ((List.range 64).map (64 * count + ·)).filter (isMarked words)
          = (setBits (words.getD count 0)).map (64 * count + ·) := by
        rw [List.filter_map, setBits]
        congr 1
        refine List.filter_congr fun i hi => ?_
        have hlt : i < 64 := List.mem_range.mp hi
        simp only [Function.comp_apply, isMarked, land_63, shiftRight_6]
        rw [show (64 * count + i) / 64 = count by omega, show (64 * count + i) % 64 = i by omega]
      rw [hrange, List.filter_append, List.foldl_append, ← ih, hlast, List.foldl_map]
      simp only [foldMarked, List.range_succ, List.foldl_append, List.foldl_cons, List.foldl_nil]
      rw [foldSetBits_eq _ _ _ _ (length_setBits_le _)]
      refine List.foldl_ext _ _ _ fun acc bit hbit => ?_
      have hlt : bit < 64 := BitVec.lt_of_getLsbD (mem_setBits.mp hbit)
      rw [← Nat.shiftLeft_add_eq_or_of_lt (i := 6) hlt, Nat.shiftLeft_eq]
      congr 1
      omega

end BitSet
