/-
Nsparse/Lib/Wire.lean

Byte streams: fixed-width codecs, alignment padding, and readers that give back
what a writer wrote.

A writer appends to the bytes written so far, which it may look at, since padding
depends on how many there are; a reader moves a cursor over finished bytes.
`RoundTrips s r a` says that reading with `r`, from where `s` began to write,
yields `a` and ends where `s` stopped, whatever was written before and after.  It
is stable under sequencing (`RoundTrips.bind`) and repetition
(`RoundTrips.readMany`), so the round trip of a format follows its text.
-/
import Mathlib.Data.List.Basic
import Mathlib.Tactic

namespace Wire

/-- A stream of bytes. -/
abbrev Bytes := List UInt8

/-! ### Little-endian integers -/

/-- The `width` low bytes of `n`, least significant first. -/
def leBytes : ℕ → ℕ → Bytes
  | 0, _ => []
  | width + 1, n => UInt8.ofNat (n % 256) :: leBytes width (n / 256)

/-- The number a little-endian byte string stands for. -/
def leNat : Bytes → ℕ
  | [] => 0
  | b :: bs => b.toNat + 256 * leNat bs

@[simp] theorem length_leBytes (width n : ℕ) : (leBytes width n).length = width := by
  induction width generalizing n with
  | zero => rfl
  | succ width ih => rw [leBytes, List.length_cons, ih]

theorem leNat_lt (bs : Bytes) : leNat bs < 256 ^ bs.length := by
  induction bs with
  | nil => exact Nat.one_pos
  | cons b bs ih =>
      have hb : b.toNat < 256 := b.toNat_lt
      rw [leNat, List.length_cons, pow_succ]
      omega

theorem leNat_leBytes {width n : ℕ} (h : n < 256 ^ width) : leNat (leBytes width n) = n := by
  induction width generalizing n with
  | zero =>
      rw [pow_zero, Nat.lt_one_iff] at h
      rw [h]
      rfl
  | succ width ih =>
      have hdiv : n / 256 < 256 ^ width := by
        rw [pow_succ] at h
        exact Nat.div_lt_of_lt_mul (by rwa [mul_comm] at h)
      have hbyte : (UInt8.ofNat (n % 256)).toNat = n % 256 := by
        rw [UInt8.toNat_ofNat']
        omega
      rw [leBytes, leNat, ih hdiv, hbyte]
      exact Nat.mod_add_div n 256

theorem leBytes_zero (width : ℕ) : leBytes width 0 = List.replicate width 0 := by
  induction width with
  | zero => rfl
  | succ width ih => rw [leBytes, Nat.zero_div, ih]; rfl

/-- Zeros at the end add nothing. -/
theorem leNat_append_zeros (bs : Bytes) (n : ℕ) : leNat (bs ++ List.replicate n 0) = leNat bs := by
  induction bs with
  | nil =>
      induction n with
      | zero => rfl
      | succ n ih =>
          show (0 : UInt8).toNat + 256 * leNat ([] ++ List.replicate n 0) = 0
          rw [ih]
          rfl
  | cons b bs ih => rw [List.cons_append, leNat, ih, leNat]

theorem leBytes_leNat (bs : Bytes) : leBytes bs.length (leNat bs) = bs := by
  induction bs with
  | nil => rfl
  | cons b bs ih =>
      have hb : b.toNat < 256 := b.toNat_lt
      have hmod : (b.toNat + 256 * leNat bs) % 256 = b.toNat := by omega
      have hdiv : (b.toNat + 256 * leNat bs) / 256 = leNat bs := by omega
      rw [List.length_cons, leNat, leBytes, hmod, hdiv, ih, UInt8.ofNat_toNat]

/-! ### Codecs -/

/-- Values stored in `width` bytes each. -/
structure Codec (α : Type*) where
  width : ℕ
  enc : α → Bytes
  dec : Bytes → α
  length_enc : ∀ a, (enc a).length = width

namespace Codec

variable {α β : Type*} (c : Codec α)

/-- The values that survive being stored. -/
def Fits (a : α) : Prop := c.dec (c.enc a) = a

instance [DecidableEq α] (a : α) : Decidable (c.Fits a) := inferInstanceAs (Decidable (_ = _))

/-- Unsigned integers. -/
def nat (width : ℕ) : Codec ℕ where
  width
  enc := leBytes width
  dec := leNat
  length_enc := length_leBytes width

/-- Two's complement integers. -/
def int (width : ℕ) : Codec ℤ where
  width
  enc i := leBytes width (i % (256 ^ width : ℕ)).toNat
  dec bs := if 2 * leNat bs < 256 ^ width then leNat bs else leNat bs - (256 ^ width : ℕ)
  length_enc _ := length_leBytes width _

/-- Single bytes. -/
def byte : Codec UInt8 where
  width := 1
  enc b := [b]
  dec bs := bs.headD 0
  length_enc _ := rfl

theorem fits_nat {width n : ℕ} (h : n < 256 ^ width) : (nat width).Fits n := leNat_leBytes h

theorem fits_int {width : ℕ} {i : ℤ} (hlo : -(256 ^ width : ℕ) ≤ 2 * i)
    (hhi : 2 * i < (256 ^ width : ℕ)) : (int width).Fits i := by
  have hpos : (0 : ℤ) < (256 ^ width : ℕ) := by positivity
  have hmod0 := Int.emod_nonneg i hpos.ne'
  have hmod1 := Int.emod_lt_of_pos i hpos
  have hle : leNat (leBytes width (i % (256 ^ width : ℕ)).toNat) = (i % (256 ^ width : ℕ)).toNat :=
    leNat_leBytes (by omega)
  show (if 2 * leNat (leBytes width (i % (256 ^ width : ℕ)).toNat) < 256 ^ width
      then (leNat (leBytes width (i % (256 ^ width : ℕ)).toNat) : ℤ)
      else leNat (leBytes width (i % (256 ^ width : ℕ)).toNat) - (256 ^ width : ℕ)) = i
  rw [hle]
  rcases le_or_gt 0 i with h | h
  · have hi : i % (256 ^ width : ℕ) = i := Int.emod_eq_of_lt h (by omega)
    rw [hi, if_pos (by omega)]
    omega
  · have hi : i % (256 ^ width : ℕ) = i + (256 ^ width : ℕ) := by
      rw [← Int.add_emod_right, Int.emod_eq_of_lt (by omega) (by omega)]
    rw [hi, if_neg (by omega)]
    omega

theorem fits_byte (b : UInt8) : byte.Fits b := rfl

/-- An array, element after element. -/
def encAll (xs : List α) : Bytes := xs.flatMap c.enc

/-- Read back `n` elements. -/
def decAll : ℕ → Bytes → List α
  | 0, _ => []
  | n + 1, bs => c.dec (bs.take c.width) :: decAll n (bs.drop c.width)

@[simp] theorem length_encAll (xs : List α) : (c.encAll xs).length = xs.length * c.width := by
  induction xs with
  | nil => simp [encAll]
  | cons x xs ih =>
      have : c.encAll (x :: xs) = c.enc x ++ c.encAll xs := rfl
      rw [this, List.length_append, c.length_enc, ih, List.length_cons, Nat.succ_mul, add_comm]

@[simp] theorem length_decAll (n : ℕ) (bs : Bytes) : (c.decAll n bs).length = n := by
  induction n generalizing bs with
  | zero => rfl
  | succ n ih => rw [decAll, List.length_cons, ih]

theorem encAll_append (xs ys : List α) : c.encAll (xs ++ ys) = c.encAll xs ++ c.encAll ys :=
  List.flatMap_append

theorem decAll_append (m n : ℕ) {a b : Bytes} (h : a.length = m * c.width) :
    c.decAll (m + n) (a ++ b) = c.decAll m a ++ c.decAll n b := by
  induction m generalizing a with
  | zero =>
      rw [Nat.zero_mul] at h
      rw [List.eq_nil_of_length_eq_zero h, Nat.zero_add]
      rfl
  | succ m ih =>
      rw [Nat.succ_mul] at h
      have htake : (a ++ b).take c.width = a.take c.width :=
        List.take_append_of_le_length (by omega)
      have hdrop : (a ++ b).drop c.width = a.drop c.width ++ b :=
        List.drop_append_of_le_length (by omega)
      rw [Nat.add_right_comm, decAll, htake, hdrop, ih (by rw [List.length_drop]; omega)]
      rfl

/-- Only the bytes of the elements matter. -/
theorem decAll_take (n : ℕ) (bs : Bytes) : c.decAll n (bs.take (n * c.width)) = c.decAll n bs := by
  induction n generalizing bs with
  | zero => rfl
  | succ n ih =>
      have htake : (bs.take ((n + 1) * c.width)).take c.width = bs.take c.width := by
        rw [List.take_take, min_eq_left (Nat.le_mul_of_pos_left _ (Nat.succ_pos n))]
      have hdrop : (bs.take ((n + 1) * c.width)).drop c.width
          = (bs.drop c.width).take (n * c.width) := by
        rw [List.drop_take, Nat.succ_mul, Nat.add_sub_cancel]
      rw [decAll, decAll, htake, hdrop, ih]

theorem decAll_encAll {xs : List α} (h : ∀ x ∈ xs, c.Fits x) (rest : Bytes) :
    c.decAll xs.length (c.encAll xs ++ rest) = xs := by
  induction xs with
  | nil => rfl
  | cons x xs ih =>
      have hcons : c.encAll (x :: xs) ++ rest = c.enc x ++ (c.encAll xs ++ rest) := by
        simp [encAll]
      obtain ⟨hx, hxs⟩ := List.forall_mem_cons.mp h
      have htake : (c.enc x ++ (c.encAll xs ++ rest)).take c.width = c.enc x := by
        rw [List.take_left' (c.length_enc x)]
      have hdrop : (c.enc x ++ (c.encAll xs ++ rest)).drop c.width = c.encAll xs ++ rest := by
        rw [List.drop_left' (c.length_enc x)]
      rw [hcons, List.length_cons, decAll, htake, hdrop, ih hxs, hx]

/-- Byte arrays are stored as they are. -/
@[simp] theorem encAll_byte (bs : Bytes) : byte.encAll bs = bs := by
  induction bs with
  | nil => rfl
  | cons b bs ih => rw [encAll, List.flatMap_cons, ← encAll, ih]; rfl

theorem mem_decAll {n : ℕ} {bs : Bytes} {x : α} (h : x ∈ c.decAll n bs) :
    ∃ b : Bytes, b.length ≤ c.width ∧ x = c.dec b := by
  induction n generalizing bs with
  | zero => cases h
  | succ n ih =>
      rcases List.mem_cons.mp h with rfl | h
      · exact ⟨bs.take c.width, List.length_take_le _ _, rfl⟩
      · exact ih h

/-- Numbers that were read can be stored again. -/
theorem fits_nat_dec {width : ℕ} {b : Bytes} (h : b.length ≤ width) :
    (nat width).Fits ((nat width).dec b) :=
  fits_nat ((leNat_lt b).trans_le (Nat.pow_le_pow_right (by decide) h))

theorem fits_int_dec {width : ℕ} {b : Bytes} (h : b.length ≤ width) :
    (int width).Fits ((int width).dec b) := by
  have hlt : leNat b < 256 ^ width :=
    (leNat_lt b).trans_le (Nat.pow_le_pow_right (by decide) h)
  show (int width).Fits (if 2 * leNat b < 256 ^ width then (leNat b : ℤ)
    else leNat b - (256 ^ width : ℕ))
  apply fits_int
  · split <;> omega
  · split <;> omega

/-! ### Bytes that were read -/

/-- Values that were read are written back as the same bytes. -/
def Exact : Prop := ∀ b : Bytes, b.length = c.width → c.enc (c.dec b) = b

theorem exact_int (width : ℕ) : (int width).Exact := by
  rintro b rfl
  have hlt : leNat b < 256 ^ b.length := leNat_lt b
  -- a number and its two's complement are the same bytes
  have hmod : (int b.length).dec b % (256 ^ b.length : ℕ) = leNat b := by
    show (if 2 * leNat b < 256 ^ b.length then (leNat b : ℤ)
      else leNat b - (256 ^ b.length : ℕ)) % (256 ^ b.length : ℕ) = leNat b
    split
    · exact Int.emod_eq_of_lt (Int.natCast_nonneg _) (by exact_mod_cast hlt)
    · rw [Int.sub_emod_right]
      exact Int.emod_eq_of_lt (Int.natCast_nonneg _) (by exact_mod_cast hlt)
  show leBytes b.length ((int b.length).dec b % (256 ^ b.length : ℕ)).toNat = b
  rw [hmod, Int.toNat_natCast, leBytes_leNat]

variable {c} in
/-- An array of them, too. -/
theorem Exact.encAll_decAll (h : c.Exact) {n : ℕ} {b : Bytes} (hlen : b.length = n * c.width) :
    c.encAll (c.decAll n b) = b := by
  induction n generalizing b with
  | zero =>
      rw [Nat.zero_mul] at hlen
      rw [List.length_eq_zero_iff.mp hlen]
      rfl
  | succ n ih =>
      rw [Nat.succ_mul] at hlen
      have hhead : (b.take c.width).length = c.width :=
        List.length_take_of_le (hlen ▸ Nat.le_add_left _ _)
      have hrest : (b.drop c.width).length = n * c.width := by
        rw [List.length_drop, hlen, Nat.add_sub_cancel]
      show c.enc (c.dec (b.take c.width)) ++ c.encAll (c.decAll n (b.drop c.width)) = b
      rw [h _ hhead, ih hrest, List.take_append_drop]

/-! ### Records -/

/-- Two values, the second right behind the first. -/
def pair (c : Codec α) (d : Codec β) : Codec (α × β) where
  width := c.width + d.width
  enc p := c.enc p.1 ++ d.enc p.2
  dec bs := (c.dec (bs.take c.width), d.dec (bs.drop c.width))
  length_enc p := by rw [List.length_append, c.length_enc, d.length_enc]

/-- A record that is stored as the tuple of its fields. -/
def record (c : Codec α) (ofFields : α → β) (fields : β → α) : Codec β where
  width := c.width
  enc b := c.enc (fields b)
  dec bs := ofFields (c.dec bs)
  length_enc b := c.length_enc (fields b)

theorem fits_pair {c : Codec α} {d : Codec β} {p : α × β} (h : c.Fits p.1) (h' : d.Fits p.2) :
    (c.pair d).Fits p := by
  show (c.dec ((c.enc p.1 ++ d.enc p.2).take c.width),
    d.dec ((c.enc p.1 ++ d.enc p.2).drop c.width)) = p
  rw [List.take_left' (c.length_enc p.1), List.drop_left' (c.length_enc p.1), h, h']

theorem fits_record {c : Codec α} {ofFields : α → β} {fields : β → α} {b : β}
    (h : c.Fits (fields b)) (hb : ofFields (fields b) = b) :
    (c.record ofFields fields).Fits b := by
  show ofFields (c.dec (c.enc (fields b))) = b
  rw [h, hb]

/-! ### Memory -/

/-- The value stored at `pos`. -/
def readAt (c : Codec α) (data : Bytes) (pos : ℕ) : α := c.dec ((data.drop pos).take c.width)

/-- The array of `n` values that begins at `pos`. -/
def arrayAt (c : Codec α) (data : Bytes) (pos n : ℕ) : List α := c.decAll n (data.drop pos)

theorem getElem?_decAll (c : Codec α) {n i : ℕ} (h : i < n) (bs : Bytes) :
    (c.decAll n bs)[i]? = some (c.readAt bs (c.width * i)) := by
  induction n generalizing i bs with
  | zero => omega
  | succ n ih =>
      rw [decAll]
      cases i with
      | zero => rfl
      | succ i =>
          rw [List.getElem?_cons_succ, ih (by omega), readAt, readAt, List.drop_drop, Nat.mul_succ,
            add_comm]

/-- Entry `i` of an array is stored `i` widths behind its begin. -/
theorem getElem?_arrayAt (c : Codec α) {n i : ℕ} (h : i < n) (data : Bytes) (pos : ℕ) :
    (c.arrayAt data pos n)[i]? = some (c.readAt data (pos + c.width * i)) := by
  rw [arrayAt, getElem?_decAll c h, readAt, readAt, List.drop_drop]

theorem readAt_append {c : Codec α} {a : α} (h : c.Fits a) (pre post : Bytes) :
    c.readAt (pre ++ (c.enc a ++ post)) pre.length = a := by
  rw [readAt, List.drop_left, List.take_left' (c.length_enc a), h]

theorem arrayAt_append {c : Codec α} {xs : List α} (h : ∀ x ∈ xs, c.Fits x) (pre post : Bytes) :
    c.arrayAt (pre ++ (c.encAll xs ++ post)) pre.length xs.length = xs := by
  rw [arrayAt, List.drop_left, c.decAll_encAll h]

end Codec

/-! ### Padding -/

/-- The bytes missing at `pos` to the next multiple of `alignment`. -/
def padding (pos alignment : ℕ) : ℕ := (alignment - pos % alignment) % alignment

theorem padding_lt {pos alignment : ℕ} (h : 0 < alignment) : padding pos alignment < alignment :=
  Nat.mod_lt _ h

theorem dvd_add_padding (pos : ℕ) {alignment : ℕ} (h : 0 < alignment) :
    alignment ∣ pos + padding pos alignment := by
  have hlt := Nat.mod_lt pos h
  have hdiv := Nat.div_add_mod pos alignment
  rcases Nat.eq_zero_or_pos (pos % alignment) with h0 | hpos
  · rw [padding, h0, Nat.sub_zero, Nat.mod_self, add_zero]
    exact Nat.dvd_of_mod_eq_zero h0
  · rw [padding, Nat.mod_eq_of_lt (by omega)]
    refine ⟨pos / alignment + 1, ?_⟩
    rw [Nat.mul_add, Nat.mul_one]
    omega

theorem padding_eq_zero {pos alignment : ℕ} (h : alignment ∣ pos) : padding pos alignment = 0 := by
  rw [padding, Nat.mod_eq_zero_of_dvd h, Nat.sub_zero, Nat.mod_self]

/-! ### Writers and readers -/

/-- A writer takes the bytes written so far to what they become. -/
abbrev Writer := Bytes → Bytes

/-- Append `bs`. -/
def emit (bs : Bytes) : Writer := fun w => w ++ bs

/-- Append zeros up to the next multiple of `alignment`. -/
def padTo (alignment : ℕ) : Writer :=
  fun w => w ++ List.replicate (padding w.length alignment) 0

/-- Write with `s`, then with `t`. -/
def Writer.andThen (s t : Writer) : Writer := fun w => t (s w)

/-- Write all of `xs`, one after the other. -/
def writeMany {α : Type*} (s : α → Writer) (xs : List α) : Writer := fun w =>
  xs.foldl (fun w x => s x w) w

/-- A position in finished bytes. -/
structure Cursor where
  data : Bytes
  pos : ℕ
  deriving Repr, DecidableEq

/-- What is left to read. -/
def Cursor.remaining (c : Cursor) : ℕ := c.data.length - c.pos

/-- A reader moves a cursor and may fail. -/
abbrev Reader (ε α : Type) := Cursor → Except ε (α × Cursor)

variable {ε α β : Type}

/-- Read with `r`, then with what `k` makes of the result. -/
def Reader.bind (r : Reader ε α) (k : α → Reader ε β) : Reader ε β := fun c =>
  match r c with
  | .error e => .error e
  | .ok (a, c) => k a c

theorem Reader.bind_of_ok {r : Reader ε α} {k : α → Reader ε β} {c c' : Cursor} {a : α}
    (h : r c = .ok (a, c')) : r.bind k c = k a c' := by rw [Reader.bind, h]

theorem Reader.bind_of_error {r : Reader ε α} {k : α → Reader ε β} {c : Cursor} {e : ε}
    (h : r c = .error e) : r.bind k c = .error e := by rw [Reader.bind, h]

/-- A sequence of reads that succeeds is two that do. -/
theorem Reader.bind_eq_ok {r : Reader ε α} {k : α → Reader ε β} {c c' : Cursor} {b : β}
    (h : r.bind k c = .ok (b, c')) : ∃ a d, r c = .ok (a, d) ∧ k a d = .ok (b, c') := by
  unfold Reader.bind at h
  cases hr : r c with
  | error e =>
      rw [hr] at h
      cases h
  | ok p =>
      rw [hr] at h
      exact ⟨p.1, p.2, rfl, h⟩

/-- Read with `r` and apply `f` to the result. -/
def Reader.map (f : α → β) (r : Reader ε α) : Reader ε β := fun c =>
  match r c with
  | .error e => .error e
  | .ok (a, c) => .ok (f a, c)

theorem Reader.map_eq_ok {f : α → β} {r : Reader ε α} {c c' : Cursor} {b : β}
    (h : r.map f c = .ok (b, c')) : ∃ a, r c = .ok (a, c') ∧ f a = b := by
  unfold Reader.map at h
  cases hr : r c with
  | error e =>
      rw [hr] at h
      cases h
  | ok p =>
      rw [hr] at h
      obtain ⟨rfl, rfl⟩ := Prod.mk.inj (Except.ok.inj h)
      exact ⟨p.1, rfl, rfl⟩

theorem Reader.map_of_ok {f : α → β} {r : Reader ε α} {c c' : Cursor} {a : α}
    (h : r c = .ok (a, c')) : r.map f c = .ok (f a, c') := by rw [Reader.map, h]

/-- Read nothing and fail when `x` does. -/
def Reader.lift (x : Except ε α) : Reader ε α := fun c =>
  match x with
  | .error e => .error e
  | .ok a => .ok (a, c)

theorem Reader.lift_eq_ok_iff {x : Except ε α} {c c' : Cursor} {a : α} :
    Reader.lift x c = .ok (a, c') ↔ x = .ok a ∧ c' = c := by
  cases x with
  | error e => exact iff_of_false (fun h => by cases h) fun h => by cases h.1
  | ok b =>
      constructor
      · rintro ⟨⟩
        exact ⟨rfl, rfl⟩
      · rintro ⟨⟨⟩, rfl⟩
        rfl

/-- Read `n` values, one after the other. -/
def readMany (r : Reader ε α) : ℕ → Reader ε (List α)
  | 0, c => .ok ([], c)
  | n + 1, c =>
      match r c with
      | .error e => .error e
      | .ok (a, c) =>
          match readMany r n c with
          | .error e => .error e
          | .ok (as, c) => .ok (a :: as, c)

/-- `s` adds to what was written and changes none of it. -/
def Appends (s : Writer) : Prop := ∀ w, w <+: s w

/-- `s` leaves at least `n` bytes. -/
def Leaves (n : ℕ) (s : Writer) : Prop := ∀ w, n ≤ (s w).length

theorem emit_appends (bs : Bytes) : Appends (emit bs) := fun w => List.prefix_append w bs

theorem padTo_appends (alignment : ℕ) : Appends (padTo alignment) := fun w =>
  List.prefix_append w _

theorem Appends.id : Appends id := fun _ => List.prefix_rfl

theorem Appends.andThen {s t : Writer} (hs : Appends s) (ht : Appends t) :
    Appends (s.andThen t) := fun w => (hs w).trans (ht (s w))

theorem Appends.writeMany {α : Type*} {s : α → Writer} (h : ∀ x, Appends (s x)) (xs : List α) :
    Appends (writeMany s xs) := by
  induction xs with
  | nil => exact Appends.id
  | cons x xs ih => exact fun w => (h x w).trans (ih (s x w))

theorem Leaves.left {n : ℕ} {s t : Writer} (hs : Leaves n s) (ht : Appends t) :
    Leaves n (s.andThen t) := fun w => (hs w).trans (ht (s w)).length_le

theorem Leaves.right {n : ℕ} {s t : Writer} (ht : Leaves n t) : Leaves n (s.andThen t) :=
  fun w => ht (s w)

/-- Each of several values is written at some time. -/
theorem exists_le_writeMany {α : Type*} {s : α → Writer} (h : ∀ x, Appends (s x)) {xs : List α}
    {x : α} (hx : x ∈ xs) (w : Bytes) : ∃ v, (s x v).length ≤ (writeMany s xs w).length := by
  induction xs generalizing w with
  | nil => cases hx
  | cons y xs ih =>
      rcases List.mem_cons.mp hx with rfl | hx
      · exact ⟨w, (Appends.writeMany h xs (s x w)).length_le⟩
      · exact ih hx (s y w)

@[simp] theorem length_emit (bs w : Bytes) : (emit bs w).length = w.length + bs.length :=
  List.length_append

@[simp] theorem length_padTo (alignment : ℕ) (w : Bytes) :
    (padTo alignment w).length = w.length + padding w.length alignment := by
  simp [padTo]

/-- Reading with `r` where `s` wrote gives `a` back and ends where `s` stopped. -/
structure RoundTrips (s : Writer) (r : Reader ε α) (a : α) : Prop where
  appends : Appends s
  reads : ∀ w rest, r ⟨s w ++ rest, w.length⟩ = .ok (a, ⟨s w ++ rest, (s w).length⟩)

/-- **Sequencing.** -/
theorem RoundTrips.bind {s t : Writer} {r : Reader ε α} {k : α → Reader ε β} {a : α} {b : β}
    (h : RoundTrips s r a) (h' : RoundTrips t (k a) b) :
    RoundTrips (s.andThen t) (r.bind k) b where
  appends := h.appends.andThen h'.appends
  reads w rest := by
    obtain ⟨ext, hext⟩ := h'.appends (s w)
    have hfirst := h.reads w (ext ++ rest)
    rw [← List.append_assoc, hext] at hfirst
    show (match r ⟨t (s w) ++ rest, w.length⟩ with
      | .error e => Except.error e
      | .ok (a, c) => k a c) = _
    rw [hfirst]
    exact h'.reads (s w) rest

theorem RoundTrips.map {s : Writer} {r : Reader ε α} {a : α} (f : α → β)
    (h : RoundTrips s r a) : RoundTrips s (r.map f) (f a) where
  appends := h.appends
  reads w rest := by rw [Reader.map, h.reads w rest]

/-- **Repetition.** -/
theorem RoundTrips.readMany {s : α → Writer} {r : Reader ε α} {xs : List α}
    (h : ∀ x ∈ xs, RoundTrips (s x) r x) :
    RoundTrips (writeMany s xs) (readMany r xs.length) xs := by
  induction xs with
  | nil => exact ⟨Appends.id, fun _ _ => rfl⟩
  | cons x xs ih =>
      obtain ⟨hx, hxs⟩ := List.forall_mem_cons.mp h
      have hrest := ih hxs
      refine ⟨fun w => (hx.appends w).trans (hrest.appends (s x w)), fun w rest => ?_⟩
      obtain ⟨ext, hext⟩ := hrest.appends (s x w)
      have hfirst := hx.reads w (ext ++ rest)
      rw [← List.append_assoc, hext] at hfirst
      show (match r ⟨writeMany s xs (s x w) ++ rest, w.length⟩ with
        | .error e => Except.error e
        | .ok (a, c) => match Wire.readMany r xs.length c with
          | .error e => Except.error e
          | .ok (as, c) => Except.ok (a :: as, c)) = _
      rw [hfirst]
      dsimp only
      rw [hrest.reads (s x w) rest]
      rfl

/-- Like `RoundTrips`, where what is read may depend on the finished bytes, as when it borrows them:
it satisfies `P` for them. -/
structure Yields (s : Writer) (r : Reader ε α) (P : Bytes → α → Prop) : Prop where
  appends : Appends s
  reads : ∀ w rest, ∃ a, r ⟨s w ++ rest, w.length⟩ = .ok (a, ⟨s w ++ rest, (s w).length⟩) ∧
    P (s w ++ rest) a

theorem RoundTrips.yields {s : Writer} {r : Reader ε α} {a : α} (h : RoundTrips s r a) :
    Yields s r (fun _ b => b = a) where
  appends := h.appends
  reads w rest := ⟨a, h.reads w rest, rfl⟩

theorem Yields.bind {s t : Writer} {r : Reader ε α} {k : α → Reader ε β} {P : Bytes → α → Prop}
    {Q : Bytes → α → β → Prop} (h : Yields s r P) (ht : Appends t)
    (h' : ∀ data a, P data a → ∀ w rest, t w ++ rest = data →
      ∃ b, k a ⟨t w ++ rest, w.length⟩ = .ok (b, ⟨t w ++ rest, (t w).length⟩) ∧ Q data a b) :
    Yields (s.andThen t) (r.bind k) (fun data b => ∃ a, P data a ∧ Q data a b) where
  appends := h.appends.andThen ht
  reads w rest := by
    obtain ⟨ext, hext⟩ := ht (s w)
    obtain ⟨a, hfirst, hP⟩ := h.reads w (ext ++ rest)
    rw [← List.append_assoc, hext] at hfirst hP
    obtain ⟨b, hsecond, hQ⟩ := h' _ a hP (s w) rest rfl
    refine ⟨b, ?_, a, hP, hQ⟩
    show (match r ⟨t (s w) ++ rest, w.length⟩ with
      | .error e => Except.error e
      | .ok (a, c) => k a c) = _
    rw [hfirst]
    exact hsecond

/-- What comes back behind a value that is known. -/
theorem RoundTrips.bindYields {s t : Writer} {r : Reader ε α} {k : α → Reader ε β} {a : α}
    {P : Bytes → β → Prop} (h : RoundTrips s r a) (h' : Yields t (k a) P) :
    Yields (s.andThen t) (r.bind k) P where
  appends := h.appends.andThen h'.appends
  reads w rest := by
    obtain ⟨ext, hext⟩ := h'.appends (s w)
    have hfirst := h.reads w (ext ++ rest)
    rw [← List.append_assoc, hext] at hfirst
    obtain ⟨b, hsecond, hP⟩ := h'.reads (s w) rest
    exact ⟨b, (Reader.bind_of_ok hfirst).trans hsecond, hP⟩

/-- A value that is known behind one that is not. -/
theorem Yields.bindEach {s t : Writer} {r : Reader ε α} {k : α → Reader ε β} {P : Bytes → α → Prop}
    {f : α → β} (h : Yields s r P) (ht : Appends t)
    (h' : ∀ data a, P data a → RoundTrips t (k a) (f a)) :
    Yields (s.andThen t) (r.bind k) (fun data b => ∃ a, P data a ∧ b = f a) := by
  apply h.bind ht
  rintro data a hP w rest rfl
  exact ⟨f a, (h' _ a hP).reads w rest, rfl⟩

theorem Yields.map {s : Writer} {r : Reader ε α} {P : Bytes → α → Prop} {Q : Bytes → β → Prop}
    {f : α → β} (h : Yields s r P) (hf : ∀ data a, P data a → Q data (f a)) :
    Yields s (r.map f) Q where
  appends := h.appends
  reads w rest := by
    obtain ⟨a, hread, hP⟩ := h.reads w rest
    exact ⟨f a, Reader.map_of_ok hread, hf _ a hP⟩

/-! ### Bytes a reader does not take -/

/-- Where `s` wrote, whatever stands around it, `r` fails. -/
def Refuses (s : Writer) (r : Reader ε α) : Prop :=
  ∀ w rest result, r ⟨s w ++ rest, w.length⟩ ≠ .ok result

/-- What comes behind does not help. -/
theorem Refuses.andThen {s t : Writer} {r : Reader ε α} (h : Refuses s r) (ht : Appends t) :
    Refuses (s.andThen t) r := by
  intro w rest result
  obtain ⟨ext, hext⟩ := ht (s w)
  show r ⟨t (s w) ++ rest, w.length⟩ ≠ _
  rw [← hext, List.append_assoc]
  exact h w (ext ++ rest) result

theorem Refuses.bind {s : Writer} {r : Reader ε α} (h : Refuses s r) (k : α → Reader ε β) :
    Refuses s (r.bind k) := by
  rintro w rest ⟨b, c⟩ hread
  obtain ⟨a, d, hfirst, -⟩ := Reader.bind_eq_ok hread
  exact h w rest (a, d) hfirst

theorem Refuses.map {s : Writer} {r : Reader ε α} (h : Refuses s r) (f : α → β) :
    Refuses s (r.map f) := by
  rintro w rest ⟨b, c⟩ hread
  obtain ⟨a, hfirst, -⟩ := Reader.map_eq_ok hread
  exact h w rest (a, c) hfirst

/-- Behind something that is read back. -/
theorem Yields.bindRefuses {s t : Writer} {r : Reader ε α} {k : α → Reader ε β}
    {P : Bytes → α → Prop} (h : Yields s r P) (ht : Appends t)
    (h' : ∀ data a, P data a → Refuses t (k a)) : Refuses (s.andThen t) (r.bind k) := by
  rintro w rest ⟨b, c⟩ hread
  obtain ⟨ext, hext⟩ := ht (s w)
  obtain ⟨a, hfirst, hP⟩ := h.reads w (ext ++ rest)
  rw [← List.append_assoc, hext] at hfirst
  have hsecond : k a ⟨t (s w) ++ rest, (s w).length⟩ = .ok (b, c) :=
    (Reader.bind_of_ok hfirst).symm.trans hread
  exact h' _ a hP (s w) rest (b, c) hsecond

theorem RoundTrips.bindRefuses {s t : Writer} {r : Reader ε α} {k : α → Reader ε β} {a : α}
    (h : RoundTrips s r a) (ht : Appends t) (h' : Refuses t (k a)) :
    Refuses (s.andThen t) (r.bind k) :=
  h.yields.bindRefuses ht fun _ _ hb => hb ▸ h'

end Wire
