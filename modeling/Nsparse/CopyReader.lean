/-
Nsparse/CopyReader.lean

Reading a stream by copying.

The copying readers go through the virtual `IOReader`, whose `read` delivers as many
bytes as it has and leaves it to the caller to notice that they are too few.  Only
the array read does: a scalar that is cut short keeps what it held in the bytes that
did not come, and padding that is cut short is skipped as far as it goes.

`buffered` is the reader over bytes in memory; a file read by `fread` delivers the
same bytes.  `guarded` is that reader with an alarm: it stops at the first request
that it cannot fill, so a run of it says whether the reader runs short.

`Walks` relates a copying reader on guarded bytes to a mapped one: both follow one
layout, which names the value read and the place where the section stops.
-/
import Nsparse.Serialize

namespace Nsparse

open Wire

variable {α β : Type}

/-- How a copying reader goes wrong: the program throws, it has more padding delivered than its
buffer of 8 bytes holds, or it loads from an array that is not there; and the alarm of a guarded
stream. -/
inductive Fault
  | thrown (e : Exception)
  | overrun
  | nullLoad
  | short
  deriving Repr, DecidableEq

/-- `IOReader`: ask for some bytes, and get at most as many. -/
structure IOReader where
  read : ℕ → Reader Fault Bytes

/-- `BufferedIOReader`. -/
def IOReader.buffered : IOReader where
  read bytes cursor := .ok ((cursor.data.drop cursor.pos).take bytes,
    { cursor with pos := cursor.pos + min bytes cursor.remaining })

/-- The same with an alarm. -/
def IOReader.guarded : IOReader where
  read bytes cursor :=
    if cursor.remaining < bytes then .error .short else IOReader.buffered.read bytes cursor

/-- `kMaxAlignment`. -/
def kMaxAlignment : ℕ := 8

/-- What `padding_for` throws for an alignment of 0. -/
def zeroWidth : Exception := .runtimeError "index file declares a zero element width"

namespace IOReader

variable (io : IOReader)

/-- `io_reader->read` of one scalar that holds `init`; the result of the call is not looked at. -/
def readScalar (c : Codec α) (init : α) : Reader Fault α :=
  (io.read c.width).map fun bytes => c.dec (bytes ++ (c.enc init).drop bytes.length)

/-- `skip_padding`, into a buffer of `kMaxAlignment` bytes. -/
def skipPadding (alignment : ℕ) : Reader Fault Unit := fun cursor =>
  if alignment = 0 then .error (.thrown zeroWidth)
  else if padding cursor.pos alignment = 0 then .ok ((), cursor)
  else
    match io.read (padding cursor.pos alignment) cursor with
    | .error e => .error e
    | .ok (discard, cursor) =>
        if kMaxAlignment < discard.length then .error .overrun else .ok ((), cursor)

/-- `read_owned`; a vector does not get longer than `PTRDIFF_MAX` bytes. -/
def readOwned (c : Codec α) (count : ℕ) : Reader Fault (List α) := fun cursor =>
  if count = 0 then .ok ([], cursor)
  else if 2 ^ 63 ≤ count * c.width then
    .error (.thrown (.lengthError "cannot create std::vector larger than max_size()"))
  else
    match io.read (count * c.width) cursor with
    | .error e => .error e
    | .ok (bytes, cursor) =>
        if bytes.length / c.width ≠ count then
          .error (.thrown (.runtimeError "Truncated array in index file"))
        else .ok (c.decAll count bytes, cursor)

/-- `read_padded`. -/
def readPadded (c : Codec α) (count alignment : ℕ) : Reader Fault (List α) :=
  (io.skipPadding alignment).bind fun _ => io.readOwned c count

/-- Throw what a check throws. -/
def check (x : Except Exception α) : Reader Fault α := fun cursor =>
  match x with
  | .error e => .error (.thrown e)
  | .ok a => .ok (a, cursor)

/-- `checked_mul` and `read_padded` for values that are used as words of `elementSize`. -/
def readWords (count elementSize : ℕ) : Reader Fault Bytes :=
  (check (checkedMul count elementSize)).bind fun bytes => io.readPadded .byte bytes elementSize

end IOReader

/-- The place of the next array of this alignment. -/
def alignTo (pos alignment : ℕ) : ℕ := pos + padding pos alignment

/-- Where an array of `count` elements of `width` bytes ends that is stored behind `pos`. -/
def arrayEnd (pos width count : ℕ) : ℕ := alignTo pos width + count * width

theorem le_arrayEnd (pos width count : ℕ) : pos ≤ arrayEnd pos width count :=
  (Nat.le_add_right _ _).trans (Nat.le_add_right _ _)

/-- The words at the end of a section, as its bytes declare them; padding begins at `start`. -/
structure WordSection where
  count : ℕ
  width : ℕ
  start : ℕ

namespace WordSection

variable (s : WordSection)

/-- Where the words end. -/
def next : ℕ := alignTo s.start s.width + s.count * s.width

/-- The padding fits the buffer it is read into. -/
def Padded : Prop := padding s.start s.width ≤ kMaxAlignment

theorem start_le_next : s.start ≤ s.next :=
  (Nat.le_add_right _ _).trans (Nat.le_add_right _ _)

end WordSection

/-! ### Two readers, one layout -/

/-- The outcomes of a copying and of a mapped reader match: both accept and give back the same
from the same bytes, or both throw. -/
def SameOutcome : Except Fault (α × Cursor) → Except Exception (α × Cursor) → Prop
  | .ok x, .ok y => x = y
  | .error (.thrown _), .error _ => True
  | _, _ => False

instance [DecidableEq α] : (x : Except Fault (α × Cursor)) → (y : Except Exception (α × Cursor)) →
    Decidable (SameOutcome x y)
  | .ok x, .ok y => inferInstanceAs (Decidable (x = y))
  | .ok _, .error _ => isFalse id
  | .error (.thrown _), .error _ => isTrue trivial
  | .error (.thrown _), .ok _ => isFalse id
  | .error .overrun, _ => isFalse id
  | .error .nullLoad, _ => isFalse id
  | .error .short, _ => isFalse id

/-- On guarded bytes `r` runs short and `m` throws, or both throw because the section stops where
no buffer reaches, or both read `a` and are at `stop`. -/
inductive Walks (r : Reader Fault α) (m : Reader Exception α) (data : Bytes) (pos stop : ℕ) (a : α) :
    Prop
  | short (e : Exception) (hr : r ⟨data, pos⟩ = .error .short) (hm : m ⟨data, pos⟩ = .error e)
      (hlen : data.length < stop)
  | thrown (e : Exception) (e' : Exception) (hr : r ⟨data, pos⟩ = .error (.thrown e))
      (hm : m ⟨data, pos⟩ = .error e') (hlen : 2 ^ 63 ≤ stop)
  | read (hr : r ⟨data, pos⟩ = .ok (a, ⟨data, stop⟩)) (hm : m ⟨data, pos⟩ = .ok (a, ⟨data, stop⟩))
      (hpos : pos ≤ stop) (hlen : stop ≤ data.length)

/-- Sequencing. -/
theorem Walks.bind {r : Reader Fault α} {m : Reader Exception α} {k : α → Reader Fault β}
    {k' : α → Reader Exception β} {data : Bytes} {pos mid stop : ℕ} {a : α} {b : β}
    (h : Walks r m data pos mid a) (hle : mid ≤ stop)
    (h' : mid ≤ data.length → Walks (k a) (k' a) data mid stop b) :
    Walks (r.bind k) (m.bind k') data pos stop b := by
  cases h with
  | short e hr hm hlen =>
      exact .short e (by rw [Reader.bind, hr]) (by rw [Reader.bind, hm]) (hlen.trans_le hle)
  | thrown e e' hr hm hlen =>
      exact .thrown e e' (by rw [Reader.bind, hr]) (by rw [Reader.bind, hm]) (hlen.trans hle)
  | read hr hm hpos hlen =>
      cases h' hlen with
      | short e hr' hm' hlen' =>
          exact .short e (by rw [Reader.bind, hr]; exact hr') (by rw [Reader.bind, hm]; exact hm') hlen'
      | thrown e e' hr' hm' hlen' =>
          exact .thrown e e' (by rw [Reader.bind, hr]; exact hr') (by rw [Reader.bind, hm]; exact hm')
            hlen'
      | read hr' hm' hpos' hlen' =>
          exact .read (by rw [Reader.bind, hr]; exact hr') (by rw [Reader.bind, hm]; exact hm')
            (hpos.trans hle) hlen'

theorem Walks.map {r : Reader Fault α} {m : Reader Exception α} {data : Bytes} {pos stop : ℕ}
    {a : α} (f : α → β) (h : Walks r m data pos stop a) :
    Walks (r.map f) (m.map f) data pos stop (f a) := by
  cases h with
  | short e hr hm hlen => exact .short e (by rw [Reader.map, hr]) (by rw [Reader.map, hm]) hlen
  | thrown e e' hr hm hlen =>
      exact .thrown e e' (by rw [Reader.map, hr]) (by rw [Reader.map, hm]) hlen
  | read hr hm hpos hlen =>
      exact .read (by rw [Reader.map, hr]) (by rw [Reader.map, hm]) hpos hlen

/-! ### Without the alarm -/

/-- `r` either raises the alarm or does what `r'` does. -/
def Unalarmed (r r' : Reader Fault α) : Prop := ∀ cursor, r cursor = .error .short ∨ r cursor = r' cursor

theorem Unalarmed.refl (r : Reader Fault α) : Unalarmed r r := fun _ => .inr rfl

theorem Unalarmed.bind {r r' : Reader Fault α} {k k' : α → Reader Fault β} (h : Unalarmed r r')
    (h' : ∀ a, Unalarmed (k a) (k' a)) : Unalarmed (r.bind k) (r'.bind k') := fun cursor => by
  rcases h cursor with hshort | heq
  · exact .inl (by rw [Reader.bind, hshort])
  · rw [Reader.bind, Reader.bind, ← heq]
    rcases r cursor with e | ⟨a, next⟩
    · exact .inr rfl
    · exact h' a next

theorem Unalarmed.map {r r' : Reader Fault α} (f : α → β) (h : Unalarmed r r') :
    Unalarmed (r.map f) (r'.map f) := fun cursor => by
  rcases h cursor with hshort | heq
  · exact .inl (by rw [Reader.map, hshort])
  · exact .inr (by rw [Reader.map, Reader.map, heq])

theorem Unalarmed.readMany {r r' : Reader Fault α} (h : Unalarmed r r') (n : ℕ) :
    Unalarmed (readMany r n) (readMany r' n) := by
  induction n with
  | zero => exact .refl _
  | succ n ih =>
      intro cursor
      rcases h cursor with hshort | heq
      · exact .inl (by rw [Wire.readMany, hshort])
      · rw [Wire.readMany, Wire.readMany, ← heq]
        rcases r cursor with e | ⟨a, next⟩
        · exact .inr rfl
        · dsimp only
          rcases ih next with hshort | heq
          · exact .inl (by rw [hshort])
          · exact .inr (by rw [heq])

/-- Where the bytes suffice both readers read, with or without the alarm. -/
theorem Walks.of_fits {r r' : Reader Fault α} {m : Reader Exception α} {data : Bytes}
    {pos stop : ℕ} {a : α} (h : Walks r m data pos stop a) (hr' : Unalarmed r r')
    (hdata : data.length < 2 ^ 63) (hfits : stop ≤ data.length) :
    r' ⟨data, pos⟩ = .ok (a, ⟨data, stop⟩) ∧ m ⟨data, pos⟩ = .ok (a, ⟨data, stop⟩) := by
  cases h with
  | short e hr hm hlen => exact absurd hfits (not_le.mpr hlen)
  | thrown e e' hr hm hlen => exact absurd (hlen.trans hfits) (not_le.mpr hdata)
  | read hr hm hpos hlen =>
      rcases hr' ⟨data, pos⟩ with hshort | heq
      · rw [hr] at hshort
        cases hshort
      · exact ⟨heq.symm.trans hr, hm⟩

/-- Where they do not, the mapped reader throws. -/
theorem Walks.mapped_error {r : Reader Fault α} {m : Reader Exception α} {data : Bytes}
    {pos stop : ℕ} {a : α} (h : Walks r m data pos stop a) (hcut : data.length < stop) :
    ∃ e, m ⟨data, pos⟩ = .error e := by
  cases h with
  | short e hr hm hlen => exact ⟨e, hm⟩
  | thrown e e' hr hm hlen => exact ⟨e', hm⟩
  | read hr hm hpos hlen => exact absurd hlen (not_le.mpr hcut)

theorem unalarmed_read (n : ℕ) : Unalarmed (IOReader.guarded.read n) (IOReader.buffered.read n) :=
  fun cursor => by
    by_cases h : cursor.remaining < n
    · exact .inl (if_pos h)
    · exact .inr (if_neg h)

theorem unalarmed_readScalar (c : Codec α) (init : α) :
    Unalarmed (IOReader.guarded.readScalar c init) (IOReader.buffered.readScalar c init) :=
  (unalarmed_read _).map _

theorem unalarmed_skipPadding (alignment : ℕ) :
    Unalarmed (IOReader.guarded.skipPadding alignment) (IOReader.buffered.skipPadding alignment) :=
  fun cursor => by
    rw [IOReader.skipPadding, IOReader.skipPadding]
    split
    · exact .inr rfl
    split
    · exact .inr rfl
    rcases unalarmed_read (padding cursor.pos alignment) cursor with hshort | heq
    · exact .inl (by rw [hshort])
    · exact .inr (by rw [heq])

theorem unalarmed_readOwned (c : Codec α) (count : ℕ) :
    Unalarmed (IOReader.guarded.readOwned c count) (IOReader.buffered.readOwned c count) :=
  fun cursor => by
    rw [IOReader.readOwned, IOReader.readOwned]
    split
    · exact .inr rfl
    split
    · exact .inr rfl
    rcases unalarmed_read (count * c.width) cursor with hshort | heq
    · exact .inl (by rw [hshort])
    · exact .inr (by rw [heq])

theorem unalarmed_readPadded (c : Codec α) (count alignment : ℕ) :
    Unalarmed (IOReader.guarded.readPadded c count alignment)
      (IOReader.buffered.readPadded c count alignment) :=
  (unalarmed_skipPadding alignment).bind fun _ => unalarmed_readOwned c count

theorem unalarmed_readWords (count elementSize : ℕ) :
    Unalarmed (IOReader.guarded.readWords count elementSize)
      (IOReader.buffered.readWords count elementSize) :=
  (Unalarmed.refl _).bind fun bytes => unalarmed_readPadded .byte bytes elementSize

/-! ### The primitives -/

theorem guarded_read {n : ℕ} {data : Bytes} {pos : ℕ} (h : pos + n ≤ data.length) :
    IOReader.guarded.read n ⟨data, pos⟩ = .ok ((data.drop pos).take n, ⟨data, pos + n⟩) := by
  have hrem : n ≤ (Cursor.mk data pos).remaining := by
    show n ≤ data.length - pos
    omega
  show (if _ then _ else _) = _
  rw [if_neg (not_lt.mpr hrem)]
  show Except.ok _ = _
  rw [min_eq_left hrem]

theorem guarded_read_short {n : ℕ} {data : Bytes} {pos : ℕ} (hpos : pos ≤ data.length)
    (h : data.length < pos + n) : IOReader.guarded.read n ⟨data, pos⟩ = .error .short := by
  refine if_pos ?_
  show data.length - pos < n
  omega

/-- A scalar is cut short, or both readers read it. -/
theorem readScalar_cases (c : Codec α) (init : α) {data : Bytes} {pos : ℕ}
    (hpos : pos ≤ data.length) :
    (data.length < pos + c.width ∧
        IOReader.guarded.readScalar c init ⟨data, pos⟩ = .error .short ∧
        readScalar c ⟨data, pos⟩ = .error endOfFile) ∨
      pos + c.width ≤ data.length ∧
        IOReader.guarded.readScalar c init ⟨data, pos⟩
          = .ok (c.readAt data pos, ⟨data, pos + c.width⟩) ∧
        readScalar c ⟨data, pos⟩ = .ok (c.readAt data pos, ⟨data, pos + c.width⟩) := by
  rcases le_or_gt (pos + c.width) data.length with h | h
  · refine .inr ⟨h, ?_, ?_⟩
    · have hlen : ((data.drop pos).take c.width).length = c.width := by
        rw [List.length_take, List.length_drop]
        omega
      rw [IOReader.readScalar, Reader.map, guarded_read h]
      dsimp only
      rw [hlen, List.drop_of_length_le (c.length_enc init).le, List.append_nil]
      rfl
    · rw [readScalar, if_neg]
      · rfl
      · show ¬ data.length - pos < c.width
        omega
  · refine .inl ⟨h, ?_, ?_⟩
    · rw [IOReader.readScalar, Reader.map, guarded_read_short hpos h]
    · rw [readScalar, if_pos]
      show data.length - pos < c.width
      omega

theorem walks_readScalar (c : Codec α) (init : α) {data : Bytes} {pos : ℕ}
    (hpos : pos ≤ data.length) :
    Walks (IOReader.guarded.readScalar c init) (readScalar c) data pos (pos + c.width)
      (c.readAt data pos) := by
  rcases readScalar_cases c init hpos with ⟨hlen, hr, hm⟩ | ⟨hlen, hr, hm⟩
  · exact .short endOfFile hr hm hlen
  · exact .read hr hm (Nat.le_add_right _ _) hlen

theorem guarded_skipPadding_short {alignment : ℕ} (halign : 0 < alignment) {data : Bytes} {pos : ℕ}
    (hpos : pos ≤ data.length) (h : data.length < alignTo pos alignment) :
    IOReader.guarded.skipPadding alignment ⟨data, pos⟩ = .error .short := by
  have h0 : padding pos alignment ≠ 0 := fun h0 => by
    rw [alignTo, h0] at h
    omega
  rw [IOReader.skipPadding, if_neg halign.ne', if_neg h0]
  dsimp only
  rw [guarded_read_short hpos h]

/-- Padding that fits the buffer. -/
theorem walks_skipPadding {alignment : ℕ} (halign : 0 < alignment) {data : Bytes} {pos : ℕ}
    (hpad : padding pos alignment ≤ kMaxAlignment) (hpos : pos ≤ data.length) :
    Walks (IOReader.guarded.skipPadding alignment) (skipPadding alignment) data pos
      (alignTo pos alignment) () := by
  rcases le_or_gt (alignTo pos alignment) data.length with h | h
  · refine .read ?_ ?_ (Nat.le_add_right _ _) h
    · rw [IOReader.skipPadding, if_neg halign.ne']
      split
      · rename_i h0
        rw [alignTo, h0]
        rfl
      · have hlen : ((data.drop pos).take (padding pos alignment)).length ≤ kMaxAlignment :=
          (List.length_take_le _ _).trans hpad
        dsimp only
        rw [guarded_read h]
        dsimp only
        rw [if_neg (not_lt.mpr hlen)]
        rfl
    · rw [skipPadding, if_neg halign.ne', skip, if_neg]
      · rfl
      · show ¬ data.length - pos < padding pos alignment
        rw [alignTo] at h
        omega
  · refine .short endOfFile (guarded_skipPadding_short halign hpos h) ?_ h
    rw [skipPadding, if_neg halign.ne', skip, if_pos]
    show data.length - pos < padding pos alignment
    rw [alignTo] at h
    omega

/-- Padding that does not. -/
theorem guarded_skipPadding_overrun {alignment : ℕ} {data : Bytes} {pos : ℕ}
    (hpad : kMaxAlignment < padding pos alignment) (halign : 0 < alignment)
    (h : alignTo pos alignment ≤ data.length) :
    IOReader.guarded.skipPadding alignment ⟨data, pos⟩ = .error .overrun := by
  have hlen : ((data.drop pos).take (padding pos alignment)).length = padding pos alignment := by
    rw [alignTo] at h
    rw [List.length_take, List.length_drop]
    omega
  have h0 : padding pos alignment ≠ 0 := Nat.ne_of_gt ((Nat.zero_le _).trans_lt hpad)
  rw [IOReader.skipPadding, if_neg halign.ne', if_neg h0]
  dsimp only
  rw [guarded_read h]
  dsimp only
  rw [hlen, if_pos hpad]

theorem walks_readOwned (c : Codec α) (hwidth : 0 < c.width) (count : ℕ) {data : Bytes} {pos : ℕ}
    (hdata : data.length < 2 ^ 63) (hpos : pos ≤ data.length) (halign : pos % c.width = 0) :
    Walks (IOReader.guarded.readOwned c count) (readArray c count) data pos (pos + count * c.width)
      (c.arrayAt data pos count) := by
  by_cases h0 : count = 0
  · subst h0
    refine .read ?_ ?_ (Nat.le_add_right _ _) (by rwa [Nat.zero_mul])
    · rw [IOReader.readOwned, if_pos rfl, Nat.zero_mul]
      rfl
    · rw [readArray, if_pos rfl, Nat.zero_mul]
      rfl
  · rcases le_or_gt (pos + count * c.width) data.length with h | h
    · refine .read ?_ ?_ (Nat.le_add_right _ _) h
      · have hlen : ((data.drop pos).take (count * c.width)).length / c.width = count := by
          rw [List.length_take, List.length_drop, min_eq_left (by omega),
            Nat.mul_div_cancel _ hwidth]
        have hdec : c.decAll count ((data.drop pos).take (count * c.width))
            = c.arrayAt data pos count := c.decAll_take count (data.drop pos)
        rw [IOReader.readOwned, if_neg h0, if_neg (by omega), guarded_read h]
        dsimp only
        rw [if_neg (not_not.mpr hlen), hdec]
      · rw [readArray, if_neg h0, if_neg, if_neg (not_not.mpr halign)]
        · rfl
        · rw [not_lt, Nat.le_div_iff_mul_le hwidth]
          show count * c.width ≤ data.length - pos
          omega
    · have hm : readArray c count ⟨data, pos⟩ = .error endOfFile := by
        rw [readArray, if_neg h0, if_pos]
        rw [Nat.div_lt_iff_lt_mul hwidth]
        show data.length - pos < count * c.width
        omega
      by_cases hbig : 2 ^ 63 ≤ count * c.width
      · refine .thrown (.lengthError "cannot create std::vector larger than max_size()") endOfFile
          ?_ hm (hbig.trans (Nat.le_add_left _ _))
        rw [IOReader.readOwned, if_neg h0, if_pos hbig]
      · refine .short endOfFile ?_ hm h
        rw [IOReader.readOwned, if_neg h0, if_neg hbig, guarded_read_short hpos h]

/-- **A padded array** is read alike when its padding fits the buffer and its alignment is one for
its elements. -/
theorem walks_readPadded (c : Codec α) {alignment : ℕ} (hwidth : 0 < c.width) (count : ℕ)
    (halign : 0 < alignment) {data : Bytes} {pos : ℕ}
    (hpad : padding pos alignment ≤ kMaxAlignment) (hdvd : c.width ∣ alignment)
    (hdata : data.length < 2 ^ 63) (hpos : pos ≤ data.length) :
    Walks (IOReader.guarded.readPadded c count alignment) (borrowPadded c count alignment) data pos
      (alignTo pos alignment + count * c.width)
      (c.arrayAt data (alignTo pos alignment) count) := by
  have hmod : alignTo pos alignment % c.width = 0 :=
    Nat.mod_eq_zero_of_dvd (hdvd.trans (dvd_add_padding pos halign))
  exact (walks_skipPadding halign hpad hpos).bind (Nat.le_add_right _ _) fun h =>
    walks_readOwned c hwidth count hdata h hmod

/-- An array of numbers, which is aligned to their width. -/
theorem walks_readAligned (c : Codec α) (hwidth : 0 < c.width) (hmax : c.width ≤ kMaxAlignment)
    (count : ℕ) {data : Bytes} {pos : ℕ} (hdata : data.length < 2 ^ 63)
    (hpos : pos ≤ data.length) :
    Walks (IOReader.guarded.readPadded c count c.width) (borrowPadded c count c.width) data pos
      (alignTo pos c.width + count * c.width) (c.arrayAt data (alignTo pos c.width) count) :=
  walks_readPadded c hwidth count hwidth ((padding_lt hwidth).le.trans hmax) dvd_rfl hdata hpos

section Typed

variable {data : Bytes} {pos : ℕ}

/-- A count. -/
theorem walks_count (init : ℕ) (hpos : pos ≤ data.length) :
    Walks (IOReader.guarded.readScalar sizeCodec init) (readScalar sizeCodec) data pos (pos + 8)
      (sizeCodec.readAt data pos) := walks_readScalar sizeCodec init hpos

/-- An array of 4-byte integers. -/
theorem walks_idx (count : ℕ) (hdata : data.length < 2 ^ 63) (hpos : pos ≤ data.length) :
    Walks (IOReader.guarded.readPadded idxCodec count 4) (borrowPadded idxCodec count 4) data pos
      (arrayEnd pos 4 count) (idxCodec.arrayAt data (alignTo pos 4) count) :=
  walks_readAligned idxCodec (by decide) (by decide) count hdata hpos

/-- An array of 2-byte integers. -/
theorem walks_term (count : ℕ) (hdata : data.length < 2 ^ 63) (hpos : pos ≤ data.length) :
    Walks (IOReader.guarded.readPadded termCodec count 2) (borrowPadded termCodec count 2) data pos
      (arrayEnd pos 2 count) (termCodec.arrayAt data (alignTo pos 2) count) :=
  walks_readAligned termCodec (by decide) (by decide) count hdata hpos

end Typed

/-! ### Words -/

theorem readWords_of_overflow {io : IOReader} {count width : ℕ} (h : 2 ^ 64 ≤ count * width)
    (cursor : Cursor) : io.readWords count width cursor
      = .error (.thrown (.runtimeError "size overflow in index file")) := by
  have hmul : checkedMul count width = .error (.runtimeError "size overflow in index file") :=
    if_pos h
  rw [IOReader.readWords, hmul]
  rfl

theorem readWords_of_lt {io : IOReader} {count width : ℕ} (h : count * width < 2 ^ 64) :
    io.readWords count width = io.readPadded .byte (count * width) width := by
  rw [IOReader.readWords, checkedMul_eq_ok h]
  rfl

/-- What a mapped reader of words does once their bytes were borrowed. -/
theorem borrowWords_of_lt {base count width : ℕ} {misaligned : String}
    (h : count * width < 2 ^ 64) (cursor : Cursor) :
    borrowWords base misaligned count width cursor =
      match borrowPadded .byte (count * width) width cursor with
      | .error e => .error e
      | .ok (values, cursor) =>
          if count > 0 ∧ (cursor.pos - count * width + base) % width ≠ 0 then
            .error (.runtimeError misaligned)
          else .ok (values, cursor) := by
  unfold borrowWords
  have hbytes := checkedMul_eq_ok h
  generalize checkedMul count width = bytes at hbytes ⊢
  subst hbytes
  rfl

/-! ### Bytes that end too early -/

section Cut

variable {data : Bytes} {pos : ℕ}

/-- A count that is cut short is the number its first bytes stand for. -/
theorem buffered_readCount : IOReader.buffered.readScalar sizeCodec 0 ⟨data, pos⟩
    = .ok (sizeCodec.readAt data pos, ⟨data, pos + min 8 (data.length - pos)⟩) := by
  have hzeros : ∀ k, (sizeCodec.enc 0).drop k = List.replicate (8 - k) 0 := fun k => by
    have henc : sizeCodec.enc 0 = List.replicate 8 0 := leBytes_zero 8
    rw [henc, List.drop_replicate]
  show Except.ok (leNat ((data.drop pos).take 8 ++ (sizeCodec.enc 0).drop _), _) = _
  rw [hzeros, leNat_append_zeros]
  rfl

/-- Padding is skipped as far as it goes. -/
theorem buffered_skipPadding {alignment : ℕ} (halign : 0 < alignment) :
    IOReader.buffered.skipPadding alignment ⟨data, pos⟩ =
      if kMaxAlignment < min (padding pos alignment) (data.length - pos) then .error .overrun
      else .ok ((), ⟨data, pos + min (padding pos alignment) (data.length - pos)⟩) := by
  rw [IOReader.skipPadding, if_neg halign.ne']
  split
  · rename_i h0
    have h0' : padding pos alignment = 0 := h0
    rw [h0', Nat.zero_min, if_neg (by decide), add_zero]
  · show (if kMaxAlignment < ((data.drop pos).take (padding pos alignment)).length then _ else _) = _
    rw [List.length_take, List.length_drop]
    rfl

/-- An array that is cut short is noticed. -/
theorem buffered_readOwned_cut (c : Codec α) {count : ℕ} (hwidth : 0 < c.width) (hcount : 0 < count)
    (h : data.length < pos + count * c.width) :
    ∃ e, IOReader.buffered.readOwned c count ⟨data, pos⟩ = .error (.thrown e) := by
  rw [IOReader.readOwned, if_neg hcount.ne']
  split
  · exact ⟨_, rfl⟩
  · refine ⟨_, if_pos fun hlen => ?_⟩
    have hgot : ((data.drop pos).take (count * c.width)).length < count * c.width := by
      have hpos := Nat.mul_pos hcount hwidth
      rw [List.length_take, List.length_drop]
      omega
    have hlt := (Nat.div_lt_iff_lt_mul hwidth).mpr hgot
    exact hlt.ne hlen

/-- So is one whose padding is. -/
theorem buffered_readPadded_cut (c : Codec α) {count alignment : ℕ} (hwidth : 0 < c.width)
    (hcount : 0 < count) (halign : 0 < alignment)
    (hpad : min (padding pos alignment) (data.length - pos) ≤ kMaxAlignment)
    (hpos : pos ≤ data.length) (h : data.length < alignTo pos alignment + count * c.width) :
    ∃ e, IOReader.buffered.readPadded c count alignment ⟨data, pos⟩ = .error (.thrown e) := by
  rw [IOReader.readPadded, Reader.bind, buffered_skipPadding halign, if_neg (not_lt.mpr hpad)]
  refine buffered_readOwned_cut c hwidth hcount ?_
  have hbytes := Nat.mul_pos hcount hwidth
  rw [alignTo] at h
  omega

/-- The mapped reader notices any. -/
theorem borrowPadded_cut (c : Codec α) {count alignment : ℕ} (hwidth : 0 < c.width)
    (halign : 0 < alignment) (hpos : pos ≤ data.length)
    (h : data.length < alignTo pos alignment + count * c.width) :
    borrowPadded c count alignment ⟨data, pos⟩ = .error endOfFile := by
  rw [alignTo] at h
  by_cases hpad : data.length - pos < padding pos alignment
  · refine Reader.bind_of_error ?_
    rw [skipPadding, if_neg halign.ne', skip]
    exact if_pos hpad
  · have hskip : skipPadding alignment ⟨data, pos⟩ = .ok ((), ⟨data, pos + padding pos alignment⟩) := by
      rw [skipPadding, if_neg halign.ne', skip]
      exact if_neg hpad
    have hcount : count ≠ 0 := fun h0 => by
      rw [h0, Nat.zero_mul] at h
      omega
    rw [borrowPadded, Reader.bind_of_ok hskip, readArray, if_neg hcount, if_pos]
    rw [Nat.div_lt_iff_lt_mul hwidth]
    show data.length - (pos + padding pos alignment) < count * c.width
    omega

/-- An array of numbers. -/
theorem buffered_readAligned_cut (c : Codec α) {count : ℕ} (hwidth : 0 < c.width)
    (hmax : c.width ≤ kMaxAlignment) (hcount : 0 < count) (hpos : pos ≤ data.length)
    (h : data.length < arrayEnd pos c.width count) :
    ∃ e, IOReader.buffered.readPadded c count c.width ⟨data, pos⟩ = .error (.thrown e) :=
  buffered_readPadded_cut c hwidth hcount hwidth
    ((min_le_left _ _).trans ((padding_lt hwidth).le.trans hmax)) hpos h

end Cut

end Nsparse
