/-
Nsparse/InlineLayout.lean

The layout of the inline forward index: where the blocks of a section and the arrays
of a block begin.

The documents of a cluster are stored together in one block, as rows behind each
other with their offsets.  Writer and reader compute the places of the arrays with
the same two functions, in 64-bit words that wrap; for numbers of documents and
entries that fit 32 bits nothing wraps (`inlineBlockOffsets_eq`), which is all the
reader knows about the numbers it finds in a file.
-/
import Nsparse.Serialize

namespace Nsparse

open Wire

/-- `uint64_t` arithmetic. -/
def u64 (n : ℕ) : ℕ := n % 2 ^ 64

theorem u64_of_lt {n : ℕ} (h : n < 2 ^ 64) : u64 n = n := Nat.mod_eq_of_lt h

/-! ### Constants and records -/

inductive InlineLayout
  | kPageAligned
  | kPacked
  deriving Repr, DecidableEq

def kMinBlockAlign : ℕ := 8
def kDefaultPageSize : ℕ := 4096
def kInlineCompWidth : ℕ := 2
def kInlineBlockPrefixSize : ℕ := 4

structure InlineForwardIndexHeader where
  elementSize : ℕ
  nBlocks : ℕ
  pageSize : ℕ
  deriving Repr, DecidableEq

/-- One block: its list and its number there, where it begins and how long it is. -/
structure InlineDirEntry where
  pl : ℕ
  block : ℕ
  byteOff : ℕ
  len : ℕ
  nDocs : ℕ
  reserved : ℕ
  deriving Repr, DecidableEq

structure InlineForwardIndexTrailer where
  dirOffset : ℕ
  nEntries : ℕ
  nLists : ℕ
  deriving Repr, DecidableEq

/-- Four bytes of padding follow the element size. -/
def headerCodec : Codec InlineForwardIndexHeader :=
  ((Codec.nat 4).pair <| (Codec.nat 4).pair <| (Codec.nat 8).pair (Codec.nat 8)).record
    (fun p => ⟨p.1, p.2.2.1, p.2.2.2⟩) (fun h => (h.elementSize, 0, h.nBlocks, h.pageSize))

def dirEntryCodec : Codec InlineDirEntry :=
  ((Codec.nat 4).pair <| (Codec.nat 4).pair <| (Codec.nat 8).pair <| (Codec.nat 8).pair <|
    (Codec.nat 4).pair (Codec.nat 4)).record
    (fun p => ⟨p.1, p.2.1, p.2.2.1, p.2.2.2.1, p.2.2.2.2.1, p.2.2.2.2.2⟩)
    (fun e => (e.pl, e.block, e.byteOff, e.len, e.nDocs, e.reserved))

def trailerCodec : Codec InlineForwardIndexTrailer :=
  ((Codec.nat 8).pair <| (Codec.nat 8).pair (Codec.nat 8)).record
    (fun p => ⟨p.1, p.2.1, p.2.2⟩) (fun t => (t.dirOffset, t.nEntries, t.nLists))

/-- `uint32_t` on the wire. -/
def u32Codec : Codec ℕ := .nat 4

@[simp] theorem width_headerCodec : headerCodec.width = 24 := rfl
@[simp] theorem width_dirEntryCodec : dirEntryCodec.width = 32 := rfl
@[simp] theorem width_trailerCodec : trailerCodec.width = 24 := rfl
@[simp] theorem width_u32Codec : u32Codec.width = 4 := rfl

theorem fits_u32 {n : ℕ} (h : n < 2 ^ 32) : u32Codec.Fits n :=
  Codec.fits_nat (h.trans_eq (by norm_num))

theorem fits_u64 {n : ℕ} (h : n < 2 ^ 64) : (Codec.nat 8).Fits n :=
  Codec.fits_nat (h.trans_eq (by norm_num))

theorem fits_header {h : InlineForwardIndexHeader} (hes : h.elementSize < 2 ^ 32)
    (hblocks : h.nBlocks < 2 ^ 64) (hpage : h.pageSize < 2 ^ 64) : headerCodec.Fits h := by
  refine Codec.fits_record ?_ rfl
  exact Codec.fits_pair (fits_u32 hes) (Codec.fits_pair (fits_u32 (Nat.two_pow_pos 32))
    (Codec.fits_pair (fits_u64 hblocks) (fits_u64 hpage)))

theorem fits_dirEntry {e : InlineDirEntry} (hpl : e.pl < 2 ^ 32) (hblock : e.block < 2 ^ 32)
    (hoff : e.byteOff < 2 ^ 64) (hlen : e.len < 2 ^ 64) (hdocs : e.nDocs < 2 ^ 32)
    (hres : e.reserved < 2 ^ 32) : dirEntryCodec.Fits e := by
  refine Codec.fits_record ?_ rfl
  exact Codec.fits_pair (fits_u32 hpl) (Codec.fits_pair (fits_u32 hblock)
    (Codec.fits_pair (fits_u64 hoff) (Codec.fits_pair (fits_u64 hlen)
      (Codec.fits_pair (fits_u32 hdocs) (fits_u32 hres)))))

theorem fits_trailer {t : InlineForwardIndexTrailer} (hdir : t.dirOffset < 2 ^ 64)
    (hentries : t.nEntries < 2 ^ 64) (hlists : t.nLists < 2 ^ 64) : trailerCodec.Fits t := by
  refine Codec.fits_record ?_ rfl
  exact Codec.fits_pair (fits_u64 hdir) (Codec.fits_pair (fits_u64 hentries) (fits_u64 hlists))

/-! ### Places -/

/-- `inline_align_up`. -/
def inlineAlignUp (offset alignment : ℕ) : ℕ :=
  u64 (u64 (offset + alignment - 1) / alignment * alignment)

/-- The arrays of a block, from where the block begins. -/
structure InlineBlockOffsets where
  docIds : ℕ
  off : ℕ
  comps : ℕ
  vals : ℕ
  fin : ℕ
  deriving Repr, DecidableEq

/-- `inline_block_offsets`. -/
def inlineBlockOffsets (nDocs totalNnz elementSize : ℕ) : InlineBlockOffsets :=
  let docIds := kInlineBlockPrefixSize
  let off := u64 (docIds + nDocs * 4)
  let comps := u64 (off + (nDocs + 1) * 4)
  let compsEnd := u64 (comps + totalNnz * kInlineCompWidth)
  let vals := inlineAlignUp compsEnd elementSize
  ⟨docIds, off, comps, vals, u64 (vals + totalNnz * elementSize)⟩

/-- The next multiple of `alignment`. -/
def alignUp (offset alignment : ℕ) : ℕ := offset + padding offset alignment

theorem le_alignUp (offset alignment : ℕ) : offset ≤ alignUp offset alignment :=
  Nat.le_add_right _ _

theorem dvd_alignUp (offset : ℕ) {alignment : ℕ} (h : 0 < alignment) :
    alignment ∣ alignUp offset alignment := dvd_add_padding offset h

theorem alignUp_lt (offset : ℕ) {alignment : ℕ} (h : 0 < alignment) :
    alignUp offset alignment < offset + alignment := Nat.add_lt_add_left (padding_lt h) offset

/-- Rounding up by a division. -/
theorem div_mul_eq_alignUp (offset : ℕ) {alignment : ℕ} (h : 0 < alignment) :
    (offset + alignment - 1) / alignment * alignment = alignUp offset alignment := by
  obtain ⟨m, hm⟩ := dvd_alignUp offset h
  have hle := le_alignUp offset alignment
  have hlt := alignUp_lt offset h
  rw [hm] at hle hlt
  have hdiv : (offset + alignment - 1) / alignment = m := by
    apply Nat.div_eq_of_lt_le
    · rw [mul_comm]
      omega
    · rw [Nat.succ_mul, mul_comm]
      omega
  rw [hdiv, hm, mul_comm]

/-- `inline_align_up` does not wrap while its result is a word. -/
theorem inlineAlignUp_eq {offset alignment : ℕ} (hpos : 0 < alignment)
    (hdvd : alignment ∣ 2 ^ 64) (h : alignUp offset alignment < 2 ^ 64) :
    inlineAlignUp offset alignment = alignUp offset alignment := by
  have hle := le_alignUp offset alignment
  have hsum : offset + alignment - 1 < 2 ^ 64 := by
    -- both bounds are multiples of the alignment, so there is room for one more
    obtain ⟨m, hm⟩ := dvd_alignUp offset hpos
    obtain ⟨n, hn⟩ := hdvd
    rw [hm, hn] at h
    have hmn : m + 1 ≤ n := Nat.lt_of_mul_lt_mul_left h
    have hroom := Nat.mul_le_mul_left alignment hmn
    rw [Nat.mul_add, Nat.mul_one, ← hm, ← hn] at hroom
    omega
  rw [inlineAlignUp, u64_of_lt hsum, div_mul_eq_alignUp offset hpos, u64_of_lt h]

/-- Element widths of a block. -/
def BlockWidth (elementSize : ℕ) : Prop := elementSize = 1 ∨ elementSize = 2 ∨ elementSize = 4

theorem BlockWidth.pos {elementSize : ℕ} (h : BlockWidth elementSize) : 0 < elementSize := by
  rcases h with rfl | rfl | rfl <;> decide

theorem BlockWidth.le {elementSize : ℕ} (h : BlockWidth elementSize) : elementSize ≤ 4 := by
  rcases h with rfl | rfl | rfl <;> decide

theorem BlockWidth.dvd {elementSize : ℕ} (h : BlockWidth elementSize) : elementSize ∣ 8 := by
  rcases h with rfl | rfl | rfl <;> decide

/-- Where the components of a block of `nDocs` documents begin. -/
def compsStart (nDocs : ℕ) : ℕ := 4 + nDocs * 4 + (nDocs + 1) * 4

/-- Where its values begin. -/
def valsStart (nDocs totalNnz elementSize : ℕ) : ℕ :=
  alignUp (compsStart nDocs + totalNnz * 2) elementSize

/-- **No size wraps** for numbers of documents and entries that fit 32 bits. -/
theorem inlineBlockOffsets_eq {nDocs totalNnz elementSize : ℕ} (hdocs : nDocs < 2 ^ 32)
    (hnnz : totalNnz < 2 ^ 32) (hes : BlockWidth elementSize) :
    inlineBlockOffsets nDocs totalNnz elementSize =
      ⟨4, 4 + nDocs * 4, compsStart nDocs, valsStart nDocs totalNnz elementSize,
        valsStart nDocs totalNnz elementSize + totalNnz * elementSize⟩ := by
  have hpos := hes.pos
  have hle := hes.le
  have hlt := alignUp_lt (compsStart nDocs + totalNnz * 2) hpos
  have hvals : totalNnz * elementSize ≤ totalNnz * 4 := Nat.mul_le_mul_left _ hle
  have hdvd : elementSize ∣ 2 ^ 64 := hes.dvd.trans (by decide)
  unfold compsStart at hlt
  have hoff : u64 (4 + nDocs * 4) = 4 + nDocs * 4 := u64_of_lt (by omega)
  have hcomps : u64 (4 + nDocs * 4 + (nDocs + 1) * 4) = compsStart nDocs := u64_of_lt (by omega)
  have hcompsEnd : u64 (compsStart nDocs + totalNnz * 2) = compsStart nDocs + totalNnz * 2 := by
    apply u64_of_lt
    unfold compsStart
    omega
  have halign : inlineAlignUp (compsStart nDocs + totalNnz * 2) elementSize
      = valsStart nDocs totalNnz elementSize := by
    apply inlineAlignUp_eq hpos hdvd
    unfold compsStart
    omega
  show InlineBlockOffsets.mk 4 (u64 (4 + nDocs * 4))
    (u64 (u64 (4 + nDocs * 4) + (nDocs + 1) * 4))
    (inlineAlignUp (u64 (u64 (u64 (4 + nDocs * 4) + (nDocs + 1) * 4) + totalNnz * 2)) elementSize)
    (u64 (inlineAlignUp (u64 (u64 (u64 (4 + nDocs * 4) + (nDocs + 1) * 4) + totalNnz * 2))
      elementSize + totalNnz * elementSize)) = _
  rw [hoff, hcomps, hcompsEnd, halign, u64_of_lt]
  unfold valsStart compsStart
  omega

end Nsparse
