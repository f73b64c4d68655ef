/-
Nsparse/InlineRoundTrip.lean

The inline forward index, written and read back.

The sizing pass and the body writer move over the same blocks; both are compared with
`dirStart`, which adds up the blocks in unbounded numbers.  The directory names where
every block went (`Placed`), its entries are numbered as the reader expects them
(`Numbered`), and the prefix sums over it find every block again.
-/
import Nsparse.InlineBlock

namespace Nsparse

open Wire

/-! ### Blocks of lists -/

theorem blocksOf_eq_flatten (lists : List InvertedListClusters) :
    blocksOf lists = (lists.zipIdx.map fun item =>
      (List.range item.1.nClusters).map fun block =>
        (⟨item.2, block, item.1.getDocs block⟩ : InlineBlock)).flatten := List.flatMap_def

theorem length_blocksOf (lists : List InvertedListClusters) :
    (blocksOf lists).length = (lists.map (·.nClusters)).sum := by
  have hcount : ∀ k, (lists.zipIdx k).map (fun item => item.1.nClusters)
      = lists.map (·.nClusters) := by
    intro k
    have hmap : (lists.zipIdx k).map (fun item => item.1.nClusters)
        = ((lists.zipIdx k).map Prod.fst).map (·.nClusters) := List.map_map.symm
    rw [hmap, List.zipIdx_map_fst]
  rw [blocksOf, List.length_flatMap, ← hcount 0]
  simp

/-- The documents of a cluster, when there is one. -/
def clusterOf (lists : List InvertedListClusters) (pl block : ℕ) : Option (List ℤ) :=
  lists[pl]?.bind fun l => if block < l.nClusters then some (l.getDocs block) else none

/-! ### Places -/

namespace InlineForwardSource

variable (x : InlineForwardSource)

/-- A block begins on a power of two, eight bytes or more. -/
theorem exists_writeAlignment : ∃ k, 3 ≤ k ∧ k < 64 ∧ x.writeAlignment = 2 ^ k := by
  unfold writeAlignment
  split
  · rename_i hlayout
    obtain ⟨hpow, hlo, hhi⟩ := x.pageSize hlayout
    obtain ⟨k, hk⟩ := (Nat.and_sub_one_eq_zero_iff_isPowerOfTwo (by omega)).mp hpow
    rw [hk] at hlo hhi ⊢
    refine ⟨k, ?_, (Nat.pow_lt_pow_iff_right (by decide)).mp hhi, rfl⟩
    by_contra hlt
    have hle : 2 ^ k ≤ 2 ^ 2 := Nat.pow_le_pow_right (by decide) (by omega)
    omega
  · exact ⟨3, le_rfl, by decide, rfl⟩

theorem writeAlignment_pos : 0 < x.writeAlignment := by
  obtain ⟨k, -, -, h⟩ := x.exists_writeAlignment
  rw [h]
  exact Nat.two_pow_pos k

theorem writeAlignment_dvd : x.writeAlignment ∣ 2 ^ 64 := by
  obtain ⟨k, -, hk, h⟩ := x.exists_writeAlignment
  rw [h]
  exact Nat.pow_dvd_pow 2 hk.le

theorem eight_dvd_writeAlignment : 8 ∣ x.writeAlignment := by
  obtain ⟨k, hk, -, h⟩ := x.exists_writeAlignment
  rw [h]
  exact Nat.pow_dvd_pow 2 hk

/-- Where the block behind `b` begins when `b` begins at `off`. -/
def nextOff (off : ℕ) (b : InlineBlock) : ℕ :=
  alignUp (off + blockLen x.vectors b.docs) x.writeAlignment

/-- Where the directory begins when the blocks begin at `off`. -/
def dirStart (off : ℕ) (blocks : List InlineBlock) : ℕ := blocks.foldl x.nextOff off

/-- Where the first block begins. -/
def firstBlock : ℕ := alignUp 24 x.writeAlignment

/-- The length of the section. -/
def sectionSize : ℕ :=
  x.dirStart x.firstBlock (blocksOf x.lists) + x.nBlocks * 32 + 24

theorem le_nextOff (off : ℕ) (b : InlineBlock) :
    off + blockLen x.vectors b.docs ≤ x.nextOff off b := le_alignUp _ _

theorem le_dirStart (off : ℕ) (blocks : List InlineBlock) : off ≤ x.dirStart off blocks := by
  induction blocks generalizing off with
  | nil => exact le_rfl
  | cons b blocks ih =>
      exact ((Nat.le_add_right _ _).trans (x.le_nextOff off b)).trans (ih (x.nextOff off b))

theorem nextOff_le_dirStart (off : ℕ) (b : InlineBlock) (blocks : List InlineBlock) :
    x.nextOff off b ≤ x.dirStart off (b :: blocks) := x.le_dirStart (x.nextOff off b) blocks

theorem inlineAlignUp_firstBlock (h : x.sectionSize < 2 ^ 64) :
    inlineAlignUp 24 x.writeAlignment = x.firstBlock := by
  apply inlineAlignUp_eq x.writeAlignment_pos x.writeAlignment_dvd
  have := x.le_dirStart x.firstBlock (blocksOf x.lists)
  unfold sectionSize at h
  exact lt_of_le_of_lt this (by omega)

/-- One block of either loop, whose arithmetic does not wrap. -/
theorem inlineAlignUp_nextOff {off : ℕ} {b : InlineBlock} (h : x.nextOff off b < 2 ^ 64) :
    u64 (off + blockLen x.vectors b.docs) = off + blockLen x.vectors b.docs ∧
      inlineAlignUp (off + blockLen x.vectors b.docs) x.writeAlignment = x.nextOff off b :=
  ⟨u64_of_lt ((x.le_nextOff off b).trans_lt h),
    inlineAlignUp_eq x.writeAlignment_pos x.writeAlignment_dvd h⟩

/-! ### The two passes -/

variable {x}

/-- What the writer can write: encodable vectors and countable blocks with 32-bit ids. -/
structure Writable (x : InlineForwardSource) : Prop where
  encodable : Encodable x.vectors
  countable : ∀ b ∈ blocksOf x.lists, Countable x.vectors b.docs
  ids : ∀ b ∈ blocksOf x.lists, ∀ d ∈ b.docs, d < 2 ^ 31
  lists : x.lists.length ≤ 2 ^ 16

theorem sizeBlocks_eq (hes : BlockWidth x.vectors.elementSize) {off : ℕ}
    {blocks : List InlineBlock} (hcount : ∀ b ∈ blocks, Countable x.vectors b.docs)
    (hfin : x.dirStart off blocks < 2 ^ 64) :
    x.sizeBlocks off blocks = .ok (x.dirStart off blocks) := by
  induction blocks generalizing off with
  | nil => rfl
  | cons b blocks ih =>
      obtain ⟨hb, hrest⟩ := List.forall_mem_cons.mp hcount
      obtain ⟨hend, hnext⟩ :=
        x.inlineAlignUp_nextOff ((x.nextOff_le_dirStart off b blocks).trans_lt hfin)
      have hlayout := inlineBlockOffsets_block hes hb
      unfold blockNnz at hlayout
      rw [sizeBlocks, countBlock_eq_ok_iff.mpr ⟨hb, rfl⟩]
      show x.sizeBlocks (inlineAlignUp (u64 (off + (inlineBlockOffsets b.docs.length
        (b.docs.map x.vectors.nnzOf).sum x.vectors.elementSize).fin)) x.writeAlignment) blocks = _
      rw [hlayout]
      dsimp only
      rw [hend, hnext]
      exact ih hrest hfin

/-- An entry of the directory names a block and where it went. -/
structure Placed (x : InlineForwardSource) (bytes : Bytes) (dirOffset : ℕ) (b : InlineBlock)
    (entry : InlineDirEntry) : Prop where
  pl : entry.pl = b.pl % 2 ^ 32
  block : entry.block = b.block % 2 ^ 32
  nDocs : entry.nDocs = b.docs.length
  len : entry.len = blockLen x.vectors b.docs
  reserved : entry.reserved = 0
  aligned : 8 ∣ entry.byteOff
  header : 24 ≤ entry.byteOff
  inside : entry.byteOff + entry.len ≤ dirOffset
  bytes : BlockAt bytes entry.byteOff x.vectors b.docs

/-- **The blocks go where the directory says.** -/
theorem writeBlocks_eq (henc : Encodable x.vectors) {off : ℕ} {blocks : List InlineBlock}
    (hcount : ∀ b ∈ blocks, Countable x.vectors b.docs) (hoff : 24 ≤ off)
    (haligned : 8 ∣ off) (hfin : x.dirStart off blocks < 2 ^ 64) :
    ∃ bytes entries, x.writeBlocks off blocks = .ok (bytes, x.dirStart off blocks, entries) ∧
      off + bytes.length = x.dirStart off blocks ∧
      ∀ pre post, pre.length = off →
        List.Forall₂ (x.Placed (pre ++ (bytes ++ post)) (x.dirStart off blocks)) blocks entries := by
  induction blocks generalizing off with
  | nil => exact ⟨[], [], rfl, rfl, fun _ _ _ => .nil⟩
  | cons b blocks ih =>
      obtain ⟨hb, hrest⟩ := List.forall_mem_cons.mp hcount
      have hle := x.le_nextOff off b
      have hdir := x.nextOff_le_dirStart off b blocks
      obtain ⟨hend, hnext⟩ := x.inlineAlignUp_nextOff (hdir.trans_lt hfin)
      have hlayout := inlineBlockOffsets_block henc.width hb
      have hraw := blockBytes_eq henc.width hb
      have hlen := length_rawBlock henc hb
      have haligned' : 8 ∣ x.nextOff off b :=
        x.eight_dvd_writeAlignment.trans (dvd_alignUp _ x.writeAlignment_pos)
      obtain ⟨bytes, entries, hwrite, hbytes, hplaced⟩ :=
        ih hrest (hoff.trans ((Nat.le_add_right _ _).trans hle)) haligned' hfin
      set pad := List.replicate (x.nextOff off b - (off + blockLen x.vectors b.docs)) (0 : UInt8)
        with hpad
      refine ⟨rawBlock x.vectors b.docs ++ pad ++ bytes,
        ⟨b.pl % 2 ^ 32, b.block % 2 ^ 32, off, blockLen x.vectors b.docs, b.docs.length, 0⟩ :: entries,
        ?_, ?_, fun pre post hpre => ?_⟩
      · have hstep : (if off + blockLen x.vectors b.docs < x.nextOff off b then x.nextOff off b
            else off + blockLen x.vectors b.docs) = x.nextOff off b := by
          split
          · rfl
          · exact le_antisymm hle (not_lt.mp ‹_›)
        unfold blockNnz at hlayout hraw
        rw [writeBlocks, countBlock_eq_ok_iff.mpr ⟨hb, rfl⟩]
        dsimp only [bind, Except.bind]
        rw [hraw, hlayout]
        dsimp only
        rw [hend, hnext, hstep, hwrite]
        rfl
      · have hdirStart : x.dirStart off (b :: blocks) = x.dirStart (x.nextOff off b) blocks := rfl
        rw [hdirStart, ← hbytes, List.length_append, List.length_append, hlen, hpad,
          List.length_replicate]
        omega
      · refine .cons ⟨rfl, rfl, rfl, rfl, rfl, haligned, hoff, hle.trans hdir, ?_⟩ ?_
        · exact ⟨⟨pre, pad ++ (bytes ++ post), by simp only [List.append_assoc], hpre⟩⟩
        · have hlen' : (pre ++ (rawBlock x.vectors b.docs ++ pad)).length = x.nextOff off b := by
            rw [List.length_append, List.length_append, hlen, hpre, hpad, List.length_replicate]
            omega
          have := hplaced (pre ++ (rawBlock x.vectors b.docs ++ pad)) post hlen'
          simp only [List.append_assoc] at this ⊢
          exact this

end InlineForwardSource

/-! ### The numbering of the directory -/

namespace InlineForwardIndex

/-- The keys of a directory in the order the reader asks for. -/
def Numbered : Option (ℕ × ℕ) → List (ℕ × ℕ) → Prop
  | _, [] => True
  | prev, key :: keys =>
      (∀ p ∈ prev, p.1 ≤ key.1) ∧ key.2 = expectedBlock prev key.1 ∧ Numbered (some key) keys

theorem checkEntries_of_numbered {numLists dirOffset : ℕ} {prev : Option (ℕ × ℕ)}
    {entries : List InlineDirEntry}
    (hentries : ∀ entry ∈ entries, corruptEntry numLists dirOffset entry = false)
    (h : Numbered prev (entries.map fun entry => (entry.pl, entry.block))) :
    checkEntries numLists dirOffset prev entries = .ok () := by
  induction entries generalizing prev with
  | nil => rfl
  | cons entry entries ih =>
      obtain ⟨hentry, hrest⟩ := List.forall_mem_cons.mp hentries
      obtain ⟨hprev, hblock, h⟩ := h
      have hany : ¬ prev.any (entry.pl < ·.1) = true := by
        rw [Option.any_eq_true]
        rintro ⟨p, hp, hlt⟩
        exact absurd (hprev p hp) (not_le.mpr (of_decide_eq_true hlt))
      rw [checkEntries, if_neg (by rw [hentry]; decide), if_neg hany,
        if_neg (not_not.mpr hblock)]
      exact ih hrest h

/-- The rest of a list whose block `j` was the last. -/
theorem numbered_run {pl : ℕ} {rest : List (ℕ × ℕ)}
    (hrest : ∀ n, Numbered (some (pl, n)) rest) (m j : ℕ) :
    Numbered (some (pl, j % 2 ^ 32))
      ((List.range' (j + 1) m).map (fun b => (pl, b % 2 ^ 32)) ++ rest) := by
  induction m generalizing j with
  | zero => exact hrest _
  | succ m ih =>
      refine ⟨fun p hp => ?_, ?_, ih (j + 1)⟩
      · obtain rfl := Option.mem_some_iff.mp hp
        exact le_rfl
      · show (j + 1) % 2 ^ 32 = if pl ≠ pl then 0 else (j % 2 ^ 32 + 1) % 2 ^ 32
        rw [if_neg (not_not.mpr rfl), Nat.mod_add_mod]

/-- All blocks of one list. -/
theorem numbered_list {pl n : ℕ} {prev : Option (ℕ × ℕ)} {rest : List (ℕ × ℕ)}
    (hprev : ∀ p ∈ prev, p.1 < pl)
    (hrest : ∀ prev : Option (ℕ × ℕ), (∀ p ∈ prev, p.1 < pl + 1) → Numbered prev rest) :
    Numbered prev ((List.range n).map (fun b => (pl, b % 2 ^ 32)) ++ rest) := by
  cases n with
  | zero => exact hrest prev fun p hp => Nat.lt_succ_of_lt (hprev p hp)
  | succ n =>
      rw [List.range_eq_range', List.range'_succ]
      have hexpected : expectedBlock prev pl = 0 := by
        cases prev with
        | none => rfl
        | some p => exact if_pos (hprev p rfl).ne'
      refine ⟨fun p hp => (hprev p hp).le, hexpected.symm, ?_⟩
      refine numbered_run (fun m => hrest _ fun p hp => ?_) n 0
      obtain rfl := Option.mem_some_iff.mp hp
      exact Nat.lt_succ_self _

/-- **The blocks of all lists** are numbered as the reader expects. -/
theorem numbered_blocksOf {lists : List InvertedListClusters} (hlists : lists.length ≤ 2 ^ 16) :
    Numbered none ((blocksOf lists).map fun b => (b.pl % 2 ^ 32, b.block % 2 ^ 32)) := by
  have key : ∀ (lists : List InvertedListClusters) (k : ℕ) (prev : Option (ℕ × ℕ)),
      k + lists.length ≤ 2 ^ 16 → (∀ p ∈ prev, p.1 < k) →
      Numbered prev (((lists.zipIdx k).flatMap fun item =>
        (List.range item.1.nClusters).map fun block =>
          (⟨item.2, block, item.1.getDocs block⟩ : InlineBlock)).map
            fun b => (b.pl % 2 ^ 32, b.block % 2 ^ 32)) := by
    intro lists
    induction lists with
    | nil => exact fun _ _ _ _ => trivial
    | cons l lists ih =>
        intro k prev hk hprev
        rw [List.length_cons] at hk
        have hmod : k % 2 ^ 32 = k := Nat.mod_eq_of_lt (by omega)
        rw [List.zipIdx_cons, List.flatMap_cons, List.map_append, List.map_map]
        have hfun : ((fun b : InlineBlock => (b.pl % 2 ^ 32, b.block % 2 ^ 32)) ∘
            fun block => (⟨k, block, l.getDocs block⟩ : InlineBlock))
            = fun block => (k, block % 2 ^ 32) := by
          funext block
          exact Prod.ext hmod rfl
        rw [hfun]
        exact numbered_list hprev fun prev' hprev' => ih (k + 1) prev' (by omega) hprev'
  exact key lists 0 none (by omega) (by simp)

end InlineForwardIndex

/-! ### Finding a block again -/

section Lookup

/-- The blocks of each list. -/
def blocksPerList (lists : List InvertedListClusters) : List (List InlineBlock) :=
  lists.zipIdx.map fun item =>
    (List.range item.1.nClusters).map fun block => ⟨item.2, block, item.1.getDocs block⟩

variable {lists : List InvertedListClusters}

@[simp] theorem length_blocksPerList : (blocksPerList lists).length = lists.length := by
  rw [blocksPerList, List.length_map, List.length_zipIdx]

theorem getElem_blocksPerList {pl : ℕ} (h : pl < (blocksPerList lists).length)
    (h' : pl < lists.length) : (blocksPerList lists)[pl] =
      (List.range lists[pl].nClusters).map fun block => ⟨pl, block, lists[pl].getDocs block⟩ := by
  simp [blocksPerList]

theorem pl_of_mem_blocksPerList {pl : ℕ} (h : pl < (blocksPerList lists).length)
    {b : InlineBlock} (hb : b ∈ (blocksPerList lists)[pl]) : b.pl = pl := by
  rw [getElem_blocksPerList h (by rwa [length_blocksPerList] at h)] at hb
  obtain ⟨block, -, rfl⟩ := List.mem_map.mp hb
  rfl

/-- The blocks of the lists before `i` are as many as those that name such a list. -/
theorem countP_blocksOf (i : ℕ) :
    (blocksOf lists).countP (fun b => b.pl < i) = ((blocksPerList lists).take i).flatten.length := by
  have hsplit : blocksOf lists = ((blocksPerList lists).take i).flatten
      ++ ((blocksPerList lists).drop i).flatten := by
    rw [← List.flatten_append, List.take_append_drop]
    exact blocksOf_eq_flatten lists
  have hbefore : ∀ b ∈ ((blocksPerList lists).take i).flatten, decide (b.pl < i) = true := by
    intro b hb
    obtain ⟨bs, hbs, hb⟩ := List.mem_flatten.mp hb
    obtain ⟨j, hj, rfl⟩ := List.mem_take_iff_getElem.mp hbs
    rw [pl_of_mem_blocksPerList _ hb]
    exact decide_eq_true (lt_of_lt_of_le hj (min_le_left _ _))
  have hafter : ∀ b ∈ ((blocksPerList lists).drop i).flatten, ¬ decide (b.pl < i) = true := by
    intro b hb
    obtain ⟨bs, hbs, hb⟩ := List.mem_flatten.mp hb
    obtain ⟨j, hj, rfl⟩ := List.mem_drop_iff_getElem.mp hbs
    rw [pl_of_mem_blocksPerList _ hb, decide_eq_true_eq]
    omega
  rw [hsplit, List.countP_append, List.countP_eq_length.mpr hbefore,
    List.countP_eq_zero.mpr hafter, Nat.add_zero]

/-- A block is found behind those of the lists before its own. -/
theorem getElem?_blocksOf {pl block : ℕ} (hpl : pl < lists.length)
    (hblock : block < lists[pl].nClusters) :
    (blocksOf lists)[((blocksPerList lists).take pl).flatten.length + block]?
      = some ⟨pl, block, lists[pl].getDocs block⟩ := by
  have hlen : pl < (blocksPerList lists).length := by rwa [length_blocksPerList]
  have hflat : blocksOf lists = (blocksPerList lists).flatten := blocksOf_eq_flatten lists
  rw [hflat, flatten_split _ hlen, List.getElem?_append_right (Nat.le_add_right _ _),
    Nat.add_sub_cancel_left, getElem_blocksPerList hlen hpl,
    List.getElem?_append_left (by rwa [List.length_map, List.length_range]),
    List.getElem?_map, List.getElem?_range hblock]
  rfl

/-- A list has as many blocks as clusters. -/
theorem length_take_succ_blocksPerList {pl : ℕ} (hpl : pl < lists.length) :
    ((blocksPerList lists).take (pl + 1)).flatten.length
      = ((blocksPerList lists).take pl).flatten.length + lists[pl].nClusters := by
  have hlen : pl < (blocksPerList lists).length := by rwa [length_blocksPerList]
  rw [List.take_succ_eq_append_getElem hlen, List.flatten_append, List.length_append,
    getElem_blocksPerList hlen hpl]
  simp

end Lookup

/-! ### The section -/

namespace InlineForwardSource

variable {x : InlineForwardSource}

/-- What the writer puts into the header and the trailer. -/
def header (x : InlineForwardSource) : InlineForwardIndexHeader :=
  ⟨x.vectors.elementSize, x.nBlocks, x.writeAlignment⟩

def trailer (x : InlineForwardSource) : InlineForwardIndexTrailer :=
  ⟨x.dirStart x.firstBlock (blocksOf x.lists), x.nBlocks, x.lists.length⟩

/-- The parts of a section. -/
structure Body (x : InlineForwardSource) (body blocks : Bytes) (entries : List InlineDirEntry) :
    Prop where
  parts : body = headerCodec.enc x.header ++ (List.replicate (x.firstBlock - 24) 0 ++
    (blocks ++ (dirEntryCodec.encAll entries ++ trailerCodec.enc x.trailer)))
  count : entries.length = x.nBlocks
  blocks : x.firstBlock + blocks.length = x.dirStart x.firstBlock (blocksOf x.lists)
  placed : List.Forall₂ (x.Placed body (x.dirStart x.firstBlock (blocksOf x.lists)))
    (blocksOf x.lists) entries

theorem le_firstBlock (x : InlineForwardSource) : 24 ≤ x.firstBlock := le_alignUp _ _

theorem checkElementSize_eq_ok {elementSize : ℕ} (h : BlockWidth elementSize) :
    checkElementSize elementSize = .ok () := by
  unfold checkElementSize
  rw [if_neg]
  rcases h with rfl | rfl | rfl <;> decide

theorem Body.length {body blocks : Bytes} {entries : List InlineDirEntry}
    (h : x.Body body blocks entries) : body.length = x.sectionSize := by
  have hfirst := x.le_firstBlock
  have hblocks := h.blocks
  rw [h.parts, List.length_append, List.length_append, List.length_append, List.length_append,
    headerCodec.length_enc, trailerCodec.length_enc, Codec.length_encAll, List.length_replicate,
    h.count, width_headerCodec, width_trailerCodec, width_dirEntryCodec]
  unfold sectionSize
  omega

/-- **The body writer** writes a section. -/
theorem writeBody_eq (hx : x.Writable) (hsize : x.sectionSize < 2 ^ 64) :
    ∃ body blocks entries, x.writeBody = .ok body ∧ x.Body body blocks entries := by
  have hfirst := x.inlineAlignUp_firstBlock hsize
  have hfin : x.dirStart x.firstBlock (blocksOf x.lists) < 2 ^ 64 := by
    unfold sectionSize at hsize
    omega
  obtain ⟨blocks, entries, hwrite, hlen, hplaced⟩ := writeBlocks_eq hx.encodable hx.countable
    x.le_firstBlock (x.eight_dvd_writeAlignment.trans (dvd_alignUp _ x.writeAlignment_pos)) hfin
  have hcount : entries.length = x.nBlocks := by
    have hall := hplaced (List.replicate x.firstBlock 0) [] List.length_replicate
    rw [← hall.length_eq, length_blocksOf]
    rfl
  refine ⟨_, blocks, entries, ?_, rfl, hcount, hlen, ?_⟩
  · unfold writeBody
    rw [checkElementSize_eq_ok hx.encodable.width]
    dsimp only [bind, Except.bind]
    rw [hfirst, hwrite]
    dsimp only
    rw [hcount]
    simp only [List.append_assoc]
    rfl
  · have hpre : (headerCodec.enc x.header ++ List.replicate (x.firstBlock - 24) 0).length
        = x.firstBlock := by
      have := x.le_firstBlock
      rw [List.length_append, headerCodec.length_enc, List.length_replicate, width_headerCodec]
      omega
    have := hplaced _ (dirEntryCodec.encAll entries ++ trailerCodec.enc x.trailer) hpre
    rw [List.append_assoc] at this
    exact this

/-- **The sizing pass** computes the length of what the body writer writes. -/
theorem sectionLength_eq (hx : x.Writable) (hsize : x.sectionSize < 2 ^ 64) :
    x.sectionLength = .ok x.sectionSize := by
  have hfin : x.dirStart x.firstBlock (blocksOf x.lists) < 2 ^ 64 := by
    unfold sectionSize at hsize
    omega
  unfold sectionLength
  rw [checkElementSize_eq_ok hx.encodable.width]
  dsimp only [bind, Except.bind]
  rw [x.inlineAlignUp_firstBlock hsize, sizeBlocks_eq hx.encodable.width hx.countable hfin]
  exact congrArg Except.ok (u64_of_lt hsize)

/-! ### Loading the section -/

theorem Placed.corruptEntry_eq_false {bytes : Bytes} {numLists dirOffset : ℕ} {b : InlineBlock}
    {entry : InlineDirEntry} (h : x.Placed bytes dirOffset b entry) (hpl : b.pl < numLists)
    (hlists : numLists ≤ 2 ^ 16) :
    InlineForwardIndex.corruptEntry numLists dirOffset entry = false := by
  have hmod : b.pl % 2 ^ 32 = b.pl := Nat.mod_eq_of_lt (by omega)
  have hlen : 4 ≤ entry.len := by
    rw [h.len, blockLen, valsStart, alignUp, compsStart]
    omega
  have hinside := h.inside
  have hheader := h.header
  have haligned := Nat.mod_eq_zero_of_dvd h.aligned
  unfold InlineForwardIndex.corruptEntry kInlineBlockPrefixSize kMinBlockAlign
  simp only [Bool.or_eq_false_iff, decide_eq_false_iff_not, bne_eq_false_iff_eq, not_le, not_lt]
  refine ⟨⟨⟨⟨⟨?_, hlen⟩, haligned⟩, hheader⟩, by omega⟩, by omega⟩
  rw [h.pl, hmod]
  exact hpl

theorem Placed.fits {bytes : Bytes} {dirOffset : ℕ} {b : InlineBlock} {entry : InlineDirEntry}
    (h : x.Placed bytes dirOffset b entry) (hc : Countable x.vectors b.docs)
    (hdir : dirOffset < 2 ^ 64) : dirEntryCodec.Fits entry := by
  have hinside := h.inside
  apply fits_dirEntry
  · rw [h.pl]
    exact Nat.mod_lt _ (by decide)
  · rw [h.block]
    exact Nat.mod_lt _ (by decide)
  · omega
  · omega
  · rw [h.nDocs]
    exact hc.count
  · rw [h.reserved]
    decide

/-- The directory names the blocks in their order. -/
theorem Placed.keys {bytes : Bytes} {dirOffset : ℕ} {bs : List InlineBlock}
    {entries : List InlineDirEntry} (h : List.Forall₂ (x.Placed bytes dirOffset) bs entries) :
    entries.map (fun entry => (entry.pl, entry.block))
      = bs.map fun b => (b.pl % 2 ^ 32, b.block % 2 ^ 32) := by
  induction h with
  | nil => rfl
  | cons hb _ ih => rw [List.map_cons, List.map_cons, ih, hb.pl, hb.block]

theorem pl_lt_of_mem_blocksOf {lists : List InvertedListClusters} {b : InlineBlock}
    (h : b ∈ blocksOf lists) : b.pl < lists.length := by
  obtain ⟨item, hitem, hb⟩ := List.mem_flatMap.mp h
  obtain ⟨block, -, rfl⟩ := List.mem_map.mp hb
  have := List.snd_lt_of_mem_zipIdx hitem
  simpa using this

/-- A written section is loaded with its own directory. -/
theorem Body.loadDirectory_eq (hx : x.Writable) (hsize : x.sectionSize < 2 ^ 64)
    {body blocks : Bytes} {entries : List InlineDirEntry} (h : x.Body body blocks entries)
    {pre : Bytes} (post : Bytes) (haligned : 8 ∣ pre.length) :
    InlineForwardIndex.loadDirectory (pre ++ (body ++ post)) pre.length body.length
      = .ok ⟨pre ++ (body ++ post), pre.length, x.vectors.elementSize, x.writeAlignment, entries,
          CountingSort.offsets x.lists.length (entries.map (·.pl))⟩ := by
  have hlen := h.length
  have hfirst := x.le_firstBlock
  have hblocks := h.blocks
  have hcount := h.count
  set dirOffset := x.dirStart x.firstBlock (blocksOf x.lists) with hdirOffset
  have hsection : x.sectionSize = dirOffset + x.nBlocks * 32 + 24 := rfl
  have hwidth := hx.encodable.width
  -- the header
  have hheader : headerCodec.readAt (pre ++ (body ++ post)) pre.length = x.header := by
    rw [h.parts, List.append_assoc]
    refine Codec.readAt_append (fits_header ?_ ?_ ?_) pre _
    · exact (hwidth.le).trans_lt (by norm_num)
    · show x.nBlocks < 2 ^ 64
      omega
    · obtain ⟨k, -, hk, hpow⟩ := x.exists_writeAlignment
      show x.writeAlignment < 2 ^ 64
      rw [hpow]
      exact Nat.pow_lt_pow_right (by decide) hk
  -- the trailer
  have htrailer : trailerCodec.readAt (pre ++ (body ++ post)) (pre.length + body.length - 24)
      = x.trailer := by
    have hpos : pre.length + body.length - 24 = (pre ++ (headerCodec.enc x.header ++
        (List.replicate (x.firstBlock - 24) 0 ++ (blocks ++ dirEntryCodec.encAll entries)))).length := by
      rw [hlen, hsection, List.length_append, List.length_append, List.length_append,
        List.length_append, headerCodec.length_enc, Codec.length_encAll, List.length_replicate,
        width_headerCodec, width_dirEntryCodec, hcount]
      omega
    have hbytes : pre ++ (body ++ post) = (pre ++ (headerCodec.enc x.header ++
        (List.replicate (x.firstBlock - 24) 0 ++ (blocks ++ dirEntryCodec.encAll entries)))) ++
          (trailerCodec.enc x.trailer ++ post) := by
      rw [h.parts]
      simp only [List.append_assoc]
    rw [hpos, hbytes]
    refine Codec.readAt_append (fits_trailer ?_ ?_ ?_) _ post
    · show dirOffset < 2 ^ 64
      omega
    · show x.nBlocks < 2 ^ 64
      omega
    · exact hx.lists.trans_lt (by norm_num)
  -- the directory
  have hentries : dirEntryCodec.arrayAt (pre ++ (body ++ post)) (pre.length + dirOffset) x.nBlocks
      = entries := by
    have hpos : pre.length + dirOffset = (pre ++ (headerCodec.enc x.header ++
        (List.replicate (x.firstBlock - 24) 0 ++ blocks))).length := by
      rw [List.length_append, List.length_append, List.length_append, headerCodec.length_enc,
        List.length_replicate, width_headerCodec]
      omega
    have hbytes : pre ++ (body ++ post) = (pre ++ (headerCodec.enc x.header ++
        (List.replicate (x.firstBlock - 24) 0 ++ blocks))) ++
          (dirEntryCodec.encAll entries ++ (trailerCodec.enc x.trailer ++ post)) := by
      rw [h.parts]
      simp only [List.append_assoc]
    rw [hpos, hbytes, ← hcount]
    refine Codec.arrayAt_append (fun entry hentry => ?_) _ _
    obtain ⟨i, hi, rfl⟩ := List.mem_iff_getElem.mp hentry
    have hib : i < (blocksOf x.lists).length := by rwa [h.placed.length_eq]
    exact ((List.forall₂_iff_get.mp h.placed).2 i hib hi).fits
      (hx.countable _ (List.getElem_mem hib)) (by omega)
  have hcheck : InlineForwardIndex.checkEntries x.lists.length dirOffset none entries = .ok () := by
    apply InlineForwardIndex.checkEntries_of_numbered
    · intro entry hentry
      obtain ⟨i, hi, rfl⟩ := List.mem_iff_getElem.mp hentry
      have hib : i < (blocksOf x.lists).length := by rwa [h.placed.length_eq]
      exact ((List.forall₂_iff_get.mp h.placed).2 i hib hi).corruptEntry_eq_false
        (pl_lt_of_mem_blocksOf (List.getElem_mem hib)) hx.lists
    · rw [Placed.keys h.placed]
      exact InlineForwardIndex.numbered_blocksOf hx.lists
  have hmod : pre.length % kMinBlockAlign = 0 := Nat.mod_eq_zero_of_dvd haligned
  unfold InlineForwardIndex.loadDirectory
  rw [if_neg (by omega), if_neg (not_not.mpr hmod), hheader, htrailer]
  dsimp only [header, trailer]
  rw [if_neg (by rcases hwidth with hw | hw | hw <;> rw [hw] <;> decide), if_neg, if_neg, if_neg,
    if_neg (not_lt.mpr hx.lists), ← hdirOffset, hentries, hcheck]
  · have : body.length - 24 - dirOffset = x.nBlocks * 32 := by omega
    rw [← hdirOffset, this, Nat.mul_mod_left, Nat.mul_div_cancel x.nBlocks (Nat.succ_pos 31)]
    simp
  · rw [← hdirOffset]
    omega
  · obtain ⟨k, hk, -, hpow⟩ := x.exists_writeAlignment
    rw [hpow, not_or]
    constructor
    · rw [not_lt]
      show 2 ^ 3 ≤ 2 ^ k
      exact Nat.pow_le_pow_right (by decide) hk
    · exact not_not.mpr ((Nat.and_sub_one_eq_zero_iff_isPowerOfTwo
        (Nat.two_pow_pos k).ne').mpr ⟨k, rfl⟩)

/-! ### The blocks come back -/

/-- The block of a cluster is there with the rows of its documents, and no other block is. -/
structure Restored (x : InlineForwardSource) (fwd : InlineForwardIndex) : Prop where
  elementSize : fwd.elementSize = x.vectors.elementSize
  pageSize : fwd.pageSize = x.writeAlignment
  numBlocks : fwd.numBlocks = x.nBlocks
  found : ∀ pl block docs, block < 2 ^ 32 → clusterOf x.lists pl block = some docs →
    ∃ view, fwd.block pl block = .ok (some view) ∧ view.Holds fwd.mapping x.vectors docs
  absent : ∀ pl block, clusterOf x.lists pl block = none → fwd.block pl block = .ok none

/-- The start of every list in the directory. -/
theorem Body.listOffset (hx : x.Writable) {body blocks : Bytes} {entries : List InlineDirEntry}
    (h : x.Body body blocks entries) {i : ℕ} (hi : i ≤ x.lists.length) :
    (CountingSort.offsets x.lists.length (entries.map (·.pl))).getD i 0
      = ((blocksPerList x.lists).take i).flatten.length := by
  have hkeys := congrArg (List.map Prod.fst) (Placed.keys h.placed)
  rw [List.map_map, List.map_map] at hkeys
  have hpls : entries.map (·.pl) = (blocksOf x.lists).map fun b => b.pl % 2 ^ 32 := hkeys
  have hmod : (blocksOf x.lists).map (fun b => b.pl % 2 ^ 32) = (blocksOf x.lists).map (·.pl) := by
    refine List.map_congr_left fun b hb => Nat.mod_eq_of_lt ?_
    have := pl_lt_of_mem_blocksOf hb
    have := hx.lists
    omega
  rw [CountingSort.getD_offsets hi, hpls, hmod, List.countP_map, ← countP_blocksOf]
  rfl

theorem Body.restored (hx : x.Writable) {body blocks : Bytes} {entries : List InlineDirEntry}
    (h : x.Body body blocks entries) (pre post : Bytes) :
    x.Restored ⟨pre ++ (body ++ post), pre.length, x.vectors.elementSize, x.writeAlignment, entries,
      CountingSort.offsets x.lists.length (entries.map (·.pl))⟩ := by
  set fwd : InlineForwardIndex := ⟨pre ++ (body ++ post), pre.length, x.vectors.elementSize,
    x.writeAlignment, entries, CountingSort.offsets x.lists.length (entries.map (·.pl))⟩ with hfwd
  have hoffset : ∀ i ≤ x.lists.length, fwd.listOffset.getD i 0
      = ((blocksPerList x.lists).take i).flatten.length := fun i hi => h.listOffset hx hi
  have hlength : fwd.listOffset.length = x.lists.length + 1 := CountingSort.length_offsets _ _
  -- a list of the index has as many blocks as clusters
  have hnum : ∀ pl, ∀ hpl : pl < x.lists.length,
      fwd.numBlocksInList pl = x.lists[pl].nClusters := by
    intro pl hpl
    rw [InlineForwardIndex.numBlocksInList, if_neg (by omega), hoffset _ hpl, hoffset _ hpl.le,
      length_take_succ_blocksPerList hpl, Nat.add_sub_cancel_left]
  refine ⟨rfl, rfl, h.count, fun pl block docs hblock hcluster => ?_, fun pl block hcluster => ?_⟩
  · obtain ⟨l, hl, hdocs⟩ := Option.bind_eq_some_iff.mp hcluster
    obtain ⟨hpl, rfl⟩ := List.getElem?_eq_some_iff.mp hl
    split at hdocs
    · rename_i hlt
      obtain rfl := Option.some_inj.mp hdocs
      have hb := getElem?_blocksOf hpl hlt
      obtain ⟨hib, hget⟩ := List.getElem?_eq_some_iff.mp hb
      set i := ((blocksPerList x.lists).take pl).flatten.length + block with hi
      have hie : i < entries.length := by rwa [← h.placed.length_eq]
      have hplaced := (List.forall₂_iff_get.mp h.placed).2 i hib hie
      rw [List.get_eq_getElem, List.get_eq_getElem, hget] at hplaced
      have hmem : (⟨pl, block, x.lists[pl].getDocs block⟩ : InlineBlock) ∈ blocksOf x.lists :=
        List.mem_of_getElem? hb
      have hids : ∀ d ∈ x.lists[pl].getDocs block, d.toNat < 2 ^ 32 := by
        intro d hd
        have := hx.ids _ hmem d hd
        omega
      have hview : ∃ view, fwd.viewBlock entries[i] = .ok view ∧
          view.Holds fwd.mapping x.vectors (x.lists[pl].getDocs block) :=
        viewBlock_eq_ok hx.encodable (hx.countable _ hmem) hids (hplaced.bytes.shift pre post) rfl
          hplaced.nDocs hplaced.len
      obtain ⟨view, hview, hholds⟩ := hview
      have hkey : ¬ (entries[i].pl ≠ pl ∨ entries[i].block ≠ block) := by
        have hpl' : pl < 2 ^ 32 := by
          have := hx.lists
          omega
        rw [hplaced.pl, hplaced.block, Nat.mod_eq_of_lt hpl', Nat.mod_eq_of_lt hblock]
        simp
      refine ⟨view, ?_, hholds⟩
      rw [InlineForwardIndex.block, hnum pl hpl, if_neg (not_le.mpr hlt), hoffset pl hpl.le]
      dsimp only
      rw [← hi, List.getD_eq_getElem _ _ hie, if_neg hkey, hview]
      rfl
    · cases hdocs
  · rw [InlineForwardIndex.block, if_pos]
    by_cases hpl : pl < x.lists.length
    · rw [hnum pl hpl]
      have hl : x.lists[pl]? = some x.lists[pl] := List.getElem?_eq_getElem hpl
      rw [clusterOf, hl, Option.bind_some] at hcluster
      split at hcluster
      · cases hcluster
      · exact not_lt.mp ‹_›
    · rw [InlineForwardIndex.numBlocksInList, if_pos (by omega)]
      exact Nat.zero_le _

/-! ### The stream -/

/-- What `serialize` adds for a body. -/
def frame (body : Bytes) : Writer :=
  (padTo kMinBlockAlign).andThen ((writeScalar sizeCodec body.length).andThen (emit body))

theorem frame_appends (body : Bytes) : Appends (frame body) :=
  (padTo_appends _).andThen ((writeScalar_appends _ _).andThen (emit_appends _))

/-- The section is 8-aligned behind its length. -/
theorem dvd_length_frame (body w : Bytes) :
    8 ∣ (writeScalar sizeCodec body.length (padTo kMinBlockAlign w)).length := by
  rw [writeScalar, length_emit, sizeCodec.length_enc, length_padTo]
  exact Nat.dvd_add (dvd_add_padding w.length (by decide)) (dvd_refl 8)

/-- **A section is read where it was written**, and no byte more. -/
theorem Body.yields (hx : x.Writable) (hsize : x.sectionSize < 2 ^ 64) {body blocks : Bytes}
    {entries : List InlineDirEntry} (h : x.Body body blocks entries) :
    Yields (frame body) InlineForwardIndex.mmapDeserialize
      (fun data fwd => fwd.mapping = data ∧ x.Restored fwd) where
  appends := frame_appends body
  reads w rest := by
    have hlen : body.length < 2 ^ 64 := by rwa [h.length]
    have hscalar := roundTrips_scalar sizeCodec
      (InvertedListClusters.fits_size hlen)
    have hskip : RoundTrips (padTo kMinBlockAlign) (skipPadding kMinBlockAlign) () :=
      roundTrips_skipPadding (by decide)
    set front := writeScalar sizeCodec body.length (padTo kMinBlockAlign w) with hfront
    have hframe : frame body w ++ rest = front ++ (body ++ rest) := List.append_assoc _ _ _
    have hread : (skipPadding kMinBlockAlign).bind (fun _ => readScalar sizeCodec)
        ⟨frame body w ++ rest, w.length⟩
        = .ok (body.length, ⟨frame body w ++ rest, front.length⟩) := by
      rw [hframe]
      exact (hskip.bind hscalar).reads w (body ++ rest)
    obtain ⟨⟨⟩, c, hfirst, hsecond⟩ := Reader.bind_eq_ok hread
    have hload := h.loadDirectory_eq hx hsize rest (dvd_length_frame body w)
    rw [← hfront, ← hframe] at hload
    have hroom : ¬ (⟨frame body w ++ rest, front.length⟩ : Cursor).remaining < body.length := by
      rw [Cursor.remaining]
      dsimp only
      rw [hframe, List.length_append, List.length_append]
      omega
    refine ⟨_, ?_, ?_, h.restored hx front rest⟩
    · unfold InlineForwardIndex.mmapDeserialize
      rw [Reader.bind, hfirst]
      dsimp only
      rw [Reader.bind, hsecond]
      dsimp only
      rw [if_neg hroom, hload]
      dsimp only
      rw [skip, if_neg hroom]
      dsimp only
      rw [hframe, show (frame body w).length = front.length + body.length from List.length_append]
    · exact hframe.symm

/-- **`serialize` succeeds** and adds its frame. -/
theorem serialize_eq (hx : x.Writable) (hsize : x.sectionSize < 2 ^ 64) :
    ∃ body blocks entries, x.writeBody = .ok body ∧ x.sectionLength = .ok body.length ∧
      x.Body body blocks entries ∧ ∀ w, x.serialize w = .ok (frame body w) := by
  obtain ⟨body, blocks, entries, hwrite, hbody⟩ := writeBody_eq hx hsize
  have hlen := sectionLength_eq hx hsize
  rw [← hbody.length] at hlen
  refine ⟨body, blocks, entries, hwrite, hlen, hbody, fun w => ?_⟩
  unfold serialize
  rw [hlen, hwrite]
  exact if_neg (not_not.mpr rfl)

/-- **The inline forward index round-trips.**  For every stream the section is appended to and all
that comes behind it, the sizing pass finds the length of the body, the reader stops where the
writer stopped, and the blocks it finds are those of the clusters. -/
theorem serialize_round_trip (x : InlineForwardSource) (hx : x.Writable)
    (hsize : x.sectionSize < 2 ^ 63) (written rest : Bytes) :
    ∃ body out fwd, x.writeBody = .ok body ∧ x.sectionLength = .ok body.length ∧
      x.serialize written = .ok out ∧ written <+: out ∧
      InlineForwardIndex.mmapDeserialize ⟨out ++ rest, written.length⟩
        = .ok (fwd, ⟨out ++ rest, out.length⟩) ∧
      fwd.mapping = out ++ rest ∧ x.Restored fwd := by
  have hsize : x.sectionSize < 2 ^ 64 := hsize.trans (by norm_num)
  obtain ⟨body, blocks, entries, hwrite, hlen, hbody, hserialize⟩ := serialize_eq hx hsize
  have hyields := hbody.yields hx hsize
  obtain ⟨fwd, hread, hmapping, hrestored⟩ := hyields.reads written rest
  exact ⟨body, frame body written, fwd, hwrite, hlen, hserialize written,
    hyields.appends written, hread, hmapping, hrestored⟩

/-- One list with one cluster of one document, behind a stream of three bytes. -/
def oneBlock : InlineForwardSource where
  lists := [⟨1, 1, [0], [0, 1], [0], [0, 1], [0], [7]⟩]
  vectors := ⟨1, 1, [0, 1], [0], [[7]]⟩
  writePageSize := 32
  writeLayout := .kPageAligned
  pageSize := fun _ => by decide

theorem oneBlock_writable : oneBlock.Writable where
  encodable :=
    { wellFormed := ⟨rfl, fun h => (by cases h), fun _ => ⟨rfl, by decide, rfl⟩⟩
      width := Or.inl rfl
      terms := by decide
      codes := by decide }
  countable b hb := by
    obtain rfl : b = ⟨0, 0, [0]⟩ := List.mem_singleton.mp hb
    exact ⟨by decide, by decide, by decide⟩
  ids b hb := by
    obtain rfl : b = ⟨0, 0, [0]⟩ := List.mem_singleton.mp hb
    decide
  lists := by decide

theorem serialize_round_trip_one_block :
    ∃ body out fwd, oneBlock.writeBody = .ok body ∧ oneBlock.sectionLength = .ok body.length ∧
      oneBlock.serialize [1, 2, 3] = .ok out ∧ [1, 2, 3] <+: out ∧
      InlineForwardIndex.mmapDeserialize ⟨out ++ [4], 3⟩
        = .ok (fwd, ⟨out ++ [4], out.length⟩) ∧
      fwd.mapping = out ++ [4] ∧ oneBlock.Restored fwd :=
  serialize_round_trip oneBlock oneBlock_writable (by decide) [1, 2, 3] [4]

end InlineForwardSource

end Nsparse
