/-
Nsparse/InlineBlock.lean

One block of the inline forward index, written and read back.

`countBlock` accepts the documents of a block that are rows of the vectors and whose
numbers fit (`Countable`).  The bytes it then writes are as long as the layout says
(`length_blockBytes`), and a view of them holds the same documents with the same
components and values (`viewBlock_of_blockBytes`).
-/
import Nsparse.InlineSafety

namespace Nsparse

open Wire

/-! ### Rows of the vectors -/

namespace SparseVectors

variable {v : SparseVectors Code}

/-- The offset behind a row that exists is inside the arrays. -/
theorem WellFormed.indptr_le (h : v.WellFormed) {i : ℕ} (hi : i < v.numVectors) :
    v.indptr.getD (i + 1) 0 ≤ v.indices.length := by
  rw [numVectors_eq] at hi
  have hlt : i + 1 < v.indptr.length := by omega
  have hne : v.indptr ≠ [] := fun hnil => by simp [hnil] at hi
  rw [List.getD_eq_getElem _ _ hlt]
  exact (h.offsets hne).le_of_mem (List.getElem_mem hlt)

theorem WellFormed.length_compsOf (h : v.WellFormed) {d : ℤ} (hd : d.toNat < v.numVectors) :
    (v.compsOf d).length = v.nnzOf d := by
  have hle := h.indptr_le hd
  rw [compsOf, List.length_take, List.length_drop]
  unfold nnzOf
  omega

theorem WellFormed.length_valsOf (h : v.WellFormed) {d : ℤ} (hd : d.toNat < v.numVectors) :
    (v.valsOf d).length = v.nnzOf d := by
  have hle := h.indptr_le hd
  rw [valsOf, List.length_take, List.length_drop, ← h.paired]
  unfold nnzOf
  omega

/-- The components and the values of a row are those of its entries. -/
theorem docRow_eq_zip (v : SparseVectors Code) (d : ℤ) :
    docRow v d = (v.compsOf d).zip (v.valsOf d) := by
  have hzip : v.entries = List.zipWith Prod.mk v.indices v.values := List.zip_eq_zipWith ..
  unfold docRow compsOf valsOf nnzOf
  rw [row, Csr.row, hzip, List.drop_zipWith, List.take_zipWith, List.zip_eq_zipWith]

theorem codesOf_flatten_append {codes : List Code} {width : ℕ}
    (h : ∀ code ∈ codes, code.length = width) (rest : Bytes) :
    codesOf width codes.length (codes.flatten ++ rest) = codes := by
  induction codes with
  | nil => rfl
  | cons code codes ih =>
      obtain ⟨hcode, hcodes⟩ := List.forall_mem_cons.mp h
      rw [List.length_cons, codesOf, List.flatten_cons, List.append_assoc,
        List.take_left' hcode, List.drop_left' hcode, ih hcodes]

end SparseVectors

/-! ### Counting -/

/-- What `count_block` asks of the documents of a block. -/
structure Countable (vectors : SparseVectors Code) (docs : List ℤ) : Prop where
  rows : ∀ d ∈ docs, 0 ≤ d ∧ d.toNat < vectors.numVectors
  count : docs.length < 2 ^ 32
  nnz : (docs.map vectors.nnzOf).sum < 2 ^ 31

theorem countDocs_eq_ok {vectors : SparseVectors Code} {docs : List ℤ} {totalNnz : ℕ}
    (hrows : ∀ d ∈ docs, 0 ≤ d ∧ d.toNat < vectors.numVectors)
    (hnnz : totalNnz + (docs.map vectors.nnzOf).sum < 2 ^ 31) :
    countDocs vectors totalNnz docs = .ok (totalNnz + (docs.map vectors.nnzOf).sum) := by
  induction docs generalizing totalNnz with
  | nil => rfl
  | cons d docs ih =>
      obtain ⟨⟨h0, hlt⟩, hrest⟩ := List.forall_mem_cons.mp hrows
      rw [List.map_cons, List.sum_cons, ← add_assoc] at hnnz ⊢
      rw [countDocs, if_neg (by omega)]
      dsimp only
      rw [if_neg (by omega), ih hrest hnnz]

/-- The loop accepts nothing else. -/
theorem rows_of_countDocs {vectors : SparseVectors Code} {docs : List ℤ} {totalNnz n : ℕ}
    (htotal : totalNnz < 2 ^ 31) (h : countDocs vectors totalNnz docs = .ok n) :
    (∀ d ∈ docs, 0 ≤ d ∧ d.toNat < vectors.numVectors) ∧
      totalNnz + (docs.map vectors.nnzOf).sum < 2 ^ 31 := by
  induction docs generalizing totalNnz with
  | nil => exact ⟨by simp, by simpa using htotal⟩
  | cons d docs ih =>
      rw [countDocs] at h
      split at h
      · cases h
      · rename_i hrow
        dsimp only at h
        split at h
        · cases h
        · rename_i hcap
          obtain ⟨hrest, hsum⟩ := ih (by omega) h
          refine ⟨List.forall_mem_cons.mpr ⟨by omega, hrest⟩, ?_⟩
          rw [List.map_cons, List.sum_cons]
          omega

/-- **`count_block` accepts** exactly the countable blocks, and counts them. -/
theorem countBlock_eq_ok_iff {vectors : SparseVectors Code} {docs : List ℤ} {counts : ℕ × ℕ} :
    countBlock vectors docs = .ok counts ↔
      Countable vectors docs ∧ counts = (docs.length, (docs.map vectors.nnzOf).sum) := by
  have hcount : ∀ h : Countable vectors docs,
      countBlock vectors docs = .ok (docs.length, (docs.map vectors.nnzOf).sum) := by
    intro h
    have hlen := h.count
    have hok := @countDocs_eq_ok vectors docs 0 h.rows (by rw [Nat.zero_add]; exact h.nnz)
    rw [Nat.zero_add] at hok
    unfold countBlock
    rw [if_neg (by omega), hok]
    rfl
  constructor
  · intro h
    have hc : Countable vectors docs := by
      unfold countBlock at h
      split at h
      · cases h
      · obtain ⟨n, hdocs, -⟩ := bind_eq_ok h
        obtain ⟨hrows, hnnz⟩ := rows_of_countDocs (by norm_num) hdocs
        rw [Nat.zero_add] at hnnz
        exact ⟨hrows, by omega, hnnz⟩
    rw [hcount hc] at h
    exact ⟨hc, (Except.ok.inj h).symm⟩
  · rintro ⟨h, rfl⟩
    exact hcount h

/-! ### The bytes of a block -/

/-- Vectors whose components and values have the widths they are stored in. -/
structure Encodable (vectors : SparseVectors Code) : Prop where
  wellFormed : vectors.WellFormed
  width : BlockWidth vectors.elementSize
  terms : ∀ t ∈ vectors.indices, t < 2 ^ 16
  codes : ∀ code ∈ vectors.values, code.length = vectors.elementSize

section Block

variable {vectors : SparseVectors Code} {docs : List ℤ}

/-- The number of entries of the documents. -/
def blockNnz (vectors : SparseVectors Code) (docs : List ℤ) : ℕ := (docs.map vectors.nnzOf).sum

/-- The length of their block. -/
def blockLen (vectors : SparseVectors Code) (docs : List ℤ) : ℕ :=
  valsStart docs.length (blockNnz vectors docs) vectors.elementSize
    + blockNnz vectors docs * vectors.elementSize

theorem length_flatMap_of_forall {α β : Type} {f : α → List β} {g : α → ℕ} {l : List α}
    (h : ∀ a ∈ l, (f a).length = g a) : (l.flatMap f).length = (l.map g).sum := by
  rw [List.length_flatMap, List.map_congr_left h]

theorem length_comps (h : vectors.WellFormed) (hc : Countable vectors docs) :
    (docs.flatMap vectors.compsOf).length = blockNnz vectors docs :=
  length_flatMap_of_forall fun d hd => h.length_compsOf (hc.rows d hd).2

theorem length_vals (h : vectors.WellFormed) (hc : Countable vectors docs) :
    (docs.flatMap vectors.valsOf).length = blockNnz vectors docs :=
  length_flatMap_of_forall fun d hd => h.length_valsOf (hc.rows d hd).2

theorem Encodable.code_length (h : Encodable vectors) {d : ℤ} :
    ∀ code ∈ vectors.valsOf d, code.length = vectors.elementSize := fun code hcode =>
  h.codes code (List.mem_of_mem_drop (List.mem_of_mem_take hcode))

theorem Encodable.fits_comp (h : Encodable vectors) {d : ℤ} :
    ∀ t ∈ vectors.compsOf d, termCodec.Fits t := fun t ht =>
  Codec.fits_nat ((h.terms t (List.mem_of_mem_drop (List.mem_of_mem_take ht))).trans_eq
    (by norm_num))

/-- What is written in front of the components. -/
def blockFront (vectors : SparseVectors Code) (docs : List ℤ) : Bytes :=
  u32Codec.enc docs.length ++ u32Codec.encAll (docs.map Int.toNat) ++
    u32Codec.encAll ((docs.map vectors.nnzOf).scanl (· + ·) 0)

theorem length_blockFront : (blockFront vectors docs).length = compsStart docs.length := by
  unfold blockFront compsStart
  rw [List.length_append, List.length_append, u32Codec.length_enc, Codec.length_encAll,
    Codec.length_encAll, List.length_map, List.length_scanl, List.length_map]
  rfl

/-- The bytes of a countable block. -/
def rawBlock (vectors : SparseVectors Code) (docs : List ℤ) : Bytes :=
  blockFront vectors docs ++ termCodec.encAll (docs.flatMap vectors.compsOf) ++
    List.replicate (padding (compsStart docs.length + blockNnz vectors docs * 2)
      vectors.elementSize) 0 ++ (docs.flatMap vectors.valsOf).flatten

/-- The offsets of a countable block, none of which wraps. -/
theorem inlineBlockOffsets_block (hes : BlockWidth vectors.elementSize)
    (hc : Countable vectors docs) :
    inlineBlockOffsets docs.length (blockNnz vectors docs) vectors.elementSize =
      ⟨4, 4 + docs.length * 4, compsStart docs.length,
        valsStart docs.length (blockNnz vectors docs) vectors.elementSize,
        blockLen vectors docs⟩ :=
  inlineBlockOffsets_eq hc.count (lt_trans hc.nnz (by norm_num)) hes

theorem blockBytes_eq (hes : BlockWidth vectors.elementSize) (hc : Countable vectors docs) :
    blockBytes vectors docs
      (inlineBlockOffsets docs.length (blockNnz vectors docs) vectors.elementSize)
      (blockNnz vectors docs) = rawBlock vectors docs := by
  rw [inlineBlockOffsets_block hes hc]
  unfold blockBytes rawBlock blockFront valsStart alignUp
  dsimp only
  rw [Nat.add_sub_cancel_left]

theorem length_rawBlock (h : Encodable vectors) (hc : Countable vectors docs) :
    (rawBlock vectors docs).length = blockLen vectors docs := by
  have hvals : (docs.flatMap vectors.valsOf).flatten.length
      = blockNnz vectors docs * vectors.elementSize := by
    rw [SparseVectors.length_flatten_codes fun code hcode => ?_, length_vals h.wellFormed hc]
    obtain ⟨d, -, hcode⟩ := List.mem_flatMap.mp hcode
    exact h.code_length code hcode
  have hcomps : (termCodec.encAll (docs.flatMap vectors.compsOf)).length
      = blockNnz vectors docs * 2 := by
    rw [Codec.length_encAll, length_comps h.wellFormed hc]
    rfl
  rw [rawBlock, List.length_append, List.length_append, List.length_append, length_blockFront,
    hcomps, List.length_replicate, hvals]
  rfl

/-! ### Reading a block back -/

/-- A view holds `docs` with the rows that `vectors` has for them. -/
structure BlockView.Holds (mapping : Bytes) (view : BlockView) (vectors : SparseVectors Code)
    (docs : List ℤ) : Prop where
  nDocs : view.nDocs = docs.length
  docIds : (view.docIdList mapping).map (fun n : ℕ => (n : ℤ)) = docs
  nnz : ∀ i, ∀ _ : i < docs.length, view.nnz mapping i = vectors.nnzOf docs[i]
  comps : ∀ i, ∀ _ : i < docs.length, view.docComps mapping i = vectors.compsOf docs[i]
  vals : ∀ i, ∀ _ : i < docs.length,
    view.docVals mapping vectors.elementSize i = vectors.valsOf docs[i]

/-- The running sums are the offsets of the rows. -/
theorem scanl_eq_offsetsFrom {rs : List (List ℕ)} {ns : List ℕ} (h : ns = rs.map List.length)
    (a : ℕ) : ns.scanl (· + ·) a = Csr.offsetsFrom a rs := by
  subst h
  induction rs generalizing a with
  | nil => rfl
  | cons r rs ih => rw [List.map_cons, List.scanl_cons, Csr.offsetsFrom, ih]

/-- A list of lists around one of them. -/
theorem flatten_split {α : Type} (rs : List (List α)) {i : ℕ} (h : i < rs.length) :
    rs.flatten = (rs.take i).flatten ++ (rs[i] ++ (rs.drop (i + 1)).flatten) := by
  conv_lhs => rw [← List.take_append_drop i rs, List.flatten_append,
    List.drop_eq_getElem_cons h, List.flatten_cons]

/-- The within-block offsets of a countable block. -/
theorem runningSums_eq (h : vectors.WellFormed) (hc : Countable vectors docs) :
    (docs.map vectors.nnzOf).scanl (· + ·) 0 = Csr.offsets (docs.map vectors.compsOf) := by
  refine scanl_eq_offsetsFrom ?_ 0
  rw [List.map_map]
  exact List.map_congr_left fun d hd => (h.length_compsOf (hc.rows d hd).2).symm

/-- Where the block of some documents is in a mapping: behind `pre` and in front of `post`. -/
structure BlockAt (mapping : Bytes) (base : ℕ) (vectors : SparseVectors Code)
    (docs : List ℤ) : Prop where
  split : ∃ pre post, mapping = pre ++ (rawBlock vectors docs ++ post) ∧ pre.length = base

/-- A block found in a section is found in every mapping of it. -/
theorem BlockAt.shift {bytes : Bytes} {base : ℕ} (h : BlockAt bytes base vectors docs)
    (pre post : Bytes) : BlockAt (pre ++ (bytes ++ post)) (pre.length + base) vectors docs := by
  obtain ⟨before, after, rfl, rfl⟩ := h.split
  refine ⟨⟨pre ++ before, after ++ post, ?_, List.length_append⟩⟩
  simp only [List.append_assoc]

section Read

variable {mapping : Bytes} {base : ℕ}

/-- The number of documents stands first. -/
theorem BlockAt.readAt_count (hat : BlockAt mapping base vectors docs)
    (hc : Countable vectors docs) : u32Codec.readAt mapping base = docs.length := by
  obtain ⟨pre, post, hmap, rfl⟩ := hat.split
  rw [hmap, rawBlock, blockFront]
  simp only [List.append_assoc]
  exact Codec.readAt_append (fits_u32 hc.count) pre _

theorem BlockAt.docIdList (hat : BlockAt mapping base vectors docs)
    (hids : ∀ d ∈ docs, d.toNat < 2 ^ 32) :
    u32Codec.arrayAt mapping (base + 4) docs.length = docs.map Int.toNat := by
  obtain ⟨pre, post, hmap, rfl⟩ := hat.split
  have hfits : ∀ n ∈ docs.map Int.toNat, u32Codec.Fits n := by
    intro n hn
    obtain ⟨d, hd, rfl⟩ := List.mem_map.mp hn
    exact fits_u32 (hids d hd)
  have hlen : (pre ++ u32Codec.enc docs.length).length = pre.length + 4 := by
    rw [List.length_append, u32Codec.length_enc]
    rfl
  have hread := Codec.arrayAt_append hfits (pre ++ u32Codec.enc docs.length)
    (u32Codec.encAll ((docs.map vectors.nnzOf).scanl (· + ·) 0) ++
      (termCodec.encAll (docs.flatMap vectors.compsOf) ++
      (List.replicate (padding (compsStart docs.length + blockNnz vectors docs * 2)
        vectors.elementSize) 0 ++ ((docs.flatMap vectors.valsOf).flatten ++ post))))
  rw [hlen, List.length_map] at hread
  rw [hmap, rawBlock, blockFront]
  simpa only [List.append_assoc] using hread

theorem BlockAt.offsets (hat : BlockAt mapping base vectors docs) (h : vectors.WellFormed)
    (hc : Countable vectors docs) :
    u32Codec.arrayAt mapping (base + (4 + docs.length * 4)) (docs.length + 1)
      = Csr.offsets (docs.map vectors.compsOf) := by
  obtain ⟨pre, post, hmap, rfl⟩ := hat.split
  have hsums := runningSums_eq h hc
  have hfits : ∀ n ∈ Csr.offsets (docs.map vectors.compsOf), u32Codec.Fits n := by
    intro n hn
    have hle := (Csr.offsets_valid (docs.map vectors.compsOf)).le_of_mem hn
    rw [← List.flatMap_def, length_comps h hc] at hle
    exact fits_u32 (hle.trans_lt (lt_trans hc.nnz (by norm_num)))
  have hlen : (pre ++ (u32Codec.enc docs.length ++ u32Codec.encAll (docs.map Int.toNat))).length
      = pre.length + (4 + docs.length * 4) := by
    rw [List.length_append, List.length_append, u32Codec.length_enc, Codec.length_encAll,
      List.length_map]
    rfl
  have hread := Codec.arrayAt_append hfits
    (pre ++ (u32Codec.enc docs.length ++ u32Codec.encAll (docs.map Int.toNat)))
    (termCodec.encAll (docs.flatMap vectors.compsOf) ++
      (List.replicate (padding (compsStart docs.length + blockNnz vectors docs * 2)
        vectors.elementSize) 0 ++ ((docs.flatMap vectors.valsOf).flatten ++ post)))
  rw [hlen, Csr.length_offsets, List.length_map] at hread
  rw [hmap, rawBlock, blockFront, hsums]
  simpa only [List.append_assoc] using hread

/-- The components of document `i` stand behind those of the documents before it. -/
theorem BlockAt.comps (hat : BlockAt mapping base vectors docs) (h : Encodable vectors)
    {i : ℕ} (hi : i < docs.length) :
    termCodec.arrayAt mapping
        (base + compsStart docs.length + 2 * ((docs.map vectors.compsOf).take i).flatten.length)
        (vectors.compsOf docs[i]).length = vectors.compsOf docs[i] := by
  obtain ⟨pre, post, hmap, rfl⟩ := hat.split
  set before := ((docs.map vectors.compsOf).take i).flatten with hbefore
  set after := ((docs.map vectors.compsOf).drop (i + 1)).flatten with hafter
  have hsplit : docs.flatMap vectors.compsOf = before ++ (vectors.compsOf docs[i] ++ after) := by
    have := flatten_split (docs.map vectors.compsOf) (by rwa [List.length_map])
    rwa [List.getElem_map, ← List.flatMap_def] at this
  have hlen : (pre ++ (blockFront vectors docs ++ termCodec.encAll before)).length
      = pre.length + compsStart docs.length + 2 * before.length := by
    rw [List.length_append, List.length_append, length_blockFront, Codec.length_encAll,
      mul_comm before.length, add_assoc]
    rfl
  have hread := Codec.arrayAt_append (h.fits_comp (d := docs[i]))
    (pre ++ (blockFront vectors docs ++ termCodec.encAll before))
    (termCodec.encAll after ++
      (List.replicate (padding (compsStart docs.length + blockNnz vectors docs * 2)
        vectors.elementSize) 0 ++ ((docs.flatMap vectors.valsOf).flatten ++ post)))
  rw [hlen] at hread
  rw [hmap, rawBlock, hsplit, Codec.encAll_append, Codec.encAll_append]
  simpa only [List.append_assoc] using hread

/-- The values of document `i` stand behind those of the documents before it. -/
theorem BlockAt.vals (hat : BlockAt mapping base vectors docs) (h : Encodable vectors)
    (hc : Countable vectors docs) {i : ℕ} (hi : i < docs.length) :
    SparseVectors.codesOf vectors.elementSize (vectors.valsOf docs[i]).length
        (mapping.drop (base + valsStart docs.length (blockNnz vectors docs) vectors.elementSize
          + vectors.elementSize * ((docs.map vectors.valsOf).take i).flatten.length))
      = vectors.valsOf docs[i] := by
  obtain ⟨pre, post, hmap, rfl⟩ := hat.split
  set before := ((docs.map vectors.valsOf).take i).flatten with hbefore
  set after := ((docs.map vectors.valsOf).drop (i + 1)).flatten with hafter
  have hsplit : docs.flatMap vectors.valsOf = before ++ (vectors.valsOf docs[i] ++ after) := by
    have := flatten_split (docs.map vectors.valsOf) (by rwa [List.length_map])
    rwa [List.getElem_map, ← List.flatMap_def] at this
  have hcodes : before.flatten.length = before.length * vectors.elementSize := by
    refine SparseVectors.length_flatten_codes fun code hcode => ?_
    obtain ⟨codes, hmem, hcode⟩ := List.mem_flatten.mp hcode
    obtain ⟨d, -, rfl⟩ := List.mem_map.mp (List.mem_of_mem_take hmem)
    exact h.code_length code hcode
  have hcomps : (termCodec.encAll (docs.flatMap vectors.compsOf)).length
      = blockNnz vectors docs * 2 := by
    rw [Codec.length_encAll, length_comps h.wellFormed hc]
    rfl
  set front := blockFront vectors docs ++ (termCodec.encAll (docs.flatMap vectors.compsOf) ++
    List.replicate (padding (compsStart docs.length + blockNnz vectors docs * 2)
      vectors.elementSize) 0) with hfront
  have hlen : (pre ++ (front ++ before.flatten)).length
      = pre.length + valsStart docs.length (blockNnz vectors docs) vectors.elementSize
        + vectors.elementSize * before.length := by
    rw [List.length_append, List.length_append, hfront, List.length_append, List.length_append,
      length_blockFront, hcomps, List.length_replicate, hcodes, valsStart, alignUp,
      mul_comm vectors.elementSize]
    omega
  have hmapping : mapping = (pre ++ (front ++ before.flatten)) ++
      ((vectors.valsOf docs[i]).flatten ++ (after.flatten ++ post)) := by
    rw [hmap, rawBlock, hsplit, List.flatten_append, List.flatten_append, hfront]
    simp only [List.append_assoc]
  rw [← hlen, hmapping, List.drop_left]
  exact SparseVectors.codesOf_flatten_append h.code_length _

end Read

theorem take_flatten_length_congr {α β γ : Type} {f : α → List β} {g : α → List γ} {l : List α}
    (h : ∀ a ∈ l, (f a).length = (g a).length) (i : ℕ) :
    ((l.map f).take i).flatten.length = ((l.map g).take i).flatten.length := by
  rw [← List.map_take, ← List.map_take, ← List.flatMap_def, ← List.flatMap_def,
    List.length_flatMap, List.length_flatMap]
  exact congrArg List.sum (List.map_congr_left fun a ha => h a (List.mem_of_mem_take ha))

/-- **A written block is viewed** with the documents it was written from. -/
theorem viewBlock_eq_ok {fwd : InlineForwardIndex} {entry : InlineDirEntry}
    (h : Encodable vectors) (hc : Countable vectors docs) (hids : ∀ d ∈ docs, d.toNat < 2 ^ 32)
    (hat : BlockAt fwd.mapping (fwd.blockBase + entry.byteOff) vectors docs)
    (hes : fwd.elementSize = vectors.elementSize) (hdocs : entry.nDocs = docs.length)
    (hlen : entry.len = blockLen vectors docs) :
    ∃ view, fwd.viewBlock entry = .ok view ∧ view.Holds fwd.mapping vectors docs := by
  have hcount := hat.readAt_count hc
  have hoffsets := hat.offsets h.wellFormed hc
  have hvalid := Csr.offsets_valid (docs.map vectors.compsOf)
  have htotal : (Csr.offsets (docs.map vectors.compsOf)).getD docs.length 0
      = blockNnz vectors docs := by
    rw [Csr.getD_offsets _ (by rw [List.length_map]), List.take_of_length_le
      (by rw [List.length_map]), ← List.flatMap_def, length_comps h.wellFormed hc]
  have hhead : (Csr.offsets (docs.map vectors.compsOf)).headD 0 = 0 := by
    rw [List.headD_eq_head?_getD, hvalid.head, Option.getD_some]
  have hwidth := h.width
  have hcomps : compsStart docs.length ≤ blockLen vectors docs :=
    (Nat.le_add_right _ _).trans ((le_alignUp _ _).trans (Nat.le_add_right _ _))
  set base := fwd.blockBase + entry.byteOff with hbase
  refine ⟨⟨docs.length, base + 4, base + (4 + docs.length * 4), base + compsStart docs.length,
    base + valsStart docs.length (blockNnz vectors docs) vectors.elementSize⟩, ?_, ?_⟩
  · unfold InlineForwardIndex.viewBlock InlineForwardIndex.offsetsAt
    dsimp only
    rw [← hbase, hcount, hes, if_neg (not_not.mpr hdocs.symm),
      inlineBlockOffsets_eq hc.count (Nat.two_pow_pos 32) hwidth]
    dsimp only
    rw [hoffsets, htotal, inlineBlockOffsets_block hwidth hc, if_neg (by omega),
      if_neg (not_not.mpr hhead), if_neg (not_not.mpr hvalid.mono.isChain),
      if_neg (not_not.mpr hlen.symm)]
  · -- the offsets as the view reads them
    have hoffset : ∀ i ≤ docs.length, u32Codec.readAt fwd.mapping
        (base + (4 + docs.length * 4) + 4 * i)
        = ((docs.map vectors.compsOf).take i).flatten.length := by
      intro i hi
      have hget := Codec.getElem?_arrayAt u32Codec (Nat.lt_succ_of_le hi) fwd.mapping
        (base + (4 + docs.length * 4))
      rw [Nat.succ_eq_add_one, hoffsets] at hget
      rw [← Csr.getD_offsets _ (by rwa [List.length_map]), List.getD_eq_getElem?_getD, hget]
      rfl
    have hnnz : ∀ i, ∀ _ : i < docs.length, ((docs.map vectors.compsOf).take (i + 1)).flatten.length
        - ((docs.map vectors.compsOf).take i).flatten.length = vectors.nnzOf docs[i] := by
      intro i hi
      have hrow := h.wellFormed.length_compsOf (hc.rows _ (List.getElem_mem hi)).2
      rw [List.take_succ_eq_append_getElem (by rwa [List.length_map]), List.flatten_append,
        List.length_append, Nat.add_sub_cancel_left, List.getElem_map]
      simpa using hrow
    refine ⟨rfl, ?_, fun i hi => ?_, fun i hi => ?_, fun i hi => ?_⟩
    · rw [BlockView.docIdList, hat.docIdList hids, List.map_map]
      refine (List.map_congr_left fun d hd => ?_).trans (List.map_id docs)
      exact Int.toNat_of_nonneg (hc.rows d hd).1
    · rw [BlockView.nnz, BlockView.offset, BlockView.offset, hoffset _ hi, hoffset _ hi.le,
        hnnz i hi]
    · have hrow := h.wellFormed.length_compsOf (hc.rows _ (List.getElem_mem hi)).2
      rw [BlockView.docComps, BlockView.nnz, BlockView.offset, BlockView.offset, hoffset _ hi,
        hoffset _ hi.le, hnnz i hi, ← hrow]
      exact hat.comps h hi
    · have hrow := h.wellFormed.length_valsOf (hc.rows _ (List.getElem_mem hi)).2
      have hsame := take_flatten_length_congr (f := vectors.compsOf) (g := vectors.valsOf)
        (l := docs) (fun d hd => (h.wellFormed.length_compsOf (hc.rows d hd).2).trans
          (h.wellFormed.length_valsOf (hc.rows d hd).2).symm) i
      rw [BlockView.docVals, BlockView.nnz, BlockView.offset, BlockView.offset, hoffset _ hi,
        hoffset _ hi.le, hnnz i hi, ← hrow, hsame]
      exact hat.vals h hc hi

end Block

end Nsparse
