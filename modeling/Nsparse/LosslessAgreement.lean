/-
Nsparse/LosslessAgreement.lean

A lossless seismic index agrees with the brute-force index.

Both are given the same batches of documents of positive weights and the same queries.
The codes of a float index are read back as the weights they were made of, so the exact
score of a document is the inner product that the brute-force index takes
(`exactScore_encode`); and with positive weights it is positive for the documents that
share a term and 0 for all others (`sharingDocs_eq`).

So where nothing is pruned, summarised away or passed over, the seismic row is the
brute-force row with every score that is not positive taken for padding
(`SeismicIndex.lossless_agrees`).
-/
import Nsparse.Agreement
import Nsparse.SoundSearch

namespace Nsparse

variable {F : Type}

/-! ### Rows and their codes -/

/-- Columns that are encoded hold the encoded rows. -/
theorem rows_encoded {V W : Type} (encode : V → W) (indptr indices : List ℕ) (values : List V) :
    Csr.rows indptr (indices.zip (values.map encode))
      = encodeRows encode (Csr.rows indptr (indices.zip values)) := by
  have hzip : indices.zip (values.map encode)
      = (indices.zip values).map fun entry => (entry.1, encode entry.2) := List.zip_map_right ..
  rw [hzip, Csr.rows, Csr.rows, encodeRows, List.map_map]
  refine List.map_congr_left fun i _ => ?_
  show ((List.map _ _).drop _).take _ = (((indices.zip values).drop _).take _).map _
  rw [← List.map_drop, ← List.map_take]

/-- Encoded rows are appended behind encoded rows. -/
theorem rows_appendRows {V W : Type} {encode : V → W} {v : SparseVectors W} {a : CsrArgs V}
    {arrays : List ℕ × List ℕ × List V} (hchecked : a.checked = .ok arrays) (hwf : v.WellFormed)
    {docs : List (SparseRow V)} (hrows : v.rows = encodeRows encode docs) :
    (v.appendRows (encodeRows encode a.rows)).rows = encodeRows encode (docs ++ a.rows) := by
  obtain ⟨indptr, indices, values⟩ := arrays
  obtain ⟨-, -, hoff, -, hargs, -⟩ := CsrArgs.checked_eq_ok hchecked
  have happend := (SparseVectors.addVectors_args encode v hchecked).1
  rw [(SparseVectors.addVectors_eq_ok hwf hoff happend).2.1, hrows, rows_encoded, ← hargs,
    encodeRows_append]

section Codes

variable [CommRing F] [LinearOrder F] [FloatFormat F]

/-- Positive weights that are read back from their codes. -/
def PositiveRow (row : SparseRow F) : Prop :=
  ∀ entry ∈ row, 0 < entry.2 ∧ FloatFormat.ofBits (FloatFormat.toBits entry.2) = entry.2

/-- A row as a float index stores it. -/
def encodeRow (row : SparseRow F) : SparseRow Code :=
  row.map fun entry => (entry.1, FloatFormat.toBits entry.2)

omit [CommRing F] [LinearOrder F] in
@[simp] theorem map_fst_encodeRow (row : SparseRow F) :
    (encodeRow row).map Prod.fst = row.map Prod.fst := by
  rw [encodeRow, List.map_map]
  rfl

theorem decodeRow_encodeRow {row : SparseRow F} (h : PositiveRow row) :
    decodeRow FloatFormat.ofBits (encodeRow row) = row := by
  have hback : ∀ entry ∈ row,
      (entry.1, (FloatFormat.ofBits (FloatFormat.toBits entry.2) : F)) = entry := by
    intro entry hentry
    rw [(h entry hentry).2]
  rw [decodeRow, encodeRow, List.map_map]
  exact (List.map_congr_left hback).trans (List.map_id' row)

/-- **The exact score** of stored rows is the inner product of the rows. -/
theorem exactScore_encode {query row : SparseRow F} (hquery : PositiveRow query)
    (hrow : PositiveRow row) :
    exactScore F U32 (encodeRow query) (encodeRow row) = rowProduct query row := by
  rw [exactScore, if_pos rfl, decodeRow_encodeRow hquery, decodeRow_encodeRow hrow]

variable [IsStrictOrderedRing F]

theorem weight_nonneg {row : SparseRow F} (h : PositiveRow row) (term : ℕ) :
    0 ≤ weight row term := by
  apply List.sum_nonneg
  intro value hvalue
  obtain ⟨entry, hentry, rfl⟩ := List.mem_map.mp hvalue
  exact (h entry (List.mem_of_mem_filter hentry)).1.le

theorem weight_pos {row : SparseRow F} (h : PositiveRow row) {entry : ℕ × F}
    (hentry : entry ∈ row) : 0 < weight row entry.1 := by
  refine (h entry hentry).1.trans_le (List.single_le_sum ?_ _ ?_)
  · intro value hvalue
    obtain ⟨other, hother, rfl⟩ := List.mem_map.mp hvalue
    exact (h other (List.mem_of_mem_filter hother)).1.le
  · exact List.mem_map_of_mem (List.mem_filter.mpr ⟨hentry, decide_eq_true rfl⟩)

/-- **Positive rows** have a positive product exactly when they share a term. -/
theorem rowProduct_pos_iff {query row : SparseRow F} (hquery : PositiveRow query)
    (hrow : PositiveRow row) :
    0 < rowProduct query row ↔ ∃ entry ∈ query, entry.1 ∈ row.map Prod.fst := by
  constructor
  · intro hpos
    by_contra hnone
    refine hpos.ne' (List.sum_eq_zero fun product hproduct => ?_)
    obtain ⟨entry, hentry, rfl⟩ := List.mem_map.mp hproduct
    have habsent : entry.1 ∉ query.map Prod.fst := by
      intro hmem
      obtain ⟨other, hother, heq⟩ := List.mem_map.mp hmem
      exact hnone ⟨other, hother, List.mem_map.mpr ⟨entry, hentry, heq.symm⟩⟩
    show entry.2 * weight query entry.1 = 0
    rw [weight_of_notMem habsent, mul_zero]
  · rintro ⟨entry, hentry, hterm⟩
    obtain ⟨other, hother, heq⟩ := List.mem_map.mp hterm
    have hshared : 0 < other.2 * weight query other.1 := by
      rw [heq]
      exact mul_pos (hrow other hother).1 (weight_pos hquery hentry)
    refine hshared.trans_le (List.single_le_sum ?_ _ (List.mem_map.mpr ⟨other, hother, rfl⟩))
    intro product hproduct
    obtain ⟨third, hthird, rfl⟩ := List.mem_map.mp hproduct
    exact mul_nonneg (hrow third hthird).1.le (weight_nonneg hquery third.1)

end Codes

/-! ### Documents that share a term -/

section Documents

variable [CommRing F] [LinearOrder F] [FloatFormat F] {vectors : SparseVectors Code}
  {docs : List (SparseRow F)}

omit [CommRing F] [LinearOrder F] in
/-- A stored document is the document in codes. -/
theorem row_of_encoded (hrows : vectors.rows = docs.map encodeRow) {i : ℕ} (hi : i < docs.length) :
    vectors.row i = encodeRow (docs.getD i []) := by
  have hlt : i < vectors.numVectors := by
    rwa [← vectors.length_rows, hrows, List.length_map]
  have hrow : vectors.rows[i]? = some (vectors.row i) := by
    rw [vectors.rows_eq_map_row, List.getElem?_map, List.getElem?_range hlt, Option.map_some]
  rw [hrows, List.getElem?_map, List.getElem?_eq_getElem hi, Option.map_some,
    Option.some_inj] at hrow
  rw [List.getD_eq_getElem _ _ hi, hrow]

/-- Stored weights are read back as they were. -/
theorem ofBits_values (hwf : vectors.WellFormed) (hrows : vectors.rows = docs.map encodeRow)
    (hdocs : ∀ row ∈ docs, PositiveRow row) {code : Code} (hcode : code ∈ vectors.values) :
    FloatFormat.ofBits (FloatFormat.toBits (FloatFormat.ofBits code : F))
      = (FloatFormat.ofBits code : F) := by
  rw [← hwf.map_snd_entries, ← hwf.flatten_rows, hrows] at hcode
  obtain ⟨stored, hstored, rfl⟩ := List.mem_map.mp hcode
  obtain ⟨coded, hcoded, hin⟩ := List.mem_flatten.mp hstored
  obtain ⟨row, hrow, rfl⟩ := List.mem_map.mp hcoded
  obtain ⟨entry, hentry, rfl⟩ := List.mem_map.mp hin
  show FloatFormat.ofBits (FloatFormat.toBits (FloatFormat.ofBits (FloatFormat.toBits entry.2)))
    = FloatFormat.ofBits (FloatFormat.toBits entry.2)
  rw [(hdocs row hrow entry hentry).2, (hdocs row hrow entry hentry).2]

omit [CommRing F] [LinearOrder F] in
/-- Codes leave the terms alone. -/
theorem distinct_of_encoded (hrows : vectors.rows = docs.map encodeRow)
    (hdocs : ∀ row ∈ docs, (row.map Prod.fst).Nodup) :
    ∀ row ∈ vectors.rows, (row.map Prod.fst).Nodup := by
  rw [hrows]
  refine List.forall_mem_map.mpr fun row hrow => ?_
  rw [map_fst_encodeRow]
  exact hdocs row hrow

omit [CommRing F] [LinearOrder F] in
theorem termsBelow_of_encoded {dim : ℕ} (hrows : vectors.rows = docs.map encodeRow)
    (hstored : TermsBelow dim vectors.rows) : TermsBelow dim docs := by
  intro row hrow entry hentry
  have hcoded : encodeRow row ∈ vectors.rows := by
    rw [hrows]
    exact List.mem_map_of_mem hrow
  exact hstored _ hcoded _ (List.mem_map_of_mem hentry)

variable [IsStrictOrderedRing F]

/-- **The documents that share a term** are those of positive score. -/
theorem sharingDocs_eq (hrows : vectors.rows = docs.map encodeRow)
    (hdocs : ∀ row ∈ docs, PositiveRow row) {query : SparseRow F} (hquery : PositiveRow query) :
    sharingDocs none vectors (encodeRow query)
      = (documents docs.length).filter fun doc => 0 < innerProduct docs query doc.toNat := by
  have hcount : vectors.numVectors = docs.length := by
    rw [← vectors.length_rows, hrows, List.length_map]
  ext doc
  rw [mem_sharingDocs, Finset.mem_filter, documents, Finset.mem_map, hcount]
  have hshares : ∀ i < docs.length,
      ((∃ entry ∈ encodeRow query, entry.1 ∈ (vectors.row i).map Prod.fst) ↔
        0 < innerProduct docs query i) := by
    intro i hi
    have hrow : PositiveRow (docs.getD i []) := by
      rw [List.getD_eq_getElem _ _ hi]
      exact hdocs _ (List.getElem_mem hi)
    show _ ↔ 0 < rowProduct (docs.getD i []) query
    rw [rowProduct_comm, rowProduct_pos_iff hquery hrow, row_of_encoded hrows hi, map_fst_encodeRow,
      encodeRow]
    constructor
    · rintro ⟨entry, hentry, hterm⟩
      obtain ⟨plain, hplain, rfl⟩ := List.mem_map.mp hentry
      exact ⟨plain, hplain, hterm⟩
    · rintro ⟨plain, hplain, hterm⟩
      exact ⟨_, List.mem_map_of_mem hplain, hterm⟩
  constructor
  · rintro ⟨⟨i, rfl, hi, hentry⟩, -⟩
    exact ⟨⟨i, Finset.mem_range.mpr hi, rfl⟩, (hshares i hi).mp hentry⟩
  · rintro ⟨⟨i, hi, rfl⟩, hpos⟩
    have hi := Finset.mem_range.mp hi
    exact ⟨⟨i, rfl, hi, (hshares i hi).mpr hpos⟩, rfl⟩

/-- **A row over the codes** is one over the documents. -/
theorem bestRow_of_codes (hrows : vectors.rows = docs.map encodeRow)
    (hdocs : ∀ row ∈ docs, PositiveRow row) {query : SparseRow F} (hquery : PositiveRow query)
    {k : ℕ} {row : List F × List ℤ}
    (h : BestRow k (fun doc => exactScore F U32 (encodeRow query) (docRow vectors doc)) id
      (sharingDocs none vectors (encodeRow query)) row) :
    BestRow k (fun doc => innerProduct docs query doc.toNat) id
      ((documents docs.length).filter fun doc => 0 < innerProduct docs query doc.toNat) row := by
  rw [sharingDocs_eq hrows hdocs hquery] at h
  refine h.congr fun doc hdoc => ?_
  obtain ⟨hin, -⟩ := Finset.mem_filter.mp hdoc
  obtain ⟨i, hi, rfl⟩ := Finset.mem_map.mp hin
  have hi := Finset.mem_range.mp hi
  have hrow : PositiveRow (docs.getD i []) := by
    rw [List.getD_eq_getElem _ _ hi]
    exact hdocs _ (List.getElem_mem hi)
  show exactScore F U32 (encodeRow query) (vectors.row i) = rowProduct (docs.getD i []) query
  rw [row_of_encoded hrows hi, exactScore_encode hquery hrow, rowProduct_comm]

/-- So are the rows of a batch. -/
theorem bestRows_of_codes (hrows : vectors.rows = docs.map encodeRow)
    (hdocs : ∀ row ∈ docs, PositiveRow row) {queries : List (SparseRow F)}
    (hqueries : ∀ query ∈ queries, PositiveRow query) {k : ℕ} {rows : List (List F × List ℤ)}
    (h : List.Forall₂ (fun query row => BestRow k
      (fun doc => exactScore F U32 query (docRow vectors doc)) id (sharingDocs none vectors query)
      row) (queries.map encodeRow) rows) :
    List.Forall₂ (fun query row => BestRow k (fun doc => innerProduct docs query doc.toNat) id
      ((documents docs.length).filter fun doc => 0 < innerProduct docs query doc.toNat) row)
      queries rows := by
  induction queries generalizing rows with
  | nil =>
      cases h
      exact .nil
  | cons query queries ih =>
      obtain ⟨hquery, hqueries⟩ := List.forall_mem_cons.mp hqueries
      cases h with
      | cons hrow h => exact .cons (bestRow_of_codes hrows hdocs hquery hrow) (ih hqueries h)

omit [FloatFormat F] [IsStrictOrderedRing F] in
/-- The best of the documents of positive score are the best of all, as shown. -/
theorem scores_eq_shown_of_positive {k n : ℕ} {score : ℤ → F} {best row : List F × List ℤ}
    (hbest : BestRow k score id (documents n) best)
    (hrow : BestRow k score id ((documents n).filter fun doc => 0 < score doc) row) :
    row.1 = best.1.map shown := by
  have hpositive : (((documents n).filter fun doc => 0 < score doc).val.map score)
      = ((documents n).val.map score).filter (0 < ·) := by
    rw [Finset.filter_val, Multiset.filter_map]
    rfl
  have hcard : ((documents n).filter fun doc => 0 < score doc).card
      = (((documents n).val.map score).filter (0 < ·)).card := by
    rw [← hpositive, Multiset.card_map]
    rfl
  have hall : (documents n).card = ((documents n).val.map score).card := by
    rw [Multiset.card_map]
    rfl
  rw [hbest.scores_eq, hrow.scores_eq, List.map_id, List.map_id, hall, map_shown_sort, hpositive,
    hcard]

end Documents

namespace SeismicIndex

/-! ### The documents of a run -/

section Adds

variable [CommRing F] [LinearOrder F] [FloatFormat F] (rng : Rng) (sort : StdSort)
  {format : CodeFormat F} {x : SeismicIndex F} {docs : List (SparseRow F)}

/-- The vectors of the index are these rows in codes. -/
def Encodes (x : SeismicIndex F) (encode : F → Code) (docs : List (SparseRow F)) : Prop :=
  (x.vectors = none ∧ docs = []) ∨ ∃ v, x.vectors = some v ∧ v.rows = encodeRows encode docs

omit [CommRing F] [LinearOrder F] [FloatFormat F] in
/-- What an `add` begins with. -/
theorem Encodes.start (hx : x.Encodes format.encode docs) (hfed : x.Fed format.elementSize)
    (hdim : 0 < x.dimension) :
    ∃ v, x.vectorsToAdd format = .ok v ∧ v.WellFormed ∧
      v.rows = encodeRows format.encode docs := by
  rcases hx with ⟨hnone, rfl⟩ | ⟨v, hsome, hrows⟩
  · have hnew : SparseVectors.new format.elementSize x.dimension
        = .ok (⟨format.elementSize, x.dimension, [], [], []⟩ : SparseVectors Code) :=
      if_neg hdim.ne'
    obtain ⟨hwf, hrows, -, -⟩ := SparseVectors.new_wellFormed hnew
    refine ⟨_, ?_, hwf, hrows⟩
    rw [vectorsToAdd_eq, vectorsOrNew, hnone]
    exact hnew
  · refine ⟨v, ?_, (hfed.vectors v hsome).wellFormed, hrows⟩
    rw [vectorsToAdd_eq, vectorsOrNew, hsome]
    rfl

/-- **One `add`** appends its rows in codes, or none when it throws. -/
theorem Encodes.add (hx : x.Encodes format.encode docs) (hfed : x.Fed format.elementSize)
    (hdim : 0 < x.dimension) (a : CsrArgs F) :
    (step rng sort format x (.add a)).Encodes format.encode (docs ++ a.rows) := by
  rcases hchecked : a.checked with e | ⟨indptr, indices, values⟩
  · have hadd : x.add format a = .error e := by
      unfold SeismicIndex.add
      rw [hchecked]
      rfl
    rw [step, hadd, CsrArgs.rows_of_checked_error hchecked, List.append_nil]
    exact hx
  · obtain ⟨v, hto, hwf, hrows⟩ := hx.start hfed hdim
    have happend := (SparseVectors.addVectors_args format.encode v hchecked).1
    have hadd : x.add format a = .ok { x with
        vectors := some (v.appendRows (encodeRows format.encode a.rows)) } := by
      unfold SeismicIndex.add
      rw [hchecked]
      show (x.vectorsToAdd format).bind _ = _
      rw [hto]
      show (v.addVectors indptr indices (values.map format.encode)).bind _ = _
      rw [happend]
      rfl
    rw [step, hadd]
    exact .inr ⟨_, rfl, rows_appendRows hchecked hwf hrows⟩

/-- **Every run of `add` calls** does. -/
theorem adds_encode {dim : ℕ} (hdim : 0 < dim) (batches : List (CsrArgs F))
    (hx : x.Encodes format.encode docs) (hfed : x.Fed format.elementSize)
    (hdimension : x.dimension = dim) :
    (run rng sort format x (batches.map .add)).Encodes format.encode
      (docs ++ batches.flatMap CsrArgs.rows) := by
  induction batches generalizing x docs with
  | nil =>
      rw [List.flatMap_nil, List.append_nil]
      exact hx
  | cons a batches ih =>
      rw [List.flatMap_cons, ← List.append_assoc]
      refine ih (hx.add rng sort hfed (hdimension ▸ hdim) a) (step_fed rng sort hfed (.add a)) ?_
      exact (run_parameters rng sort format x [.add a]).1.trans hdimension

/-- So a new index that only added holds its documents in codes. -/
theorem rows_of_adds {dim : ℕ} (hpos : 0 < dim) (hdim : dim < 2 ^ 31)
    (clusterParameter : SeismicClusterParameters F) (batches : List (CsrArgs F))
    {vectors : SparseVectors Code}
    (h : (run rng sort format (new dim clusterParameter) (batches.map .add)).vectors
      = some vectors) :
    vectors.rows = encodeRows format.encode (batches.flatMap CsrArgs.rows) := by
  have hencodes : Encodes _ _ ([] ++ _) := adds_encode rng sort hpos batches
    (.inl ⟨rfl, rfl⟩ : (new dim clusterParameter).Encodes format.encode [])
    (new_fed hdim clusterParameter) rfl
  rcases hencodes with ⟨hnone, -⟩ | ⟨v, hsome, hencoded⟩
  · rw [h] at hnone
    cases hnone
  · obtain rfl := Option.some_inj.mp (h.symm.trans hsome)
    rw [hencoded, List.nil_append]

end Adds

/-! ### Searches -/

variable [CommRing F] [LinearOrder F] [IsStrictOrderedRing F] [FloatFormat F]

omit [CommRing F] [LinearOrder F] [IsStrictOrderedRing F] in
/-- The queries as a float index stores them. -/
theorem codedQueries_float {queries : CsrArgs F} {indptr indices : List ℕ} {values : List F}
    (hqueries : queries.checked = .ok (indptr, indices, values)) :
    codedQueries (floatQueries F) queries.n indptr indices values
      = queries.rows.map encodeRow := by
  obtain ⟨hnnz, hpair, hcount⟩ := getD_of_checked hqueries
  obtain ⟨-, -, -, -, hrows, -⟩ := CsrArgs.checked_eq_ok hqueries
  have hencoded := rows_encoded (FloatFormat.toBits : F → Code) indptr indices values
  rw [Csr.rows, hcount, ← hrows] at hencoded
  rw [codedQueries, hnnz, hpair, List.take_length]
  exact hencoded

omit [IsStrictOrderedRing F] in
/-- A stored query of positive weights that are all kept is answered exactly. -/
theorem losslessQuery_encodeRow {dim : ℕ} {cut : ℤ} {query : SparseRow F}
    (hwithin : TermsWithin dim query) (hdistinct : (query.map Prod.fst).Nodup)
    (hweights : PositiveRow query) (hkept : (query.length : ℤ) ≤ cut) :
    LosslessQuery F U32 dim cut (encodeRow query) where
  within := List.forall_mem_map.mpr hwithin
  distinct := by rwa [map_fst_encodeRow]
  kept := by rwa [encodeRow, List.length_map]
  nonneg := by
    refine List.forall_mem_map.mpr fun entry hentry => ?_
    show 0 ≤ (FloatFormat.ofBits (FloatFormat.toBits entry.2) : F)
    rw [(hweights entry hentry).2]
    exact (hweights entry hentry).1.le

/-- **A lossless seismic index agrees with the brute-force index.**  Given the same `add` calls of
positive weights and a build that returns and loses nothing, a search with a factor of at least 1
and no selector shows for every query of positive weights that are all kept the scores that a
brute-force search shows, with every score that is not positive taken for padding. -/
theorem lossless_agrees (hF : ExactFloat F) (hbits : FloatFormat.ofBits (zeroCode U32) = (0 : F))
    (hzero : FloatFormat.ofBits (FloatFormat.toBits (0 : F)) = (0 : F)) (Q : ItemQueue F ℤ)
    (T : ItemQueue F ℕ) (rng : Rng) (sort : StdSort) (name : String) {dim : ℕ} (hpos : 0 < dim)
    (hdim : dim < 2 ^ 31) (clusterParameter : SeismicClusterParameters F)
    (batches : List (CsrArgs F)) {docs : List (SparseRow F)}
    (hdocs : batches.flatMap CsrArgs.rows = docs) (hne : docs ≠ []) (hfew : docs.length < 2 ^ 31)
    (hdistinct : ∀ row ∈ docs, (row.map Prod.fst).Nodup)
    (hpositive : ∀ row ∈ docs, PositiveRow row) {env : SpillEnv} {entropy : ℕ}
    {x : SeismicIndex F}
    (hrange : (run rng sort (floatFormat F name) (new dim clusterParameter)
      (batches.map .add)).InRange)
    (hbuild : (run rng sort (floatFormat F name) (new dim clusterParameter)
      (batches.map .add)).build env rng sort entropy = (x, .ok ()))
    {vectors : SparseVectors Code} (hvectors : x.vectors = some vectors)
    (hentries : vectors.indices.length < 2 ^ 31)
    (hlossless : (clusterParameter.resolve vectors.numVectors entropy).Lossless vectors dim)
    {fields : Option (SearchFields F)} (hfactor : 1 ≤ (SearchFields.cutAndHeapFactor fields).2)
    {queries : CsrArgs F} {indptr indices : List ℕ} {values : List F}
    (hqueries : queries.checked = .ok (indptr, indices, values)) {k : ℤ} (hk : 0 < k)
    (hterms : ∀ query ∈ queries.rows, (query.map Prod.fst).Nodup)
    (hwithin : TermsBelow dim queries.rows)
    (hweights : ∀ query ∈ queries.rows, PositiveRow query)
    (hkept : ∀ query ∈ queries.rows,
      (query.length : ℤ) ≤ (SearchFields.cutAndHeapFactor fields).1) :
    ∃ best rows : SearchRows F,
      (batches.foldl (fun x a => (x.add a).1) (BrutalIndex.new dim)).search Q queries.n indptr
        indices values k = .ok best ∧
      x.search Q T sort (floatSearch F) queries.n indptr indices values k fields none = .ok rows ∧
      rows.1 = best.1.map (List.map shown) ∧
      BestRows k.toNat (fun query doc => innerProduct docs query doc.toNat) id
        (fun query => (documents docs.length).filter
          fun doc => 0 < innerProduct docs query doc.toNat) queries.rows rows := by
  have hnew : (new dim clusterParameter).Fed (floatFormat F name).elementSize :=
    new_fed hdim clusterParameter
  have hfed := run_fed rng sort hnew (batches.map .add)
  -- the vectors are the documents in codes
  have hheld := (build_lists hfed hrange hbuild).1.symm.trans hvectors
  have hrows : vectors.rows = docs.map encodeRow := by
    rw [← hdocs]
    exact rows_of_adds rng sort hpos hdim clusterParameter batches hheld
  obtain ⟨hdimension, hwidth, hcorpus, hlists⟩ := built_corpus rng sort (floatFormat F name) hdim
    clusterParameter (batches.map .add) hrange hbuild hvectors
    (distinct_of_encoded hrows hdistinct) hentries
    fun _ => ⟨hzero, fun _ => ofBits_values (hfed.vectors vectors hheld).wellFormed hrows hpositive⟩
  -- both searches
  obtain ⟨_, hbrutal, best, rfl, hbest⟩ := BrutalIndex.search_best Q hpos hdocs hne hfew
    (termsBelow_of_encoded hrows hcorpus.terms) hqueries hterms hwithin hk
  have hcoded : ∀ query ∈ codedQueries (floatQueries F) queries.n indptr indices values,
      LosslessQuery F vectors.elementSize dim (SearchFields.cutAndHeapFactor fields).1 query := by
    rw [codedQueries_float hqueries, hwidth]
    exact List.forall_mem_map.mpr fun query hquery => losslessQuery_encodeRow (hwithin query hquery)
      (hterms query hquery) (hweights query hquery) (hkept query hquery)
  obtain ⟨_, hrun, rows, rfl, hanswers⟩ := @searchQueries_lossless F _ _ _ _ rng sort vectors
    dim (clusterParameter.resolve vectors.numVectors entropy) Q T sort
    ⟨floatQueries F, k, (SearchFields.cutAndHeapFactor fields).1,
      (SearchFields.cutAndHeapFactor fields).2, none⟩
    hF hbits hcorpus hlossless hk hfactor hwidth.symm _ hcoded (hwidth ▸ sumsFit_float _ _)
  rw [hwidth, codedQueries_float hqueries] at hanswers
  have hmatch := bestRows_of_codes hrows hpositive hweights hanswers
  refine ⟨_, _, hbrutal, ?_, ?_, rows, rfl, hmatch⟩
  · have hn := (CsrArgs.checked_eq_ok hqueries).1
    have hsel : exactMatchIds none k = none := rfl
    rw [search_eq_lists hvectors Q T sort (floatSearch F) hn indptr indices values fields hsel,
      hdimension, hlists]
    exact hrun
  · exact map_fst_eq_shown hbest hmatch fun _ _ _ => scores_eq_shown_of_positive

/-- **Three documents in two clusters**, one of which is passed over. -/
theorem lossless_agrees_three_documents :
    ∃ best rows : SearchRows ℤ,
      ([threeDocuments].foldl (fun x a => (x.add a).1) (BrutalIndex.new 2)).search
        (sortedQueue TopKItem.score) 1 [0, 2] [0, 1] [1, 1] 1 = .ok best ∧
      (threeDocumentRun.build calmEnv countingRng insertionSort 0).1.search
          (sortedQueue TopKItem.score) (sortedQueue TopKItem.score) insertionSort (floatSearch ℤ) 1
          [0, 2] [0, 1] [1, 1] 1 none none = .ok rows ∧
      rows.1 = best.1.map (List.map shown) ∧
      BestRows 1 (fun query doc => innerProduct threeDocuments.rows query doc.toNat) id
        (fun query => (documents 3).filter
          fun doc => 0 < innerProduct threeDocuments.rows query doc.toNat)
        twoTermQuery.rows rows := by
  obtain ⟨hdim, hvectors, hok, -, hbuilt⟩ := threeDocumentRun_holds
  refine lossless_agrees exactFloat_int (by decide) (by decide) (sortedQueue TopKItem.score)
    (sortedQueue TopKItem.score) countingRng insertionSort "SEIS" Nat.two_pos (by decide)
    twoClusterParameters [threeDocuments] (List.flatMap_singleton ..) (by decide) (by decide)
    (by decide) (by unfold PositiveRow; decide)
    (inRange_threeDocuments hdim (.inr hvectors))
    (Prod.ext rfl hok) hbuilt (by decide) ?_
    (show (1 : ℤ) ≤ (SearchFields.cutAndHeapFactor none).2 by decide)
    (show twoTermQuery.checked = .ok ([0, 2], [0, 1], [1, 1]) from rfl)
    (show (0 : ℤ) < 1 by decide) (by decide) (by decide) (by unfold PositiveRow; decide) (by decide)
  exact
    { lambda := by decide
      alpha := by decide
      clusters := fun _ _ => .inr (.inl ⟨by decide, by decide⟩) }

end SeismicIndex

end Nsparse
