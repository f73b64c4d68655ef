/-
Nsparse/MappedHistory.lean

What is called on a disk index after it was opened.

An index is opened new, or mapped from a file.  `add`, both kinds of `read_csr` and
`build` work on the vectors, the count and the lists, and leave what was mapped alone;
so a new index that receives the same calls keeps in step with it (`Follows`), and a
build that returns gives both the same lists.

What differs is what a search reads: blocks that were mapped are preferred to vectors,
whatever was added and built since.  As long as every call throws while there are
blocks, an index with blocks answers as it did when it was mapped, and one without
answers like the new one (`searches_follow_corpus`).
-/
import Nsparse.SavedIndex
import Nsparse.WidthAgreement

namespace Nsparse

open Wire CsrLayout

variable {F : Type}

/-! ### Reading a corpus into memory -/

/-- `Index::read_csr` up to its `add`: the number of rows, the offsets, the terms and the values. -/
def parseCsr (path : String) (dimension : ℤ) :
    Reader Exception (ℤ × List ℕ × List ℕ × List Code) :=
  (CsrLayout.readHeader path).bind fun header =>
  (Reader.lift (CsrLayout.checkHeader path header)).bind fun _ =>
  (Reader.lift (checkRange path dimension header)).bind fun _ =>
  (checkInterchange path header).bind fun _ =>
  (readVector offsetCodec path (header.numRows.toNat + 1)).bind fun fileIndptr =>
  (Reader.lift (checkIndptr path header.nnz fileIndptr)).bind fun _ =>
  (readVector intCodec path header.nnz.toNat).bind fun fileIndices =>
  (Reader.lift (checkTerms path header.numCols fileIndices)).bind fun _ =>
  (readOrThrow path (header.nnz.toNat * U32)).map fun values =>
    (header.numRows, fileIndptr, fileIndices.map Int.toNat,
      SparseVectors.codesOf U32 header.nnz.toNat values)

/-- A fresh index adds what was read. -/
theorem readCsr_eq_parse (nullData : Bool) (path : String) (dimension : ℤ) :
    readCsr nullData path dimension
      = (parseCsr path dimension).bind fun rows =>
          Reader.lift (addFresh nullData dimension rows.1 rows.2.1 rows.2.2.1 rows.2.2.2) := by
  unfold parseCsr
  unfold readCsr
  simp only [← Reader.bind_assoc, Reader.bind_map]

theorem length_of_readVector {α : Type} {codec : Codec α} {path : String} {n : ℕ} {c c' : Cursor}
    {xs : List α} (h : readVector codec path n c = .ok (xs, c')) : xs.length = n := by
  unfold readVector at h
  split at h
  · cases h
  · obtain ⟨bytes, -, rfl⟩ := Reader.map_eq_ok h
    exact codec.length_decAll n bytes

/-- An offset for every row and one more, and as many values as terms. -/
theorem lengths_of_parseCsr {path : String} {dimension : ℤ} {c c' : Cursor} {n : ℤ}
    {indptr indices : List ℕ} {values : List Code}
    (h : parseCsr path dimension c = .ok ((n, indptr, indices, values), c')) :
    indptr.length = n.toNat + 1 ∧ indices.length = values.length := by
  obtain ⟨header, c₁, -, h⟩ := Reader.bind_eq_ok h
  obtain ⟨_, c₂, -, h⟩ := Reader.bind_eq_ok h
  obtain ⟨_, c₃, -, h⟩ := Reader.bind_eq_ok h
  obtain ⟨_, c₄, -, h⟩ := Reader.bind_eq_ok h
  obtain ⟨fileIndptr, c₅, hindptr, h⟩ := Reader.bind_eq_ok h
  obtain ⟨_, c₆, -, h⟩ := Reader.bind_eq_ok h
  obtain ⟨fileIndices, c₇, hindices, h⟩ := Reader.bind_eq_ok h
  obtain ⟨_, c₈, -, h⟩ := Reader.bind_eq_ok h
  obtain ⟨bytes, -, heq⟩ := Reader.map_eq_ok h
  obtain ⟨rfl, rfl, rfl, rfl⟩ : header.numRows = n ∧ fileIndptr = indptr ∧
      fileIndices.map Int.toNat = indices ∧
      SparseVectors.codesOf U32 header.nnz.toNat bytes = values := by
    simpa only [Prod.mk.injEq] using heq
  refine ⟨length_of_readVector hindptr, ?_⟩
  rw [List.length_map, length_of_readVector hindices, SparseVectors.length_codesOf]

namespace DiskSeismicIndex

/-- `add` behind its checks. -/
def addRows (format : CodeFormat F) (n : ℤ) (indptr indices : List ℕ) (values : List F)
    (x : DiskSeismicIndex F) : DiskSeismicIndex F × Except Exception Unit :=
  let x := if x.vectors = none then { x with numVectors := 0 } else x
  match x.vectorsToAdd format with
  | .error e => (x, .error e)
  | .ok vectors =>
      let x := { x with vectors := some vectors }
      if x.vectorsMapped then
        (x, .error (.logicError
          "Buf does not own a vector: borrowed and mapped buffers cannot grow"))
      else
        match vectors.addVectors indptr indices (values.map format.encode) with
        | .error e => (x, .error e)
        | .ok vectors =>
            ({ x with
                vectors := some vectors
                numVectors := x.numVectors + n.toNat }, .ok ())

theorem add_eq_addRows (format : CodeFormat F) (args : CsrArgs F) (x : DiskSeismicIndex F) :
    x.add format args
      = match args.checked with
        | .error e => (x, .error e)
        | .ok (indptr, indices, values) => x.addRows format args.n indptr indices values := rfl

/-- The count that `read_csr` sets once its `add` has returned. -/
def countAgain :
    DiskSeismicIndex F × Except Exception Unit → DiskSeismicIndex F × Except Exception Unit
  | (x, .error e) => (x, .error e)
  | (x, .ok ()) =>
      ({ x with numVectors := x.vectors.elim x.numVectors SparseVectors.numVectors }, .ok ())

/-- `read_csr` in memory, on the bytes of the file: `add` what it holds and count again.  `nullData`
says whether `data()` of an empty vector is a null pointer. -/
def readCsr [FloatFormat F] (format : CodeFormat F) (nullData : Bool) (path : String)
    (file : Bytes) (x : DiskSeismicIndex F) : DiskSeismicIndex F × Except Exception Unit :=
  match parseCsr path x.dimension ⟨file, 0⟩ with
  | .error e => (x, .error e)
  | .ok ((n, indptr, indices, values), _) =>
      if n ≤ 0 then (x, .error (.invalidArgument notPositiveMsg))
      else if nullData ∧ (indptr = [] ∨ indices = [] ∨ values = []) then
        (x, .error (.invalidArgument nullMsg))
      else
        countAgain (x.addRows format n indptr indices (values.map FloatFormat.ofBits))

/-! ### Calls -/

/-- What can be called on an index that was opened. -/
inductive CorpusCall (F : Type)
  | add (args : CsrArgs F)
  | readCsr (nullData : Bool) (path : String) (file : Bytes)
  | readMcsr (path : String) (file : Bytes)
  | build (env : SpillEnv) (entropy : ℕ)

/-- An index that is new, or was mapped from a file. -/
def opened (dim : ℕ) (parameter : SeismicClusterParameters F) :
    Option MappedPayload → DiskSeismicIndex F
  | none => new dim parameter
  | some p => ofPayload dim parameter p

section Calls

variable [Mul F] [FloatFormat F] [Zero F] [Add F] [Sub F] [LT F] [DecidableLT F]

/-- A call, and what it threw. -/
def call (rng : Rng) (sort : StdSort) (format : CodeFormat F) (x : DiskSeismicIndex F) :
    CorpusCall F → DiskSeismicIndex F × Except Exception Unit
  | .add args => x.add format args
  | .readCsr nullData path file => x.readCsr format nullData path file
  | .readMcsr path file => x.readMcsr format path file
  | .build env entropy => x.build env rng sort entropy

/-- The index after a history of calls. -/
def after (rng : Rng) (sort : StdSort) (format : CodeFormat F) (x : DiskSeismicIndex F)
    (calls : List (CorpusCall F)) : DiskSeismicIndex F :=
  calls.foldl (fun x c => (x.call rng sort format c).1) x

/-- How the calls of a history end. -/
def outcomes (rng : Rng) (sort : StdSort) (format : CodeFormat F) :
    DiskSeismicIndex F → List (CorpusCall F) → List (Except Exception Unit)
  | _, [] => []
  | x, c :: cs =>
      (x.call rng sort format c).2 :: outcomes rng sort format (x.call rng sort format c).1 cs

/-- The call is a build that returns. -/
def Builds (rng : Rng) (sort : StdSort) (format : CodeFormat F) (x : DiskSeismicIndex F)
    (c : CorpusCall F) : Prop :=
  (∃ env entropy, c = .build env entropy) ∧ (x.call rng sort format c).2 = .ok ()

/-- Some call of the history is. -/
def WasBuilt (rng : Rng) (sort : StdSort) (format : CodeFormat F) :
    DiskSeismicIndex F → List (CorpusCall F) → Prop
  | _, [] => False
  | x, c :: cs =>
      x.Builds rng sort format c ∨ WasBuilt rng sort format (x.call rng sort format c).1 cs

/-- No call returns while there are mapped blocks, which are those of an index with a dimension. -/
def CallsWithoutBlocks (rng : Rng) (sort : StdSort) (format : CodeFormat F) :
    DiskSeismicIndex F → List (CorpusCall F) → Prop
  | _, [] => True
  | x, c :: cs =>
      (0 < x.fwd.numBlocks → x.dimension ≠ 0 ∧ (x.call rng sort format c).2 ≠ .ok ()) ∧
        CallsWithoutBlocks rng sort format (x.call rng sort format c).1 cs

end Calls

/-! ### Two indexes in step -/

/-- The two have the same corpus to build from. -/
structure Follows (x y : DiskSeismicIndex F) : Prop where
  dimension : x.dimension = y.dimension
  vectors : x.vectors = y.vectors
  vectorsMapped : x.vectorsMapped = y.vectorsMapped
  batchSpill : x.batchSpill = y.batchSpill
  parameter : x.clusterParameter = y.clusterParameter
  count : x.vectors ≠ none → x.numVectors = y.numVectors

/-- What a call on the corpus leaves alone. -/
structure Keeps (x x' : DiskSeismicIndex F) : Prop where
  fwd : x'.fwd = x.fwd
  docLocators : x'.docLocators = x.docLocators
  remainder : x'.remainder = x.remainder
  dimension : x'.dimension = x.dimension
  parameter : x'.clusterParameter = x.clusterParameter

variable {x y : DiskSeismicIndex F} {format : CodeFormat F}

theorem addRows_follows (h : x.Follows y) (n : ℤ) (indptr indices : List ℕ) (values : List F) :
    (x.addRows format n indptr indices values).2 = (y.addRows format n indptr indices values).2 ∧
      (x.addRows format n indptr indices values).1.Follows
        (y.addRows format n indptr indices values).1 := by
  obtain ⟨⟨dim, vectors, lists, borrows, spill, parameter⟩, mapped, fwd, locators, remainder,
    count⟩ := x
  obtain ⟨⟨dim', vectors', lists', borrows', spill', parameter'⟩, mapped', fwd', locators',
    remainder', count'⟩ := y
  obtain ⟨hdim, hvectors, hmapped, hspill, hparameter, hcount⟩ := h
  dsimp only at hdim hvectors hmapped hspill hparameter hcount
  subst hdim hvectors hmapped hspill hparameter
  -- both count from 0, or from the count they share
  have hstart : ∀ v : SparseVectors Code, vectors = some v → count = count' := by
    intro v hv
    exact hcount (hv ▸ Option.some_ne_none v)
  unfold addRows SeismicIndex.vectorsToAdd
  rcases vectors with - | v
  · rw [if_pos rfl, if_pos rfl]
    dsimp only
    split
    · -- no dimension
      exact ⟨rfl, ⟨rfl, rfl, rfl, rfl, rfl, fun _ => rfl⟩⟩
    · split
      · -- a mapped file cannot grow
        exact ⟨rfl, ⟨rfl, rfl, rfl, rfl, rfl, fun _ => rfl⟩⟩
      · split
        · exact ⟨rfl, ⟨rfl, rfl, rfl, rfl, rfl, fun _ => rfl⟩⟩
        · exact ⟨rfl, ⟨rfl, rfl, rfl, rfl, rfl, fun _ => rfl⟩⟩
  · obtain rfl := hstart v rfl
    rw [if_neg (Option.some_ne_none v), if_neg (Option.some_ne_none v)]
    dsimp only
    split
    · exact ⟨rfl, ⟨rfl, rfl, rfl, rfl, rfl, fun _ => rfl⟩⟩
    · split
      · exact ⟨rfl, ⟨rfl, rfl, rfl, rfl, rfl, fun _ => rfl⟩⟩
      · exact ⟨rfl, ⟨rfl, rfl, rfl, rfl, rfl, fun _ => rfl⟩⟩

/-- Counting again keeps two indexes in step. -/
theorem countAgain_follows {r r' : DiskSeismicIndex F × Except Exception Unit}
    (h : r.2 = r'.2 ∧ r.1.Follows r'.1) :
    (countAgain r).2 = (countAgain r').2 ∧ (countAgain r).1.Follows (countAgain r').1 := by
  obtain ⟨x, result⟩ := r
  obtain ⟨y, result'⟩ := r'
  obtain ⟨rfl, h⟩ := h
  rcases result with e | ⟨⟩
  · exact ⟨rfl, h⟩
  · refine ⟨rfl, ?_⟩
    refine {
      dimension := h.dimension
      vectors := h.vectors
      vectorsMapped := h.vectorsMapped
      batchSpill := h.batchSpill
      parameter := h.parameter
      count := ?_ }
    intro hne
    show x.vectors.elim x.numVectors _ = y.vectors.elim y.numVectors _
    rw [h.vectors, h.count hne]

/-- What is opened is in step with a new index. -/
theorem opened_follows (dim : ℕ) (parameter : SeismicClusterParameters F)
    (payload : Option MappedPayload) :
    (opened dim parameter payload).Follows (new dim parameter) := by
  rcases payload with - | p
  · exact ⟨rfl, rfl, rfl, rfl, rfl, fun _ => rfl⟩
  · exact ⟨rfl, rfl, rfl, rfl, rfl, fun hne => absurd rfl hne⟩

/-- An `add` that returns extends the vectors. -/
theorem vectors_of_add {args : CsrArgs F} (h : (x.add format args).2 = .ok ()) :
    ∃ indptr indices values vectors vectors', args.checked = .ok (indptr, indices, values) ∧
      x.vectorsToAdd format = .ok vectors ∧
      vectors.addVectors indptr indices (values.map format.encode) = .ok vectors' ∧
      (x.add format args).1.vectors = some vectors' := by
  rw [add_eq_addRows] at h ⊢
  rcases hargs : args.checked with e | ⟨indptr, indices, values⟩
  · rw [hargs] at h
    cases h
  rw [hargs] at h
  dsimp only at h ⊢
  have hstart : (if x.vectors = none then { x with numVectors := 0 } else x).vectorsToAdd format
      = x.vectorsToAdd format := by
    split
    · rfl
    · rfl
  unfold addRows at h ⊢
  dsimp only at h ⊢
  rw [hstart] at h ⊢
  generalize (if x.vectors = none then { x with numVectors := 0 } else x) = z at h ⊢
  rcases hvectors : x.vectorsToAdd format with e | vectors
  · rw [hvectors] at h
    cases h
  rw [hvectors] at h
  dsimp only at h ⊢
  rcases hmapped : z.vectorsMapped with - | -
  · rw [hmapped, if_neg Bool.false_ne_true] at h
    rw [if_neg Bool.false_ne_true]
    rcases hadd : vectors.addVectors indptr indices (values.map format.encode) with e | vectors'
    · rw [hadd] at h
      cases h
    · exact ⟨indptr, indices, values, vectors, vectors', rfl, rfl, hadd, rfl⟩
  · rw [hmapped, if_pos rfl] at h
    cases h

theorem Keeps.refl (x : DiskSeismicIndex F) : x.Keeps x := ⟨rfl, rfl, rfl, rfl, rfl⟩

theorem Keeps.trans {z : DiskSeismicIndex F} (h : x.Keeps y) (h' : y.Keeps z) : x.Keeps z :=
  ⟨h'.fwd.trans h.fwd, h'.docLocators.trans h.docLocators, h'.remainder.trans h.remainder,
    h'.dimension.trans h.dimension, h'.parameter.trans h.parameter⟩

theorem countAgain_keeps (r : DiskSeismicIndex F × Except Exception Unit) :
    r.1.Keeps (countAgain r).1 ∧
      (countAgain r).1.clusteredInvertedLists = r.1.clusteredInvertedLists := by
  obtain ⟨x, e | ⟨⟩⟩ := r
  · exact ⟨.refl x, rfl⟩
  · exact ⟨⟨rfl, rfl, rfl, rfl, rfl⟩, rfl⟩

theorem vectors_countAgain (r : DiskSeismicIndex F × Except Exception Unit) :
    (countAgain r).1.vectors = r.1.vectors := by
  obtain ⟨x, e | ⟨⟩⟩ := r
  · rfl
  · rfl

theorem result_countAgain (r : DiskSeismicIndex F × Except Exception Unit) :
    (countAgain r).2 = r.2 := by
  obtain ⟨x, e | ⟨⟩⟩ := r
  · rfl
  · rfl

/-- What is added changes the vectors and their count. -/
theorem addRows_keeps (x : DiskSeismicIndex F) (n : ℤ) (indptr indices : List ℕ)
    (values : List F) :
    x.Keeps (x.addRows format n indptr indices values).1 ∧
      (x.addRows format n indptr indices values).1.clusteredInvertedLists
        = x.clusteredInvertedLists := by
  have hstart : x.Keeps (if x.vectors = none then { x with numVectors := 0 } else x) ∧
      (if x.vectors = none then { x with numVectors := 0 } else x).clusteredInvertedLists
        = x.clusteredInvertedLists := by
    split
    · exact ⟨⟨rfl, rfl, rfl, rfl, rfl⟩, rfl⟩
    · exact ⟨.refl x, rfl⟩
  unfold addRows
  dsimp only
  generalize (if x.vectors = none then { x with numVectors := 0 } else x) = z at hstart ⊢
  split
  · exact hstart
  · split
    · exact ⟨hstart.1.trans ⟨rfl, rfl, rfl, rfl, rfl⟩, hstart.2⟩
    · split
      · exact ⟨hstart.1.trans ⟨rfl, rfl, rfl, rfl, rfl⟩, hstart.2⟩
      · exact ⟨hstart.1.trans ⟨rfl, rfl, rfl, rfl, rfl⟩, hstart.2⟩

section Calls

variable [Mul F] [FloatFormat F] [Zero F] [Add F] [Sub F] [LT F] [DecidableLT F] {rng : Rng}
  {sort : StdSort}

/-- A build throws, or replaces the lists by those of the vectors. -/
theorem build_cases (x : DiskSeismicIndex F) (rng : Rng) (sort : StdSort) (env : SpillEnv)
    (entropy : ℕ) :
    (∃ spill e, x.build env rng sort entropy
        = ({ x with batchSpill := spill }, .error e)) ∨
      ∃ spill lists region, buildClusteredLists env rng sort x.vectors x.dimension
          x.clusterParameter entropy x.batchSpill = (spill, .ok (lists, region)) ∧
        x.build env rng sort entropy
          = ({ x with
                clusteredInvertedLists := lists
                borrows := region
                batchSpill := spill }, .ok ()) := by
  unfold build SeismicIndex.build
  rcases buildClusteredLists env rng sort x.vectors x.dimension x.clusterParameter entropy
    x.batchSpill with ⟨spill, e | ⟨lists, region⟩⟩
  · exact .inl ⟨spill, e, rfl⟩
  · exact .inr ⟨spill, lists, region, rfl, rfl⟩

/-- Two builds from one corpus end alike, and a build that returns leaves the same lists. -/
theorem build_follows (h : x.Follows y) (env : SpillEnv) (entropy : ℕ) :
    (x.build env rng sort entropy).2 = (y.build env rng sort entropy).2 ∧
      (x.build env rng sort entropy).1.Follows (y.build env rng sort entropy).1 := by
  unfold build SeismicIndex.build
  rw [← h.vectors, ← h.dimension, ← h.parameter, ← h.batchSpill]
  rcases buildClusteredLists env rng sort x.vectors x.dimension x.clusterParameter entropy
    x.batchSpill with ⟨spill, e | ⟨lists, region⟩⟩
  · exact ⟨rfl, ⟨rfl, rfl, h.vectorsMapped, rfl, rfl, h.count⟩⟩
  · exact ⟨rfl, ⟨rfl, rfl, h.vectorsMapped, rfl, rfl, h.count⟩⟩

/-- **A call ends alike** on two indexes in step, and leaves them in step. -/
theorem call_follows (rng : Rng) (sort : StdSort) (format : CodeFormat F) (h : x.Follows y)
    (c : CorpusCall F) :
    (x.call rng sort format c).2 = (y.call rng sort format c).2 ∧
      (x.call rng sort format c).1.Follows (y.call rng sort format c).1 := by
  cases c with
  | add args =>
      show (x.add format args).2 = (y.add format args).2 ∧
        (x.add format args).1.Follows (y.add format args).1
      rw [add_eq_addRows, add_eq_addRows]
      rcases args.checked with e | ⟨indptr, indices, values⟩
      · exact ⟨rfl, h⟩
      · exact addRows_follows h args.n indptr indices values
  | readCsr nullData path file =>
      show (x.readCsr format nullData path file).2 = (y.readCsr format nullData path file).2 ∧
        (x.readCsr format nullData path file).1.Follows (y.readCsr format nullData path file).1
      unfold readCsr
      rw [← h.dimension]
      split
      · exact ⟨rfl, h⟩
      · split
        · exact ⟨rfl, h⟩
        · split
          · exact ⟨rfl, h⟩
          · exact countAgain_follows (addRows_follows h _ _ _ _)
  | readMcsr path file =>
      show (x.readMcsr format path file).2 = (y.readMcsr format path file).2 ∧
        (x.readMcsr format path file).1.Follows (y.readMcsr format path file).1
      unfold readMcsr
      rw [← h.dimension, ← h.vectors]
      split
      · exact ⟨rfl, h⟩
      · split
        · exact ⟨rfl, h⟩
        · exact ⟨rfl, ⟨rfl, rfl, rfl, h.batchSpill, h.parameter, fun _ => rfl⟩⟩
  | build env entropy => exact build_follows h env entropy

/-- **What a call comes to**: it is turned down, it adds rows of its arguments or of a file, it maps a
file, or it builds. -/
inductive CallEnds (rng : Rng) (sort : StdSort) (format : CodeFormat F) (x : DiskSeismicIndex F) :
    CorpusCall F → DiskSeismicIndex F × Except Exception Unit → Prop
  | refused {c : CorpusCall F} (e : Exception) : CallEnds rng sort format x c (x, .error e)
  | adds {c : CorpusCall F} (n : ℤ) (indptr indices : List ℕ) (values : List F) (positive : 0 < n)
      (lengths : indptr.length = n.toNat + 1) (pairs : indices.length = values.length) :
      CallEnds rng sort format x c (x.addRows format n indptr indices values)
  | reads {c : CorpusCall F} (n : ℤ) (indptr indices : List ℕ) (values : List F) (positive : 0 < n)
      (lengths : indptr.length = n.toNat + 1) (pairs : indices.length = values.length) :
      CallEnds rng sort format x c (countAgain (x.addRows format n indptr indices values))
  | maps (path : String) (file : Bytes) (v : SparseVectors Code) (cursor : Cursor)
      (unheld : x.vectors = none)
      (read : Nsparse.readMcsr path x.dimension format.elementSize ⟨file, 0⟩ = .ok (v, cursor)) :
      CallEnds rng sort format x (.readMcsr path file)
        ({ x with vectors := some v, vectorsMapped := true, numVectors := v.numVectors }, .ok ())
  | builds (env : SpillEnv) (entropy : ℕ) :
      CallEnds rng sort format x (.build env entropy) (x.build env rng sort entropy)

theorem call_ends (rng : Rng) (sort : StdSort) (format : CodeFormat F) (x : DiskSeismicIndex F)
    (c : CorpusCall F) : CallEnds rng sort format x c (x.call rng sort format c) := by
  cases c with
  | add args =>
      show CallEnds rng sort format x _ (x.add format args)
      rw [add_eq_addRows]
      rcases hargs : args.checked with e | ⟨indptr, indices, values⟩
      · exact .refused e
      · obtain ⟨hn, hlen, -, hpair, -, -⟩ := CsrArgs.checked_eq_ok hargs
        exact .adds args.n indptr indices values hn (by omega) hpair
  | readCsr nullData path file =>
      show CallEnds rng sort format x _ (x.readCsr format nullData path file)
      unfold readCsr
      split
      · exact .refused ..
      rename_i n indptr indices values _ hparse
      obtain ⟨hlen, hpair⟩ := lengths_of_parseCsr hparse
      split
      · -- no rows
        exact .refused ..
      · rename_i hn
        split
        · -- a null pointer
          exact .refused ..
        · exact .reads n indptr indices _ (not_le.mp hn) hlen (by rw [List.length_map, hpair])
  | readMcsr path file =>
      show CallEnds rng sort format x _ (x.readMcsr format path file)
      unfold readMcsr
      split
      · exact .refused ..
      · rename_i hnone
        split
        · exact .refused ..
        · rename_i v cursor hread
          exact .maps path file v cursor hnone hread
  | build env entropy => exact .builds env entropy

/-- Nothing that is called touches what was mapped. -/
theorem call_keeps (x : DiskSeismicIndex F) (c : CorpusCall F) :
    x.Keeps (x.call rng sort format c).1 := by
  have hends := call_ends rng sort format x c
  generalize x.call rng sort format c = r at hends
  cases hends with
  | refused e => exact .refl x
  | adds n indptr indices values => exact (addRows_keeps x n indptr indices values).1
  | reads n indptr indices values =>
      exact (addRows_keeps x n indptr indices values).1.trans (countAgain_keeps _).1
  | maps path file v cursor => exact ⟨rfl, rfl, rfl, rfl, rfl⟩
  | builds env entropy =>
      obtain ⟨_, e, heq⟩ | ⟨_, lists, _, -, heq⟩ := x.build_cases rng sort env entropy
      · rw [heq]
        exact ⟨rfl, rfl, rfl, rfl, rfl⟩
      · rw [heq]
        exact ⟨rfl, rfl, rfl, rfl, rfl⟩

/-- Only a build that returns replaces the lists. -/
theorem lists_of_not_builds {c : CorpusCall F} (h : ¬x.Builds rng sort format c) :
    (x.call rng sort format c).1.clusteredInvertedLists = x.clusteredInvertedLists := by
  have hends := call_ends rng sort format x c
  generalize x.call rng sort format c = r at hends
  cases hends with
  | refused e => rfl
  | adds n indptr indices values => exact (addRows_keeps x n indptr indices values).2
  | reads n indptr indices values =>
      exact (countAgain_keeps _).2.trans (addRows_keeps x n indptr indices values).2
  | maps path file v cursor => rfl
  | builds env entropy =>
      obtain ⟨_, e, heq⟩ | ⟨_, lists, _, -, heq⟩ := x.build_cases rng sort env entropy
      · rw [heq]
      · exact absurd ⟨⟨env, entropy, rfl⟩, congrArg Prod.snd heq⟩ h

/-- A build that returns leaves the lists of the vectors it found. -/
theorem lists_of_build {env : SpillEnv} {entropy : ℕ}
    (h : (x.build env rng sort entropy).2 = .ok ()) :
    ∃ region, (buildClusteredLists env rng sort x.vectors x.dimension x.clusterParameter entropy
      x.batchSpill).2 = .ok ((x.build env rng sort entropy).1.clusteredInvertedLists, region) := by
  obtain ⟨_, e, heq⟩ | ⟨_, lists, region, hlists, heq⟩ := x.build_cases rng sort env entropy
  · rw [heq] at h
    cases h
  · exact ⟨region, by rw [heq, hlists]⟩

/-! ### Histories -/

@[simp] theorem after_nil : x.after rng sort format [] = x := rfl

@[simp] theorem after_cons (c : CorpusCall F) (cs : List (CorpusCall F)) :
    x.after rng sort format (c :: cs) = (x.call rng sort format c).1.after rng sort format cs :=
  rfl

theorem after_append (calls rest : List (CorpusCall F)) :
    x.after rng sort format (calls ++ rest)
      = (x.after rng sort format calls).after rng sort format rest :=
  List.foldl_append

theorem after_keeps (x : DiskSeismicIndex F) (calls : List (CorpusCall F)) :
    x.Keeps (x.after rng sort format calls) := by
  induction calls generalizing x with
  | nil => exact .refl x
  | cons c cs ih => exact (call_keeps x c).trans (ih _)

theorem lists_of_not_built {calls : List (CorpusCall F)}
    (h : ¬x.WasBuilt rng sort format calls) :
    (x.after rng sort format calls).clusteredInvertedLists = x.clusteredInvertedLists := by
  induction calls generalizing x with
  | nil => rfl
  | cons c cs ih =>
      have hbuilds : ¬x.Builds rng sort format c := fun hb => h (.inl hb)
      have hrest : ¬(x.call rng sort format c).1.WasBuilt rng sort format cs :=
        fun hb => h (.inr hb)
      exact (ih hrest).trans (lists_of_not_builds hbuilds)

/-- The same lists, or two without a cluster. -/
def SameClusters (lists lists' : List InvertedListClusters) : Prop :=
  lists = lists' ∨ (∀ l ∈ lists, l.nClusters = 0) ∧ ∀ l ∈ lists', l.nClusters = 0

/-- Two indexes in step that have, once they were built, the same clusters. -/
structure InStep (built : Prop) (x y : DiskSeismicIndex F) : Prop extends x.Follows y where
  lists : built → SameClusters x.clusteredInvertedLists y.clusteredInvertedLists

/-- **A call keeps two indexes in step.** -/
theorem call_inStep {built : Prop} (h : InStep built x y) (c : CorpusCall F) :
    InStep (built ∨ x.Builds rng sort format c) (x.call rng sort format c).1
      (y.call rng sort format c).1 := by
  obtain ⟨hend, hfollows⟩ := call_follows rng sort format h.toFollows c
  refine ⟨hfollows, fun hbuilt => ?_⟩
  by_cases hbuilds : x.Builds rng sort format c
  · obtain ⟨⟨env, entropy, rfl⟩, hok⟩ := hbuilds
    obtain ⟨region, hx⟩ := lists_of_build hok
    obtain ⟨region', hy⟩ := lists_of_build (hend.symm.trans hok)
    rw [← h.vectors, ← h.dimension, ← h.parameter, ← h.batchSpill, hx] at hy
    exact .inl (congrArg Prod.fst (Except.ok.inj hy))
  · -- what returned on neither is no build, and the lists stay
    have hbuilds' : ¬y.Builds rng sort format c :=
      fun hb => hbuilds ⟨hb.1, hend.trans hb.2⟩
    rw [lists_of_not_builds hbuilds, lists_of_not_builds hbuilds']
    exact h.lists (hbuilt.resolve_right hbuilds)

/-- **A history keeps two indexes in step**, and ends alike call by call. -/
theorem after_inStep {built : Prop} (h : InStep built x y) (calls : List (CorpusCall F)) :
    x.outcomes rng sort format calls = y.outcomes rng sort format calls ∧
      InStep (built ∨ x.WasBuilt rng sort format calls) (x.after rng sort format calls)
        (y.after rng sort format calls) := by
  induction calls generalizing x y built with
  | nil => exact ⟨rfl, h.toFollows, fun hb => h.lists (hb.resolve_right id)⟩
  | cons c cs ih =>
      obtain ⟨hends, hstep⟩ := ih (call_inStep h c)
      have hend := (call_follows rng sort format h.toFollows c).1
      refine ⟨?_, ?_⟩
      · show _ :: _ = _ :: _
        rw [hend, hends]
      · rw [or_assoc] at hstep
        exact hstep

/-! ### Calls over mapped blocks -/

omit [Mul F] [FloatFormat F] [Zero F] [Add F] [Sub F] [LT F] [DecidableLT F] in
/-- Rows are added to an index that has no vectors yet. -/
theorem addRows_returns (hvectors : x.vectors = none) (hdim : x.dimension ≠ 0)
    (hmapped : x.vectorsMapped = false) (n : ℤ) (indptr : List ℕ) {indices : List ℕ}
    {values : List F} (hpair : indices.length = values.length) :
    (x.addRows format n indptr indices values).2 = .ok () := by
  have hnew : SparseVectors.new (V := Code) format.elementSize x.dimension
      = .ok ⟨format.elementSize, x.dimension, [], [], []⟩ := if_neg hdim
  obtain ⟨vectors, hadd⟩ : ∃ vectors, (⟨format.elementSize, x.dimension, [], [], []⟩
      : SparseVectors Code).addVectors indptr indices (values.map format.encode) = .ok vectors := by
    unfold SparseVectors.addVectors
    rw [if_neg (not_not.mpr (by rw [List.length_map, hpair]))]
    split
    · exact ⟨_, rfl⟩
    · exact ⟨_, rfl⟩
  unfold addRows SeismicIndex.vectorsToAdd
  rw [if_pos hvectors]
  simp only [hvectors, hnew, hmapped, hadd, Bool.false_eq_true, if_false]

omit [Mul F] [FloatFormat F] [Zero F] [Add F] [Sub F] [LT F] [DecidableLT F] in
/-- Without a dimension there are no vectors to add them to, and the count starts anew. -/
theorem addRows_of_no_dimension (format : CodeFormat F) (hvectors : x.vectors = none)
    (hdim : x.dimension = 0) (n : ℤ)
    (indptr indices : List ℕ) (values : List F) :
    ∃ e, x.addRows format n indptr indices values = ({ x with numVectors := 0 }, .error e) := by
  have hnew : SparseVectors.new (V := Code) format.elementSize x.dimension
      = .error (.invalidArgument notPositiveMsg) := if_pos hdim
  refine ⟨.invalidArgument notPositiveMsg, ?_⟩
  unfold addRows SeismicIndex.vectorsToAdd
  rw [if_pos hvectors]
  simp only [hvectors, hnew]

/-- `x'` is `x` but for a scratch file, and the count of an index without a dimension. -/
def LeftAlone (x x' : DiskSeismicIndex F) : Prop :=
  ∃ spill count, x' = { x with batchSpill := spill, numVectors := count } ∧
    (x.dimension ≠ 0 → count = x.numVectors)

omit [Mul F] [FloatFormat F] [Zero F] [Add F] [Sub F] [LT F] [DecidableLT F] in
theorem leftAlone_self (x : DiskSeismicIndex F) : x.LeftAlone x :=
  ⟨x.batchSpill, x.numVectors, rfl, fun _ => rfl⟩

omit [Mul F] [FloatFormat F] [Zero F] [Add F] [Sub F] [LT F] [DecidableLT F] in
/-- Rows that could not be added. -/
theorem leftAlone_of_addRows (hvectors : x.vectors = none) (hmapped : x.vectorsMapped = false)
    {n : ℤ} {indptr indices : List ℕ} {values : List F} (hpair : indices.length = values.length)
    (hthrew : (x.addRows format n indptr indices values).2 ≠ .ok ()) :
    ∃ x' e, x.addRows format n indptr indices values = (x', .error e) ∧ x.LeftAlone x' := by
  by_cases hdim : x.dimension = 0
  · obtain ⟨e, heq⟩ := addRows_of_no_dimension format hvectors hdim n indptr indices values
    exact ⟨_, e, heq, x.batchSpill, 0, rfl, fun hne => absurd hdim hne⟩
  · exact absurd (addRows_returns hvectors hdim hmapped n indptr hpair) hthrew

/-- **A call that throws** on a mapped index leaves it alone. -/
theorem call_of_threw (hvectors : x.vectors = none) (hmapped : x.vectorsMapped = false)
    {c : CorpusCall F} (hthrew : (x.call rng sort format c).2 ≠ .ok ()) :
    x.LeftAlone (x.call rng sort format c).1 := by
  have hends := call_ends rng sort format x c
  generalize x.call rng sort format c = r at hends hthrew
  cases hends with
  | refused e => exact leftAlone_self x
  | adds n indptr indices values hn hlen hpair =>
      obtain ⟨x', e, heq, halone⟩ := leftAlone_of_addRows hvectors hmapped hpair hthrew
      rw [heq]
      exact halone
  | reads n indptr indices values hn hlen hpair =>
      rw [result_countAgain] at hthrew
      obtain ⟨x', e, heq, halone⟩ := leftAlone_of_addRows hvectors hmapped hpair hthrew
      rw [heq]
      exact halone
  | maps path file v cursor => exact absurd rfl hthrew
  | builds env entropy =>
      obtain ⟨spill, e, heq⟩ | ⟨_, _, _, -, heq⟩ := x.build_cases rng sort env entropy
      · exact ⟨spill, x.numVectors, congrArg Prod.fst heq, fun _ => rfl⟩
      · exact absurd (congrArg Prod.snd heq) hthrew

/-- **Calls that throw** leave a mapped index alone. -/
theorem after_of_threw (hvectors : x.vectors = none) (hmapped : x.vectorsMapped = false)
    {calls : List (CorpusCall F)}
    (h : ∀ result ∈ x.outcomes rng sort format calls, result ≠ .ok ()) :
    x.LeftAlone (x.after rng sort format calls) := by
  induction calls generalizing x with
  | nil => exact leftAlone_self x
  | cons c cs ih =>
      obtain ⟨hthrew, hrest⟩ := List.forall_mem_cons.mp h
      obtain ⟨spill, count, hcall, hcount⟩ := call_of_threw hvectors hmapped hthrew
      rw [after_cons]
      rw [hcall] at hrest ⊢
      obtain ⟨spill', count', hafter, hcount'⟩ :=
        ih (x := { x with batchSpill := spill, numVectors := count }) hvectors hmapped hrest
      exact ⟨spill', count', hafter, fun hdim => (hcount' hdim).trans (hcount hdim)⟩

/-- Over mapped blocks every call throws. -/
theorem threw_of_blocks {calls : List (CorpusCall F)}
    (h : x.CallsWithoutBlocks rng sort format calls) (hblocks : 0 < x.fwd.numBlocks) :
    (∀ result ∈ x.outcomes rng sort format calls, result ≠ .ok ()) ∧
      (calls ≠ [] → x.dimension ≠ 0) := by
  induction calls generalizing x with
  | nil => exact ⟨fun _ hresult => absurd hresult List.not_mem_nil, fun hne => absurd rfl hne⟩
  | cons c cs ih =>
      obtain ⟨hhead, htail⟩ := h
      obtain ⟨hdim, hthrew⟩ := hhead hblocks
      have hfwd : (x.call rng sort format c).1.fwd = x.fwd := (call_keeps x c).fwd
      exact ⟨List.forall_mem_cons.mpr ⟨hthrew, (ih htail (hfwd.symm ▸ hblocks)).1⟩, fun _ => hdim⟩

/-- Without blocks anything may be called. -/
theorem callsWithoutBlocks_of_no_blocks (h : x.fwd.numBlocks = 0) (calls : List (CorpusCall F)) :
    x.CallsWithoutBlocks rng sort format calls := by
  induction calls generalizing x with
  | nil => trivial
  | cons c cs ih =>
      have hfwd : (x.call rng sort format c).1.fwd = x.fwd := (call_keeps x c).fwd
      exact ⟨fun hblocks => absurd h hblocks.ne', ih (hfwd.symm ▸ h)⟩

end Calls

/-! ### Searches -/

section Search

variable [Zero F] [One F] [Neg F] [Add F] [Sub F] [Mul F] [LinearOrder F] [FloatFormat F]

omit [Zero F] [One F] [Neg F] [Add F] [Sub F] [Mul F] [LinearOrder F] [FloatFormat F] in
/-- With no mapped blocks, what is scored is the vectors. -/
theorem forwardSource_of_no_blocks (h : x.fwd.numBlocks = 0) :
    x.forwardSource = x.vectors.map .rows := by
  unfold forwardSource
  rw [if_neg (Nat.not_lt.mpr h.le)]

omit [One F] [Neg F] in
theorem directoryDocs_of_spill {Q : ItemQueue F ℤ} (x : DiskSeismicIndex F)
    (spill : ClusteredListsSpill) (elementSize : ℕ) (dense : List Code) (ids : List ℤ)
    (heap : TopKHolder Q) :
    directoryDocs { x with batchSpill := spill } elementSize dense ids heap
      = x.directoryDocs elementSize dense ids heap := by
  induction ids generalizing heap with
  | nil => rfl
  | cons doc ids ih =>
      unfold directoryDocs
      simp only [ih]
      rfl

theorem exactMatchDirectory_of_spill {Q : ItemQueue F ℤ} (x : DiskSeismicIndex F)
    (spill : ClusteredListsSpill) (format : QueryFormat F) (k : ℤ) (ids : List ℤ)
    (queries : List (SparseRow Code)) (dense : List Code) :
    exactMatchDirectory Q { x with batchSpill := spill } format k ids queries dense
      = x.exactMatchDirectory Q format k ids queries dense := by
  induction queries generalizing dense with
  | nil => rfl
  | cons query queries ih =>
      unfold exactMatchDirectory
      simp only [directoryDocs_of_spill, ih]

/-- A scratch file is not searched. -/
theorem search_of_spill (x : DiskSeismicIndex F) (spill : ClusteredListsSpill) (Q : ItemQueue F ℤ)
    (T : ItemQueue F ℕ) (sort : StdSort) (nth : StdNthElement)
    (queryFormat : Option (SearchFields F) → Except Exception (QueryFormat F)) (n : ℤ)
    (indptr indices : List ℕ) (values : List F) (k : ℤ) (params : Option (SearchFields F))
    (sel : Option IDSelector) :
    search Q T sort nth queryFormat { x with batchSpill := spill } n indptr indices values k params
        sel
      = x.search Q T sort nth queryFormat n indptr indices values k params sel := by
  unfold search searchDirectory
  simp only [exactMatchDirectory_of_spill]
  rfl

/-- With nothing to score, padding. -/
theorem search_of_no_source (h : x.forwardSource = none) (Q : ItemQueue F ℤ) (T : ItemQueue F ℕ)
    (sort : StdSort) (nth : StdNthElement)
    (queryFormat : Option (SearchFields F) → Except Exception (QueryFormat F)) (n : ℤ)
    (indptr indices : List ℕ) (values : List F) (k : ℤ) (params : Option (SearchFields F))
    (sel : Option IDSelector) :
    x.search Q T sort nth queryFormat n indptr indices values k params sel
      = .ok (paddedResults n k) := by
  unfold search
  rw [h]
  exact ite_self _

/-- Lists without a cluster have nothing to search. -/
theorem searchBlocks_of_sameClusters (hdim : x.dimension = y.dimension)
    (hlists : SameClusters x.clusteredInvertedLists y.clusteredInvertedLists) (Q : ItemQueue F ℤ)
    (T : ItemQueue F ℕ) (nth : StdNthElement)
    (queryFormat : Option (SearchFields F) → Except Exception (QueryFormat F))
    (n : ℤ) (indptr indices : List ℕ) (values : List F) (k : ℤ)
    (params : Option (SearchFields F)) (sel : Option IDSelector) (source : ForwardSource) :
    x.searchBlocks Q T nth queryFormat n indptr indices values k params sel source
      = y.searchBlocks Q T nth queryFormat n indptr indices values k params sel source := by
  unfold searchBlocks
  rcases hlists with heq | ⟨hx, hy⟩
  · rw [heq, hdim]
  · -- no candidates on either side
    rw [hdim]
    dsimp only
    split
    · rfl
    · congr 1
      funext format
      exact (blockQueries_of_no_clusters hx ..).trans (blockQueries_of_no_clusters hy ..).symm

/-- Two indexes in step that have no blocks answer alike, as far as their clusters are the same:
neither reads a locator or the remainder, which are for an index without vectors. -/
theorem search_eq_of_follows (h : x.Follows y) (hx : x.fwd.numBlocks = 0)
    (hy : y.fwd.numBlocks = 0) (Q : ItemQueue F ℤ) (T : ItemQueue F ℕ) (sort : StdSort)
    (nth : StdNthElement)
    (queryFormat : Option (SearchFields F) → Except Exception (QueryFormat F))
    (n : ℤ) (indptr indices : List ℕ) (values : List F) (k : ℤ)
    (params : Option (SearchFields F)) (sel : Option IDSelector)
    (hlists : exactMatchIds sel k = none →
      SameClusters x.clusteredInvertedLists y.clusteredInvertedLists) :
    x.search Q T sort nth queryFormat n indptr indices values k params sel
      = y.search Q T sort nth queryFormat n indptr indices values k params sel := by
  unfold search
  rw [forwardSource_of_no_blocks hx, forwardSource_of_no_blocks hy, ← h.vectors]
  rcases hvectors : x.vectors with - | vectors
  · -- nothing to score: padding, whatever the counts are
    show (if _ then _ else _) = (if _ then _ else _)
    rw [Option.map_none, ite_self, ite_self]
  · have hcount : x.numVectors = y.numVectors :=
      h.count (hvectors ▸ Option.some_ne_none vectors)
    have hexact : ∀ ids, x.searchExact Q sort queryFormat n indptr indices values k params ids
        vectors = y.searchExact Q sort queryFormat n indptr indices values k params ids
        vectors := by
      intro ids
      unfold searchExact
      rw [h.dimension]
    rw [hcount]
    show (if _ then _ else _) = (if _ then _ else _)
    congr 1
    rcases hsel : exactMatchIds sel k with - | ids
    · exact searchBlocks_of_sameClusters h.dimension (hlists hsel) ..
    · exact hexact ids

omit [Neg F] [Add F] [Sub F] [Mul F] in
/-- A disk index that was mapped is an opened one. -/
theorem opened_of_mapIndex {base : ℕ} {c c' : Cursor} {kind : DiskKind F}
    (h : mapIndex base c = .ok (kind.stored x, c')) :
    ∃ dim p, x = opened dim (kDefaultSeismicClusterParams F) (some p) := by
  unfold mapIndex readIndexWithin at h
  obtain ⟨header, _, -, h⟩ := Reader.bind_eq_ok h
  obtain ⟨kind', _, -, h⟩ := Reader.bind_eq_ok h
  cases kind' with
  | brutal => cases h
  | seismic =>
      obtain ⟨_, _, heq⟩ := Reader.map_eq_ok h
      cases kind with
      | float => cases heq
      | quantized sq => cases heq
  | seismicSQ =>
      obtain ⟨_, _, -, h⟩ := Reader.bind_eq_ok h
      obtain ⟨_, _, heq⟩ := Reader.map_eq_ok h
      cases kind with
      | float => cases heq
      | quantized sq => cases heq
  | diskSeismic =>
      obtain ⟨x', hx, heq⟩ := Reader.map_eq_ok h
      obtain ⟨p, -, rfl⟩ := Reader.map_eq_ok (liftMapped_eq_ok hx)
      cases kind with
      | float =>
          obtain rfl := StoredIndex.diskSeismic.inj heq
          exact ⟨header.dimension.toNat, p, rfl⟩
      | quantized sq => cases heq
  | diskSeismicSQ =>
      obtain ⟨⟨sq', x'⟩, hx, heq⟩ := Reader.map_eq_ok h
      obtain ⟨_, _, -, hx⟩ := Reader.bind_eq_ok (liftMapped_eq_ok hx)
      obtain ⟨p, _, -, hx⟩ := Reader.bind_eq_ok hx
      obtain ⟨_, -, hpair⟩ := Reader.map_eq_ok hx
      cases kind with
      | float => cases heq
      | quantized sq =>
          obtain ⟨-, rfl⟩ := StoredIndex.diskSeismicSQ.inj heq
          obtain ⟨-, rfl⟩ := Prod.mk.inj hpair
          exact ⟨header.dimension.toNat, p, rfl⟩
  | inverted =>
      obtain ⟨_, _, heq⟩ := Reader.map_eq_ok h
      cases kind with
      | float => cases heq
      | quantized sq => cases heq
  | idMap =>
      obtain ⟨_, _, -, h⟩ := Reader.bind_eq_ok h
      obtain ⟨_, _, heq⟩ := Reader.map_eq_ok h
      cases kind with
      | float => cases heq
      | quantized sq => cases heq

/-- What a history of calls does to an opened index, beside a new one that receives the same. -/
structure FollowsCorpus (rng : Rng) (sort : StdSort) (format : CodeFormat F)
    (x y : DiskSeismicIndex F) (calls : List (CorpusCall F)) : Prop where
  /-- Every call ends as on the new index. -/
  outcomes : x.outcomes rng sort format calls = y.outcomes rng sort format calls
  /-- Both hold the same corpus. -/
  corpus : (x.after rng sort format calls).vectors = (y.after rng sort format calls).vectors
  /-- Calls that throw change no answer. -/
  kept : (∀ result ∈ x.outcomes rng sort format calls, result ≠ .ok ()) →
    ∀ (Q : ItemQueue F ℤ) (T : ItemQueue F ℕ) (sort' : StdSort) (nth : StdNthElement)
      (queryFormat : Option (SearchFields F) → Except Exception (QueryFormat F)) (n : ℤ)
      (indptr indices : List ℕ) (values : List F) (k : ℤ) (params : Option (SearchFields F))
      (sel : Option IDSelector),
      (x.after rng sort format calls).search Q T sort' nth queryFormat n indptr indices values k
          params sel
        = x.search Q T sort' nth queryFormat n indptr indices values k params sel
  /-- Until it is built, what was mapped belongs together. -/
  unbuilt : ¬x.WasBuilt rng sort format calls → x.Keeps (x.after rng sort format calls) ∧
    (x.after rng sort format calls).clusteredInvertedLists = x.clusteredInvertedLists
  /-- Once a call has returned, a search scores the vectors. -/
  scored : .ok () ∈ x.outcomes rng sort format calls →
    (x.after rng sort format calls).forwardSource
      = (x.after rng sort format calls).vectors.map .rows
  /-- Its lists are those the last build made of the vectors it found. -/
  lists : ∀ before env entropy rest, calls = before ++ .build env entropy :: rest →
    ((x.after rng sort format before).build env rng sort entropy).2 = .ok () →
    ¬((x.after rng sort format before).build env rng sort entropy).1.WasBuilt rng sort format
      rest →
    ∃ region, (buildClusteredLists env rng sort (x.after rng sort format before).vectors
        x.dimension x.clusterParameter entropy (x.after rng sort format before).batchSpill).2
      = .ok ((x.after rng sort format calls).clusteredInvertedLists, region)
  /-- An `add` that returns extends the vectors. -/
  added : ∀ before args rest, calls = before ++ .add args :: rest →
    ((x.after rng sort format before).add format args).2 = .ok () →
    ∃ indptr indices values vectors vectors', args.checked = .ok (indptr, indices, values) ∧
      (x.after rng sort format before).vectorsToAdd format = .ok vectors ∧
      vectors.addVectors indptr indices (values.map format.encode) = .ok vectors' ∧
      (x.after rng sort format (before ++ [.add args])).vectors = some vectors'
  /-- And it answers as on the new index, which has nothing mapped: when a build has returned, when
  there was no cluster before, and where a selector lists the documents. -/
  searches : .ok () ∈ x.outcomes rng sort format calls →
    ∀ (Q : ItemQueue F ℤ) (T : ItemQueue F ℕ) (sort' : StdSort) (nth : StdNthElement)
      (queryFormat : Option (SearchFields F) → Except Exception (QueryFormat F)) (n : ℤ)
      (indptr indices : List ℕ) (values : List F) (k : ℤ) (params : Option (SearchFields F))
      (sel : Option IDSelector),
      x.WasBuilt rng sort format calls ∨ (∀ l ∈ x.clusteredInvertedLists, l.nClusters = 0) ∨
          exactMatchIds sel k ≠ none →
        (x.after rng sort format calls).search Q T sort' nth queryFormat n indptr indices values k
            params sel
          = (y.after rng sort format calls).search Q T sort' nth queryFormat n indptr indices values
            k params sel

/-- **Searches follow the corpus**, after any calls on an index that is new or was mapped from a
file, as long as none of them returns while there are mapped blocks. -/
theorem searches_follow_corpus (rng : Rng) (sort : StdSort) (format : CodeFormat F) (dim : ℕ)
    (parameter : SeismicClusterParameters F) (payload : Option MappedPayload)
    (calls : List (CorpusCall F))
    (h : (opened dim parameter payload).CallsWithoutBlocks rng sort format calls) :
    FollowsCorpus rng sort format (opened dim parameter payload) (new dim parameter) calls := by
  set x := opened dim parameter payload with hx
  have hfollows : x.Follows (new dim parameter) := opened_follows dim parameter payload
  have hstart : InStep (∀ l ∈ x.clusteredInvertedLists, l.nClusters = 0) x (new dim parameter) :=
    ⟨hfollows, fun hnone => .inr ⟨hnone, fun _ hl => absurd hl List.not_mem_nil⟩⟩
  obtain ⟨hends, hstep⟩ := after_inStep hstart calls
  have hfwd : (x.after rng sort format calls).fwd = x.fwd := (after_keeps x calls).fwd
  have hreturned : .ok () ∈ x.outcomes rng sort format calls →
      (x.after rng sort format calls).fwd.numBlocks = 0 := fun hok => by
    rw [hfwd]
    by_contra hblocks
    exact (threw_of_blocks h (Nat.pos_of_ne_zero hblocks)).1 _ hok rfl
  refine
    { outcomes := hends
      corpus := hstep.vectors
      kept := ?_
      unbuilt := fun hnot => ⟨after_keeps _ calls, lists_of_not_built hnot⟩
      scored := fun hok => forwardSource_of_no_blocks (hreturned hok)
      lists := ?_
      added := ?_
      searches := ?_ }
  · intro hthrew Q T sort' nth queryFormat n indptr indices values k params sel
    obtain ⟨spill, count, hafter, hcount⟩ :=
      after_of_threw hfollows.vectors hfollows.vectorsMapped hthrew
    rw [hafter]
    rcases Nat.eq_zero_or_pos x.fwd.numBlocks with hblocks | hblocks
    · -- nothing to score before and after
      rw [search_of_no_source (forwardSource_of_no_blocks hblocks ▸ hfollows.vectors ▸ rfl),
        search_of_no_source (forwardSource_of_no_blocks hblocks ▸ hfollows.vectors ▸ rfl)]
    · -- what is searched are the blocks, with the count that was mapped
      rcases eq_or_ne calls [] with rfl | hne
      · exact congrArg (fun x => search Q T sort' nth queryFormat x n indptr indices values k params
          sel) hafter.symm
      · rw [hcount ((threw_of_blocks h hblocks).2 hne)]
        exact search_of_spill x spill ..
  · rintro before env entropy rest rfl hok hrest
    obtain ⟨region, hlists⟩ := lists_of_build hok
    have hkept : x.Keeps (x.after rng sort format before) := after_keeps _ before
    rw [hkept.dimension, hkept.parameter] at hlists
    refine ⟨region, ?_⟩
    rw [after_append, after_cons, hlists]
    exact congrArg (fun lists => Except.ok (lists, region)) (lists_of_not_built hrest).symm
  · rintro before args rest rfl hok
    rw [after_append]
    exact vectors_of_add hok
  · intro hok Q T sort' nth queryFormat n indptr indices values k params sel hsearch
    have hnew : ((new dim parameter).after rng sort format calls).fwd.numBlocks = 0 :=
      congrArg _ (after_keeps (new dim parameter) calls).fwd
    refine search_eq_of_follows hstep.toFollows (hreturned hok) hnew Q T sort' nth queryFormat n
      indptr indices values k params sel fun hnone => hstep.lists ?_
    rcases hsearch with hbuilt | hlists | hids
    · exact .inr hbuilt
    · exact .inl hlists
    · exact absurd hnone hids

/-! ### Indexes mapped from their files -/

theorem eq_ok_of_toOption {ε α : Type} {r : Except ε α} {a : α} (h : r.toOption = some a) :
    r = .ok a := by
  cases r with
  | error e => cases h
  | ok b => exact congrArg Except.ok (Option.some_inj.mp h)

/-- What a mapped index was found to be. -/
def mappedCheck (x : DiskSeismicIndex ℤ) (check : DiskSeismicIndex ℤ → Bool) : Option Bool :=
  ((DiskKind.stored .float x).write []).toOption.bind fun bytes =>
    (mapIndex (F := ℤ) (4096 * 1) ⟨bytes, 0⟩).toOption.bind fun r =>
      match r.1 with
      | .diskSeismic y => some (check y)
      | _ => none

/-- An index that is mapped from its file is an opened one. -/
theorem exists_opened_of_mappedCheck {x : DiskSeismicIndex ℤ} {check : DiskSeismicIndex ℤ → Bool}
    (h : mappedCheck x check = some true) :
    ∃ bytes dim p c, (DiskKind.stored .float x).write [] = .ok bytes ∧
      mapIndex (4096 * 1) ⟨bytes, 0⟩ = .ok (DiskKind.stored (.float : DiskKind ℤ)
        (opened dim (kDefaultSeismicClusterParams ℤ) (some p)), c) ∧
      check (opened dim (kDefaultSeismicClusterParams ℤ) (some p)) = true := by
  obtain ⟨bytes, hw, hrun⟩ := Option.bind_eq_some_iff.mp h
  obtain ⟨⟨stored, c⟩, hread, hrun⟩ := Option.bind_eq_some_iff.mp hrun
  have hread' := eq_ok_of_toOption hread
  cases stored with
  | diskSeismic y =>
      have hdisk : mapIndex (4096 * 1) ⟨bytes, 0⟩
          = .ok ((DiskKind.float : DiskKind ℤ).stored y, c) := hread'
      obtain ⟨dim, p, rfl⟩ := opened_of_mapIndex hdisk
      exact ⟨bytes, dim, p, c, eq_ok_of_toOption hw, hdisk, Option.some_inj.mp hrun⟩
  | seismic y => cases hrun
  | seismicSQ sq y => cases hrun
  | diskSeismicSQ sq y => cases hrun
  | inverted y => cases hrun
  | idMap ids back y => cases hrun

/-- Two documents of the one term. -/
def twoRowArgs : CsrArgs ℤ where
  n := 2
  indptr := some [0, 1, 2]
  indices := some [0, 0]
  values := some [4, 2]
  promise := by
    rintro p is vs ⟨⟩ ⟨⟩ ⟨⟩ -
    exact ⟨rfl, ⟨rfl, by decide, rfl⟩, rfl⟩

/-- No documents, which `add` rejects. -/
def noRowArgs : CsrArgs ℤ where
  n := 0
  indptr := some [0]
  indices := some []
  values := some []
  promise _ _ _ _ _ _ h := absurd h (lt_irrefl 0)

def filledCalls : List (CorpusCall ℤ) :=
  [.add twoRowArgs, .build SeismicIndex.calmEnv 0]

/-- The one term with another value. -/
def otherDocumentArgs : CsrArgs ℤ where
  n := 1
  indptr := some [0, 1]
  indices := some [1]
  values := some [5]
  promise := by
    rintro p is vs ⟨⟩ ⟨⟩ ⟨⟩ -
    exact ⟨rfl, ⟨rfl, by decide, rfl⟩, rfl⟩

/-- A document is added to an index that was mapped from its file, and the index is built. -/
def rebuiltCalls : List (CorpusCall ℤ) :=
  [.add otherDocumentArgs, .build SeismicIndex.calmEnv 0]

/-- Both calls return, and a search for the one term. -/
def rebuiltSearch (x : DiskSeismicIndex ℤ) :
    Bool × Option (List (List ℤ) × List (List ℤ)) :=
  (decide (x.outcomes countingRng insertionSort (DiskKind.format .float) rebuiltCalls
      = [.ok (), .ok ()]),
    ((x.after countingRng insertionSort (DiskKind.format .float) rebuiltCalls).search
      (sortedQueue TopKItem.score) (sortedQueue TopKItem.score) insertionSort
      insertionSort.nthElement (DiskKind.queryFormat .float) 1 [0, 1] [1] [1] 1 none none).toOption)

/-- What the calls do to a new index. -/
theorem calls_on_new :
    (new 1 (kDefaultSeismicClusterParams ℤ)).outcomes countingRng insertionSort
        (DiskKind.format .float) filledCalls = [.ok (), .ok ()] ∧
      rebuiltSearch (new 2 (kDefaultSeismicClusterParams ℤ)) = (true, some ([[5]], [[0]])) := by
  decide +kernel

/-- What the file of one document is mapped as: an index with a block, which is what is searched after
these calls. -/
theorem mapped_oneDocument :
    ∃ bytes p c, (DiskKind.stored .float DiskKind.oneDocumentBuilt).write [] = .ok bytes ∧
      mapIndex (4096 * 1) ⟨bytes, 0⟩ = .ok (DiskKind.stored (.float : DiskKind ℤ)
        (opened 2 (kDefaultSeismicClusterParams ℤ) (some p)), c) ∧
      0 < (opened 2 (kDefaultSeismicClusterParams ℤ) (some p)).fwd.numBlocks ∧
      rebuiltSearch (opened 2 (kDefaultSeismicClusterParams ℤ) (some p))
        = (true, some ([[1]], [[0]])) := by
  have hrun : mappedCheck DiskKind.oneDocumentBuilt (fun x =>
      decide (x.dimension = 2 ∧ 0 < x.fwd.numBlocks ∧
        rebuiltSearch x = (true, some ([[1]], [[0]])))) = some true := by decide +kernel
  obtain ⟨bytes, dim, p, c, hw, hread, hcheck⟩ := exists_opened_of_mappedCheck hrun
  obtain ⟨hdim, hblocks, hmapped⟩ := of_decide_eq_true hcheck
  obtain rfl : dim = 2 := hdim
  exact ⟨bytes, p, c, hw, hread, hblocks, hmapped⟩

/-- An index that is mapped without a block is filled and built; one that is mapped with a block
rejects what it is called with. -/
theorem searches_follow_corpus_mapped :
    (∃ bytes p c, (DiskKind.stored .float DiskKind.emptyDocumentBuilt).write [] = .ok bytes ∧
      mapIndex (4096 * 1) ⟨bytes, 0⟩ = .ok (DiskKind.stored (.float : DiskKind ℤ)
        (opened 1 (kDefaultSeismicClusterParams ℤ) (some p)), c) ∧
      (opened 1 (kDefaultSeismicClusterParams ℤ) (some p)).outcomes countingRng insertionSort
        (DiskKind.format .float) filledCalls = [.ok (), .ok ()] ∧
      FollowsCorpus countingRng insertionSort (DiskKind.format .float)
        (opened 1 (kDefaultSeismicClusterParams ℤ) (some p))
        (new 1 (kDefaultSeismicClusterParams ℤ)) filledCalls) ∧
    ∃ bytes p c, (DiskKind.stored .float DiskKind.oneDocumentBuilt).write [] = .ok bytes ∧
      mapIndex (4096 * 1) ⟨bytes, 0⟩ = .ok (DiskKind.stored (.float : DiskKind ℤ)
        (opened 2 (kDefaultSeismicClusterParams ℤ) (some p)), c) ∧
      0 < (opened 2 (kDefaultSeismicClusterParams ℤ) (some p)).fwd.numBlocks ∧
      FollowsCorpus countingRng insertionSort (DiskKind.format .float)
        (opened 2 (kDefaultSeismicClusterParams ℤ) (some p))
        (new 2 (kDefaultSeismicClusterParams ℤ)) [.add noRowArgs] := by
  constructor
  · obtain ⟨bytes, y, hw, hread, hreloads, hblocks⟩ := DiskKind.emptyDocumentBuilt_mapped
    obtain ⟨-, -, hone, -⟩ := DiskKind.emptyDocumentBuilt_holds
    obtain ⟨dim, p, rfl⟩ := opened_of_mapIndex hread
    obtain rfl : dim = 1 := hreloads.dimension.trans hone
    have hfollows := searches_follow_corpus countingRng insertionSort (DiskKind.format .float) 1 _
      (some p) filledCalls (callsWithoutBlocks_of_no_blocks hblocks filledCalls)
    exact ⟨bytes, p, _, hw, hread, hfollows.outcomes.trans calls_on_new.1, hfollows⟩
  · obtain ⟨bytes, p, c, hw, hread, hblocks, -⟩ := mapped_oneDocument
    refine ⟨bytes, p, c, hw, hread, hblocks, ?_⟩
    refine searches_follow_corpus countingRng insertionSort _ 2 _ (some p) [.add noRowArgs]
      ⟨fun _ => ⟨show (2 : ℕ) ≠ 0 from two_ne_zero, fun hok => ?_⟩, trivial⟩
    cases hok

/-- **Mapped blocks outlive a build.**  An index is mapped from its file, another document is added
and the index is built; nothing throws, and a search scores the document of the file. -/
theorem rebuilt_index_scores_mapped_blocks :
    ∃ bytes p c, (DiskKind.stored .float DiskKind.oneDocumentBuilt).write [] = .ok bytes ∧
      mapIndex (4096 * 1) ⟨bytes, 0⟩ = .ok (DiskKind.stored (.float : DiskKind ℤ)
        (opened 2 (kDefaultSeismicClusterParams ℤ) (some p)), c) ∧
      rebuiltSearch (opened 2 (kDefaultSeismicClusterParams ℤ) (some p))
        = (true, some ([[1]], [[0]])) ∧
      rebuiltSearch (new 2 (kDefaultSeismicClusterParams ℤ)) = (true, some ([[5]], [[0]])) ∧
      ¬FollowsCorpus countingRng insertionSort (DiskKind.format .float)
        (opened 2 (kDefaultSeismicClusterParams ℤ) (some p))
        (new 2 (kDefaultSeismicClusterParams ℤ)) rebuiltCalls := by
  have hnew := calls_on_new.2
  obtain ⟨bytes, p, c, hw, hread, -, hmapped⟩ := mapped_oneDocument
  refine ⟨bytes, p, c, hw, hread, hmapped, hnew, fun h => ?_⟩
  -- the second call is a build that returned
  have hends := of_decide_eq_true (Prod.mk.inj hmapped).1
  have hbuilt : (opened 2 (kDefaultSeismicClusterParams ℤ) (some p)).WasBuilt countingRng
      insertionSort (DiskKind.format .float) rebuiltCalls :=
    .inr (.inl ⟨⟨_, _, rfl⟩, (List.cons.inj (List.cons.inj hends).2).1⟩)
  have hreturned : .ok () ∈ (opened 2 (kDefaultSeismicClusterParams ℤ) (some p)).outcomes
      countingRng insertionSort (DiskKind.format .float) rebuiltCalls :=
    hends ▸ List.mem_cons_self
  have hsearch := (Prod.mk.inj hmapped).2
  rw [h.searches hreturned _ _ _ _ _ _ _ _ _ _ _ _ (.inl hbuilt)] at hsearch
  have hother := (Prod.mk.inj hnew).2
  exact absurd (hsearch.symm.trans hother) (by decide)

end Search

end DiskSeismicIndex

end Nsparse
