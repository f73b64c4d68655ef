/-
Nsparse/AddBatches.lean

Adding a corpus at once or batch by batch.

What an `add` does depends on the rows it is given and on nothing else of its
arguments, and giving it more rows is giving it the first and then the others
(`AddsRows`).  That is so for the vectors (`appendRows_append`), for every index type
over them, and through an id map, where the count of the delegate tells where the ids
of a batch go.  From it, by induction on the batches, the state after them is that of
a single `add` (`AddsRows.addAll_eq`).
-/
import Nsparse.BuiltIndex
import Nsparse.InvertedCorpus
import Nsparse.PlainIndex

namespace Nsparse

/-! ### One by one -/

section Batches

variable {σ A R : Type}

/-- What comes next, unless an exception was thrown. -/
def unlessThrown (first : σ × Except Exception Unit) (next : σ → σ × Except Exception Unit) :
    σ × Except Exception Unit :=
  match first with
  | (x, .error e) => (x, .error e)
  | (x, .ok ()) => next x

/-- Add one batch after the other; the first exception ends it. -/
def addAll (add : σ → A → σ × Except Exception Unit) : List A → σ → σ × Except Exception Unit
  | [], x => (x, .ok ())
  | a :: batches, x => unlessThrown (add x a) (addAll add batches)

/-- `add` reads the rows of the arguments it takes, and rows can be given in two parts.  The
invariant `I` holds before every part. -/
structure AddsRows (add : σ → A → σ × Except Exception Unit) (rows : A → List R)
    (accepted : A → Prop) (I : σ → Prop)
    (addRows : σ → List R → σ × Except Exception Unit) : Prop where
  reads : ∀ {x a}, I x → accepted a → add x a = addRows x (rows a) ∧ rows a ≠ []
  parts : ∀ {x front back}, I x →
    addRows x (front ++ back) = unlessThrown (addRows x front) fun x => addRows x back
  stays : ∀ {x x' front}, I x → addRows x front = (x', .ok ()) → I x'

/-- `count` counts the rows, and after the first of them nothing throws. -/
structure Counts (I : σ → Prop) (count : σ → ℕ) (addRows : σ → List R → σ × Except Exception Unit) :
    Prop where
  grows : ∀ {x x' front}, I x → addRows x front = (x', .ok ()) →
    I x' ∧ count x' = count x + front.length
  goesOn : ∀ {x x' front}, I x → addRows x front = (x', .ok ()) →
    ∀ back, ∃ x'', addRows x' back = (x'', .ok ())

/-- **Batches add up**: together they are one `add` of all rows. -/
theorem AddsRows.addAll_eq {add : σ → A → σ × Except Exception Unit} {rows : A → List R}
    {accepted : A → Prop} {I : σ → Prop}
    {addRows : σ → List R → σ × Except Exception Unit}
    (h : AddsRows add rows accepted I addRows) {batches : List A}
    (hbatches : ∀ a ∈ batches, accepted a) (hne : batches ≠ []) {x : σ} (hx : I x) :
    addAll add batches x = addRows x (batches.map rows).flatten := by
  induction batches generalizing x with
  | nil => exact absurd rfl hne
  | cons a batches ih =>
      obtain ⟨ha, hrest⟩ := List.forall_mem_cons.mp hbatches
      obtain ⟨hadd, hrows⟩ := h.reads hx ha
      rw [addAll, hadd, List.map_cons, List.flatten_cons]
      by_cases hlast : batches = []
      · subst hlast
        rw [List.map_nil, List.flatten_nil, List.append_nil]
        rcases addRows x (rows a) with ⟨x', e | ⟨⟨⟩⟩⟩
        · rfl
        · rfl
      · rw [h.parts hx]
        rcases hfirst : addRows x (rows a) with ⟨x', e | ⟨⟨⟩⟩⟩
        · rfl
        · exact ih hrest hlast (h.stays hx hfirst)

/-- **Batching does not show**: a single `add` of the same rows does the same. -/
theorem AddsRows.addAll_eq_add {add : σ → A → σ × Except Exception Unit} {rows : A → List R}
    {accepted : A → Prop} {I : σ → Prop}
    {addRows : σ → List R → σ × Except Exception Unit}
    (h : AddsRows add rows accepted I addRows) {batches : List A} {whole : A}
    (hbatches : ∀ a ∈ batches, accepted a) (hwhole : accepted whole)
    (hrows : rows whole = (batches.map rows).flatten) {x : σ} (hx : I x) :
    addAll add batches x = add x whole := by
  obtain ⟨hadd, hne⟩ := h.reads hx hwhole
  have hbatches_ne : batches ≠ [] := by
    rintro rfl
    exact hne hrows
  rw [h.addAll_eq hbatches hbatches_ne hx, hadd, hrows]

end Batches

/-! ### Vectors -/

section Vectors

variable {V : Type}

namespace SparseVectors

/-- The vectors with more rows. -/
def appendRows (v : SparseVectors V) (rows : List (SparseRow V)) : SparseVectors V :=
  let indptrVec := if v.indptr = [] then [0] else v.indptr
  let offset := indptrVec.getLast?.getD 0
  { v with
    indptr := indptrVec ++ (Csr.offsets rows).tail.map (· + offset)
    indices := v.indices ++ rows.flatten.map Prod.fst
    values := v.values ++ rows.flatten.map Prod.snd }

/-- Rows are rebased onto the end of what is there: in two parts as in one. -/
theorem appendRows_append (v : SparseVectors V) (front back : List (SparseRow V)) :
    v.appendRows (front ++ back) = (v.appendRows front).appendRows back := by
  unfold appendRows
  dsimp only
  set indptrVec := if v.indptr = [] then [0] else v.indptr with hindptrVec
  have hne : indptrVec ≠ [] := by
    rw [hindptrVec]
    split
    · exact List.cons_ne_nil _ _
    · assumption
  set offset := indptrVec.getLast?.getD 0 with hoffset
  have hfront : indptrVec ++ (Csr.offsets front).tail.map (· + offset) ≠ [] :=
    List.append_ne_nil_of_left_ne_nil hne _
  -- where the second part begins
  have hlast : (indptrVec ++ (Csr.offsets front).tail.map (· + offset)).getLast?.getD 0
      = front.flatten.length + offset := by
    cases front with
    | nil =>
        show (indptrVec ++ []).getLast?.getD 0 = 0 + offset
        rw [List.append_nil, Nat.zero_add]
    | cons row front =>
        have hoffsets := Csr.getLast?_offsetsFrom 0 (row :: front)
        have htail : (Csr.offsets (row :: front)).tail = Csr.offsetsFrom (0 + row.length) front := rfl
        have htail_ne : (Csr.offsets (row :: front)).tail ≠ [] := by
          rw [htail]
          exact Csr.offsetsFrom_ne_nil _ _
        have hlast_tail : (Csr.offsets (row :: front)).tail.getLast?
            = some (row :: front).flatten.length := by
          rw [htail, Csr.getLast?_offsetsFrom, List.flatten_cons, List.length_append, Nat.zero_add]
        rw [List.getLast?_append, List.getLast?_map, hlast_tail]
        rfl
  rw [if_neg hfront, hlast]
  have hoffsets : (Csr.offsets (front ++ back)).tail
      = (Csr.offsets front).tail ++ (Csr.offsets back).tail.map (· + front.flatten.length) := by
    rw [Csr.offsets_append, List.tail_append_of_ne_nil (Csr.offsets_ne_nil front)]
  rw [hoffsets, List.map_append, List.map_map, List.flatten_append, List.map_append,
    List.map_append, List.append_assoc, List.append_assoc, List.append_assoc]
  congr 3
  apply List.map_congr_left
  intro n _
  exact Nat.add_assoc _ _ _

theorem numVectors_appendRows (v : SparseVectors V) (rows : List (SparseRow V)) :
    (v.appendRows rows).numVectors = v.numVectors + rows.length := by
  rw [numVectors_eq, numVectors_eq]
  unfold appendRows
  dsimp only
  split
  · rename_i hempty
    rw [hempty, List.length_append, List.length_map, List.length_tail, Csr.length_offsets]
    show 1 + rows.length - 1 = 0 + rows.length
    rw [Nat.add_sub_cancel_left, Nat.zero_add]
  · rename_i hne
    have hpos := List.length_pos_iff.mpr hne
    rw [List.length_append, List.length_map, List.length_tail, Csr.length_offsets]
    omega

end SparseVectors

/-- Rows with their values encoded. -/
def encodeRows {W : Type} (encode : V → W) (rows : List (SparseRow V)) : List (SparseRow W) :=
  rows.map (List.map fun entry => (entry.1, encode entry.2))

@[simp] theorem length_encodeRows {W : Type} (encode : V → W) (rows : List (SparseRow V)) :
    (encodeRows encode rows).length = rows.length := List.length_map _

theorem encodeRows_append {W : Type} (encode : V → W) (front back : List (SparseRow V)) :
    encodeRows encode (front ++ back) = encodeRows encode front ++ encodeRows encode back :=
  List.map_append

theorem offsets_encodeRows {W : Type} (encode : V → W) (rows : List (SparseRow V)) :
    Csr.offsets (encodeRows encode rows) = Csr.offsets rows := by
  have h : ∀ a, Csr.offsetsFrom a (encodeRows encode rows) = Csr.offsetsFrom a rows := by
    induction rows with
    | nil => exact fun _ => rfl
    | cons row rows ih =>
        intro a
        show a :: Csr.offsetsFrom (a + (row.map _).length) (encodeRows encode rows)
          = a :: Csr.offsetsFrom (a + row.length) rows
        rw [List.length_map, ih]
  exact h 0

/-- Arguments that `add` takes. -/
def CsrArgs.Accepted (a : CsrArgs V) : Prop := ∃ arrays, a.checked = .ok arrays

/-- **What `add` appends** to the vectors are the rows of its arguments. -/
theorem SparseVectors.addVectors_args {W : Type} (encode : V → W) (v : SparseVectors W)
    {a : CsrArgs V} {indptr indices : List ℕ} {values : List V}
    (h : a.checked = .ok (indptr, indices, values)) :
    v.addVectors indptr indices (values.map encode) = .ok (v.appendRows (encodeRows encode a.rows))
      ∧ indices.take (indptr.getD a.n.toNat 0) = indices
      ∧ values.take (indptr.getD a.n.toNat 0) = values
      ∧ a.rows ≠ [] ∧ a.rows.length = a.n.toNat := by
  obtain ⟨hpos, hlen, hoffsets, hpair, hrows, hcount⟩ := CsrArgs.checked_eq_ok h
  have hzip : (indices.zip values).length = indices.length := by
    rw [List.length_zip, ← hpair, min_self]
  have hvalid : Csr.Offsets indptr (indices.zip values).length := hzip.symm ▸ hoffsets
  have hflat : a.rows.flatten = indices.zip values := by
    rw [hrows, Csr.flatten_rows hvalid]
  have hoff : Csr.offsets a.rows = indptr := by
    rw [hrows, Csr.offsets_rows hvalid]
  have hlast : indptr.getD a.n.toNat 0 = indices.length := by
    have hi : a.n.toNat = indptr.length - 1 := by omega
    rw [List.getD_eq_getElem?_getD, hi, ← List.getLast?_eq_getElem?, hoffsets.last]
    rfl
  refine ⟨?_, ?_, ?_, ?_, by omega⟩
  · have hfst : (encodeRows encode a.rows).flatten.map Prod.fst = indices := by
      rw [encodeRows, ← List.map_flatten, hflat, List.map_map]
      exact List.map_fst_zip hpair.le
    have hsnd : (encodeRows encode a.rows).flatten.map Prod.snd = values.map encode := by
      rw [encodeRows, ← List.map_flatten, hflat, List.map_map]
      show (indices.zip values).map (encode ∘ Prod.snd) = values.map encode
      rw [← List.map_map, List.map_snd_zip hpair.ge]
    unfold SparseVectors.addVectors SparseVectors.appendRows
    rw [if_neg (by rw [List.length_map, hpair]; exact fun hne => hne rfl), if_neg (by omega), hfst,
      hsnd, offsets_encodeRows, hoff]
  · rw [hlast, List.take_length]
  · rw [hlast, hpair, List.take_length]
  · rintro hnil
    rw [hnil] at hcount
    exact absurd hcount (by simpa using hpos.ne)

end Vectors

/-! ### The index types -/

section Types

variable {F : Type}

/-- The vectors to append to, which the first `add` creates. -/
def vectorsOrNew {V : Type} (elementSize dimension : ℕ) (vectors : Option (SparseVectors V)) :
    Except Exception (SparseVectors V) :=
  vectors.elim (SparseVectors.new elementSize dimension) .ok

theorem numVectors_vectorsOrNew {V : Type} {elementSize dimension : ℕ}
    {vectors : Option (SparseVectors V)} {v : SparseVectors V}
    (h : vectorsOrNew elementSize dimension vectors = .ok v) :
    v.numVectors = vectors.elim 0 SparseVectors.numVectors := by
  cases vectors with
  | none =>
      have hrows := (SparseVectors.new_wellFormed h).2.1
      rw [← SparseVectors.length_rows, hrows]
      rfl
  | some vectors =>
      cases h
      rfl

/-- The vectors of a disk index say how many there are, or nothing was added yet. -/
def DiskSeismicIndex.Counted (x : DiskSeismicIndex F) : Prop := x.vectors = none → x.numVectors = 0

/-- A new one does; adding to it or building it changes nothing in that. -/
theorem DiskSeismicIndex.counted_new (dim : ℕ) (parameter : SeismicClusterParameters F) :
    (new dim parameter).Counted := fun _ => rfl

/-- How an index adds rows to its vectors: the vectors it starts from, or what it throws and what is
left of it then; and itself with the vectors and the count that come of it. -/
structure RowAdder (σ F V : Type) where
  start : σ → Except (σ × Exception) (SparseVectors V)
  put : σ → SparseVectors V → ℕ → σ
  encode : F → V
  start_put : ∀ {x v}, start x = .ok v → ∀ w n, start (put x w n) = .ok w
  put_put : ∀ x v n w m, put (put x v n) w m = put x w (n + m)

namespace RowAdder

variable {σ V : Type} (R : RowAdder σ F V)

def addRows (x : σ) (rows : List (SparseRow F)) : σ × Except Exception Unit :=
  match R.start x with
  | .error (x, e) => (x, .error e)
  | .ok v => (R.put x (v.appendRows (encodeRows R.encode rows)) rows.length, .ok ())

variable {R}

theorem addRows_of_ok {x : σ} {v : SparseVectors V} (h : R.start x = .ok v)
    (rows : List (SparseRow F)) :
    R.addRows x rows = (R.put x (v.appendRows (encodeRows R.encode rows)) rows.length, .ok ()) := by
  rw [addRows, h]

/-- The vectors it started from, when it did not throw. -/
theorem start_of_addRows {x x' : σ} {rows : List (SparseRow F)}
    (h : R.addRows x rows = (x', .ok ())) :
    ∃ v, R.start x = .ok v ∧ x' = R.put x (v.appendRows (encodeRows R.encode rows)) rows.length := by
  unfold addRows at h
  rcases hv : R.start x with ⟨x₀, e⟩ | v
  · rw [hv] at h
    cases h
  · rw [hv] at h
    cases h
    exact ⟨v, rfl, rfl⟩

/-- **Two parts.** -/
theorem addRows_append (x : σ) (front back : List (SparseRow F)) :
    R.addRows x (front ++ back) = unlessThrown (R.addRows x front) fun x => R.addRows x back := by
  rcases hv : R.start x with ⟨x', e⟩ | v
  · simp only [addRows, hv, unlessThrown]
  · rw [addRows_of_ok hv, addRows_of_ok hv, unlessThrown]
    rw [addRows_of_ok (R.start_put hv _ _), R.put_put, encodeRows_append,
      SparseVectors.appendRows_append, List.length_append]

/-- Nothing is thrown after the first rows. -/
theorem addRows_goesOn {x x' : σ} {front : List (SparseRow F)}
    (h : R.addRows x front = (x', .ok ())) (back : List (SparseRow F)) :
    ∃ x'', R.addRows x' back = (x'', .ok ()) := by
  obtain ⟨v, hv, rfl⟩ := start_of_addRows h
  exact ⟨_, addRows_of_ok (R.start_put hv _ _) back⟩

end RowAdder

/-- Where to start, with the index as it is when there is no room. -/
def startOr {σ V : Type} (x : σ) (elementSize dimension : ℕ) (vectors : Option (SparseVectors V)) :
    Except (σ × Exception) (SparseVectors V) :=
  (vectorsOrNew elementSize dimension vectors).mapError fun e => (x, e)

theorem startOr_eq_ok {σ V : Type} {x : σ} {elementSize dimension : ℕ}
    {vectors : Option (SparseVectors V)} {v : SparseVectors V} :
    startOr x elementSize dimension vectors = .ok v ↔
      vectorsOrNew elementSize dimension vectors = .ok v := by
  unfold startOr
  rcases vectorsOrNew elementSize dimension vectors with e | w
  · exact ⟨nofun, nofun⟩
  · constructor
    · rintro ⟨⟩
      rfl
    · rintro ⟨⟩
      rfl

def BrutalIndex.adder : RowAdder (BrutalIndex F) F F where
  start x := startOr x kElementSize x.dimension x.vectors
  put x v _ := { x with vectors := some v }
  encode := id
  start_put _ _ _ := rfl
  put_put _ _ _ _ _ := rfl

def InvertedIndex.adder : RowAdder (InvertedIndex F) F F where
  start x := startOr x kElementSize x.dimension x.vectors
  put x v n := { x with
    vectors := some v
    numVectors := x.numVectors + n }
  encode := id
  start_put _ _ _ := rfl
  put_put x v n w m := by
    show ({ x with vectors := some w, numVectors := x.numVectors + n + m } : InvertedIndex F) = _
    rw [Nat.add_assoc]

def SeismicIndex.adder (format : CodeFormat F) : RowAdder (SeismicIndex F) F Code where
  start x := startOr x format.elementSize x.dimension x.vectors
  put x v _ := { x with vectors := some v }
  encode := format.encode
  start_put _ _ _ := rfl
  put_put _ _ _ _ _ := rfl

/-- The index an `add` to no vectors begins with. -/
def DiskSeismicIndex.recounted (x : DiskSeismicIndex F) : DiskSeismicIndex F :=
  if x.vectors = none then { x with numVectors := 0 } else x

def DiskSeismicIndex.adder (format : CodeFormat F) : RowAdder (DiskSeismicIndex F) F Code where
  start x :=
    match vectorsOrNew format.elementSize x.dimension x.vectors with
    | .error e => .error (x.recounted, e)
    | .ok v =>
        if x.vectorsMapped then
          .error ({ x.recounted with vectors := some v }, .logicError
            "Buf does not own a vector: borrowed and mapped buffers cannot grow")
        else .ok v
  put x v n := { x.recounted with
    vectors := some v
    numVectors := x.recounted.numVectors + n }
  encode := format.encode
  start_put := by
    intro x v h w n
    have hmapped : x.vectorsMapped = false := by
      rcases hv : vectorsOrNew format.elementSize x.dimension x.vectors with e | v'
      · rw [hv] at h
        cases h
      · rw [hv] at h
        dsimp only at h
        split at h
        · cases h
        · rename_i hmapped
          exact Bool.not_eq_true _ ▸ hmapped
    have hkept : x.recounted.vectorsMapped = x.vectorsMapped := by
      unfold recounted
      split
      · rfl
      · rfl
    show (if x.recounted.vectorsMapped then _ else Except.ok w) = _
    rw [hkept, hmapped]
    rfl
  put_put x v n w m := by
    show ({ x.recounted with vectors := some w, numVectors := x.recounted.numVectors + n + m }
      : DiskSeismicIndex F) = _
    rw [Nat.add_assoc]

/-! ### What they read -/

theorem BrutalIndex.add_eq (x : BrutalIndex F) {a : CsrArgs F} (ha : a.Accepted) :
    x.add a = adder.addRows x a.rows := by
  obtain ⟨⟨indptr, indices, values⟩, h⟩ := ha
  unfold add
  rw [h]
  rcases hv : vectorsOrNew kElementSize x.dimension x.vectors with e | v
  · have hstart : adder.start x = .error (x, e) := by
      show startOr x kElementSize x.dimension x.vectors = _
      rw [startOr, hv]
      rfl
    rw [vectorsOrNew] at hv
    simp only [RowAdder.addRows, hstart, hv]
  · obtain ⟨hadd, hindices, hvalues, -, -⟩ := SparseVectors.addVectors_args id v h
    rw [List.map_id] at hadd
    rw [RowAdder.addRows_of_ok (startOr_eq_ok.mpr hv)]
    rw [vectorsOrNew] at hv
    simp only [hv, hindices, hvalues, hadd]
    rfl

theorem InvertedIndex.add_eq (x : InvertedIndex F) {a : CsrArgs F} (ha : a.Accepted) :
    x.add a = adder.addRows x a.rows := by
  obtain ⟨⟨indptr, indices, values⟩, h⟩ := ha
  unfold add
  rw [h]
  rcases hv : vectorsOrNew kElementSize x.dimension x.vectors with e | v
  · have hstart : adder.start x = .error (x, e) := by
      show startOr x kElementSize x.dimension x.vectors = _
      rw [startOr, hv]
      rfl
    rw [vectorsOrNew] at hv
    simp only [RowAdder.addRows, hstart, hv]
  · obtain ⟨hadd, hindices, hvalues, -, hcount⟩ := SparseVectors.addVectors_args id v h
    rw [List.map_id] at hadd
    rw [RowAdder.addRows_of_ok (startOr_eq_ok.mpr hv), hcount]
    rw [vectorsOrNew] at hv
    simp only [hv, hindices, hvalues, hadd]
    rfl

theorem SeismicIndex.vectorsToAdd_eq (format : CodeFormat F) (x : SeismicIndex F) :
    x.vectorsToAdd format = vectorsOrNew format.elementSize x.dimension x.vectors := by
  unfold vectorsToAdd vectorsOrNew
  cases x.vectors with
  | none => rfl
  | some vectors => rfl

theorem SeismicIndex.addOrKeep_eq (format : CodeFormat F) (x : SeismicIndex F) {a : CsrArgs F}
    (ha : a.Accepted) : x.addOrKeep format a = (adder format).addRows x a.rows := by
  obtain ⟨⟨indptr, indices, values⟩, h⟩ := ha
  unfold addOrKeep add
  rw [h, vectorsToAdd_eq]
  rcases hv : vectorsOrNew format.elementSize x.dimension x.vectors with e | v
  · have hstart : (adder format).start x = .error (x, e) := by
      show startOr x format.elementSize x.dimension x.vectors = _
      rw [startOr, hv]
      rfl
    simp only [RowAdder.addRows, hstart]
    rfl
  · obtain ⟨hadd, -, -, -, -⟩ := SparseVectors.addVectors_args format.encode v h
    rw [RowAdder.addRows_of_ok (startOr_eq_ok.mpr hv)]
    dsimp only [bind, Except.bind]
    rw [hadd]
    rfl

theorem DiskSeismicIndex.add_eq (format : CodeFormat F) (x : DiskSeismicIndex F) {a : CsrArgs F}
    (ha : a.Accepted) : x.add format a = (adder format).addRows x a.rows := by
  obtain ⟨⟨indptr, indices, values⟩, h⟩ := ha
  have hkept : x.recounted.vectorsMapped = x.vectorsMapped ∧ x.recounted.vectorsToAdd format
      = vectorsOrNew format.elementSize x.dimension x.vectors := by
    rw [SeismicIndex.vectorsToAdd_eq]
    unfold recounted
    split
    · exact ⟨rfl, rfl⟩
    · exact ⟨rfl, rfl⟩
  have hrecounted : (if x.vectors = none then { x with numVectors := 0 } else x) = x.recounted := rfl
  unfold add
  rw [h]
  dsimp only
  rw [hrecounted, hkept.2]
  rcases hv : vectorsOrNew format.elementSize x.dimension x.vectors with e | v
  · have hstart : (adder format).start x = .error (x.recounted, e) := by
      simp only [adder, hv]
    simp only [RowAdder.addRows, hstart]
  · obtain ⟨hadd, -, -, -, hcount⟩ := SparseVectors.addVectors_args format.encode v h
    dsimp only
    rw [hadd]
    cases hm : x.vectorsMapped with
    | true =>
        have hstart : (adder format).start x = .error ({ x.recounted with vectors := some v },
            .logicError "Buf does not own a vector: borrowed and mapped buffers cannot grow") := by
          simp only [adder, hv, hm, if_true]
        rw [if_pos (hkept.1.trans hm)]
        simp only [RowAdder.addRows, hstart]
    | false =>
        have hstart : (adder format).start x = .ok v := by
          simp only [adder, hv, hm, Bool.false_eq_true, if_false]
        have hnot : ¬ x.recounted.vectorsMapped = true := by
          rw [hkept.1, hm]
          exact Bool.false_ne_true
        rw [if_neg hnot, RowAdder.addRows_of_ok hstart, hcount]
        rfl

theorem vectorsOrNew_of_start {σ V : Type} {x : σ} {elementSize dimension : ℕ}
    {vectors : Option (SparseVectors V)} {v : SparseVectors V}
    (h : startOr x elementSize dimension vectors = .ok v) :
    v.numVectors = vectors.elim 0 SparseVectors.numVectors :=
  numVectors_vectorsOrNew (startOr_eq_ok.mp h)

/-- A disk index goes on from its count, once that is the count of its vectors. -/
theorem DiskSeismicIndex.numVectors_recounted {x : DiskSeismicIndex F} (h : x.Counted) :
    x.recounted.numVectors = x.numVectors := by
  unfold recounted
  split
  · rename_i hnone
    exact (h hnone).symm
  · rfl

theorem numVectors_append_start {σ V : Type} {x : σ} {elementSize dimension : ℕ}
    {vectors : Option (SparseVectors V)} {v : SparseVectors V}
    (h : startOr x elementSize dimension vectors = .ok v) (encode : F → V)
    (rows : List (SparseRow F)) :
    (v.appendRows (encodeRows encode rows)).numVectors
      = vectors.elim 0 SparseVectors.numVectors + rows.length := by
  rw [SparseVectors.numVectors_appendRows, vectorsOrNew_of_start h, length_encodeRows]

end Types

namespace PlainIndex

variable {F : Type} [Ring F] [LinearOrder F] [FloatFormat F]

def addRows : PlainIndex F → List (SparseRow F) → PlainIndex F × Except Exception Unit
  | brutal x, rows => (BrutalIndex.adder.addRows x rows).map brutal id
  | inverted x, rows => (InvertedIndex.adder.addRows x rows).map inverted id
  | seismic x, rows =>
      ((SeismicIndex.adder (floatFormat F IndexKind.seismic.name)).addRows x rows).map seismic id
  | seismicSQ sq x, rows =>
      ((SeismicIndex.adder (quantizedFormat sq IndexKind.seismicSQ.name)).addRows x rows).map
        (seismicSQ sq) id
  | diskSeismic x, rows =>
      ((DiskSeismicIndex.adder (floatFormat F IndexKind.diskSeismic.name)).addRows x rows).map
        diskSeismic id
  | diskSeismicSQ sq x, rows =>
      ((DiskSeismicIndex.adder (quantizedFormat sq IndexKind.diskSeismicSQ.name)).addRows x rows).map
        (diskSeismicSQ sq) id

/-- An index whose count is that of its vectors: every one but a disk index that was mapped from a
file. -/
def Counted : PlainIndex F → Prop
  | diskSeismic x => x.Counted
  | diskSeismicSQ _ x => x.Counted
  | _ => True

section Case

variable {σ V : Type} {R : RowAdder σ F V} {c : σ → PlainIndex F}

omit [Ring F] in
/-- What a type's index becomes when nothing is thrown. -/
theorem ok_case {x : σ} {rows : List (SparseRow F)} {y : PlainIndex F}
    (h : (R.addRows x rows).map c id = (y, .ok ())) :
    ∃ v, R.start x = .ok v ∧ R.addRows x rows
        = (R.put x (v.appendRows (encodeRows R.encode rows)) rows.length, .ok ()) ∧
      y = c (R.put x (v.appendRows (encodeRows R.encode rows)) rows.length) := by
  rcases hr : R.addRows x rows with ⟨x', result⟩
  rw [hr] at h
  cases h
  obtain ⟨v, hv, rfl⟩ := RowAdder.start_of_addRows hr
  exact ⟨v, hv, rfl, rfl⟩

end Case

/-- **Every index type** adds rows. -/
theorem addsRows : AddsRows (add : PlainIndex F → _) CsrArgs.rows CsrArgs.Accepted (fun _ => True)
    addRows where
  reads := by
    intro x a _ ha
    obtain ⟨arrays, h⟩ := ha
    refine ⟨?_, (SparseVectors.addVectors_args id ⟨0, 0, [], [], []⟩ h).2.2.2.1⟩
    cases x with
    | brutal x => exact congrArg (Prod.map brutal id) (x.add_eq ⟨arrays, h⟩)
    | inverted x => exact congrArg (Prod.map inverted id) (x.add_eq ⟨arrays, h⟩)
    | seismic x => exact congrArg (Prod.map seismic id) (x.addOrKeep_eq _ ⟨arrays, h⟩)
    | seismicSQ sq x => exact congrArg (Prod.map (seismicSQ sq) id) (x.addOrKeep_eq _ ⟨arrays, h⟩)
    | diskSeismic x => exact congrArg (Prod.map diskSeismic id) (x.add_eq _ ⟨arrays, h⟩)
    | diskSeismicSQ sq x => exact congrArg (Prod.map (diskSeismicSQ sq) id) (x.add_eq _ ⟨arrays, h⟩)
  parts := by
    intro x front back _
    have key : ∀ {σ V : Type} (R : RowAdder σ F V) (c : σ → PlainIndex F)
        (_ : ∀ x rows, addRows (c x) rows = (R.addRows x rows).map c id) (x : σ),
        addRows (c x) (front ++ back)
          = unlessThrown (addRows (c x) front) fun x => addRows x back := by
      intro σ V R c hc x
      rw [hc, hc, R.addRows_append]
      rcases R.addRows x front with ⟨x', e | ⟨⟨⟩⟩⟩
      · rfl
      · exact (hc x' back).symm
    cases x with
    | brutal x => exact key _ brutal (fun _ _ => rfl) x
    | inverted x => exact key _ inverted (fun _ _ => rfl) x
    | seismic x => exact key _ seismic (fun _ _ => rfl) x
    | seismicSQ sq x => exact key _ (seismicSQ sq) (fun _ _ => rfl) x
    | diskSeismic x => exact key _ diskSeismic (fun _ _ => rfl) x
    | diskSeismicSQ sq x => exact key _ (diskSeismicSQ sq) (fun _ _ => rfl) x
  stays _ _ := trivial

/-- **Every index type** counts its rows, while its count is right. -/
theorem counts : Counts (Counted : PlainIndex F → Prop) numVectors addRows where
  grows := by
    intro x x' front hx h
    cases x with
    | brutal x =>
        obtain ⟨v, hv, -, rfl⟩ := ok_case h
        exact ⟨trivial, numVectors_append_start hv id front⟩
    | inverted x =>
        obtain ⟨v, hv, -, rfl⟩ := ok_case h
        exact ⟨trivial, rfl⟩
    | seismic x =>
        obtain ⟨v, hv, -, rfl⟩ := ok_case h
        exact ⟨trivial, numVectors_append_start hv _ front⟩
    | seismicSQ sq x =>
        obtain ⟨v, hv, -, rfl⟩ := ok_case h
        exact ⟨trivial, numVectors_append_start hv _ front⟩
    | diskSeismic x =>
        obtain ⟨v, hv, -, rfl⟩ := ok_case h
        exact ⟨nofun, congrArg (· + front.length) (DiskSeismicIndex.numVectors_recounted hx)⟩
    | diskSeismicSQ sq x =>
        obtain ⟨v, hv, -, rfl⟩ := ok_case h
        exact ⟨nofun, congrArg (· + front.length) (DiskSeismicIndex.numVectors_recounted hx)⟩
  goesOn := by
    intro x x' front _ h back
    have key : ∀ {σ V : Type} (R : RowAdder σ F V) (c : σ → PlainIndex F)
        (_ : ∀ x rows, addRows (c x) rows = (R.addRows x rows).map c id) (x : σ),
        addRows (c x) front = (x', .ok ()) → ∃ x'', addRows x' back = (x'', .ok ()) := by
      intro σ V R c hc x h
      rw [hc] at h
      obtain ⟨v, hv, hrows, rfl⟩ := ok_case h
      obtain ⟨x'', hnext⟩ := RowAdder.addRows_goesOn hrows back
      exact ⟨c x'', by rw [hc, hnext]; rfl⟩
    cases x with
    | brutal x => exact key _ brutal (fun _ _ => rfl) x h
    | inverted x => exact key _ inverted (fun _ _ => rfl) x h
    | seismic x => exact key _ seismic (fun _ _ => rfl) x h
    | seismicSQ sq x => exact key _ (seismicSQ sq) (fun _ _ => rfl) x h
    | diskSeismic x => exact key _ diskSeismic (fun _ _ => rfl) x h
    | diskSeismicSQ sq x => exact key _ (diskSeismicSQ sq) (fun _ _ => rfl) x h

end PlainIndex

/-! ### Id maps -/

section IdMaps

variable {σ F P : Type}

namespace IdArgs

/-- The documents of an `add_with_ids`: every row with its id. -/
def docs (a : IdArgs F) : List (SparseRow F × ℤ) := a.rows.zip a.ids

theorem map_docs {a : IdArgs F} (ha : a.toCsrArgs.Accepted) :
    a.docs.map Prod.fst = a.rows ∧ a.docs.map Prod.snd = a.ids ∧ a.docs.length = a.n.toNat := by
  obtain ⟨arrays, h⟩ := ha
  have hcount := (SparseVectors.addVectors_args id ⟨0, 0, [], [], []⟩ h).2.2.2.2
  have hlen : a.rows.length = a.ids.length := hcount.trans a.ids_length.symm
  refine ⟨List.map_fst_zip hlen.le, List.map_snd_zip hlen.ge, ?_⟩
  rw [docs, List.length_zip, ← hlen, min_self, hcount]

end IdArgs

namespace IDMapIndex

theorem mapIds_append (m : IDMapIndex σ) (position : ℕ) (ids more : List ℤ) :
    m.mapIds position (ids ++ more)
      = (m.mapIds position ids).mapIds (position + ids.length) more := by
  induction ids generalizing m position with
  | nil => rfl
  | cons id ids ih =>
      rw [List.cons_append, mapIds, mapIds, ih, List.length_cons, Nat.add_right_comm, Nat.add_assoc]

/-- One map does not depend on the other, nor on the delegate. -/
theorem externalToInternal_mapIds {m m' : IDMapIndex σ}
    (h : m.externalToInternal = m'.externalToInternal) (position : ℕ) (ids : List ℤ) :
    (m.mapIds position ids).externalToInternal = (m'.mapIds position ids).externalToInternal := by
  induction ids generalizing m m' position with
  | nil => exact h
  | cons id ids ih => exact ih (congrArg (Function.update · id (some (toIdx position))) h) _

/-- The ids go behind the places that are taken. -/
theorem internalToExternal_mapIds {m : IDMapIndex σ} {taken : ℕ} {places ids : List ℤ}
    (h : m.internalToExternal = resize places (taken + ids.length) 0) :
    (m.mapIds taken ids).internalToExternal = resize places taken 0 ++ ids := by
  have hlen : (resize places taken 0).length = taken := by
    simp only [resize, List.length_append, List.length_take, List.length_replicate]
    omega
  have hsplit : resize places (taken + ids.length) 0
      = resize places taken 0 ++ (resize places (taken + ids.length) 0).drop taken := by
    have htake : (resize places (taken + ids.length) 0).take taken = resize places taken 0 := by
      simp only [resize, List.take_append, List.take_take, List.take_replicate, List.length_take]
      congr 2
      · omega
      · omega
    rw [← htake, List.take_append_drop]
  have hrest : ((resize places (taken + ids.length) 0).drop taken).length = ids.length := by
    simp only [resize, List.length_drop, List.length_append, List.length_take,
      List.length_replicate]
    omega
  have hmapped := mapIds_internalToExternal (h.trans hsplit) hrest
  rwa [hlen] at hmapped

/-- Places are taken, and more of them, in two steps as in one. -/
theorem mapIds_mapIds {m : IDMapIndex σ} (delegate delegate' : σ) (taken : ℕ) (ids more : List ℤ) :
    let first := ({ m with
      delegate
      internalToExternal := resize m.internalToExternal (taken + ids.length) 0 }
        : IDMapIndex σ).mapIds taken ids
    ({ m with
        delegate := delegate'
        internalToExternal := resize m.internalToExternal (taken + (ids ++ more).length) 0 }
          : IDMapIndex σ).mapIds taken (ids ++ more)
      = ({ first with
          delegate := delegate'
          internalToExternal := resize first.internalToExternal (taken + ids.length + more.length) 0 }
            : IDMapIndex σ).mapIds (taken + ids.length) more := by
  intro first
  have hfirst : first.internalToExternal = resize m.internalToExternal taken 0 ++ ids :=
    internalToExternal_mapIds rfl
  have hlen : first.internalToExternal.length = taken + ids.length := by
    rw [hfirst]
    simp only [resize, List.length_append, List.length_take, List.length_replicate]
    omega
  have heq : ∀ a b : IDMapIndex σ, a.delegate = b.delegate →
      a.internalToExternal = b.internalToExternal → a.externalToInternal = b.externalToInternal →
      a = b := by
    rintro ⟨_, _, _⟩ ⟨_, _, _⟩ rfl rfl rfl
    rfl
  apply heq
  · rw [mapIds_delegate, mapIds_delegate]
  · rw [internalToExternal_mapIds rfl, internalToExternal_mapIds rfl, ← List.append_assoc, ← hfirst]
    congr 1
    simp only [resize, ← hlen, List.take_length, Nat.sub_self, List.replicate_zero, List.append_nil]
  · rw [mapIds_append]
    apply externalToInternal_mapIds
    show _ = first.externalToInternal
    apply externalToInternal_mapIds
    rfl

variable (I : Index σ F P) (addRows : σ → List (SparseRow F) → σ × Except Exception Unit)

/-- Add documents with their ids, given how the delegate adds rows. -/
def addDocs (m : IDMapIndex σ) (docs : List (SparseRow F × ℤ)) :
    IDMapIndex σ × Except Exception Unit :=
  match addRows m.delegate (docs.map Prod.fst) with
  | (delegate, .error e) => ({ m with delegate }, .error e)
  | (delegate, .ok ()) =>
      (({ m with
          delegate
          internalToExternal := resize m.internalToExternal
            (I.numVectors m.delegate + docs.length) 0 } : IDMapIndex σ).mapIds
        (I.numVectors m.delegate) (docs.map Prod.snd), .ok ())

variable {I addRows}

/-- **Through an id map.** -/
theorem addsRows {J : σ → Prop}
    (h : AddsRows I.add CsrArgs.rows CsrArgs.Accepted (fun _ => True) addRows)
    (hcounts : Counts J I.numVectors addRows) :
    AddsRows (fun (m : IDMapIndex σ) a => m.addWithIds I a) IdArgs.docs
      (fun a => a.toCsrArgs.Accepted) (fun m => J m.delegate) (addDocs I addRows) where
  reads := by
    intro m a _ ha
    obtain ⟨hrows, hids, hlen⟩ := IdArgs.map_docs ha
    obtain ⟨hadd, hne⟩ := @AddsRows.reads _ _ _ _ _ _ _ _ h m.delegate a.toCsrArgs trivial ha
    constructor
    · unfold addDocs addWithIds
      rw [hrows, hids, hlen]
      generalize addRows m.delegate a.rows = added at hadd ⊢
      subst hadd
      rfl
    · rintro hnil
      rw [hnil] at hrows
      exact hne hrows.symm
  parts := by
    intro m front back hm
    have hparts := @AddsRows.parts _ _ _ _ _ _ _ _ h m.delegate (front.map Prod.fst)
      (back.map Prod.fst) trivial
    unfold addDocs
    rw [List.map_append, hparts]
    rcases hfirst : addRows m.delegate (front.map Prod.fst) with ⟨delegate, e | ⟨⟨⟩⟩⟩
    · rfl
    · obtain ⟨-, hcount⟩ := hcounts.grows hm hfirst
      obtain ⟨delegate', hnext⟩ := hcounts.goesOn hm hfirst (back.map Prod.fst)
      rw [List.length_map] at hcount
      simp only [unlessThrown, mapIds_delegate, hnext, hcount, Prod.mk.injEq, and_true]
      have htwo := @mapIds_mapIds _ m delegate delegate' (I.numVectors m.delegate)
        (front.map Prod.snd) (back.map Prod.snd)
      simp only [← List.map_append, List.length_map] at htwo
      exact htwo
  stays := by
    intro m m' front hm hadd
    unfold addDocs at hadd
    rcases hfirst : addRows m.delegate (front.map Prod.fst) with ⟨delegate, e | ⟨⟨⟩⟩⟩
    · rw [hfirst] at hadd
      cases hadd
    · rw [hfirst] at hadd
      cases hadd
      rw [mapIds_delegate]
      exact (hcounts.grows hm hfirst).1

end IDMapIndex

end IdMaps

/-! ### A corpus in batches -/

section Corpus

variable {F P : Type}

/-- The batches are consecutive parts of a corpus. -/
structure Batches (batches : List (CsrArgs F)) (whole : CsrArgs F) : Prop where
  accepted : ∀ a ∈ batches, a.Accepted
  accepted_whole : whole.Accepted
  rows : whole.rows = (batches.map CsrArgs.rows).flatten

/-- With their ids. -/
structure IdBatches (batches : List (IdArgs F)) (whole : IdArgs F) : Prop where
  accepted : ∀ a ∈ batches, a.toCsrArgs.Accepted
  accepted_whole : whole.toCsrArgs.Accepted
  rows : whole.rows = (batches.map fun a => a.rows).flatten
  ids : whole.ids = (batches.map IdArgs.ids).flatten

theorem IdBatches.docs {batches : List (IdArgs F)} {whole : IdArgs F} (h : IdBatches batches whole) :
    whole.docs = (batches.map IdArgs.docs).flatten := by
  have key : ∀ batches : List (IdArgs F), (∀ a ∈ batches, a.toCsrArgs.Accepted) →
      (batches.map fun a => a.rows).flatten.zip (batches.map IdArgs.ids).flatten
        = (batches.map IdArgs.docs).flatten := by
    intro batches
    induction batches with
    | nil => exact fun _ => rfl
    | cons a batches ih =>
        intro haccepted
        obtain ⟨ha, hrest⟩ := List.forall_mem_cons.mp haccepted
        obtain ⟨arrays, hchecked⟩ := ha
        have hcount := (SparseVectors.addVectors_args id ⟨0, 0, [], [], []⟩ hchecked).2.2.2.2
        rw [List.map_cons, List.map_cons, List.map_cons, List.flatten_cons, List.flatten_cons,
          List.flatten_cons, List.zip_append (hcount.trans a.ids_length.symm), ih hrest]
        rfl
  rw [IdArgs.docs, h.rows, h.ids, key batches h.accepted]

variable [Ring F] [LinearOrder F] [FloatFormat F]

/-- **Adding is independent of batching.**  Whatever index the batches of a corpus are added to, what
comes of it, what is thrown, and what is built of it is as when the corpus is added at once; so it is
through an id map over an index that counts its vectors. -/
theorem adding_batches (env : SpillEnv) (rng : Rng) (sort : StdSort) (entropy : ℕ)
    (search : PlainIndex F → ℤ → List ℕ → List ℕ → List F → ℤ → Option P → Option IDSelector →
      Option (Except Exception (List (List F) × List (List ℤ)))) :
    (∀ (x : PlainIndex F) (batches : List (CsrArgs F)) (whole : CsrArgs F), Batches batches whole →
      addAll PlainIndex.add batches x = x.add whole ∧
        (addAll PlainIndex.add batches x).1.build env rng sort entropy
          = (x.add whole).1.build env rng sort entropy) ∧
    (∀ (m : IDMapIndex (PlainIndex F)) (batches : List (IdArgs F)) (whole : IdArgs F),
      m.delegate.Counted → IdBatches batches whole →
      let I := PlainIndex.asIndex env rng sort entropy search
      addAll (fun m a => m.addWithIds I a) batches m = m.addWithIds I whole ∧
        (addAll (fun m a => m.addWithIds I a) batches m).1.build I
          = (m.addWithIds I whole).1.build I) := by
  constructor
  · intro x batches whole h
    have heq : addAll PlainIndex.add batches x = x.add whole :=
      PlainIndex.addsRows.addAll_eq_add h.accepted h.accepted_whole h.rows trivial
    exact ⟨heq, by rw [heq]⟩
  · intro m batches whole hm h I
    have hadds := IDMapIndex.addsRows (I := I) PlainIndex.addsRows PlainIndex.counts
    have heq := hadds.addAll_eq_add h.accepted h.accepted_whole h.docs hm
    exact ⟨heq, by rw [heq]⟩

theorem PlainIndex.Counted.add {x x' : PlainIndex F} {a : CsrArgs F} (hx : x.Counted)
    (ha : a.Accepted) (h : x.add a = (x', .ok ())) : x'.Counted := by
  obtain ⟨hrows, -⟩ := PlainIndex.addsRows.reads trivial ha
  exact (PlainIndex.counts.grows hx (hrows.symm.trans h)).1

theorem PlainIndex.Counted.build {x : PlainIndex F} (hx : x.Counted) (env : SpillEnv) (rng : Rng)
    (sort : StdSort) (entropy : ℕ) : (x.build env rng sort entropy).1.Counted := by
  cases x with
  | brutal x => trivial
  | inverted x => trivial
  | seismic x => trivial
  | seismicSQ sq x => trivial
  | diskSeismic x =>
      intro hnone
      exact hx ((SeismicIndex.build_vectors env rng sort entropy).1.symm.trans hnone)
  | diskSeismicSQ sq x =>
      intro hnone
      exact hx ((SeismicIndex.build_vectors env rng sort entropy).1.symm.trans hnone)

end Corpus

/-- Two documents of a dimension of 1. -/
def twoDocuments : CsrArgs ℤ where
  n := 2
  indptr := some [0, 1, 2]
  indices := some [0, 0]
  values := some [5, 5]
  promise := by
    rintro p is vs ⟨⟩ ⟨⟩ ⟨⟩ -
    exact ⟨rfl, ⟨rfl, by decide, rfl⟩, rfl⟩

/-- One of them, with an id. -/
def oneDocumentAs (id : ℤ) : IdArgs ℤ := ⟨oneDocument, [id], rfl⟩

/-- They are added one by one to a new index, and with ids to a new id map over one. -/
theorem adding_batches_two_documents :
    let x : PlainIndex ℤ := .seismic
      (SeismicIndex.new 1 SeismicIndex.oneDocumentIndex.clusterParameter)
    let I : Index (PlainIndex ℤ) ℤ Unit :=
      PlainIndex.asIndex SeismicIndex.calmEnv countingRng insertionSort 0
        fun _ _ _ _ _ _ _ _ => none
    addAll PlainIndex.add [oneDocument, oneDocument] x = x.add twoDocuments ∧
    addAll (fun m a => m.addWithIds I a) [oneDocumentAs 70, oneDocumentAs 80]
        (IDMapIndex.new x)
      = (IDMapIndex.new x).addWithIds I ⟨twoDocuments, [70, 80], rfl⟩ := by
  intro x I
  have hone : oneDocument.Accepted := ⟨([0, 1], [0], [5]), rfl⟩
  have htwo : twoDocuments.Accepted := ⟨([0, 1, 2], [0, 0], [5, 5]), rfl⟩
  obtain ⟨hindex, hmap⟩ := adding_batches SeismicIndex.calmEnv countingRng insertionSort 0
    (fun (_ : PlainIndex ℤ) _ _ _ _ _ (_ : Option Unit) _ => none)
  constructor
  · refine (hindex x [oneDocument, oneDocument] twoDocuments ⟨?_, htwo, by decide⟩).1
    simp [hone]
  · refine (hmap (IDMapIndex.new x) [oneDocumentAs 70, oneDocumentAs 80]
      ⟨twoDocuments, [70, 80], rfl⟩ trivial ⟨?_, htwo, by decide, by decide⟩).1
    simp [oneDocumentAs, hone]

end Nsparse
