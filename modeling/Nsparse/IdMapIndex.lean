/-
Nsparse/IdMapIndex.lean

`IDMapIndex`: an index over another index that speaks in the caller's ids.

The wrapped index is any `Index`.  `add_with_ids` extends the two maps along with the delegate.  `search`
hands the delegate a selector of its own that translates ids, and translates the
labels that come back.

That selector lives on the heap for the time of the call, so selectors are objects
in a store: a pointer is an address, a live object is an entry, and looking up an
address without an entry is consulting an object whose lifetime has ended.
-/
import Nsparse.Index
import Nsparse.Std

namespace Nsparse

variable {σ F P : Type}

/-! ### Selector objects -/

/-- The live selector objects by address. -/
abbrev SelectorStore := List (ℕ × IDSelector)

/-- `operator new`: the address of a new selector is not that of a live one. -/
structure Allocator where
  address : SelectorStore → ℕ
  fresh : ∀ store : SelectorStore, store.lookup (address store) = none

/-- The parameters of a search: the selector's address, and the fields of the index's own
parameter class. -/
structure SearchParameters (P : Type) where
  idSelector : Option ℕ
  fields : P
  deriving Repr, DecidableEq

/-- `IDSelectorWithIDMap` and `IDSelectorEnumerableWithIDMap`: a selector over external ids
as one over internal ids. -/
def IDSelector.withIdMap (idMap : List ℤ) (externalIdMap : ℤ → Option ℤ) : IDSelector → IDSelector
  | .plain isMember => .plain fun id => isMember (idMap.getD id.toNat 0)
  | .enumerable isMember ids size =>
      .enumerable (fun id => isMember (idMap.getD id.toNat 0)) (ids.filterMap externalIdMap) size

/-! ### The id map -/

/-- The arguments of `add_with_ids`: those of `add`, and an id for every row. -/
structure IdArgs (V : Type) extends CsrArgs V where
  ids : List ℤ
  ids_length : ids.length = n.toNat

/-- The delegate and the two maps. -/
structure IDMapIndex (σ : Type) where
  delegate : σ
  internalToExternal : List ℤ
  externalToInternal : ℤ → Option ℤ

namespace IDMapIndex

def new (delegate : σ) : IDMapIndex σ := ⟨delegate, [], fun _ => none⟩

/-- `num_vectors` asks the delegate. -/
def numVectors (I : Index σ F P) (m : IDMapIndex σ) : ℕ := I.numVectors m.delegate

/-- `add` passes its arguments on and leaves the maps alone. -/
def add (I : Index σ F P) (m : IDMapIndex σ) (a : CsrArgs F) :
    IDMapIndex σ × Except Exception Unit :=
  let (delegate, result) := I.add m.delegate a
  ({ m with delegate }, result)

def build (I : Index σ F P) (m : IDMapIndex σ) : IDMapIndex σ × Except Exception Unit :=
  let (delegate, result) := I.build m.delegate
  ({ m with delegate }, result)

/-- One turn of the loop of `add_with_ids`: the document at `position` has the id `id`. -/
def mapId (m : IDMapIndex σ) (position : ℕ) (id : ℤ) : IDMapIndex σ :=
  { m with
    internalToExternal := m.internalToExternal.set position id
    externalToInternal := Function.update m.externalToInternal id (some (toIdx position)) }

/-- The loop of `add_with_ids`, from position `position` on. -/
def mapIds (m : IDMapIndex σ) (position : ℕ) : List ℤ → IDMapIndex σ
  | [] => m
  | id :: ids => (m.mapId position id).mapIds (position + 1) ids

/-- Add documents and record their ids. -/
def addWithIds (I : Index σ F P) (m : IDMapIndex σ) (a : IdArgs F) :
    IDMapIndex σ × Except Exception Unit :=
  let oldSize := I.numVectors m.delegate
  match I.add m.delegate a.toCsrArgs with
  | (delegate, .error e) => ({ m with delegate }, .error e)
  | (delegate, .ok ()) =>
      let m := { m with
        delegate
        internalToExternal := resize m.internalToExternal (oldSize + a.n.toNat) 0 }
      (m.mapIds oldSize a.ids, .ok ())

/-- `i * k + j`, all of them `int`s. -/
def labelSlot (k : ℤ) (i j : ℕ) : Option ℤ := do
  let row ← intResult (i * k)
  intResult (row + j)

/-- Keep a negative label and look up another one. -/
def externalId (m : IDMapIndex σ) (label : ℤ) : Option ℤ :=
  if label < 0 then some label else m.internalToExternal[label.toNat]?

/-- One turn of the loop over the labels that come back. -/
def translateLabel (m : IDMapIndex σ) (k : ℤ) (i : ℕ) (labels : List ℤ) (j : ℕ) :
    Option (List ℤ) := do
  let slot ← labelSlot k i j
  let label ← labels[slot.toNat]?
  let id ← m.externalId label
  some (labels.set slot.toNat id)

/-- The loop over the `n * k` labels that come back; `none` is undefined behaviour. -/
def translateLabels (m : IDMapIndex σ) (n k : ℤ) (labels : List ℤ) : Option (List ℤ) :=
  (List.range n.toNat).foldlM
    (fun labels i => (List.range k.toNat).foldlM (m.translateLabel k i) labels) labels

/-- What the caller sees of a search of the delegate. -/
def translate (m : IDMapIndex σ) (a : SearchArgs F) : SearchOutcome F → SearchOutcome F
  | .returned distances labels =>
      match m.translateLabels a.n a.k labels with
      | none => .outOfRange
      | some labels => .returned distances labels
  | outcome => outcome

/-- `search`: the outcome, and the caller's parameters and the live selectors afterwards.  With
a selector, a wrapper is allocated, the parameters are made to point to it, and it is freed on
every way out, also when the delegate throws. -/
def search (I : Index σ F P) (m : IDMapIndex σ) (allocator : Allocator) (store : SelectorStore)
    (params : Option (SearchParameters P)) (a : SearchArgs F) :
    SearchOutcome F × Option (SearchParameters P) × SelectorStore :=
  match params with
  | none => (m.translate a (I.publicSearch m.delegate a none none), none, store)
  | some p =>
      match p.idSelector with
      | none => (m.translate a (I.publicSearch m.delegate a (some p.fields) none), some p, store)
      | some address =>
          match store.lookup address with
          | none => (.deadSelector, some p, store)
          | some idSelector =>
              let wrapper := allocator.address store
              let store := (wrapper,
                idSelector.withIdMap m.internalToExternal m.externalToInternal) :: store
              let p := { p with idSelector := some wrapper }
              (m.translate a
                  (I.publicSearch m.delegate a (some p.fields) (store.lookup wrapper)),
                some p, store.filter fun object => object.1 ≠ wrapper)

/-! ### Histories -/

/-- A public call on an id map whose documents all come with ids. -/
inductive MappedCall (F : Type)
  | addWithIds (a : IdArgs F)
  | build
  | search (a : SearchArgs F) (idSelector : Option IDSelector)

/-- The id map after a call, and whether the call threw; a search only reads it. -/
def step (I : Index σ F P) (m : IDMapIndex σ) :
    MappedCall F → IDMapIndex σ × Except Exception Unit
  | .addWithIds a => m.addWithIds I a
  | .build => m.build I
  | .search .. => (m, .ok ())

/-- The id map after a history of calls. -/
def run (I : Index σ F P) (m : IDMapIndex σ) (calls : List (MappedCall F)) : IDMapIndex σ :=
  calls.foldl (fun m c => (m.step I c).1) m

/-- The ids a call gives: those of an `add_with_ids` that returns normally. -/
def givenBy (I : Index σ F P) (m : IDMapIndex σ) : MappedCall F → List ℤ
  | .addWithIds a => if (m.addWithIds I a).2 = .ok () then a.ids else []
  | _ => []

/-- The ids a history gives, in order. -/
def given (I : Index σ F P) (m : IDMapIndex σ) : List (MappedCall F) → List ℤ
  | [] => []
  | c :: cs => m.givenBy I c ++ given I (m.step I c).1 cs

/-- The loop of `add_with_ids` fills the places that the resize made. -/
theorem mapIds_internalToExternal {m : IDMapIndex σ} {front back ids : List ℤ}
    (hm : m.internalToExternal = front ++ back) (hlen : back.length = ids.length) :
    (m.mapIds front.length ids).internalToExternal = front ++ ids := by
  induction ids generalizing m front back with
  | nil =>
      obtain rfl := List.length_eq_zero_iff.mp hlen
      exact hm
  | cons id ids ih =>
      obtain ⟨x, back, rfl⟩ := List.exists_cons_of_length_eq_add_one hlen
      have hset : (m.mapId front.length id).internalToExternal = (front ++ [id]) ++ back := by
        simp [mapId, hm]
      have := ih hset (by simpa using hlen)
      simpa [mapIds] using this

@[simp] theorem mapIds_delegate (m : IDMapIndex σ) (position : ℕ) (ids : List ℤ) :
    (m.mapIds position ids).delegate = m.delegate := by
  induction ids generalizing m position with
  | nil => rfl
  | cons id ids ih => exact ih _ _

/-- An `add_with_ids` throws with its delegate and then leaves the maps alone. -/
theorem addWithIds_of_error {I : Index σ F P} {m : IDMapIndex σ} {a : IdArgs F} {delegate : σ}
    {e : Exception} (h : I.add m.delegate a.toCsrArgs = (delegate, .error e)) :
    m.addWithIds I a = ({ m with delegate }, .error e) := by
  simp only [addWithIds, h]

/-- An `add_with_ids` whose map is as long as the delegate extends it by its ids. -/
theorem addWithIds_of_ok {I : Index σ F P} {m : IDMapIndex σ} {a : IdArgs F} {delegate : σ}
    (h : I.add m.delegate a.toCsrArgs = (delegate, .ok ()))
    (hlen : m.internalToExternal.length = I.numVectors m.delegate) :
    (m.addWithIds I a).2 = .ok () ∧ (m.addWithIds I a).1.delegate = delegate ∧
      (m.addWithIds I a).1.internalToExternal = m.internalToExternal ++ a.ids := by
  simp only [addWithIds, h, mapIds_delegate, ← hlen, true_and]
  have hresize : resize m.internalToExternal (m.internalToExternal.length + a.n.toNat) 0
      = m.internalToExternal ++ List.replicate a.n.toNat 0 := by simp [resize]
  exact mapIds_internalToExternal hresize (by simp [a.ids_length])

end IDMapIndex

end Nsparse
