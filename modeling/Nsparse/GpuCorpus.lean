/-
Nsparse/GpuCorpus.lean

The corpus that stays on the GPU.

`ensureResident` uploads a vector store on first use and afterwards knows it by the
address, the shape and the width.  A call carries the address, what the store there
holds at that moment, and how the device answers; the stores that are destroyed,
created and changed between calls show in nothing else.  What a call returns is the
store it was given unless the key is that of an older upload of other contents
(`ensureResident_right_iff`).
-/
import Nsparse.InlineBlock

namespace Nsparse

/-! ### Stores -/

/-- A vector store with documents, as `add` keeps it. -/
structure HostCorpus where
  vectors : SparseVectors Code
  wellFormed : vectors.WellFormed
  nonempty : vectors.numVectors ≠ 0
  terms : ∀ term ∈ vectors.indices, term < 2 ^ 16
  codes : ∀ code ∈ vectors.values, code.length = vectors.elementSize

namespace HostCorpus

/-- `indptr[n_vectors]`. -/
def nnz (v : HostCorpus) : ℕ := v.vectors.indptr.getD v.vectors.numVectors 0

theorem nnz_eq (v : HostCorpus) : v.nnz = v.vectors.indices.length :=
  v.wellFormed.getD_numVectors

end HostCorpus

/-! ### The device -/

/-- The corpus on the device; a null pointer has no array. -/
structure DeviceCorpus where
  indptr : Option (List ℤ)
  indices : Option (List ℤ)
  values : Option (List UInt8)
  elementSize : ℕ
  nnz : ℕ
  dim : ℕ
  nVectors : ℕ
  owner : Option ℕ
  deriving Repr, DecidableEq

/-- `DeviceCorpus{}`. -/
def DeviceCorpus.null : DeviceCorpus := ⟨none, none, none, 0, 0, 0, 0, none⟩

/-- `matches`. -/
def DeviceCorpus.keyMatches (c : DeviceCorpus) (address nv nz es d : ℕ) : Bool :=
  c.owner = some address && c.nVectors = nv && c.nnz = nz && c.elementSize = es && c.dim = d

/-- How the device answers the requests of an upload: what a new allocation holds, whether a copy is
made, and what `cudaGetErrorString` says. -/
structure UploadAnswers where
  mallocIndptr : Option (List ℤ)
  mallocIndices : Option (List ℤ)
  mallocValues : Option (List UInt8)
  copyIndptr : Bool
  copyIndices : Bool
  copyValues : Bool
  errorString : String
  deriving Repr, DecidableEq

/-- Nothing fails. -/
def UploadAnswers.succeeds (dev : UploadAnswers) : Bool :=
  dev.mallocIndptr.isSome && dev.mallocIndices.isSome && dev.mallocValues.isSome &&
    dev.copyIndptr && dev.copyIndices && dev.copyValues

/-- A call of `ensure_resident`: the address of the store and what it holds. -/
structure ResidentCall where
  address : ℕ
  corpus : HostCorpus
  device : UploadAnswers

/-- What `check_cuda` throws. -/
def cudaError (what errorString : String) : Exception :=
  .runtimeError s!"CUDA error in {what}: {errorString}"

namespace ResidentCall

/-- What the path can represent at all. -/
def rejection (call : ResidentCall) : Option Exception :=
  if 2 ^ 31 - 1 < call.corpus.nnz then
    some (.runtimeError "GPU build path requires nnz <= INT32_MAX; use the CPU path")
  else if call.corpus.vectors.elementSize ≠ U32 ∧ call.corpus.vectors.elementSize ≠ U8 then
    some (.runtimeError "GPU build path supports only float (U32) or 8-bit (U8) codes")
  else none

/-- The upload into a corpus that was freed: what is there afterwards, also when it throws midway. -/
def upload (call : ResidentCall) : DeviceCorpus × Except Exception Unit :=
  let v := call.corpus.vectors
  let indptr32 := v.indptr.map fun n : ℕ => toIdx n
  let indices32 := v.indices.map fun term : ℕ => toIdx term
  let c := DeviceCorpus.null
  let error (what : String) := cudaError what call.device.errorString
  match call.device.mallocIndptr with
  | none => (c, .error (error "cudaMalloc(corpus.indptr)"))
  | some garbage =>
  let c := { c with indptr := some garbage }
  match call.device.mallocIndices with
  | none => (c, .error (error "cudaMalloc(corpus.indices)"))
  | some garbage =>
  let c := { c with indices := some garbage }
  match call.device.mallocValues with
  | none => (c, .error (error "cudaMalloc(corpus.values)"))
  | some garbage =>
  let c := { c with values := some garbage }
  if call.device.copyIndptr = false then (c, .error (error "cudaMemcpy(corpus.indptr)"))
  else
  let c := { c with indptr := some indptr32 }
  if call.device.copyIndices = false then (c, .error (error "cudaMemcpy(corpus.indices)"))
  else
  let c := { c with indices := some indices32 }
  if call.device.copyValues = false then (c, .error (error "cudaMemcpy(corpus.values)"))
  else
  ({ c with
      values := some v.values.flatten
      elementSize := v.elementSize
      nnz := call.corpus.nnz
      dim := v.dimension
      nVectors := v.numVectors
      owner := some call.address }, .ok ())

/-- `ensure_resident`: the corpus afterwards, and what is returned. -/
def ensureResident (c : DeviceCorpus) (call : ResidentCall) :
    DeviceCorpus × Except Exception DeviceCorpus :=
  let v := call.corpus.vectors
  match call.rejection with
  | some e => (c, .error e)
  | none =>
      if c.keyMatches call.address v.numVectors call.corpus.nnz v.elementSize v.dimension then
        (c, .ok c)
      else
        match call.upload with
        | (c, .error e) => (c, .error e)
        | (c, .ok ()) => (c, .ok c)

end ResidentCall

/-- The calls of a process, one after the other: what each returns. -/
def residentRun : DeviceCorpus → List ResidentCall → List (Except Exception DeviceCorpus)
  | _, [] => []
  | c, call :: calls =>
      let (c, result) := call.ensureResident c
      result :: residentRun c calls

/-! ### What is resident -/

/-- The device has this store. -/
structure DeviceCorpus.Shows (c : DeviceCorpus) (v : HostCorpus) : Prop where
  indptr : c.indptr = some (v.vectors.indptr.map fun n : ℕ => (n : ℤ))
  indices : c.indices = some (v.vectors.indices.map fun term : ℕ => (term : ℤ))
  values : c.values = some v.vectors.values.flatten
  elementSize : c.elementSize = v.vectors.elementSize
  nnz : c.nnz = v.nnz
  dim : c.dim = v.vectors.dimension
  nVectors : c.nVectors = v.vectors.numVectors

namespace ResidentCall

/-- The same address, counts, width and dimension. -/
def SameKey (a b : ResidentCall) : Prop :=
  a.address = b.address ∧ a.corpus.vectors.numVectors = b.corpus.vectors.numVectors ∧
    a.corpus.nnz = b.corpus.nnz ∧ a.corpus.vectors.elementSize = b.corpus.vectors.elementSize ∧
    a.corpus.vectors.dimension = b.corpus.vectors.dimension

instance (a b : ResidentCall) : Decidable (a.SameKey b) := by
  unfold SameKey
  infer_instance

/-- The call whose upload is resident after one more call, given the one before. -/
def residentAfter (last : Option ResidentCall) (call : ResidentCall) : Option ResidentCall :=
  if call.rejection ≠ none then last
  else if ∃ l ∈ last, l.SameKey call then last
  else if call.device.succeeds then some call
  else none

/-- No call finds the key of a resident store of other contents. -/
def NoStaleKey : Option ResidentCall → List ResidentCall → Prop
  | _, [] => True
  | last, call :: calls =>
      (call.rejection = none → ∀ l ∈ last, l.SameKey call →
        l.corpus.vectors = call.corpus.vectors) ∧
      NoStaleKey (residentAfter last call) calls

end ResidentCall

/-! ### One call -/

namespace ResidentCall

/-- The corpus that an upload leaves when nothing fails. -/
def shown (call : ResidentCall) : DeviceCorpus where
  indptr := some (call.corpus.vectors.indptr.map fun n : ℕ => toIdx n)
  indices := some (call.corpus.vectors.indices.map fun term : ℕ => toIdx term)
  values := some call.corpus.vectors.values.flatten
  elementSize := call.corpus.vectors.elementSize
  nnz := call.corpus.nnz
  dim := call.corpus.vectors.dimension
  nVectors := call.corpus.vectors.numVectors
  owner := some call.address

theorem upload_of_succeeds {call : ResidentCall} (h : call.device.succeeds = true) :
    call.upload = (call.shown, .ok ()) := by
  obtain ⟨address, corpus, _ | indptr, _ | indices, _ | values, copyIndptr, copyIndices, copyValues,
    errorString⟩ := call
  all_goals simp [UploadAnswers.succeeds] at h
  obtain ⟨⟨rfl, rfl⟩, rfl⟩ := h
  rfl

/-- An upload that throws midway leaves a corpus of no owner. -/
theorem upload_of_fails {call : ResidentCall} (h : call.device.succeeds = false) :
    ∃ c e, call.upload = (c, .error e) ∧ c.owner = none := by
  unfold upload
  rcases hindptr : call.device.mallocIndptr with - | indptr
  · exact ⟨_, _, rfl, rfl⟩
  rcases hindices : call.device.mallocIndices with - | indices
  · exact ⟨_, _, rfl, rfl⟩
  rcases hvalues : call.device.mallocValues with - | values
  · exact ⟨_, _, rfl, rfl⟩
  rcases hcopyIndptr : call.device.copyIndptr with - | -
  · exact ⟨_, _, rfl, rfl⟩
  rcases hcopyIndices : call.device.copyIndices with - | -
  · exact ⟨_, _, rfl, rfl⟩
  rcases hcopyValues : call.device.copyValues with - | -
  · exact ⟨_, _, rfl, rfl⟩
  simp [UploadAnswers.succeeds, hindptr, hindices, hvalues, hcopyIndptr, hcopyIndices,
    hcopyValues] at h

theorem keyMatches_shown {l call : ResidentCall} :
    l.shown.keyMatches call.address call.corpus.vectors.numVectors call.corpus.nnz
      call.corpus.vectors.elementSize call.corpus.vectors.dimension = true ↔ l.SameKey call := by
  simp only [DeviceCorpus.keyMatches, Bool.and_eq_true, decide_eq_true_eq, and_assoc]
  show some l.address = some call.address ∧ _ ↔ _
  rw [Option.some_inj]
  exact Iff.rfl

/-- What is accepted fits: offsets in 32 bits. -/
theorem nnz_of_accepted {call : ResidentCall} (h : call.rejection = none) :
    call.corpus.nnz < 2 ^ 31 ∧
      (call.corpus.vectors.elementSize = U32 ∨ call.corpus.vectors.elementSize = U8) := by
  unfold rejection at h
  split at h
  · cases h
  · rename_i hnnz
    split at h
    · cases h
    · rename_i hwidth
      refine ⟨by omega, ?_⟩
      by_contra hnot
      exact hwidth ⟨fun heq => hnot (.inl heq), fun heq => hnot (.inr heq)⟩

/-- What an upload leaves shows its store. -/
theorem shown_shows {call : ResidentCall} (h : call.rejection = none) :
    call.shown.Shows call.corpus where
  indptr := by
    refine congrArg some (List.map_congr_left fun n hn => ?_)
    have hne : call.corpus.vectors.indptr ≠ [] := List.ne_nil_of_mem hn
    have hle := (call.corpus.wellFormed.offsets hne).le_of_mem hn
    rw [← call.corpus.nnz_eq] at hle
    exact toIdx_of_lt (Int.natCast_nonneg n)
      (by exact_mod_cast hle.trans_lt (nnz_of_accepted h).1)
  indices := by
    refine congrArg some (List.map_congr_left fun term hterm => ?_)
    have hlt := call.corpus.terms term hterm
    exact toIdx_of_lt (Int.natCast_nonneg term) (by omega)
  values := rfl
  elementSize := rfl
  nnz := rfl
  dim := rfl
  nVectors := rfl

end ResidentCall

/-- The device has one store at most. -/
theorem DeviceCorpus.Shows.unique {c : DeviceCorpus} {v w : HostCorpus} (hv : c.Shows v)
    (hw : c.Shows w) : v.vectors = w.vectors := by
  have hcast : Function.Injective (fun n : ℕ => (n : ℤ)) := Nat.cast_injective
  have hindptr := List.map_injective_iff.mpr hcast (Option.some_inj.mp (hv.indptr.symm.trans hw.indptr))
  have hindices :=
    List.map_injective_iff.mpr hcast (Option.some_inj.mp (hv.indices.symm.trans hw.indices))
  have hwidth := hv.elementSize.symm.trans hw.elementSize
  have hflat := Option.some_inj.mp (hv.values.symm.trans hw.values)
  have hcount : v.vectors.values.length = w.vectors.values.length := by
    rw [← v.wellFormed.paired, ← w.wellFormed.paired, hindices]
  have hvalues : v.vectors.values = w.vectors.values := by
    have hv' := SparseVectors.codesOf_flatten_append v.codes []
    have hw' := SparseVectors.codesOf_flatten_append w.codes []
    rw [← hv', ← hw', hflat, hwidth, hcount]
  have hdim := hv.dim.symm.trans hw.dim
  rcases hvv : v.vectors with ⟨_, _, _, _, _⟩
  rcases hww : w.vectors with ⟨_, _, _, _, _⟩
  rw [hvv, hww] at hindptr hindices hwidth hvalues hdim
  simp only at hindptr hindices hwidth hvalues hdim
  rw [hindptr, hindices, hwidth, hvalues, hdim]

/-! ### Runs -/

/-- What the corpus is when the last upload that stays is `last`. -/
def DeviceCorpus.IsOf (c : DeviceCorpus) : Option ResidentCall → Prop
  | none => c.owner = none
  | some l => c = l.shown ∧ l.rejection = none

/-- **One call**: what stays resident is what `residentAfter` says, and what is returned is the store
unless a stale key is found. -/
theorem ensureResident_step {c : DeviceCorpus} {last : Option ResidentCall} (h : c.IsOf last)
    (call : ResidentCall) :
    (call.ensureResident c).1.IsOf (call.residentAfter last) ∧
      ((∀ d, (call.ensureResident c).2 = .ok d → d.Shows call.corpus) ↔
        (call.rejection = none → ∀ l ∈ last, l.SameKey call →
          l.corpus.vectors = call.corpus.vectors)) := by
  unfold ResidentCall.ensureResident ResidentCall.residentAfter
  rcases hreject : call.rejection with - | e
  · -- accepted
    rw [if_neg (fun hne => hne rfl)]
    dsimp only
    by_cases hkey : ∃ l ∈ last, l.SameKey call
    · -- the key is known
      obtain ⟨l, hl, hsame⟩ := hkey
      obtain rfl : last = some l := hl
      obtain ⟨rfl, haccepted⟩ := h
      rw [if_pos (ResidentCall.keyMatches_shown.mpr hsame), if_pos ⟨l, rfl, hsame⟩]
      refine ⟨⟨rfl, haccepted⟩, ⟨?_, ?_⟩⟩
      · rintro hright - l' hl' -
        obtain rfl : l = l' := Option.some_inj.mp hl'
        exact (ResidentCall.shown_shows haccepted).unique (hright _ rfl)
      · rintro hsame_contents d hd
        cases hd
        have hcontents := hsame_contents rfl l rfl hsame
        have hshows := ResidentCall.shown_shows haccepted
        exact ⟨hcontents ▸ hshows.indptr, hcontents ▸ hshows.indices, hcontents ▸ hshows.values,
          hcontents ▸ hshows.elementSize, hsame.2.2.1, hcontents ▸ hshows.dim,
          hcontents ▸ hshows.nVectors⟩
    · -- it is not
      have hmiss : c.keyMatches call.address call.corpus.vectors.numVectors call.corpus.nnz
          call.corpus.vectors.elementSize call.corpus.vectors.dimension = false := by
        cases last with
        | none =>
            have howner : c.owner = none := h
            simp [DeviceCorpus.keyMatches, howner]
        | some l =>
            obtain ⟨rfl, -⟩ := h
            rw [Bool.eq_false_iff, ne_eq, ResidentCall.keyMatches_shown]
            exact fun hsame => hkey ⟨l, rfl, hsame⟩
      have hno : ∀ l ∈ last, l.SameKey call → l.corpus.vectors = call.corpus.vectors :=
        fun l hl hsame => absurd ⟨l, hl, hsame⟩ hkey
      rw [hmiss, if_neg hkey, if_neg Bool.false_ne_true]
      rcases hdevice : call.device.succeeds with - | -
      · obtain ⟨c', e, hupload, howner⟩ := ResidentCall.upload_of_fails hdevice
        rw [hupload, if_neg Bool.false_ne_true]
        exact ⟨howner, fun _ _ => hno, fun _ d hd => by cases hd⟩
      · rw [ResidentCall.upload_of_succeeds hdevice, if_pos rfl]
        refine ⟨⟨rfl, hreject⟩, fun _ _ => hno, fun _ d hd => ?_⟩
        cases hd
        exact ResidentCall.shown_shows hreject
  · -- turned down
    rw [if_pos (Option.some_ne_none e)]
    refine ⟨h, fun _ hnone => ?_, fun _ d hd => ?_⟩
    · cases hnone
    · cases hd

/-- **The resident corpus is the right one exactly when no key is stale**: over every sequence of
calls, whatever happens to the stores in between and whichever requests fail. -/
theorem ensureResident_right_iff (calls : List ResidentCall) :
    (∀ entry ∈ calls.zip (residentRun .null calls), ∀ d, entry.2 = .ok d →
      d.Shows entry.1.corpus) ↔ ResidentCall.NoStaleKey none calls := by
  have key : ∀ (calls : List ResidentCall) (c : DeviceCorpus) (last : Option ResidentCall),
      c.IsOf last →
      ((∀ entry ∈ calls.zip (residentRun c calls), ∀ d, entry.2 = .ok d →
        d.Shows entry.1.corpus) ↔ ResidentCall.NoStaleKey last calls) := by
    intro calls
    induction calls with
    | nil => exact fun _ _ _ => ⟨fun _ => trivial, fun _ _ h => absurd h List.not_mem_nil⟩
    | cons call calls ih =>
        intro c last h
        obtain ⟨hafter, hright⟩ := ensureResident_step h call
        rw [residentRun, List.zip_cons_cons, List.forall_mem_cons, ResidentCall.NoStaleKey]
        exact and_congr hright (ih _ _ hafter)
  exact key calls .null none rfl

/-! ### A store that is replaced -/

/-- A store of one document with one float. -/
def oneFloatStore (code : Code) (h : code.length = U32) : HostCorpus where
  vectors := ⟨U32, 1, [0, 1], [0], [code]⟩
  wellFormed := ⟨rfl, nofun, fun _ => ⟨rfl, by simp, rfl⟩⟩
  nonempty := Nat.one_ne_zero
  terms := by simp
  codes := by
    intro c hc
    rw [List.mem_singleton.mp hc]
    exact h

/-- A device that does all it is asked to. -/
def calmDevice : UploadAnswers := ⟨some [], some [], some [], true, true, true, "no error"⟩

/-- The call for a store at address 4096. -/
def callFor (code : Code) (h : code.length = U32) : ResidentCall :=
  ⟨4096, oneFloatStore code h, calmDevice⟩

/-- A store is uploaded and then replaced by another one of its shape: the second call returns what
the first one held. -/
theorem replaced_store_is_not_uploaded :
    ¬ ∀ entry ∈ [callFor [0, 0, 128, 63] rfl, callFor [0, 0, 0, 64] rfl].zip
        (residentRun .null [callFor [0, 0, 128, 63] rfl, callFor [0, 0, 0, 64] rfl]),
      ∀ d, entry.2 = .ok d → d.Shows entry.1.corpus := by
  intro h
  have hsecond := h (callFor [0, 0, 0, 64] rfl, .ok (callFor [0, 0, 128, 63] rfl).shown)
    (List.mem_of_getElem? (i := 1) rfl) _ rfl
  exact absurd hsecond.values (by decide)

end Nsparse
