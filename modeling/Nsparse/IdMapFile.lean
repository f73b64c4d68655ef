/-
Nsparse/IdMapFile.lean

The file that gives every row of a corpus its id.

It is a count of eight bytes and then so many ids of four, and nothing else: that is what
`read_id_file` takes, and what it takes it reads whole (`parseIdFile_eq_ok_iff`).

`read_csr_and_ids` reads it before the corpus, so a file that is no good leaves the index
as it was; only when the corpus has come in can the count be wrong, and then the rows are
there and the map is not theirs (`readCsrAndIds_cases`).
-/
import Nsparse.IdMapIndex
import Nsparse.IndexFile
import Nsparse.CsrLayout

namespace Nsparse

open Wire CsrLayout

variable {σ F P : Type}

/-! ### Files -/

/-- A path that the caller passed, with what is there. -/
inductive NamedFile
  | null
  | missing (path : String)
  | unreadable (path : String)
  | file (path : String) (bytes : Bytes)
  deriving Repr, DecidableEq

/-- The path as text. -/
def NamedFile.path : NamedFile → String
  | null => ""
  | missing path => path
  | unreadable path => path
  | file path _ => path

/-- `check_if_file_valid`. -/
def checkIfFileValid (what : String) : NamedFile → Except Exception Unit
  | .null => .error (.invalidArgument "file path must not be null")
  | .missing path => .error (.invalidArgument s!"{what} does not exist: {path}")
  | _ => .ok ()

/-- The most ids whose size in bytes is a `size_t`, the count included. -/
def maxIdCount : ℕ := (2 ^ 64 - 1 - longCodec.width) / idxCodec.width

/-- `read_id_file` behind the opening of the file. -/
def parseIdFile (path : String) (bytes : Bytes) : Except Exception (List ℤ) :=
  if bytes.length < longCodec.width then
    .error (.runtimeError s!"truncated id map file: {path}")
  else
    let count := longCodec.dec (bytes.take longCodec.width)
    if count < 0 then .error (.invalidArgument s!"negative id map count in: {path}")
    else
      let mapSize := count.toNat
      if maxIdCount < mapSize then
        .error (.invalidArgument s!"id map count is too large: {path}")
      else
        let expectedBytes := longCodec.width + mapSize * idxCodec.width
        if bytes.length ≠ expectedBytes then
          .error (.invalidArgument (s!"id map file size does not match its count " ++
            s!"(expected {expectedBytes} bytes): {path}"))
        else if 2 ^ 63 ≤ mapSize * idxCodec.width then
          .error (.lengthError "cannot create std::vector larger than max_size()")
        else if bytes.length - longCodec.width < mapSize * idxCodec.width then
          .error (.runtimeError s!"truncated id map file: {path}")
        else .ok (idxCodec.decAll mapSize (bytes.drop longCodec.width))

/-- `read_id_file`. -/
def readIdFile (ids : NamedFile) : Except Exception (List ℤ) :=
  match checkIfFileValid "id map file" ids with
  | .error e => .error e
  | .ok () =>
      match ids with
      | .file path bytes => parseIdFile path bytes
      | other =>
          let path := other.path
          .error (.runtimeError s!"cannot open id map file: {path}")

/-! ### What the reader takes -/

/-- The file of some ids. -/
def idFile (ids : List ℤ) : Bytes := longCodec.enc ids.length ++ idxCodec.encAll ids

/-- Ids that a file can hold: each in four bytes, and all of them in memory. -/
structure StorableIds (ids : List ℤ) : Prop where
  fits : ∀ id ∈ ids, idxCodec.Fits id
  size : ids.length * idxCodec.width < 2 ^ 63

theorem length_idFile (ids : List ℤ) :
    (idFile ids).length = longCodec.width + ids.length * idxCodec.width := by
  rw [idFile, List.length_append, longCodec.length_enc, idxCodec.length_encAll]

/-- A file comes back. -/
theorem parseIdFile_idFile (path : String) {ids : List ℤ} (h : StorableIds ids) :
    parseIdFile path (idFile ids) = .ok ids := by
  have hlen := length_idFile ids
  have hsize : ids.length * 4 < 2 ^ 63 := h.size
  have hcount : longCodec.dec ((idFile ids).take longCodec.width) = ids.length := by
    rw [idFile, List.take_left' (longCodec.length_enc _)]
    refine Codec.fits_int ?_ ?_
    · omega
    · show 2 * (ids.length : ℤ) < (256 ^ 8 : ℕ)
      norm_num
      omega
  have hfew : ids.length ≤ maxIdCount := by
    show ids.length ≤ (2 ^ 64 - 1 - 8) / 4
    omega
  have hids : idxCodec.decAll ids.length ((idFile ids).drop longCodec.width) = ids := by
    rw [idFile, List.drop_left' (longCodec.length_enc _)]
    have hall := idxCodec.decAll_encAll h.fits []
    rwa [List.append_nil] at hall
  unfold parseIdFile
  dsimp only
  rw [hcount, Int.toNat_natCast, if_neg (by omega), if_neg (by omega), if_neg (not_lt.mpr hfew),
    if_neg (fun hne => hne hlen), if_neg (not_le.mpr h.size), if_neg (by omega), hids]

/-- **What is taken** is the file of the ids that are read, and nothing else is. -/
theorem parseIdFile_eq_ok_iff (path : String) {bytes : Bytes} {ids : List ℤ} :
    parseIdFile path bytes = .ok ids ↔ StorableIds ids ∧ bytes = idFile ids := by
  constructor
  · intro h
    unfold parseIdFile at h
    dsimp only at h
    split at h
    · cases h
    rename_i hlong
    split at h
    · cases h
    rename_i hpos
    split at h
    · cases h
    split at h
    · cases h
    rename_i hsize
    split at h
    · cases h
    rename_i hmemory
    split at h
    · cases h
    rw [not_not] at hsize
    set count := longCodec.dec (bytes.take longCodec.width)
    obtain rfl := Except.ok.inj h
    have hlen : (idxCodec.decAll count.toNat (bytes.drop longCodec.width)).length = count.toNat :=
      idxCodec.length_decAll _ _
    have hhead : (bytes.take longCodec.width).length = longCodec.width :=
      List.length_take_of_le (not_lt.mp hlong)
    have hrest : (bytes.drop longCodec.width).length = count.toNat * idxCodec.width := by
      rw [List.length_drop, hsize, Nat.add_sub_cancel_left]
    refine ⟨⟨fun id hid => ?_, hlen.symm ▸ not_le.mp hmemory⟩, ?_⟩
    · obtain ⟨b, hb, rfl⟩ := Codec.mem_decAll _ hid
      exact Codec.fits_int_dec hb
    · have hcountBytes : longCodec.enc count = bytes.take longCodec.width :=
        Codec.exact_int 8 _ hhead
      have hidBytes : idxCodec.encAll (idxCodec.decAll count.toNat (bytes.drop longCodec.width))
          = bytes.drop longCodec.width := (Codec.exact_int 4).encAll_decAll hrest
      rw [idFile, hlen, Int.toNat_of_nonneg (not_lt.mp hpos), hcountBytes, hidBytes,
        List.take_append_drop]
  · rintro ⟨hstorable, rfl⟩
    exact parseIdFile_idFile path hstorable

/-- The reader opens the file first. -/
theorem readIdFile_eq_ok_iff {ids : NamedFile} {internalToExternal : List ℤ} :
    readIdFile ids = .ok internalToExternal ↔
      StorableIds internalToExternal ∧ ∃ path, ids = .file path (idFile internalToExternal) := by
  cases ids with
  | null => exact iff_of_false nofun fun ⟨_, _, h⟩ => nomatch h
  | missing path => exact iff_of_false nofun fun ⟨_, _, h⟩ => nomatch h
  | unreadable path => exact iff_of_false nofun fun ⟨_, _, h⟩ => nomatch h
  | file path bytes =>
      show parseIdFile path bytes = _ ↔ _
      rw [parseIdFile_eq_ok_iff]
      constructor
      · rintro ⟨hstorable, rfl⟩
        exact ⟨hstorable, path, rfl⟩
      · rintro ⟨hstorable, path', heq⟩
        obtain ⟨-, rfl⟩ := NamedFile.file.inj heq
        exact ⟨hstorable, rfl⟩

/-! ### Reading a corpus with its ids -/

/-- An `Index` with its `read_csr`, which is virtual too. -/
structure FileIndex (σ F P : Type) extends Index σ F P where
  readCsr : σ → NamedFile → Residency → σ × Except Exception Unit

namespace IDMapIndex

/-- `set_id_map`. -/
def setIdMap (m : IDMapIndex σ) (internalToExternal : List ℤ) : IDMapIndex σ :=
  { m with
    internalToExternal
    externalToInternal := invertIdMap internalToExternal }

/-- `read_csr_and_ids`. -/
def readCsrAndIds (I : FileIndex σ F P) (m : IDMapIndex σ) (csr ids : NamedFile)
    (residency : Residency) : IDMapIndex σ × Except Exception Unit :=
  match checkIfFileValid "csr file" csr with
  | .error e => (m, .error e)
  | .ok () =>
      match readIdFile ids with
      | .error e => (m, .error e)
      | .ok internalToExternal =>
          match I.readCsr m.delegate csr residency with
          | (delegate, .error e) => ({ m with delegate }, .error e)
          | (delegate, .ok ()) =>
              let m := { m with delegate }
              let count := internalToExternal.length
              let delegateSize := I.numVectors delegate
              if count ≠ delegateSize then
                let path := ids.path
                (m, .error (.invalidArgument (s!"id map count ({count}) does not match the CSR " ++
                  s!"vector count ({delegateSize}): {path}")))
              else (m.setIdMap internalToExternal, .ok ())

/-- What became of a corpus and its ids. -/
inductive ReadOutcome (I : FileIndex σ F P) (m : IDMapIndex σ) (csr ids : NamedFile)
    (residency : Residency) : IDMapIndex σ × Except Exception Unit → Prop
  /-- A file was no good. -/
  | refused {e : Exception} : (∀ internalToExternal, readIdFile ids ≠ .ok internalToExternal) ∨
      checkIfFileValid "csr file" csr ≠ .ok () → ReadOutcome I m csr ids residency (m, .error e)
  /-- The delegate threw, or it has another number of rows. -/
  | ingested {delegate : σ} {e : Exception} {internalToExternal : List ℤ} :
      readIdFile ids = .ok internalToExternal →
      (I.readCsr m.delegate csr residency).1 = delegate →
      ((I.readCsr m.delegate csr residency).2 = .ok () →
        internalToExternal.length ≠ I.numVectors delegate) →
      ReadOutcome I m csr ids residency ({ m with delegate }, .error e)
  /-- Every row has its id. -/
  | mapped {delegate : σ} {internalToExternal : List ℤ} :
      readIdFile ids = .ok internalToExternal →
      I.readCsr m.delegate csr residency = (delegate, .ok ()) →
      internalToExternal.length = I.numVectors delegate →
      ReadOutcome I m csr ids residency
        (({ m with delegate } : IDMapIndex σ).setIdMap internalToExternal, .ok ())

/-- **One of the three**, and never anything between them. -/
theorem readCsrAndIds_cases (I : FileIndex σ F P) (m : IDMapIndex σ) (csr ids : NamedFile)
    (residency : Residency) :
    ReadOutcome I m csr ids residency (m.readCsrAndIds I csr ids residency) := by
  unfold readCsrAndIds
  rcases hcsr : checkIfFileValid "csr file" csr with e | ⟨⟨⟩⟩
  · exact .refused (Or.inr (by rw [hcsr]; nofun))
  rcases hids : readIdFile ids with e | internalToExternal
  · exact .refused (Or.inl fun _ h => nomatch hids.symm.trans h)
  rcases hread : I.readCsr m.delegate csr residency with ⟨delegate, e | ⟨⟨⟩⟩⟩
  · exact .ingested hids (congrArg Prod.fst hread) fun hok =>
      nomatch (congrArg Prod.snd hread).symm.trans hok
  dsimp only
  split
  · rename_i hcount
    exact .ingested hids (congrArg Prod.fst hread) fun _ => hcount
  · rename_i hcount
    exact .mapped hids hread (not_not.mp hcount)

/-- **A corpus comes in with its ids** exactly when its file is there and the delegate takes it, and
the other file is that of so many ids as the delegate has rows then; it sets the map to them.
Otherwise the maps stay as they were, and so does the delegate if that file is no file of ids. -/
theorem readCsrAndIds_spec (I : FileIndex σ F P) (m : IDMapIndex σ) (csr ids : NamedFile)
    (residency : Residency) :
    (∀ m', m.readCsrAndIds I csr ids residency = (m', .ok ()) ↔
      checkIfFileValid "csr file" csr = .ok () ∧
        ∃ path internalToExternal delegate, ids = .file path (idFile internalToExternal) ∧
          StorableIds internalToExternal ∧
          I.readCsr m.delegate csr residency = (delegate, .ok ()) ∧
          internalToExternal.length = I.numVectors delegate ∧
          m' = ⟨delegate, internalToExternal, invertIdMap internalToExternal⟩) ∧
    ∀ m' e, m.readCsrAndIds I csr ids residency = (m', .error e) →
      m'.internalToExternal = m.internalToExternal ∧
        m'.externalToInternal = m.externalToInternal ∧
        ((∀ path internalToExternal, StorableIds internalToExternal →
          ids ≠ .file path (idFile internalToExternal)) → m' = m) := by
  refine ⟨fun m' => ⟨fun h => ?_, ?_⟩, fun m' e h => ?_⟩
  · unfold readCsrAndIds at h
    rcases hcsr : checkIfFileValid "csr file" csr with e | ⟨⟨⟩⟩
    · rw [hcsr] at h
      cases h
    rcases hids : readIdFile ids with e | internalToExternal
    · rw [hcsr, hids] at h
      cases h
    rcases hread : I.readCsr m.delegate csr residency with ⟨delegate, e | ⟨⟨⟩⟩⟩
    · rw [hcsr, hids] at h
      simp only [hread] at h
      cases h
    rw [hcsr, hids] at h
    simp only [hread] at h
    obtain ⟨hstorable, path, hfile⟩ := readIdFile_eq_ok_iff.mp hids
    split at h
    · cases h
    · rename_i hcount
      exact ⟨rfl, path, internalToExternal, delegate, hfile, hstorable, rfl, not_not.mp hcount,
        (congrArg Prod.fst h).symm⟩
  · rintro ⟨hcsr, path, internalToExternal, delegate, rfl, hstorable, hread, hcount, rfl⟩
    have hids := readIdFile_eq_ok_iff.mpr ⟨hstorable, path, rfl⟩
    unfold readCsrAndIds
    simp only [hcsr, hids, hread]
    rw [if_neg (not_not.mpr hcount)]
    rfl
  · have houtcome := m.readCsrAndIds_cases I csr ids residency
    rw [h] at houtcome
    cases houtcome with
    | refused _ => exact ⟨rfl, rfl, fun _ => rfl⟩
    | ingested hids _ _ =>
        obtain ⟨hstorable, path, hfile⟩ := readIdFile_eq_ok_iff.mp hids
        exact ⟨rfl, rfl, fun hnone => absurd hfile (hnone path _ hstorable)⟩

end IDMapIndex

end Nsparse
