/-
Nsparse/IdMapHistory.lean

The two maps of an `IDMapIndex` over a whole history of calls.

Five calls reach an id map.  `add` and `build` go straight to the delegate, and so does
most of a `read_csr_and_ids` that throws: after them the delegate has rows that no map
knows of.  `rowIds` keeps the id that the caller gave to every row, or that he gave none,
beside the index; what the maps hold is a function of that list (`Tracks`), after every
call and so after every history (`run_tracks`).

Rows without an id are a gap in the map, which the next `add_with_ids` fills with zeros,
and of two rows with one id the map from the caller's ids forgets the first.  Without
gaps and with different ids the maps are what they should be, and only then
(`run_agrees_iff`).
-/
import Nsparse.AddBatches
import Nsparse.IdMapFile
import Nsparse.LabelTranslation
import Nsparse.Selection
import Nsparse.WholeFile

namespace Nsparse

variable {σ F P : Type}

/-! ### Rows and their ids -/

/-- The map from ids to rows: of several rows with an id the last one counts, and a row without an id
does not. -/
def invertRows (rows : List (Option ℤ)) : ℤ → Option ℤ :=
  rows.zipIdx.foldl
    (fun map entry => entry.1.elim map fun id => Function.update map id (some (toIdx entry.2)))
    fun _ => none

theorem invertRows_concat (rows : List (Option ℤ)) (row : Option ℤ) :
    invertRows (rows ++ [row]) = row.elim (invertRows rows) fun id =>
      Function.update (invertRows rows) id (some (toIdx rows.length)) := by
  rw [invertRows, List.zipIdx_append, List.foldl_append, Nat.zero_add]
  rfl

/-- Rows without ids are not in it. -/
theorem invertRows_append_none (rows : List (Option ℤ)) (n : ℕ) :
    invertRows (rows ++ List.replicate n none) = invertRows rows := by
  induction n with
  | zero => rw [List.replicate_zero, List.append_nil]
  | succ n ih =>
      rw [List.replicate_succ', ← List.append_assoc, invertRows_concat, ih]
      rfl

/-- Rows with ids are added one by one. -/
theorem invertRows_append_some (rows : List (Option ℤ)) (ids : List ℤ) :
    invertRows (rows ++ ids.map some) = (ids.zipIdx rows.length).foldl
      (fun (map : ℤ → Option ℤ) (entry : ℤ × ℕ) =>
        Function.update map entry.1 (some (toIdx entry.2))) (invertRows rows) := by
  induction ids generalizing rows with
  | nil => rw [List.map_nil, List.append_nil]; rfl
  | cons id ids ih =>
      rw [List.map_cons, List.append_cons, ih, invertRows_concat, List.length_append]
      rfl

/-- **What it finds** is the last row with the id. -/
theorem invertRows_eq_some_iff {rows : List (Option ℤ)} {id d : ℤ} :
    invertRows rows id = some d ↔
      ∃ i : ℕ, rows[i]? = some (some id) ∧ d = toIdx i ∧
        ∀ j : ℕ, rows[j]? = some (some id) → j ≤ i := by
  induction rows using List.reverseRecOn with
  | nil => exact iff_of_false nofun fun ⟨_, h, _⟩ => nomatch h
  | append_singleton rows row ih =>
      rw [invertRows_concat]
      -- what the row before the last finds
      have hfront : ∀ {j : ℕ}, j ≠ rows.length →
          ((rows ++ [row])[j]? = some (some id) ↔ rows[j]? = some (some id)) := by
        intro j hj
        rcases lt_or_gt_of_ne hj with hlt | hgt
        · rw [List.getElem?_append_left hlt]
        · rw [List.getElem?_eq_none (by rw [List.length_append]; exact hgt),
            List.getElem?_eq_none hgt.le]
      have hlast : (rows ++ [row])[rows.length]? = some row := List.getElem?_concat_length
      by_cases hrow : row = some id
      · subst hrow
        show Function.update (invertRows rows) id (some (toIdx rows.length)) id = some d ↔ _
        rw [Function.update_self]
        constructor
        · rintro ⟨⟩
          refine ⟨rows.length, hlast, rfl, fun j hj => ?_⟩
          have hlt := (List.getElem?_eq_some_iff.mp hj).1
          rw [List.length_append, List.length_singleton] at hlt
          omega
        · rintro ⟨i, hi, rfl, hmax⟩
          have hlt := (List.getElem?_eq_some_iff.mp hi).1
          rw [List.length_append, List.length_singleton] at hlt
          obtain rfl : i = rows.length := le_antisymm (by omega) (hmax _ hlast)
          rfl
      · have hkeeps : (row.elim (invertRows rows) fun id =>
            Function.update (invertRows rows) id (some (toIdx rows.length))) id
              = invertRows rows id := by
          cases row with
          | none => rfl
          | some id' => exact Function.update_of_ne (fun h => hrow (congrArg some h.symm)) _ _
        have hnot : ∀ j : ℕ, (rows ++ [row])[j]? = some (some id) ↔ rows[j]? = some (some id) := by
          intro j
          by_cases hj : j = rows.length
          · subst hj
            rw [hlast, List.getElem?_eq_none le_rfl]
            exact iff_of_false (fun h => hrow (Option.some.inj h)) nofun
          · exact hfront hj
        rw [hkeeps, ih]
        simp only [hnot]

/-- Rows that all have ids. -/
theorem exists_ids {rows : List (Option ℤ)} (h : ∀ row ∈ rows, row.isSome = true) :
    ∃ ids : List ℤ, rows = ids.map some := by
  induction rows with
  | nil => exact ⟨[], rfl⟩
  | cons row rows ih =>
      obtain ⟨hrow, hrest⟩ := List.forall_mem_cons.mp h
      obtain ⟨id, rfl⟩ := Option.isSome_iff_exists.mp hrow
      obtain ⟨ids, rfl⟩ := ih hrest
      exact ⟨id :: ids, rfl⟩

/-- Every row has an id, and no two have the same. -/
def Identified (rows : List (Option ℤ)) : Prop := ∃ ids : List ℤ, ids.Nodup ∧ rows = ids.map some

namespace IDMapIndex

/-! ### Calls -/

/-- What can be called on an id map. -/
inductive MapCall (σ F : Type)
  | add (args : CsrArgs F)
  | addWithIds (args : IdArgs F)
  | build
  | readCsrAndIds (csr ids : NamedFile) (residency : Residency)
  /-- `read_index`, of a file with this map and this delegate. -/
  | readIndex (internalToExternal : List ℤ) (delegate : σ)

/-- A call, and what it threw. -/
def call (I : FileIndex σ F P) (m : IDMapIndex σ) :
    MapCall σ F → IDMapIndex σ × Except Exception Unit
  | .add args => m.add I.toIndex args
  | .addWithIds args => m.addWithIds I.toIndex args
  | .build => m.build I.toIndex
  | .readCsrAndIds csr ids residency => m.readCsrAndIds I csr ids residency
  | .readIndex internalToExternal delegate =>
      (({ m with delegate } : IDMapIndex σ).setIdMap internalToExternal, .ok ())

/-- The id map after a history of calls. -/
def after (I : FileIndex σ F P) (m : IDMapIndex σ) (calls : List (MapCall σ F)) : IDMapIndex σ :=
  calls.foldl (fun m c => (m.call I c).1) m

/-- The ids of the rows, as far as the caller has given them when the call is over. -/
def knownIds (I : FileIndex σ F P) (m : IDMapIndex σ) (rows : List (Option ℤ))
    (c : MapCall σ F) : List (Option ℤ) :=
  match (m.call I c).2 with
  | .error _ => rows
  | .ok () =>
      match c with
      | .add _ => rows
      | .addWithIds args => rows ++ args.ids.map some
      | .build => rows
      | .readCsrAndIds _ ids _ => ((readIdFile ids).toOption.getD []).map some
      | .readIndex internalToExternal _ => internalToExternal.map some

/-- All rows of a delegate of `count` rows: those that came without an id have none. -/
def withRows (count : ℕ) (known : List (Option ℤ)) : List (Option ℤ) :=
  known ++ List.replicate (count - known.length) none

/-- **The id of every row** after a history, when `rows` were there before. -/
def rowIds (I : FileIndex σ F P) :
    IDMapIndex σ → List (Option ℤ) → List (MapCall σ F) → List (Option ℤ)
  | _, rows, [] => rows
  | m, rows, c :: cs =>
      let m' := (m.call I c).1
      rowIds I m' (withRows (I.numVectors m'.delegate) (knownIds I m rows c)) cs

/-- The delegate never has fewer rows than the caller knows of. -/
def Steady (I : FileIndex σ F P) :
    IDMapIndex σ → List (Option ℤ) → List (MapCall σ F) → Prop
  | _, _, [] => True
  | m, rows, c :: cs =>
      let m' := (m.call I c).1
      (knownIds I m rows c).length ≤ I.numVectors m'.delegate ∧
        Steady I m' (withRows (I.numVectors m'.delegate) (knownIds I m rows c)) cs

/-! ### One call -/

/-- What the maps are, given the id of every row. -/
structure Tracks (I : FileIndex σ F P) (m : IDMapIndex σ) (rows : List (Option ℤ)) : Prop where
  count : rows.length = I.numVectors m.delegate
  mapped : m.internalToExternal
    = (rows.take m.internalToExternal.length).map fun row => row.getD 0
  unmapped : ∀ row ∈ rows.drop m.internalToExternal.length, row = none
  inverse : m.externalToInternal = invertRows rows

variable {I : FileIndex σ F P} {m : IDMapIndex σ} {rows : List (Option ℤ)}

/-- What a call does: it leaves the maps alone, or extends them, or sets them. -/
inductive CallOutcome (I : FileIndex σ F P) (m : IDMapIndex σ) (rows : List (Option ℤ))
    (c : MapCall σ F) : IDMapIndex σ → List (Option ℤ) → Prop
  | left (delegate : σ) : CallOutcome I m rows c { m with delegate } rows
  | extended (args : IdArgs F) {delegate : σ} : c = .addWithIds args →
      CallOutcome I m rows c
        (({ m with
            delegate
            internalToExternal := resize m.internalToExternal
              (I.numVectors m.delegate + args.n.toNat) 0 } : IDMapIndex σ).mapIds
          (I.numVectors m.delegate) args.ids)
        (rows ++ args.ids.map some)
  | set (internalToExternal : List ℤ) (delegate : σ) :
      CallOutcome I m rows c (({ m with delegate } : IDMapIndex σ).setIdMap internalToExternal)
        (internalToExternal.map some)

theorem call_cases (I : FileIndex σ F P) (m : IDMapIndex σ) (rows : List (Option ℤ))
    (c : MapCall σ F) : CallOutcome I m rows c (m.call I c).1 (knownIds I m rows c) := by
  unfold knownIds
  cases c with
  | add args =>
      show CallOutcome I m rows _ (m.add I.toIndex args).1
        (match (m.add I.toIndex args).2 with
          | .error _ => rows
          | .ok () => rows)
      split
      · exact .left _
      · exact .left _
  | build =>
      show CallOutcome I m rows _ (m.build I.toIndex).1
        (match (m.build I.toIndex).2 with
          | .error _ => rows
          | .ok () => rows)
      split
      · exact .left _
      · exact .left _
  | addWithIds args =>
      simp only [call, addWithIds]
      rcases hadd : I.add m.delegate args.toCsrArgs with ⟨delegate, e | ⟨⟨⟩⟩⟩
      · exact .left delegate
      · exact .extended args rfl
  | readCsrAndIds csr ids residency =>
      have houtcome := m.readCsrAndIds_cases I csr ids residency
      simp only [call]
      generalize m.readCsrAndIds I csr ids residency = outcome at houtcome ⊢
      cases houtcome with
      | refused _ => exact .left m.delegate
      | ingested _ _ _ => exact .left _
      | mapped hids _ _ =>
          rw [hids]
          exact .set _ _
  | readIndex internalToExternal delegate => exact .set _ _

theorem length_withRows {count : ℕ} {known : List (Option ℤ)} (h : known.length ≤ count) :
    (withRows count known).length = count := by
  rw [withRows, List.length_append, List.length_replicate, Nat.add_sub_cancel' h]

theorem Tracks.length_le (h : m.Tracks I rows) : m.internalToExternal.length ≤ rows.length := by
  have hlen := congrArg List.length h.mapped
  rw [List.length_map, List.length_take] at hlen
  exact hlen ▸ min_le_right _ _

/-- Padded to all rows, the map from rows has a 0 for those without an id. -/
theorem Tracks.padded (h : m.Tracks I rows) :
    resize m.internalToExternal rows.length 0 = rows.map fun row => row.getD 0 := by
  have hle := h.length_le
  have hrest : (rows.drop m.internalToExternal.length).map (fun row => row.getD 0)
      = List.replicate (rows.length - m.internalToExternal.length) 0 := by
    rw [List.eq_replicate_iff, List.length_map, List.length_drop]
    refine ⟨rfl, List.forall_mem_map.mpr fun row hrow => ?_⟩
    rw [h.unmapped row hrow]
    rfl
  calc resize m.internalToExternal rows.length 0
      = m.internalToExternal ++ List.replicate (rows.length - m.internalToExternal.length) 0 := by
        rw [resize, List.take_of_length_le hle]
    _ = (rows.take m.internalToExternal.length).map (fun row => row.getD 0)
          ++ (rows.drop m.internalToExternal.length).map (fun row => row.getD 0) := by
        rw [hrest, ← h.mapped]
    _ = rows.map fun row => row.getD 0 := by rw [← List.map_append, List.take_append_drop]

/-- More rows without ids. -/
theorem Tracks.left (h : m.Tracks I rows) {delegate : σ}
    (hle : rows.length ≤ I.numVectors delegate) :
    ({ m with delegate } : IDMapIndex σ).Tracks I (withRows (I.numVectors delegate) rows) := by
  refine ⟨length_withRows hle, ?_, ?_, ?_⟩
  · show m.internalToExternal = ((rows ++ _).take m.internalToExternal.length).map _
    rw [List.take_append_of_le_length h.length_le]
    exact h.mapped
  · show ∀ row ∈ (rows ++ _).drop m.internalToExternal.length, row = none
    rw [List.drop_append_of_le_length h.length_le]
    intro row hrow
    rcases List.mem_append.mp hrow with hrow | hrow
    · exact h.unmapped row hrow
    · exact List.eq_of_mem_replicate hrow
  · exact h.inverse.trans (invertRows_append_none rows _).symm

/-- A map that was set anew. -/
theorem tracks_setIdMap (m : IDMapIndex σ) {internalToExternal : List ℤ}
    (hle : (internalToExternal.map some).length ≤ I.numVectors m.delegate) :
    (m.setIdMap internalToExternal).Tracks I
      (withRows (I.numVectors m.delegate) (internalToExternal.map some)) := by
  have hlen : internalToExternal.length = (internalToExternal.map some).length :=
    (List.length_map some).symm
  refine ⟨length_withRows hle, ?_, ?_, ?_⟩
  · show internalToExternal = ((internalToExternal.map some ++ List.replicate _ none).take
      internalToExternal.length).map _
    rw [List.take_left' hlen.symm, List.map_map]
    exact (List.map_id _).symm
  · intro row hrow
    have hdrop : row ∈ (internalToExternal.map some ++ List.replicate _ none).drop
        internalToExternal.length := hrow
    rw [List.drop_left' hlen.symm] at hdrop
    exact List.eq_of_mem_replicate hdrop
  · show invertIdMap internalToExternal = _
    rw [withRows, invertRows_append_none]
    exact (invertRows_append_some [] internalToExternal).symm

/-- **One call** keeps the maps what the rows say. -/
theorem Tracks.call (h : m.Tracks I rows) {c : MapCall σ F}
    (hsteady : (knownIds I m rows c).length ≤ I.numVectors (m.call I c).1.delegate) :
    (m.call I c).1.Tracks I
      (withRows (I.numVectors (m.call I c).1.delegate) (knownIds I m rows c)) := by
  have hcases := m.call_cases I rows c
  generalize (m.call I c).1 = m' at hcases hsteady ⊢
  generalize knownIds I m rows c = known at hcases hsteady ⊢
  cases hcases with
  | left delegate => exact h.left hsteady
  | set internalToExternal delegate => exact tracks_setIdMap _ hsteady
  | @extended args delegate _ =>
      rw [mapIds_delegate] at hsteady ⊢
      have hcount : I.numVectors m.delegate + args.n.toNat
          = I.numVectors m.delegate + args.ids.length := by rw [args.ids_length]
      have hinternal := internalToExternal_mapIds (m := ({ m with
          delegate
          internalToExternal := resize m.internalToExternal
            (I.numVectors m.delegate + args.n.toNat) 0 } : IDMapIndex σ))
        (congrArg (resize m.internalToExternal · 0) hcount)
      rw [← h.count, h.padded] at hinternal
      have hknown : (rows ++ args.ids.map some).length = rows.length + args.ids.length := by
        rw [List.length_append, List.length_map]
      have hlen : ((rows.map fun row => row.getD 0) ++ args.ids).length
          = (rows ++ args.ids.map some).length := by
        rw [List.length_append, List.length_map, hknown]
      rw [← h.count]
      refine ⟨?_, ?_, ?_, ?_⟩
      · rw [mapIds_delegate]
        exact length_withRows hsteady
      · rw [hinternal, hlen, withRows, List.take_left, List.map_append, List.map_map]
        congr 1
        exact (List.map_id _).symm
      · rw [hinternal, hlen, withRows, List.drop_left]
        exact fun row hrow => List.eq_of_mem_replicate hrow
      · rw [Nsparse.externalToInternal_mapIds, withRows, invertRows_append_none,
          invertRows_append_some, ← h.inverse]

/-- A new id map knows no row of its delegate. -/
theorem tracks_new (I : FileIndex σ F P) (delegate : σ) :
    (new delegate).Tracks I (withRows (I.numVectors delegate) []) :=
  ⟨length_withRows (Nat.zero_le _), rfl, fun _ hrow => List.eq_of_mem_replicate hrow,
    (invertRows_append_none [] _).symm⟩

/-- **Every history** keeps them so. -/
theorem run_tracks {calls : List (MapCall σ F)} (h : m.Tracks I rows)
    (hsteady : Steady I m rows calls) : (m.after I calls).Tracks I (rowIds I m rows calls) := by
  induction calls generalizing m rows with
  | nil => exact h
  | cons c calls ih => exact ih (h.call hsteady.1) hsteady.2

/-! ### What the maps are for -/

/-- **The maps agree** with what the caller said of the rows: each row is found under its id and its
id under the row, and a selector of ids lets a row through as it does its id. -/
structure Agrees (I : FileIndex σ F P) (m : IDMapIndex σ) (rows : List (Option ℤ)) : Prop where
  length : m.internalToExternal.length = I.numVectors m.delegate
  labels : ∀ i < I.numVectors m.delegate,
    ∃ id, rows[i]? = some (some id) ∧ m.externalId (i : ℕ) = some id
  inverse : ∀ id d, m.externalToInternal id = some d ↔
    ∃ i : ℕ, d = i ∧ m.internalToExternal[i]? = some id
  selects : ∀ (s : IDSelector) (i : ℕ) (id : ℤ), rows[i]? = some (some id) →
    (Admitted (some (s.withIdMap m.internalToExternal m.externalToInternal)) i ↔
      Admitted (some s) id)

theorem externalId_natCast (m : IDMapIndex σ) (i : ℕ) :
    m.externalId (i : ℕ) = m.internalToExternal[i]? := by
  rw [externalId, if_neg (not_lt.mpr (Int.natCast_nonneg i)), Int.toNat_natCast]

/-- A selector sees the caller's ids through maps that invert each other. -/
theorem admitted_withIdMap_iff (s : IDSelector) {idMap : List ℤ} {externalIdMap : ℤ → Option ℤ}
    (hinverse : ∀ id d, externalIdMap id = some d ↔ ∃ i : ℕ, d = i ∧ idMap[i]? = some id)
    {i : ℕ} {id : ℤ} (hi : idMap[i]? = some id) :
    Admitted (some (s.withIdMap idMap externalIdMap)) i ↔ Admitted (some s) id := by
  have hgetD : idMap.getD (i : ℤ).toNat 0 = id := by
    rw [Int.toNat_natCast, List.getD_eq_getElem?_getD, hi, Option.getD_some]
  cases s with
  | plain isMember =>
      constructor
      · rintro (hpasses | ⟨_, _, _, h, -⟩)
        · exact Or.inl (hgetD ▸ hpasses)
        · cases h
      · rintro (hpasses | ⟨_, _, _, h, -⟩)
        · exact Or.inl (show isMember (idMap.getD (i : ℤ).toNat 0) = true from hgetD.symm ▸ hpasses)
        · cases h
  | enumerable isMember ids size =>
      -- the row is listed when its id is
      have hlisted : (i : ℤ) ∈ ids.filterMap externalIdMap ↔ id ∈ ids := by
        rw [List.mem_filterMap]
        constructor
        · rintro ⟨id', hmem, hid'⟩
          obtain ⟨j, hj, hmapped⟩ := (hinverse id' i).mp hid'
          obtain rfl := Nat.cast_injective hj
          obtain rfl := Option.some.inj (hi.symm.trans hmapped)
          exact hmem
        · exact fun hmem => ⟨id, hmem, (hinverse id i).mpr ⟨i, rfl, hi⟩⟩
      constructor
      · rintro (hpasses | ⟨_, _, _, h, hmem⟩)
        · exact Or.inl (hgetD ▸ hpasses)
        · obtain ⟨-, rfl, -⟩ := IDSelector.enumerable.inj (Option.some.inj h)
          exact Or.inr ⟨_, _, _, rfl, hlisted.mp hmem⟩
      · rintro (hpasses | ⟨_, _, _, h, hmem⟩)
        · exact Or.inl (show isMember (idMap.getD (i : ℤ).toNat 0) = true from hgetD.symm ▸ hpasses)
        · obtain ⟨-, rfl, -⟩ := IDSelector.enumerable.inj (Option.some.inj h)
          exact Or.inr ⟨_, _, _, rfl, hlisted.mpr hmem⟩

/-- Different ids, one for each row, are in both maps. -/
theorem Tracks.agrees (h : m.Tracks I rows) (hfew : I.numVectors m.delegate < 2 ^ 31)
    (hrows : Identified rows) : m.Agrees I rows := by
  obtain ⟨ids, hnodup, rfl⟩ := hrows
  have hcount := h.count
  rw [List.length_map] at hcount
  -- no row is missing
  have hlen : m.internalToExternal.length = ids.length := by
    by_contra hne
    have hle := h.length_le
    rw [List.length_map] at hle
    have hlt : m.internalToExternal.length < ids.length := lt_of_le_of_ne hle hne
    have hmem : some ids[m.internalToExternal.length] ∈
        (ids.map some).drop m.internalToExternal.length := by
      rw [← List.map_drop, List.mem_map]
      exact ⟨_, List.mem_drop_iff_getElem.mpr ⟨0, by omega, rfl⟩, rfl⟩
    cases h.unmapped _ hmem
  have hinternal : m.internalToExternal = ids := by
    have hmapped := h.mapped
    rw [hlen, List.take_of_length_le (by rw [List.length_map]), List.map_map] at hmapped
    exact hmapped.trans (List.map_id ids)
  have hinverse : ∀ id d, m.externalToInternal id = some d ↔
      ∃ i : ℕ, d = i ∧ m.internalToExternal[i]? = some id := by
    intro id d
    have hget : ∀ i : ℕ, (ids.map some)[i]? = some (some id) ↔ ids[i]? = some id := by
      intro i
      rw [List.getElem?_map, Option.map_eq_some_iff]
      exact ⟨fun ⟨_, h, heq⟩ => Option.some.inj heq ▸ h, fun h => ⟨id, h, rfl⟩⟩
    rw [h.inverse, invertRows_eq_some_iff, hinternal]
    simp only [hget]
    constructor
    · rintro ⟨i, hi, rfl, -⟩
      have hlt := (List.getElem?_eq_some_iff.mp hi).1
      exact ⟨i, toIdx_of_lt (Int.natCast_nonneg i) (by omega), hi⟩
    · rintro ⟨i, rfl, hi⟩
      have hlt := (List.getElem?_eq_some_iff.mp hi).1
      refine ⟨i, hi, (toIdx_of_lt (Int.natCast_nonneg i) (by omega)).symm, fun j hj => ?_⟩
      have hj' := (List.getElem?_eq_some_iff.mp hj).1
      exact ((List.getElem?_inj hj' hnodup).mp (hj.trans hi.symm)).le
  refine ⟨by rw [hinternal, hcount], fun i hi => ?_, hinverse, fun s i id hid => ?_⟩
  · have hi' : i < ids.length := hcount.symm ▸ hi
    refine ⟨ids[i], ?_, ?_⟩
    · rw [List.getElem?_map, List.getElem?_eq_getElem hi']
      rfl
    · rw [externalId_natCast, hinternal, List.getElem?_eq_getElem hi']
  · apply admitted_withIdMap_iff s hinverse
    rw [hinternal]
    rw [List.getElem?_map, Option.map_eq_some_iff] at hid
    obtain ⟨id', hid', heq⟩ := hid
    exact Option.some.inj heq ▸ hid'

/-- Maps that agree leave no other possibility. -/
theorem Agrees.identified (h : m.Agrees I rows) (hcount : rows.length = I.numVectors m.delegate) :
    Identified rows := by
  have hall : ∀ row ∈ rows, row.isSome = true := by
    intro row hrow
    obtain ⟨i, hi, rfl⟩ := List.getElem_of_mem hrow
    obtain ⟨id, hid, -⟩ := h.labels i (hcount ▸ hi)
    rw [List.getElem?_eq_getElem hi] at hid
    rw [Option.some.inj hid]
    rfl
  obtain ⟨ids, rfl⟩ := exists_ids hall
  rw [List.length_map] at hcount
  have hmapped : ∀ i (hi : i < ids.length), m.internalToExternal[i]? = some ids[i] := by
    intro i hi
    obtain ⟨id, hid, hlabel⟩ := h.labels i (hcount ▸ hi)
    rw [List.getElem?_map, List.getElem?_eq_getElem hi] at hid
    rw [externalId_natCast] at hlabel
    rw [hlabel, show ids[i] = id from Option.some.inj (Option.some.inj hid)]
  refine ⟨ids, List.pairwise_iff_getElem.mpr fun i j hi hj hlt heq => ?_, rfl⟩
  -- two rows of one id are one row
  have hrow := (h.inverse ids[i] i).mpr ⟨i, rfl, hmapped i hi⟩
  have hsame := (h.inverse ids[i] j).mpr ⟨j, rfl, heq ▸ hmapped j hj⟩
  have hindex : i = j := Nat.cast_injective (Option.some.inj (hrow.symm.trans hsame))
  exact hlt.ne hindex

/-- **The maps agree** after a history, exactly when the caller gave every row an id of its own. -/
theorem run_agrees_iff (I : FileIndex σ F P) (delegate : σ) (calls : List (MapCall σ F))
    (hsteady : Steady I (new delegate) (withRows (I.numVectors delegate) []) calls)
    (hfew : I.numVectors ((new delegate).after I calls).delegate < 2 ^ 31) :
    ((new delegate).after I calls).Agrees I
        (rowIds I (new delegate) (withRows (I.numVectors delegate) []) calls) ↔
      Identified (rowIds I (new delegate) (withRows (I.numVectors delegate) []) calls) := by
  have htracks := run_tracks (tracks_new I delegate) hsteady
  exact ⟨fun h => h.identified htracks.count, htracks.agrees hfew⟩

/-! ### Delegates that count -/

/-- A delegate that counts its rows, while `J` holds: what it adds it counts, and it loses none.  A
build may end `J`. -/
structure CountsRows (I : FileIndex σ F P) (J : σ → Prop) : Prop where
  added : ∀ {x} args, J x → (I.add x args).2 = .ok () →
    I.numVectors (I.add x args).1 = I.numVectors x + args.n.toNat
  add : ∀ {x} args, J x → J (I.add x args).1 ∧ I.numVectors x ≤ I.numVectors (I.add x args).1
  readCsr : ∀ {x} csr residency, J x →
    J (I.readCsr x csr residency).1 ∧ I.numVectors x ≤ I.numVectors (I.readCsr x csr residency).1
  build : ∀ {x}, J x → I.numVectors x ≤ I.numVectors (I.build x).1

/-- Calls that only add, read and build. -/
def Grows : MapCall σ F → Prop
  | .readIndex _ _ => False
  | _ => True

/-- They do, and nothing comes after a build. -/
def BuildsLast : List (MapCall σ F) → Prop
  | [] => True
  | .build :: calls => calls = []
  | c :: calls => Grows c ∧ BuildsLast calls

variable {J : σ → Prop}

/-- **A delegate that counts** is steady, whatever is called. -/
theorem CountsRows.step (hI : CountsRows I J) (hm : J m.delegate)
    (hcount : rows.length = I.numVectors m.delegate) {c : MapCall σ F} (hc : Grows c) :
    (knownIds I m rows c).length ≤ I.numVectors (m.call I c).1.delegate ∧
      (c ≠ .build → J (m.call I c).1.delegate) := by
  unfold knownIds
  cases c with
  | readIndex internalToExternal delegate => exact hc.elim
  | add args =>
      obtain ⟨hJ, hle⟩ := hI.add args hm
      refine ⟨?_, fun _ => hJ⟩
      split
      · exact hcount.trans_le hle
      · exact hcount.trans_le hle
  | build =>
      have hle := hI.build hm
      refine ⟨?_, fun h => absurd rfl h⟩
      split
      · exact hcount.trans_le hle
      · exact hcount.trans_le hle
  | addWithIds args =>
      obtain ⟨hJ, hle⟩ := hI.add args.toCsrArgs hm
      have hadded := hI.added args.toCsrArgs hm
      simp only [call, addWithIds]
      rcases hadd : I.add m.delegate args.toCsrArgs with ⟨delegate, e | ⟨⟨⟩⟩⟩
      · rw [hadd] at hJ hle
        exact ⟨hcount.trans_le hle, fun _ => hJ⟩
      · rw [hadd] at hJ hadded
        simp only [mapIds_delegate]
        refine ⟨le_of_eq ?_, fun _ => hJ⟩
        rw [List.length_append, List.length_map, args.ids_length, hcount]
        exact (hadded rfl).symm
  | readCsrAndIds csr ids residency =>
      have houtcome := m.readCsrAndIds_cases I csr ids residency
      simp only [call]
      generalize m.readCsrAndIds I csr ids residency = outcome at houtcome ⊢
      obtain ⟨hJ, hle⟩ := hI.readCsr csr residency hm
      cases houtcome with
      | refused _ => exact ⟨hcount.le, fun _ => hm⟩
      | ingested _ hread _ =>
          rw [hread] at hJ hle
          exact ⟨hcount.trans_le hle, fun _ => hJ⟩
      | mapped hids hread hsame =>
          rw [hread] at hJ
          rw [hids]
          exact ⟨((List.length_map some).trans hsame).le, fun _ => hJ⟩

/-- So it is over a history, if building keeps it counting. -/
theorem CountsRows.steady (hI : CountsRows I J) (hbuild : ∀ {x}, J x → J (I.build x).1)
    {calls : List (MapCall σ F)} (hcalls : ∀ c ∈ calls, Grows c) (hm : J m.delegate)
    (hcount : rows.length = I.numVectors m.delegate) : Steady I m rows calls := by
  induction calls generalizing m rows with
  | nil => trivial
  | cons c calls ih =>
      obtain ⟨hc, hrest⟩ := List.forall_mem_cons.mp hcalls
      obtain ⟨hle, hJ⟩ := hI.step hm hcount hc
      refine ⟨hle, ih hrest ?_ (length_withRows hle)⟩
      by_cases hlast : c = .build
      · subst hlast
        exact hbuild hm
      · exact hJ hlast

/-- Or if it is built once, at the end. -/
theorem CountsRows.steady_buildsLast (hI : CountsRows I J) {calls : List (MapCall σ F)}
    (hcalls : BuildsLast calls) (hm : J m.delegate)
    (hcount : rows.length = I.numVectors m.delegate) : Steady I m rows calls := by
  induction calls generalizing m rows with
  | nil => trivial
  | cons c calls ih =>
      by_cases hlast : c = .build
      · subst hlast
        obtain rfl : calls = [] := hcalls
        exact ⟨(hI.step (c := .build) hm hcount trivial).1, trivial⟩
      · have hboth : Grows c ∧ BuildsLast calls := by
          cases c with
          | build => exact absurd rfl hlast
          | add args => exact hcalls
          | addWithIds args => exact hcalls
          | readCsrAndIds csr ids residency => exact hcalls
          | readIndex internalToExternal delegate => exact hcalls
        obtain ⟨hle, hJ⟩ := hI.step hm hcount hboth.1
        exact ⟨hle, ih hboth.2 (hJ hlast) (length_withRows hle)⟩

end IDMapIndex

end Nsparse
