/-
Nsparse/LabelTranslation.lean

The loop of `IDMapIndex::search` over the labels.

The caller's arrays have `n * k` places, however large that product is, and the loop
computes the index `i * k + j` in `int`s.  An index that fits is the place of exactly one
turn of the two loops; the last one is `n * k - 1`, so all of them fit exactly when
`n * k` is at most `2 ^ 31` (`labelSlot_eq`).

Up to there the loop replaces the labels one by one and nothing else
(`translateLabels_eq`); beyond it no search returns (`translateLabels_eq_none`).
-/
import Nsparse.IdMapSearch
import Nsparse.Lib.RowMajor

namespace Nsparse

namespace IDMapIndex

variable {σ F P : Type}

/-- The delegate's part of a search, with a selector of the id map's own when there is one. -/
def delegateSearch (I : Index σ F P) (m : IDMapIndex σ) (store : SelectorStore)
    (params : Option (SearchParameters P)) (a : SearchArgs F) : SearchOutcome F :=
  match params with
  | none => I.publicSearch m.delegate a none none
  | some p =>
      match p.idSelector with
      | none => I.publicSearch m.delegate a (some p.fields) none
      | some address =>
          match store.lookup address with
          | none => .deadSelector
          | some idSelector => I.publicSearch m.delegate a (some p.fields)
              (some (idSelector.withIdMap m.internalToExternal m.externalToInternal))

/-- The first `count` labels are translated and the others left alone. -/
structure Translated (m : IDMapIndex σ) (count : ℕ) (labels result : List ℤ) : Prop where
  padding : ∀ slot < count, ∀ label < 0,
    labels[slot]? = some label → result[slot]? = some label
  external : ∀ slot < count, ∀ label ≥ 0,
    labels[slot]? = some label → result[slot]? = m.internalToExternal[label.toNat]?
  rest : ∀ slot ≥ count, result[slot]? = labels[slot]?

/-- **Every label is translated once**, in a search with `n` queries and `k` results for each:
the index of the loop does not overflow, stays in the caller's `n * k` places and takes each of
them once; and a search whose delegate returns, with labels the map knows, returns them
translated. -/
structure TranslatesOnce (I : Index σ F P) (m : IDMapIndex σ) (n k : ℕ) : Prop where
  noOverflow : ∀ i < n, ∀ j < k, (labelSlot k i j).isSome
  within : ∀ i < n, ∀ j < k, ∀ slot, labelSlot k i j = some slot → 0 ≤ slot ∧ slot < n * k
  once : ∀ slot < n * k, ∃! p : ℕ × ℕ, p.1 < n ∧ p.2 < k ∧ labelSlot k p.1 p.2 = some (slot : ℤ)
  returned : ∀ (allocator : Allocator) (store : SelectorStore)
    (params : Option (SearchParameters P)) (a : SearchArgs F) (dest : List ℤ) (distances : List F)
    (labels : List ℤ), a.n = n → a.k = k → a.labels = some dest → n * k ≤ dest.length →
    m.delegateSearch I store params a = .returned distances labels →
    (∀ label ∈ labels.take (n * k), label < m.internalToExternal.length) →
    ∃ result, (m.search I allocator store params a).1 = .returned distances result ∧
      m.Translated (n * k) labels result

/-! ### The index -/

theorem intResult_natCast (x : ℕ) :
    intResult x = if x < 2 ^ 31 then some (x : ℤ) else none := by
  have hlow : -2 ^ 31 ≤ (x : ℤ) := le_trans (by norm_num) (Int.natCast_nonneg x)
  have hiff : (x : ℤ) < 2 ^ 31 ↔ x < 2 ^ 31 := by exact_mod_cast Iff.rfl
  simp only [intResult, hlow, hiff, true_and]

/-- **The index** is the place in the buffer, as long as that is an `int`. -/
theorem labelSlot_eq (k i j : ℕ) :
    labelSlot k i j = if i * k + j < 2 ^ 31 then some ((i * k + j : ℕ) : ℤ) else none := by
  rw [labelSlot, ← Nat.cast_mul, intResult_natCast]
  by_cases hrow : i * k < 2 ^ 31
  · rw [if_pos hrow]
    rw [Option.bind_eq_bind, Option.bind_some, ← Nat.cast_add, intResult_natCast]
  · -- a row that starts too far is too far as a whole
    rw [if_neg hrow, if_neg fun hslot => hrow (Nat.lt_of_le_of_lt (Nat.le_add_right _ j) hslot)]
    rfl

theorem labelSlot_eq_some_iff {k i j slot : ℕ} (hslot : slot < 2 ^ 31) :
    labelSlot k i j = some (slot : ℤ) ↔ i * k + j = slot := by
  rw [labelSlot_eq]
  split
  · rw [Option.some_inj, Nat.cast_inj]
  · rename_i hover
    exact ⟨nofun, fun h => absurd (h ▸ hslot) hover⟩

/-! ### The loop -/

variable (m : IDMapIndex σ)

/-- The turn for one place of the buffer. -/
def translateSlot (labels : List ℤ) (slot : ℕ) : Option (List ℤ) :=
  if slot < 2 ^ 31 then RowMajor.update m.externalId labels slot else none

theorem translateLabel_eq (k i : ℕ) :
    m.translateLabel k i = fun labels j => m.translateSlot labels (i * k + j) := by
  funext labels j
  rw [translateLabel, translateSlot, labelSlot_eq]
  split
  · show ((labels[((i * k + j : ℕ) : ℤ).toNat]?).bind fun label => (m.externalId label).bind fun id =>
      some (labels.set ((i * k + j : ℕ) : ℤ).toNat id)) = _
    rw [Int.toNat_natCast]
    rfl
  · rfl

/-- The loops run over the buffer. -/
theorem translateLabels_eq_foldlM (n k : ℕ) (labels : List ℤ) :
    m.translateLabels n k labels = (List.range (n * k)).foldlM m.translateSlot labels := by
  rw [translateLabels, Int.toNat_natCast, Int.toNat_natCast]
  simp only [translateLabel_eq]
  exact RowMajor.foldlM_rows m.translateSlot n k labels

variable {m} {n k : ℕ} {labels : List ℤ}

/-- **Up to `2 ^ 31` places** the loop updates one label after the other. -/
theorem translateLabels_eq_update (hsize : n * k ≤ 2 ^ 31) (labels : List ℤ) :
    m.translateLabels n k labels
      = (List.range (n * k)).foldlM (RowMajor.update m.externalId) labels := by
  have hturn : ∀ slot ∈ List.range (n * k), ∀ labels,
      m.translateSlot labels slot = RowMajor.update m.externalId labels slot := by
    intro slot hslot labels
    exact if_pos (lt_of_lt_of_le (List.mem_range.mp hslot) hsize)
  rw [translateLabels_eq_foldlM, foldlM_congr hturn]

/-- So it replaces every label, when the map knows all of them. -/
theorem translateLabels_eq (hsize : n * k ≤ 2 ^ 31) (hlen : n * k ≤ labels.length)
    (hmapped : ∀ label ∈ labels.take (n * k), (m.externalId label).isSome) :
    m.translateLabels n k labels
      = some ((labels.take (n * k)).map (fun label => (m.externalId label).getD label)
        ++ labels.drop (n * k)) := by
  rw [translateLabels_eq_update hsize]
  apply RowMajor.foldlM_update hlen
  intro label hlabel
  obtain ⟨id, hid⟩ := Option.isSome_iff_exists.mp (hmapped label hlabel)
  rw [hid, Option.getD_some]

example : oneSearch.index.translateLabels 1 2 [0, INVALID_IDX] = some [70, -1] := by decide

/-- **Beyond that** it is undefined, whatever the labels are. -/
theorem translateLabels_eq_none (hsize : 2 ^ 31 < n * k) (labels : List ℤ) :
    m.translateLabels n k labels = none := by
  rw [translateLabels_eq_foldlM]
  apply RowMajor.foldlM_eq_none (x := 2 ^ 31)
  · intro labels
    exact if_neg (lt_irrefl _)
  · exact List.mem_range.mpr hsize

/-! ### The search -/

/-- What the loop leaves behind is a translation. -/
theorem translated_map (hlen : n * k ≤ labels.length)
    (hmapped : ∀ label ∈ labels.take (n * k), (m.externalId label).isSome) :
    m.Translated (n * k) labels
      ((labels.take (n * k)).map (fun label => (m.externalId label).getD label)
        ++ labels.drop (n * k)) := by
  have hdone : ((labels.take (n * k)).map fun label => (m.externalId label).getD label).length
      = n * k := by
    rw [List.length_map, List.length_take_of_le hlen]
  have hfront : ∀ slot < n * k, ∀ label, labels[slot]? = some label →
      ((labels.take (n * k)).map (fun label => (m.externalId label).getD label)
        ++ labels.drop (n * k))[slot]? = m.externalId label := by
    intro slot hslot label hlabel
    have htake : (labels.take (n * k))[slot]? = some label := by
      rw [List.getElem?_take_of_lt hslot, hlabel]
    obtain ⟨id, hid⟩ := Option.isSome_iff_exists.mp (hmapped label (List.mem_of_getElem? htake))
    rw [List.getElem?_append_left (hdone.symm ▸ hslot), List.getElem?_map, htake, Option.map_some,
      hid, Option.getD_some]
  refine ⟨?_, ?_, ?_⟩
  · intro slot hslot label hneg hlabel
    rw [hfront slot hslot label hlabel, externalId, if_pos hneg]
  · intro slot hslot label hpos hlabel
    rw [hfront slot hslot label hlabel, externalId, if_neg (not_lt.mpr hpos)]
  · intro slot hslot
    rw [List.getElem?_append_right (hdone.symm ▸ hslot), hdone, List.getElem?_drop,
      Nat.add_sub_cancel' hslot]

/-- The id map has an external id for the labels below its length. -/
theorem externalId_isSome {label : ℤ} (h : label < m.internalToExternal.length) :
    (m.externalId label).isSome := by
  unfold externalId
  split
  · rfl
  · rename_i hpos
    rw [List.getElem?_eq_getElem (by omega)]
    rfl

variable {I : Index σ F P}

theorem length_le_copyResults {α : Type} (dest : List α) (results : List (List α)) :
    dest.length ≤ (copyResults dest results).length := by
  rw [copyResults, List.length_append, List.length_drop]
  exact le_add_tsub

/-- The results of the delegate fill the caller's array or leave the rest of it. -/
theorem length_le_of_publicSearch {index : σ} {a : SearchArgs F} {fields : Option P}
    {s : Option IDSelector} {dest : List ℤ} {distances : List F} (hdest : a.labels = some dest)
    (h : I.publicSearch index a fields s = .returned distances labels) :
    dest.length ≤ labels.length := by
  unfold Index.publicSearch at h
  rw [hdest] at h
  split at h
  · cases h
  · split at h
    · cases h
    · split at h
      · rename_i hlabels _
        obtain rfl := Option.some.inj hlabels
        split at h
        · cases h
        · cases h
        · obtain ⟨-, rfl⟩ := SearchOutcome.returned.inj h
          exact length_le_copyResults dest _
      · cases h

theorem length_le_of_delegateSearch {store : SelectorStore} {params : Option (SearchParameters P)}
    {a : SearchArgs F} {dest : List ℤ} {distances : List F} (hdest : a.labels = some dest)
    (h : m.delegateSearch I store params a = .returned distances labels) :
    dest.length ≤ labels.length := by
  unfold delegateSearch at h
  split at h
  · exact length_le_of_publicSearch hdest h
  · split at h
    · exact length_le_of_publicSearch hdest h
    · split at h
      · cases h
      · exact length_le_of_publicSearch hdest h

/-- A search translates what its delegate returns. -/
theorem search_eq_translate (allocator : Allocator) (store : SelectorStore)
    (params : Option (SearchParameters P)) (a : SearchArgs F) :
    (m.search I allocator store params a).1
      = m.translate a (m.delegateSearch I store params a) := by
  rcases params with - | p
  · rfl
  · unfold IDMapIndex.search delegateSearch
    rcases hsel : p.idSelector with - | address
    · simp only [hsel]
    · rcases hlive : store.lookup address with - | idSelector
      · simp only [hsel, hlive]
        rfl
      · simp only [hsel, hlive, List.lookup_cons_self]

/-- **Up to `2 ^ 31` places** a search translates every label. -/
theorem search_translated (hsize : n * k ≤ 2 ^ 31) {a : SearchArgs F} {dest : List ℤ}
    {distances : List F} (hn : a.n = n) (hk : a.k = k) (hdest : a.labels = some dest)
    (hlen : n * k ≤ dest.length) (allocator : Allocator) (store : SelectorStore)
    (params : Option (SearchParameters P))
    (h : m.delegateSearch I store params a = .returned distances labels)
    (hmapped : ∀ label ∈ labels.take (n * k), label < m.internalToExternal.length) :
    ∃ result, (m.search I allocator store params a).1 = .returned distances result ∧
      m.Translated (n * k) labels result := by
  have hlabels : n * k ≤ labels.length := hlen.trans (length_le_of_delegateSearch hdest h)
  have hknown : ∀ label ∈ labels.take (n * k), (m.externalId label).isSome := by
    intro label hlabel
    exact externalId_isSome (hmapped label hlabel)
  refine ⟨_, ?_, translated_map hlabels hknown⟩
  rw [search_eq_translate, h, translate, hn, hk, translateLabels_eq hsize hlabels hknown]

/-- **Label translation**, exactly.  Every label of a search is translated once if and only if the
results have at most `2 ^ 31` places. -/
theorem labels_translated_once_iff (I : Index σ F P) (m : IDMapIndex σ) {n k : ℕ} (hn : 0 < n)
    (hk : 0 < k) : TranslatesOnce I m n k ↔ n * k ≤ 2 ^ 31 := by
  constructor
  · intro h
    -- the last turn has the largest index
    obtain ⟨i, rfl⟩ : ∃ i, n = i + 1 := Nat.exists_eq_succ_of_ne_zero hn.ne'
    obtain ⟨j, rfl⟩ : ∃ j, k = j + 1 := Nat.exists_eq_succ_of_ne_zero hk.ne'
    have hlast := h.noOverflow i (Nat.lt_succ_self i) j (Nat.lt_succ_self j)
    rw [labelSlot_eq] at hlast
    split at hlast
    · rename_i hfits
      rw [Nat.succ_mul]
      exact hfits
    · cases hlast
  · intro hsize
    have hslot : ∀ i < n, ∀ j < k, labelSlot k i j = some ((i * k + j : ℕ) : ℤ) := by
      intro i hi j hj
      rw [labelSlot_eq, if_pos (lt_of_lt_of_le (RowMajor.index_lt hi hj) hsize)]
    constructor
    · intro i hi j hj
      rw [hslot i hi j hj]
      rfl
    · intro i hi j hj slot h
      obtain rfl := Option.some.inj ((hslot i hi j hj).symm.trans h)
      exact ⟨Int.natCast_nonneg _, by exact_mod_cast RowMajor.index_lt hi hj⟩
    · intro slot hlt
      simp only [labelSlot_eq_some_iff (lt_of_lt_of_le hlt hsize)]
      exact RowMajor.existsUnique_index hlt
    · intro allocator store params a dest distances labels hn hk hdest hlen h hmapped
      exact search_translated hsize hn hk hdest hlen allocator store params h hmapped

/-- Two queries with three results each. -/
theorem labels_translated_once_iff_two_queries :
    TranslatesOnce invertedSearch oneSearch.index 2 3 :=
  (labels_translated_once_iff invertedSearch oneSearch.index (by decide) (by decide)).mpr (by decide)

/-- **A large batch**: with 65537 queries for 32768 results each the last row starts at `2 ^ 31`, and
nothing is returned even when all labels are padding. -/
theorem large_batch_overflows :
    labelSlot (32768 : ℕ) 65536 0 = none ∧
    oneSearch.index.translateLabels (65537 : ℕ) (32768 : ℕ)
      (List.replicate (65537 * 32768) INVALID_IDX) = none ∧
    ¬ TranslatesOnce invertedSearch oneSearch.index 65537 32768 := by
  have hoverflow : labelSlot (32768 : ℕ) 65536 0 = none := by
    rw [labelSlot_eq]
    exact if_neg (by norm_num)
  refine ⟨hoverflow, translateLabels_eq_none (by norm_num) _, fun h => ?_⟩
  have hslot := h.noOverflow 65536 (by norm_num) 0 (by norm_num)
  rw [hoverflow] at hslot
  cases hslot

end IDMapIndex

end Nsparse
