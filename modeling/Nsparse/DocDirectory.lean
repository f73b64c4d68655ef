/-
Nsparse/DocDirectory.lean

The document directory of a disk index: what the writer puts in it.

`locateDocs` finds for each document the first block slot that holds it, and
`collectRemainder` appends the documents without one to the remainder.  Either way a
document's locator leads to its row: to a slot that lists the document
(`locateDocs_spec`), or to a row of the remainder with the same entries
(`collectRemainder_spec`).
-/
import Nsparse.DiskPayload
import Nsparse.DiskSeismicIndex
import Nsparse.InlineRoundTrip

namespace Nsparse

open Wire

/-! ### Slots -/

/-- The locator of a slot. -/
def locatorOf (b : InlineBlock) (slot : ℕ) : DocLocator :=
  ⟨b.pl % 2 ^ 32, b.block % 2 ^ 32, slot % 2 ^ 32⟩

/-- Every locator set so far leads to a slot that lists its document. -/
def Located (blocks : List InlineBlock) (locators : List (Option DocLocator)) : Prop :=
  ∀ (d : ℕ) (loc : DocLocator), locators[d]? = some (some loc) →
    ∃ b ∈ blocks, ∃ slot, b.docs[slot]? = some (d : ℤ) ∧ loc = locatorOf b slot

theorem Located.locateSlot {blocks : List InlineBlock} {locators : List (Option DocLocator)}
    (h : Located blocks locators) {b : InlineBlock} (hb : b ∈ blocks) {doc : ℤ × ℕ}
    (hdoc : b.docs[doc.2]? = some doc.1) : Located blocks (locateSlot b locators doc) := by
  unfold Nsparse.locateSlot
  split
  · exact h
  · rename_i hpos
    split
    · intro d loc hloc
      rw [List.getElem?_set] at hloc
      split at hloc
      · rename_i heq
        split at hloc
        · obtain rfl := Option.some.inj (Option.some.inj hloc)
          refine ⟨b, hb, doc.2, ?_, rfl⟩
          rw [hdoc, ← heq, Int.toNat_of_nonneg (not_lt.mp hpos)]
        · cases hloc
      · exact h d loc hloc
    · exact h

theorem length_locateSlot (b : InlineBlock) (locators : List (Option DocLocator)) (doc : ℤ × ℕ) :
    (locateSlot b locators doc).length = locators.length := by
  unfold locateSlot
  split
  · rfl
  · split
    · exact List.length_set ..
    · rfl

/-- **The slots found**: each lists its document, and every document has a place for one. -/
theorem locateDocs_spec (numDocs : ℕ) (lists : List InvertedListClusters) :
    Located (blocksOf lists) (locateDocs numDocs lists) ∧
      (locateDocs numDocs lists).length = numDocs := by
  unfold locateDocs
  refine List.foldlRecOn
    (motive := fun locators => Located (blocksOf lists) locators ∧ locators.length = numDocs)
    (blocksOf lists) _ ⟨?_, List.length_replicate ..⟩ ?_
  · intro d loc hloc
    rw [List.getElem?_replicate] at hloc
    split at hloc
    · cases hloc
    · cases hloc
  · intro locators hlocators b hb
    refine List.foldlRecOn
      (motive := fun locators => Located (blocksOf lists) locators ∧ locators.length = numDocs)
      b.docs.zipIdx _ hlocators ?_
    rintro locators ⟨hlocated, hlen⟩ doc hdoc
    exact ⟨hlocated.locateSlot hb (List.mem_zipIdx_iff_getElem?.mp hdoc),
      (length_locateSlot ..).trans hlen⟩

/-! ### The remainder -/

variable {vectors remainder : SparseVectors Code}

/-- Appending one document. -/
theorem addVectors_doc (hv : vectors.WellFormed) {doc : ℕ} (hdoc : doc < vectors.numVectors)
    (hr : remainder.WellFormed) :
    ∃ remainder', remainder.addVectors [0, vectors.nnzOf doc] (vectors.compsOf doc)
        (vectors.valsOf doc) = .ok remainder' ∧
      remainder'.WellFormed ∧ remainder'.rows = remainder.rows ++ [vectors.row doc] ∧
      remainder'.dimension = remainder.dimension ∧
      remainder'.elementSize = remainder.elementSize ∧
      remainder'.indices = remainder.indices ++ vectors.compsOf doc ∧
      remainder'.values = remainder.values ++ vectors.valsOf doc := by
  have hcomps : (vectors.compsOf doc).length = vectors.nnzOf doc := hv.length_compsOf hdoc
  have hvals : (vectors.valsOf doc).length = vectors.nnzOf doc := hv.length_valsOf hdoc
  have hoffsets : Csr.Offsets [0, vectors.nnzOf doc] (vectors.compsOf doc).length := by
    refine ⟨rfl, ?_, ?_⟩
    · simp
    · rw [hcomps]
      rfl
  have hrow : Csr.rows [0, vectors.nnzOf doc] ((vectors.compsOf doc).zip (vectors.valsOf doc))
      = [vectors.row doc] := by
    show [(((vectors.compsOf doc).zip (vectors.valsOf doc)).drop 0).take (vectors.nnzOf doc - 0)] = _
    rw [List.drop_zero, List.take_of_length_le, ← vectors.docRow_eq_zip]
    · rfl
    · rw [List.length_zip, hcomps, hvals, min_self, Nat.sub_zero]
  have hok : remainder.addVectors [0, vectors.nnzOf doc] (vectors.compsOf doc) (vectors.valsOf doc)
      = .ok _ := (if_neg (not_not.mpr (hcomps.trans hvals.symm))).trans (if_neg (by simp))
  obtain ⟨hwf, hrows, hdim, hes⟩ := SparseVectors.addVectors_eq_ok hr hoffsets hok
  rw [hrow] at hrows
  exact ⟨_, hok, hwf, hrows, hdim, hes, rfl, rfl⟩

/-- What `collectRemainder` makes of the locators found and the remainder so far. -/
structure Collected (vectors : SparseVectors Code) (doc : ℕ) (found : List (Option DocLocator))
    (remainder remainder' : SparseVectors Code) (locators : List DocLocator) : Prop where
  wellFormed : remainder'.WellFormed
  dimension : remainder'.dimension = remainder.dimension
  width : remainder'.elementSize = remainder.elementSize
  rows : ∃ more, remainder'.rows = remainder.rows ++ more ∧ more.length ≤ found.length
  terms : ∀ t ∈ remainder'.indices, t ∈ remainder.indices ∨ t ∈ vectors.indices
  codes : ∀ code ∈ remainder'.values, code ∈ remainder.values ∨ code ∈ vectors.values
  length : locators.length = found.length
  kept : ∀ (i : ℕ) (loc : DocLocator), found[i]? = some (some loc) → locators[i]? = some loc
  moved : ∀ i : ℕ, found[i]? = some none → ∃ r : ℕ, remainder'.rows[r]? = some (vectors.row (doc + i)) ∧
    locators[i]? = some ⟨DocLocator.kRemainder, r % 2 ^ 32, 0⟩

/-- The remainder grows by a row for a document at most. -/
theorem Collected.numVectors_le {doc : ℕ} {found : List (Option DocLocator)}
    {remainder' : SparseVectors Code} {locators : List DocLocator}
    (h : Collected vectors doc found remainder remainder' locators) :
    remainder'.numVectors ≤ remainder.numVectors + found.length := by
  obtain ⟨more, hmore, hle⟩ := h.rows
  have hlength := congrArg List.length hmore
  rw [SparseVectors.length_rows, List.length_append, SparseVectors.length_rows] at hlength
  omega

/-- **The remainder is collected**: no document is left without a locator. -/
theorem collectRemainder_spec (hv : vectors.WellFormed) (found : List (Option DocLocator)) {doc : ℕ}
    (hdoc : doc + found.length ≤ vectors.numVectors) (hr : remainder.WellFormed) :
    ∃ locators remainder', collectRemainder vectors doc found remainder
        = .ok (locators, remainder') ∧
      Collected vectors doc found remainder remainder' locators := by
  induction found generalizing doc remainder with
  | nil =>
      exact ⟨[], remainder, rfl, hr, rfl, rfl, ⟨[], (List.append_nil _).symm, le_rfl⟩,
        fun _ => .inl, fun _ => .inl, rfl, nofun, nofun⟩
  | cons loc found ih =>
      rw [List.length_cons] at hdoc
      rcases loc with - | loc
      · obtain ⟨remainder₁, hadd, hwf₁, hrows₁, hdim₁, hes₁, hterms₁, hcodes₁⟩ :=
          addVectors_doc hv (show doc < vectors.numVectors by omega) hr
        obtain ⟨locators, remainder', hrest, h⟩ := ih (show doc + 1 + _ ≤ _ by omega) hwf₁
        obtain ⟨more, hmore, hlen⟩ := h.rows
        refine ⟨⟨DocLocator.kRemainder, remainder.numVectors % 2 ^ 32, 0⟩ :: locators, remainder',
          ?_, h.wellFormed, h.dimension.trans hdim₁, h.width.trans hes₁,
          ⟨vectors.row doc :: more, ?_, ?_⟩, ?_, ?_, ?_, ?_, ?_⟩
        · rw [collectRemainder]
          show (remainder.addVectors _ _ _).bind _ = _
          rw [hadd]
          show (collectRemainder vectors (doc + 1) found remainder₁).bind _ = _
          rw [hrest]
          rfl
        · rw [hmore, hrows₁, List.append_assoc, List.singleton_append]
        · exact Nat.succ_le_succ hlen
        · intro t ht
          rcases h.terms t ht with ht | ht
          · rw [hterms₁, List.mem_append] at ht
            exact ht.imp id fun ht => List.mem_of_mem_drop (List.mem_of_mem_take ht)
          · exact .inr ht
        · intro code hcode
          rcases h.codes code hcode with hcode | hcode
          · rw [hcodes₁, List.mem_append] at hcode
            exact hcode.imp id fun hcode => List.mem_of_mem_drop (List.mem_of_mem_take hcode)
          · exact .inr hcode
        · rw [List.length_cons, List.length_cons, h.length]
        · rintro (- | i) loc hloc
          · cases hloc
          · exact h.kept i loc hloc
        · rintro (- | i) hnone
          · refine ⟨remainder.numVectors, ?_, rfl⟩
            have hcount : remainder.numVectors = remainder.rows.length := by
              rw [SparseVectors.rows_eq_map_row, List.length_map, List.length_range]
            rw [hmore, hrows₁, hcount, List.append_assoc, List.getElem?_append_right le_rfl,
              Nat.sub_self]
            rfl
          · obtain ⟨r, hrow, hloc⟩ := h.moved i hnone
            refine ⟨r, ?_, hloc⟩
            rw [hrow, Nat.add_assoc, Nat.add_comm 1 i]
      · obtain ⟨locators, remainder', hrest, h⟩ := ih (show doc + 1 + _ ≤ _ by omega) hr
        obtain ⟨more, hmore, hlen⟩ := h.rows
        refine ⟨loc :: locators, remainder', ?_, h.wellFormed, h.dimension, h.width,
          ⟨more, hmore, hlen.trans (Nat.le_succ _)⟩, h.terms, h.codes, ?_, ?_, ?_⟩
        · rw [collectRemainder]
          show (collectRemainder vectors (doc + 1) found remainder).bind _ = _
          rw [hrest]
          rfl
        · rw [List.length_cons, List.length_cons, h.length]
        · rintro (- | i) loc' hloc
          · exact congrArg some (Option.some.inj (Option.some.inj hloc))
          · exact h.kept i loc' hloc
        · rintro (- | i) hnone
          · cases hnone
          · obtain ⟨r, hrow, hloc⟩ := h.moved i hnone
            refine ⟨r, ?_, hloc⟩
            rw [hrow, Nat.add_assoc, Nat.add_comm 1 i]

end Nsparse
