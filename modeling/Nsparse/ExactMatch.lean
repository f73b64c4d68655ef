/-
Nsparse/ExactMatch.lean

What the exact-match paths return.

A selector of at most `k` ids is answered by scoring the ids it lists, through the
vectors or through the doc locators of a mapped index.  `k` places are enough for all
of them, so the answer is every listed document with its score, as often as it is
listed (`paddedResult_exactMatch_iff`).  It is what an exact match should be exactly
when the selector lists every member in range once, and no listed document has a term
outside the dimension (`exactMatch_iff`).  A `SetIDSelector` lists its members once; an
`ArrayIDSelector` lists an id as often as it was given it.
-/
import Nsparse.DenseQuery
import Nsparse.DiskSeismicIndex
import Nsparse.IdMapIndex

namespace Nsparse

/-! ### Selectors -/

namespace IDSelector

/-- The enumerable selectors there are, directly or through an id map. -/
inductive Listed : IDSelector → Prop
  | set (order : HashOrder) (ids : List ℤ) : Listed (.set order ids)
  | array (ids : List ℤ) : Listed (.array ids)
  | withIdMap {s : IDSelector} (idMap : List ℤ) (externalIdMap : ℤ → Option ℤ) :
      Listed s → Listed (s.withIdMap idMap externalIdMap)

theorem Listed.exists_enumerable {s : IDSelector} (h : s.Listed) :
    ∃ isMember ids size, s = .enumerable isMember ids size ∧ ids.length ≤ size := by
  induction h with
  | set order ids => exact ⟨_, _, _, rfl, le_rfl⟩
  | array ids => exact ⟨_, _, _, rfl, le_rfl⟩
  | withIdMap idMap externalIdMap _ ih =>
      obtain ⟨isMember, ids, size, rfl, hle⟩ := ih
      exact ⟨_, _, _, rfl, (List.length_filterMap_le ..).trans hle⟩

/-- Those that take the exact-match path list at most `k` ids. -/
theorem Listed.length_le {s : IDSelector} (h : s.Listed) {k : ℤ} {ids : List ℤ}
    (hids : exactMatchIds (some s) k = some ids) : (ids.length : ℤ) ≤ k := by
  obtain ⟨isMember, listed, size, rfl, hle⟩ := h.exists_enumerable
  unfold exactMatchIds at hids
  dsimp only at hids
  split at hids
  · rename_i hsize
    obtain rfl := Option.some.inj hids
    exact (Nat.cast_le.mpr hle).trans hsize
  · cases hids

/-- Every member among `n` documents is listed, once. -/
def ListsOnce (s : IDSelector) (ids : List ℤ) (n : ℕ) : Prop :=
  (ids.filter fun id : ℤ => decide (0 ≤ id ∧ id < n)).Nodup ∧
    ∀ d : ℕ, d < n → (s.isMember d = true ↔ (d : ℤ) ∈ ids)

/-- **A set lists its members once.** -/
theorem set_listsOnce (order : HashOrder) (ids : List ℤ) (n : ℕ) :
    (IDSelector.set order ids).ListsOnce (order.enumerate ids) n := by
  refine ⟨((order.perm ids).nodup_iff.mpr (List.nodup_dedup ids)).filter _, fun d _ => ?_⟩
  rw [(order.perm ids).mem_iff, List.mem_dedup]
  exact decide_eq_true_iff

/-- An array does unless a document is given to it twice. -/
theorem array_listsOnce_iff (ids : List ℤ) (n : ℕ) :
    (IDSelector.array ids).ListsOnce ids n
      ↔ (ids.filter fun id : ℤ => decide (0 ≤ id ∧ id < n)).Nodup :=
  and_iff_left fun _ _ => decide_eq_true_iff

/-- Through an id map that is a bijection, the documents are those whose ids the selector lists, so
that nothing changes: every id of the map that is a member has to be listed once. -/
theorem withIdMap_listsOnce_iff {isMember : ℤ → Bool} {ids idMap : List ℤ} {size : ℕ}
    {externalIdMap : ℤ → Option ℤ}
    (hinverse : ∀ id d, externalIdMap id = some d ↔ ∃ i : ℕ, d = i ∧ idMap[i]? = some id) :
    ((enumerable isMember ids size).withIdMap idMap externalIdMap).ListsOnce
        (ids.filterMap externalIdMap) idMap.length ↔
      (ids.filter fun id => decide (id ∈ idMap)).Nodup ∧
        ∀ id ∈ idMap, (isMember id = true ↔ id ∈ ids) := by
  have hmapped : ∀ id ∈ idMap, ∃ i : ℕ, idMap[i]? = some id ∧ externalIdMap id = some (i : ℤ) := by
    intro id hid
    obtain ⟨i, hi⟩ := List.mem_iff_getElem?.mp hid
    exact ⟨i, hi, (hinverse id i).mpr ⟨i, rfl, hi⟩⟩
  have hrange : (ids.filterMap externalIdMap).filter
      (fun id : ℤ => decide (0 ≤ id ∧ id < idMap.length)) = ids.filterMap externalIdMap := by
    refine List.filter_eq_self.mpr fun d hd => decide_eq_true ?_
    obtain ⟨id, -, hid⟩ := List.mem_filterMap.mp hd
    obtain ⟨i, rfl, hi⟩ := (hinverse id d).mp hid
    exact ⟨Int.natCast_nonneg i, Int.ofNat_lt.mpr (List.getElem?_eq_some_iff.mp hi).1⟩
  apply and_congr
  · rw [hrange]
    unfold List.Nodup
    rw [List.pairwise_filterMap, List.pairwise_filter]
    -- two documents are the same when their ids are
    apply List.Pairwise.iff
    intro id id'
    constructor
    · intro h hid hid' heq
      obtain ⟨i, -, hi⟩ := hmapped id (of_decide_eq_true hid)
      exact h i hi i (heq ▸ hi) rfl
    · intro h d hd d' hd' heq
      obtain ⟨i, rfl, hi⟩ := (hinverse id d).mp hd
      obtain ⟨i', rfl, hi'⟩ := (hinverse id' d').mp hd'
      obtain rfl := Int.ofNat_inj.mp heq
      apply h (decide_eq_true (List.mem_of_getElem? hi)) (decide_eq_true (List.mem_of_getElem? hi'))
      exact Option.some.inj (hi.symm.trans hi')
  · have hlisted : ∀ (i : ℕ) (id : ℤ), idMap[i]? = some id →
        ((i : ℤ) ∈ ids.filterMap externalIdMap ↔ id ∈ ids) := by
      intro i id hi
      rw [List.mem_filterMap]
      constructor
      · rintro ⟨id', hid', hext⟩
        obtain ⟨i', hcast, hi'⟩ := (hinverse id' i).mp hext
        obtain rfl := Int.ofNat_inj.mp hcast
        obtain rfl := Option.some.inj (hi.symm.trans hi')
        exact hid'
      · exact fun hid => ⟨id, hid, (hinverse id i).mpr ⟨i, rfl, hi⟩⟩
    have hmember : ∀ (i : ℕ) (id : ℤ), idMap[i]? = some id →
        ((enumerable isMember ids size).withIdMap idMap externalIdMap).isMember i = isMember id := by
      intro i id hi
      show isMember (idMap.getD i 0) = isMember id
      rw [List.getD_eq_getElem?_getD, hi]
      rfl
    constructor
    · intro h id hid
      obtain ⟨i, hi, -⟩ := hmapped id hid
      rw [← hmember i id hi, ← hlisted i id hi]
      exact h i (List.getElem?_eq_some_iff.mp hi).1
    · intro h i hlt
      have hi := List.getElem?_eq_getElem hlt
      rw [hmember i _ hi, hlisted i _ hi]
      exact h _ (List.getElem_mem hlt)

end IDSelector

/-! ### The answer -/

variable {F : Type}

/-- **What an exact match returns**: every member among `n` documents once, with its score, by
descending score, and then padding. -/
def ExactMatch [LE F] [Neg F] [One F] (n : ℕ) (isMember : ℤ → Bool) (score : ℕ → F) (k : ℕ)
    (result : List F × List ℤ) : Prop :=
  ∃ found : List ℕ, found.Nodup ∧ (∀ d, d ∈ found ↔ d < n ∧ isMember d = true) ∧
    (found.map score).Pairwise (fun a b => b ≤ a) ∧ found.length ≤ k ∧
    result.1 = found.map score ++ List.replicate (k - found.length) (-1) ∧
    result.2 = found.map (fun d : ℕ => (d : ℤ)) ++ List.replicate (k - found.length) INVALID_IDX

section Answer

variable [Ring F] [LinearOrder F] {Q : ItemQueue F ℤ}

/-- Labels that are padded tell what was found. -/
theorem filter_padded {l : List ℤ} (h : ∀ id ∈ l, 0 ≤ id) (n : ℕ) :
    (l ++ List.replicate n INVALID_IDX).filter (fun id => decide (0 ≤ id)) = l := by
  rw [List.filter_append, List.filter_eq_self.mpr fun id hid => decide_eq_true (h id hid),
    List.filter_eq_nil_iff.mpr, List.append_nil]
  intro id hid
  rw [(List.mem_replicate.mp hid).2]
  decide

/-- What was listed, arranged: each label with its score. -/
structure Arranged (ids : List ℤ) (score : ℤ → F) (l : List (TopKItem F ℤ)) : Prop where
  labels : (l.map TopKItem.id).Perm ids
  scores : ∀ x ∈ l, x.score = score x.id

/-- An answer that is padded to `k` places. -/
def padded (k : ℕ) (decode : F → F) (l : List (TopKItem F ℤ)) : List F × List ℤ :=
  (l.map (fun x => decode x.score) ++ List.replicate (k - l.length) (-1),
    l.map TopKItem.id ++ List.replicate (k - l.length) INVALID_IDX)

/-- Everything listed is kept when there are places for it. -/
theorem exists_arranged {heap : TopKHolder Q} {k : ℤ} {ids : List ℤ} {score : ℤ → F} (decode : F → F)
    (hheap : heap.Holds k.toNat ((ids.map fun d => ⟨score d, d⟩ : List (TopKItem F ℤ)) : Multiset _))
    (hlen : (ids.length : ℤ) ≤ k) :
    ∃ l, Arranged ids score l ∧ l.Pairwise (fun x y => y.score ≤ x.score) ∧ l.length ≤ k.toNat ∧
      paddedResult decode k heap.topKItemsDescending = padded k.toNat decode l := by
  obtain ⟨l, hitems, hsorted, heq⟩ := heap.topKItemsDescending_spec
  have hall : (l : Multiset (TopKItem F ℤ))
      = ((ids.map fun d => ⟨score d, d⟩ : List (TopKItem F ℤ)) : Multiset _) := by
    rw [hitems]
    apply Multiset.eq_of_le_of_card_le hheap.best.le
    rw [hheap.best.card_eq, Multiset.coe_card, List.length_map]
    omega
  have hperm : l.Perm (ids.map fun d => ⟨score d, d⟩) := Multiset.coe_eq_coe.mp hall
  have hlabels : (l.map TopKItem.id).Perm ids := by
    have hmap := hperm.map TopKItem.id
    rw [List.map_map] at hmap
    exact (List.map_id ids) ▸ hmap
  have hle : l.length ≤ k.toNat := by
    rw [← List.length_map TopKItem.id, hlabels.length_eq]
    omega
  have hpad : ∀ {α : Type} (f : TopKItem F ℤ → α) (x : α),
      resize (l.map f) k.toNat x = l.map f ++ List.replicate (k.toNat - l.length) x := by
    intro α f x
    rw [resize, List.take_of_length_le (by simpa using hle), List.length_map]
  refine ⟨l, ⟨hlabels, fun x hx => ?_⟩, hsorted, hle, ?_⟩
  · obtain ⟨d, -, rfl⟩ := List.mem_map.mp (hperm.mem_iff.mp hx)
    rfl
  · rw [heq, paddedResult, List.map_map]
    exact congrArg₂ Prod.mk (hpad _ _) (hpad _ _)

section Listed

variable {ids : List ℤ} {score : ℤ → F} {l : List (TopKItem F ℤ)} {n k : ℕ} {decode : F → F}
  {exact : ℕ → F} {isMember : ℤ → Bool}

/-- An exact match lists every member once, and the score of each is exact. -/
theorem Arranged.members_of_exactMatch (h : Arranged ids score l) (hrange : ∀ d ∈ ids, 0 ≤ d ∧ d < n)
    (hmatch : ExactMatch n isMember exact k (padded k decode l)) :
    (ids.Nodup ∧ ∀ d : ℕ, d < n → (isMember d = true ↔ (d : ℤ) ∈ ids)) ∧
      ∀ d : ℕ, (d : ℤ) ∈ ids → decode (score d) = exact d := by
  obtain ⟨found, hnodup, hmem, -, -, hscores, hfound⟩ := hmatch
  have hsame : l.map TopKItem.id = found.map fun d : ℕ => (d : ℤ) := by
    have hfilter := congrArg (List.filter fun id : ℤ => decide (0 ≤ id)) hfound
    rwa [padded, filter_padded fun id hid => (hrange id (h.labels.mem_iff.mp hid)).1,
      filter_padded] at hfilter
    intro id hid
    obtain ⟨d, -, rfl⟩ := List.mem_map.mp hid
    exact Int.natCast_nonneg d
  have hlength : l.length = found.length := by
    simpa only [List.length_map] using congrArg List.length hsame
  -- rank by rank the scores are those of the documents found
  have hexact : l.map (fun x => decode x.score) = found.map exact :=
    (List.append_inj hscores (by rw [List.length_map, List.length_map, hlength])).1
  refine ⟨⟨?_, fun d hd => ?_⟩, fun d hd => ?_⟩
  · rw [← h.labels.nodup_iff, hsame]
    exact hnodup.map Nat.cast_injective
  · rw [← h.labels.mem_iff, hsame, List.mem_map_of_injective Nat.cast_injective, hmem,
      and_iff_right hd]
  · obtain ⟨i, hi⟩ := List.mem_iff_getElem?.mp (h.labels.mem_iff.mpr hd)
    have hfoundAt := hi
    rw [hsame, List.getElem?_map, Option.map_eq_some_iff] at hfoundAt
    obtain ⟨d', hd', hcast⟩ := hfoundAt
    obtain rfl := Int.ofNat_inj.mp hcast
    rw [List.getElem?_map, Option.map_eq_some_iff] at hi
    obtain ⟨x, hx, hid⟩ := hi
    have hrank := congrArg (fun scores : List F => scores[i]?) hexact
    simp only [List.getElem?_map, hx, hd', Option.map_some, Option.some_inj] at hrank
    rw [← hrank, h.scores x (List.mem_of_getElem? hx), hid]

/-- And the other way round. -/
theorem Arranged.exactMatch (h : Arranged ids score l) (hrange : ∀ d ∈ ids, 0 ≤ d ∧ d < n)
    (hdecode : Monotone decode) (hsorted : l.Pairwise fun x y => y.score ≤ x.score)
    (hle : l.length ≤ k) (hnodup : ids.Nodup)
    (hmem : ∀ d : ℕ, d < n → (isMember d = true ↔ (d : ℤ) ∈ ids))
    (hexact : ∀ d : ℕ, (d : ℤ) ∈ ids → decode (score d) = exact d) :
    ExactMatch n isMember exact k (padded k decode l) := by
  have hnat : ∀ x ∈ l, ((x.id.toNat : ℕ) : ℤ) = x.id := fun x hx =>
    Int.toNat_of_nonneg (hrange _ (h.labels.mem_iff.mp (List.mem_map_of_mem hx))).1
  have hcast : (l.map fun x => x.id.toNat).map (fun d : ℕ => (d : ℤ)) = l.map TopKItem.id := by
    rw [List.map_map]
    exact List.map_congr_left hnat
  have hscores : (l.map fun x => x.id.toNat).map exact = l.map fun x => decode x.score := by
    rw [List.map_map]
    refine List.map_congr_left fun x hx => ?_
    have hid : x.id ∈ ids := h.labels.mem_iff.mp (List.mem_map_of_mem hx)
    rw [h.scores x hx, Function.comp_apply, ← hexact _ ((hnat x hx).symm ▸ hid), hnat x hx]
  refine ⟨l.map fun x => x.id.toNat, ?_, fun d => ?_, ?_, ?_, ?_, ?_⟩
  · apply List.Nodup.of_map (fun d : ℕ => (d : ℤ))
    rw [hcast]
    exact h.labels.nodup_iff.mpr hnodup
  · rw [← List.mem_map_of_injective (f := fun d : ℕ => (d : ℤ)) Nat.cast_injective, hcast,
      h.labels.mem_iff]
    constructor
    · intro hd
      have hlt := Int.ofNat_lt.mp (hrange _ hd).2
      exact ⟨hlt, (hmem d hlt).mpr hd⟩
    · rintro ⟨hlt, hmember⟩
      exact (hmem d hlt).mp hmember
  · rw [hscores]
    exact List.pairwise_map.mpr (hsorted.imp fun h => hdecode h)
  · rw [List.length_map]
    exact hle
  · rw [padded, hscores, List.length_map]
  · rw [padded, hcast, List.length_map]

end Listed

/-- **Everything listed is kept**, so the answer is an exact match when every member is listed
once and its score comes out exact, and not otherwise. -/
theorem paddedResult_exactMatch_iff {heap : TopKHolder Q} {k : ℤ} {n : ℕ} {ids : List ℤ}
    {score : ℤ → F} {exact : ℕ → F} {decode : F → F} (hdecode : Monotone decode)
    (hheap : heap.Holds k.toNat ((ids.map fun d => ⟨score d, d⟩ : List (TopKItem F ℤ)) : Multiset _))
    (hlen : (ids.length : ℤ) ≤ k) (hrange : ∀ d ∈ ids, 0 ≤ d ∧ d < n) (isMember : ℤ → Bool) :
    ExactMatch n isMember exact k.toNat (paddedResult decode k heap.topKItemsDescending) ↔
      (ids.Nodup ∧ ∀ d : ℕ, d < n → (isMember d = true ↔ (d : ℤ) ∈ ids)) ∧
        ∀ d : ℕ, (d : ℤ) ∈ ids → decode (score d) = exact d := by
  obtain ⟨l, harranged, hsorted, hle, hresult⟩ := exists_arranged decode hheap hlen
  rw [hresult]
  constructor
  · exact harranged.members_of_exactMatch hrange
  · rintro ⟨⟨hnodup, hmem⟩, hexact⟩
    exact harranged.exactMatch hrange hdecode hsorted hle hnodup hmem hexact

end Answer

/-! ### Scoring what is listed -/

variable [LinearOrder F] {Q : ItemQueue F ℤ}

/-- Offer the documents listed, with what scores them. -/
def offerDocs (score : ℤ → Except SearchFault F) :
    List ℤ → TopKHolder Q → Except SearchFault (TopKHolder Q)
  | [], heap => .ok heap
  | doc :: ids, heap => do
      let s ← score doc
      offerDocs score ids (heap.add s doc)

theorem offerDocs_congr {score score' : ℤ → Except SearchFault F} {ids : List ℤ}
    (h : ∀ d ∈ ids, score d = score' d) (heap : TopKHolder Q) :
    offerDocs score ids heap = offerDocs score' ids heap := by
  induction ids generalizing heap with
  | nil => rfl
  | cons d ids ih =>
      obtain ⟨hd, hids⟩ := List.forall_mem_cons.mp h
      rw [offerDocs, offerDocs, hd]
      congr 1
      funext s
      exact ih hids _

/-- Every document is scored. -/
theorem offerDocs_holds {score : ℤ → Except SearchFault F} {s : ℤ → F} {ids : List ℤ}
    (hscore : ∀ d ∈ ids, score d = .ok (s d)) {heap : TopKHolder Q} {k : ℕ}
    {offered : Multiset (TopKItem F ℤ)} (hheap : heap.Holds k offered) :
    ∃ heap', offerDocs score ids heap = .ok heap' ∧
      heap'.Holds k (offered + ((ids.map fun d => ⟨s d, d⟩ : List (TopKItem F ℤ)) : Multiset _)) := by
  induction ids generalizing heap offered with
  | nil => exact ⟨heap, rfl, (add_zero offered).symm ▸ hheap⟩
  | cons d ids ih =>
      obtain ⟨hd, hids⟩ := List.forall_mem_cons.mp hscore
      obtain ⟨heap', hrest, hholds⟩ := ih hids (hheap.add (s d) d)
      refine ⟨heap', ?_, ?_⟩
      · rw [offerDocs, hd]
        exact hrest
      · rw [Multiset.cons_add, ← Multiset.add_cons] at hholds
        exact hholds

/-- A document that cannot be scored ends the query. -/
theorem offerDocs_error {score : ℤ → Except SearchFault F} {ids : List ℤ}
    (hscore : ∃ d ∈ ids, ∃ e, score d = .error e) (heap : TopKHolder Q) :
    ∃ e, offerDocs score ids heap = .error e := by
  induction ids generalizing heap with
  | nil =>
      obtain ⟨d, hd, -⟩ := hscore
      cases hd
  | cons doc ids ih =>
      rcases hdoc : score doc with e | s
      · refine ⟨e, ?_⟩
        rw [offerDocs, hdoc]
        rfl
      · obtain ⟨d, hd, e, he⟩ := hscore
        have hrest : ∃ d ∈ ids, ∃ e, score d = .error e := by
          rcases List.mem_cons.mp hd with rfl | hd
          · rw [hdoc] at he
            cases he
          · exact ⟨d, hd, e, he⟩
        rw [offerDocs, hdoc]
        exact ih hrest _

section Rows

variable [Zero F] [Add F] [Sub F] [Mul F] [FloatFormat F]

/-- Score a stored row. -/
def scoreRow (elementSize : ℕ) (dense : List Code) (row : SparseRow Code) : Except SearchFault F :=
  match computeSimilarity elementSize dense row with
  | none => .error .outOfBuffer
  | some score => .ok score

theorem exactMatchDocs_eq (vectors : SparseVectors Code) (elementSize : ℕ) (dense : List Code)
    (ids : List ℤ) (heap : TopKHolder Q) :
    exactMatchDocs vectors elementSize dense ids heap
      = offerDocs (fun d => scoreRow elementSize dense (docRow vectors d))
          (ids.filter fun id : ℤ => decide (0 ≤ id ∧ id < vectors.numVectors)) heap := by
  induction ids generalizing heap with
  | nil => rfl
  | cons doc ids ih =>
      rw [exactMatchDocs]
      by_cases hrange : doc < 0 ∨ (vectors.numVectors : ℤ) ≤ doc
      · rw [if_pos hrange, List.filter_cons_of_neg (by simpa using by omega), ih]
      · rw [if_neg hrange, List.filter_cons_of_pos (by simpa using by omega), offerDocs, scoreRow]
        rcases computeSimilarity elementSize dense (docRow vectors doc) with - | score
        · rfl
        · exact ih _

theorem DiskSeismicIndex.directoryDocs_eq (x : DiskSeismicIndex F) (elementSize : ℕ)
    (dense : List Code) (ids : List ℤ) (heap : TopKHolder Q) :
    x.directoryDocs elementSize dense ids heap
      = offerDocs (fun d => (SearchFault.lift (x.getDoc d elementSize)).bind
            (scoreRow elementSize dense))
          (ids.filter fun id : ℤ => decide (0 ≤ id ∧ id < x.docLocators.length)) heap := by
  induction ids generalizing heap with
  | nil => rfl
  | cons doc ids ih =>
      rw [directoryDocs]
      by_cases hrange : doc < 0 ∨ (x.docLocators.length : ℤ) ≤ doc
      · rw [if_pos hrange, List.filter_cons_of_neg (by simpa using by omega), ih]
      · rw [if_neg hrange, List.filter_cons_of_pos (by simpa using by omega), offerDocs]
        rcases hdoc : x.getDoc doc elementSize with e | row
        · rfl
        · show (match computeSimilarity elementSize dense row with
              | none => Except.error SearchFault.outOfBuffer
              | some score => x.directoryDocs elementSize dense ids (heap.add score doc))
            = (scoreRow elementSize dense row).bind fun s => offerDocs _ _ (heap.add s doc)
          rw [scoreRow]
          rcases computeSimilarity elementSize dense row with - | score
          · rfl
          · exact ih _

end Rows

/-! ### Queries -/

section Exact

variable [Ring F] [FloatFormat F]

theorem scoreRow_eq {dimension elementSize : ℕ} {query : SparseRow Code} (row : SparseRow Code) :
    scoreRow elementSize (written (zeroBuffer dimension elementSize) query) row
      = if TermsWithin dimension row then
          .ok (similarityOf elementSize (written (zeroBuffer dimension elementSize) query) row : F)
        else .error .outOfBuffer := by
  rw [scoreRow, computeSimilarity_eq_ite, length_written, length_zeroBuffer]
  by_cases hrow : TermsWithin dimension row
  · rw [if_pos hrow, if_pos hrow]
  · rw [if_neg hrow, if_neg hrow]

/-- A decoding of scores tells what an accumulator holds from what it dropped: no two numbers that
differ by at least its range, the one in range, are decoded alike. -/
def TellsOverflow (decode : F → F) (elementSize : ℕ) : Prop :=
  ∀ a b : ℤ, -2 ^ (accumulatorBits elementSize - 1) ≤ a → a < 2 ^ (accumulatorBits elementSize - 1) →
    a + 2 ^ accumulatorBits elementSize ≤ b →
    decode (FloatFormat.ofInt a) ≠ decode (FloatFormat.ofInt b)

omit [LinearOrder F] in
/-- **The score of a listed document is exact** exactly when the accumulator holds its sum. -/
theorem decode_similarityOf_eq_iff {dimension elementSize : ℕ}
    (hbits : FloatFormat.ofBits (zeroCode U32) = (0 : F)) {query row : SparseRow Code}
    (hdistinct : (query.map Prod.fst).Nodup) (hrow : TermsWithin dimension row) {decode : F → F}
    (htells : TellsOverflow decode elementSize) :
    decode (similarityOf elementSize (written (zeroBuffer dimension elementSize) query) row)
        = decode (exactScore F elementSize query row) ↔ SumFits elementSize query row := by
  constructor
  · intro heq
    by_cases h32 : elementSize = U32
    · exact .inl h32
    · right
      rw [similarityOf_eq hbits hdistinct hrow, if_neg h32, exactScore, if_neg h32] at heq
      by_contra hlarge
      obtain ⟨hlow, hhigh, hdropped⟩ := wrapped_of_le (accumulatorBits_pos elementSize)
        (not_lt.mp hlarge)
      exact htells _ _ hlow hhigh hdropped heq
  · exact fun hfits => congrArg decode (similarityOf_eq_exactScore hbits hdistinct hrow hfits)

omit [Ring F] [LinearOrder F] [FloatFormat F] in
/-- Of the ids listed those of documents are scored. -/
theorem mem_inRange_iff {ids ordered : List ℤ} (hperm : ordered.Perm ids) {n d : ℕ} (hd : d < n) :
    (d : ℤ) ∈ ordered.filter (fun id : ℤ => decide (0 ≤ id ∧ id < n)) ↔ (d : ℤ) ∈ ids := by
  rw [List.mem_filter, hperm.mem_iff, and_iff_left]
  exact decide_eq_true ⟨Int.natCast_nonneg d, Int.ofNat_lt.mpr hd⟩

omit [Ring F] [LinearOrder F] [FloatFormat F] in
theorem forall_inRange_iff {ids ordered : List ℤ} (hperm : ordered.Perm ids) {n : ℕ} {P : ℤ → Prop} :
    (∀ d ∈ ordered.filter (fun id : ℤ => decide (0 ≤ id ∧ id < n)), P d) ↔
      ∀ d : ℕ, d < n → (d : ℤ) ∈ ids → P d := by
  constructor
  · exact fun h d hd hids => h d ((mem_inRange_iff hperm hd).mpr hids)
  · intro h id hid
    obtain ⟨hnonneg, hlt⟩ := of_decide_eq_true (List.mem_filter.mp hid).2
    obtain ⟨d, rfl⟩ := Int.eq_ofNat_of_zero_le hnonneg
    exact h d (Int.ofNat_lt.mp hlt) ((mem_inRange_iff hperm (Int.ofNat_lt.mp hlt)).mp hid)

section Query

variable {dimension elementSize n : ℕ} {query : SparseRow Code} {rowOf : ℤ → SparseRow Code}
  {sel : IDSelector} {ids ordered : List ℤ} {k : ℤ} {decode : F → F} {heap : TopKHolder Q}

/-- Documents whose terms are in the buffer are scored, and everything listed is kept. -/
theorem offerDocs_exactMatch_of_within (sel : IDSelector)
    (hbits : FloatFormat.ofBits (zeroCode U32) = (0 : F))
    (hdistinct : (query.map Prod.fst).Nodup) (hperm : ordered.Perm ids)
    (hlen : (ids.length : ℤ) ≤ k) (hdecode : Monotone decode)
    (htells : TellsOverflow decode elementSize) (hnew : TopKHolder.new Q k = .ok heap)
    (hterms : ∀ d : ℕ, d < n → (d : ℤ) ∈ ids → TermsWithin dimension (rowOf d)) :
    ∃ heap', offerDocs (fun d => scoreRow elementSize
          (written (zeroBuffer dimension elementSize) query) (rowOf d))
        (ordered.filter fun id : ℤ => decide (0 ≤ id ∧ id < n)) heap = .ok heap' ∧
      (ExactMatch n sel.isMember (fun d => decode (exactScore F elementSize query (rowOf d)))
          k.toNat (paddedResult decode k heap'.topKItemsDescending) ↔
        sel.ListsOnce ids n ∧ ∀ d : ℕ, d < n → (d : ℤ) ∈ ids →
          SumFits elementSize query (rowOf d)) := by
  have hwithin := (forall_inRange_iff hperm (P := fun d => TermsWithin dimension (rowOf d))).mpr
    hterms
  set listed := ordered.filter fun id : ℤ => decide (0 ≤ id ∧ id < n) with hlisted
  have hscored : ∀ d ∈ listed, scoreRow elementSize
      (written (zeroBuffer dimension elementSize) query) (rowOf d)
        = .ok (similarityOf elementSize (written (zeroBuffer dimension elementSize) query)
            (rowOf d) : F) := fun d hd =>
    (scoreRow_eq (rowOf d)).trans (if_pos (hwithin d hd))
  obtain ⟨heap', hok, hholds⟩ := offerDocs_holds hscored (TopKHolder.new_holds hnew)
  rw [zero_add] at hholds
  have hlen' : (listed.length : ℤ) ≤ k := by
    have hfilter := List.length_filter_le (fun id : ℤ => decide (0 ≤ id ∧ id < n)) ordered
    rw [hperm.length_eq] at hfilter
    exact (Int.ofNat_le.mpr hfilter).trans hlen
  have honce : (listed.Nodup ∧ ∀ d : ℕ, d < n → (sel.isMember d = true ↔ (d : ℤ) ∈ listed)) ↔
      sel.ListsOnce ids n := by
    apply and_congr
    · exact (hperm.filter _).nodup_iff
    · exact forall₂_congr fun d hd => by rw [hlisted, mem_inRange_iff hperm hd]
  have hrange : ∀ d ∈ listed, 0 ≤ d ∧ d < n := fun d hd =>
    of_decide_eq_true (List.mem_filter.mp hd).2
  refine ⟨heap', hok, ?_⟩
  rw [paddedResult_exactMatch_iff hdecode hholds hlen' hrange sel.isMember, honce]
  refine and_congr_right fun _ => ?_
  rw [← forall_inRange_iff hperm (P := fun d => SumFits elementSize query (rowOf d)), ← hlisted]
  constructor
  · intro h id hid
    obtain ⟨d, rfl⟩ := Int.eq_ofNat_of_zero_le (hrange id hid).1
    exact (decode_similarityOf_eq_iff hbits hdistinct (hwithin d hid) htells).mp (h d hid)
  · exact fun h d hd =>
      (decode_similarityOf_eq_iff hbits hdistinct (hwithin d hd) htells).mpr (h d hd)

/-- One query: its documents are scored and everything listed is kept. -/
theorem offerDocs_exactMatch_iff (hbits : FloatFormat.ofBits (zeroCode U32) = (0 : F))
    (hdistinct : (query.map Prod.fst).Nodup) (rowOf : ℤ → SparseRow Code)
    (hperm : ordered.Perm ids) (hlen : (ids.length : ℤ) ≤ k) (hdecode : Monotone decode)
    (htells : TellsOverflow decode elementSize) (hnew : TopKHolder.new Q k = .ok heap) :
    (∃ heap', offerDocs (fun d => scoreRow elementSize
          (written (zeroBuffer dimension elementSize) query) (rowOf d))
        (ordered.filter fun id : ℤ => decide (0 ≤ id ∧ id < n)) heap = .ok heap' ∧
      ExactMatch n sel.isMember (fun d => decode (exactScore F elementSize query (rowOf d)))
        k.toNat (paddedResult decode k heap'.topKItemsDescending)) ↔
    sel.ListsOnce ids n ∧ ∀ d : ℕ, d < n → (d : ℤ) ∈ ids →
      TermsWithin dimension (rowOf d) ∧ SumFits elementSize query (rowOf d) := by
  by_cases hterms : ∀ d : ℕ, d < n → (d : ℤ) ∈ ids → TermsWithin dimension (rowOf d)
  · obtain ⟨heap', hok, hiff⟩ := offerDocs_exactMatch_of_within sel hbits hdistinct hperm hlen
      hdecode htells hnew hterms
    constructor
    · rintro ⟨other, hother, hmatch⟩
      obtain rfl := Except.ok.inj (hok.symm.trans hother)
      obtain ⟨honce, hfits⟩ := hiff.mp hmatch
      exact ⟨honce, fun d hd hids => ⟨hterms d hd hids, hfits d hd hids⟩⟩
    · rintro ⟨honce, hall⟩
      exact ⟨heap', hok, hiff.mpr ⟨honce, fun d hd hids => (hall d hd hids).2⟩⟩
  · refine iff_of_false ?_ fun h => hterms fun d hd hids => (h.2 d hd hids).1
    rintro ⟨heap', hok, -⟩
    push Not at hterms
    obtain ⟨d, hd, hids, hrow⟩ := hterms
    have houtside : ∃ d ∈ ordered.filter (fun id : ℤ => decide (0 ≤ id ∧ id < n)), ∃ e,
        scoreRow elementSize (written (zeroBuffer dimension elementSize) query) (rowOf d)
          = .error (α := F) e :=
      ⟨d, (mem_inRange_iff hperm hd).mpr hids, _, (scoreRow_eq (rowOf d)).trans (if_neg hrow)⟩
    obtain ⟨e, he⟩ := offerDocs_error houtside heap
    rw [hok] at he
    cases he

end Query

end Exact

/-! ### Batches -/

section Batches

variable [Zero F] [One F] [Neg F] [Add F] [Sub F] [Mul F] [FloatFormat F]

theorem exactMatchQuery_eq (sort : StdSort) (vectors : SparseVectors Code)
    {elementSize dimension : ℕ} (k : ℤ) (ids : List ℤ) {query : SparseRow Code}
    (hquery : TermsWithin dimension query) :
    exactMatchQuery Q sort vectors elementSize dimension k ids query
      = (SearchFault.lift (TopKHolder.new Q k)).bind fun heap =>
          (exactMatchDocs vectors elementSize
            (written (zeroBuffer dimension elementSize) query) (IDSelector.orderedIds sort ids)
            heap).map fun heap => paddedResult id k heap.topKItemsDescending := by
  rw [exactMatchQuery, (clearBuffer_scatter hquery).1]
  rfl

theorem exactMatch_eq_eachAlone (sort : StdSort) (vectors : SparseVectors Code)
    (elementSize dimension : ℕ) (k : ℤ) (ids : List ℤ) (queries : List (SparseRow Code)) :
    exactMatch Q sort vectors elementSize dimension k ids queries
      = eachAlone (exactMatchQuery Q sort vectors elementSize dimension k ids) queries := by
  induction queries with
  | nil => rfl
  | cons query queries ih => rw [exactMatch, eachAlone, ih]

namespace DiskSeismicIndex

/-- A query of `exact_match_directory` by itself. -/
def directoryQuery (Q : ItemQueue F ℤ) (x : DiskSeismicIndex F) (format : QueryFormat F)
    (dimension : ℕ) (k : ℤ) (ids : List ℤ) (query : SparseRow Code) :
    Except SearchFault (List F × List ℤ) := do
  let dense ← scatter (zeroBuffer dimension format.elementSize) query
  let heap ← SearchFault.lift (TopKHolder.new Q k)
  let heap ← x.directoryDocs format.elementSize dense ids heap
  .ok (paddedResult format.decodeScore k heap.topKItemsDescending)

theorem directoryQuery_eq (x : DiskSeismicIndex F) (format : QueryFormat F) {dimension : ℕ} (k : ℤ)
    (ids : List ℤ) {query : SparseRow Code} (hquery : TermsWithin dimension query) :
    x.directoryQuery Q format dimension k ids query
      = (SearchFault.lift (TopKHolder.new Q k)).bind fun heap =>
          (x.directoryDocs format.elementSize
            (written (zeroBuffer dimension format.elementSize) query) ids heap).map fun heap =>
              paddedResult format.decodeScore k heap.topKItemsDescending := by
  rw [directoryQuery, (clearBuffer_scatter hquery).1]
  rfl

/-- The buffer is clean for every query. -/
theorem exactMatchDirectory_eq_eachAlone (x : DiskSeismicIndex F) (format : QueryFormat F)
    {dimension : ℕ} (k : ℤ) (ids : List ℤ) {queries : List (SparseRow Code)}
    (hqueries : ∀ query ∈ queries, TermsWithin dimension query) :
    x.exactMatchDirectory Q format k ids queries (zeroBuffer dimension format.elementSize)
      = eachAlone (x.directoryQuery Q format dimension k ids) queries := by
  induction queries with
  | nil => rfl
  | cons query queries ih =>
      obtain ⟨hquery, hqueries⟩ := List.forall_mem_cons.mp hqueries
      obtain ⟨hscatter, hclear⟩ := @clearBuffer_scatter dimension format.elementSize query hquery
      rw [exactMatchDirectory, eachAlone, x.directoryQuery_eq format k ids hquery, hscatter]
      show (SearchFault.lift (TopKHolder.new Q k)).bind (fun heap => (x.directoryDocs _ _ ids heap).bind _)
        = _
      rcases SearchFault.lift (TopKHolder.new Q k) with e | heap
      · rfl
      · show (x.directoryDocs format.elementSize
            (written (zeroBuffer dimension format.elementSize) query) ids heap).bind _
          = ((x.directoryDocs format.elementSize
            (written (zeroBuffer dimension format.elementSize) query) ids heap).map _).bind _
        rcases x.directoryDocs format.elementSize
          (written (zeroBuffer dimension format.elementSize) query) ids heap with e | heap'
        · rfl
        · show (clearBuffer format.elementSize
              (written (zeroBuffer dimension format.elementSize) query) query).bind _ = _
          rw [hclear]
          show (x.exactMatchDirectory Q format k ids queries
              (zeroBuffer dimension format.elementSize)).bind _ = _
          rw [ih hqueries]
          rfl

/-- A mapped index holds a corpus: every document of it is found through its locator. -/
def HoldsDocs (x : DiskSeismicIndex F) (elementSize : ℕ) (corpus : SparseVectors Code) : Prop :=
  x.docLocators.length = corpus.numVectors ∧
    ∀ d : ℕ, d < corpus.numVectors → x.getDoc d elementSize = .ok (docRow corpus d)

omit [One F] [Neg F] in
/-- Through its locator a document is scored by the row it has in the corpus. -/
theorem directoryDocs_corpus (x : DiskSeismicIndex F) {elementSize : ℕ}
    {corpus : SparseVectors Code} (hx : x.HoldsDocs elementSize corpus) (dense : List Code)
    (ids : List ℤ) (heap : TopKHolder Q) :
    x.directoryDocs elementSize dense ids heap
      = offerDocs (fun d => scoreRow elementSize dense (docRow corpus d))
          (ids.filter fun id : ℤ => decide (0 ≤ id ∧ id < corpus.numVectors)) heap := by
  rw [x.directoryDocs_eq, hx.1]
  apply offerDocs_congr
  intro d hd
  obtain ⟨hnonneg, hlt⟩ := of_decide_eq_true (List.mem_filter.mp hd).2
  obtain ⟨i, rfl⟩ := Int.eq_ofNat_of_zero_le hnonneg
  show (SearchFault.lift (x.getDoc i elementSize)).bind _ = _
  rw [hx.2 i (Int.ofNat_lt.mp hlt)]
  rfl

end DiskSeismicIndex

end Batches

variable [Ring F] [FloatFormat F]

/-- Every query of a batch gets an exact match among `n` documents. -/
def ExactlyMatched (n : ℕ) (sel : IDSelector) (score : SparseRow Code → ℕ → F) (k : ℤ)
    (queries : List (SparseRow Code)) (answer : Except SearchFault (SearchRows F)) : Prop :=
  ∃ results : List (List F × List ℤ), answer = .ok (results.map Prod.fst, results.map Prod.snd) ∧
    List.Forall₂ (fun query result => ExactMatch n sel.isMember (score query) k.toNat result)
      queries results

theorem exists_map_eq_ok_iff {α β ε : Type} {m : Except ε α} {f : α → β} {P : β → Prop} :
    (∃ b, m.map f = .ok b ∧ P b) ↔ ∃ a, m = .ok a ∧ P (f a) := by
  rcases m with e | a
  · exact iff_of_false (fun ⟨_, h, _⟩ => nomatch h) (fun ⟨_, h, _⟩ => nomatch h)
  · constructor
    · rintro ⟨b, hb, hP⟩
      exact ⟨a, rfl, Except.ok.inj hb ▸ hP⟩
    · rintro ⟨a', ha, hP⟩
      exact ⟨f a, rfl, Except.ok.inj ha ▸ hP⟩

omit [FloatFormat F] in
/-- When every query depends on a condition, the batch depends on all of them. -/
theorem exactlyMatched_eachAlone_iff {n : ℕ} {sel : IDSelector} {score : SparseRow Code → ℕ → F}
    {k : ℤ} {queries : List (SparseRow Code)}
    {single : SparseRow Code → Except SearchFault (List F × List ℤ)} {C : SparseRow Code → Prop}
    (h : ∀ query ∈ queries, (∃ result, single query = .ok result ∧
      ExactMatch n sel.isMember (score query) k.toNat result) ↔ C query) :
    ExactlyMatched n sel score k queries (eachAlone single queries) ↔ ∀ query ∈ queries, C query :=
  eachAlone_iff.trans (forall₂_congr h)

/-- What a batch is owed: the selector lists every member among the documents once, and of every
listed document the terms are within the dimension and the sum fits the accumulator. -/
structure ExactlyServed (sel : IDSelector) (ids : List ℤ) (corpus : SparseVectors Code)
    (dimension elementSize : ℕ) (queries : List (SparseRow Code)) : Prop where
  once : sel.ListsOnce ids corpus.numVectors
  within : ∀ d : ℕ, d < corpus.numVectors → (d : ℤ) ∈ ids → TermsWithin dimension (docRow corpus d)
  fits : ∀ query ∈ queries, ∀ d : ℕ, d < corpus.numVectors → (d : ℤ) ∈ ids →
    SumFits elementSize query (docRow corpus d)

theorem exactlyServed_iff {sel : IDSelector} {ids : List ℤ} {corpus : SparseVectors Code}
    {dimension elementSize : ℕ} {queries : List (SparseRow Code)} (hqueries : queries ≠ []) :
    ExactlyServed sel ids corpus dimension elementSize queries ↔ ∀ query ∈ queries,
      sel.ListsOnce ids corpus.numVectors ∧ ∀ d : ℕ, d < corpus.numVectors → (d : ℤ) ∈ ids →
        TermsWithin dimension (docRow corpus d) ∧ SumFits elementSize query (docRow corpus d) := by
  constructor
  · exact fun h query hquery => ⟨h.once, fun d hd hid => ⟨h.within d hd hid, h.fits query hquery d hd hid⟩⟩
  · intro h
    obtain ⟨query, hquery⟩ := List.exists_mem_of_ne_nil queries hqueries
    exact ⟨(h query hquery).1, fun d hd hid => ((h query hquery).2 d hd hid).1,
      fun query hquery d hd hid => ((h query hquery).2 d hd hid).2⟩

/-- **Exact match, through the vectors and through the doc locators**: a batch of queries of distinct
terms within the dimension is matched exactly if and only if the selector lists every member
in range once, no listed document has a term outside the dimension, and no sum overflows the
accumulator of its kernel. -/
theorem exactMatch_iff (Q : ItemQueue F ℤ) (sort : StdSort)
    (hbits : FloatFormat.ofBits (zeroCode U32) = (0 : F)) (corpus : SparseVectors Code)
    (x : DiskSeismicIndex F) (format : QueryFormat F) (hdecode : Monotone format.decodeScore)
    (hraw : TellsOverflow (id : F → F) format.elementSize)
    (htells : TellsOverflow format.decodeScore format.elementSize)
    (hx : x.HoldsDocs format.elementSize corpus) (dimension : ℕ) {k : ℤ} (hk : 1 ≤ k)
    {sel : IDSelector} (hsel : sel.Listed) {ids : List ℤ}
    (hids : exactMatchIds (some sel) k = some ids) {queries : List (SparseRow Code)}
    (hqueries : queries ≠ []) (hwithin : ∀ query ∈ queries, TermsWithin dimension query)
    (hdistinct : ∀ query ∈ queries, (query.map Prod.fst).Nodup) :
    (ExactlyMatched corpus.numVectors sel
        (fun query d => exactScore F format.elementSize query (docRow corpus d)) k queries
        (exactMatch Q sort corpus format.elementSize dimension k ids queries) ↔
      ExactlyServed sel ids corpus dimension format.elementSize queries) ∧
    (ExactlyMatched corpus.numVectors sel
        (fun query d =>
          format.decodeScore (exactScore F format.elementSize query (docRow corpus d))) k queries
        (x.exactMatchDirectory Q format k (IDSelector.orderedIds sort ids) queries
          (zeroBuffer dimension format.elementSize)) ↔
      ExactlyServed sel ids corpus dimension format.elementSize queries) := by
  have hlen := hsel.length_le hids
  have hperm : (IDSelector.orderedIds sort ids).Perm ids := sort.perm _ ids
  have hnew : TopKHolder.new Q k = .ok ⟨k, Q.empty, ⊤⟩ := by
    rw [TopKHolder.new, if_neg (by omega)]
  rw [exactlyServed_iff hqueries]
  constructor
  · rw [exactMatch_eq_eachAlone]
    apply exactlyMatched_eachAlone_iff
    intro query hquery
    rw [← offerDocs_exactMatch_iff hbits (hdistinct query hquery) (docRow corpus) hperm hlen
      monotone_id hraw hnew]
    have hsingle : exactMatchQuery Q sort corpus format.elementSize dimension k ids query
        = (exactMatchDocs corpus format.elementSize
            (written (zeroBuffer dimension format.elementSize) query)
            (IDSelector.orderedIds sort ids) ⟨k, Q.empty, ⊤⟩).map fun heap =>
              paddedResult id k heap.topKItemsDescending := by
      rw [exactMatchQuery_eq sort corpus k ids (hwithin query hquery), hnew]
      rfl
    rw [hsingle, exists_map_eq_ok_iff, exactMatchDocs_eq]
    rfl
  · rw [x.exactMatchDirectory_eq_eachAlone format k _ hwithin]
    apply exactlyMatched_eachAlone_iff
    intro query hquery
    rw [← offerDocs_exactMatch_iff hbits (hdistinct query hquery) (docRow corpus) hperm hlen
      hdecode htells hnew]
    have hsingle : x.directoryQuery Q format dimension k (IDSelector.orderedIds sort ids) query
        = (x.directoryDocs format.elementSize
            (written (zeroBuffer dimension format.elementSize) query)
            (IDSelector.orderedIds sort ids) ⟨k, Q.empty, ⊤⟩).map fun heap =>
              paddedResult format.decodeScore k heap.topKItemsDescending := by
      rw [x.directoryQuery_eq format k _ (hwithin query hquery), hnew]
      rfl
    -- a listed document is scored by the row it has in the corpus
    have hdocs := x.directoryDocs_corpus hx (written (zeroBuffer dimension format.elementSize) query)
      (IDSelector.orderedIds sort ids) (⟨k, Q.empty, ⊤⟩ : TopKHolder Q)
    rw [hsingle, exists_map_eq_ok_iff, hdocs]

/-- Whole numbers tell an overflow. -/
theorem tellsOverflow_int (elementSize : ℕ) : TellsOverflow (id : ℤ → ℤ) elementSize := by
  intro a b _ _ hab heq
  have hpos : (0 : ℤ) < 2 ^ accumulatorBits elementSize := by positivity
  have heq : a = b := heq
  omega

/-- Three documents of bytes at terms 0 and 1. -/
def threeByteCorpus : SparseVectors Code :=
  ⟨U8, 2, [0, 1, 3, 4], [0, 0, 1, 1], [[5], [3], [2], [7]]⟩

/-- A mapped index with these documents in its remainder. -/
def threeByteIndex : DiskSeismicIndex ℤ :=
  { DiskSeismicIndex.new 2 ⟨0, 1, 1, ⟨2, ""⟩, 42⟩ with
    docLocators := [⟨DocLocator.kRemainder, 0, 0⟩, ⟨DocLocator.kRemainder, 1, 0⟩,
      ⟨DocLocator.kRemainder, 2, 0⟩]
    remainder := threeByteCorpus
    numVectors := 3 }

/-- Two of the documents, listed out of order and with an id that is no document's. -/
theorem exactMatch_iff_two_of_three :
    ExactlyMatched 3 (.array [2, 9, 0])
        (fun query d => exactScore ℤ U8 query (docRow threeByteCorpus d)) 4 [[(0, [2]), (1, [3])]]
        (exactMatch (sortedQueue TopKItem.score) insertionSort threeByteCorpus U8 2 4 [2, 9, 0]
          [[(0, [2]), (1, [3])]]) ∧
    ExactlyMatched 3 (.array [2, 9, 0])
        (fun query d => exactScore ℤ U8 query (docRow threeByteCorpus d)) 4 [[(0, [2]), (1, [3])]]
        (threeByteIndex.exactMatchDirectory (sortedQueue TopKItem.score) ⟨U8, fun _ => [0], id⟩ 4
          (IDSelector.orderedIds insertionSort [2, 9, 0]) [[(0, [2]), (1, [3])]]
          (zeroBuffer 2 U8)) := by
  have h := exactMatch_iff (sortedQueue TopKItem.score) insertionSort (F := ℤ) (by decide)
    threeByteCorpus threeByteIndex ⟨U8, fun _ => [0], id⟩ monotone_id (tellsOverflow_int U8)
    (tellsOverflow_int U8) ⟨rfl, by decide⟩ 2 (show (1 : ℤ) ≤ 4 by decide) (.array [2, 9, 0])
    (show exactMatchIds (some (.array [2, 9, 0])) 4 = some [2, 9, 0] from rfl)
    (show [[(0, [2]), (1, [3])]] ≠ ([] : List (SparseRow Code)) by decide) (by decide) (by decide)
  have hcondition : ExactlyServed (.array [2, 9, 0]) [2, 9, 0] threeByteCorpus 2 U8
      [[(0, [2]), (1, [3])]] :=
    ⟨(IDSelector.array_listsOnce_iff [2, 9, 0] 3).mpr (by decide), by decide, by decide⟩
  exact ⟨h.1.mpr hcondition, h.2.mpr hcondition⟩

/-- A document of one byte at term 0. -/
def oneByteCorpus : SparseVectors Code := ⟨U8, 1, [0, 1], [0], [[5]]⟩

/-- An array that names a document twice gets it twice. -/
theorem repeated_id_is_returned_twice :
    ¬ ExactlyMatched 1 (.array [0, 0])
        (fun query d => exactScore ℤ U8 query (docRow oneByteCorpus d)) 2 [[(0, [2])]]
        (exactMatch (sortedQueue TopKItem.score) insertionSort oneByteCorpus U8 1 2 [0, 0]
          [[(0, [2])]]) := by
  rintro ⟨results, hok, hexact⟩
  have hanswer : exactMatch (sortedQueue TopKItem.score) insertionSort oneByteCorpus U8 1 2 [0, 0]
      [[(0, [2])]] = (.ok ([[10, 10]], [[0, 0]]) : Except SearchFault (SearchRows ℤ)) := by
    decide +kernel
  rw [hanswer] at hok
  obtain ⟨-, hlabels⟩ := Prod.mk.inj (Except.ok.inj hok)
  obtain ⟨result, rest, ⟨found, hnodup, hmem, -, -, -, hfound⟩, -, rfl⟩ :=
    List.forall₂_cons_left_iff.mp hexact
  rw [← (List.cons.inj hlabels).1] at hfound
  -- the only document there is can be found once only
  have hle : found.length ≤ 1 := by
    have hsub : found ⊆ [0] := fun d hd => by
      rw [List.mem_singleton]
      exact Nat.lt_one_iff.mp ((hmem d).mp hd).1
    exact (hnodup.subperm hsub).length_le
  have htwice := congrArg (List.count 0) hfound
  rw [List.count_append, List.count_replicate, if_neg (by decide)] at htwice
  have hcount := List.count_le_length (a := (0 : ℤ)) (l := found.map fun d : ℕ => (d : ℤ))
  rw [← add_zero (List.count _ _), ← htwice, List.length_map] at hcount
  exact absurd (hcount.trans hle) (by decide)

end Nsparse
