/-
Nsparse/Selection.lean

Which labels a search with a selector returns.

A label of the rows of an index is a document, or padding.  Every type but one offers
its heap the documents that pass, or, on the exact-match paths, those that the selector
lists (`PlainIndex.admitted_of_searchRows`), and an id map judges a document by the
caller's id for it.  The brute-force index has no use for the parameters of a search, so
it honours a selector only by accident: when every document is a member
(`honoursSelector_iff`).  That one of them has a term at or above the dimension does not
keep it from returning the others: the term is looked up behind the query buffer, unchecked,
and the search goes on with whatever is there.
-/
import Nsparse.LabelTranslation
import Nsparse.PlainRows

namespace Nsparse

variable {F : Type}

/-! ### Labels of rows -/

section Labels

variable [One F] [Neg F] {A : Type} {k : ℕ} {P : A → TopKItem F ℤ → Prop} {decode : F → F}

/-- The labels of filled rows, all in one. -/
theorem FilledRows.labels {queries : List A} {rows : SearchRows F}
    (h : FilledRows k P decode queries rows) :
    rows.2.flatten.length = queries.length * k ∧
      ∀ label ∈ rows.2.flatten, label = INVALID_IDX ∨ ∃ query x, P query x ∧ x.id = label := by
  obtain ⟨results, rfl, hall⟩ := h
  induction hall with
  | nil => exact ⟨(Nat.zero_mul k).symm, nofun⟩
  | @cons query row queries results hrow _ ih =>
      obtain ⟨hlen, hlabels⟩ := hrow.labels
      obtain ⟨hlens, hrest⟩ := ih
      constructor
      · show (row.2 ++ (results.map Prod.snd).flatten).length = _
        rw [List.length_append, hlen, List.length_cons, Nat.succ_mul, Nat.add_comm]
        exact congrArg (· + k) hlens
      · intro label hlabel
        rcases List.mem_append.mp hlabel with hlabel | hlabel
        · exact (hlabels label hlabel).imp id fun ⟨x, hx⟩ => ⟨query, x, hx⟩
        · exact hrest label hlabel

end Labels

/-! ### Searching -/

/-- The arguments of a search with places for its results. -/
def CsrArgs.searchArgs (queries : CsrArgs F) (k : ℤ) (distances : List F) (labels : List ℤ) :
    SearchArgs F :=
  ⟨queries.n, queries.indptr, queries.indices, queries.values, k, some distances, some labels⟩

section Searches

variable [Ring F] [LinearOrder F] [FloatFormat F]

/-- The protected `search`; `none` is a search that runs out of fuel. -/
def PlainIndex.searchRows (tools : SearchTools F) (n : ℤ) (indptr indices : List ℕ)
    (values : List F) (k : ℤ) (params : Option (SearchFields F)) (sel : Option IDSelector) :
    PlainIndex F → Option (Except SearchFault (SearchRows F))
  | brutal x => some (x.searchOver tools.heap tools.behind n indptr indices values k)
  | inverted x =>
      ((InvertedIndex.asIndex tools.heap tools.sort tools.fuel).search x n indptr indices values k
        params sel).map SearchFault.lift
  | seismic x =>
      some (x.search tools.heap tools.tokens tools.sort (floatSearch F) n indptr indices values k
        params sel)
  | seismicSQ sq x =>
      some (x.search tools.heap tools.tokens tools.sort (quantizedSearch sq) n indptr indices values
        k params sel)
  | diskSeismic x =>
      some (x.search tools.heap tools.tokens tools.sort tools.nth (floatSearch F) n indptr indices
        values k params sel)
  | diskSeismicSQ sq x =>
      some (x.search tools.heap tools.tokens tools.sort tools.nth (diskQuantizedSearch sq) n indptr
        indices values k params sel)

variable {tools : SearchTools F} {queries : CsrArgs F} {indptr indices : List ℕ} {values : List F}
  {k : ℤ} {params : Option (SearchFields F)} {sel : Option IDSelector} {rows : SearchRows F}

omit [Ring F] [LinearOrder F] [FloatFormat F] in
/-- The arrays that a check lets through. -/
theorem CsrArgs.arrays_of_checked (h : queries.checked = .ok (indptr, indices, values)) :
    queries.indptr = some indptr ∧ queries.indices = some indices ∧
      queries.values = some values := by
  unfold CsrArgs.checked at h
  split at h
  · cases h
  · split at h
    · rename_i hindptr hindices hvalues
      obtain ⟨rfl, rest⟩ := Prod.mk.inj (Except.ok.inj h)
      obtain ⟨rfl, rfl⟩ := Prod.mk.inj rest
      exact ⟨hindptr, hindices, hvalues⟩
    · cases h

omit [Ring F] [LinearOrder F] [FloatFormat F] in
/-- The rows of a search are copied out. -/
theorem publicSearch_of_rows
    (search : ℤ → List ℕ → List ℕ → List F → ℤ → Except SearchFault (SearchRows F))
    (hqueries : queries.checked = .ok (indptr, indices, values)) (hk : 0 < k)
    (distances : List F) (labels : List ℤ)
    (h : search queries.n indptr indices values k = .ok rows) :
    publicSearch search (queries.searchArgs k distances labels)
      = .ok (.returned (copyResults distances rows.1) (copyResults labels rows.2)) := by
  have hn := (CsrArgs.checked_eq_ok hqueries).1
  obtain ⟨hindptr, hindices, hvalues⟩ := CsrArgs.arrays_of_checked hqueries
  unfold publicSearch CsrArgs.searchArgs
  dsimp only
  rw [if_neg (not_le.mpr hn), if_neg (not_le.mpr hk), hindptr, hindices, hvalues]
  dsimp only
  rw [h]

/-- **A search that has rows** copies them out. -/
theorem PlainIndex.search_of_rows {x : PlainIndex F}
    (hqueries : queries.checked = .ok (indptr, indices, values)) (hk : 0 < k)
    (h : x.searchRows tools queries.n indptr indices values k params sel = some (.ok rows))
    (distances : List F) (labels : List ℤ) :
    x.search tools (queries.searchArgs k distances labels) params sel
      = .ok (.returned (copyResults distances rows.1) (copyResults labels rows.2)) := by
  cases x with
  | brutal x => exact publicSearch_of_rows _ hqueries hk distances labels (Option.some.inj h)
  | inverted x =>
      have hn := (CsrArgs.checked_eq_ok hqueries).1
      obtain ⟨hindptr, hindices, hvalues⟩ := CsrArgs.arrays_of_checked hqueries
      obtain ⟨result, hresult, hrows⟩ := Option.map_eq_some_iff.mp h
      obtain rfl := lift_eq_ok hrows
      show Except.ok (Index.publicSearch _ x _ params sel) = _
      unfold Index.publicSearch CsrArgs.searchArgs
      dsimp only
      rw [if_neg (not_le.mpr hn), if_neg (not_le.mpr hk), hindptr, hindices, hvalues]
      dsimp only
      rw [hresult]
  | seismic x =>
      rw [PlainIndex.search, StoredIndex.search]
      exact publicSearch_of_rows _ hqueries hk distances labels (Option.some.inj h)
  | seismicSQ sq x =>
      rw [PlainIndex.search, StoredIndex.search]
      exact publicSearch_of_rows _ hqueries hk distances labels (Option.some.inj h)
  | diskSeismic x =>
      rw [PlainIndex.search, StoredIndex.search]
      exact publicSearch_of_rows _ hqueries hk distances labels (Option.some.inj h)
  | diskSeismicSQ sq x =>
      rw [PlainIndex.search, StoredIndex.search]
      exact publicSearch_of_rows _ hqueries hk distances labels (Option.some.inj h)

omit [Ring F] [LinearOrder F] [FloatFormat F] in
theorem publicSearch_pos
    {search : ℤ → List ℕ → List ℕ → List F → ℤ → Except SearchFault (SearchRows F)}
    {a : SearchArgs F} {ds : List F} {ls : List ℤ}
    (h : publicSearch search a = .ok (.returned ds ls)) : 0 < a.k := by
  unfold publicSearch at h
  split at h
  · cases h
  · split at h
    · cases h
    · rename_i hk
      exact not_le.mp hk

/-- Only a search for something returns. -/
theorem PlainIndex.pos_of_returned {x : PlainIndex F} {a : SearchArgs F} {ds : List F}
    {ls : List ℤ} (h : x.search tools a params sel = .ok (.returned ds ls)) : 0 < a.k := by
  cases x with
  | brutal x => exact publicSearch_pos h
  | inverted x =>
      have hreturned := Except.ok.inj h
      unfold Index.publicSearch at hreturned
      split at hreturned
      · cases hreturned
      · split at hreturned
        · cases hreturned
        · rename_i hk
          exact not_le.mp hk
  | seismic x =>
      rw [PlainIndex.search, StoredIndex.search] at h
      exact publicSearch_pos h
  | seismicSQ sq x =>
      rw [PlainIndex.search, StoredIndex.search] at h
      exact publicSearch_pos h
  | diskSeismic x =>
      rw [PlainIndex.search, StoredIndex.search] at h
      exact publicSearch_pos h
  | diskSeismicSQ sq x =>
      rw [PlainIndex.search, StoredIndex.search] at h
      exact publicSearch_pos h

/-! ### What is offered -/

/-- At most `k` labels for each of `n` queries, and every one of them is padding or as `P` says. -/
structure RowLabels (n k : ℤ) (P : ℤ → Prop) (rows : SearchRows F) : Prop where
  room : rows.2.flatten.length ≤ n.toNat * k.toNat
  labels : ∀ label ∈ rows.2.flatten, label = INVALID_IDX ∨ P label

omit [Ring F] [LinearOrder F] [FloatFormat F] in
theorem rowLabels_emptyRows (n k : ℤ) (P : ℤ → Prop) : RowLabels n k P (emptyRows F n) := by
  rw [emptyRows]
  constructor
  · show (List.replicate n.toNat ([] : List ℤ)).flatten.length ≤ _
    rw [List.flatten_replicate_nil]
    exact Nat.zero_le _
  · show ∀ label ∈ (List.replicate n.toNat ([] : List ℤ)).flatten, _
    rw [List.flatten_replicate_nil]
    exact fun label hlabel => absurd hlabel List.not_mem_nil

omit [LinearOrder F] [FloatFormat F] in
theorem FilledRows.rowLabels {A : Type} {P : A → TopKItem F ℤ → Prop} {P' : ℤ → Prop}
    {decode : F → F} {asked : List A} {n : ℤ} (h : FilledRows k.toNat P decode asked rows)
    (hn : asked.length = n.toNat) (hP : ∀ query x, P query x → P' x.id) : RowLabels n k P' rows := by
  obtain ⟨hlen, hlabels⟩ := h.labels
  refine ⟨by rw [hlen, hn], fun label hlabel => ?_⟩
  rcases hlabels label hlabel with hpadding | ⟨query, x, hx, rfl⟩
  · exact Or.inl hpadding
  · exact Or.inr (hP query x hx)

theorem SeismicIndex.rowLabels {x : SeismicIndex F}
    {queryFormat : Option (SearchFields F) → Except Exception (QueryFormat F)}
    (hqueries : queries.checked = .ok (indptr, indices, values))
    (h : x.search tools.heap tools.tokens tools.sort queryFormat queries.n indptr indices values k
      params sel = .ok rows) : RowLabels queries.n k (Admitted sel) rows := by
  rcases x.search_filled hqueries h with ⟨rfl, -⟩ | ⟨-, format, -, hfilled⟩
  · exact rowLabels_emptyRows _ _ _
  · exact hfilled.rowLabels (length_codedQueries ..) fun query x hx => hx.admitted

theorem DiskSeismicIndex.rowLabels {x : DiskSeismicIndex F}
    {queryFormat : Option (SearchFields F) → Except Exception (QueryFormat F)}
    (hqueries : queries.checked = .ok (indptr, indices, values))
    (h : x.search tools.heap tools.tokens tools.sort tools.nth queryFormat queries.n indptr indices
      values k params sel = .ok rows) : RowLabels queries.n k (Admitted sel) rows := by
  rcases x.search_filled hqueries h with rfl | ⟨format, -, hfilled⟩
  · constructor
    · simp [paddedResults]
    · intro label hlabel
      obtain ⟨row, hrow, hlabel⟩ := List.mem_flatten.mp hlabel
      rw [List.eq_of_mem_replicate hrow] at hlabel
      exact Or.inl (List.eq_of_mem_replicate hlabel)
  · exact hfilled.rowLabels (length_codedQueries ..) fun query x hx => hx.admitted

/-- What an index offers for a selector: the brute-force one all its documents, any other one those
that are admitted. -/
def PlainIndex.Offers (sel : Option IDSelector) : PlainIndex F → ℤ → Prop
  | brutal b, label => ∃ vectors, b.Answers vectors ∧ ∃ i < vectors.numVectors, label = toIdx i
  | _, label => Admitted sel label

omit [Ring F] [LinearOrder F] [FloatFormat F] in
theorem CsrArgs.length_rows_of_checked (h : queries.checked = .ok (indptr, indices, values)) :
    queries.rows.length = queries.n.toNat := by
  obtain ⟨-, -, -, -, -, hcount⟩ := CsrArgs.checked_eq_ok h
  rw [← hcount, Int.toNat_natCast]

/-- **Every type but the brute-force one** reads the selector on all its paths. -/
theorem PlainIndex.rowLabels {x : PlainIndex F} (hk : 0 < k)
    (hqueries : queries.checked = .ok (indptr, indices, values))
    (h : x.searchRows tools queries.n indptr indices values k params sel = some (.ok rows)) :
    RowLabels queries.n k (x.Offers sel) rows := by
  have hcount := CsrArgs.length_rows_of_checked hqueries
  cases x with
  | brutal b =>
      rcases b.search_filled hk hqueries (Option.some.inj h) with ⟨rfl, -⟩ | ⟨vectors, hb, -, hfilled⟩
      · exact rowLabels_emptyRows _ _ _
      · refine hfilled.rowLabels hcount ?_
        rintro query item ⟨dense, -, i, row, hrow, hid, -⟩
        have hlt := (List.getElem?_eq_some_iff.mp hrow).1
        rw [SparseVectors.length_rows] at hlt
        exact ⟨vectors, hb, i, hlt, hid⟩
  | inverted x =>
      obtain ⟨result, hresult, hrows⟩ := Option.map_eq_some_iff.mp h
      obtain rfl := lift_eq_ok hrows
      obtain ⟨⟨-, left⟩, hsearch, rfl⟩ := Option.map_eq_some_iff.mp hresult
      rcases x.search_filled hqueries hsearch with ⟨rfl, -⟩ | ⟨lists, -, hfilled⟩
      · exact rowLabels_emptyRows _ _ _
      · exact hfilled.rowLabels hcount fun query x hpasses => Or.inl hpasses.1
  | seismic x => exact SeismicIndex.rowLabels hqueries (Option.some.inj h)
  | seismicSQ sq x => exact SeismicIndex.rowLabels hqueries (Option.some.inj h)
  | diskSeismic x => exact DiskSeismicIndex.rowLabels hqueries (Option.some.inj h)
  | diskSeismicSQ sq x => exact DiskSeismicIndex.rowLabels hqueries (Option.some.inj h)

end Searches

/-! ### Translated labels -/

namespace IDMapIndex

variable {σ : Type} {m : IDMapIndex σ} {n k : ℕ} {labels result : List ℤ}

/-- A loop over the labels that comes to its end has translated every one of them. -/
theorem translated_of_translateLabels (hlen : n * k ≤ labels.length)
    (h : m.translateLabels n k labels = some result) :
    m.Translated (n * k) labels result ∧
      ∀ label ∈ labels.take (n * k), (m.externalId label).isSome = true := by
  have hsize : n * k ≤ 2 ^ 31 := by
    by_contra hover
    rw [translateLabels_eq_none (not_le.mp hover)] at h
    cases h
  have hknown : ∀ label ∈ labels.take (n * k), (m.externalId label).isSome = true := by
    rw [translateLabels_eq_update hsize] at h
    exact RowMajor.isSome_of_foldlM_update hlen h
  rw [translateLabels_eq hsize hlen hknown] at h
  obtain rfl := Option.some.inj h
  exact ⟨translated_map hlen hknown, hknown⟩

/-- What it makes of a document is the caller's id for it. -/
theorem exists_id_of_translateLabels (hlen : n * k ≤ labels.length)
    (h : m.translateLabels n k labels = some result) {slot : ℕ} (hslot : slot < n * k) {label : ℤ}
    (hlabel : labels[slot]? = some label) (hpos : 0 ≤ label) :
    ∃ id, m.internalToExternal[label.toNat]? = some id ∧ result[slot]? = some id := by
  obtain ⟨htranslated, hknown⟩ := translated_of_translateLabels hlen h
  have htake : (labels.take (n * k))[slot]? = some label := by
    rw [List.getElem?_take_of_lt hslot, hlabel]
  have hsome := hknown label (List.mem_of_getElem? htake)
  rw [externalId, if_neg (not_lt.mpr hpos)] at hsome
  obtain ⟨id, hid⟩ := Option.isSome_iff_exists.mp hsome
  exact ⟨id, hid, (htranslated.external slot hslot label hpos hlabel).trans hid⟩

/-- A search through an id map returns when its delegate does and the labels are translated. -/
theorem searchPlain_eq_returned [Ring F] [LinearOrder F] [FloatFormat F] {tools : SearchTools F}
    {m : IDMapIndex (PlainIndex F)} {a : SearchArgs F} {params : Option (SearchFields F)}
    {sel : Option IDSelector} {ds : List F} {ls : List ℤ}
    (h : m.searchPlain tools a params sel = .ok (.returned ds ls)) :
    ∃ labels, m.delegate.search tools a params
        (sel.map (IDSelector.withIdMap m.internalToExternal m.externalToInternal))
        = .ok (.returned ds labels) ∧ m.translateLabels a.n a.k labels = some ls := by
  unfold searchPlain at h
  generalize m.delegate.search tools a params _ = result at h ⊢
  rcases result with e | outcome
  · cases h
  · have htranslate : m.translate a outcome = .returned ds ls := Except.ok.inj h
    cases outcome with
    | returned ds' labels =>
        unfold translate at htranslate
        dsimp only at htranslate
        split at htranslate
        · cases htranslate
        · rename_i result hresult
          obtain ⟨rfl, rfl⟩ := SearchOutcome.returned.inj htranslate
          exact ⟨labels, rfl, hresult⟩
    | threw e => cases htranslate
    | deadSelector => cases htranslate
    | outOfRange => cases htranslate
    | outOfFuel => cases htranslate

end IDMapIndex

/-! ### Selectors -/

namespace IDSelector

/-- The selectors a caller can make: of a set or an array of ids, and those of everything else. -/
inductive Provided : IDSelector → Prop
  | set (order : HashOrder) (ids : List ℤ) : Provided (.set order ids)
  | array (ids : List ℤ) : Provided (.array ids)
  | not {s : IDSelector} : Provided s → Provided s.not

/-- What they list are members. -/
theorem Provided.isMember_of_mem {isMember : ℤ → Bool} {ids : List ℤ} {size : ℕ}
    (h : Provided (.enumerable isMember ids size)) {id : ℤ} (hid : id ∈ ids) : isMember id = true := by
  generalize hs : enumerable isMember ids size = s at h
  cases h with
  | set order listed =>
      obtain ⟨rfl, rfl, -⟩ := IDSelector.enumerable.inj hs
      rw [(order.perm listed).mem_iff, List.mem_dedup] at hid
      exact decide_eq_true hid
  | array listed =>
      obtain ⟨rfl, rfl, -⟩ := IDSelector.enumerable.inj hs
      exact decide_eq_true hid
  | not h => cases hs

/-- **What is admitted is a member.** -/
theorem Provided.isMember_of_admitted {s : IDSelector} (h : s.Provided) {doc : ℤ}
    (hdoc : Admitted (some s) doc) : s.isMember doc = true := by
  rcases hdoc with hpasses | ⟨isMember, ids, size, hs, hmem⟩
  · exact hpasses
  · obtain rfl := Option.some.inj hs
    exact h.isMember_of_mem hmem

/-- Through an id map, a document is admitted when the caller's id for it is a member. -/
theorem Provided.isMember_of_mapped {s : IDSelector} (h : s.Provided) {idMap : List ℤ}
    {externalIdMap : ℤ → Option ℤ}
    (hinverse : ∀ id d, externalIdMap id = some d ↔ ∃ i : ℕ, d = i ∧ idMap[i]? = some id)
    {doc id : ℤ} (hdoc : Admitted (some (s.withIdMap idMap externalIdMap)) doc)
    (hid : idMap[doc.toNat]? = some id) : s.isMember id = true := by
  have hgetD : idMap.getD doc.toNat 0 = id := by
    rw [List.getD_eq_getElem?_getD, hid, Option.getD_some]
  rcases hdoc with hpasses | ⟨isMember', ids', size', hs, hmem⟩
  · cases s with
    | plain f => exact hgetD ▸ hpasses
    | enumerable f ids size => exact hgetD ▸ hpasses
  · cases s with
    | plain f => cases hs
    | enumerable f ids size =>
        obtain ⟨-, rfl, -⟩ := IDSelector.enumerable.inj (Option.some.inj hs)
        obtain ⟨id', hlisted, hmapped⟩ := List.mem_filterMap.mp hmem
        obtain ⟨i, rfl, hi⟩ := (hinverse id' doc).mp hmapped
        obtain rfl := Option.some.inj (hi.symm.trans hid)
        exact h.isMember_of_mem hlisted

end IDSelector

/-! ### The index as its caller sees it -/

/-- An index of any type, or one of them under an id map. -/
inductive SearchedIndex (F : Type) [LT F] [FloatFormat F]
  | direct (x : PlainIndex F)
  | mapped (m : IDMapIndex (PlainIndex F))

namespace SearchedIndex

variable [Ring F] [LinearOrder F] [FloatFormat F]

def delegate : SearchedIndex F → PlainIndex F
  | direct x => x
  | mapped m => m.delegate

/-- The selector that the index of a type is searched with. -/
def selector (s : IDSelector) : SearchedIndex F → IDSelector
  | direct _ => s
  | mapped m => s.withIdMap m.internalToExternal m.externalToInternal

def search (tools : SearchTools F) : SearchedIndex F → SearchArgs F → Option (SearchFields F) →
    Option IDSelector → Except SearchFault (SearchOutcome F)
  | direct x, a, params, sel => x.search tools a params sel
  | mapped m, a, params, sel => m.searchPlain tools a params sel

/-- A label that names a document.  An id map looks up those that are not negative. -/
def Names (label : ℤ) : SearchedIndex F → Prop
  | direct _ => label ≠ INVALID_IDX
  | mapped _ => 0 ≤ label

/-- The caller's id for a document. -/
def idOf (doc : ℤ) : SearchedIndex F → Option ℤ
  | direct _ => some doc
  | mapped m => m.internalToExternal[doc.toNat]?

/-- The id map, if there is one, is a bijection between the documents and their ids. -/
def Bijective : SearchedIndex F → Prop
  | direct _ => True
  | mapped m =>
      m.internalToExternal.length = m.delegate.numVectors ∧
        ∀ id d, m.externalToInternal id = some d ↔
          ∃ i : ℕ, d = i ∧ m.internalToExternal[i]? = some id

/-- **The selector is honoured**: whenever a search returns, in arrays with a place for every result
and over whatever memory, the caller finds a member where a label of the rows names a document. -/
def HonoursSelector (tools : SearchTools F) (x : SearchedIndex F) (s : IDSelector) : Prop :=
  ∀ (behind : List F) (queries : CsrArgs F) (indptr indices : List ℕ) (values : List F) (k : ℤ)
    (params : Option (SearchFields F)) (distances : List F) (labels : List ℤ) (rows : SearchRows F)
    (ds : List F) (ls : List ℤ),
    queries.checked = .ok (indptr, indices, values) →
    queries.n.toNat * k.toNat ≤ labels.length →
    x.delegate.searchRows { tools with behind } queries.n indptr indices values k params
      (some (x.selector s)) = some (.ok rows) →
    x.search { tools with behind } (queries.searchArgs k distances labels) params (some s)
      = .ok (.returned ds ls) →
    ∀ (slot : ℕ) (label : ℤ), rows.2.flatten[slot]? = some label → x.Names label →
      ∃ id, ls[slot]? = some id ∧ s.isMember id = true

/-- What the brute-force index lacks: that its documents are members, when it has a dimension. -/
def MembersOnly (s : IDSelector) (x : SearchedIndex F) : Prop :=
  ∀ b vectors, x.delegate = .brutal b → b.Answers vectors →
    ∀ i < vectors.numVectors, ∀ id, x.idOf (i : ℕ) = some id → s.isMember id = true

variable {tools : SearchTools F} {x : SearchedIndex F} {s : IDSelector} {queries : CsrArgs F}
  {indptr indices : List ℕ} {values : List F} {k : ℤ} {params : Option (SearchFields F)}
  {distances ds : List F} {labels ls : List ℤ} {rows : SearchRows F}

omit [Ring F] [LinearOrder F] [FloatFormat F] in
theorem getElem?_copyResults {α : Type} {dest : List α} {results : List (List α)} {slot : ℕ} {y : α}
    (h : results.flatten[slot]? = some y) : (copyResults dest results)[slot]? = some y := by
  rw [copyResults, List.getElem?_append_left (List.getElem?_eq_some_iff.mp h).1, h]

/-- **Where a row names a document**, the caller finds his id for it. -/
theorem exists_id_of_returned (hqueries : queries.checked = .ok (indptr, indices, values))
    (hplaces : queries.n.toNat * k.toNat ≤ labels.length)
    (hrows : x.delegate.searchRows tools queries.n indptr indices values k params
      (some (x.selector s)) = some (.ok rows))
    (h : x.search tools (queries.searchArgs k distances labels) params (some s)
      = .ok (.returned ds ls)) :
    0 < k ∧ ∀ (slot : ℕ) (label : ℤ), rows.2.flatten[slot]? = some label → x.Names label →
      ∃ id, x.idOf label = some id ∧ ls[slot]? = some id := by
  cases x with
  | direct x =>
      have hk : 0 < k := PlainIndex.pos_of_returned h
      refine ⟨hk, fun slot label hlabel _ => ⟨label, rfl, ?_⟩⟩
      have hcopied := PlainIndex.search_of_rows hqueries hk hrows distances labels
      obtain ⟨-, rfl⟩ := SearchOutcome.returned.inj (Except.ok.inj (h.symm.trans hcopied))
      exact getElem?_copyResults hlabel
  | mapped m =>
      obtain ⟨copied, hdelegate, htranslate⟩ := IDMapIndex.searchPlain_eq_returned h
      have hk : 0 < k := PlainIndex.pos_of_returned hdelegate
      refine ⟨hk, fun slot label hlabel hnames => ?_⟩
      have hcopied := PlainIndex.search_of_rows hqueries hk hrows distances labels
      obtain ⟨-, rfl⟩ := SearchOutcome.returned.inj (Except.ok.inj (hdelegate.symm.trans hcopied))
      have hslot : slot < queries.n.toNat * k.toNat :=
        lt_of_lt_of_le (List.getElem?_eq_some_iff.mp hlabel).1
          (PlainIndex.rowLabels hk hqueries hrows).room
      have hn := (CsrArgs.checked_eq_ok hqueries).1.le
      have hloop : m.translateLabels (queries.n.toNat : ℕ) (k.toNat : ℕ) (copyResults labels rows.2)
          = some ls := by
        rw [Int.toNat_of_nonneg hn, Int.toNat_of_nonneg hk.le]
        exact htranslate
      have hlen := hplaces.trans (IDMapIndex.length_le_copyResults labels rows.2)
      exact IDMapIndex.exists_id_of_translateLabels hlen hloop hslot (getElem?_copyResults hlabel)
        hnames

omit [Ring F] in
/-- A member, if the index that is searched admits the document. -/
theorem isMember_of_admitted (hx : x.Bijective) (hs : s.Provided) {label id : ℤ}
    (hlabel : Admitted (some (x.selector s)) label) (hid : x.idOf label = some id) :
    s.isMember id = true := by
  cases x with
  | direct x =>
      obtain rfl := Option.some.inj hid
      exact hs.isMember_of_admitted hlabel
  | mapped m => exact hs.isMember_of_mapped hx.2 hlabel hid

theorem honoursSelector_of_membersOnly (hx : x.Bijective) (hfew : x.delegate.numVectors < 2 ^ 31)
    (hs : s.Provided) (h : x.MembersOnly s) : x.HonoursSelector tools s := by
  intro behind queries indptr indices values k params distances labels rows ds ls hqueries hplaces
    hrows hreturned slot label hlabel hnames
  obtain ⟨hk, hcaller⟩ := exists_id_of_returned hqueries hplaces hrows hreturned
  obtain ⟨id, hid, hls⟩ := hcaller slot label hlabel hnames
  refine ⟨id, hls, ?_⟩
  have hnot : label ≠ INVALID_IDX := by
    rintro rfl
    cases x with
    | direct x => exact hnames rfl
    | mapped m => exact absurd (show 0 ≤ INVALID_IDX from hnames) (by decide)
  rcases (PlainIndex.rowLabels hk hqueries hrows).labels label (List.mem_of_getElem? hlabel)
    with hpadding | hoffers
  · exact absurd hpadding hnot
  · rcases hdelegate : x.delegate with b | y | y | ⟨sq, y⟩ | y | ⟨sq, y⟩
    · -- the one that does not read it
      rw [hdelegate] at hoffers
      obtain ⟨vectors, hb, i, hi, rfl⟩ := hoffers
      have hcount : vectors.numVectors < 2 ^ 31 := by
        rw [hdelegate] at hfew
        show vectors.numVectors < 2 ^ 31
        rwa [PlainIndex.numVectors, BrutalIndex.numVectors, hb.holds] at hfew
      rw [toIdx_eq_self_iff.mpr (hi.trans hcount)] at hid
      exact h b vectors hdelegate hb i hi id hid
    all_goals
      rw [hdelegate] at hoffers
      exact isMember_of_admitted hx hs hoffers hid

/-- A search whose labels are all known returns. -/
theorem exists_returned (hx : x.Bijective) (distances : List F)
    (hqueries : queries.checked = .ok (indptr, indices, values)) (hk : 0 < k)
    (hplaces : queries.n.toNat * k.toNat ≤ labels.length)
    (hrows : x.delegate.searchRows tools queries.n indptr indices values k params
      (some (x.selector s)) = some (.ok rows))
    (hsmall : ∀ label ∈ copyResults labels rows.2, label < x.delegate.numVectors)
    (hsize : queries.n.toNat * k.toNat ≤ 2 ^ 31) :
    ∃ ds ls, x.search tools (queries.searchArgs k distances labels) params (some s)
      = .ok (.returned ds ls) := by
  have hcopied := PlainIndex.search_of_rows hqueries hk hrows distances labels
  cases x with
  | direct x => exact ⟨_, _, hcopied⟩
  | mapped m =>
      have hn := (CsrArgs.checked_eq_ok hqueries).1.le
      have hlen := hplaces.trans (IDMapIndex.length_le_copyResults labels rows.2)
      have hknown : ∀ label ∈ (copyResults labels rows.2).take (queries.n.toNat * k.toNat),
          (m.externalId label).isSome := by
        intro label hlabel
        apply IDMapIndex.externalId_isSome
        rw [hx.1]
        exact hsmall label (List.mem_of_mem_take hlabel)
      obtain ⟨result, hloop⟩ : ∃ result, m.translateLabels (queries.searchArgs k distances labels).n
          (queries.searchArgs k distances labels).k (copyResults labels rows.2) = some result := by
        have hloop := IDMapIndex.translateLabels_eq hsize hlen hknown
        rw [Int.toNat_of_nonneg hn, Int.toNat_of_nonneg hk.le] at hloop
        exact ⟨_, hloop⟩
      refine ⟨copyResults distances rows.1, result, ?_⟩
      show (m.delegate.search tools _ params _).map (m.translate _) = _
      unfold delegate at hcopied
      unfold selector at hcopied
      rw [Option.map_some, hcopied]
      show Except.ok (m.translate _ (.returned _ _)) = _
      rw [IDMapIndex.translate, hloop]

omit [Ring F] [LinearOrder F] [FloatFormat F] in
/-- All terms are below some number. -/
theorem exists_termsBelow (docs : List (SparseRow F)) : ∃ n, TermsBelow n docs := by
  refine ⟨(docs.flatten.map Prod.fst).sum + 1, fun row hrow entry hentry => Nat.lt_succ_of_le ?_⟩
  exact List.single_le_sum (fun _ _ => Nat.zero_le _) _
    (List.mem_map_of_mem (List.mem_flatten_of_mem hrow hentry))

/-- **The brute-force index** returns all its documents for it, whatever the selector is: over zeros,
those with a term at or above the dimension as well. -/
theorem membersOnly_of_honoursSelector (hx : x.Bijective)
    (hfew : x.delegate.numVectors < 2 ^ 31) (h : x.HonoursSelector tools s) : x.MembersOnly s := by
  intro b vectors hdelegate hb i hi id hid
  have hne : vectors.numVectors ≠ 0 := Nat.ne_zero_of_lt hi
  have hcount : x.delegate.numVectors = vectors.numVectors := by
    rw [hdelegate, PlainIndex.numVectors, BrutalIndex.numVectors, hb.holds]
    rfl
  rw [hcount] at hfew
  obtain ⟨spare, hbelow⟩ := exists_termsBelow vectors.rows
  have hterms : TermsBelow (b.dimension + spare) vectors.rows := fun row hrow entry hentry =>
    (hbelow row hrow entry hentry).trans_le (Nat.le_add_left spare b.dimension)
  obtain ⟨row, hsearch, hall⟩ := BrutalIndex.search_all (Q := tools.heap) hb hterms hfew hne
  have hqueries : (CsrArgs.emptyQuery F).checked = .ok ([0, 0], [], []) := rfl
  have hk : (0 : ℤ) < vectors.numVectors := by exact_mod_cast Nat.pos_of_ne_zero hne
  have hrows : x.delegate.searchRows { tools with behind := List.replicate spare 0 }
      (CsrArgs.emptyQuery F).n [0, 0] [] [] vectors.numVectors none (some (x.selector s))
        = some (.ok ([row.1], [row.2])) := by
    rw [hdelegate]
    exact congrArg some hsearch
  -- places for all documents
  have hplaces : (CsrArgs.emptyQuery F).n.toNat * (vectors.numVectors : ℤ).toNat
      ≤ (List.replicate vectors.numVectors (0 : ℤ)).length := by
    rw [List.length_replicate, Int.toNat_natCast]
    exact (Nat.one_mul _).le
  have hsmall : ∀ label ∈ copyResults (List.replicate vectors.numVectors (0 : ℤ)) [row.2],
      label < vectors.numVectors := by
    intro label hlabel
    rcases List.mem_append.mp hlabel with hlabel | hlabel
    · rcases (PlainIndex.rowLabels hk hqueries hrows).labels label hlabel with rfl | hoffers
      · exact lt_of_lt_of_le (by decide) hk.le
      · rw [hdelegate] at hoffers
        obtain ⟨vectors', hb', j, hj, rfl⟩ := hoffers
        obtain rfl := Option.some.inj (hb'.holds.symm.trans hb.holds)
        rw [toIdx_eq_self_iff.mpr (hj.trans hfew)]
        exact_mod_cast hj
    · rw [List.eq_of_mem_replicate (List.mem_of_mem_drop hlabel)]
      exact hk
  have hsize : (CsrArgs.emptyQuery F).n.toNat * (vectors.numVectors : ℤ).toNat ≤ 2 ^ 31 := by
    rw [Int.toNat_natCast]
    exact ((Nat.one_mul _).le).trans hfew.le
  obtain ⟨ds, ls, hreturned⟩ := exists_returned (F := F) hx [] hqueries hk hplaces hrows
    (hcount ▸ hsmall) hsize
  obtain ⟨slot, hslot⟩ := List.mem_iff_getElem?.mp (hall i hi)
  have hlabel : ([row.2] : List (List ℤ)).flatten[slot]? = some (i : ℤ) := by
    rw [List.flatten_singleton]
    exact hslot
  have hnames : x.Names i := by
    cases x with
    | direct x => exact fun hinvalid => absurd (hinvalid ▸ Int.natCast_nonneg i) (by decide)
    | mapped m => exact Int.natCast_nonneg i
  obtain ⟨id', hls', hmember⟩ := h _ (.emptyQuery F) _ _ _ _ none [] _ _ ds ls hqueries hplaces hrows
    hreturned slot i hlabel hnames
  obtain ⟨id'', hid'', hls''⟩ := (exists_id_of_returned hqueries hplaces hrows hreturned).2 slot i
    hlabel hnames
  obtain rfl := Option.some.inj (hid.symm.trans hid'')
  obtain rfl := Option.some.inj (hls'.symm.trans hls'')
  exact hmember

/-- **Selection**, exactly.  A search honours the selector on every type of index but the brute-force
one; that one does when its documents are all members, or it has no dimension and answers nothing. -/
theorem honoursSelector_iff (tools : SearchTools F) (hx : x.Bijective)
    (hfew : x.delegate.numVectors < 2 ^ 31) (hs : s.Provided) :
    x.HonoursSelector tools s ↔ x.MembersOnly s :=
  ⟨membersOnly_of_honoursSelector hx hfew, honoursSelector_of_membersOnly hx hfew hs⟩

/-! ### Two documents under a brute-force index -/

def plainTools : SearchTools ℤ where
  heap := sortedQueue TopKItem.score
  tokens := sortedQueue TopKItem.score
  sort := insertionSort
  nth := insertionSort.nthElement
  fuel := 10
  behind := []

/-- Two documents of one term, found under the ids 70 and 80. -/
def twoMapped : SearchedIndex ℤ :=
  .mapped ⟨.brutal ⟨1, some ⟨kElementSize, 1, [0, 1, 2], [0, 0], [5, 3]⟩⟩, [70, 80],
    fun id => if id = 70 then some 0 else if id = 80 then some 1 else none⟩

theorem twoMapped_bijective : twoMapped.Bijective := by
  refine ⟨rfl, fun id d => ?_⟩
  show (if id = 70 then some (0 : ℤ) else if id = 80 then some 1 else none) = some d ↔
    ∃ i : ℕ, d = i ∧ [70, 80][i]? = some id
  constructor
  · intro h
    split at h
    · obtain rfl := Option.some.inj h
      subst id
      exact ⟨0, rfl, rfl⟩
    · split at h
      · obtain rfl := Option.some.inj h
        subst id
        exact ⟨1, rfl, rfl⟩
      · cases h
  · rintro ⟨i, rfl, hi⟩
    rcases i with - | - | i
    · obtain rfl := Option.some.inj hi
      rfl
    · obtain rfl := Option.some.inj hi
      rfl
    · cases hi

/-- The selector of both is honoured. -/
theorem honoursSelector_iff_both :
    twoMapped.HonoursSelector plainTools (.array [70, 80]) := by
  refine (honoursSelector_iff plainTools twoMapped_bijective (by decide) (.array [70, 80])).mpr ?_
  intro b vectors hb hanswers i hi id hid
  obtain rfl := PlainIndex.brutal.inj hb
  obtain rfl := Option.some.inj hanswers.holds
  have hmem : id ∈ [(70 : ℤ), 80] := List.mem_of_getElem? hid
  exact decide_eq_true hmem

/-- **The selector of 80 alone** is not: a search for one result returns 70. -/
theorem unselected_document_is_returned :
    twoMapped.search plainTools ⟨1, some [0, 1], some [0], some [1], 1, some [0], some [0]⟩ none
        (some (.array [80])) = .ok (.returned [5] [70]) ∧
      ¬ twoMapped.HonoursSelector plainTools (.array [80]) := by
  refine ⟨by decide +kernel, fun h => ?_⟩
  have hmembers := membersOnly_of_honoursSelector twoMapped_bijective (by decide) h
  have h70 := hmembers _ _ rfl ⟨by decide, rfl⟩ 0 (by decide) 70 rfl
  exact absurd h70 (by decide)

end SearchedIndex

end Nsparse
