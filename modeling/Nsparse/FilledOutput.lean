/-
Nsparse/FilledOutput.lean

What a search leaves in the caller's arrays.

`Index::search` copies the rows of a search out one after the other, whatever their
lengths are.  A row that has `k` slots is found at `q * k` of the arrays, for the query
`q`; so the arrays are filled when all rows are that long (`fillsOutput_of_filledRows`).

They are, with one exception.  An index that has nothing to search (`PlainIndex.Silent`)
returns rows without slots, and the arrays stay as the caller left them: then a search
that returns has written nothing at all.  The disk indexes have no such state, their rows
are padded in every case.  An id map does not tell one from the other and translates what
it finds in the labels (`SearchedIndex.search_fills`).
-/
import Nsparse.Selection

namespace Nsparse

variable {F : Type}

/-! ### Rows in the caller's arrays -/

section Output

variable [One F] [Neg F]

/-- Row `i` of the arrays: answers, each with its score and its label, and behind them padding. -/
def HoldsRow (k i : ℕ) (Answer : F → ℤ → Prop) (ds : List F) (ls : List ℤ) : Prop :=
  ∃ found ≤ k,
    (∀ j < found, ∃ score label, Answer score label ∧
      ds[i * k + j]? = some score ∧ ls[i * k + j]? = some label) ∧
    ∀ j < k, found ≤ j → ds[i * k + j]? = some (-1) ∧ ls[i * k + j]? = some INVALID_IDX

/-- **Filled arrays**: a row of `k` slots for each of `n` queries, and what was behind them. -/
structure FillsOutput (n k : ℕ) (Answer : ℕ → F → ℤ → Prop) (distances ds : List F)
    (labels ls : List ℤ) : Prop where
  rows : ∀ i < n, HoldsRow k i (Answer i) ds ls
  rest : ∀ slot ≥ n * k, ds[slot]? = distances[slot]? ∧ ls[slot]? = labels[slot]?

variable {A : Type} {k : ℕ} {P : A → TopKItem F ℤ → Prop} {decode : F → F} {row : List F × List ℤ}

/-- The slots of one row. -/
theorem FilledRow.slots {P : TopKItem F ℤ → Prop} (h : FilledRow k P decode row) :
    row.1.length = k ∧ row.2.length = k ∧ ∃ found ≤ k,
      (∀ j < found, ∃ x, P x ∧ row.1[j]? = some (decode x.score) ∧ row.2[j]? = some x.id) ∧
      ∀ j < k, found ≤ j → row.1[j]? = some (-1) ∧ row.2[j]? = some INVALID_IDX := by
  obtain ⟨items, hlen, hitems, hds, hls⟩ := h
  refine ⟨?_, ?_, items.length, hlen, ?_, ?_⟩
  · rw [hds, List.length_append, List.length_map, List.length_replicate, Nat.add_sub_cancel' hlen]
  · rw [hls, List.length_append, List.length_map, List.length_replicate, Nat.add_sub_cancel' hlen]
  · intro j hj
    have hscores : j < (items.map fun x => decode x.score).length := by rwa [List.length_map]
    have hids : j < (items.map TopKItem.id).length := by rwa [List.length_map]
    refine ⟨items[j], hitems _ (List.getElem_mem hj), ?_, ?_⟩
    · rw [hds, List.getElem?_append_left hscores, List.getElem?_map, List.getElem?_eq_getElem hj]
      rfl
    · rw [hls, List.getElem?_append_left hids, List.getElem?_map, List.getElem?_eq_getElem hj]
      rfl
  · intro j hj hpast
    have hpad : j - items.length < k - items.length := by omega
    constructor
    · rw [hds, List.getElem?_append_right (by rwa [List.length_map]), List.length_map,
        List.getElem?_replicate_of_lt hpad]
    · rw [hls, List.getElem?_append_right (by rwa [List.length_map]), List.length_map,
        List.getElem?_replicate_of_lt hpad]

/-- What stands behind the rows that were copied. -/
theorem getElem?_copyResults_rest {α : Type} {dest : List α} {results : List (List α)} {slot : ℕ}
    (h : results.flatten.length ≤ slot) : (copyResults dest results)[slot]? = dest[slot]? := by
  rw [copyResults, List.getElem?_append_right h, List.getElem?_drop, Nat.add_sub_cancel' h]

/-- The column `j` of row `i`, after the rows were copied. -/
theorem getElem?_copyResults_row {α : Type} {dest : List α} {results : List (List α)}
    (hrows : ∀ row ∈ results, row.length = k) {i j : ℕ} {row : List α} {y : α} (hj : j < k)
    (hrow : results[i]? = some row) (hy : row[j]? = some y) :
    (copyResults dest results)[i * k + j]? = some y := by
  apply SearchedIndex.getElem?_copyResults
  rw [RowMajor.getElem?_flatten hrows i hj, hrow, Option.bind_some, hy]

/-- **Filled rows fill the arrays** they are copied to. -/
theorem fillsOutput_of_filledRows {asked : List A} {rows : SearchRows F} {n : ℕ}
    (h : FilledRows k P decode asked rows) (hn : asked.length = n) (distances : List F)
    (labels : List ℤ) :
    FillsOutput n k
      (fun i score label => ∃ query x, asked[i]? = some query ∧ P query x ∧ decode x.score = score ∧
        x.id = label)
      distances (copyResults distances rows.1) labels (copyResults labels rows.2) := by
  obtain ⟨results, rfl, hall⟩ := h
  have hlen : results.length = n := hall.length_eq ▸ hn
  -- rows of one length are found at multiples of it
  have hfilled : ∀ row ∈ results, row.1.length = k ∧ row.2.length = k := by
    intro row hrow
    obtain ⟨i, hi, rfl⟩ := List.getElem_of_mem hrow
    have hslots := (hall.get (hall.length_eq ▸ hi) hi).slots
    exact ⟨hslots.1, hslots.2.1⟩
  have hscores : ∀ row ∈ results.map Prod.fst, row.length = k :=
    List.forall_mem_map.mpr fun row hrow => (hfilled row hrow).1
  have hlabels : ∀ row ∈ results.map Prod.snd, row.length = k :=
    List.forall_mem_map.mpr fun row hrow => (hfilled row hrow).2
  constructor
  · intro i hi
    have hresult : i < results.length := hlen.symm ▸ hi
    have hquery : i < asked.length := hn.symm ▸ hi
    obtain ⟨-, -, found, hle, hanswers, hpadding⟩ := (hall.get hquery hresult).slots
    have hds : (results.map Prod.fst)[i]? = some results[i].1 := by
      rw [List.getElem?_map, List.getElem?_eq_getElem hresult]
      rfl
    have hls : (results.map Prod.snd)[i]? = some results[i].2 := by
      rw [List.getElem?_map, List.getElem?_eq_getElem hresult]
      rfl
    refine ⟨found, hle, fun j hj => ?_, fun j hj hpast => ?_⟩
    · obtain ⟨x, hx, hscore, hlabel⟩ := hanswers j hj
      have hjk : j < k := lt_of_lt_of_le hj hle
      exact ⟨_, _, ⟨asked[i], x, List.getElem?_eq_getElem hquery, hx, rfl, rfl⟩,
        getElem?_copyResults_row hscores hjk hds hscore,
        getElem?_copyResults_row hlabels hjk hls hlabel⟩
    · obtain ⟨hscore, hlabel⟩ := hpadding j hj hpast
      exact ⟨getElem?_copyResults_row hscores hj hds hscore,
        getElem?_copyResults_row hlabels hj hls hlabel⟩
  · intro slot hslot
    constructor
    · apply getElem?_copyResults_rest
      rw [RowMajor.length_flatten hscores, List.length_map, hlen]
      exact hslot
    · apply getElem?_copyResults_rest
      rw [RowMajor.length_flatten hlabels, List.length_map, hlen]
      exact hslot

omit [One F] [Neg F] in
/-- Rows without slots leave the arrays alone. -/
theorem copyResults_emptyRows (n : ℤ) (distances : List F) (labels : List ℤ) :
    copyResults distances (emptyRows F n).1 = distances ∧
      copyResults labels (emptyRows F n).2 = labels := by
  simp [copyResults, emptyRows]

/-- Rows of nothing but padding are filled ones, whatever was asked. -/
theorem filledRows_paddedResults (asked : List A) (P : A → TopKItem F ℤ → Prop) (decode : F → F)
    (k : ℤ) : FilledRows k.toNat P decode asked
      (DiskSeismicIndex.paddedResults asked.length k) := by
  rw [DiskSeismicIndex.paddedResults, Int.toNat_natCast]
  induction asked with
  | nil => exact filledRows_nil
  | cons query asked ih => exact ih.cons (filledRow_replicate k.toNat (P query) decode)

theorem HoldsRow.mono {Answer Answer' : F → ℤ → Prop} {i : ℕ} {ds : List F} {ls : List ℤ}
    (hanswer : ∀ score label, Answer score label → Answer' score label)
    (h : HoldsRow k i Answer ds ls) : HoldsRow k i Answer' ds ls := by
  obtain ⟨found, hle, hanswers, hpadding⟩ := h
  refine ⟨found, hle, fun j hj => ?_, hpadding⟩
  obtain ⟨score, label, hscored, hslots⟩ := hanswers j hj
  exact ⟨score, label, hanswer score label hscored, hslots⟩

theorem FillsOutput.mono {Answer Answer' : ℕ → F → ℤ → Prop} {n : ℕ} {distances ds : List F}
    {labels ls : List ℤ} (hanswer : ∀ i score label, Answer i score label → Answer' i score label)
    (h : FillsOutput n k Answer distances ds labels ls) :
    FillsOutput n k Answer' distances ds labels ls :=
  ⟨fun i hi => (h.rows i hi).mono (hanswer i), h.rest⟩

end Output

/-! ### Searches -/

section Searches

variable [Ring F] [LinearOrder F] [FloatFormat F] {tools : SearchTools F} {queries : CsrArgs F}
  {indptr indices : List ℕ} {values : List F} {k : ℤ} {params : Option (SearchFields F)}
  {sel : Option IDSelector} {distances ds : List F} {labels ls : List ℤ}

/-- An index with nothing to search: no documents, or, in the inverted one, no lists.  A selector
that is short enough to be walked makes a seismic index answer all the same. -/
def PlainIndex.Silent (sel : Option IDSelector) (k : ℤ) : PlainIndex F → Prop
  | brutal x => x.numVectors = 0
  | inverted x => x.invertedLists = none
  | seismic x | seismicSQ _ x => ∀ vectors, x.vectors = some vectors →
      vectors.numVectors = 0 ∧ exactMatchIds sel k = none
  | diskSeismic _ | diskSeismicSQ _ _ => False

/-- A document that is admitted, with the score that a row of it has for query `i` of a batch. -/
def CodedAnswer (queryFormat : Option (SearchFields F) → Except Exception (QueryFormat F))
    (dimension : ℕ) (names : ℕ → ℤ → SparseRow Code → Prop) (n : ℤ) (indptr indices : List ℕ)
    (values : List F) (params : Option (SearchFields F)) (sel : Option IDSelector) (i : ℕ) (score : F)
    (label : ℤ) : Prop :=
  ∃ format query x, queryFormat params = .ok format ∧
    (codedQueries format n indptr indices values)[i]? = some query ∧
    Hit (Admitted sel) (names format.elementSize) (queryScore dimension format.elementSize query) x ∧
    format.decodeScore x.score = score ∧ x.id = label

/-- What an index answers query `i` of a batch with: a document and its score.  Of the inverted one,
which gives up a score that cannot get into the heap, a document that is posted for a term of the query. -/
def PlainIndex.Answer (behind : List F) (queries : CsrArgs F) (indptr indices : List ℕ) (values : List F)
    (params : Option (SearchFields F)) (sel : Option IDSelector) :
    PlainIndex F → ℕ → F → ℤ → Prop
  | brutal x, i, score, label => ∃ vectors query, x.Answers vectors ∧
      queries.rows[i]? = some query ∧ BrutalIndex.hits behind x.dimension vectors query ⟨score, label⟩
  | inverted x, i, _, label => IDSelector.passes sel label = true ∧ ∃ lists query,
      x.invertedLists = some lists ∧ queries.rows[i]? = some query ∧
        InvertedIndex.Posted lists (query.map Prod.fst) label
  | seismic x, i, score, label => CodedAnswer (floatSearch F) x.dimension (fun _ => x.names)
      queries.n indptr indices values params sel i score label
  | seismicSQ sq x, i, score, label => CodedAnswer (quantizedSearch sq) x.dimension
      (fun _ => x.names) queries.n indptr indices values params sel i score label
  | diskSeismic x, i, score, label => CodedAnswer (floatSearch F) x.dimension x.names queries.n
      indptr indices values params sel i score label
  | diskSeismicSQ sq x, i, score, label => CodedAnswer (diskQuantizedSearch sq) x.dimension x.names
      queries.n indptr indices values params sel i score label

omit [Ring F] [LinearOrder F] [FloatFormat F] in
/-- A search that returns has copied its rows out. -/
theorem rows_of_publicSearch
    {search : ℤ → List ℕ → List ℕ → List F → ℤ → Except SearchFault (SearchRows F)}
    (hqueries : queries.checked = .ok (indptr, indices, values))
    (h : publicSearch search (queries.searchArgs k distances labels) = .ok (.returned ds ls)) :
    ∃ rows, search queries.n indptr indices values k = .ok rows := by
  have hn := (CsrArgs.checked_eq_ok hqueries).1
  have hk : 0 < k := publicSearch_pos h
  obtain ⟨hindptr, hindices, hvalues⟩ := CsrArgs.arrays_of_checked hqueries
  unfold publicSearch CsrArgs.searchArgs at h
  dsimp only at h
  rw [if_neg (not_le.mpr hn), if_neg (not_le.mpr hk), hindptr, hindices, hvalues] at h
  dsimp only at h
  rcases hsearch : search queries.n indptr indices values k with e | rows
  · rw [hsearch] at h
    cases e with
    | outOfBuffer => cases h
    | threw e => cases h
  · exact ⟨rows, rfl⟩

omit [Ring F] [LinearOrder F] [FloatFormat F] in
theorem SeismicIndex.not_silent {x : SeismicIndex F}
    (h : ∃ vectors, x.vectors = some vectors ∧
      (vectors.numVectors ≠ 0 ∨ exactMatchIds sel k ≠ none)) :
    ¬ ∀ vectors, x.vectors = some vectors →
      vectors.numVectors = 0 ∧ exactMatchIds sel k = none := by
  obtain ⟨vectors, hvectors, hsome⟩ := h
  intro hsilent
  obtain ⟨hnone, hids⟩ := hsilent vectors hvectors
  exact hsome.elim (absurd hnone) (absurd hids)

/-- **What returns has rows**, and they are what was copied. -/
theorem PlainIndex.rows_of_returned {x : PlainIndex F}
    (hqueries : queries.checked = .ok (indptr, indices, values))
    (h : x.search tools (queries.searchArgs k distances labels) params sel
      = .ok (.returned ds ls)) :
    ∃ rows, x.searchRows tools queries.n indptr indices values k params sel = some (.ok rows) ∧
      ds = copyResults distances rows.1 ∧ ls = copyResults labels rows.2 := by
  have hk : 0 < k := PlainIndex.pos_of_returned h
  have hrows : ∃ rows,
      x.searchRows tools queries.n indptr indices values k params sel = some (.ok rows) := by
    cases x with
    | brutal x => exact (rows_of_publicSearch hqueries h).imp fun _ => congrArg some
    | inverted x =>
        have hn := (CsrArgs.checked_eq_ok hqueries).1
        obtain ⟨hindptr, hindices, hvalues⟩ := CsrArgs.arrays_of_checked hqueries
        have hreturned := Except.ok.inj h
        unfold Index.publicSearch CsrArgs.searchArgs at hreturned
        dsimp only at hreturned
        rw [if_neg (not_le.mpr hn), if_neg (not_le.mpr hk), hindptr, hindices, hvalues] at hreturned
        dsimp only at hreturned
        split at hreturned
        · cases hreturned
        · cases hreturned
        · rename_i hsearch
          exact ⟨_, congrArg (Option.map SearchFault.lift) hsearch⟩
    | seismic x =>
        rw [PlainIndex.search, StoredIndex.search] at h
        exact (rows_of_publicSearch hqueries h).imp fun _ => congrArg some
    | seismicSQ sq x =>
        rw [PlainIndex.search, StoredIndex.search] at h
        exact (rows_of_publicSearch hqueries h).imp fun _ => congrArg some
    | diskSeismic x =>
        rw [PlainIndex.search, StoredIndex.search] at h
        exact (rows_of_publicSearch hqueries h).imp fun _ => congrArg some
    | diskSeismicSQ sq x =>
        rw [PlainIndex.search, StoredIndex.search] at h
        exact (rows_of_publicSearch hqueries h).imp fun _ => congrArg some
  obtain ⟨rows, hrows⟩ := hrows
  have hcopied := PlainIndex.search_of_rows hqueries hk hrows distances labels
  obtain ⟨rfl, rfl⟩ := SearchOutcome.returned.inj (Except.ok.inj (h.symm.trans hcopied))
  exact ⟨rows, hrows, rfl, rfl⟩

/-- The rows of the four indexes that code their vectors. -/
theorem fillsOutput_of_codedRows
    {queryFormat : Option (SearchFields F) → Except Exception (QueryFormat F)} {dimension : ℕ}
    (names : ℕ → ℤ → SparseRow Code → Prop) {format : QueryFormat F} {rows : SearchRows F}
    (hformat : queryFormat params = .ok format)
    (hfilled : FilledRows k.toNat (fun query => Hit (Admitted sel) (names format.elementSize)
        (queryScore dimension format.elementSize query))
      format.decodeScore (codedQueries format queries.n indptr indices values) rows) :
    FillsOutput queries.n.toNat k.toNat
      (CodedAnswer queryFormat dimension names queries.n indptr indices values params sel)
      distances (copyResults distances rows.1) labels (copyResults labels rows.2) := by
  refine (fillsOutput_of_filledRows hfilled (length_codedQueries ..) distances labels).mono ?_
  rintro i score label ⟨query, x, hquery, hhit, hscore, hlabel⟩
  exact ⟨format, query, x, hformat, hquery, hhit, hscore, hlabel⟩

omit [LinearOrder F] [FloatFormat F] in
/-- The rows of a disk index with nothing to score. -/
theorem fillsOutput_of_padding (hqueries : queries.checked = .ok (indptr, indices, values))
    (Answer : ℕ → F → ℤ → Prop) {rows : SearchRows F}
    (hrows : rows = DiskSeismicIndex.paddedResults queries.n k) :
    FillsOutput queries.n.toNat k.toNat Answer distances (copyResults distances rows.1) labels
      (copyResults labels rows.2) := by
  have hcount := CsrArgs.length_rows_of_checked hqueries
  have hn := (CsrArgs.checked_eq_ok hqueries).1
  have hfilled := filledRows_paddedResults (F := F) queries.rows (fun _ _ => False) id k
  rw [hcount, Int.toNat_of_nonneg hn.le, ← hrows] at hfilled
  refine (fillsOutput_of_filledRows hfilled hcount distances labels).mono ?_
  rintro i score label ⟨-, -, -, hfalse, -⟩
  exact hfalse.elim

/-- **A plain index that returns** has filled the caller's arrays, or it was silent and they are what
they were. -/
theorem PlainIndex.fills_of_returned {x : PlainIndex F}
    (hqueries : queries.checked = .ok (indptr, indices, values))
    (h : x.search tools (queries.searchArgs k distances labels) params sel
      = .ok (.returned ds ls)) :
    (x.Silent sel k ∧ ds = distances ∧ ls = labels) ∨
      ¬ x.Silent sel k ∧ FillsOutput queries.n.toNat k.toNat
        (x.Answer tools.behind queries indptr indices values params sel) distances ds labels ls := by
  have hk : 0 < k := PlainIndex.pos_of_returned h
  have hcount := CsrArgs.length_rows_of_checked hqueries
  obtain ⟨rows, hrows, rfl, rfl⟩ := PlainIndex.rows_of_returned hqueries h
  have hsilent := copyResults_emptyRows queries.n distances labels
  cases x with
  | brutal x =>
      rcases x.search_filled hk hqueries (Option.some.inj hrows)
        with ⟨rfl, hnone⟩ | ⟨vectors, hanswers, hne, hfilled⟩
      · exact Or.inl ⟨hnone, hsilent⟩
      · refine Or.inr ⟨?_, (fillsOutput_of_filledRows hfilled hcount distances labels).mono ?_⟩
        · show x.numVectors ≠ 0
          rwa [BrutalIndex.numVectors, hanswers.holds]
        · rintro i score label ⟨query, item, hquery, hhit, rfl, rfl⟩
          exact ⟨vectors, query, hanswers, hquery, hhit⟩
  | inverted x =>
      obtain ⟨result, hresult, hlift⟩ := Option.map_eq_some_iff.mp hrows
      obtain rfl := lift_eq_ok hlift
      obtain ⟨⟨-, left⟩, hsearch, rfl⟩ := Option.map_eq_some_iff.mp hresult
      rcases x.search_filled hqueries hsearch with ⟨rfl, hnone⟩ | ⟨lists, hlists, hfilled⟩
      · exact Or.inl ⟨hnone, hsilent⟩
      · refine Or.inr ⟨fun hnone => Option.some_ne_none lists (hlists.symm.trans hnone),
          (fillsOutput_of_filledRows hfilled hcount distances labels).mono ?_⟩
        rintro i score label ⟨query, item, hquery, ⟨hpasses, hposted⟩, -, rfl⟩
        exact ⟨hpasses, lists, query, hlists, hquery, hposted⟩
  | seismic x =>
      rcases x.search_filled hqueries (Option.some.inj hrows)
        with ⟨rfl, hnone⟩ | ⟨hsome, format, hformat, hfilled⟩
      · exact Or.inl ⟨hnone, hsilent⟩
      · exact Or.inr ⟨SeismicIndex.not_silent hsome,
          fillsOutput_of_codedRows (fun _ => x.names) hformat hfilled⟩
  | seismicSQ sq x =>
      rcases x.search_filled hqueries (Option.some.inj hrows)
        with ⟨rfl, hnone⟩ | ⟨hsome, format, hformat, hfilled⟩
      · exact Or.inl ⟨hnone, hsilent⟩
      · exact Or.inr ⟨SeismicIndex.not_silent hsome,
          fillsOutput_of_codedRows (fun _ => x.names) hformat hfilled⟩
  | diskSeismic x =>
      rcases x.search_filled hqueries (Option.some.inj hrows)
        with hpadding | ⟨format, hformat, hfilled⟩
      · exact Or.inr ⟨id, fillsOutput_of_padding hqueries _ hpadding⟩
      · exact Or.inr ⟨id, fillsOutput_of_codedRows x.names hformat hfilled⟩
  | diskSeismicSQ sq x =>
      rcases x.search_filled hqueries (Option.some.inj hrows)
        with hpadding | ⟨format, hformat, hfilled⟩
      · exact Or.inr ⟨id, fillsOutput_of_padding hqueries _ hpadding⟩
      · exact Or.inr ⟨id, fillsOutput_of_codedRows x.names hformat hfilled⟩

end Searches

/-! ### Under an id map -/

/-- What the loop over the labels leaves in a place it gets to. -/
theorem IDMapIndex.externalId_of_translateLabels {σ : Type} {m : IDMapIndex σ} {n k : ℕ}
    {labels result : List ℤ} (hlen : n * k ≤ labels.length)
    (h : m.translateLabels n k labels = some result) {slot : ℕ} (hslot : slot < n * k) {label : ℤ}
    (hlabel : labels[slot]? = some label) :
    ∃ id, m.externalId label = some id ∧ result[slot]? = some id := by
  obtain ⟨htranslated, -⟩ := translated_of_translateLabels hlen h
  by_cases hneg : label < 0
  · exact ⟨label, if_pos hneg, htranslated.padding slot hslot label hneg hlabel⟩
  · obtain ⟨id, hid, hresult⟩ := exists_id_of_translateLabels hlen h hslot hlabel (not_lt.mp hneg)
    exact ⟨id, (if_neg hneg).trans hid, hresult⟩

namespace SearchedIndex

variable [Ring F] [LinearOrder F] [FloatFormat F]

/-- What the caller reads for a label of the delegate. -/
def externalId (label : ℤ) : SearchedIndex F → Option ℤ
  | direct _ => some label
  | mapped m => m.externalId label

/-- What the delegate is searched with. -/
def selectorOf (sel : Option IDSelector) (x : SearchedIndex F) : Option IDSelector :=
  sel.map fun s => x.selector s

/-- The caller's label is the id of a document that the delegate answers with. -/
def Answer (behind : List F) (queries : CsrArgs F) (indptr indices : List ℕ) (values : List F)
    (params : Option (SearchFields F)) (sel : Option IDSelector) (x : SearchedIndex F) (i : ℕ)
    (score : F) (label : ℤ) : Prop :=
  ∃ doc, x.delegate.Answer behind queries indptr indices values params (x.selectorOf sel) i score doc ∧
    x.externalId doc = some label

variable {tools : SearchTools F} {x : SearchedIndex F} {queries : CsrArgs F}
  {indptr indices : List ℕ} {values : List F} {k : ℤ} {params : Option (SearchFields F)}
  {sel : Option IDSelector} {distances ds : List F} {labels ls : List ℤ}

/-- A row under an id map holds the caller's ids. -/
theorem holdsRow_of_translated {m : IDMapIndex (PlainIndex F)} {n k i : ℕ} (hi : i < n)
    {Answer : F → ℤ → Prop} {copied : List ℤ} (hlen : n * k ≤ copied.length)
    (htranslate : m.translateLabels n k copied = some ls) (h : HoldsRow k i Answer ds copied) :
    HoldsRow k i (fun score label => ∃ doc, Answer score doc ∧ m.externalId doc = some label) ds
      ls := by
  obtain ⟨found, hle, hanswers, hpadding⟩ := h
  refine ⟨found, hle, fun j hj => ?_, fun j hj hpast => ?_⟩
  · obtain ⟨score, doc, hanswer, hscore, hdoc⟩ := hanswers j hj
    have hslot : i * k + j < n * k := RowMajor.index_lt hi (lt_of_lt_of_le hj hle)
    obtain ⟨label, hlabel, hls⟩ := m.externalId_of_translateLabels hlen htranslate hslot hdoc
    exact ⟨score, label, ⟨doc, hanswer, hlabel⟩, hscore, hls⟩
  · obtain ⟨hscore, hinvalid⟩ := hpadding j hj hpast
    obtain ⟨label, hlabel, hls⟩ := m.externalId_of_translateLabels hlen htranslate
      (RowMajor.index_lt hi hj) hinvalid
    obtain rfl : INVALID_IDX = label := Option.some.inj hlabel
    exact ⟨hscore, hls⟩

/-- **A search that returns** has filled the first `n * k` places of the caller's arrays, with a row
for each query, and nothing behind them; only over a silent index it has not: there the distances are
what they were, and so are the labels but for an id map, which translates them. -/
theorem search_fills (hqueries : queries.checked = .ok (indptr, indices, values))
    (hplaces : queries.n.toNat * k.toNat ≤ labels.length)
    (h : x.search tools (queries.searchArgs k distances labels) params sel
      = .ok (.returned ds ls)) :
    (x.delegate.Silent (x.selectorOf sel) k ∧ ds = distances ∧
      (∀ slot < queries.n.toNat * k.toNat, ls[slot]? = labels[slot]?.bind (x.externalId ·)) ∧
      ∀ slot ≥ queries.n.toNat * k.toNat, ls[slot]? = labels[slot]?) ∨
    ¬ x.delegate.Silent (x.selectorOf sel) k ∧ FillsOutput queries.n.toNat k.toNat
      (x.Answer tools.behind queries indptr indices values params sel) distances ds labels ls := by
  cases x with
  | direct x =>
      have hsel : selectorOf sel (direct x) = sel := congrFun Option.map_id sel
      rcases PlainIndex.fills_of_returned hqueries h with ⟨hsilent, rfl, rfl⟩ | ⟨hsome, hfills⟩
      · refine Or.inl ⟨hsel.symm ▸ hsilent, rfl, fun slot _ => ?_, fun slot _ => rfl⟩
        exact (Option.bind_fun_some _).symm
      · refine Or.inr ⟨hsel.symm ▸ hsome, hfills.mono fun i score label hanswer => ?_⟩
        exact ⟨label, hsel.symm ▸ hanswer, rfl⟩
  | mapped m =>
      have hn := (CsrArgs.checked_eq_ok hqueries).1.le
      obtain ⟨copied, hdelegate, htranslate⟩ := IDMapIndex.searchPlain_eq_returned h
      have hk : 0 < k := PlainIndex.pos_of_returned hdelegate
      obtain ⟨rows, -, -, hcopied⟩ := PlainIndex.rows_of_returned hqueries hdelegate
      -- copying never shortens the arrays, so the loop finds every place
      have hlen : queries.n.toNat * k.toNat ≤ copied.length :=
        hcopied ▸ hplaces.trans (IDMapIndex.length_le_copyResults labels rows.2)
      have hloop : m.translateLabels (queries.n.toNat : ℕ) (k.toNat : ℕ) copied = some ls := by
        rw [Int.toNat_of_nonneg hn, Int.toNat_of_nonneg hk.le]
        exact htranslate
      obtain ⟨htranslated, -⟩ := IDMapIndex.translated_of_translateLabels hlen hloop
      rcases PlainIndex.fills_of_returned hqueries hdelegate with ⟨hsilent, rfl, rfl⟩ | ⟨hsome, hfills⟩
      · -- the caller's own labels are translated
        refine Or.inl ⟨hsilent, rfl, fun slot hslot => ?_, htranslated.rest⟩
        have hlabel := List.getElem?_eq_getElem (lt_of_lt_of_le hslot hlen)
        obtain ⟨id, hid, hls⟩ := m.externalId_of_translateLabels hlen hloop hslot hlabel
        rw [hls, hlabel, Option.bind_some]
        exact hid.symm
      · refine Or.inr ⟨hsome, fun i hi => ?_, fun slot hslot => ?_⟩
        · exact holdsRow_of_translated hi hlen hloop (hfills.rows i hi)
        · exact ⟨(hfills.rest slot hslot).1,
            (htranslated.rest slot hslot).trans (hfills.rest slot hslot).2⟩

/-- Two documents fill two of three slots, and there is a fourth place behind them. -/
theorem search_fills_two_documents :
    twoMapped.search plainTools
        ((CsrArgs.emptyQuery ℤ).searchArgs 3 [5, 5, 5, 5] [9, 9, 9, 9]) none none
        = .ok (.returned [0, 0, -1, 5] [70, 80, -1, 9]) ∧
      FillsOutput 1 3 (twoMapped.Answer [] (.emptyQuery ℤ) [0, 0] [] [] none none)
        [5, 5, 5, 5] [0, 0, -1, 5] [9, 9, 9, 9] [70, 80, -1, 9] := by
  have hreturned : twoMapped.search plainTools
      ((CsrArgs.emptyQuery ℤ).searchArgs 3 [5, 5, 5, 5] [9, 9, 9, 9]) none none
        = .ok (.returned [0, 0, -1, 5] [70, 80, -1, 9]) := by decide +kernel
  refine ⟨hreturned, (search_fills rfl (by decide) hreturned).elim ?_ And.right⟩
  rintro ⟨hsilent, -⟩
  exact absurd (show (2 : ℕ) = 0 from hsilent) (by decide)

end SearchedIndex

end Nsparse
