/-
Nsparse/SummaryScores.lean

Scoring the summaries of a list through their transpose.

The columns of the transpose are the distinct terms of the summaries in ascending order, so
that the binary search for a term finds its column (`getElem?_termColumn`).  A column holds
the entries of the summaries at its term, in the order of the clusters, and going through the
columns of a query's terms comes to the inner products of the query with the summaries.  The
offsets of the columns are 32-bit, so this holds exactly when the summaries have fewer than
`2 ^ 31` entries (`scoreSummaries_iff`).
-/
import Mathlib.Data.List.Destutter
import Nsparse.DenseQuery
import Nsparse.StorableLists

namespace Nsparse

/-! ### The distinct terms -/

/-- The distinct terms of the summaries. -/
def distinctTerms (sort : StdSort) (summaries : SparseVectors Code) : List ℕ :=
  (sort.sort (fun a b => a < b) summaries.indices).destutter (· ≠ ·)

/-- They ascend, and they are the terms of the summaries. -/
theorem distinctTerms_spec (sort : StdSort) (summaries : SparseVectors Code) :
    (distinctTerms sort summaries).Pairwise (· < ·) ∧
      ∀ term, term ∈ distinctTerms sort summaries ↔ term ∈ summaries.indices := by
  have hsorted := sort.sorted (fun a b : ℕ => decide (a < b))
    (fun a b h => by simpa using (of_decide_eq_true h).le)
    (fun a b c hab hbc => by
      simp only [decide_eq_false_iff_not, not_lt] at hab hbc ⊢
      exact hbc.trans hab) summaries.indices
  have hle : (sort.sort (fun a b => a < b) summaries.indices).Pairwise (· ≤ ·) :=
    hsorted.imp fun {a b} h => by simpa using h
  have hdedup := hle.destutter_eq_dedup
  have hsub : (distinctTerms sort summaries).Pairwise (· ≤ ·) :=
    hle.sublist (List.destutter_sublist _ _)
  rw [distinctTerms] at hsub ⊢
  rw [hdedup] at hsub ⊢
  refine ⟨?_, fun term => ?_⟩
  · exact (hsub.and (List.nodup_dedup _)).imp fun h => lt_of_le_of_ne h.1 h.2
  · rw [List.mem_dedup]
    exact (sort.perm _ _).mem_iff

namespace InvertedListClusters

/-- In an ascending list the column of an element is its position. -/
theorem termColumn_getElem {l : List ℕ} (h : l.Pairwise (· < ·)) {i : ℕ} (hi : i < l.length) :
    termColumn l l[i] = i := by
  have hbelow : ∀ a ∈ l.take i, decide (a < l[i]) = true := by
    intro a ha
    obtain ⟨j, hj, rfl⟩ := List.mem_take_iff_getElem.mp ha
    exact decide_eq_true (List.pairwise_iff_getElem.mp h j i _ hi (hj.trans_le (min_le_left _ _)))
  have hwhile : ∀ x, (∀ a ∈ l.take i, decide (a < x) = true) → l.drop i = x :: l.drop (i + 1) →
      l.takeWhile (· < x) = l.take i := by
    intro x hx hdrop
    conv_lhs => rw [← List.take_append_drop i l, hdrop]
    rw [List.takeWhile_append_of_pos hx, List.takeWhile_cons_of_neg (by simp), List.append_nil]
  rw [termColumn, hwhile _ hbelow (List.drop_eq_getElem_cons hi), List.length_take,
    min_eq_left hi.le]

theorem getElem?_termColumn {l : List ℕ} (h : l.Pairwise (· < ·)) {term : ℕ} (hterm : term ∈ l) :
    l[termColumn l term]? = some term := by
  obtain ⟨i, hi, rfl⟩ := List.mem_iff_getElem.mp hterm
  rw [termColumn_getElem h hi, List.getElem?_eq_getElem hi]

/-- Different terms have different columns. -/
theorem termColumn_inj {l : List ℕ} (h : l.Pairwise (· < ·)) {term term' : ℕ} (hterm : term ∈ l)
    (hterm' : term' ∈ l) : termColumn l term = termColumn l term' ↔ term = term' := by
  constructor
  · intro heq
    have hget := getElem?_termColumn h hterm
    rw [heq, getElem?_termColumn h hterm', Option.some_inj] at hget
    exact hget.symm
  · rintro rfl
    rfl

/-! ### The transpose -/

/-- The column of every entry. -/
def entryColumns (sort : StdSort) (summaries : SparseVectors Code) : List ℕ :=
  summaries.indices.map (termColumn (distinctTerms sort summaries))

/-- The entries of the summaries as items of the columns. -/
def summaryItems (sort : StdSort) (summaries : SparseVectors Code) : List (ℕ × ℕ × Code) :=
  (CountingSort.rowItems 0 summaries.rows).map fun item =>
    (termColumn (distinctTerms sort summaries) item.1, item.2)

/-- No counter of the transpose exceeds 32 bits. -/
def TransposeCountersFit (sort : StdSort) (summaries : SparseVectors Code) : Prop :=
  summaries.numVectors ≠ 0 →
    ∀ offset ∈ CountingSort.offsets (distinctTerms sort summaries).length
      (entryColumns sort summaries), offset < 2 ^ 31

section Transpose

variable {sort : StdSort} {summaries : SparseVectors Code}

theorem lt_of_mem_entryColumns {column : ℕ} (h : column ∈ entryColumns sort summaries) :
    column < (distinctTerms sort summaries).length := by
  obtain ⟨term, hterm, rfl⟩ := List.mem_map.mp h
  obtain ⟨hasc, hmem⟩ := distinctTerms_spec sort summaries
  exact (List.getElem?_eq_some_iff.mp (getElem?_termColumn hasc ((hmem term).mpr hterm))).1

/-- Counters that fit are kept as they are. -/
theorem TransposeCountersFit.getD_toIdx (hfit : TransposeCountersFit sort summaries)
    (hn : summaries.numVectors ≠ 0) {p : ℕ} (hp : p ≤ (distinctTerms sort summaries).length) :
    (((CountingSort.offsets (distinctTerms sort summaries).length
        (entryColumns sort summaries)).map fun n : ℕ => toIdx n).getD p 0).toNat
      = (CountingSort.offsets (distinctTerms sort summaries).length
          (entryColumns sort summaries)).getD p 0 := by
  have hlen : p < (CountingSort.offsets (distinctTerms sort summaries).length
      (entryColumns sort summaries)).length := by simpa [Nat.lt_succ_iff] using hp
  rw [List.getD_eq_getElem _ _ (by rwa [List.length_map]), List.getElem_map,
    List.getD_eq_getElem _ _ hlen, toIdx_eq_self_iff.mpr (hfit hn _ (List.getElem_mem hlen)),
    Int.toNat_natCast]

/-- The counters fit when there are fewer than `2 ^ 31` entries. -/
theorem transposeCountersFit_iff (hv : summaries.WellFormed) :
    TransposeCountersFit sort summaries ↔ summaries.indices.length < 2 ^ 31 := by
  have hiff := @CountingSort.forall_offsets_lt_iff _ (2 ^ 31) (entryColumns sort summaries)
    fun _ hcolumn => lt_of_mem_entryColumns hcolumn
  rw [entryColumns, List.length_map, ← entryColumns] at hiff
  rw [TransposeCountersFit, hiff]
  refine ⟨fun h => ?_, fun h _ => h⟩
  by_cases hn : summaries.numVectors = 0
  · have hnone : summaries.rows = [] := by rw [SparseVectors.rows_eq_map_row, hn]; rfl
    have hentries := hv.flatten_rows
    rw [hnone] at hentries
    rw [← hv.length_entries, ← hentries]
    exact Nat.two_pow_pos 31
  · exact h hn

theorem map_fst_summaryItems (hv : summaries.WellFormed) :
    (summaryItems sort summaries).map Prod.fst = entryColumns sort summaries := by
  rw [summaryItems, List.map_map, entryColumns, ← hv.map_fst_entries, ← hv.flatten_rows,
    ← CountingSort.map_fst_rowItems 0, List.map_map]
  rfl

/-- The items of a term's column are the entries at the term. -/
theorem itemsOf_summaryItems (hv : summaries.WellFormed) {term : ℕ}
    (hterm : term ∈ summaries.indices) :
    CountingSort.itemsOf (summaryItems sort summaries)
        (termColumn (distinctTerms sort summaries) term)
      = CountingSort.itemsOf (CountingSort.rowItems 0 summaries.rows) term := by
  obtain ⟨hasc, hmem⟩ := distinctTerms_spec sort summaries
  rw [CountingSort.itemsOf, CountingSort.itemsOf, summaryItems, List.filter_map, List.map_map]
  refine congrArg (List.map Prod.snd) (List.filter_congr fun item hitem => ?_)
  have hitem' : item.1 ∈ summaries.indices := by
    rw [← hv.map_fst_entries, ← hv.flatten_rows, ← CountingSort.map_fst_rowItems 0]
    exact List.mem_map_of_mem hitem
  exact decide_eq_decide.mpr (termColumn_inj hasc ((hmem _).mpr hitem') ((hmem _).mpr hterm))

/-- The transpose is a counting sort of the items. -/
theorem buildTranspose_eq (hv : summaries.WellFormed) (hn : summaries.numVectors ≠ 0)
    (hcount : summaries.numVectors ≤ 2 ^ 16) (l : InvertedListClusters) :
    l.buildTranspose sort summaries
      = let offsets := CountingSort.offsets (distinctTerms sort summaries).length
          (entryColumns sort summaries)
        let placed := CountingSort.place offsets.dropLast
          (List.replicate summaries.indices.length (0, List.replicate summaries.elementSize 0))
          (summaryItems sort summaries)
        { l with
          nClusters := summaries.numVectors
          elementSize := summaries.elementSize
          termIds := distinctTerms sort summaries
          termPtr := offsets.map fun n : ℕ => toIdx n
          cscCluster := placed.map Prod.fst
          cscValue := placed.flatMap Prod.snd } := by
  have hitems : ((List.range summaries.numVectors).flatMap fun cluster =>
      (summaries.row cluster).map fun entry =>
        (termColumn (distinctTerms sort summaries) entry.1, cluster % 2 ^ 16, entry.2))
      = summaryItems sort summaries := by
    rw [summaryItems, CountingSort.rowItems, SparseVectors.zipIdx_rows, List.flatMap_map,
      List.map_flatMap]
    refine List.flatMap_congr fun cluster hcluster => ?_
    rw [List.map_map, Nat.mod_eq_of_lt ((List.mem_range.mp hcluster).trans_le hcount)]
    rfl
  rw [buildTranspose]
  dsimp only
  rw [if_neg hn, hv.getD_numVectors, List.take_length, ← distinctTerms, hitems]
  rfl

/-! ### Scores -/

/-- Slices of one width are found by their position. -/
theorem take_drop_flatMap {A B : Type} {f : A → List B} {w : ℕ} {l : List A}
    (h : ∀ a ∈ l, (f a).length = w) {j : ℕ} (hj : j < l.length) :
    ((l.flatMap f).drop (j * w)).take w = f l[j] := by
  induction l generalizing j with
  | nil => exact absurd hj (Nat.not_lt_zero j)
  | cons a l ih =>
      obtain ⟨ha, hl⟩ := List.forall_mem_cons.mp h
      rw [List.flatMap_cons]
      cases j with
      | zero => rw [Nat.zero_mul, List.drop_zero, ← ha, List.take_left]; rfl
      | succ j =>
          rw [Nat.succ_mul, Nat.add_comm, ← List.drop_drop, ← ha, List.drop_left, ha]
          exact ih hl (Nat.lt_of_succ_lt_succ hj)

variable {F : Type} [Ring F] (vt : ValueType F)

/-- **A term adds** its products to the clusters that have it. -/
theorem addTermScores_eq (hv : summaries.WellFormed) (hn : summaries.numVectors ≠ 0)
    (hcount : summaries.numVectors ≤ 2 ^ 16)
    (hcodes : ∀ code ∈ summaries.values, code.length = summaries.elementSize)
    (hwidth : strideOf summaries.elementSize = summaries.elementSize)
    (hfit : TransposeCountersFit sort summaries) (l : InvertedListClusters) (out : List F)
    (entry : ℕ × Code) :
    addTermScores vt (l.buildTranspose sort summaries) out entry
      = (CountingSort.itemsOf (CountingSort.rowItems 0 summaries.rows) entry.1).foldl
          (fun out p => out.modify p.1 fun score =>
            score + codeValue vt entry.2 * codeValue vt p.2) out := by
  obtain ⟨hasc, hmem⟩ := distinctTerms_spec sort summaries
  rw [buildTranspose_eq hv hn hcount, addTermScores]
  dsimp only
  split
  · rename_i hfound
    have hterm := (hmem _).mp (List.mem_of_getElem? hfound)
    have hfst : (summaryItems sort summaries).map Prod.fst = _ := map_fst_summaryItems hv
    have hcolumn := (List.getElem?_eq_some_iff.mp hfound).1
    have hlength : (List.replicate summaries.indices.length
        ((0, List.replicate summaries.elementSize 0) : ℕ × Code)).length
          = (summaryItems sort summaries).length := by
      rw [List.length_replicate, ← List.length_map (f := Prod.fst), hfst, entryColumns,
        List.length_map]
    have hread := CountingSort.map_place_offsets (n := (distinctTerms sort summaries).length)
      (fun item hitem => lt_of_mem_entryColumns (hfst ▸ List.mem_map_of_mem hitem)) hlength hcolumn
      (0, List.replicate summaries.elementSize 0)
    rw [hfst, itemsOf_summaryItems hv hterm] at hread
    rw [hfit.getD_toIdx hn hcolumn.le, hfit.getD_toIdx hn hcolumn, ← hread, List.foldl_map]
    apply List.foldl_ext
    intro out p hp
    set placed := CountingSort.place (CountingSort.offsets (distinctTerms sort summaries).length
        (entryColumns sort summaries)).dropLast
      (List.replicate summaries.indices.length (0, List.replicate summaries.elementSize 0))
      (summaryItems sort summaries) with hplaced
    have hplen : p < placed.length := by
      rw [hplaced, CountingSort.length_place, List.length_replicate]
      have hstop := (List.mem_range'_1.mp hp).2
      have hentries : (entryColumns sort summaries).length = summaries.indices.length :=
        List.length_map _
      have hle : ∀ c, (entryColumns sort summaries).countP (· < c) ≤ summaries.indices.length :=
        fun c => List.countP_le_length.trans_eq hentries
      rw [CountingSort.getD_offsets hcolumn.le, CountingSort.getD_offsets hcolumn] at hstop
      have hfirst := hle (termColumn (distinctTerms sort summaries) entry.1)
      have hnext := hle (termColumn (distinctTerms sort summaries) entry.1).succ
      omega
    have hslots : ∀ slot ∈ placed, slot.2.length = summaries.elementSize := by
      refine CountingSort.forall_mem_place (fun slot hslot => ?_) fun item hitem => ?_
      · rw [List.eq_of_mem_replicate hslot, List.length_replicate]
      · obtain ⟨entry', hentry', rfl⟩ := List.mem_map.mp hitem
        apply hcodes
        rw [← hv.map_snd_entries, ← hv.flatten_rows, ← CountingSort.map_rowItems 0, List.map_map]
        exact List.mem_map.mpr ⟨entry', hentry', rfl⟩
    have hvalue : ((placed.flatMap Prod.snd).drop (p * summaries.elementSize)).take
        summaries.elementSize = (placed.getD p (0, List.replicate summaries.elementSize 0)).2 := by
      rw [List.getD_eq_getElem _ _ hplen]
      exact take_drop_flatMap hslots hplen
    have hcluster : (placed.map Prod.fst).getD p 0
        = (placed.getD p (0, List.replicate summaries.elementSize 0)).1 := by
      rw [← List.getD_map (f := Prod.fst)]
    rw [hcluster, summaryValue]
    dsimp only
    rw [hwidth, hvalue]
    rfl
  · rename_i hmissing
    have hnone : CountingSort.itemsOf (CountingSort.rowItems 0 summaries.rows) entry.1 = [] := by
      rw [CountingSort.itemsOf, List.map_eq_nil_iff, List.filter_eq_nil_iff]
      intro item hitem heq
      have hterm : item.1 = entry.1 := by simpa using heq
      refine hmissing (getElem?_termColumn hasc ((hmem _).mpr ?_))
      rw [← hv.map_fst_entries, ← hv.flatten_rows, ← CountingSort.map_fst_rowItems 0, ← hterm]
      exact List.mem_map_of_mem hitem
    rw [hnone]
    rfl

/-- What a query adds to the score of one cluster. -/
theorem getElem?_foldl_addTermScores (hv : summaries.WellFormed) (hn : summaries.numVectors ≠ 0)
    (hcount : summaries.numVectors ≤ 2 ^ 16)
    (hcodes : ∀ code ∈ summaries.values, code.length = summaries.elementSize)
    (hwidth : strideOf summaries.elementSize = summaries.elementSize)
    (hfit : TransposeCountersFit sort summaries) (l : InvertedListClusters)
    (query : SparseRow Code) (out : List F) (c : ℕ) :
    (query.foldl (addTermScores vt (l.buildTranspose sort summaries)) out)[c]?
      = out[c]?.map (· + codeProduct vt (summaries.rows.getD c []) query) := by
  have key : ∀ (query : SparseRow Code) (out : List F),
      (query.foldl (addTermScores vt (l.buildTranspose sort summaries)) out)[c]?
        = out[c]?.map fun score => query.foldl (fun score entry =>
            (CountingSort.itemsOf (summaries.rows.getD c []) entry.1).foldl
              (fun score code => score + codeValue vt entry.2 * codeValue vt code) score) score := by
    intro query
    induction query with
    | nil => simp
    | cons entry query ih =>
        intro out
        have hcluster := CountingSort.itemsOf_itemsOf_rowItems 0 summaries.rows entry.1 c
        rw [Nat.zero_add] at hcluster
        rw [List.foldl_cons, ih, addTermScores_eq vt hv hn hcount hcodes hwidth hfit,
          CountingSort.getElem?_foldl_modify fun score code =>
            score + codeValue vt entry.2 * codeValue vt code, hcluster, Option.map_map]
        rfl
  rw [key]
  congr 1
  funext score
  exact @foldl_itemsOf_eq_rowProduct F F _ id _ _ (fun _ _ _ => rfl) (summaries.rows.getD c [])
    query score

theorem codeProduct_nil (row : SparseRow Code) : codeProduct vt [] row = 0 := by
  apply List.sum_eq_zero
  intro x hx
  obtain ⟨entry, -, rfl⟩ := List.mem_map.mp hx
  exact mul_zero _

end Transpose

section Exact

variable (F : Type) [Ring F] [LinearOrder F] [FloatFormat F]

/-- What scoring owes: for every cluster the inner product of its summary with the query. -/
def ScoresSummaries (sort : StdSort) (summaries : SparseVectors Code) : Prop :=
  ∀ (l : InvertedListClusters) (query : SparseRow Code),
    (l.buildTranspose sort summaries).scoreSummariesTransposed (F := F) query
      = summaries.rows.map fun row =>
          codeProduct (ValueType.ofWidth F summaries.elementSize) row query

variable {F} {sort : StdSort} {summaries : SparseVectors Code}

theorem scoresSummaries_of_fit (hv : summaries.WellFormed)
    (hcount : summaries.numVectors ≤ 2 ^ 16)
    (hcodes : ∀ code ∈ summaries.values, code.length = summaries.elementSize)
    (hwidth : summaries.elementSize = U32 ∨ summaries.elementSize = U16 ∨
      summaries.elementSize = U8)
    (hfit : TransposeCountersFit sort summaries) : ScoresSummaries F sort summaries := by
  intro l query
  by_cases hn : summaries.numVectors = 0
  · have hnone : summaries.rows = [] := by rw [SparseVectors.rows_eq_map_row, hn]; rfl
    rw [scoreSummariesTransposed, nClusters_buildTranspose, if_pos (.inl hn), hn, hnone]
    rfl
  have hstride : strideOf summaries.elementSize = summaries.elementSize := by
    rcases hwidth with h | h | h <;> rw [h] <;> rfl
  have hfields : l.buildTranspose sort summaries = _ := buildTranspose_eq hv hn hcount l
  have htermIds : (l.buildTranspose sort summaries).termIds = distinctTerms sort summaries := by
    rw [hfields]
  have hsize : (l.buildTranspose sort summaries).elementSize = summaries.elementSize := by
    rw [hfields]
  have hlength : summaries.rows.length = summaries.numVectors := summaries.length_rows
  rw [scoreSummariesTransposed, nClusters_buildTranspose, htermIds, hsize]
  by_cases hnil : distinctTerms sort summaries = []
  · -- no summary has a term
    have hindices : summaries.indices = [] := by
      rw [List.eq_nil_iff_forall_not_mem]
      intro term hterm
      have hmem := ((distinctTerms_spec sort summaries).2 term).mpr hterm
      rw [hnil] at hmem
      cases hmem
    have hempty : ∀ row ∈ summaries.rows, row = [] := by
      rw [← List.flatten_eq_nil_iff, hv.flatten_rows, SparseVectors.entries, hindices]
      rfl
    rw [if_pos (.inr hnil), eq_comm, List.eq_replicate_iff, List.length_map, hlength]
    refine ⟨rfl, fun score hscore => ?_⟩
    obtain ⟨row, hrow, rfl⟩ := List.mem_map.mp hscore
    rw [hempty row hrow, codeProduct_nil]
  · apply List.ext_getElem?
    intro c
    rw [if_neg (not_or.mpr ⟨hn, hnil⟩), getElem?_foldl_addTermScores _ hv hn hcount hcodes hstride
      hfit, List.getElem?_map, List.getElem?_replicate]
    by_cases hc : c < summaries.numVectors
    · rw [if_pos hc, List.getElem?_eq_getElem (hc.trans_eq hlength.symm), Option.map_some,
        Option.map_some, zero_add, List.getD_eq_getElem _ _ (hc.trans_eq hlength.symm)]
    · rw [if_neg hc, List.getElem?_eq_none (by omega)]
      rfl

/-- **Term-major scoring is the plain one**, and no counter of the transpose overflows, exactly
when the summaries have fewer than `2 ^ 31` entries. -/
theorem scoreSummaries_iff (hv : summaries.WellFormed)
    (hcount : summaries.numVectors ≤ 2 ^ 16)
    (hcodes : ∀ code ∈ summaries.values, code.length = summaries.elementSize)
    (hwidth : summaries.elementSize = U32 ∨ summaries.elementSize = U16 ∨
      summaries.elementSize = U8) :
    (TransposeCountersFit sort summaries ∧ ScoresSummaries F sort summaries) ↔
      summaries.indices.length < 2 ^ 31 := by
  rw [← transposeCountersFit_iff hv]
  exact ⟨And.left, fun hfit => ⟨hfit, scoresSummaries_of_fit hv hcount hcodes hwidth hfit⟩⟩

end Exact

/-! ### Too many entries -/

/-- A store of rows. -/
def storeOf (elementSize dimension : ℕ) (rows : List (SparseRow Code)) : SparseVectors Code where
  elementSize
  dimension
  indptr := Csr.offsets rows
  indices := rows.flatten.map Prod.fst
  values := rows.flatten.map Prod.snd

theorem storeOf_wellFormed (elementSize dimension : ℕ) (rows : List (SparseRow Code)) :
    (storeOf elementSize dimension rows).WellFormed where
  paired := by rw [storeOf, List.length_map, List.length_map]
  empty h := absurd (congrArg List.length h) (by simp [storeOf])
  offsets _ := by
    rw [storeOf, List.length_map]
    exact Csr.offsets_valid rows

theorem rows_storeOf (elementSize dimension : ℕ) (rows : List (SparseRow Code)) :
    (storeOf elementSize dimension rows).rows = rows := by
  have hentries : (storeOf elementSize dimension rows).entries = rows.flatten :=
    (List.zip_of_prod rfl rfl).symm
  rw [SparseVectors.rows, hentries]
  exact Csr.rows_offsets rows

theorem numVectors_storeOf (elementSize dimension : ℕ) (rows : List (SparseRow Code)) :
    (storeOf elementSize dimension rows).numVectors = rows.length := by
  rw [← SparseVectors.length_rows, rows_storeOf]

/-- A row with all the terms below `n`. -/
def fullRow (n : ℕ) : SparseRow Code := (List.range n).map fun term => (term, [1])

/-- `m` summaries that all have the terms below `n`. -/
def fullSummaries (m n : ℕ) : SparseVectors Code := storeOf 1 n (List.replicate m (fullRow n))

theorem fullSummaries_wellFormed (m n : ℕ) : (fullSummaries m n).WellFormed :=
  storeOf_wellFormed 1 n _

/-- Three summaries, two of them with term 0 and two with term 2. -/
def threeSummaries : SparseVectors Code :=
  storeOf 1 5 [[(0, [5]), (2, [1])], [(0, [3]), (4, [2])], [(2, [7])]]

set_option maxRecDepth 10000 in
theorem scoreSummaries_iff_three_summaries :
    (empty.buildTranspose insertionSort threeSummaries).scoreSummariesTransposed
        [(0, [2]), (2, [1]), (3, [9])] = ([11, 6, 7] : List ℤ) ∧
      ((TransposeCountersFit insertionSort threeSummaries ∧
          ScoresSummaries ℤ insertionSort threeSummaries) ↔
        threeSummaries.indices.length < 2 ^ 31) :=
  ⟨by decide, scoreSummaries_iff (storeOf_wellFormed 1 5 _) (by decide) (by decide)
    (.inr (.inr rfl))⟩

theorem indices_fullSummaries (m n : ℕ) :
    (fullSummaries m n).indices = (List.replicate m (List.range n)).flatten := by
  rw [fullSummaries, storeOf, List.map_flatten, List.map_replicate, fullRow, List.map_map]
  exact congrArg (fun row => (List.replicate m row).flatten) (List.map_id _)

theorem length_indices_fullSummaries (m n : ℕ) : (fullSummaries m n).indices.length = m * n := by
  simp [indices_fullSummaries]

theorem distinctTerms_fullSummaries (sort : StdSort) {m n : ℕ} (hm : 0 < m) :
    distinctTerms sort (fullSummaries m n) = List.range n := by
  obtain ⟨hasc, hmem⟩ := distinctTerms_spec sort (fullSummaries m n)
  refine hasc.eq_of_mem_iff List.pairwise_lt_range fun term => ?_
  rw [hmem, indices_fullSummaries, List.mem_flatten]
  constructor
  · rintro ⟨row, hrow, hterm⟩
    rwa [List.eq_of_mem_replicate hrow] at hterm
  · exact fun h => ⟨_, List.mem_replicate.mpr ⟨hm.ne', rfl⟩, h⟩

/-- The column of the last term ends before it begins, so the term scores nowhere. -/
theorem addTermScores_fullSummaries {F : Type} [Ring F] (vt : ValueType F) (sort : StdSort)
    {m n : ℕ} (hm : 0 < m) (hcount : m ≤ 2 ^ 16) (hneg : toIdx (m * (n + 1) : ℕ) ≤ 0)
    (l : InvertedListClusters) (out : List F) (code : Code) :
    addTermScores vt (l.buildTranspose sort (fullSummaries m (n + 1))) out (n, code) = out := by
  have hn : (fullSummaries m (n + 1)).numVectors = m := by
    rw [fullSummaries, numVectors_storeOf, List.length_replicate]
  have hids : distinctTerms sort (fullSummaries m (n + 1)) = List.range (n + 1) :=
    distinctTerms_fullSummaries sort hm
  have hcolumn : termColumn (List.range (n + 1)) n = n := by
    have hget := @termColumn_getElem (List.range (n + 1)) List.pairwise_lt_range n (by simp)
    rwa [List.getElem_range] at hget
  have htotal : (CountingSort.offsets (n + 1)
      (entryColumns sort (fullSummaries m (n + 1)))).getD (n + 1) 0 = m * (n + 1) := by
    have hlen := congrArg List.length hids
    rw [List.length_range] at hlen
    rw [CountingSort.getD_offsets le_rfl, List.countP_eq_length.mpr fun c hc => ?_]
    · rw [entryColumns, List.length_map, length_indices_fullSummaries]
    · simpa [hlen] using lt_of_mem_entryColumns hc
  rw [buildTranspose_eq (fullSummaries_wellFormed m (n + 1)) (by rw [hn]; exact hm.ne') (by rwa [hn]),
    addTermScores]
  dsimp only
  rw [hids, hcolumn, List.length_range]
  have hstop : (((CountingSort.offsets (n + 1)
      (entryColumns sort (fullSummaries m (n + 1)))).map fun n : ℕ => toIdx n).getD (n + 1) 0).toNat
        = 0 := by
    have hlt : n + 1 < (CountingSort.offsets (n + 1)
        (entryColumns sort (fullSummaries m (n + 1)))).length := by simp
    rw [List.getD_eq_getElem _ _ (by rwa [List.length_map]), List.getElem_map,
      ← List.getD_eq_getElem _ 0 hlt, htotal, Int.toNat_eq_zero]
    exact hneg
  split
  · rw [hstop, Nat.zero_sub]
    rfl
  · rfl

theorem codeProduct_fullRow {F : Type} [Ring F] (vt : ValueType F) (n : ℕ) (code : Code) :
    codeProduct vt (fullRow (n + 1)) [(n, code)] = codeValue vt code * codeValue vt [1] := by
  have hbelow : CountingSort.itemsOf (fullRow n) n = [] := by
    rw [CountingSort.itemsOf, List.map_eq_nil_iff, List.filter_eq_nil_iff]
    intro entry hentry heq
    obtain ⟨term, hterm, rfl⟩ := List.mem_map.mp hentry
    exact (List.mem_range.mp hterm).ne (of_decide_eq_true heq)
  have hitems : CountingSort.itemsOf (fullRow (n + 1)) n = [[1]] := by
    rw [fullRow, List.range_succ, List.map_append, CountingSort.itemsOf_append, ← fullRow, hbelow]
    exact CountingSort.itemsOf_singleton n [1] n |>.trans (if_pos rfl)
  have hsum := itemsOf_decodeRow (codeValue vt) (fullRow (n + 1)) n
  rw [hitems, CountingSort.itemsOf] at hsum
  show codeValue vt code * (((decodeRow (codeValue vt) (fullRow (n + 1))).filter
    fun q => q.1 = n).map Prod.snd).sum + 0 = _
  rw [hsum, List.map_singleton, List.sum_singleton, add_zero]

/-- So the scores are not the inner products. -/
theorem not_scoresSummaries_fullSummaries (sort : StdSort) {m n : ℕ} (hm : 0 < m)
    (hcount : m ≤ 2 ^ 16) (hneg : toIdx (m * (n + 1) : ℕ) ≤ 0) :
    ¬ ScoresSummaries ℤ sort (fullSummaries m (n + 1)) := by
  intro h
  have hquery := h .empty [(n, [1])]
  have hzero : (InvertedListClusters.empty.buildTranspose sort
      (fullSummaries m (n + 1))).scoreSummariesTransposed (F := ℤ) [(n, [1])]
        = List.replicate m 0 := by
    rw [scoreSummariesTransposed, nClusters_buildTranspose, fullSummaries, numVectors_storeOf,
      List.length_replicate, ← fullSummaries, List.foldl_cons,
      addTermScores_fullSummaries _ sort hm hcount hneg]
    exact ite_self _
  have hvalue : codeValue (ValueType.ofWidth ℤ (fullSummaries m (n + 1)).elementSize) [1] = 1 := rfl
  rw [hzero, fullSummaries, rows_storeOf, List.map_replicate, ← fullSummaries, codeProduct_fullRow,
    hvalue, List.replicate_inj] at hquery
  exact hquery.2.elim (fun hm0 => hm.ne' hm0) (by decide)

/-- **The last term scores nowhere** when the summaries have `2 ^ 31` entries. -/
theorem scoreSummaries_fails :
    (fullSummaries (2 ^ 15) (2 ^ 16)).numVectors ≤ 2 ^ 16 ∧
      ¬ ScoresSummaries ℤ insertionSort (fullSummaries (2 ^ 15) (2 ^ 16)) := by
  constructor
  · rw [fullSummaries, numVectors_storeOf, List.length_replicate]
    exact Nat.pow_le_pow_right (Nat.succ_pos 1) (Nat.le_succ 15)
  · exact not_scoresSummaries_fullSummaries insertionSort (Nat.two_pow_pos 15)
      (Nat.pow_le_pow_right (Nat.succ_pos 1) (Nat.le_succ 15)) (by decide)

end InvertedListClusters

end Nsparse
