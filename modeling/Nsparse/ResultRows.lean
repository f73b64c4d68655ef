/-
Nsparse/ResultRows.lean

What the rows of a search consist of.

A heap keeps nothing but what it was offered (`TopKHolder.Offered`), so what is true of
every document a search offers is true of every label it returns.  A row is what the
heap kept and then padding, `k` slots in all (`FilledRow`), and a batch has one row for
each query (`FilledRows`).

The loops of the seismic searches offer the documents that pass the selector, those of
the exact-match paths the documents listed; `Hit` says which row such a document was
scored by.  Every lemma here follows one loop of the source.
-/
import Nsparse.BlockScores
import Nsparse.ExactMatch
import Nsparse.PlainIndex

namespace Nsparse

/-! ### What a heap was offered -/

namespace TopKHolder

variable {F T : Type} [LinearOrder F] {Q : ItemQueue F T} {h : TopKHolder Q} {k : ℕ}
  {P : TopKItem F T → Prop}

/-- The heap has room for `k`, and everything it was offered satisfies `P`. -/
def Offered (h : TopKHolder Q) (k : ℕ) (P : TopKItem F T → Prop) : Prop :=
  ∃ offered, h.Holds k offered ∧ ∀ x ∈ offered, P x

theorem offered_new {k : ℤ} (hnew : new Q k = .ok h) (P : TopKItem F T → Prop) :
    h.Offered k.toNat P :=
  ⟨0, new_holds hnew, fun x hx => absurd hx (Multiset.notMem_zero x)⟩

theorem Offered.add (hh : h.Offered k P) {score : F} {item : T} (hP : P ⟨score, item⟩) :
    (h.add score item).Offered k P := by
  obtain ⟨offered, hholds, hall⟩ := hh
  refine ⟨_, hholds.add score item, fun x hx => ?_⟩
  rcases Multiset.mem_cons.mp hx with rfl | hx
  · exact hP
  · exact hall x hx

/-- What is drained was offered. -/
theorem Offered.drained (hh : h.Offered k P) :
    ∃ items : List (TopKItem F T), items.length ≤ k ∧ (∀ x ∈ items, P x) ∧
      h.topKItemsDescending = (items.map TopKItem.score, items.map TopKItem.id) := by
  obtain ⟨offered, hholds, hall⟩ := hh
  obtain ⟨items, hitems, -, heq⟩ := h.topKItemsDescending_spec
  refine ⟨items, ?_, fun x hx => ?_, heq⟩
  · have hle := hholds.best.card_le
    rwa [← hitems, Multiset.coe_card] at hle
  · apply hall
    apply Multiset.mem_of_le hholds.best.le
    rw [← hitems]
    exact Multiset.mem_coe.mpr hx

end TopKHolder

/-! ### Rows -/

variable {F : Type}

section Rows

variable [One F] [Neg F]

/-- Items with their decoded scores, and behind them padding: `k` slots. -/
def FilledRow (k : ℕ) (P : TopKItem F ℤ → Prop) (decode : F → F) (row : List F × List ℤ) : Prop :=
  ∃ items : List (TopKItem F ℤ), items.length ≤ k ∧ (∀ x ∈ items, P x) ∧
    row.1 = items.map (fun x => decode x.score) ++ List.replicate (k - items.length) (-1) ∧
    row.2 = items.map TopKItem.id ++ List.replicate (k - items.length) INVALID_IDX

/-- A filled row for every query. -/
def FilledRows {A : Type} (k : ℕ) (P : A → TopKItem F ℤ → Prop) (decode : F → F)
    (queries : List A) (rows : SearchRows F) : Prop :=
  ∃ results : List (List F × List ℤ),
    rows = (results.map Prod.fst, results.map Prod.snd) ∧
      List.Forall₂ (fun query result => FilledRow k (P query) decode result) queries results

theorem resize_of_length_le {α : Type} {l : List α} {k : ℕ} (h : l.length ≤ k) (x : α) :
    resize l k x = l ++ List.replicate (k - l.length) x := by
  rw [resize, List.take_of_length_le h]

theorem filledRow_padded {k : ℕ} {P : TopKItem F ℤ → Prop} (decode : F → F)
    {items : List (TopKItem F ℤ)} (hlen : items.length ≤ k) (hP : ∀ x ∈ items, P x) :
    FilledRow k P decode (resize ((items.map TopKItem.score).map decode) k (-1),
      resize (items.map TopKItem.id) k INVALID_IDX) := by
  refine ⟨items, hlen, hP, ?_, ?_⟩
  · show resize _ k (-1) = _
    rw [List.map_map, resize_of_length_le (by rwa [List.length_map]), List.length_map]
    rfl
  · show resize _ k INVALID_IDX = _
    rw [resize_of_length_le (by rwa [List.length_map]), List.length_map]

/-- **A drained heap**, padded, is a filled row. -/
theorem filledRow_of_offered [LinearOrder F] {Q : ItemQueue F ℤ} {heap : TopKHolder Q} {k : ℤ}
    {P : TopKItem F ℤ → Prop} (decode : F → F) (h : heap.Offered k.toNat P) :
    FilledRow k.toNat P decode (paddedResult decode k heap.topKItemsDescending) := by
  obtain ⟨items, hlen, hP, heq⟩ := h.drained
  rw [heq]
  exact filledRow_padded decode hlen hP

/-- A row of nothing but padding. -/
theorem filledRow_replicate (k : ℕ) (P : TopKItem F ℤ → Prop) (decode : F → F) :
    FilledRow k P decode (List.replicate k (-1), List.replicate k INVALID_IDX) :=
  ⟨[], Nat.zero_le k, nofun, rfl, rfl⟩

variable {A : Type} {k : ℕ} {P : A → TopKItem F ℤ → Prop} {decode : F → F}

theorem filledRows_nil : FilledRows k P decode ([] : List A) (([], []) : SearchRows F) :=
  ⟨[], rfl, .nil⟩

theorem FilledRows.cons {query : A} {queries : List A} {row : List F × List ℤ}
    {rows : SearchRows F} (hrow : FilledRow k (P query) decode row)
    (h : FilledRows k P decode queries rows) :
    FilledRows k P decode (query :: queries) (row.1 :: rows.1, row.2 :: rows.2) := by
  obtain ⟨results, rfl, hall⟩ := h
  exact ⟨row :: results, rfl, .cons hrow hall⟩

end Rows

/-! ### Decoding -/

/-- Decoding the scores in front of the padding, when all labels are ids. -/
theorem decodeFilled_padded [Neg F] [One F] (decode : F → F) (k : ℕ) {ds : List F} {ls : List ℤ}
    (hlen : ds.length = ls.length) (hls : ∀ l ∈ ls, 0 ≤ l) :
    decodeFilled decode (resize ds k (-1)) (resize ls k INVALID_IDX)
      = resize (ds.map decode) k (-1) := by
  have hfilled : (resize ls k INVALID_IDX).takeWhile (· ≠ INVALID_IDX) = ls.take k := by
    have hids : ∀ l ∈ ls.take k, decide (l ≠ INVALID_IDX) = true := by
      intro l hl
      have hpos := hls l (List.mem_of_mem_take hl)
      apply decide_eq_true
      rintro rfl
      exact absurd hpos (by decide)
    rw [resize, List.takeWhile_append_of_pos hids]
    have hpadding : ∀ n, (List.replicate n INVALID_IDX).takeWhile (· ≠ INVALID_IDX) = [] := by
      intro n
      cases n with
      | zero => rfl
      | succ n => rfl
    rw [hpadding, List.append_nil]
  have hsame : (ds.take k).length = (ls.take k).length := by
    rw [List.length_take, List.length_take, hlen]
  rw [decodeFilled, hfilled, resize, List.take_left' hsame, List.drop_left' hsame, resize,
    List.length_map, List.map_take]

section Decoding

variable [One F] [Neg F] {k : ℕ} {P : TopKItem F ℤ → Prop} {row : List F × List ℤ}

/-- Decoding what carries a label decodes the items. -/
theorem FilledRow.decodeLabelled (decode : F → F) (h : FilledRow k P id row)
    (hP : ∀ x, P x → 0 ≤ x.id) :
    FilledRow k P decode (Nsparse.decodeLabelled decode row.1 row.2, row.2) := by
  obtain ⟨items, hlen, hitems, hds, hls⟩ := h
  refine ⟨items, hlen, hitems, ?_, hls⟩
  show List.zipWith _ row.1 row.2 = _
  rw [hds, hls, List.zipWith_append (by rw [List.length_map, List.length_map])]
  congr 1
  · rw [List.zipWith_map, List.zipWith_self]
    refine List.map_congr_left fun x hx => ?_
    have hpos := hP x (hitems x hx)
    rw [if_neg]
    · rfl
    · intro hinvalid
      rw [hinvalid] at hpos
      exact absurd hpos (by decide)
  · rw [List.zipWith_replicate, min_self, if_pos rfl]

/-- Decoding up to the first slot without a label does, too. -/
theorem FilledRow.decodeFilled (decode : F → F) (h : FilledRow k P id row)
    (hP : ∀ x, P x → 0 ≤ x.id) :
    FilledRow k P decode (Nsparse.decodeFilled decode row.1 row.2, row.2) := by
  obtain ⟨items, hlen, hitems, hds, hls⟩ := h
  have hids : ∀ l ∈ items.map TopKItem.id, 0 ≤ l :=
    List.forall_mem_map.mpr fun x hx => hP x (hitems x hx)
  have hlens : (items.map fun x => x.score).length = (items.map TopKItem.id).length := by
    rw [List.length_map, List.length_map]
  have hpadded := decodeFilled_padded decode k hlens hids
  refine ⟨items, hlen, hitems, ?_, hls⟩
  show Nsparse.decodeFilled decode row.1 row.2 = _
  rw [resize_of_length_le (by rwa [List.length_map]), resize_of_length_le (by rwa [List.length_map]),
    resize_of_length_le (by rwa [List.length_map, List.length_map]), List.length_map,
    List.length_map, List.length_map, List.map_map, List.length_map] at hpadded
  rw [hds, hls]
  exact hpadded

/-- The rows of a batch are decoded one by one. -/
theorem FilledRows.decoded {A : Type} {P : A → TopKItem F ℤ → Prop} {decode : F → F}
    {decodeRow : List F → List ℤ → List F}
    (hdecode : ∀ query row, FilledRow k (P query) id row →
      FilledRow k (P query) decode (decodeRow row.1 row.2, row.2))
    {queries : List A} {rows : SearchRows F} (h : FilledRows k P id queries rows) :
    FilledRows k P decode queries (rows.1.zipWith decodeRow rows.2, rows.2) := by
  obtain ⟨results, rfl, hall⟩ := h
  induction hall with
  | nil => exact filledRows_nil
  | cons hrow _ ih => exact ih.cons (hdecode _ _ hrow)

/-- What a row's labels are. -/
theorem FilledRow.labels {decode : F → F} (h : FilledRow k P decode row) :
    row.2.length = k ∧ ∀ label ∈ row.2, label = INVALID_IDX ∨ ∃ x, P x ∧ x.id = label := by
  obtain ⟨items, hlen, hitems, -, hls⟩ := h
  rw [hls]
  constructor
  · rw [List.length_append, List.length_map, List.length_replicate, Nat.add_sub_cancel' hlen]
  · intro label hlabel
    rcases List.mem_append.mp hlabel with hlabel | hlabel
    · obtain ⟨x, hx, rfl⟩ := List.mem_map.mp hlabel
      exact Or.inr ⟨x, hitems x hx, rfl⟩
    · exact Or.inl (List.eq_of_mem_replicate hlabel)

end Decoding

/-! ### Scored documents -/

/-- A document that `admits` lets through, scored by one of the rows that are `named` for it. -/
structure Hit (admits : ℤ → Prop) (named : ℤ → SparseRow Code → Prop)
    (score : SparseRow Code → Option F) (x : TopKItem F ℤ) : Prop where
  admitted : admits x.id
  scored : ∃ row, named x.id row ∧ score row = some x.score

/-- A loop whose turns keep an invariant keeps it. -/
theorem foldlM_keeps {α σ ε : Type} {I : σ → Prop} {f : σ → α → Except ε σ} {l : List α}
    (hf : ∀ a ∈ l, ∀ s s', I s → f s a = .ok s' → I s') {s s' : σ} (hs : I s)
    (h : l.foldlM f s = .ok s') : I s' := by
  induction l generalizing s with
  | nil => exact Except.ok.inj h ▸ hs
  | cons a l ih =>
      obtain ⟨ha, hl⟩ := List.forall_mem_cons.mp hf
      rw [List.foldlM_cons] at h
      obtain ⟨s₁, hfirst, hrest⟩ := bind_eq_ok h
      exact ih hl (ha s s₁ hs hfirst) hrest

section Loops

variable [Zero F] [Add F] [Sub F] [Mul F] [LinearOrder F] [FloatFormat F] {Q : ItemQueue F ℤ}
  {elementSize k : ℕ} {dense : List Code} {sel : Option IDSelector}
  {named : ℤ → SparseRow Code → Prop}

/-- The heap was offered documents that pass. -/
def Visit.Offered (s : Visit Q) (k : ℕ) (sel : Option IDSelector)
    (named : ℤ → SparseRow Code → Prop) (score : SparseRow Code → Option F) : Prop :=
  s.heap.Offered k (Hit (fun doc => IDSelector.passes sel doc = true) named score)

theorem scoreDoc_offered {doc : ℤ} {row : SparseRow Code} (hnamed : named doc row)
    {s s' : Visit Q} (hs : s.Offered k sel named (computeSimilarity elementSize dense))
    (h : scoreDoc elementSize dense sel doc row s = .ok s') :
    s'.Offered k sel named (computeSimilarity elementSize dense) := by
  unfold scoreDoc at h
  split at h
  · exact Except.ok.inj h ▸ hs
  · dsimp only at h
    split at h
    · exact Except.ok.inj h ▸ hs
    · rename_i hpasses
      split at h
      · cases h
      · rename_i score hscore
        rw [← Except.ok.inj h]
        exact hs.add ⟨by simpa using hpasses, row, hnamed, hscore⟩

/-- The documents of clusters, with their rows. -/
def clusterDocs (vectors : SparseVectors Code) (lists : List InvertedListClusters) (doc : ℤ)
    (row : SparseRow Code) : Prop :=
  (∃ l ∈ lists, ∃ cluster, doc ∈ l.getDocs cluster) ∧ row = docRow vectors doc

theorem scoreDocs_offered {vectors : SparseVectors Code} {docs : List ℤ}
    (hnamed : ∀ doc ∈ docs, named doc (docRow vectors doc)) {s s' : Visit Q}
    (hs : s.Offered k sel named (computeSimilarity elementSize dense))
    (h : scoreDocs vectors elementSize dense sel docs s = .ok s') :
    s'.Offered k sel named (computeSimilarity elementSize dense) := by
  refine foldlM_keeps
    (I := fun s : Visit Q => s.Offered k sel named (computeSimilarity elementSize dense)) ?_ hs h
  intro doc hdoc s s' hs hdone
  exact scoreDoc_offered (hnamed doc hdoc) hs hdone

variable {vectors : SparseVectors Code} {lists : List InvertedListClusters} {heapFactor : F}

theorem visitClusters_offered {l : InvertedListClusters} (hl : l ∈ lists) {scores : List F}
    {firstList : Bool} {order : List ℕ} {s s' : Visit Q}
    (hs : s.Offered k sel (clusterDocs vectors lists) (computeSimilarity elementSize dense))
    (h : visitClusters vectors elementSize dense sel l scores heapFactor firstList order s
      = .ok s') :
    s'.Offered k sel (clusterDocs vectors lists) (computeSimilarity elementSize dense) := by
  induction order generalizing s with
  | nil => exact Except.ok.inj h ▸ hs
  | cons cluster order ih =>
      unfold visitClusters at h
      split at h
      · split at h
        · exact Except.ok.inj h ▸ hs
        · exact ih hs h
      · obtain ⟨s₁, hdocs, hrest⟩ := bind_eq_ok h
        refine ih (scoreDocs_offered (fun doc hdoc => ?_) hs hdocs) hrest
        exact ⟨⟨l, hl, cluster, hdoc⟩, rfl⟩

theorem querySingleInvertedList_offered {sort : StdSort} {query : SparseRow Code}
    {firstList : Bool} {l : InvertedListClusters} (hl : l ∈ lists) {s s' : Visit Q}
    (hs : s.Offered k sel (clusterDocs vectors lists) (computeSimilarity elementSize dense))
    (h : querySingleInvertedList sort vectors elementSize dense sel query heapFactor firstList l s
      = .ok s') :
    s'.Offered k sel (clusterDocs vectors lists) (computeSimilarity elementSize dense) := by
  unfold querySingleInvertedList at h
  split at h
  · exact Except.ok.inj h ▸ hs
  · exact visitClusters_offered hl hs h

theorem queryLists_offered {sort : StdSort} {query : SparseRow Code} {firstList : Bool}
    {cuts : List ℕ} {s s' : Visit Q}
    (hs : s.Offered k sel (clusterDocs vectors lists) (computeSimilarity elementSize dense))
    (h : queryLists sort vectors elementSize dense sel query heapFactor lists firstList cuts s
      = .ok s') :
    s'.Offered k sel (clusterDocs vectors lists) (computeSimilarity elementSize dense) := by
  induction cuts generalizing s firstList with
  | nil => exact Except.ok.inj h ▸ hs
  | cons term cuts ih =>
      unfold queryLists at h
      split at h
      · exact ih hs h
      · rename_i l hl
        obtain ⟨s₁, hlist, hrest⟩ := bind_eq_ok h
        exact ih (querySingleInvertedList_offered (List.mem_of_getElem? hl) hs hlist) hrest

/-- The vectors of a block search name documents as well: those of the blocks, or of the
clusters. -/
def sourceDocs (source : ForwardSource) (lists : List InvertedListClusters) (elementSize : ℕ)
    (doc : ℤ) (row : SparseRow Code) : Prop :=
  ∃ pl cid docs, blockDocs source lists elementSize pl cid = .ok docs ∧ (doc, row) ∈ docs

theorem scoreBlock_offered {source : ForwardSource} {candidate : BlockCandidate F} {s s' : Visit Q}
    (hs : s.Offered k sel (sourceDocs source lists elementSize) (computeSimilarity elementSize dense))
    (h : scoreBlock source lists elementSize dense sel candidate s = .ok s') :
    s'.Offered k sel (sourceDocs source lists elementSize)
      (computeSimilarity elementSize dense) := by
  rw [scoreBlock_eq_scoreRows] at h
  rcases hdocs : blockDocs source lists elementSize candidate.pl candidate.cid with e | docs
  · rw [hdocs] at h
    cases h
  · rw [hdocs] at h
    refine foldlM_keeps (I := fun s : Visit Q =>
      s.Offered k sel (sourceDocs source lists elementSize) (computeSimilarity elementSize dense))
      ?_ hs h
    intro doc hdoc s s' hs hdone
    exact scoreDoc_offered ⟨candidate.pl, candidate.cid, docs, hdocs, hdoc⟩ hs hdone

end Loops

/-! ### Queries -/

section Queries

variable [Zero F] [One F] [Neg F] [Add F] [Sub F] [Mul F] [LinearOrder F] [FloatFormat F]
  {Q : ItemQueue F ℤ} {dimension : ℕ}

omit [Zero F] [One F] [Neg F] [Add F] [Sub F] [Mul F] [LinearOrder F] [FloatFormat F] in
/-- A query that was scattered has no term outside the buffer. -/
theorem scatter_eq_ok {dense dense' : List Code} {query : SparseRow Code}
    (h : scatter dense query = .ok dense') :
    TermsWithin dense.length query ∧ dense' = written dense query := by
  by_cases hwithin : TermsWithin dense.length query
  · rw [scatter_eq hwithin] at h
    exact ⟨hwithin, (Except.ok.inj h).symm⟩
  · rw [scatter_eq_error hwithin] at h
    cases h

omit [Zero F] [One F] [Neg F] [Add F] [Sub F] [Mul F] [LinearOrder F] [FloatFormat F] in
theorem lift_eq_ok {α : Type} {o : Except Exception α} {a : α}
    (h : SearchFault.lift o = .ok a) : o = .ok a := by
  cases o with
  | ok b => exact congrArg Except.ok (Except.ok.inj h)
  | error e => cases h

/-- The score of a document's row for a query. -/
def queryScore (dimension elementSize : ℕ) (query row : SparseRow Code) : Option F :=
  computeSimilarity elementSize (written (zeroBuffer dimension elementSize) query) row

/-- A query over lists that returned: its terms were inside the buffer, its lists were visited from
an empty heap, and the buffer is clean again. -/
theorem run_of_singleQuery {sort : StdSort} {vectors : SparseVectors Code}
    {lists : List InvertedListClusters} {c : SearchSetting F} {cuts : List ℕ}
    {query : SparseRow Code} {row : List F × List ℤ} {dense' : List Code}
    (hne : vectors.numVectors ≠ 0)
    (h : singleQuery Q sort vectors lists c cuts query (zeroBuffer dimension c.format.elementSize)
      = .ok (row, dense')) :
    ∃ heap s, TopKHolder.new Q c.k = .ok heap ∧
      queryLists sort vectors c.format.elementSize
        (written (zeroBuffer dimension c.format.elementSize) query) c.sel query c.heapFactor lists
        true cuts ⟨heap, []⟩ = .ok s ∧
      row = paddedResult c.format.decodeScore c.k s.heap.topKItemsDescending ∧
      dense' = zeroBuffer dimension c.format.elementSize := by
  rw [singleQuery, if_neg hne] at h
  obtain ⟨dense, hscatter, h⟩ := bind_eq_ok h
  obtain ⟨hwithin, rfl⟩ := scatter_eq_ok hscatter
  rw [length_zeroBuffer] at hwithin
  obtain ⟨heap, hheap, h⟩ := bind_eq_ok h
  obtain ⟨s, hlists, h⟩ := bind_eq_ok h
  obtain ⟨cleared, hclear, h⟩ := bind_eq_ok h
  rw [(clearBuffer_scatter hwithin).2] at hclear
  obtain ⟨rfl, rfl⟩ := Prod.mk.inj (Except.ok.inj h)
  exact ⟨heap, s, lift_eq_ok hheap, hlists, rfl, (Except.ok.inj hclear).symm⟩

omit [One F] [Neg F] in
/-- So was a query over blocks. -/
theorem run_of_blockBudgetQuery {nth : StdNthElement} {source : ForwardSource}
    {lists : List InvertedListClusters} {c : BlockSetting F} {cuts : List ℕ}
    {query : SparseRow Code} {items : List F × List ℤ} {dense' : List Code}
    (h : blockBudgetQuery Q nth source lists c cuts query
      (zeroBuffer dimension c.format.elementSize) = .ok (items, dense')) :
    ∃ heap s, TopKHolder.new Q c.k = .ok heap ∧
      (selectBlocks nth (blockCandidates lists query cuts) c.kPrime).foldlM
        (fun s candidate => scoreBlock source lists c.format.elementSize
          (written (zeroBuffer dimension c.format.elementSize) query) c.sel candidate s)
        (⟨heap, []⟩ : Visit Q) = .ok s ∧
      items = s.heap.topKItemsDescending ∧
      dense' = zeroBuffer dimension c.format.elementSize := by
  obtain ⟨dense, hscatter, h⟩ := bind_eq_ok h
  obtain ⟨hwithin, rfl⟩ := scatter_eq_ok hscatter
  rw [length_zeroBuffer] at hwithin
  obtain ⟨heap, hheap, h⟩ := bind_eq_ok h
  obtain ⟨s, hblocks, h⟩ := bind_eq_ok h
  obtain ⟨cleared, hclear, h⟩ := bind_eq_ok h
  rw [(clearBuffer_scatter hwithin).2] at hclear
  obtain ⟨rfl, rfl⟩ := Prod.mk.inj (Except.ok.inj h)
  exact ⟨heap, s, lift_eq_ok hheap, hblocks, rfl, (Except.ok.inj hclear).symm⟩

theorem singleQuery_filled {sort : StdSort} {vectors : SparseVectors Code}
    {lists : List InvertedListClusters} {c : SearchSetting F} {cuts : List ℕ}
    {query : SparseRow Code} {row : List F × List ℤ} {dense' : List Code}
    (hne : vectors.numVectors ≠ 0)
    (h : singleQuery Q sort vectors lists c cuts query (zeroBuffer dimension c.format.elementSize)
      = .ok (row, dense')) :
    FilledRow c.k.toNat (Hit (fun doc => IDSelector.passes c.sel doc = true)
        (clusterDocs vectors lists) (queryScore dimension c.format.elementSize query))
        c.format.decodeScore row ∧
      dense' = zeroBuffer dimension c.format.elementSize := by
  obtain ⟨heap, s, hheap, hlists, rfl, hclean⟩ := run_of_singleQuery hne h
  refine ⟨filledRow_of_offered _ ?_, hclean⟩
  apply queryLists_offered (s := ⟨heap, []⟩) _ hlists
  exact TopKHolder.offered_new hheap _

/-- **The rows of a seismic search**: documents of the clusters that pass. -/
theorem searchQueries_filled {T : ItemQueue F ℕ} {sort : StdSort} {vectors : SparseVectors Code}
    {lists : List InvertedListClusters} {c : SearchSetting F} {queries : List (SparseRow Code)}
    {rows : SearchRows F} (hne : vectors.numVectors ≠ 0)
    (h : searchQueries Q T sort vectors lists c queries
      (zeroBuffer dimension c.format.elementSize) = .ok rows) :
    FilledRows c.k.toNat (fun query => Hit (fun doc => IDSelector.passes c.sel doc = true)
      (clusterDocs vectors lists) (queryScore dimension c.format.elementSize query))
      c.format.decodeScore queries rows := by
  induction queries generalizing rows with
  | nil =>
      obtain rfl := Except.ok.inj h
      exact filledRows_nil
  | cons query queries ih =>
      obtain ⟨cuts, -, h⟩ := bind_eq_ok h
      obtain ⟨⟨row, dense'⟩, hsingle, h⟩ := bind_eq_ok h
      obtain ⟨rest, hrest, h⟩ := bind_eq_ok h
      obtain rfl := Except.ok.inj h
      obtain ⟨hrow, rfl⟩ := singleQuery_filled hne hsingle
      exact (ih hrest).cons hrow

/-- **The rows of a block search**: documents of the blocks that pass. -/
theorem blockQueries_filled {T : ItemQueue F ℕ} {nth : StdNthElement} {source : ForwardSource}
    {lists : List InvertedListClusters} {c : BlockSetting F} {queries : List (SparseRow Code)}
    {rows : SearchRows F}
    (h : blockQueries Q T nth source lists c queries (zeroBuffer dimension c.format.elementSize)
      = .ok rows) :
    FilledRows c.k.toNat (fun query => Hit (fun doc => IDSelector.passes c.sel doc = true)
      (sourceDocs source lists c.format.elementSize)
      (queryScore dimension c.format.elementSize query)) c.format.decodeScore queries rows := by
  induction queries generalizing rows with
  | nil =>
      obtain rfl := Except.ok.inj h
      exact filledRows_nil
  | cons query queries ih =>
      obtain ⟨cuts, -, h⟩ := bind_eq_ok h
      obtain ⟨⟨items, dense'⟩, hsingle, h⟩ := bind_eq_ok h
      obtain ⟨rest, hrest, h⟩ := bind_eq_ok h
      obtain rfl := Except.ok.inj h
      obtain ⟨heap, s, hheap, hblocks, rfl, rfl⟩ := run_of_blockBudgetQuery hsingle
      refine (ih hrest).cons (filledRow_of_offered _ ?_)
      refine foldlM_keeps (I := fun s : Visit Q => s.Offered c.k.toNat c.sel
        (sourceDocs source lists c.format.elementSize)
        (queryScore dimension c.format.elementSize query)) ?_ ?_ hblocks
      · intro candidate _ s s' hs hdone
        exact scoreBlock_offered hs hdone
      · exact TopKHolder.offered_new hheap _

/-! ### Listed documents -/

/-- The documents of the vectors. -/
def vectorDocs (vectors : SparseVectors Code) (doc : ℤ) (row : SparseRow Code) : Prop :=
  0 ≤ doc ∧ doc < vectors.numVectors ∧ row = docRow vectors doc

/-- The documents that the locators of an index find. -/
def locatedDocs (x : DiskSeismicIndex F) (elementSize : ℕ) (doc : ℤ) (row : SparseRow Code) : Prop :=
  0 ≤ doc ∧ doc < x.docLocators.length ∧ x.getDoc doc elementSize = .ok row

variable {vectors : SparseVectors Code} {x : DiskSeismicIndex F} {elementSize k : ℕ}
  {dense : List Code} {listed ids : List ℤ}

omit [One F] [Neg F] in
theorem exactMatchDocs_offered {heap heap' : TopKHolder Q} (hids : ∀ doc ∈ ids, doc ∈ listed)
    (hheap : heap.Offered k (Hit (· ∈ listed) (vectorDocs vectors)
      (computeSimilarity elementSize dense)))
    (h : exactMatchDocs vectors elementSize dense ids heap = .ok heap') :
    heap'.Offered k (Hit (· ∈ listed) (vectorDocs vectors)
      (computeSimilarity elementSize dense)) := by
  induction ids generalizing heap with
  | nil => exact Except.ok.inj h ▸ hheap
  | cons doc ids ih =>
      obtain ⟨hdoc, hids⟩ := List.forall_mem_cons.mp hids
      unfold exactMatchDocs at h
      split at h
      · exact ih hids hheap h
      · rename_i hrange
        split at h
        · cases h
        · rename_i score hscore
          refine ih hids (hheap.add ⟨hdoc, _, ⟨?_, ?_, rfl⟩, hscore⟩) h
          · exact not_lt.mp fun hneg => hrange (Or.inl hneg)
          · exact not_le.mp fun hge => hrange (Or.inr hge)

omit [One F] [Neg F] in
theorem directoryDocs_offered {heap heap' : TopKHolder Q} (hids : ∀ doc ∈ ids, doc ∈ listed)
    (hheap : heap.Offered k (Hit (· ∈ listed) (locatedDocs x elementSize)
      (computeSimilarity elementSize dense)))
    (h : x.directoryDocs elementSize dense ids heap = .ok heap') :
    heap'.Offered k (Hit (· ∈ listed) (locatedDocs x elementSize)
      (computeSimilarity elementSize dense)) := by
  induction ids generalizing heap with
  | nil => exact Except.ok.inj h ▸ hheap
  | cons doc ids ih =>
      obtain ⟨hdoc, hids⟩ := List.forall_mem_cons.mp hids
      unfold DiskSeismicIndex.directoryDocs at h
      split at h
      · exact ih hids hheap h
      · rename_i hrange
        obtain ⟨row, hrow, h⟩ := bind_eq_ok h
        split at h
        · cases h
        · rename_i score hscore
          refine ih hids (hheap.add ⟨hdoc, row, ⟨?_, ?_, lift_eq_ok hrow⟩, hscore⟩) h
          · exact not_lt.mp fun hneg => hrange (Or.inl hneg)
          · exact not_le.mp fun hge => hrange (Or.inr hge)

theorem mem_orderedIds (sort : StdSort) (ids : List ℤ) :
    ∀ doc ∈ IDSelector.orderedIds sort ids, doc ∈ ids :=
  fun _ hdoc => (sort.perm _ ids).mem_iff.mp hdoc

/-- **The rows of an exact match through the vectors**: the documents listed, not yet decoded. -/
theorem exactMatch_filled {sort : StdSort} {k : ℤ} {queries : List (SparseRow Code)}
    {rows : SearchRows F}
    (h : exactMatch Q sort vectors elementSize dimension k listed queries = .ok rows) :
    FilledRows k.toNat (fun query => Hit (· ∈ listed) (vectorDocs vectors)
      (queryScore dimension elementSize query)) id queries rows := by
  induction queries generalizing rows with
  | nil =>
      obtain rfl := Except.ok.inj h
      exact filledRows_nil
  | cons query queries ih =>
      obtain ⟨row, hsingle, h⟩ := bind_eq_ok h
      obtain ⟨rest, hrest, h⟩ := bind_eq_ok h
      obtain rfl := Except.ok.inj h
      obtain ⟨dense, hscatter, hsingle⟩ := bind_eq_ok hsingle
      obtain ⟨-, rfl⟩ := scatter_eq_ok hscatter
      obtain ⟨heap, hheap, hsingle⟩ := bind_eq_ok hsingle
      obtain ⟨heap', hdocs, hsingle⟩ := bind_eq_ok hsingle
      obtain rfl := Except.ok.inj hsingle
      refine (ih hrest).cons (filledRow_of_offered id ?_)
      apply exactMatchDocs_offered (mem_orderedIds sort listed) _ hdocs
      exact TopKHolder.offered_new (lift_eq_ok hheap) _

/-- **The rows of an exact match through the directory**: the documents listed. -/
theorem exactMatchDirectory_filled {format : QueryFormat F} {k : ℤ}
    (hids : ∀ doc ∈ ids, doc ∈ listed) {queries : List (SparseRow Code)} {rows : SearchRows F}
    (h : x.exactMatchDirectory Q format k ids queries (zeroBuffer dimension format.elementSize)
      = .ok rows) :
    FilledRows k.toNat (fun query => Hit (· ∈ listed) (locatedDocs x format.elementSize)
      (queryScore dimension format.elementSize query)) format.decodeScore queries rows := by
  induction queries generalizing rows with
  | nil =>
      obtain rfl := Except.ok.inj h
      exact filledRows_nil
  | cons query queries ih =>
      obtain ⟨dense, hscatter, h⟩ := bind_eq_ok h
      obtain ⟨hwithin, rfl⟩ := scatter_eq_ok hscatter
      rw [length_zeroBuffer] at hwithin
      obtain ⟨heap, hheap, h⟩ := bind_eq_ok h
      obtain ⟨heap', hdocs, h⟩ := bind_eq_ok h
      obtain ⟨cleared, hclear, h⟩ := bind_eq_ok h
      rw [(clearBuffer_scatter hwithin).2] at hclear
      obtain rfl := Except.ok.inj hclear
      obtain ⟨rest, hrest, h⟩ := bind_eq_ok h
      obtain rfl := Except.ok.inj h
      refine (ih hrest).cons (filledRow_of_offered _ ?_)
      apply directoryDocs_offered hids _ hdocs
      exact TopKHolder.offered_new (lift_eq_ok hheap) _

end Queries

/-! ### Searches -/

/-- Rows that a search leaves empty. -/
def emptyRows (F : Type) (n : ℤ) : SearchRows F :=
  (List.replicate n.toNat [], List.replicate n.toNat [])

/-- What a selector of a search lets through: its members, or, where its ids are walked, the ids it
lists. -/
def Admitted (sel : Option IDSelector) (doc : ℤ) : Prop :=
  IDSelector.passes sel doc = true ∨
    ∃ isMember ids size, sel = some (.enumerable isMember ids size) ∧ doc ∈ ids

theorem admitted_of_exactMatchIds {sel : Option IDSelector} {k : ℤ} {ids : List ℤ}
    (h : exactMatchIds sel k = some ids) : ∀ doc ∈ ids, Admitted sel doc := by
  unfold exactMatchIds at h
  split at h
  · split at h
    · obtain rfl := Option.some.inj h
      exact fun doc hdoc => Or.inr ⟨_, _, _, rfl, hdoc⟩
    · cases h
  · cases h

section Filled

variable [One F] [Neg F] {A : Type} {k : ℕ} {P P' : A → TopKItem F ℤ → Prop} {decode : F → F}

theorem FilledRows.mono {queries : List A} {rows : SearchRows F}
    (hP : ∀ query x, P query x → P' query x) (h : FilledRows k P decode queries rows) :
    FilledRows k P' decode queries rows := by
  obtain ⟨results, rfl, hall⟩ := h
  refine ⟨results, rfl, hall.imp ?_⟩
  rintro query row ⟨items, hlen, hitems, hrow⟩
  exact ⟨items, hlen, fun x hx => hP query x (hitems x hx), hrow⟩

end Filled

section Searches

variable [Zero F] [One F] [Neg F] [Add F] [Sub F] [Mul F] [LinearOrder F] [FloatFormat F]
  {Q : ItemQueue F ℤ} {T : ItemQueue F ℕ} {sort : StdSort} {nth : StdNthElement}
  {queryFormat : Option (SearchFields F) → Except Exception (QueryFormat F)}
  {n k : ℤ} {indptr indices : List ℕ} {values : List F} {params : Option (SearchFields F)}
  {sel : Option IDSelector} {rows : SearchRows F}

/-- The queries of a batch, coded. -/
def codedQueries (format : QueryFormat F) (n : ℤ) (indptr indices : List ℕ) (values : List F) :
    List (SparseRow Code) :=
  (List.range n.toNat).map
    (Csr.row indptr (indices.zip ((values.take (indptr.getD n.toNat 0)).map format.encodeQuery)))

omit [Zero F] [One F] [Neg F] [Add F] [Sub F] [Mul F] [LinearOrder F] [FloatFormat F] in
@[simp] theorem length_codedQueries (format : QueryFormat F) (n : ℤ) (indptr indices : List ℕ)
    (values : List F) : (codedQueries format n indptr indices values).length = n.toNat := by
  rw [codedQueries, List.length_map, List.length_range]

omit [Zero F] [One F] [Neg F] [Add F] [Sub F] [Mul F] [LinearOrder F] [FloatFormat F] in
/-- The last offset of a batch is the number of its entries. -/
theorem getD_of_checked {queries : CsrArgs F} {indptr indices : List ℕ} {values : List F}
    (h : queries.checked = .ok (indptr, indices, values)) :
    indptr.getD queries.n.toNat 0 = indices.length ∧ indices.length = values.length ∧
      indptr.length - 1 = queries.n.toNat := by
  obtain ⟨hn, hlen, hoff, hpair, -, -⟩ := CsrArgs.checked_eq_ok h
  have hlast := hoff.last
  rw [List.getLast?_eq_getElem?] at hlast
  have hcount : indptr.length - 1 = queries.n.toNat := by omega
  rw [hcount] at hlast
  exact ⟨by rw [List.getD_eq_getElem?_getD, hlast, Option.getD_some], hpair, hcount⟩

omit [Zero F] [One F] [Neg F] [Add F] [Sub F] [Mul F] [LinearOrder F] [FloatFormat F] in
/-- Queries that are stored as vectors first are the same queries. -/
theorem rows_stored {V : Type} {queries : CsrArgs F} (encode : F → V) {elementSize dimension : ℕ}
    (hqueries : queries.checked = .ok (indptr, indices, values)) {empty stored : SparseVectors V}
    (hempty : SparseVectors.new elementSize dimension = .ok empty)
    (hstored : empty.addVectors indptr (indices.take (indptr.getD queries.n.toNat 0))
      ((values.take (indptr.getD queries.n.toNat 0)).map encode) = .ok stored) :
    stored.rows = Csr.rows indptr
      (indices.zip ((values.take (indptr.getD queries.n.toNat 0)).map encode)) := by
  obtain ⟨-, -, hoff, -, -, -⟩ := CsrArgs.checked_eq_ok hqueries
  obtain ⟨hnnz, -, -⟩ := getD_of_checked hqueries
  obtain ⟨hwf, hrows, -, -⟩ := SparseVectors.new_wellFormed hempty
  have hall : indices.take (indptr.getD queries.n.toNat 0) = indices := by
    rw [hnnz, List.take_length]
  rw [hall] at hstored
  obtain ⟨-, hstoredRows, -, -⟩ := SparseVectors.addVectors_eq_ok hwf hoff hstored
  rw [hstoredRows, hrows, List.nil_append]

omit [Zero F] [One F] [Neg F] [Add F] [Sub F] [Mul F] [LinearOrder F] [FloatFormat F] in
theorem rows_storedQueries {queries : CsrArgs F} {format : QueryFormat F} {dimension : ℕ}
    (hqueries : queries.checked = .ok (indptr, indices, values)) {empty stored : SparseVectors Code}
    (hempty : SparseVectors.new format.elementSize dimension = .ok empty)
    (hstored : empty.addVectors indptr (indices.take (indptr.getD queries.n.toNat 0))
      ((values.take (indptr.getD queries.n.toNat 0)).map format.encodeQuery) = .ok stored) :
    stored.rows = codedQueries format queries.n indptr indices values := by
  rw [rows_stored format.encodeQuery hqueries hempty hstored, Csr.rows,
    (getD_of_checked hqueries).2.2]
  rfl

omit [Zero F] [One F] [Neg F] [Add F] [Sub F] [Mul F] [LinearOrder F] [FloatFormat F] in
theorem rows_storedFloats {queries : CsrArgs F} {elementSize dimension : ℕ}
    (hqueries : queries.checked = .ok (indptr, indices, values)) {empty stored : SparseVectors F}
    (hempty : SparseVectors.new elementSize dimension = .ok empty)
    (hstored : empty.addVectors indptr (indices.take (indptr.getD queries.n.toNat 0))
      (values.take (indptr.getD queries.n.toNat 0)) = .ok stored) :
    stored.rows = queries.rows := by
  obtain ⟨-, -, -, hpair, hrows, -⟩ := CsrArgs.checked_eq_ok hqueries
  have hall : values.take (indptr.getD queries.n.toNat 0) = values := by
    rw [(getD_of_checked hqueries).1, hpair, List.take_length]
  rw [← List.map_id (values.take _)] at hstored
  rw [rows_stored id hqueries hempty hstored, List.map_id, hall, hrows]

/-- The documents a seismic search can name, with their rows. -/
def SeismicIndex.names (x : SeismicIndex F) (doc : ℤ) (row : SparseRow Code) : Prop :=
  ∃ vectors, x.vectors = some vectors ∧
    (clusterDocs vectors x.clusteredInvertedLists doc row ∨ vectorDocs vectors doc row)

/-- Those a search of a disk index can. -/
def DiskSeismicIndex.names (x : DiskSeismicIndex F) (elementSize : ℕ) (doc : ℤ)
    (row : SparseRow Code) : Prop :=
  (∃ source, x.forwardSource = some source ∧
      sourceDocs source x.clusteredInvertedLists elementSize doc row) ∨
    (∃ vectors, x.vectors = some vectors ∧ vectorDocs vectors doc row) ∨
    locatedDocs x elementSize doc row

/-- The rows of a search without documents are empty. -/
theorem searchQueries_of_no_documents {vectors : SparseVectors Code}
    {lists : List InvertedListClusters} {c : SearchSetting F} (hnone : vectors.numVectors = 0)
    {queries : List (SparseRow Code)} {dense : List Code}
    (h : searchQueries Q T sort vectors lists c queries dense = .ok rows) :
    rows = (List.replicate queries.length [], List.replicate queries.length []) := by
  induction queries generalizing rows dense with
  | nil => exact (Except.ok.inj h).symm
  | cons query queries ih =>
      obtain ⟨cuts, -, h⟩ := bind_eq_ok h
      rw [singleQuery, if_pos hnone] at h
      obtain ⟨single, hsingle, h⟩ := bind_eq_ok h
      obtain rfl := Except.ok.inj hsingle
      obtain ⟨rest, hrest, hrows⟩ := bind_eq_ok h
      obtain rfl := Except.ok.inj hrows
      rw [ih hrest]
      rfl

/-- **What a seismic search returns**: a filled row for every query, unless there are no vectors, or
none in them and the selector is not walked. -/
theorem SeismicIndex.search_filled {x : SeismicIndex F} {queries : CsrArgs F}
    (hqueries : queries.checked = .ok (indptr, indices, values))
    (h : x.search Q T sort queryFormat queries.n indptr indices values k params sel = .ok rows) :
    (rows = emptyRows F queries.n ∧ ∀ vectors, x.vectors = some vectors →
        vectors.numVectors = 0 ∧ exactMatchIds sel k = none) ∨
      (∃ vectors, x.vectors = some vectors ∧
        (vectors.numVectors ≠ 0 ∨ exactMatchIds sel k ≠ none)) ∧
      ∃ format, queryFormat params = .ok format ∧
        FilledRows k.toNat
          (fun query => Hit (Admitted sel) x.names (queryScore x.dimension format.elementSize query))
          format.decodeScore (codedQueries format queries.n indptr indices values) rows := by
  have hn := (CsrArgs.checked_eq_ok hqueries).1
  unfold SeismicIndex.search at h
  split at h
  · rename_i hnone
    refine Or.inl ⟨(Except.ok.inj h).symm, fun vectors hvectors => ?_⟩
    rw [hnone] at hvectors
    cases hvectors
  rename_i vectors hvectors
  rw [if_neg hn.ne'] at h
  obtain ⟨format, hformat, h⟩ := bind_eq_ok h
  dsimp only at h
  split at h
  · -- the documents listed
    rename_i ids hids
    obtain ⟨empty, hempty, h⟩ := bind_eq_ok h
    obtain ⟨stored, hstored, h⟩ := bind_eq_ok h
    obtain ⟨undecoded, hexact, h⟩ := bind_eq_ok h
    have hfilled := exactMatch_filled hexact
    rw [rows_storedQueries hqueries (lift_eq_ok hempty) (lift_eq_ok hstored)] at hfilled
    obtain rfl := Except.ok.inj h
    refine Or.inr ⟨⟨vectors, hvectors, Or.inr (by rw [hids]; nofun)⟩, format, lift_eq_ok hformat, ?_⟩
    refine FilledRows.mono ?_ (hfilled.decoded fun query row hrow => hrow.decodeLabelled _ ?_)
    · rintro query x ⟨hadmitted, row, hnamed, hscore⟩
      exact ⟨admitted_of_exactMatchIds hids _ hadmitted, row, ⟨vectors, hvectors, Or.inr hnamed⟩,
        hscore⟩
    · rintro x ⟨-, row, ⟨hpos, -, -⟩, -⟩
      exact hpos
  · rename_i hids
    by_cases hnone : vectors.numVectors = 0
    · left
      refine ⟨?_, fun v hv => ?_⟩
      · rw [searchQueries_of_no_documents hnone h]
        rw [List.length_map, List.length_range]
        rfl
      · obtain rfl := Option.some.inj (hvectors.symm.trans hv)
        exact ⟨hnone, hids⟩
    · right
      refine ⟨⟨vectors, hvectors, Or.inl hnone⟩, format, lift_eq_ok hformat, ?_⟩
      refine FilledRows.mono ?_ (searchQueries_filled hnone h)
      rintro query x ⟨hpasses, row, hnamed, hscore⟩
      exact ⟨Or.inl hpasses, row, ⟨vectors, hvectors, Or.inl hnamed⟩, hscore⟩

/-- **What a search of a disk index returns**: filled rows in every case, of nothing but padding when
there is nothing to score. -/
theorem DiskSeismicIndex.search_filled {x : DiskSeismicIndex F} {queries : CsrArgs F}
    (hqueries : queries.checked = .ok (indptr, indices, values))
    (h : x.search Q T sort nth queryFormat queries.n indptr indices values k params sel
      = .ok rows) :
    rows = paddedResults queries.n k ∨
      ∃ format, queryFormat params = .ok format ∧
        FilledRows k.toNat
          (fun query => Hit (Admitted sel) (x.names format.elementSize)
            (queryScore x.dimension format.elementSize query))
          format.decodeScore (codedQueries format queries.n indptr indices values) rows := by
  have hn := (CsrArgs.checked_eq_ok hqueries).1
  -- both ways into the block search
  have hblocks : ∀ source, x.forwardSource = some source →
      x.searchBlocks Q T nth queryFormat queries.n indptr indices values k params sel source
        = .ok rows →
      ∃ format, queryFormat params = .ok format ∧
        FilledRows k.toNat
          (fun query => Hit (Admitted sel) (x.names format.elementSize)
            (queryScore x.dimension format.elementSize query))
          format.decodeScore (codedQueries format queries.n indptr indices values) rows := by
    intro source hsource h
    unfold searchBlocks at h
    dsimp only at h
    split at h
    · cases h
    · obtain ⟨format, hformat, h⟩ := bind_eq_ok h
      refine ⟨format, lift_eq_ok hformat, FilledRows.mono ?_ (blockQueries_filled h)⟩
      rintro query item ⟨hpasses, row, hnamed, hscore⟩
      exact ⟨Or.inl hpasses, row, Or.inl ⟨source, hsource, hnamed⟩, hscore⟩
  unfold DiskSeismicIndex.search at h
  split at h
  · exact Or.inl (Except.ok.inj h).symm
  split at h
  · exact Or.inl (Except.ok.inj h).symm
  rename_i source hsource
  right
  split at h
  · exact hblocks source hsource h
  rename_i ids hids
  split at h
  · -- the documents listed, through the vectors
    rename_i vectors hvectors
    obtain ⟨format, hformat, h⟩ := bind_eq_ok h
    obtain ⟨empty, hempty, h⟩ := bind_eq_ok h
    obtain ⟨stored, hstored, h⟩ := bind_eq_ok h
    obtain ⟨undecoded, hexact, h⟩ := bind_eq_ok h
    have hfilled := exactMatch_filled hexact
    rw [rows_storedQueries hqueries (lift_eq_ok hempty) (lift_eq_ok hstored)] at hfilled
    obtain rfl := Except.ok.inj h
    refine ⟨format, lift_eq_ok hformat,
      FilledRows.mono ?_ (hfilled.decoded fun query row hrow => hrow.decodeFilled _ ?_)⟩
    · rintro query item ⟨hadmitted, row, hnamed, hscore⟩
      exact ⟨admitted_of_exactMatchIds hids _ hadmitted, row,
        Or.inr (Or.inl ⟨vectors, hvectors, hnamed⟩), hscore⟩
    · rintro item ⟨-, row, ⟨hpos, -, -⟩, -⟩
      exact hpos
  · split at h
    · exact hblocks source hsource h
    · -- through the directory
      obtain ⟨format, hformat, h⟩ := bind_eq_ok h
      refine ⟨format, lift_eq_ok hformat,
        FilledRows.mono ?_ (exactMatchDirectory_filled (mem_orderedIds sort ids) h)⟩
      rintro query item ⟨hadmitted, row, hnamed, hscore⟩
      exact ⟨admitted_of_exactMatchIds hids _ hadmitted, row, Or.inr (Or.inr hnamed), hscore⟩

end Searches

end Nsparse
