/-
Nsparse/SoundVisit.lean

What a search keeps true whatever it passes over.

However the clusters are ordered, whichever are passed over and wherever the visit ends,
the heap has a top `k` of the documents scored so far, each with its own score
(`Visit.Scored`).  No bound is needed for this: a summary that is too small loses
documents, and never changes a score.

So the row of a query is the best of some documents that the lists of its terms name
(`SoundRow`), and where the row of all of them is listed, no rank of it is beaten
(`SoundRow.never_better`).
-/
import Nsparse.PrunedVisit
import Nsparse.ResultRows

namespace Nsparse

/-! ### Rows that hold nothing false -/

section Rows

variable {F : Type} [LinearOrder F] [One F] [Neg F] {k : ℕ} {score : ℤ → F} {decode : F → F}
  {docs : Finset ℤ} {row full : List F × List ℤ}

/-- **The best of some of the documents.** -/
def SoundRow (k : ℕ) (score : ℤ → F) (decode : F → F) (docs : Finset ℤ)
    (row : List F × List ℤ) : Prop :=
  ∃ scored ⊆ docs, BestRow k score decode scored row

theorem BestRow.sound (h : BestRow k score decode docs row) : SoundRow k score decode docs row :=
  ⟨docs, Finset.Subset.refl docs, h⟩

theorem SoundRow.mono {more : Finset ℤ} (hsub : docs ⊆ more) (h : SoundRow k score decode docs row) :
    SoundRow k score decode more row := by
  obtain ⟨scored, hscored, hrow⟩ := h
  exact ⟨scored, hscored.trans hsub, hrow⟩

theorem SoundRow.congr {other : ℤ → F} (h : SoundRow k score decode docs row)
    (hscore : ∀ doc ∈ docs, score doc = other doc) : SoundRow k other decode docs row := by
  obtain ⟨scored, hscored, hrow⟩ := h
  exact ⟨scored, hscored, hrow.congr fun doc hdoc => hscore doc (hscored hdoc)⟩

/-- **Every label is a document of its own, with its own score.** -/
theorem SoundRow.labels (h : SoundRow k score decode docs row) :
    ∃ found : List ℤ, found.Nodup ∧ found.length ≤ k ∧ (∀ doc ∈ found, doc ∈ docs) ∧
      row.1 = found.map (fun doc => decode (score doc)) ++ List.replicate (k - found.length) (-1) ∧
      row.2 = found ++ List.replicate (k - found.length) INVALID_IDX := by
  obtain ⟨scored, hscored, found, hnodup, hin, hscores, hfst, hsnd⟩ := h
  have hlen := (BestRow.length_found hscores).trans_le (min_le_left _ _)
  exact ⟨found, hnodup, hlen, fun doc hdoc => hscored (hin doc hdoc), hfst, hsnd⟩

/-- **No rank is beaten**: where a sound row lists a document, the row of all the documents has a
score that is no lower. -/
theorem SoundRow.never_better (hdecode : Monotone decode) (h : SoundRow k score decode docs row)
    (hfull : BestRow k score decode docs full) {i : ℕ}
    (hlabel : row.2.getD i INVALID_IDX ≠ INVALID_IDX) (x : F) :
    row.1.getD i x ≤ full.1.getD i x := by
  obtain ⟨scored, hscored, hrow⟩ := h
  obtain ⟨found, -, -, hscores, -, hsnd⟩ := id hrow
  have hlen := BestRow.length_found hscores
  -- behind the documents found there is no label
  have hfound : i < found.length := by
    by_contra hout
    refine hlabel ?_
    rw [hsnd, List.getD_eq_getElem?_getD, List.getElem?_append_right (not_lt.mp hout),
      List.getElem?_replicate]
    split
    · rfl
    · rfl
  rw [hlen] at hfound
  exact hfull.le_of_subset hdecode hscored hrow (hfound.trans_le (min_le_left _ _))
    (hfound.trans_le (min_le_right _ _)) x

/-- A sound row for every query. -/
def SoundRows {A : Type} (k : ℕ) (score : A → ℤ → F) (decode : F → F) (docs : A → Finset ℤ)
    (queries : List A) (rows : SearchRows F) : Prop :=
  ∃ results : List (List F × List ℤ), rows = (results.map Prod.fst, results.map Prod.snd) ∧
    List.Forall₂ (fun query result => SoundRow k (score query) decode (docs query) result)
      queries results

theorem SoundRows.cons {A : Type} {score : A → ℤ → F} {docs : A → Finset ℤ} {query : A}
    {queries : List A} {rows : SearchRows F} (hrow : SoundRow k (score query) decode (docs query) row)
    (h : SoundRows k score decode docs queries rows) :
    SoundRows k score decode docs (query :: queries) (row.1 :: rows.1, row.2 :: rows.2) := by
  obtain ⟨results, rfl, hall⟩ := h
  exact ⟨row :: results, rfl, .cons hrow hall⟩

end Rows

/-! ### The documents scored -/

variable {F : Type} [Zero F] [Add F] [Sub F] [Mul F] [LinearOrder F] [FloatFormat F]
  {Q : ItemQueue F ℤ}

/-- **The documents scored** are those seen that pass the selector: the heap has a top `k` of them.
All that were seen are among those named, and a document that was scored has its terms within the
buffer. -/
structure Visit.Scored (k : ℕ) (sel : Option IDSelector) (elementSize : ℕ) (dense : List Code)
    (rowOf : ℤ → SparseRow Code) (named : ℤ → Prop) (s : Visit Q) : Prop where
  holds : s.heap.Holds k ((selectedDocs sel s.visited).val.map (docItem elementSize dense rowOf))
  named : ∀ doc ∈ s.visited, named doc
  within : ∀ doc ∈ selectedDocs sel s.visited, TermsWithin dense.length (rowOf doc)

/-- The documents of the lists of some terms. -/
def NamedBy (lists : List InvertedListClusters) (cuts : List ℕ) (doc : ℤ) : Prop :=
  ∃ term ∈ cuts, ∃ l, lists[term]? = some l ∧ doc ∈ l.docs

omit [Zero F] [Add F] [Sub F] [Mul F] [LinearOrder F] [FloatFormat F] in
/-- The members of a cluster are among the documents of its list. -/
theorem InvertedListClusters.mem_of_getDocs {l : InvertedListClusters} {cluster : ℕ} {doc : ℤ}
    (h : doc ∈ l.getDocs cluster) : doc ∈ l.docs := by
  unfold getDocs at h
  split at h
  · exact absurd h List.not_mem_nil
  · exact List.mem_of_mem_drop (List.mem_of_mem_take h)

namespace Visit.Scored

variable {k : ℕ} {sel : Option IDSelector} {elementSize : ℕ} {dense : List Code}
  {rowOf : ℤ → SparseRow Code} {named : ℤ → Prop} {s s' : Visit Q}

omit [Sub F] in
/-- Nothing was seen yet. -/
theorem new {k : ℤ} {heap : TopKHolder Q} (h : TopKHolder.new Q k = .ok heap)
    (sel : Option IDSelector) (elementSize : ℕ) (dense : List Code)
    (rowOf : ℤ → SparseRow Code) (named : ℤ → Prop) :
    (⟨heap, []⟩ : Visit Q).Scored k.toNat sel elementSize dense rowOf named where
  holds := TopKHolder.new_holds h
  named _ hdoc := absurd hdoc List.not_mem_nil
  within _ hdoc := absurd hdoc (Finset.notMem_empty _)

/-- **One document**: it was seen, it does not pass, or it is scored. -/
theorem scoreDoc {doc : ℤ} (hs : s.Scored k sel elementSize dense rowOf named) (hdoc : named doc)
    (h : scoreDoc elementSize dense sel doc (rowOf doc) s = .ok s') :
    s'.Scored k sel elementSize dense rowOf named := by
  rw [scoreDoc_eq] at h
  have hnamed : ∀ d ∈ doc :: s.visited, named d :=
    List.forall_mem_cons.mpr ⟨hdoc, hs.named⟩
  split at h
  · exact Except.ok.inj h ▸ hs
  rename_i hunseen
  split at h
  · rename_i hfails
    have hsame : selectedDocs sel (doc :: s.visited) = selectedDocs sel s.visited := by
      ext d
      rw [mem_selectedDocs, mem_selectedDocs, List.mem_cons]
      refine and_congr_left fun hpass => or_iff_right ?_
      rintro rfl
      rw [hfails] at hpass
      cases hpass
    rw [← Except.ok.inj h]
    exact ⟨hsame ▸ hs.holds, hnamed, hsame ▸ hs.within⟩
  rename_i hpasses
  split at h
  · rename_i hwithin
    have hpass : IDSelector.passes sel doc = true := by simpa using hpasses
    have hinsert : selectedDocs sel (doc :: s.visited)
        = insert doc (selectedDocs sel s.visited) := by
      ext d
      rw [Finset.mem_insert, mem_selectedDocs, mem_selectedDocs, List.mem_cons, or_and_right]
      refine or_congr_left ⟨And.left, ?_⟩
      rintro rfl
      exact ⟨rfl, hpass⟩
    have hnew : doc ∉ selectedDocs sel s.visited := fun hin => hunseen (mem_selectedDocs.mp hin).1
    rw [← Except.ok.inj h]
    refine ⟨?_, hnamed, ?_⟩
    · rw [hinsert, Finset.insert_val_of_notMem hnew, Multiset.map_cons]
      exact hs.holds.add _ doc
    · rw [hinsert]
      exact (Finset.forall_mem_insert _ _ _).mpr ⟨hwithin, hs.within⟩
  · cases h

/-- The documents of a cluster, one after the other. -/
theorem scoreDocs {vectors : SparseVectors Code} {docs : List ℤ}
    (hs : s.Scored k sel elementSize dense (docRow vectors) named) (hdocs : ∀ doc ∈ docs, named doc)
    (h : scoreDocs vectors elementSize dense sel docs s = .ok s') :
    s'.Scored k sel elementSize dense (docRow vectors) named :=
  foldlM_keeps
    (I := fun s : Visit Q => s.Scored k sel elementSize dense (docRow vectors) named)
    (fun doc hdoc _ _ hs hrun => hs.scoreDoc (hdocs doc hdoc) hrun) hs h

/-- **The clusters of a list**, in any order: one is scored or passed over, and the visit may end
at any of them. -/
theorem visitClusters {vectors : SparseVectors Code} {l : InvertedListClusters} {scores : List F}
    {heapFactor : F} {firstList : Bool} {order : List ℕ}
    (hs : s.Scored k sel elementSize dense (docRow vectors) named)
    (hdocs : ∀ doc ∈ l.docs, named doc)
    (h : visitClusters vectors elementSize dense sel l scores heapFactor firstList order s
      = .ok s') :
    s'.Scored k sel elementSize dense (docRow vectors) named := by
  induction order generalizing s with
  | nil => exact Except.ok.inj h ▸ hs
  | cons cluster order ih =>
      unfold Nsparse.visitClusters at h
      split at h
      · -- passed over: the list ends here, or the next cluster is looked at
        split at h
        · exact Except.ok.inj h ▸ hs
        · exact ih hs h
      · obtain ⟨s₁, hcluster, hrest⟩ := bind_eq_ok h
        refine ih (hs.scoreDocs (fun doc hdoc => ?_) hcluster) hrest
        exact hdocs doc (InvertedListClusters.mem_of_getDocs hdoc)

/-- **The lists of the terms kept.** -/
theorem queryLists {sort : StdSort} {vectors : SparseVectors Code}
    {lists : List InvertedListClusters} {query : SparseRow Code} {heapFactor : F}
    {firstList : Bool} {cuts : List ℕ}
    (hs : s.Scored k sel elementSize dense (docRow vectors) named)
    (hdocs : ∀ doc, NamedBy lists cuts doc → named doc)
    (h : queryLists sort vectors elementSize dense sel query heapFactor lists firstList cuts s
      = .ok s') :
    s'.Scored k sel elementSize dense (docRow vectors) named := by
  induction cuts generalizing s firstList with
  | nil => exact Except.ok.inj h ▸ hs
  | cons term cuts ih =>
      have hrest : ∀ doc, NamedBy lists cuts doc → named doc := by
        rintro doc ⟨later, hlater, hdoc⟩
        exact hdocs doc ⟨later, .tail _ hlater, hdoc⟩
      unfold Nsparse.queryLists at h
      split at h
      · exact ih hs hrest h
      rename_i l hl
      obtain ⟨s₁, hlist, hlists⟩ := bind_eq_ok h
      refine ih ?_ hrest hlists
      unfold querySingleInvertedList at hlist
      split at hlist
      · exact Except.ok.inj hlist ▸ hs
      · exact hs.visitClusters (fun doc hdoc => hdocs doc ⟨term, List.mem_cons_self, l, hl, hdoc⟩)
          hlist

/-- **A block** of an index with its vectors in memory. -/
theorem scoreBlock {vectors : SparseVectors Code} {lists : List InvertedListClusters}
    {candidate : BlockCandidate F}
    (hs : s.Scored k sel elementSize dense (docRow vectors) named)
    (hdocs : ∀ doc ∈ (lists.getD candidate.pl .empty).docs, named doc)
    (h : scoreBlock (.rows vectors) lists elementSize dense sel candidate s = .ok s') :
    s'.Scored k sel elementSize dense (docRow vectors) named :=
  hs.scoreDocs (fun doc hdoc => hdocs doc (InvertedListClusters.mem_of_getDocs hdoc)) h

omit [Sub F] in
/-- **A drained heap** is the row of the documents scored. -/
theorem soundRow [One F] [Neg F] {k : ℤ} {format : QueryFormat F}
    (hs : s.Scored k.toNat sel format.elementSize dense rowOf named) {docs : Finset ℤ}
    (hdocs : ∀ doc, named doc → TermsWithin dense.length (rowOf doc) →
      IDSelector.passes sel doc = true → doc ∈ docs) :
    SoundRow k.toNat (fun doc => similarityOf format.elementSize dense (rowOf doc))
      format.decodeScore docs (paddedResult format.decodeScore k s.heap.topKItemsDescending) := by
  refine ⟨selectedDocs sel s.visited, fun doc hdoc => ?_, bestRow_of_holds hs.holds⟩
  obtain ⟨hseen, hpass⟩ := mem_selectedDocs.mp hdoc
  exact hdocs doc (hs.named doc hseen) (hs.within doc hdoc) hpass

end Visit.Scored

/-! ### Queries -/

section Queries

variable [One F] [Neg F] {dimension : ℕ}

omit [One F] [Neg F] in
/-- Cutting a query keeps terms of it. -/
theorem mem_of_topKTokens {T : ItemQueue F ℕ} {elementSize : ℕ} {query : SparseRow Code} {cut : ℤ}
    {cuts : List ℕ} (h : topKTokens T elementSize query cut = .ok cuts) :
    ∀ term ∈ cuts, term ∈ query.map Prod.fst := by
  unfold topKTokens at h
  split at h
  · exact Except.ok.inj h ▸ fun term hterm => hterm
  · rcases hnew : TopKHolder.new T cut with e | holder
    · rw [hnew] at h
      cases h
    · rw [hnew] at h
      obtain rfl := Except.ok.inj h
      have hoffered : ∀ (entries : SparseRow Code) (holder : TopKHolder T),
          (∀ entry ∈ entries, entry ∈ query) →
          holder.Offered cut.toNat (fun x => x.id ∈ query.map Prod.fst) →
          (entries.foldl (fun (holder : TopKHolder T) entry => holder.add
            ((ValueType.ofWidth F elementSize).toFloat
              ((ValueType.ofWidth F elementSize).decode entry.2)) entry.1) holder).Offered
            cut.toNat (fun x => x.id ∈ query.map Prod.fst) := by
        intro entries
        induction entries with
        | nil => exact fun holder _ hholder => hholder
        | cons entry entries ih =>
            intro holder hin hholder
            obtain ⟨hentry, hentries⟩ := List.forall_mem_cons.mp hin
            exact ih _ hentries (hholder.add (List.mem_map_of_mem hentry))
      obtain ⟨items, -, hitems, heq⟩ :=
        (hoffered query holder (fun _ h => h) (TopKHolder.offered_new hnew _)).drained
      intro term hterm
      dsimp only at hterm
      rw [heq] at hterm
      obtain ⟨x, hx, rfl⟩ := List.mem_map.mp hterm
      exact hitems x hx

/-- The score of a document for a query, as the dense buffer has it. -/
def denseScore (F : Type) [Zero F] [Add F] [Mul F] [FloatFormat F] (dimension elementSize : ℕ)
    (query row : SparseRow Code) : F :=
  similarityOf elementSize (written (zeroBuffer dimension elementSize) query) row

/-- **A query over any lists**, whatever the factor: its row is the best of some of the documents
that the lists of its terms name, and the buffer is clean again. -/
theorem soundRow_singleQuery {sort : StdSort} {vectors : SparseVectors Code}
    {lists : List InvertedListClusters} {c : SearchSetting F} {cuts : List ℕ}
    {query : SparseRow Code} {row : List F × List ℤ} {dense' : List Code} (docs : Finset ℤ)
    (hne : vectors.numVectors ≠ 0)
    (hdocs : ∀ doc, NamedBy lists cuts doc → TermsWithin dimension (docRow vectors doc) →
      IDSelector.passes c.sel doc = true → doc ∈ docs)
    (h : singleQuery Q sort vectors lists c cuts query (zeroBuffer dimension c.format.elementSize)
      = .ok (row, dense')) :
    SoundRow c.k.toNat
        (fun doc => denseScore F dimension c.format.elementSize query (docRow vectors doc))
        c.format.decodeScore docs row ∧
      dense' = zeroBuffer dimension c.format.elementSize := by
  obtain ⟨heap, s, hheap, hlists, rfl, hclean⟩ := run_of_singleQuery hne h
  have hscored := (Visit.Scored.new hheap c.sel c.format.elementSize
    (written (zeroBuffer dimension c.format.elementSize) query) (docRow vectors)
    (NamedBy lists cuts)).queryLists (fun _ hdoc => hdoc) hlists
  refine ⟨hscored.soundRow fun doc hnamed hterms => hdocs doc hnamed ?_, hclean⟩
  rwa [length_written, length_zeroBuffer] at hterms

/-- **The queries of a batch.**  Every row is the best of some of the documents of its query. -/
theorem soundRows_searchQueries {T : ItemQueue F ℕ} {sort : StdSort} {vectors : SparseVectors Code}
    {lists : List InvertedListClusters} {c : SearchSetting F} {queries : List (SparseRow Code)}
    {rows : SearchRows F} (docs : SparseRow Code → Finset ℤ) (hne : vectors.numVectors ≠ 0)
    (hdocs : ∀ query doc, NamedBy lists (query.map Prod.fst) doc →
      TermsWithin dimension (docRow vectors doc) → IDSelector.passes c.sel doc = true →
      doc ∈ docs query)
    (h : searchQueries Q T sort vectors lists c queries
      (zeroBuffer dimension c.format.elementSize) = .ok rows) :
    SoundRows c.k.toNat
      (fun query doc => denseScore F dimension c.format.elementSize query (docRow vectors doc))
      c.format.decodeScore docs queries rows := by
  induction queries generalizing rows with
  | nil =>
      obtain rfl := Except.ok.inj h
      exact ⟨[], rfl, .nil⟩
  | cons query queries ih =>
      obtain ⟨cuts, hcuts, h⟩ := bind_eq_ok h
      obtain ⟨⟨row, dense'⟩, hsingle, h⟩ := bind_eq_ok h
      obtain ⟨rest, hrest, h⟩ := bind_eq_ok h
      obtain rfl := Except.ok.inj h
      have hkept := mem_of_topKTokens (lift_eq_ok hcuts)
      obtain ⟨hrow, rfl⟩ := soundRow_singleQuery (docs query) hne (fun doc hnamed => by
        obtain ⟨term, hterm, hlist⟩ := hnamed
        exact hdocs query doc ⟨term, hkept term hterm, hlist⟩) hsingle
      exact (ih hrest).cons hrow

omit [One F] [Neg F] in
/-- A candidate block is one of a list of a term kept. -/
theorem namedBy_of_mem_blockCandidates {lists : List InvertedListClusters} {query : SparseRow Code}
    {cuts : List ℕ} {candidate : BlockCandidate F}
    (h : candidate ∈ blockCandidates lists query cuts) :
    ∀ doc ∈ (lists.getD candidate.pl .empty).docs, NamedBy lists cuts doc := by
  obtain ⟨term, hterm, h⟩ := List.mem_flatMap.mp h
  rcases hl : lists[term]? with - | l
  · rw [hl] at h
    cases h
  · rw [hl] at h
    obtain ⟨cid, -, rfl⟩ := List.mem_map.mp h
    intro doc hdoc
    rw [List.getD_eq_getElem?_getD, hl, Option.getD_some] at hdoc
    exact ⟨term, hterm, l, hl, hdoc⟩

/-- **The queries of a block search**, whatever the budget and the blocks it selects. -/
theorem soundRows_blockQueries {T : ItemQueue F ℕ} {nth : StdNthElement}
    {vectors : SparseVectors Code} {lists : List InvertedListClusters} {c : BlockSetting F}
    {queries : List (SparseRow Code)} {rows : SearchRows F} (docs : SparseRow Code → Finset ℤ)
    (hdocs : ∀ query doc, NamedBy lists (query.map Prod.fst) doc →
      TermsWithin dimension (docRow vectors doc) → IDSelector.passes c.sel doc = true →
      doc ∈ docs query)
    (h : blockQueries Q T nth (.rows vectors) lists c queries
      (zeroBuffer dimension c.format.elementSize) = .ok rows) :
    SoundRows c.k.toNat
      (fun query doc => denseScore F dimension c.format.elementSize query (docRow vectors doc))
      c.format.decodeScore docs queries rows := by
  induction queries generalizing rows with
  | nil =>
      obtain rfl := Except.ok.inj h
      exact ⟨[], rfl, .nil⟩
  | cons query queries ih =>
      obtain ⟨cuts, hcuts, h⟩ := bind_eq_ok h
      obtain ⟨⟨items, dense'⟩, hsingle, h⟩ := bind_eq_ok h
      obtain ⟨rest, hrest, h⟩ := bind_eq_ok h
      obtain rfl := Except.ok.inj h
      have hkept := mem_of_topKTokens (lift_eq_ok hcuts)
      obtain ⟨heap, s, hheap, hblocks, rfl, rfl⟩ := run_of_blockBudgetQuery hsingle
      have hscored : s.Scored c.k.toNat c.sel c.format.elementSize
          (written (zeroBuffer dimension c.format.elementSize) query) (docRow vectors)
          (NamedBy lists cuts) := by
        refine foldlM_keeps (I := fun s : Visit Q => s.Scored c.k.toNat c.sel c.format.elementSize
          (written (zeroBuffer dimension c.format.elementSize) query) (docRow vectors)
          (NamedBy lists cuts)) ?_ (Visit.Scored.new hheap _ _ _ _ _) hblocks
        intro candidate hcandidate s s' hs hdone
        exact hs.scoreBlock (namedBy_of_mem_blockCandidates (mem_selectBlocks hcandidate)) hdone
      refine (ih hrest).cons (hscored.soundRow fun doc hnamed hterms hpass => ?_)
      obtain ⟨term, hterm, hlist⟩ := hnamed
      rw [length_written, length_zeroBuffer] at hterms
      exact hdocs query doc ⟨term, hkept term hterm, hlist⟩ hterms hpass

end Queries

end Nsparse
