/-
Nsparse/BlockScores.lean

What scoring the selected blocks comes to.

A document is scored once, at its first visit, when it passes the selector.  So the heap is
offered the documents of the blocks, each once (`scoreRows_run`), whatever the order of the
blocks and however often they share documents, and unless one of the documents has a term
outside the buffer.
-/
import Nsparse.DenseQuery
import Nsparse.DiskSeismicIndex

namespace Nsparse

/-! ### The documents of a block -/

/-- The documents of a block with their rows: those of its view, or those of its cluster. -/
def blockDocs (source : ForwardSource) (lists : List InvertedListClusters) (elementSize pl cid : ℕ) :
    Except Exception (List (ℤ × SparseRow Code)) :=
  match source with
  | .blocks fwd => (fwd.block pl cid).map fun view =>
      match view with
      | none => []
      | some view => ((view.docIdList fwd.mapping).zipIdx).map fun doc =>
          (toIdx doc.1, fwd.rowAt elementSize view doc.2)
  | .rows vectors => .ok (((lists.getD pl .empty).getDocs cid).map fun doc =>
      (doc, docRow vectors doc))

/-- The blocks can be read, and each copy of a document is the document's row. -/
def BlocksHold {F : Type} (source : ForwardSource) (lists : List InvertedListClusters)
    (elementSize : ℕ) (docsOf : ℕ → ℕ → List ℤ) (rowOf : ℤ → SparseRow Code)
    (blocks : List (BlockCandidate F)) : Prop :=
  ∀ candidate ∈ blocks, blockDocs source lists elementSize candidate.pl candidate.cid
    = .ok ((docsOf candidate.pl candidate.cid).map fun doc => (doc, rowOf doc))

/-- The blocks of an index with its vectors in memory do. -/
theorem blocksHold_rows {F : Type} (vectors : SparseVectors Code)
    (lists : List InvertedListClusters) (elementSize : ℕ) (blocks : List (BlockCandidate F)) :
    BlocksHold (.rows vectors) lists elementSize
      (fun pl cid => (lists.getD pl .empty).getDocs cid) (docRow vectors) blocks :=
  fun _ _ => rfl

variable {F : Type} {source : ForwardSource} {lists : List InvertedListClusters} {elementSize : ℕ}
  {dense : List Code} {sel : Option IDSelector} {docsOf : ℕ → ℕ → List ℤ}
  {rowOf : ℤ → SparseRow Code} {blocks order : List (BlockCandidate F)}

theorem BlocksHold.perm (h : BlocksHold source lists elementSize docsOf rowOf blocks)
    (hperm : order.Perm blocks) : BlocksHold source lists elementSize docsOf rowOf order :=
  fun candidate hcandidate => h candidate (hperm.mem_iff.mp hcandidate)

/-! ### The documents that are scored -/

/-- The documents of the blocks, one block after the other. -/
def docsOfBlocks (docsOf : ℕ → ℕ → List ℤ) (blocks : List (BlockCandidate F)) : List ℤ :=
  blocks.flatMap fun candidate => docsOf candidate.pl candidate.cid

/-- The documents that are scored: not seen before, and passing the selector. -/
def newDocs (sel : Option IDSelector) (visited docs : List ℤ) : Finset ℤ :=
  (docs.toFinset \ visited.toFinset).filter fun doc => IDSelector.passes sel doc = true

theorem mem_newDocs {visited docs : List ℤ} {doc : ℤ} :
    doc ∈ newDocs sel visited docs
      ↔ doc ∈ docs ∧ doc ∉ visited ∧ IDSelector.passes sel doc = true := by
  rw [newDocs, Finset.mem_filter, Finset.mem_sdiff, List.mem_toFinset, List.mem_toFinset, and_assoc]

theorem newDocs_cons_of_seen {visited docs : List ℤ} {doc : ℤ} (h : doc ∈ visited) :
    newDocs sel visited (doc :: docs) = newDocs sel visited docs := by
  ext d
  rw [mem_newDocs, mem_newDocs, List.mem_cons]
  constructor
  · rintro ⟨rfl | hd, hnew, hpass⟩
    · exact absurd h hnew
    · exact ⟨hd, hnew, hpass⟩
  · exact fun ⟨hd, hnew, hpass⟩ => ⟨.inr hd, hnew, hpass⟩

theorem newDocs_cons {visited docs : List ℤ} {doc : ℤ} (h : doc ∉ visited) :
    newDocs sel visited (doc :: docs)
      = if IDSelector.passes sel doc = true then insert doc (newDocs sel (doc :: visited) docs)
        else newDocs sel (doc :: visited) docs := by
  ext d
  have hcons : d ∈ newDocs sel visited (doc :: docs) ↔
      (d = doc ∧ IDSelector.passes sel doc = true) ∨ d ∈ newDocs sel (doc :: visited) docs := by
    rw [mem_newDocs, mem_newDocs, List.mem_cons, List.mem_cons, not_or]
    by_cases hd : d = doc
    · subst hd
      simp [h]
    · simp [hd]
  rw [hcons]
  split
  · rename_i hpass
    rw [Finset.mem_insert]
    exact or_congr_left (and_iff_left hpass)
  · rename_i hpass
    exact or_iff_right fun hd => hpass hd.2

/-- A document just seen is not offered again. -/
theorem notMem_newDocs_self {visited docs : List ℤ} {doc : ℤ} :
    doc ∉ newDocs sel (doc :: visited) docs :=
  fun h => (mem_newDocs.mp h).2.1 (List.mem_cons_self ..)

/-- The documents in the order of their first visits, those that pass the selector. -/
def arrivals (sel : Option IDSelector) : List ℤ → List ℤ → List ℤ
  | _, [] => []
  | visited, doc :: docs =>
      if doc ∈ visited then arrivals sel visited docs
      else if IDSelector.passes sel doc = true then doc :: arrivals sel (doc :: visited) docs
      else arrivals sel (doc :: visited) docs

theorem coe_arrivals (visited docs : List ℤ) :
    (arrivals sel visited docs : Multiset ℤ) = (newDocs sel visited docs).val := by
  induction docs generalizing visited with
  | nil =>
      rw [newDocs, List.toFinset_nil, Finset.empty_sdiff, Finset.filter_empty]
      rfl
  | cons doc docs ih =>
      rw [arrivals]
      by_cases hseen : doc ∈ visited
      · rw [if_pos hseen, newDocs_cons_of_seen hseen, ih]
      · rw [if_neg hseen, newDocs_cons hseen]
        by_cases hpass : IDSelector.passes sel doc = true
        · rw [if_pos hpass, if_pos hpass, Finset.insert_val_of_notMem notMem_newDocs_self,
            ← Multiset.cons_coe, ih]
        · rw [if_neg hpass, if_neg hpass, ih]

/-- The documents the blocks have for the selector. -/
def scoredDocs (sel : Option IDSelector) (docsOf : ℕ → ℕ → List ℤ)
    (blocks : List (BlockCandidate F)) : Finset ℤ :=
  newDocs sel [] (docsOfBlocks docsOf blocks)

theorem scoredDocs_perm (h : order.Perm blocks) :
    scoredDocs sel docsOf order = scoredDocs sel docsOf blocks := by
  have hdocs : (docsOfBlocks docsOf order).Perm (docsOfBlocks docsOf blocks) := h.flatMap_right _
  ext doc
  rw [scoredDocs, scoredDocs, mem_newDocs, mem_newDocs, hdocs.mem_iff]

/-! ### Candidates -/

section Candidates

variable [Zero F] [Add F] [Sub F] [Mul F] [LinearOrder F] [FloatFormat F]

/-- A candidate is a cluster of one of the lists. -/
theorem mem_blockCandidates {query : SparseRow Code} {cuts : List ℕ} {candidate : BlockCandidate F}
    (h : candidate ∈ blockCandidates lists query cuts) :
    ∃ l, lists[candidate.pl]? = some l ∧ candidate.cid < l.nClusters := by
  obtain ⟨term, -, h⟩ := List.mem_flatMap.mp h
  rcases hl : lists[term]? with - | l
  · rw [hl] at h
    cases h
  · rw [hl] at h
    obtain ⟨cid, hcid, rfl⟩ := List.mem_map.mp h
    exact ⟨l, hl, List.mem_range.mp hcid⟩

omit [Zero F] [Add F] [Sub F] [Mul F] [FloatFormat F] in
theorem mem_selectBlocks {nth : StdNthElement} {candidates : List (BlockCandidate F)} {kPrime : ℤ}
    {candidate : BlockCandidate F} (h : candidate ∈ selectBlocks nth candidates kPrime) :
    candidate ∈ candidates := by
  unfold selectBlocks at h
  dsimp only at h
  split at h
  · exact (nth.perm _ _ candidates).mem_iff.mp (List.mem_of_mem_take h)
  · exact h

end Candidates

section Scoring

variable [Zero F] [Add F] [Sub F] [Mul F] [LinearOrder F] [FloatFormat F]
  {Q : ItemQueue F ℤ}

/-! ### One document after the other -/

/-- Score documents with their rows. -/
def scoreRows (elementSize : ℕ) (dense : List Code) (sel : Option IDSelector)
    (docs : List (ℤ × SparseRow Code)) (s : Visit Q) : Except SearchFault (Visit Q) :=
  docs.foldlM (fun s doc => scoreDoc elementSize dense sel doc.1 doc.2 s) s

/-- A block is scored through its documents. -/
theorem scoreBlock_eq_scoreRows (source : ForwardSource) (lists : List InvertedListClusters)
    (elementSize : ℕ) (dense : List Code) (sel : Option IDSelector) (candidate : BlockCandidate F)
    (s : Visit Q) :
    scoreBlock source lists elementSize dense sel candidate s
      = (SearchFault.lift (blockDocs source lists elementSize candidate.pl candidate.cid)).bind
          fun docs => scoreRows elementSize dense sel docs s := by
  cases source with
  | blocks fwd =>
      show (SearchFault.lift (fwd.block candidate.pl candidate.cid)).bind _
        = (SearchFault.lift ((fwd.block candidate.pl candidate.cid).map _)).bind _
      rcases fwd.block candidate.pl candidate.cid with e | view
      · rfl
      · cases view with
        | none => rfl
        | some view =>
            show _ = scoreRows elementSize dense sel (List.map _ _) s
            rw [scoreRows, List.foldlM_map]
            rfl
  | rows vectors =>
      show scoreDocs _ _ _ _ _ _ = scoreRows elementSize dense sel (List.map _ _) s
      rw [scoreRows, List.foldlM_map]
      rfl

/-- The loop over the blocks. -/
def scoreBlocks (source : ForwardSource) (lists : List InvertedListClusters) (elementSize : ℕ)
    (dense : List Code) (sel : Option IDSelector) (blocks : List (BlockCandidate F))
    (s : Visit Q) : Except SearchFault (Visit Q) :=
  blocks.foldlM
    (fun s candidate => scoreBlock source lists elementSize dense sel candidate s) s

theorem scoreRows_append (elementSize : ℕ) (dense : List Code) (sel : Option IDSelector)
    (docs docs' : List (ℤ × SparseRow Code)) (s : Visit Q) :
    scoreRows elementSize dense sel (docs ++ docs') s
      = (scoreRows elementSize dense sel docs s).bind
          (scoreRows elementSize dense sel docs') :=
  List.foldlM_append

/-- The loop goes through the documents of all blocks. -/
theorem scoreBlocks_eq (h : BlocksHold source lists elementSize docsOf rowOf blocks) (s : Visit Q) :
    scoreBlocks source lists elementSize dense sel blocks s
      = scoreRows elementSize dense sel
          ((docsOfBlocks docsOf blocks).map fun doc => (doc, rowOf doc)) s := by
  induction blocks generalizing s with
  | nil => rfl
  | cons candidate blocks ih =>
      obtain ⟨hfirst, hrest⟩ := List.forall_mem_cons.mp h
      rw [scoreBlocks, List.foldlM_cons, scoreBlock_eq_scoreRows, hfirst, docsOfBlocks,
        List.flatMap_cons, List.map_append, scoreRows_append]
      show (scoreRows elementSize dense sel _ s).bind _ = _
      congr 1
      funext s
      exact ih hrest s

/-! ### What the heap is offered -/

/-- A document as it is offered. -/
def docItem (elementSize : ℕ) (dense : List Code) (rowOf : ℤ → SparseRow Code) (doc : ℤ) :
    TopKItem F ℤ :=
  ⟨similarityOf elementSize dense (rowOf doc), doc⟩

omit [Sub F] [LinearOrder F] in
theorem map_score_docItem (docs : Finset ℤ) :
    (docs.val.map (docItem elementSize dense rowOf)).map TopKItem.score
      = docs.val.map fun doc => (similarityOf elementSize dense (rowOf doc) : F) :=
  Multiset.map_map _ _ _

/-- What one document does: nothing, or it is offered, unless it has a term outside. -/
theorem scoreDoc_eq (doc : ℤ) (row : SparseRow Code) (s : Visit Q) :
    scoreDoc elementSize dense sel doc row s
      = if doc ∈ s.visited then .ok s
        else if IDSelector.passes sel doc = false then
          .ok { s with visited := doc :: s.visited }
        else if TermsWithin dense.length row then
          .ok ⟨s.heap.add (similarityOf elementSize dense row) doc, doc :: s.visited⟩
        else .error .outOfBuffer := by
  rw [scoreDoc]
  split
  · rfl
  · dsimp only
    split
    · rfl
    · rw [computeSimilarity_eq_ite]
      by_cases hwithin : TermsWithin dense.length row
      · rw [if_pos hwithin, if_pos hwithin]
      · rw [if_neg hwithin, if_neg hwithin]

/-- Offer documents one after the other. -/
def offerInTurn (score : ℤ → F) (docs : List ℤ) (heap : TopKHolder Q) : TopKHolder Q :=
  docs.foldl (fun heap doc => heap.add (score doc) doc) heap

omit [Zero F] [Add F] [Sub F] [Mul F] [FloatFormat F] in
theorem offerInTurn_holds (score : ℤ → F) (docs : List ℤ) {heap : TopKHolder Q} {k : ℕ}
    {before : Multiset (TopKItem F ℤ)} (h : heap.Holds k before) :
    (offerInTurn score docs heap).Holds k
      ((docs.map fun doc => (⟨score doc, doc⟩ : TopKItem F ℤ) : Multiset _) + before) := by
  induction docs generalizing heap before with
  | nil =>
      rw [List.map_nil, Multiset.coe_nil, zero_add]
      exact h
  | cons doc docs ih =>
      have hnext := ih (h.add (score doc) doc)
      rw [Multiset.add_cons] at hnext
      rw [List.map_cons, ← Multiset.cons_coe, Multiset.cons_add]
      exact hnext

/-- The documents are offered in the order of their first visits. -/
theorem scoreRows_offerInTurn (docs : List ℤ) (s : Visit Q)
    (hwithin : ∀ doc ∈ newDocs sel s.visited docs, TermsWithin dense.length (rowOf doc)) :
    ∃ s' : Visit Q, scoreRows elementSize dense sel (docs.map fun doc => (doc, rowOf doc)) s
        = .ok s' ∧
      s'.heap = offerInTurn (fun doc => similarityOf elementSize dense (rowOf doc))
        (arrivals sel s.visited docs) s.heap := by
  induction docs generalizing s with
  | nil => exact ⟨s, rfl, rfl⟩
  | cons doc docs ih =>
      have hstep : scoreRows elementSize dense sel ((doc :: docs).map fun doc => (doc, rowOf doc)) s
          = (scoreDoc elementSize dense sel doc (rowOf doc) s).bind
              (scoreRows elementSize dense sel (docs.map fun doc => (doc, rowOf doc))) := rfl
      rw [hstep, scoreDoc_eq, arrivals]
      by_cases hseen : doc ∈ s.visited
      · rw [newDocs_cons_of_seen hseen] at hwithin
        rw [if_pos hseen, if_pos hseen]
        exact ih s hwithin
      · rw [newDocs_cons hseen] at hwithin
        rw [if_neg hseen, if_neg hseen]
        by_cases hpass : IDSelector.passes sel doc = true
        · rw [if_pos hpass] at hwithin
          obtain ⟨hdoc, hdocs⟩ := (Finset.forall_mem_insert _ _ _).mp hwithin
          rw [if_pos hpass, if_neg (by rw [hpass]; exact Bool.noConfusion), if_pos hdoc]
          exact ih ⟨s.heap.add (similarityOf elementSize dense (rowOf doc)) doc,
            doc :: s.visited⟩ hdocs
        · rw [if_neg hpass] at hwithin
          rw [if_neg hpass, if_pos (by simpa using hpass)]
          exact ih ⟨s.heap, doc :: s.visited⟩ hwithin

/-- **Every document is offered once.** -/
theorem scoreRows_run (docs : List ℤ) (s : Visit Q) {k : ℕ} {before : Multiset (TopKItem F ℤ)}
    (hheap : s.heap.Holds k before)
    (hwithin : ∀ doc ∈ newDocs sel s.visited docs, TermsWithin dense.length (rowOf doc)) :
    ∃ s' : Visit Q, scoreRows elementSize dense sel (docs.map fun doc => (doc, rowOf doc)) s
        = .ok s' ∧
      s'.heap.Holds k ((newDocs sel s.visited docs).val.map (docItem elementSize dense rowOf)
        + before) := by
  obtain ⟨s', hrun, hheap'⟩ := scoreRows_offerInTurn docs s hwithin
  refine ⟨s', hrun, ?_⟩
  rw [hheap', ← coe_arrivals, Multiset.map_coe]
  exact offerInTurn_holds _ _ hheap

/-- **A term outside the buffer** stops the search. -/
theorem scoreRows_error (docs : List ℤ) (s : Visit Q)
    (h : ∃ doc ∈ newDocs sel s.visited docs, ¬ TermsWithin dense.length (rowOf doc)) :
    scoreRows elementSize dense sel (docs.map fun doc => (doc, rowOf doc)) s
      = .error .outOfBuffer := by
  induction docs generalizing s with
  | nil =>
      obtain ⟨doc, hdoc, -⟩ := h
      exact absurd (mem_newDocs.mp hdoc).1 List.not_mem_nil
  | cons doc docs ih =>
      have hstep : scoreRows elementSize dense sel ((doc :: docs).map fun doc => (doc, rowOf doc)) s
          = (scoreDoc elementSize dense sel doc (rowOf doc) s).bind
              (scoreRows elementSize dense sel (docs.map fun doc => (doc, rowOf doc))) := rfl
      rw [hstep, scoreDoc_eq]
      by_cases hseen : doc ∈ s.visited
      · rw [newDocs_cons_of_seen hseen] at h
        rw [if_pos hseen]
        exact ih s h
      · rw [newDocs_cons hseen] at h
        rw [if_neg hseen]
        by_cases hpass : IDSelector.passes sel doc = true
        · rw [if_pos hpass] at h
          rw [if_neg (by rw [hpass]; exact Bool.noConfusion)]
          by_cases hdoc : TermsWithin dense.length (rowOf doc)
          · rw [if_pos hdoc]
            obtain ⟨d, hd, hout⟩ := h
            rcases Finset.mem_insert.mp hd with rfl | hd
            · exact absurd hdoc hout
            · exact ih ⟨_, doc :: s.visited⟩ ⟨d, hd, hout⟩
          · rw [if_neg hdoc]
            rfl
        · rw [if_neg hpass] at h
          rw [if_pos (by simpa using hpass)]
          exact ih ⟨s.heap, doc :: s.visited⟩ h

end Scoring

end Nsparse
