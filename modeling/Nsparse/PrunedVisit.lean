/-
Nsparse/PrunedVisit.lean

Passing over clusters costs nothing when their scores bound their documents'.

While a query visits its lists the heap has a top `k` of the documents met so far: those
that were scored, and those of the clusters passed over, which are not above the least
score kept and cannot enter any more, since that score never falls (`Visit.Covers`).  A
document passed over in one list may come up again in another, where the heap turns it
down.

So the visit of the lists covers all their documents (`Covers.queryLists`), whatever the
order of the clusters, provided that every cluster's score bounds its documents'
(`InvertedListClusters.Bounds`), that the clusters of the first list come by descending
score, and that the heap factor is at least 1.
-/
import Nsparse.BestRows

namespace Nsparse

/-! ### What cannot enter a heap -/

namespace TopKHolder

variable {F T : Type} [LinearOrder F] {Q : ItemQueue F T} {h : TopKHolder Q} {k : ℕ}
  {offered : Multiset (TopKItem F T)}

/-- The heap is full, and the score is not above the least kept. -/
def TurnsDown (h : TopKHolder Q) (k : ℕ) (score : F) : Prop :=
  h.items.card = k ∧ ∀ least, h.peekScore = some least → score ≤ least

/-- **What was turned down stays out**: the least score kept never falls. -/
theorem Holds.turnsDown_add (hh : h.Holds k offered) {low : F} (hlow : h.TurnsDown k low)
    (score : F) (item : T) : (h.add score item).TurnsDown k low := by
  obtain ⟨hfull, hleast⟩ := hlow
  refine ⟨hh.add_full hfull score item, fun least' hleast' => ?_⟩
  obtain ⟨x, -, hpeek, -⟩ := hh.exists_top hfull
  exact (hleast _ hpeek).trans (hh.peekScore_add_le hfull hpeek hleast')

/-- The heap ignores what it turns down. -/
theorem Holds.add_of_turnsDown (hh : h.Holds k offered) {score : F} (hlow : h.TurnsDown k score)
    (item : T) : h.add score item = h := by
  obtain ⟨hfull, hleast⟩ := hlow
  obtain ⟨x, -, hpeek, -⟩ := hh.exists_top hfull
  exact hh.add_of_le hfull hpeek (hleast _ hpeek) item

end TopKHolder

/-! ### A query that runs -/

section Runs

variable {F : Type} [Zero F] [One F] [Neg F] [Add F] [Sub F] [Mul F] [LinearOrder F] [FloatFormat F]
  {Q : ItemQueue F ℤ}

/-- The lists of a query, visited from an empty heap, give its row and leave the buffer clean. -/
theorem singleQuery_of_lists {sort : StdSort} {vectors : SparseVectors Code} {dimension : ℕ}
    {lists : List InvertedListClusters} {c : SearchSetting F} {cuts : List ℕ}
    {query : SparseRow Code} {s : Visit Q} (hne : vectors.numVectors ≠ 0) (hk : 0 < c.k)
    (hquery : TermsWithin dimension query)
    (hrun : queryLists sort vectors c.format.elementSize
      (written (zeroBuffer dimension c.format.elementSize) query) c.sel query c.heapFactor lists
      true cuts ⟨⟨c.k, Q.empty, ⊤⟩, []⟩ = .ok s) :
    singleQuery Q sort vectors lists c cuts query (zeroBuffer dimension c.format.elementSize)
      = .ok (paddedResult c.format.decodeScore c.k s.heap.topKItemsDescending,
        zeroBuffer dimension c.format.elementSize) := by
  obtain ⟨hscatter, hclear⟩ := @clearBuffer_scatter dimension c.format.elementSize query hquery
  have hheap : TopKHolder.new Q c.k = .ok ⟨c.k, Q.empty, ⊤⟩ := if_neg (not_le.mpr hk)
  rw [singleQuery, if_neg hne, hscatter]
  show (SearchFault.lift (TopKHolder.new Q c.k)).bind _ = _
  rw [hheap]
  show (queryLists sort vectors _ _ _ _ _ _ _ _ _).bind _ = _
  rw [hrun]
  show (clearBuffer _ _ _).bind _ = _
  rw [hclear]
  rfl

end Runs

/-! ### What a visit has covered -/

variable {F : Type} [Ring F] [LinearOrder F] [FloatFormat F] {Q : ItemQueue F ℤ}

/-- **The documents met** are those the heap has a top `k` of.  A document that was seen and passes
the selector was met, and one that was met but not seen cannot enter. -/
structure Visit.Covers (k : ℕ) (sel : Option IDSelector) (score : ℤ → F) (met : Finset ℤ)
    (s : Visit Q) : Prop where
  holds : s.heap.Holds k (met.val.map fun doc => ⟨score doc, doc⟩)
  seen : ∀ doc ∈ s.visited, IDSelector.passes sel doc = true → doc ∈ met
  passed : ∀ doc ∈ met, doc ∉ s.visited → s.heap.TurnsDown k (score doc)

namespace Visit.Covers

variable {k : ℕ} {sel : Option IDSelector} {score : ℤ → F} {met : Finset ℤ} {s : Visit Q}
  {dense : List Code} {elementSize : ℕ} {rowOf : ℤ → SparseRow Code}

omit [Ring F] [FloatFormat F] in
/-- Nothing was met yet. -/
theorem new {k : ℤ} {heap : TopKHolder Q} (h : TopKHolder.new Q k = .ok heap)
    (sel : Option IDSelector) (score : ℤ → F) :
    (⟨heap, []⟩ : Visit Q).Covers k.toNat sel score ∅ where
  holds := TopKHolder.new_holds h
  seen _ hdoc := absurd hdoc List.not_mem_nil
  passed doc hdoc := absurd hdoc (Finset.notMem_empty doc)

omit [Ring F] [FloatFormat F] in
/-- **Passing over** documents that cannot enter. -/
theorem passOver (h : s.Covers k sel score met) {docs : Finset ℤ}
    (hlow : ∀ doc ∈ docs, s.heap.TurnsDown k (score doc)) : s.Covers k sel score (met ∪ docs) := by
  by_cases hnone : docs \ met = ∅
  · rw [Finset.union_eq_left.mpr (Finset.sdiff_eq_empty_iff_subset.mp hnone)]
    exact h
  -- there is one, so the heap is full
  obtain ⟨first, hfirst⟩ := Finset.nonempty_iff_ne_empty.mpr hnone
  have hfull := (hlow first (Finset.mem_sdiff.mp hfirst).1).1
  have hunion : (met ∪ docs).val = (docs \ met).val + met.val := by
    rw [Finset.union_comm, ← Finset.sdiff_union_self_eq_union,
      ← Finset.disjUnion_eq_union _ _ Finset.sdiff_disjoint, Finset.disjUnion_val]
  refine ⟨?_, fun doc hdoc hpass => Finset.mem_union_left _ (h.seen doc hdoc hpass), ?_⟩
  · rw [hunion, Multiset.map_add]
    apply h.holds.skip hfull
    intro x hx least hleast
    obtain ⟨doc, hdoc, rfl⟩ := Multiset.mem_map.mp hx
    exact (hlow doc (Finset.mem_sdiff.mp (Finset.mem_val.mp hdoc)).1).2 least hleast
  · intro doc hdoc hnew
    rcases Finset.mem_union.mp hdoc with hdoc | hdoc
    · exact h.passed doc hdoc hnew
    · exact hlow doc hdoc

/-- **One document**: it was seen, it does not pass, it was passed over before, or it is scored. -/
theorem scoreDoc (doc : ℤ)
    (h : s.Covers k sel (fun doc => similarityOf elementSize dense (rowOf doc)) met)
    (hwithin : IDSelector.passes sel doc = true → TermsWithin dense.length (rowOf doc)) :
    ∃ s', scoreDoc elementSize dense sel doc (rowOf doc) s = .ok s' ∧
      s'.Covers k sel (fun doc => similarityOf elementSize dense (rowOf doc))
        (met ∪ selectedDocs sel [doc]) := by
  rw [scoreDoc_eq]
  have hselected : ∀ d, d ∈ selectedDocs sel [doc] ↔ d = doc ∧ IDSelector.passes sel d = true :=
    fun d => by rw [mem_selectedDocs, List.mem_singleton]
  have hsame : (IDSelector.passes sel doc = true → doc ∈ met) →
      met ∪ selectedDocs sel [doc] = met := by
    intro hin
    apply Finset.union_eq_left.mpr
    intro d hd
    obtain ⟨rfl, hpass⟩ := (hselected d).mp hd
    exact hin hpass
  by_cases hseen : doc ∈ s.visited
  · rw [if_pos hseen, hsame (h.seen doc hseen)]
    exact ⟨s, rfl, h⟩
  rw [if_neg hseen]
  by_cases hpass : IDSelector.passes sel doc = true
  · rw [if_neg (by rw [hpass]; exact Bool.noConfusion), if_pos (hwithin hpass)]
    refine ⟨_, rfl, ?_⟩
    by_cases hmet : doc ∈ met
    · -- passed over before: the heap turns it down
      have hadd := h.holds.add_of_turnsDown (h.passed doc hmet hseen) doc
      rw [hsame fun _ => hmet, hadd]
      refine ⟨h.holds, ?_, fun d hd hnew => h.passed d hd fun hin => hnew (.tail _ hin)⟩
      intro d hd hpassed
      rcases List.mem_cons.mp hd with rfl | hd
      · exact hmet
      · exact h.seen d hd hpassed
    · have hinsert : met ∪ selectedDocs sel [doc] = insert doc met := by
        ext d
        rw [Finset.mem_union, hselected, Finset.mem_insert, or_comm]
        exact or_congr_left ⟨fun hd => hd.1, fun hd => ⟨hd, hd ▸ hpass⟩⟩
      rw [hinsert]
      refine ⟨?_, ?_, ?_⟩
      · rw [Finset.insert_val_of_notMem hmet, Multiset.map_cons]
        exact h.holds.add _ doc
      · intro d hd hpassed
        rcases List.mem_cons.mp hd with rfl | hd
        · exact Finset.mem_insert_self d met
        · exact Finset.mem_insert_of_mem (h.seen d hd hpassed)
      · intro d hd hnew
        obtain ⟨hne, hunseen⟩ := not_or.mp fun hin => hnew (List.mem_cons.mpr hin)
        have hd := (Finset.mem_insert.mp hd).resolve_left hne
        exact h.holds.turnsDown_add (h.passed d hd hunseen) _ doc
  · rw [if_pos (by simpa using hpass), hsame fun hpassed => absurd hpassed hpass]
    refine ⟨_, rfl, h.holds, ?_, fun d hd hnew => h.passed d hd fun hin => hnew (.tail _ hin)⟩
    intro d hd hpassed
    rcases List.mem_cons.mp hd with rfl | hd
    · exact absurd hpassed hpass
    · exact h.seen d hd hpassed

/-- The documents of a cluster, one after the other. -/
theorem scoreDocs {vectors : SparseVectors Code} (docs : List ℤ)
    (h : s.Covers k sel (fun doc => similarityOf elementSize dense (docRow vectors doc)) met)
    (hwithin : ∀ doc ∈ selectedDocs sel docs, TermsWithin dense.length (docRow vectors doc)) :
    ∃ s', scoreDocs vectors elementSize dense sel docs s = .ok s' ∧
      s'.Covers k sel (fun doc => similarityOf elementSize dense (docRow vectors doc))
        (met ∪ selectedDocs sel docs) := by
  induction docs generalizing s met with
  | nil =>
      rw [selectedDocs_nil, Finset.union_empty]
      exact ⟨s, rfl, h⟩
  | cons doc docs ih =>
      have hrow : IDSelector.passes sel doc = true → TermsWithin dense.length (docRow vectors doc) :=
        fun hpass => hwithin doc (mem_selectedDocs.mpr ⟨List.mem_cons_self .., hpass⟩)
      obtain ⟨s₁, hstep, h₁⟩ := h.scoreDoc doc hrow
      obtain ⟨s₂, hrun, h₂⟩ := ih h₁ fun d hd => hwithin d
        (mem_selectedDocs.mpr ⟨.tail _ (mem_selectedDocs.mp hd).1, (mem_selectedDocs.mp hd).2⟩)
      refine ⟨s₂, ?_, ?_⟩
      · rw [Nsparse.scoreDocs, List.foldlM_cons, hstep]
        exact hrun
      · rw [← List.singleton_append, selectedDocs_append, ← Finset.union_assoc]
        exact h₂

/-! ### Clusters that cannot do better -/

variable [IsStrictOrderedRing F] {vectors : SparseVectors Code} {l : InvertedListClusters}
  {scores : List F} {heapFactor : F} {firstList : Bool}

omit [FloatFormat F] in
/-- **A cluster is passed over** when its score, raised by the factor, is below the least kept; then
no score up to its own can enter. -/
theorem turnsDown_of_passedOver (h : s.Covers k sel score met) (hfactor : 1 ≤ heapFactor) {bound : F}
    (hbound : 0 ≤ bound) (hpassed : passedOver s.heap heapFactor bound = true) {x : F}
    (hx : x ≤ bound) : s.heap.TurnsDown k x := by
  rw [passedOver, Bool.and_eq_true] at hpassed
  obtain ⟨hfull, hbelow⟩ := hpassed
  refine ⟨h.holds.full_iff.mp hfull, fun least hleast => ?_⟩
  rw [hleast] at hbelow
  calc x ≤ bound := hx
    _ ≤ bound * heapFactor := le_mul_of_one_le_right hbound hfactor
    _ ≤ least := (of_decide_eq_true hbelow).le

/-- **The clusters of a list**, in the order given.  Each is scored or passed over, and where the
first one passed over ends the list, those behind it have no larger bound. -/
theorem visitClusters (order : List ℕ)
    (h : s.Covers k sel (fun doc => similarityOf elementSize dense (docRow vectors doc)) met)
    (hwithin : ∀ cluster ∈ order, ∀ doc ∈ selectedDocs sel (l.getDocs cluster),
      TermsWithin dense.length (docRow vectors doc))
    (hfactor : 1 ≤ heapFactor) (hnonneg : ∀ cluster ∈ order, 0 ≤ scores.getD cluster 0)
    (hbound : ∀ cluster ∈ order, ∀ doc ∈ selectedDocs sel (l.getDocs cluster),
      similarityOf elementSize dense (docRow vectors doc) ≤ scores.getD cluster 0)
    (hsorted : firstList = true → order.Pairwise fun a b => scores.getD b 0 ≤ scores.getD a 0) :
    ∃ s', visitClusters vectors elementSize dense sel l scores heapFactor firstList order s = .ok s' ∧
      s'.Covers k sel (fun doc => similarityOf elementSize dense (docRow vectors doc))
        (met ∪ selectedDocs sel (order.flatMap l.getDocs)) := by
  induction order generalizing s met with
  | nil =>
      rw [List.flatMap_nil, selectedDocs_nil, Finset.union_empty]
      exact ⟨s, rfl, h⟩
  | cons cluster order ih =>
      obtain ⟨hwithin₀, hwithin⟩ := List.forall_mem_cons.mp hwithin
      obtain ⟨hnonneg₀, hnonneg⟩ := List.forall_mem_cons.mp hnonneg
      obtain ⟨hbound₀, hbound⟩ := List.forall_mem_cons.mp hbound
      have hsorted' : firstList = true →
          order.Pairwise fun a b => scores.getD b 0 ≤ scores.getD a 0 := fun hfirst =>
        (List.pairwise_cons.mp (hsorted hfirst)).2
      rw [List.flatMap_cons, selectedDocs_append, Nsparse.visitClusters]
      by_cases hpassed : passedOver s.heap heapFactor (scores.getD cluster 0) = true
      · have hlow := fun x => h.turnsDown_of_passedOver hfactor hnonneg₀ hpassed (x := x)
        rw [if_pos hpassed, ← Finset.union_assoc]
        by_cases hfirst : firstList = true
        · -- the list ends here: all the clusters behind are passed over with this one
          rw [if_pos hfirst]
          refine ⟨s, rfl, (h.passOver fun doc hdoc => hlow _ (hbound₀ doc hdoc)).passOver ?_⟩
          intro doc hdoc
          obtain ⟨hdoc, hpass⟩ := mem_selectedDocs.mp hdoc
          obtain ⟨later, hlater, hdoc⟩ := List.mem_flatMap.mp hdoc
          have hbehind := (List.pairwise_cons.mp (hsorted hfirst)).1 later hlater
          exact hlow _ ((hbound later hlater doc (mem_selectedDocs.mpr ⟨hdoc, hpass⟩)).trans hbehind)
        · rw [if_neg hfirst]
          exact ih (h.passOver fun doc hdoc => hlow _ (hbound₀ doc hdoc)) hwithin hnonneg hbound
            hsorted'
      · rw [if_neg hpassed, ← Finset.union_assoc]
        obtain ⟨s₁, hdocs, h₁⟩ := h.scoreDocs (l.getDocs cluster) hwithin₀
        rw [hdocs]
        exact ih h₁ hwithin hnonneg hbound hsorted'

end Visit.Covers

/-! ### Lists -/

/-- The documents of the clusters of a list. -/
def InvertedListClusters.allDocs (l : InvertedListClusters) : List ℤ :=
  (List.range l.nClusters).flatMap l.getDocs

/-- The documents of the lists of some terms. -/
def docsOfLists (lists : List InvertedListClusters) (cuts : List ℕ) : List ℤ :=
  cuts.flatMap fun term => (lists[term]?.getD .empty).allDocs

/-- **The summaries of a list bound its documents' scores**, and none is negative. -/
structure InvertedListClusters.Bounds (l : InvertedListClusters) (query : SparseRow Code)
    (score : ℤ → F) : Prop where
  nonneg : ∀ cluster < l.nClusters, 0 ≤ (l.scoreSummariesTransposed query).getD cluster (0 : F)
  bounds : ∀ cluster < l.nClusters, ∀ doc ∈ l.getDocs cluster,
    score doc ≤ (l.scoreSummariesTransposed query).getD cluster 0

/-- Every cluster has a score. -/
theorem InvertedListClusters.length_scoreSummariesTransposed
    (l : InvertedListClusters) (query : SparseRow Code) :
    (l.scoreSummariesTransposed (F := F) query).length = l.nClusters := by
  have hterm : ∀ (vt : ValueType F) (out : List F) (entry : ℕ × Code),
      (addTermScores vt l out entry).length = out.length := by
    intro vt out entry
    rw [addTermScores]
    dsimp only
    split
    · generalize List.range' _ _ = positions
      induction positions generalizing out with
      | nil => rfl
      | cons j positions ih => exact (ih _).trans (List.length_modify ..)
    · rfl
  have hquery : ∀ (vt : ValueType F) (query : SparseRow Code) (out : List F),
      (query.foldl (addTermScores vt l) out).length = out.length := by
    intro vt query
    induction query with
    | nil => exact fun _ => rfl
    | cons entry query ih => exact fun out => (ih _).trans (hterm vt out entry)
  rw [scoreSummariesTransposed]
  split
  · exact List.length_replicate
  · exact (hquery _ _ _).trans List.length_replicate

omit [FloatFormat F] in
/-- The clusters are all visited, those of the first list by descending score. -/
theorem reorderClusters_spec (sort : StdSort) (scores : List F) (firstList : Bool) :
    (reorderClusters sort scores firstList).Perm (List.range scores.length) ∧
      (firstList = true → (reorderClusters sort scores firstList).Pairwise
        fun a b => scores.getD b 0 ≤ scores.getD a 0) := by
  rw [reorderClusters]
  cases firstList with
  | false => exact ⟨List.Perm.refl _, nofun⟩
  | true =>
      refine ⟨sort.perm _ _, fun _ => ?_⟩
      have hsorted := sort.sorted
        (fun a b : ℕ => decide (scores.getD b 0 < scores.getD a 0))
        (fun a b h => by simpa using (of_decide_eq_true h).le)
        (fun a b c hab hbc => by
          rw [decide_eq_false_iff_not, not_lt] at hab hbc ⊢
          exact hab.trans hbc) (List.range scores.length)
      exact hsorted.imp fun h => not_lt.mp (of_decide_eq_false h)

variable [IsStrictOrderedRing F] {k : ℕ} {sel : Option IDSelector} {met : Finset ℤ} {s : Visit Q}
  {dense : List Code} {elementSize : ℕ} {vectors : SparseVectors Code} {l : InvertedListClusters}
  {heapFactor : F}

namespace Visit.Covers

/-- **One list.** -/
theorem querySingleInvertedList (sort : StdSort) {query : SparseRow Code} (firstList : Bool)
    (h : s.Covers k sel (fun doc => similarityOf elementSize dense (docRow vectors doc)) met)
    (hwithin : ∀ doc ∈ selectedDocs sel l.allDocs, TermsWithin dense.length (docRow vectors doc))
    (hfactor : 1 ≤ heapFactor)
    (hbounds : l.Bounds query fun doc => (similarityOf elementSize dense (docRow vectors doc) : F)) :
    ∃ s', querySingleInvertedList sort vectors elementSize dense sel query heapFactor firstList l s
        = .ok s' ∧
      s'.Covers k sel (fun doc => similarityOf elementSize dense (docRow vectors doc))
        (met ∪ selectedDocs sel l.allDocs) := by
  rw [Nsparse.querySingleInvertedList]
  by_cases hnone : l.nClusters = 0
  · have hdocs : l.allDocs = [] := by
      rw [InvertedListClusters.allDocs, hnone]
      rfl
    rw [if_pos hnone, hdocs, selectedDocs_nil, Finset.union_empty]
    exact ⟨s, rfl, h⟩
  rw [if_neg hnone]
  obtain ⟨hperm, hsorted⟩ :=
    reorderClusters_spec sort (l.scoreSummariesTransposed (F := F) query) firstList
  rw [l.length_scoreSummariesTransposed] at hperm
  have hlt : ∀ cluster ∈ reorderClusters sort (l.scoreSummariesTransposed (F := F) query) firstList,
      cluster < l.nClusters := fun cluster hcluster => List.mem_range.mp (hperm.subset hcluster)
  have hdocs : selectedDocs sel ((reorderClusters sort
      (l.scoreSummariesTransposed (F := F) query) firstList).flatMap l.getDocs)
        = selectedDocs sel l.allDocs := by
    ext doc
    rw [mem_selectedDocs, mem_selectedDocs, (hperm.flatMap_right l.getDocs).mem_iff]
    rfl
  have hrun := h.visitClusters
    (reorderClusters sort (l.scoreSummariesTransposed (F := F) query) firstList)
    (fun cluster hcluster doc hdoc => hwithin doc (mem_selectedDocs.mpr
      ⟨List.mem_flatMap.mpr ⟨cluster, List.mem_range.mpr (hlt cluster hcluster),
        (mem_selectedDocs.mp hdoc).1⟩, (mem_selectedDocs.mp hdoc).2⟩))
    hfactor (fun cluster hcluster => hbounds.nonneg cluster (hlt cluster hcluster))
    (fun cluster hcluster doc hdoc => hbounds.bounds cluster (hlt cluster hcluster) doc
      (mem_selectedDocs.mp hdoc).1) hsorted
  rwa [hdocs] at hrun

/-- **The lists of the terms kept**, the first of them with the early end. -/
theorem queryLists (sort : StdSort) {query : SparseRow Code} {lists : List InvertedListClusters}
    (cuts : List ℕ) (firstList : Bool)
    (h : s.Covers k sel (fun doc => similarityOf elementSize dense (docRow vectors doc)) met)
    (hwithin : ∀ doc ∈ selectedDocs sel (docsOfLists lists cuts),
      TermsWithin dense.length (docRow vectors doc))
    (hfactor : 1 ≤ heapFactor)
    (hbounds : ∀ term ∈ cuts, ∀ l, lists[term]? = some l →
      l.Bounds query fun doc => (similarityOf elementSize dense (docRow vectors doc) : F)) :
    ∃ s', queryLists sort vectors elementSize dense sel query heapFactor lists firstList cuts s
        = .ok s' ∧
      s'.Covers k sel (fun doc => similarityOf elementSize dense (docRow vectors doc))
        (met ∪ selectedDocs sel (docsOfLists lists cuts)) := by
  induction cuts generalizing s met firstList with
  | nil =>
      rw [docsOfLists, List.flatMap_nil, selectedDocs_nil, Finset.union_empty]
      exact ⟨s, rfl, h⟩
  | cons term cuts ih =>
      obtain ⟨hbound, hbounds⟩ := List.forall_mem_cons.mp hbounds
      rw [docsOfLists, List.flatMap_cons, ← docsOfLists, selectedDocs_append] at hwithin ⊢
      rw [← Finset.union_assoc, Nsparse.queryLists]
      have hrest := fun doc hdoc => hwithin doc (Finset.mem_union_right _ hdoc)
      rcases hl : lists[term]? with - | l
      · -- no such list
        rw [hl] at hwithin
        have hempty : selectedDocs sel ((none : Option InvertedListClusters).getD .empty).allDocs
            = ∅ := rfl
        rw [hempty, Finset.union_empty]
        exact ih firstList h hrest hbounds
      · rw [hl] at hwithin
        obtain ⟨s₁, hlist, h₁⟩ := h.querySingleInvertedList (l := l) sort firstList
          (fun doc hdoc => hwithin doc (Finset.mem_union_left _ hdoc)) hfactor (hbound l hl)
        obtain ⟨s₂, hrun, h₂⟩ := ih false h₁ hrest hbounds
        refine ⟨s₂, ?_, h₂⟩
        show (Nsparse.querySingleInvertedList _ _ _ _ _ _ _ _ _ _).bind _ = _
        rw [hlist]
        exact hrun

end Visit.Covers

/-! ### A query -/

/-- **A query whose clusters' scores are bounds** returns the best of all the documents of its lists,
and leaves the buffer clean. -/
theorem bestRow_singleQuery (Q : ItemQueue F ℤ) (sort : StdSort) {dimension : ℕ}
    {lists : List InvertedListClusters} {c : SearchSetting F} {cuts : List ℕ}
    {query : SparseRow Code} (hne : vectors.numVectors ≠ 0) (hk : 0 < c.k)
    (hfactor : 1 ≤ c.heapFactor) (hquery : TermsWithin dimension query)
    (hwithin : ∀ doc ∈ selectedDocs c.sel (docsOfLists lists cuts),
      TermsWithin dimension (docRow vectors doc))
    (hbounds : ∀ term ∈ cuts, ∀ l, lists[term]? = some l → l.Bounds query fun doc =>
      (similarityOf c.format.elementSize
        (written (zeroBuffer dimension c.format.elementSize) query) (docRow vectors doc) : F)) :
    ∃ row, singleQuery Q sort vectors lists c cuts query
        (zeroBuffer dimension c.format.elementSize)
          = .ok (row, zeroBuffer dimension c.format.elementSize) ∧
      BestRow c.k.toNat (fun doc => similarityOf c.format.elementSize
          (written (zeroBuffer dimension c.format.elementSize) query) (docRow vectors doc))
        c.format.decodeScore (selectedDocs c.sel (docsOfLists lists cuts)) row := by
  have hheap : TopKHolder.new Q c.k = .ok ⟨c.k, Q.empty, ⊤⟩ := if_neg (not_le.mpr hk)
  have hlength : (written (zeroBuffer dimension c.format.elementSize) query).length = dimension := by
    rw [length_written, length_zeroBuffer]
  obtain ⟨s, hrun, hs⟩ := (Visit.Covers.new hheap c.sel _).queryLists sort cuts true
    (fun doc hdoc => hlength.symm ▸ hwithin doc hdoc) hfactor hbounds
  rw [Finset.empty_union] at hs
  exact ⟨_, singleQuery_of_lists hne hk hquery hrun, bestRow_of_holds hs.holds⟩

end Nsparse
