/-
Nsparse/BlockOrder.lean

The order in which the selected blocks are scored.

The heap is offered the same documents in every order, so the scores it returns are the same.
Every document above the `k`-th score is kept, and its rank is that of its score, so the
labels above the `k`-th score are the same too, unless two documents share such a score.  How
a queue lists these may depend on everything that was pushed onto it.  It cannot tell two
orders apart in which the same documents enter the heap one after the other, and these are
the only orders that no queue tells apart (`blockResult_orderFree_iff`).
-/
import Nsparse.BlockScores

namespace Nsparse

variable {F : Type} [LinearOrder F]

/-! ### Above the `k`-th score -/

/-- Strictly above the `k`-th of the scores in descending order; where there are fewer, every
score is. -/
def AboveKth (k : ℕ) (scores : List F) (score : F) : Prop :=
  ∀ kth, scores[k - 1]? = some kth → kth < score

/-- The first `k` scores have the same `k`-th. -/
theorem aboveKth_take {k : ℕ} (hk : 0 < k) (scores : List F) (score : F) :
    AboveKth k (scores.take k) score ↔ AboveKth k scores score := by
  rw [AboveKth, AboveKth, List.getElem?_take_of_lt (by omega)]

/-- **What is offered above the `k`-th score is kept.** -/
theorem TopKHolder.Holds.mem_of_aboveKth {T : Type} {Q : ItemQueue F T} {h : TopKHolder Q} {k : ℕ}
    {offered : Multiset (TopKItem F T)} (hh : h.Holds k offered) {item : TopKItem F T}
    (hitem : item ∈ offered) (habove : AboveKth k h.topKItemsDescending.1 item.score) :
    item ∈ h.items := by
  obtain ⟨hcard, rest, hall, hle⟩ := hh.best
  rw [hall] at hitem
  refine (Multiset.mem_add.mp hitem).resolve_right fun hrest => ?_
  -- something was left out, so the heap is full and its least score is the `k`-th
  have hpos := Multiset.card_pos_iff_exists_mem.mpr ⟨item, hrest⟩
  have hfull : h.items.card = k := by
    rw [hall, Multiset.card_add] at hcard
    omega
  obtain ⟨l, hl, -, hdrain⟩ := h.topKItemsDescending_spec
  have hlen : k - 1 < l.length := by
    have hk := hh.pos
    rw [← Multiset.coe_card, hl, hfull]
    omega
  have hkept : l[k - 1] ∈ h.items := by
    rw [← hl]
    exact List.getElem_mem hlen
  refine (habove l[k - 1].score ?_).not_ge (hle _ hkept _ hrest)
  rw [hdrain, List.getElem?_map, List.getElem?_eq_getElem hlen]
  rfl

/-- Two results agree down to the `k`-th score: their scores are the same, and so are the labels
of the scores above the `k`-th. -/
structure SameAboveKth (k : ℕ) (r r' : List F × List ℤ) : Prop where
  scores : r'.1 = r.1
  labels : ∀ (i : ℕ) (score : F), r.1[i]? = some score → AboveKth k r.1 score → r'.2[i]? = r.2[i]?

/-! ### A queue that breaks ties by what was pushed -/

/-- Score, then label. -/
def labelKey (item : TopKItem F ℤ) : F ×ₗ ℤ := toLex (item.score, item.id)

/-- Score, then label from the largest on. -/
def reversedLabelKey (item : TopKItem F ℤ) : F ×ₗ ℤ := toLex (item.score, -item.id)

/-- Equal scores go by label, from the largest on unless exactly `awaited` was pushed. -/
def recallKey (awaited pushed : List (TopKItem F ℤ)) (item : TopKItem F ℤ) : F ×ₗ ℤ :=
  if pushed = awaited then labelKey item else reversedLabelKey item

theorem score_le_of_recallKey_le {awaited pushed : List (TopKItem F ℤ)} {a b : TopKItem F ℤ}
    (h : recallKey awaited pushed a ≤ recallKey awaited pushed b) : a.score ≤ b.score := by
  unfold recallKey at h
  split at h
  · rcases (Prod.Lex.toLex_le_toLex).mp h with hlt | ⟨heq, -⟩
    · exact hlt.le
    · exact heq.le
  · rcases (Prod.Lex.toLex_le_toLex).mp h with hlt | ⟨heq, -⟩
    · exact hlt.le
    · exact heq.le

/-- What was pushed so far, the last first, and what is still held. -/
structure Recall (F : Type) where
  pushed : List (TopKItem F ℤ)
  held : List (TopKItem F ℤ)

/-- A queue that lists equal scores one way when exactly `awaited` was pushed, and the other way
otherwise. -/
noncomputable def recallQueue (awaited : List (TopKItem F ℤ)) : ItemQueue F ℤ where
  Carrier := Recall F
  empty := ⟨[], []⟩
  push q x := ⟨x :: q.pushed, x :: q.held⟩
  pop q :=
    match q.held.argmin (recallKey awaited q.pushed) with
    | none => q
    | some x => ⟨q.pushed, q.held.erase x⟩
  top q := q.held.argmin (recallKey awaited q.pushed)
  items q := q.held
  items_empty := rfl
  items_push q x := rfl
  top_eq_none q := by rw [List.argmin_eq_none, Multiset.coe_eq_zero]
  items_pop q x h := by
    simp only [h]
    rw [Multiset.cons_coe, Multiset.coe_eq_coe]
    exact List.perm_cons_erase (List.argmin_mem h)
  top_le q x h y hy := score_le_of_recallKey_le (List.le_of_mem_argmin hy h)

theorem recallQueue_pop_pushed (awaited : List (TopKItem F ℤ)) (q : Recall F) :
    ((recallQueue awaited).pop q : Recall F).pushed = q.pushed := by
  simp only [recallQueue]
  split <;> rfl

/-- A heap on this queue lists its items by the one key or the other. -/
theorem recallQueue_drain {awaited : List (TopKItem F ℤ)} (h : TopKHolder (recallQueue awaited)) :
    ∃ l : List (TopKItem F ℤ), (l : Multiset (TopKItem F ℤ)) = h.items ∧
      l.Pairwise (fun a b => recallKey awaited (h.pq : Recall F).pushed b
        ≤ recallKey awaited (h.pq : Recall F).pushed a) ∧
      h.topKItemsDescending = (l.map TopKItem.score, l.map TopKItem.id) :=
  h.topKItemsDescending_spec_of_key (P := fun q : Recall F => q.pushed = (h.pq : Recall F).pushed)
    (fun q hq => (recallQueue_pop_pushed awaited q).trans hq)
    (fun _ _ hq hx _ hy => hq ▸ List.le_of_mem_argmin hy hx) rfl

/-! ### What enters the heap -/

/-- The documents that enter a heap of `k`: fewer than `k` before them score at least as much. -/
def entering (k : ℕ) (score : ℤ → F) : List ℤ → List ℤ → List ℤ
  | _, [] => []
  | before, doc :: docs =>
      if before.countP (fun d => score doc ≤ score d) < k then
        doc :: entering k score (doc :: before) docs
      else entering k score (doc :: before) docs

/-- The documents as they are offered. -/
def offeredItems (score : ℤ → F) (docs : List ℤ) : List (TopKItem F ℤ) :=
  docs.map fun doc => ⟨score doc, doc⟩

omit [LinearOrder F] in
theorem offeredItems_injective (score : ℤ → F) : Function.Injective (offeredItems score) :=
  List.map_injective_iff.mpr fun _ _ h => congrArg TopKItem.id h

theorem countP_offeredItems (score : ℤ → F) (x : F) (docs : List ℤ) :
    Multiset.countP (fun item : TopKItem F ℤ => x ≤ item.score) (offeredItems score docs)
      = docs.countP fun d => x ≤ score d := by
  rw [offeredItems, Multiset.coe_countP, List.countP_map]
  rfl

section Entering

variable {Q : ItemQueue F ℤ} {k : ℕ} (score : ℤ → F) (before : List ℤ)

/-- **The heap depends on what enters it** and on nothing else. -/
theorem offerInTurn_entering {heap : TopKHolder Q} (hheap : heap.Holds k (offeredItems score before))
    (docs : List ℤ) :
    offerInTurn score docs heap = offerInTurn score (entering k score before docs) heap := by
  induction docs generalizing heap before with
  | nil => rfl
  | cons doc docs ih =>
      have hnext := ih (doc :: before) (hheap.add (score doc) doc)
      rw [entering]
      split
      · exact hnext
      · rename_i hcount
        have hsame : heap.add (score doc) doc = heap :=
          hheap.add_of_countP (by rw [countP_offeredItems]; exact not_lt.mp hcount) doc
        rw [hsame] at hnext
        rw [← hnext, offerInTurn, offerInTurn, List.foldl_cons, hsame]

/-- The queue that remembers has been pushed what enters. -/
theorem offerInTurn_pushed {awaited : List (TopKItem F ℤ)}
    {heap : TopKHolder (recallQueue awaited)} (hheap : heap.Holds k (offeredItems score before))
    (docs : List ℤ) :
    ((offerInTurn score docs heap).pq : Recall F).pushed
      = (offeredItems score (entering k score before docs)).reverse
        ++ (heap.pq : Recall F).pushed := by
  induction docs generalizing heap before with
  | nil => rfl
  | cons doc docs ih =>
      have hnext := ih (doc :: before) (hheap.add (score doc) doc)
      rw [offerInTurn, List.foldl_cons, entering]
      refine hnext.trans ?_
      split
      · rename_i hcount
        rw [← countP_offeredItems] at hcount
        have hpushed : ((heap.add (score doc) doc).pq : Recall F).pushed
            = ⟨score doc, doc⟩ :: (heap.pq : Recall F).pushed := by
          rcases hheap.add_pq hcount doc with hpq | hpq
          · rw [hpq]
            rfl
          · rw [hpq]
            exact congrArg (List.cons _) (recallQueue_pop_pushed awaited heap.pq)
        rw [hpushed, offeredItems, offeredItems, List.map_cons, List.reverse_cons,
          List.append_assoc]
        rfl
      · rename_i hcount
        rw [hheap.add_of_countP (by rw [countP_offeredItems]; exact not_lt.mp hcount) doc]

end Entering

/-! ### The scoring loop -/

variable [Zero F] [Add F] [Sub F] [Mul F] [FloatFormat F]

/-- The scoring loop of `block_budget_query` and what it returns. -/
def blockResult (Q : ItemQueue F ℤ) (source : ForwardSource) (lists : List InvertedListClusters)
    (elementSize : ℕ) (dense : List Code) (sel : Option IDSelector) (k : ℤ)
    (blocks : List (BlockCandidate F)) : Except SearchFault (List F × List ℤ) := do
  let heap ← SearchFault.lift (TopKHolder.new Q k)
  let s ← scoreBlocks source lists elementSize dense sel blocks (⟨heap, []⟩ : Visit Q)
  .ok s.heap.topKItemsDescending

section Scored

variable {source : ForwardSource} {lists : List InvertedListClusters} {elementSize : ℕ}
  {dense : List Code} {sel : Option IDSelector} {docsOf : ℕ → ℕ → List ℤ}
  {rowOf : ℤ → SparseRow Code} {k : ℤ} {blocks order : List (BlockCandidate F)}

/-- The heap the loop leaves, when no document has a term outside. -/
def blockHeap (Q : ItemQueue F ℤ) (elementSize : ℕ) (dense : List Code) (sel : Option IDSelector)
    (docsOf : ℕ → ℕ → List ℤ) (rowOf : ℤ → SparseRow Code) (k : ℤ)
    (blocks : List (BlockCandidate F)) : TopKHolder Q :=
  offerInTurn (fun doc => similarityOf elementSize dense (rowOf doc))
    (arrivals sel [] (docsOfBlocks docsOf blocks)) ⟨k, Q.empty, ⊤⟩

omit [Sub F] in
theorem blockHeap_holds (Q : ItemQueue F ℤ) (hk : 0 < k) :
    (blockHeap Q elementSize dense sel docsOf rowOf k blocks).Holds k.toNat
      ((scoredDocs sel docsOf blocks).val.map (docItem elementSize dense rowOf)) := by
  have hholds := offerInTurn_holds (fun doc => (similarityOf elementSize dense (rowOf doc) : F))
    (arrivals sel [] (docsOfBlocks docsOf blocks)) (TopKHolder.holds_empty Q hk)
  rw [add_zero, ← Multiset.map_coe, coe_arrivals] at hholds
  exact hholds

/-- **The loop** returns what that heap holds, the best of the documents. -/
theorem blockResult_eq_ok (Q : ItemQueue F ℤ) (hk : 0 < k)
    (h : BlocksHold source lists elementSize docsOf rowOf blocks)
    (hwithin : ∀ doc ∈ scoredDocs sel docsOf blocks, TermsWithin dense.length (rowOf doc)) :
    blockResult Q source lists elementSize dense sel k blocks
      = .ok (blockHeap Q elementSize dense sel docsOf rowOf k blocks).topKItemsDescending := by
  have hnew : TopKHolder.new Q k = .ok ⟨k, Q.empty, ⊤⟩ := by
    rw [TopKHolder.new, if_neg (not_le.mpr hk)]
  obtain ⟨s', hrun, hheap⟩ := scoreRows_offerInTurn (docsOfBlocks docsOf blocks)
    (⟨⟨k, Q.empty, ⊤⟩, []⟩ : Visit Q) hwithin
  rw [blockResult, hnew]
  show (scoreBlocks source lists elementSize dense sel blocks _).bind _ = _
  rw [scoreBlocks_eq h, hrun, blockHeap, ← hheap]
  rfl

/-- With a term outside it does not return. -/
theorem blockResult_eq_error (Q : ItemQueue F ℤ) (hk : 0 < k)
    (h : BlocksHold source lists elementSize docsOf rowOf blocks)
    (hout : ∃ doc ∈ scoredDocs sel docsOf blocks, ¬ TermsWithin dense.length (rowOf doc)) :
    blockResult Q source lists elementSize dense sel k blocks = .error .outOfBuffer := by
  have hnew : TopKHolder.new Q k = .ok ⟨k, Q.empty, ⊤⟩ := by
    rw [TopKHolder.new, if_neg (not_le.mpr hk)]
  rw [blockResult, hnew]
  show (scoreBlocks source lists elementSize dense sel blocks _).bind _ = _
  rw [scoreBlocks_eq h, scoreRows_error (docsOfBlocks docsOf blocks)
    ⟨⟨k, Q.empty, ⊤⟩, []⟩ hout]
  rfl

/-! ### Any two orders -/

/-- Two outcomes are the same failure, or agree down to the `k`-th score. -/
def AgreeAboveKth (k : ℕ) (o o' : Except SearchFault (List F × List ℤ)) : Prop :=
  (∃ fault, o = .error fault ∧ o' = .error fault) ∨
    ∃ r r', o = .ok r ∧ o' = .ok r' ∧ SameAboveKth k r r'

/-- The order of the blocks does not matter, whichever of equal scores the queue takes first. -/
def OrderFree (source : ForwardSource) (lists : List InvertedListClusters) (elementSize : ℕ)
    (dense : List Code) (sel : Option IDSelector) (k : ℤ) (blocks : List (BlockCandidate F)) :
    Prop :=
  ∀ (Q : ItemQueue F ℤ) (order order' : List (BlockCandidate F)),
    order.Perm blocks → order'.Perm blocks →
      AgreeAboveKth k.toNat (blockResult Q source lists elementSize dense sel k order)
        (blockResult Q source lists elementSize dense sel k order')

/-- The same documents enter the heap one after the other, whatever the order of the blocks. -/
def EnterAlike (k : ℕ) (score : ℤ → F) (sel : Option IDSelector) (docsOf : ℕ → ℕ → List ℤ)
    (blocks : List (BlockCandidate F)) : Prop :=
  ∀ order : List (BlockCandidate F), order.Perm blocks →
    entering k score [] (arrivals sel [] (docsOfBlocks docsOf order))
      = entering k score [] (arrivals sel [] (docsOfBlocks docsOf blocks))

attribute [local instance] TopK.isTrans_ge TopK.antisymm_ge

/-- Two documents share a score strictly above the `k`-th. -/
def TieAboveKth (k : ℕ) (score : ℤ → F) (docs : Finset ℤ) : Prop :=
  ∃ doc ∈ docs, ∃ doc' ∈ docs, doc < doc' ∧ score doc = score doc' ∧
    AboveKth k ((docs.val.map score).sort (· ≥ ·)) (score doc)

omit [Sub F] in
/-- **Without such ties** two heaps offered the same documents agree. -/
theorem sameAboveKth_of_not_tie {Q Q' : ItemQueue F ℤ} {heap : TopKHolder Q}
    {heap' : TopKHolder Q'} {k : ℕ} {docs : Finset ℤ}
    (h : heap.Holds k (docs.val.map (docItem elementSize dense rowOf)))
    (h' : heap'.Holds k (docs.val.map (docItem elementSize dense rowOf)))
    (htie : ¬ TieAboveKth k (fun doc => (similarityOf elementSize dense (rowOf doc) : F)) docs) :
    SameAboveKth k heap.topKItemsDescending heap'.topKItemsDescending := by
  have hscores := h.scores_eq_take
  have hscores' := h'.scores_eq_take
  rw [map_score_docItem] at hscores hscores'
  refine ⟨hscores'.trans hscores.symm, fun i score hscore habove => ?_⟩
  rw [hscores, aboveKth_take h.pos] at habove
  obtain ⟨l, hl, -, hdrain⟩ := heap.topKItemsDescending_spec
  obtain ⟨l', hl', -, hdrain'⟩ := heap'.topKItemsDescending_spec
  have hscore' := hscore
  rw [hscores, ← hscores', hdrain', List.getElem?_map, Option.map_eq_some_iff] at hscore'
  rw [hdrain, List.getElem?_map, Option.map_eq_some_iff] at hscore
  obtain ⟨item, hitem, hsame⟩ := hscore
  obtain ⟨item', hitem', hsame'⟩ := hscore'
  have hoffered : item ∈ docs.val.map (docItem elementSize dense rowOf) :=
    Multiset.mem_of_le h.best.le (hl ▸ List.mem_of_getElem? hitem)
  have hoffered' : item' ∈ docs.val.map (docItem elementSize dense rowOf) :=
    Multiset.mem_of_le h'.best.le (hl' ▸ List.mem_of_getElem? hitem')
  obtain ⟨doc, hdoc, rfl⟩ := Multiset.mem_map.mp hoffered
  obtain ⟨doc', hdoc', rfl⟩ := Multiset.mem_map.mp hoffered'
  rw [hdrain, hdrain', List.getElem?_map, List.getElem?_map, hitem, hitem']
  -- one document has this score
  have heq : similarityOf elementSize dense (rowOf doc)
      = similarityOf elementSize dense (rowOf doc') := hsame.trans hsame'.symm
  rw [← show similarityOf elementSize dense (rowOf doc) = score from hsame] at habove
  rcases lt_trichotomy doc doc' with hlt | hdocs | hgt
  · exact absurd ⟨doc, hdoc, doc', hdoc', hlt, heq, habove⟩ htie
  · rw [hdocs]
  · rw [heq] at habove
    exact absurd ⟨doc', hdoc', doc, hdoc, hgt, heq.symm, habove⟩ htie

omit [Zero F] [Add F] [Sub F] [Mul F] [LinearOrder F] [FloatFormat F] in
/-- Among items listed by falling key the larger key comes first. -/
theorem rank_lt_of_key_lt {K : Type} [Preorder K] {key : TopKItem F ℤ → K}
    {l : List (TopKItem F ℤ)} (hpairwise : l.Pairwise fun a b => key b ≤ key a) {i j : ℕ}
    {x y : TopKItem F ℤ} (hi : l[i]? = some x) (hj : l[j]? = some y) (hlt : key y < key x) :
    i < j := by
  obtain ⟨hilt, rfl⟩ := List.getElem?_eq_some_iff.mp hi
  obtain ⟨hjlt, rfl⟩ := List.getElem?_eq_some_iff.mp hj
  rcases Nat.lt_trichotomy i j with hij | rfl | hji
  · exact hij
  · exact absurd hlt (lt_irrefl _)
  · exact absurd hlt (List.pairwise_iff_getElem.mp hpairwise j i hjlt hilt hji).not_gt

omit [Zero F] [Add F] [Sub F] [Mul F] [FloatFormat F] in
/-- Results with the same labels above the `k`-th score have the same items there. -/
theorem getElem?_of_sameAboveKth {k : ℕ} {l l' : List (TopKItem F ℤ)}
    (hsame : l'.map TopKItem.score = l.map TopKItem.score)
    (hlabels : ∀ (i : ℕ) (score : F), (l.map TopKItem.score)[i]? = some score →
      AboveKth k (l.map TopKItem.score) score →
        (l'.map TopKItem.id)[i]? = (l.map TopKItem.id)[i]?)
    {p : ℕ} {item : TopKItem F ℤ} (hitem : l[p]? = some item)
    (habove : AboveKth k (l.map TopKItem.score) item.score) : l'[p]? = some item := by
  have hrank : (l.map TopKItem.score)[p]? = some item.score := by
    rw [List.getElem?_map, hitem]
    rfl
  have hlabel := hlabels p item.score hrank habove
  rw [← hsame, List.getElem?_map, Option.map_eq_some_iff] at hrank
  obtain ⟨item', hitem', hscore'⟩ := hrank
  rw [List.getElem?_map, List.getElem?_map, hitem, hitem'] at hlabel
  have hid : item'.id = item.id := Option.some.inj hlabel
  obtain ⟨score, label⟩ := item
  obtain ⟨score', label'⟩ := item'
  obtain rfl : score' = score := hscore'
  obtain rfl : label' = label := hid
  exact hitem'

omit [Sub F] in
/-- **With such a tie** two heaps disagree that list equal scores by label, the one from the
smallest on and the other from the largest on. -/
theorem not_sameAboveKth_of_tie {Q : ItemQueue F ℤ} {heap heap' : TopKHolder Q} {k : ℕ}
    {docs : Finset ℤ} (h : heap.Holds k (docs.val.map (docItem elementSize dense rowOf)))
    (hlist : ∃ l : List (TopKItem F ℤ), (l : Multiset (TopKItem F ℤ)) = heap.items ∧
      l.Pairwise (fun a b => labelKey b ≤ labelKey a) ∧
      heap.topKItemsDescending = (l.map TopKItem.score, l.map TopKItem.id))
    (hlist' : ∃ l : List (TopKItem F ℤ), (l : Multiset (TopKItem F ℤ)) = heap'.items ∧
      l.Pairwise (fun a b => reversedLabelKey b ≤ reversedLabelKey a) ∧
      heap'.topKItemsDescending = (l.map TopKItem.score, l.map TopKItem.id))
    (htie : TieAboveKth k (fun doc => (similarityOf elementSize dense (rowOf doc) : F)) docs) :
    ¬ SameAboveKth k heap.topKItemsDescending heap'.topKItemsDescending := by
  rintro ⟨hsame, hlabels⟩
  obtain ⟨doc, hdoc, doc', hdoc', hlt, heq, habove⟩ := htie
  have hscores := h.scores_eq_take
  rw [map_score_docItem] at hscores
  rw [← aboveKth_take h.pos, ← hscores] at habove
  obtain ⟨l, hl, hpairwise, hdrain⟩ := hlist
  obtain ⟨l', -, hpairwise', hdrain'⟩ := hlist'
  -- both documents are kept
  have hkept : ∀ d ∈ docs, (similarityOf elementSize dense (rowOf doc) : F)
      = similarityOf elementSize dense (rowOf d) → docItem elementSize dense rowOf d ∈ l := by
    intro d hd hscore
    rw [← Multiset.mem_coe, hl]
    apply h.mem_of_aboveKth (Multiset.mem_map_of_mem _ hd)
    show AboveKth k _ (similarityOf elementSize dense (rowOf d))
    rw [← hscore]
    exact habove
  obtain ⟨j, hj⟩ := List.mem_iff_getElem?.mp (hkept doc hdoc rfl)
  obtain ⟨i, hi⟩ := List.mem_iff_getElem?.mp (hkept doc' hdoc' heq)
  -- the larger label comes first in the one result
  have hij : i < j := rank_lt_of_key_lt hpairwise hi hj
    (Prod.Lex.toLex_lt_toLex.mpr (.inr ⟨heq, hlt⟩))
  -- and at the same ranks of the other, where it should come second
  rw [hdrain, hdrain'] at hsame hlabels
  rw [hdrain] at habove
  have habove' : AboveKth k (l.map TopKItem.score) (docItem elementSize dense rowOf doc').score :=
    Eq.subst (motive := AboveKth k _) heq habove
  have hi' := getElem?_of_sameAboveKth hsame hlabels hi habove'
  have hj' := getElem?_of_sameAboveKth hsame hlabels hj habove
  have hji : j < i := rank_lt_of_key_lt hpairwise' hj' hi'
    (Prod.Lex.toLex_lt_toLex.mpr (.inr ⟨heq.symm, neg_lt_neg hlt⟩))
  exact absurd hij (Nat.not_lt.mpr hji.le)

omit [Sub F] in
/-- A heap that was pushed what is awaited lists equal scores otherwise than one that was not. -/
theorem blockHeap_tells (hk : 0 < k)
    (htie : TieAboveKth k.toNat (fun doc => (similarityOf elementSize dense (rowOf doc) : F))
      (scoredDocs sel docsOf blocks))
    (hdiffer : entering k.toNat (fun doc => (similarityOf elementSize dense (rowOf doc) : F)) []
        (arrivals sel [] (docsOfBlocks docsOf order))
      ≠ entering k.toNat (fun doc => (similarityOf elementSize dense (rowOf doc) : F)) []
        (arrivals sel [] (docsOfBlocks docsOf blocks))) :
    ∃ Q : ItemQueue F ℤ, ¬ SameAboveKth k.toNat
      (blockHeap Q elementSize dense sel docsOf rowOf k blocks).topKItemsDescending
      (blockHeap Q elementSize dense sel docsOf rowOf k order).topKItemsDescending := by
  set score : ℤ → F := fun doc => similarityOf elementSize dense (rowOf doc) with hscore
  set awaited := (offeredItems score (entering k.toNat score []
    (arrivals sel [] (docsOfBlocks docsOf blocks)))).reverse with hawaited
  have hpushed : ∀ order : List (BlockCandidate F),
      ((blockHeap (recallQueue awaited) elementSize dense sel docsOf rowOf k order).pq
        : Recall F).pushed = (offeredItems score (entering k.toNat score []
          (arrivals sel [] (docsOfBlocks docsOf order)))).reverse := fun order => by
    have hrun := offerInTurn_pushed score [] (TopKHolder.holds_empty (recallQueue awaited) hk)
      (arrivals sel [] (docsOfBlocks docsOf order))
    exact hrun.trans (List.append_nil _)
  refine ⟨recallQueue awaited, not_sameAboveKth_of_tie (blockHeap_holds _ hk) ?_ ?_ htie⟩
  · have hdrain := recallQueue_drain
      (blockHeap (recallQueue awaited) elementSize dense sel docsOf rowOf k blocks)
    have hkey : ∀ item : TopKItem F ℤ, recallKey awaited awaited item = labelKey item :=
      fun item => if_pos rfl
    rw [hpushed, ← hawaited] at hdrain
    simp only [hkey] at hdrain
    exact hdrain
  · have hdrain := recallQueue_drain
      (blockHeap (recallQueue awaited) elementSize dense sel docsOf rowOf k order)
    rw [hpushed] at hdrain
    have hne : (offeredItems score (entering k.toNat score []
        (arrivals sel [] (docsOfBlocks docsOf order)))).reverse ≠ awaited := fun h =>
      hdiffer (offeredItems_injective score (List.reverse_injective h))
    simp only [recallKey, if_neg hne] at hdrain
    exact hdrain

/-- **Any two orders agree** down to the `k`-th score, whatever the queue, exactly when no two
documents share a score above the `k`-th, or the same documents enter the heap one after the
other in every order (or nothing is returned). -/
theorem blockResult_orderFree_iff (h : BlocksHold source lists elementSize docsOf rowOf blocks) :
    OrderFree source lists elementSize dense sel k blocks ↔
      k ≤ 0 ∨ (∃ doc ∈ scoredDocs sel docsOf blocks, ¬ TermsWithin dense.length (rowOf doc)) ∨
        ¬ TieAboveKth k.toNat (fun doc => (similarityOf elementSize dense (rowOf doc) : F))
          (scoredDocs sel docsOf blocks) ∨
        EnterAlike k.toNat (fun doc => (similarityOf elementSize dense (rowOf doc) : F)) sel docsOf
          blocks := by
  rcases le_or_gt k 0 with hk | hk
  · refine iff_of_true (fun Q order order' _ _ => .inl ?_) (.inl hk)
    have hthrow : ∀ order : List (BlockCandidate F),
        blockResult Q source lists elementSize dense sel k order
          = .error (.threw (.invalidArgument notPositiveMsg)) := fun order => by
      rw [blockResult, TopKHolder.new, if_pos hk]
      rfl
    exact ⟨_, hthrow order, hthrow order'⟩
  by_cases hout : ∃ doc ∈ scoredDocs sel docsOf blocks, ¬ TermsWithin dense.length (rowOf doc)
  · refine iff_of_true (fun Q order order' hperm hperm' => .inl ?_) (.inr (.inl hout))
    refine ⟨_, blockResult_eq_error Q hk (h.perm hperm) ?_,
      blockResult_eq_error Q hk (h.perm hperm') ?_⟩
    · rwa [scoredDocs_perm hperm]
    · rwa [scoredDocs_perm hperm']
  have hwithin : ∀ doc ∈ scoredDocs sel docsOf blocks, TermsWithin dense.length (rowOf doc) :=
    fun doc hdoc => not_not.mp fun hnot => hout ⟨doc, hdoc, hnot⟩
  have hok : ∀ (Q : ItemQueue F ℤ) (order : List (BlockCandidate F)), order.Perm blocks →
      blockResult Q source lists elementSize dense sel k order
        = .ok (blockHeap Q elementSize dense sel docsOf rowOf k order).topKItemsDescending :=
    fun Q order hperm => blockResult_eq_ok Q hk (h.perm hperm) (by rwa [scoredDocs_perm hperm])
  constructor
  · intro hfree
    refine .inr (.inr (or_iff_not_imp_left.mpr fun htie order hperm => ?_))
    by_contra hdiffer
    obtain ⟨Q, hnot⟩ := blockHeap_tells hk (not_not.mp htie) hdiffer
    rcases hfree Q blocks order (.refl _) hperm with ⟨fault, herr, -⟩ | ⟨r, r', hr, hr', hsame⟩
    · rw [hok Q blocks (.refl _)] at herr
      cases herr
    · rw [hok Q blocks (.refl _)] at hr
      rw [hok Q order hperm] at hr'
      obtain rfl := Except.ok.inj hr
      obtain rfl := Except.ok.inj hr'
      exact hnot hsame
  · intro hcond Q order order' hperm hperm'
    refine .inr ⟨_, _, hok Q order hperm, hok Q order' hperm', ?_⟩
    rcases (hcond.resolve_left hk.not_ge).resolve_left hout with htie | halike
    · have hholds : (blockHeap Q elementSize dense sel docsOf rowOf k order).Holds k.toNat _ :=
        blockHeap_holds Q hk
      have hholds' : (blockHeap Q elementSize dense sel docsOf rowOf k order').Holds k.toNat _ :=
        blockHeap_holds Q hk
      rw [scoredDocs_perm hperm] at hholds
      rw [scoredDocs_perm hperm'] at hholds'
      exact sameAboveKth_of_not_tie hholds hholds' htie
    · -- the same documents enter, so the heaps are one
      have hsame : blockHeap Q elementSize dense sel docsOf rowOf k order
          = blockHeap Q elementSize dense sel docsOf rowOf k order' := by
        have hentering := fun order : List (BlockCandidate F) =>
          offerInTurn_entering (fun doc => similarityOf elementSize dense (rowOf doc)) []
            (TopKHolder.holds_empty Q hk) (arrivals sel [] (docsOfBlocks docsOf order))
        rw [blockHeap, blockHeap, hentering order, hentering order', halike order hperm,
          halike order' hperm']
      rw [hsame]
      exact ⟨rfl, fun _ _ _ _ => rfl⟩

end Scored

/-! ### Two documents of one score -/

/-- Three documents, the first two of the same value. -/
def tiedCorpus : SparseVectors Code := ⟨1, 1, [0, 1, 2, 3], [0, 0, 0], [[5], [5], [3]]⟩

/-- A cluster for each. -/
def tiedList : InvertedListClusters :=
  .ofDocs [[0], [1], [2]]

def tiedBlocks : List (BlockCandidate ℤ) := [⟨0, 0, 0⟩, ⟨0, 0, 1⟩, ⟨0, 0, 2⟩]

/-- The first two blocks the other way round. -/
def tiedBlocksSwapped : List (BlockCandidate ℤ) := [⟨0, 0, 1⟩, ⟨0, 0, 0⟩, ⟨0, 0, 2⟩]

theorem blockResult_orderFree_iff_tied :
    OrderFree (.rows tiedCorpus) [tiedList] 1 [[1]] none 3 tiedBlocks ↔
      (3 : ℤ) ≤ 0 ∨
        (∃ doc ∈ scoredDocs none (fun pl cid => (([tiedList] : List _).getD pl .empty).getDocs cid)
          tiedBlocks, ¬ TermsWithin [[(1 : UInt8)]].length (docRow tiedCorpus doc)) ∨
        ¬ TieAboveKth (3 : ℤ).toNat
          (fun doc => (similarityOf 1 [[1]] (docRow tiedCorpus doc) : ℤ))
          (scoredDocs none (fun pl cid => (([tiedList] : List _).getD pl .empty).getDocs cid)
            tiedBlocks) ∨
        EnterAlike (3 : ℤ).toNat
          (fun doc => (similarityOf 1 [[1]] (docRow tiedCorpus doc) : ℤ)) none
          (fun pl cid => (([tiedList] : List _).getD pl .empty).getDocs cid) tiedBlocks :=
  blockResult_orderFree_iff (blocksHold_rows tiedCorpus [tiedList] 1 tiedBlocks)

/-- **The labels of two documents of one score** trade places with their blocks, above the third
score. -/
theorem blockResult_order_matters :
    ¬ ∀ (Q : ItemQueue ℤ ℤ) (order order' : List (BlockCandidate ℤ)),
      order.Perm tiedBlocks → order'.Perm tiedBlocks →
        AgreeAboveKth 3 (blockResult Q (.rows tiedCorpus) [tiedList] 1 [[1]] none 3 order)
          (blockResult Q (.rows tiedCorpus) [tiedList] 1 [[1]] none 3 order') := by
  intro h
  have hfirst : blockResult (sortedQueue TopKItem.score) (.rows tiedCorpus) [tiedList] 1 [[1]] none 3
      tiedBlocks = .ok ([5, 5, 3], [0, 1, 2]) := by decide +kernel
  have hsecond : blockResult (sortedQueue TopKItem.score) (.rows tiedCorpus) [tiedList] 1 [[1]] none
      3 tiedBlocksSwapped = .ok ([5, 5, 3], [1, 0, 2]) := by decide +kernel
  have hswap : tiedBlocksSwapped.Perm tiedBlocks := List.Perm.swap ..
  rcases h _ _ _ (.refl _) hswap with ⟨fault, herr, -⟩ | ⟨r, r', hr, hr', hsame⟩
  · rw [hfirst] at herr
    cases herr
  · rw [hfirst] at hr
    rw [hsecond] at hr'
    obtain rfl := Except.ok.inj hr
    obtain rfl := Except.ok.inj hr'
    have habove : AboveKth 3 [5, 5, 3] (5 : ℤ) := by
      rintro kth hkth
      obtain rfl := Option.some.inj hkth
      decide
    exact absurd (hsame.labels 0 5 rfl habove) (by decide)

end Nsparse
