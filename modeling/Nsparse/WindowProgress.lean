/-
Nsparse/WindowProgress.lean

When the main loop of a query ends.

A round only moves cursors forward (`Moves`), and it moves every essential cursor past the
window of the least current document as long as the end of that window fits 32 bits.  Then
the postings left add up to less after each round.  A document in the last window of the id
range has no such end: the round leaves every cursor where it stands, and the loop does not
end (`singleQuery_ends_iff`).
-/
import Nsparse.MaxScore

namespace Nsparse

variable {F : Type}

/-! ### Cursors that move forward -/

namespace DirectTermScorer

/-- What holds of a scorer in the course of a query: its documents ascend within the range of
ids, and its cursor stands at one of them or behind the last. -/
structure Walks (s : DirectTermScorer F) : Prop where
  ascending : s.docIds.Pairwise (· < ·)
  range : ∀ d ∈ s.docIds, 0 ≤ d ∧ d < kNoMoreDocs
  listSize : s.listSize = s.docIds.length
  placed : ∃ c : ℕ, s.currentIndex = c ∧ c ≤ s.docIds.length

/-- The cursor of `s` has moved forward, over documents before `p`. -/
structure Moves (p : ℤ) (s s' : DirectTermScorer F) : Prop where
  moved : ∃ c : ℕ, s' = s.withIndex c ∧ c ≤ s.docIds.length
  forward : s.currentIndex ≤ s'.currentIndex
  passed : ∀ j : ℕ, s.currentIndex ≤ j → (j : ℤ) < s'.currentIndex → s.docIds.getD j 0 < p

variable {s s' s'' : DirectTermScorer F} {p q : ℤ}

theorem Walks.moves_self (h : s.Walks) (p : ℤ) : Moves p s s where
  moved := by
    obtain ⟨c, hc, hle⟩ := h.placed
    exact ⟨c, by rw [← hc]; rfl, hle⟩
  forward := le_rfl
  passed j hlow hhigh := absurd hhigh (not_lt.mpr hlow)

theorem Moves.docIds_eq (h : Moves p s s') : s'.docIds = s.docIds := by
  obtain ⟨c, rfl, -⟩ := h.moved
  rfl

theorem Moves.queryWeight_eq (h : Moves p s s') : s'.queryWeight = s.queryWeight := by
  obtain ⟨c, rfl, -⟩ := h.moved
  rfl

theorem Moves.trans (h : Moves p s s') (h' : Moves p s' s'') : Moves p s s'' where
  moved := by
    obtain ⟨c, rfl, -⟩ := h.moved
    obtain ⟨c', rfl, hle⟩ := h'.moved
    exact ⟨c', rfl, hle⟩
  forward := h.forward.trans h'.forward
  passed j hlow hhigh := by
    rcases lt_or_ge (j : ℤ) s'.currentIndex with hlt | hge
    · exact h.passed j hlow hlt
    · rw [← h.docIds_eq]
      exact h'.passed j hge hhigh

theorem Moves.mono (h : Moves p s s') (hpq : p ≤ q) : Moves q s s' where
  moved := h.moved
  forward := h.forward
  passed j hlow hhigh := (h.passed j hlow hhigh).trans_le hpq

theorem Walks.moves (h : s.Walks) (hm : Moves p s s') : s'.Walks := by
  obtain ⟨c, rfl, hle⟩ := hm.moved
  exact ⟨h.ascending, h.range, h.listSize, c, rfl, hle⟩

/-- The current document, or that the cursor is behind the last one. -/
theorem Walks.docId_cases (h : s.Walks) :
    (s.currentIndex = s.docIds.length ∧ s.docId = kNoMoreDocs) ∨
      ∃ c : ℕ, s.currentIndex = c ∧ c < s.docIds.length ∧ s.docId = s.docIds.getD c 0 ∧
        s.docId ∈ s.docIds := by
  obtain ⟨c, hc, hle⟩ := h.placed
  have hlist := h.listSize
  rcases hle.lt_or_eq with hlt | heq
  · right
    have hdoc : s.docId = s.docIds.getD c 0 := by
      rw [docId, if_neg (by omega), docAt, hc, Int.toNat_natCast]
    refine ⟨c, hc, hlt, hdoc, ?_⟩
    rw [hdoc, List.getD_eq_getElem _ _ hlt]
    exact List.getElem_mem hlt
  · left
    exact ⟨by omega, by rw [docId, if_pos (by omega)]⟩

/-- One posting further. -/
theorem moves_nextDoc {c : ℕ} (hc : s.currentIndex = c)
    (hlt : c < s.docIds.length) (hbefore : s.docIds.getD c 0 < p) : Moves p s s.nextDoc where
  moved := ⟨c + 1, by rw [nextDoc_eq, hc]; rfl, hlt⟩
  forward := by
    show s.currentIndex ≤ s.currentIndex + 1
    omega
  passed j hlow hhigh := by
    have hhigh' : (j : ℤ) < s.currentIndex + 1 := hhigh
    obtain rfl : j = c := by omega
    exact hbefore

/-- Searching for a document passes those before it. -/
theorem Walks.moves_advanceTo (h : s.Walks) (doc : ℤ) : Moves doc s (s.advanceTo doc) := by
  obtain ⟨c, hc, hle⟩ := h.placed
  have hlist := h.listSize
  unfold advanceTo
  split
  · exact h.moves_self doc
  · split
    · exact h.moves_self doc
    · rename_i hopen hnot
      have hlt : c < s.docIds.length := by omega
      have hhere : s.docIds.getD c 0 < doc := by
        have hcursor : ¬ doc ≤ s.docAt s.currentIndex := fun hdoc => hnot ⟨by omega, hdoc⟩
        rw [docAt, hc, Int.toNat_natCast] at hcursor
        exact not_le.mp hcursor
      have hbound := lowerBound_le (s.docIds.drop (c + 1)) doc
      rw [List.length_drop] at hbound
      have hstart : (if s.currentIndex < 0 then 0 else s.currentIndex + 1) = ((c + 1 : ℕ) : ℤ) := by
        rw [if_neg (by omega), hc]
        rfl
      rw [hstart]
      have hpos : (if ((c + 1 : ℕ) : ℤ) + lowerBound (s.docIds.drop (c + 1)) doc = s.listSize
          then s.listSize else ((c + 1 : ℕ) : ℤ) + lowerBound (s.docIds.drop (c + 1)) doc)
          = ((c + 1 + lowerBound (s.docIds.drop (c + 1)) doc : ℕ) : ℤ) := by
        split
        · rename_i heq
          rw [← heq]
          rfl
        · rfl
      dsimp only
      rw [Int.toNat_natCast, hpos]
      refine ⟨⟨_, rfl, by omega⟩, ?_, fun j hlow hhigh => ?_⟩
      · show s.currentIndex ≤ ((c + 1 + lowerBound (s.docIds.drop (c + 1)) doc : ℕ) : ℤ)
        omega
      · have hhigh' : (j : ℤ) < ((c + 1 + lowerBound (s.docIds.drop (c + 1)) doc : ℕ) : ℤ) := hhigh
        rcases Nat.lt_or_ge c j with hcj | hjc
        · have hskipped : j - (c + 1) < lowerBound (s.docIds.drop (c + 1)) doc := by omega
          have hget := lt_of_lt_lowerBound hskipped
          rw [List.getD_eq_getElem?_getD, List.getElem?_drop, Nat.add_sub_cancel' hcj,
            ← List.getD_eq_getElem?_getD] at hget
          exact hget
        · obtain rfl : j = c := by omega
          exact hhere

end DirectTermScorer

open DirectTermScorer

/-! ### All cursors of a query -/

/-- All scorers of a list move. -/
def AllMove (p : ℤ) : List (DirectTermScorer F) → List (DirectTermScorer F) → Prop :=
  List.Forall₂ (Moves p)

theorem AllMove.walks {p : ℤ} {scorers scorers' : List (DirectTermScorer F)}
    (h : AllMove p scorers scorers') (hs : ∀ s ∈ scorers, s.Walks) :
    ∀ s ∈ scorers', s.Walks := by
  induction h with
  | nil => exact hs
  | cons hmoves _ ih =>
      obtain ⟨hfirst, hrest⟩ := List.forall_mem_cons.mp hs
      exact List.forall_mem_cons.mpr ⟨hfirst.moves hmoves, ih hrest⟩

theorem AllMove.map_docIds {p : ℤ} {scorers scorers' : List (DirectTermScorer F)}
    (h : AllMove p scorers scorers') :
    scorers'.map DirectTermScorer.docIds = scorers.map DirectTermScorer.docIds := by
  induction h with
  | nil => rfl
  | cons hmoves _ ih => rw [List.map_cons, List.map_cons, ih, hmoves.docIds_eq]

theorem allMove_self {scorers : List (DirectTermScorer F)} (hs : ∀ s ∈ scorers, s.Walks) (p : ℤ) :
    AllMove p scorers scorers :=
  List.forall₂_same.mpr fun s h => (hs s h).moves_self p

theorem AllMove.trans {p : ℤ} {scorers scorers' scorers'' : List (DirectTermScorer F)}
    (h : AllMove p scorers scorers') (h' : AllMove p scorers' scorers'') :
    AllMove p scorers scorers'' := by
  induction h generalizing scorers'' with
  | nil => exact h'
  | cons hmoves _ ih =>
      cases h' with
      | cons hmoves' hrest => exact .cons (hmoves.trans hmoves') (ih hrest)

/-- One scorer of the list moves. -/
theorem allMove_set {p : ℤ} {scorers : List (DirectTermScorer F)} (hs : ∀ s ∈ scorers, s.Walks)
    {j : ℕ} {s s' : DirectTermScorer F} (hj : scorers[j]? = some s) (hmoves : Moves p s s') :
    AllMove p scorers (scorers.set j s') := by
  induction scorers generalizing j with
  | nil => exact .nil
  | cons first scorers ih =>
      obtain ⟨hfirst, hrest⟩ := List.forall_mem_cons.mp hs
      cases j with
      | zero =>
          obtain rfl := Option.some.inj hj
          exact .cons hmoves (allMove_self hrest p)
      | succ j => exact .cons (hfirst.moves_self p) (ih hrest hj)

/-! ### Scoring a window -/

section Scoring

variable [Ring F] {base stop : ℤ}

/-- The inner loop passes documents before the end of the window, and with enough fuel all of
them. -/
theorem scorePostings_moves (fuel : ℕ) {s : DirectTermScorer F} (hs : s.Walks)
    (hstop : stop ≤ kNoMoreDocs) (w : ScoreWindow F) :
    Moves stop s (scorePostings base stop fuel s w).1 ∧
      (s.listSize ≤ s.currentIndex + fuel →
        stop ≤ (scorePostings base stop fuel s w).1.docId) := by
  induction fuel generalizing s w with
  | zero =>
      refine ⟨hs.moves_self stop, fun hfuel => ?_⟩
      have hend : s.docId = kNoMoreDocs := if_pos (.inr (by simpa using hfuel))
      rwa [scorePostings, hend]
  | succ fuel ih =>
      rw [scorePostings]
      split
      · rename_i hend
        refine ⟨hs.moves_self stop, fun _ => ?_⟩
        have hdoc : s.docId = kNoMoreDocs := if_pos (.inr hend)
        rwa [hdoc]
      · rename_i hopen
        obtain ⟨c, hc, hlt, hdoc, -⟩ := hs.docId_cases.resolve_left fun hend => hopen (by
          rw [hs.listSize, hend.1])
        have hat : s.docAt s.currentIndex = s.docIds.getD c 0 := by
          rw [docAt, hc, Int.toNat_natCast]
        dsimp only
        rw [hat]
        split
        · rename_i hbehind
          exact ⟨hs.moves_self stop, fun _ => by rwa [hdoc]⟩
        · rename_i hbefore
          have hnext : Moves stop s s.nextDoc := moves_nextDoc hc hlt (not_le.mp hbefore)
          have hfuel : s.listSize ≤ s.currentIndex + (fuel + 1 : ℕ) →
              s.nextDoc.listSize ≤ s.nextDoc.currentIndex + fuel := by
            show _ → s.listSize ≤ s.currentIndex + 1 + fuel
            intro h
            omega
          split
          · obtain ⟨hmoves, hpast⟩ := ih (hs.moves hnext) w
            exact ⟨hnext.trans hmoves, fun h => hpast (hfuel h)⟩
          · obtain ⟨hmoves, hpast⟩ := ih (hs.moves hnext) _
            exact ⟨hnext.trans hmoves, fun h => hpast (hfuel h)⟩

theorem scoreTerm_moves {s : DirectTermScorer F} (hs : s.Walks) (hstop : stop ≤ kNoMoreDocs)
    (w : ScoreWindow F) :
    Moves stop s (scoreTerm base stop s w).1 ∧ stop ≤ (scoreTerm base stop s w).1.docId := by
  show Moves stop s (scorePostings base stop (s.listSize - s.currentIndex).toNat s w).1 ∧
    stop ≤ (scorePostings base stop (s.listSize - s.currentIndex).toNat s w).1.docId
  obtain ⟨hmoves, hpast⟩ := scorePostings_moves (s.listSize - s.currentIndex).toNat hs hstop w
  exact ⟨hmoves, hpast (by omega)⟩

/-- Every essential scorer is moved past the window. -/
theorem scoreEssentialTerms_moves (base : ℤ) (hstop : stop ≤ kNoMoreDocs) {scorers : List (DirectTermScorer F)}
    (hs : ∀ s ∈ scorers, s.Walks) (w : ScoreWindow F) :
    List.Forall₂ (fun s s' => Moves stop s s' ∧ stop ≤ s'.docId) scorers
      (scoreEssentialTerms base stop scorers w).1 := by
  induction scorers generalizing w with
  | nil => exact .nil
  | cons s scorers ih =>
      obtain ⟨hfirst, hrest⟩ := List.forall_mem_cons.mp hs
      exact .cons (scoreTerm_moves hfirst hstop w) (ih hrest _)

/-! ### Completing the candidates -/

variable [LinearOrder F]

theorem scoreNonEssential_moves (maxScorePrefix : List F) (threshold : F) {doc : ℤ}
    (j : ℕ) {scorers : List (DirectTermScorer F)} (hs : ∀ s ∈ scorers, s.Walks) (total : F) :
    AllMove doc scorers (scoreNonEssential maxScorePrefix threshold doc j scorers total).1 ∧
      (scoreNonEssential maxScorePrefix threshold doc j scorers total).1.drop j
        = scorers.drop j := by
  induction j generalizing scorers total with
  | zero => exact ⟨allMove_self hs doc, rfl⟩
  | succ j ih =>
      rw [scoreNonEssential]
      split
      · exact ⟨allMove_self hs doc, rfl⟩
      · rename_i s hj
        have hset := allMove_set hs hj
          ((hs s (List.mem_of_getElem? hj)).moves_advanceTo doc)
        have hdrop : (scorers.set j (s.advanceTo doc)).drop (j + 1) = scorers.drop (j + 1) :=
          List.drop_set_of_lt (Nat.lt_succ_self j)
        dsimp only
        generalize (if (s.advanceTo doc).docId = doc then _ else total) = total'
        split
        · exact ⟨hset, hdrop⟩
        · obtain ⟨hmoves, hrest⟩ := ih (hset.walks hs) _
          have hrest' := congrArg (List.drop 1) hrest
          rw [List.drop_drop, List.drop_drop] at hrest'
          exact ⟨hset.trans hmoves, hrest'.trans hdrop⟩

variable {Q : ItemQueue F ℤ}

/-- Evaluating a slot moves only the cursors of the non-essential scorers, over documents before
the candidate. -/
theorem evaluateSlot_moves (fe : ℕ) (base : ℤ) (maxScorePrefix : List F) (sel : Option IDSelector)
    {c : CandidateState Q} (hs : ∀ s ∈ c.scorers, s.Walks) (slot : ℕ) :
    AllMove (base + slot) c.scorers (evaluateSlot fe base maxScorePrefix sel c slot).scorers ∧
      (evaluateSlot fe base maxScorePrefix sel c slot).scorers.drop fe = c.scorers.drop fe := by
  unfold evaluateSlot
  dsimp only
  split
  · exact ⟨allMove_self hs _, rfl⟩
  · split
    · exact ⟨allMove_self hs _, rfl⟩
    · exact scoreNonEssential_moves _ _ _ hs _

theorem evaluateSlots_moves (fe : ℕ) (base : ℤ) (maxScorePrefix : List F)
    (sel : Option IDSelector) (slots : List ℕ) (hslots : ∀ slot ∈ slots, slot < kScoreWindowSize)
    (c : CandidateState Q) (hs : ∀ s ∈ c.scorers, s.Walks) :
    AllMove (base + kScoreWindowSize) c.scorers
        (slots.foldl (evaluateSlot fe base maxScorePrefix sel) c).scorers ∧
      (slots.foldl (evaluateSlot fe base maxScorePrefix sel) c).scorers.drop fe
        = c.scorers.drop fe := by
  induction slots generalizing c with
  | nil => exact ⟨allMove_self hs _, rfl⟩
  | cons slot slots ih =>
      obtain ⟨hslot, hrest⟩ := List.forall_mem_cons.mp hslots
      obtain ⟨hmoves, hdrop⟩ := evaluateSlot_moves fe base maxScorePrefix sel hs slot
      obtain ⟨hmoves', hdrop'⟩ := ih hrest _ (hmoves.walks hs)
      have hfirst : AllMove (base + kScoreWindowSize) c.scorers
          (evaluateSlot fe base maxScorePrefix sel c slot).scorers :=
        List.Forall₂.imp (fun _ _ h => h.mono (by omega)) hmoves
      exact ⟨hfirst.trans hmoves', hdrop'.trans hdrop⟩

theorem evaluateWindowCandidates_moves (base : ℤ) (fe : ℕ) (maxScorePrefix : List F)
    (sel : Option IDSelector) (bitmap : List (BitVec 64)) {scorers : List (DirectTermScorer F)}
    (hs : ∀ s ∈ scorers, s.Walks) (windowScores : List F) (heap : TopKHolder Q) :
    AllMove (base + kScoreWindowSize) scorers
        (evaluateWindowCandidates fe base maxScorePrefix sel bitmap scorers windowScores
          heap).scorers ∧
      (evaluateWindowCandidates fe base maxScorePrefix sel bitmap scorers windowScores
          heap).scorers.drop fe = scorers.drop fe := by
  rw [evaluateWindowCandidates, BitSet.foldMarked_eq]
  refine evaluateSlots_moves fe base maxScorePrefix sel _ (fun slot hslot => ?_)
    ⟨scorers, windowScores, heap, _⟩ hs
  exact List.mem_range.mp (List.mem_filter.mp hslot).1

end Scoring

/-! ### One round -/

/-- The first document of the last window of the id range. -/
def kLastWindow : ℤ := 2 ^ 31 - kScoreWindowSize

/-- Where the window of a document begins. -/
def windowBaseOf (least : ℤ) : ℤ := least.tdiv kScoreWindowSize * kScoreWindowSize

/-- Where it ends. -/
def windowEndOf (least : ℤ) : ℤ := windowBaseOf least + kScoreWindowSize

theorem windowEndOf_spec {least : ℤ} (h : 0 ≤ least) :
    least < windowEndOf least ∧ (windowEndOf least < 2 ^ 31 ↔ least < kLastWindow) ∧
      (least < kLastWindow → windowEndOf least ≤ kLastWindow) ∧ 0 ≤ windowEndOf least := by
  have hsize : (kScoreWindowSize : ℤ) = 4096 := rfl
  rw [windowEndOf, windowBaseOf, kLastWindow, Int.tdiv_eq_ediv_of_nonneg h, hsize]
  omega

section Round

variable [Ring F] [LinearOrder F] {Q : ItemQueue F ℤ} {maxScorePrefix : List F}
  {sel : Option IDSelector}

/-- The first essential scorer of the next round. -/
def nextEssential (maxScorePrefix : List F) (s : SearchState Q) : ℕ :=
  if s.heap.full then partitionTerms maxScorePrefix (s.heap.peekScore.getD 0)
  else s.firstEssential

/-- The least document a round starts from. -/
def leastDoc (s : SearchState Q) (fe : ℕ) : ℤ := minDocId (s.scorers.drop fe)

/-- What a round that starts from `least` comes to. -/
def roundResult (maxScorePrefix : List F) (sel : Option IDSelector) (s : SearchState Q) (fe : ℕ)
    (least : ℤ) : CandidateState Q :=
  let scored := scoreEssentialTerms (windowBaseOf least) (toIdx (windowEndOf least))
    (s.scorers.drop fe) ⟨s.windowScores, List.replicate kBitmapWords 0⟩
  evaluateWindowCandidates fe (windowBaseOf least) maxScorePrefix sel scored.2.bitmap
    (s.scorers.take fe ++ scored.1) scored.2.windowScores s.heap

theorem searchWindow_eq (maxScorePrefix : List F) (sel : Option IDSelector) (s : SearchState Q) :
    searchWindow maxScorePrefix sel s
      = if leastDoc s (nextEssential maxScorePrefix s) = kNoMoreDocs then none
        else
          let c := roundResult maxScorePrefix sel s (nextEssential maxScorePrefix s)
            (leastDoc s (nextEssential maxScorePrefix s))
          some ⟨c.scorers, c.windowScores, c.heap, nextEssential maxScorePrefix s⟩ := rfl

/-- **Inversion of a round.** -/
theorem searchWindow_eq_some {s s' : SearchState Q}
    (h : searchWindow maxScorePrefix sel s = some s') :
    s'.firstEssential = nextEssential maxScorePrefix s ∧
      leastDoc s s'.firstEssential ≠ kNoMoreDocs ∧
      ∃ c : CandidateState Q,
        c = roundResult maxScorePrefix sel s s'.firstEssential (leastDoc s s'.firstEssential) ∧
          s'.scorers = c.scorers ∧ s'.windowScores = c.windowScores ∧ s'.heap = c.heap := by
  rw [searchWindow_eq] at h
  split at h
  · cases h
  · rename_i hleast
    obtain rfl := Option.some.inj h
    exact ⟨rfl, hleast, _, rfl, rfl, rfl, rfl⟩

theorem searchWindow_eq_none {s : SearchState Q} (h : searchWindow maxScorePrefix sel s = none) :
    leastDoc s (nextEssential maxScorePrefix s) = kNoMoreDocs := by
  rw [searchWindow_eq] at h
  split at h
  · assumption
  · cases h

omit [Ring F] in
/-- A scorer whose document is the least one. -/
theorem exists_leastDoc {s : SearchState Q} {fe : ℕ} (h : leastDoc s fe ≠ kNoMoreDocs) :
    ∃ i x, fe ≤ i ∧ s.scorers[i]? = some x ∧ x.docId = leastDoc s fe := by
  obtain ⟨x, hx, hdoc⟩ := (minDocId_spec (s.scorers.drop fe)).2.2 h
  obtain ⟨i, hi⟩ := List.mem_iff_getElem?.mp hx
  rw [List.getElem?_drop] at hi
  exact ⟨fe + i, x, Nat.le_add_right _ _, hi, hdoc⟩

omit [Ring F] in
theorem leastDoc_nonneg {s : SearchState Q} (hs : ∀ x ∈ s.scorers, x.Walks) {fe : ℕ}
    (h : leastDoc s fe ≠ kNoMoreDocs) : 0 ≤ leastDoc s fe := by
  obtain ⟨i, x, -, hi, hdoc⟩ := exists_leastDoc h
  have hx := hs x (List.mem_of_getElem? hi)
  rcases hx.docId_cases with ⟨-, hend⟩ | ⟨-, -, -, -, hmem⟩
  · exact absurd (hdoc.symm.trans hend) h
  · rw [← hdoc]
    exact (hx.range _ hmem).1

/-- **A round with an exact window end** moves cursors within the window, and every essential one
past it. -/
theorem searchWindow_moves {s s' : SearchState Q} (hs : ∀ x ∈ s.scorers, x.Walks)
    (h : searchWindow maxScorePrefix sel s = some s')
    (hexact : windowEndOf (leastDoc s s'.firstEssential) < 2 ^ 31) :
    AllMove (windowEndOf (leastDoc s s'.firstEssential)) s.scorers s'.scorers ∧
      ∀ i x, s'.firstEssential ≤ i → s.scorers[i]? = some x → ∃ y, s'.scorers[i]? = some y ∧
        windowEndOf (leastDoc s s'.firstEssential) ≤ y.docId := by
  obtain ⟨-, hleast, c, hc, hscorers, -, -⟩ := searchWindow_eq_some h
  have hnonneg := leastDoc_nonneg hs hleast
  obtain ⟨hafter, hlast, hcap, hpos⟩ := windowEndOf_spec hnonneg
  obtain ⟨i, x, hi, hx, -⟩ := exists_leastDoc hleast
  generalize s'.firstEssential = fe at *
  generalize leastDoc s fe = least at *
  have hmax : windowEndOf least ≤ kNoMoreDocs := (hcap (hlast.mp hexact)).trans (by decide)
  rw [roundResult, toIdx_of_lt hpos hexact] at hc
  have hessential := scoreEssentialTerms_moves (windowBaseOf least) hmax
    (fun y (hy : y ∈ s.scorers.drop fe) => hs y (List.mem_of_mem_drop hy))
    ⟨s.windowScores, List.replicate kBitmapWords 0⟩
  generalize scoreEssentialTerms (windowBaseOf least) (windowEndOf least) (s.scorers.drop fe)
    ⟨s.windowScores, List.replicate kBitmapWords 0⟩ = scored at *
  have hscored : AllMove (windowEndOf least) s.scorers (s.scorers.take fe ++ scored.1) := by
    have htake : AllMove (windowEndOf least) (s.scorers.take fe) (s.scorers.take fe) :=
      allMove_self (fun y hy => hs y (List.mem_of_mem_take hy)) _
    have hdrop : AllMove (windowEndOf least) (s.scorers.drop fe) scored.1 :=
      hessential.imp fun _ _ hm => hm.1
    have hboth : AllMove (windowEndOf least) (s.scorers.take fe ++ s.scorers.drop fe)
        (s.scorers.take fe ++ scored.1) := List.rel_append htake hdrop
    rwa [List.take_append_drop] at hboth
  obtain ⟨hmoves, hkept⟩ := evaluateWindowCandidates_moves (windowBaseOf least) fe maxScorePrefix
    sel scored.2.bitmap (hscored.walks hs) scored.2.windowScores s.heap
  have hlength : (s.scorers.take fe).length = fe := by
    rw [List.length_take]
    have hlt := (List.getElem?_eq_some_iff.mp hx).1
    omega
  rw [← hc, ← hscorers] at hmoves hkept
  rw [List.drop_left' hlength] at hkept
  refine ⟨hscored.trans hmoves, fun j y hj hy => ?_⟩
  obtain ⟨k, rfl⟩ := Nat.exists_eq_add_of_le hj
  rw [← List.getElem?_drop] at hy ⊢
  rw [hkept]
  have hlt := (List.getElem?_eq_some_iff.mp hy).1
  have hlt' := hlt
  rw [hessential.length_eq] at hlt'
  have hpast := (List.forall₂_iff_get.mp hessential).2 k hlt hlt'
  exact ⟨_, List.getElem?_eq_getElem hlt', hpast.2⟩

/-! ### Postings left -/

/-- The postings a scorer has left. -/
def remaining (s : DirectTermScorer F) : ℕ := s.docIds.length - s.currentIndex.toNat

def postingsLeft (scorers : List (DirectTermScorer F)) : ℕ := (scorers.map remaining).sum

omit [Ring F] [LinearOrder F] in
theorem DirectTermScorer.Walks.remaining_le {s s' : DirectTermScorer F} (hs : s.Walks) {p : ℤ}
    (h : Moves p s s') : remaining s' ≤ remaining s ∧
      (s.docId < s'.docId → remaining s' < remaining s) := by
  have hforward := h.forward
  obtain ⟨c, hc, hle⟩ := hs.placed
  obtain ⟨c', rfl, hle'⟩ := h.moved
  have hcursor : s.currentIndex ≤ (c' : ℤ) := hforward
  have hleft : remaining (s.withIndex c') = s.docIds.length - c' := rfl
  have hleft' : remaining s = s.docIds.length - c := by
    rw [remaining, hc, Int.toNat_natCast]
  rw [hleft, hleft']
  refine ⟨by omega, fun hlt => ?_⟩
  -- standing at another document, the cursor has moved
  have hne : c ≠ c' := by
    rintro rfl
    have hsame : s.withIndex c = s := by
      rw [← hc]
      rfl
    rw [hsame] at hlt
    exact lt_irrefl _ hlt
  omega

omit [Ring F] [LinearOrder F] in
theorem AllMove.postingsLeft_le {scorers scorers' : List (DirectTermScorer F)} {p : ℤ}
    (h : AllMove p scorers scorers') (hs : ∀ s ∈ scorers, s.Walks) :
    postingsLeft scorers' ≤ postingsLeft scorers ∧
      ∀ (i : ℕ) (x y : DirectTermScorer F), scorers[i]? = some x → scorers'[i]? = some y →
        x.docId < y.docId → postingsLeft scorers' < postingsLeft scorers := by
  induction h with
  | nil => exact ⟨le_rfl, fun i x y hx => by simp at hx⟩
  | @cons s s' scorers scorers' hmoves _ ih =>
      obtain ⟨hfirst, hrest⟩ := List.forall_mem_cons.mp hs
      obtain ⟨hle, hlt⟩ := hfirst.remaining_le hmoves
      obtain ⟨ihle, ihlt⟩ := ih hrest
      have hsum : postingsLeft (s :: scorers) = remaining s + postingsLeft scorers := List.sum_cons
      have hsum' : postingsLeft (s' :: scorers') = remaining s' + postingsLeft scorers' :=
        List.sum_cons
      rw [hsum, hsum']
      refine ⟨Nat.add_le_add hle ihle, fun i x y hx hy hdoc => ?_⟩
      cases i with
      | zero =>
          obtain rfl := Option.some.inj hx
          obtain rfl := Option.some.inj hy
          exact Nat.add_lt_add_of_lt_of_le (hlt hdoc) ihle
      | succ i => exact Nat.add_lt_add_of_le_of_lt hle (ihlt i x y hx hy hdoc)

/-- What makes a round advance: the end of its window does not overflow, and an essential
scorer that stands in the window is moved past it. -/
def RoundAdvances (maxScorePrefix : List F) (sel : Option IDSelector) (s : SearchState Q) : Prop :=
  ∀ s', searchWindow maxScorePrefix sel s = some s' →
    windowEndOf (leastDoc s s'.firstEssential) < 2 ^ 31 ∧
      ∃ i x y, s'.firstEssential ≤ i ∧ s.scorers[i]? = some x ∧ s'.scorers[i]? = some y ∧
        x.docId < windowEndOf (leastDoc s s'.firstEssential) ∧
        windowEndOf (leastDoc s s'.firstEssential) ≤ y.docId

/-- Scorers all of whose documents come before the last window. -/
def BeforeLastWindow (scorers : List (DirectTermScorer F)) : Prop :=
  ∀ x ∈ scorers, x.Walks ∧ ∀ d ∈ x.docIds, d < kLastWindow

omit [Ring F] [LinearOrder F] in
theorem BeforeLastWindow.moves {scorers scorers' : List (DirectTermScorer F)} {p : ℤ}
    (h : BeforeLastWindow scorers) (hm : AllMove p scorers scorers') :
    BeforeLastWindow scorers' := by
  induction hm with
  | nil => exact h
  | cons hmoves _ ih =>
      obtain ⟨⟨hwalks, hdocs⟩, hrest⟩ := List.forall_mem_cons.mp h
      refine List.forall_mem_cons.mpr ⟨⟨hwalks.moves hmoves, ?_⟩, ih hrest⟩
      rw [hmoves.docIds_eq]
      exact hdocs

/-- **Progress.**  Before the last window every round advances and leaves fewer postings. -/
theorem BeforeLastWindow.round {s : SearchState Q} (h : BeforeLastWindow s.scorers) :
    RoundAdvances maxScorePrefix sel s ∧
      ∀ s', searchWindow maxScorePrefix sel s = some s' →
        BeforeLastWindow s'.scorers ∧ postingsLeft s'.scorers < postingsLeft s.scorers := by
  have hs : ∀ x ∈ s.scorers, x.Walks := fun x hx => (h x hx).1
  have key : ∀ s', searchWindow maxScorePrefix sel s = some s' →
      (windowEndOf (leastDoc s s'.firstEssential) < 2 ^ 31 ∧
        ∃ i x y, s'.firstEssential ≤ i ∧ s.scorers[i]? = some x ∧ s'.scorers[i]? = some y ∧
          x.docId < windowEndOf (leastDoc s s'.firstEssential) ∧
          windowEndOf (leastDoc s s'.firstEssential) ≤ y.docId) ∧
        BeforeLastWindow s'.scorers ∧ postingsLeft s'.scorers < postingsLeft s.scorers := by
    intro s' hstep
    obtain ⟨-, hleast, -⟩ := searchWindow_eq_some hstep
    obtain ⟨i, x, hi, hx, hdoc⟩ := exists_leastDoc hleast
    obtain ⟨hwalks, hdocs⟩ := h x (List.mem_of_getElem? hx)
    obtain ⟨hafter, hlast, -, -⟩ := windowEndOf_spec (leastDoc_nonneg hs hleast)
    have hexact : windowEndOf (leastDoc s s'.firstEssential) < 2 ^ 31 := by
      apply hlast.mpr
      rcases hwalks.docId_cases with ⟨-, hend⟩ | ⟨-, -, -, -, hmem⟩
      · exact absurd (hdoc.symm.trans hend) hleast
      · rw [← hdoc]
        exact hdocs _ hmem
    obtain ⟨hmoves, hpast⟩ := searchWindow_moves hs hstep hexact
    obtain ⟨y, hy, hyend⟩ := hpast i x hi hx
    have hin : x.docId < windowEndOf (leastDoc s s'.firstEssential) := hdoc.trans_lt hafter
    exact ⟨⟨hexact, i, x, y, hi, hx, hy, hin, hyend⟩, h.moves hmoves,
      (hmoves.postingsLeft_le hs).2 i x y hx hy (hin.trans_le hyend)⟩
  exact ⟨fun s' hstep => (key s' hstep).1, fun s' hstep => (key s' hstep).2⟩

end Round

/-! ### A query -/

section Query

variable [Ring F] [LinearOrder F]

/-- The postings of a list as the search may find them: ascending ids of documents. -/
def AscendingIds (l : InvertedList F) : Prop :=
  l.docIds.Pairwise (· < ·) ∧ ∀ d ∈ l.docIds, 0 ≤ d ∧ d ≤ 2 ^ 31 - 2

omit [Ring F] [LinearOrder F] in
theorem AscendingIds.length_lt {l : InvertedList F} (h : AscendingIds l) :
    l.docIds.length < 2 ^ 31 := by
  have hnodup : l.docIds.Nodup := h.1.imp fun hlt => ne_of_lt hlt
  have hsub : l.docIds.toFinset ⊆ Finset.Ico 0 (2 ^ 31 - 1) := by
    intro d hd
    obtain ⟨hlow, hhigh⟩ := h.2 d (List.mem_toFinset.mp hd)
    exact Finset.mem_Ico.mpr ⟨hlow, by omega⟩
  have hcard := Finset.card_le_card hsub
  rw [List.toFinset_card_of_nodup hnodup, Int.card_Ico] at hcard
  omega

omit [LinearOrder F] in
/-- A fresh scorer stands at the first document of its list. -/
theorem buildScorer_walks {lists : List (InvertedList F)} (hlists : ∀ l ∈ lists, AscendingIds l)
    (maxTermScores : List F) (term : ℕ) (w : F) :
    (buildScorer lists maxTermScores term w).Walks ∧
      (buildScorer lists maxTermScores term w).docIds
        = (lists[term]?.elim [] InvertedList.docIds) ∧
      (buildScorer lists maxTermScores term w).queryWeight = w ∧
      (buildScorer lists maxTermScores term w).currentIndex = 0 := by
  unfold buildScorer
  rcases hl : lists[term]? with - | l
  · exact ⟨⟨.nil, by simp, rfl, 0, rfl, Nat.zero_le _⟩, rfl, rfl, rfl⟩
  · have hascending := hlists l (List.mem_of_getElem? hl)
    refine ⟨⟨hascending.1, fun d hd => ?_, ?_, 0, rfl, Nat.zero_le _⟩, rfl, rfl, rfl⟩
    · obtain ⟨hlow, hhigh⟩ := hascending.2 d hd
      exact ⟨hlow, by unfold kNoMoreDocs; omega⟩
    · exact toIdx_eq_self_iff.mpr hascending.length_lt

/-- The state the main loop starts from. -/
def initialState {Q : ItemQueue F ℤ} (scorers : List (DirectTermScorer F)) (heap : TopKHolder Q) :
    SearchState Q :=
  ⟨scorers, List.replicate kScoreWindowSize 0, heap, 0⟩

/-- What makes a query end: with enough fuel it gives an answer, and every state its main
loop reaches advances. -/
def QueryEnds (Q : ItemQueue F ℤ) (sort : StdSort) (lists : List (InvertedList F))
    (maxTermScores : List F) (indices : List ℕ) (values : List F) (k : ℤ)
    (sel : Option IDSelector) : Prop :=
  (∃ enough, ∀ fuel, enough ≤ fuel → InvertedIndex.singleQuery Q sort fuel lists maxTermScores
      (List.replicate kScoreWindowSize 0) indices values k sel ≠ none) ∧
    ∀ heap, TopKHolder.new Q k = .ok heap → ∀ s,
      Relation.ReflTransGen
          (fun s s' => searchWindow (buildScorers sort indices values lists maxTermScores).2 sel s
            = some s')
          (initialState (buildScorers sort indices values lists maxTermScores).1 heap) s →
        RoundAdvances (buildScorers sort indices values lists maxTermScores).2 sel s

/-- The scorers of a query are those of its terms. -/
theorem mem_buildScorers {sort : StdSort} {indices : List ℕ} {values : List F}
    {lists : List (InvertedList F)} {maxTermScores : List F} {x : DirectTermScorer F} :
    x ∈ (buildScorers sort indices values lists maxTermScores).1 ↔
      ∃ q ∈ indices.zip values, buildScorer lists maxTermScores q.1 q.2 = x := by
  rw [buildScorers, (sort.perm _ _).mem_iff, List.mem_map]

/-- Without an answer the main loop has run out of fuel. -/
theorem singleQuery_ne_none {Q : ItemQueue F ℤ} {sort : StdSort} {fuel : ℕ}
    {lists : List (InvertedList F)} {maxTermScores windowScores : List F} {indices : List ℕ}
    {values : List F} {k : ℤ} {sel : Option IDSelector}
    (h : ∀ heap, TopKHolder.new Q k = .ok heap →
      Loop.iterate (searchWindow (buildScorers sort indices values lists maxTermScores).2 sel) fuel
        ⟨(buildScorers sort indices values lists maxTermScores).1, windowScores, heap, 0⟩ ≠ none) :
    InvertedIndex.singleQuery Q sort fuel lists maxTermScores windowScores indices values k sel
      ≠ none := by
  unfold InvertedIndex.singleQuery
  split
  · split
    · exact Option.some_ne_none _
    · exact Option.some_ne_none _
  · rcases hnew : TopKHolder.new Q k with e | heap
    · exact Option.some_ne_none _
    · dsimp only
      rcases hloop : Loop.iterate (searchWindow
        (buildScorers sort indices values lists maxTermScores).2 sel) fuel
        ⟨(buildScorers sort indices values lists maxTermScores).1, windowScores, heap, 0⟩ with - | s
      · exact absurd hloop (h heap hnew)
      · exact Option.some_ne_none _

/-- **Termination.**  A query whose lists end before the last window advances in every round and
gives an answer. -/
theorem queryEnds_of_beforeLastWindow (Q : ItemQueue F ℤ) (sort : StdSort)
    {lists : List (InvertedList F)} (hlists : ∀ l ∈ lists, AscendingIds l) (maxTermScores : List F)
    {indices : List ℕ}
    (hlast : ∀ term ∈ indices, ∀ l, lists[term]? = some l → ∀ d ∈ l.docIds, d < kLastWindow)
    (values : List F) (k : ℤ) (sel : Option IDSelector) :
    QueryEnds Q sort lists maxTermScores indices values k sel := by
  have hstart : BeforeLastWindow (buildScorers sort indices values lists maxTermScores).1 := by
    intro x hx
    obtain ⟨q, hq, rfl⟩ := mem_buildScorers.mp hx
    obtain ⟨hwalks, hdocs, -, -⟩ := buildScorer_walks hlists maxTermScores q.1 q.2
    refine ⟨hwalks, ?_⟩
    rw [hdocs]
    rcases hl : lists[q.1]? with - | l
    · exact fun d hd => absurd hd List.not_mem_nil
    · exact hlast q.1 (List.of_mem_zip hq).1 l hl
  generalize hbuilt : buildScorers sort indices values lists maxTermScores = built at hstart
  refine ⟨⟨postingsLeft built.1 + 1, fun fuel hfuel => ?_⟩, fun heap _ s hreach => ?_⟩
  · apply singleQuery_ne_none
    intro heap _
    rw [hbuilt]
    -- the postings left are the rank
    obtain ⟨res, -, hres, -, -⟩ := Loop.iterate_of_rank
      (fun r (s : SearchState Q) => BeforeLastWindow s.scorers ∧ r = postingsLeft s.scorers)
      (fun r s s' ⟨hs, hr⟩ hstep => by
        obtain ⟨hs', hlt⟩ := hs.round.2 s' hstep
        exact ⟨_, hr ▸ hlt, hs', rfl⟩)
      fuel (postingsLeft built.1) (initialState built.1 heap) ⟨hstart, rfl⟩ hfuel
    intro hnone
    cases hres.symm.trans hnone
  · rw [hbuilt] at hreach ⊢
    have hkept : BeforeLastWindow s.scorers := by
      induction hreach with
      | refl => exact hstart
      | tail _ hstep ih => exact (ih.round.2 _ hstep).1
    exact hkept.round.1

/-! ### Stuck in the last window -/

/-- A query all of whose weights are zero offers no document: its heap stays empty, its window
clear, and no cursor has passed a document of the last window. -/
structure Quiet {Q : ItemQueue F ℤ} (heap : TopKHolder Q) (lists : List (List ℤ))
    (s : SearchState Q) : Prop where
  docIds : s.scorers.map DirectTermScorer.docIds = lists
  heap_eq : s.heap = heap
  clear : s.windowScores = List.replicate kScoreWindowSize 0
  essential : s.firstEssential = 0
  walks : ∀ x ∈ s.scorers, x.Walks
  weightless : ∀ x ∈ s.scorers, x.queryWeight = 0
  behind : ∀ x ∈ s.scorers, ∀ j : ℕ, (j : ℤ) < x.currentIndex → x.docIds.getD j 0 < kLastWindow

omit [LinearOrder F] in
/-- Without weight nothing is added to the window. -/
theorem scorePostings_clear (base stop : ℤ) (fuel : ℕ) {s : DirectTermScorer F}
    (hs : s.queryWeight = 0) (w : ScoreWindow F)
    (hw : w.windowScores = List.replicate kScoreWindowSize 0) :
    (scorePostings base stop fuel s w).2.windowScores = List.replicate kScoreWindowSize 0 := by
  induction fuel generalizing s w with
  | zero => exact hw
  | succ fuel ih =>
      have hnext : s.nextDoc.queryWeight = 0 := hs
      rw [scorePostings]
      dsimp only
      split
      · exact hw
      · split
        · exact hw
        · split
          · exact ih hnext w hw
          · apply ih hnext
            dsimp only
            rw [hs, hw]
            simp only [zero_mul, add_zero]
            exact List.modify_id _ _

omit [LinearOrder F] in
theorem scoreEssentialTerms_clear (base stop : ℤ) {scorers : List (DirectTermScorer F)}
    (hs : ∀ s ∈ scorers, s.queryWeight = 0) (w : ScoreWindow F)
    (hw : w.windowScores = List.replicate kScoreWindowSize 0) :
    (scoreEssentialTerms base stop scorers w).2.windowScores
      = List.replicate kScoreWindowSize 0 := by
  induction scorers generalizing w with
  | nil => exact hw
  | cons s scorers ih =>
      obtain ⟨hfirst, hrest⟩ := List.forall_mem_cons.mp hs
      exact ih hrest _ (scorePostings_clear base stop _ hfirst w hw)

/-- A clear slot is passed over. -/
theorem evaluateWindowCandidates_clear {Q : ItemQueue F ℤ} {base : ℤ} {maxScorePrefix : List F}
    (hnoPrefix : maxScorePrefix.getD 0 0 = 0) (sel : Option IDSelector) (bitmap : List (BitVec 64))
    (scorers : List (DirectTermScorer F)) {heap : TopKHolder Q} (hheap : heap.full = false) :
    evaluateWindowCandidates 0 base maxScorePrefix sel bitmap scorers
        (List.replicate kScoreWindowSize 0) heap
      = ⟨scorers, List.replicate kScoreWindowSize 0, heap, 0⟩ := by
  rw [evaluateWindowCandidates, BitSet.foldMarked_eq, hheap, if_neg Bool.false_ne_true]
  generalize (List.range (64 * kBitmapWords)).filter (BitSet.isMarked bitmap) = slots
  induction slots with
  | nil => rfl
  | cons slot slots ih =>
      have hzero : (List.replicate kScoreWindowSize (0 : F)).getD slot 0 = 0 := by
        rw [List.getD_eq_getElem?_getD, List.getElem?_replicate]
        split <;> rfl
      have hset : (List.replicate kScoreWindowSize (0 : F)).set slot 0
          = List.replicate kScoreWindowSize 0 := by
        rw [List.set_replicate_self]
      have hslot : evaluateSlot 0 base maxScorePrefix sel
          (⟨scorers, List.replicate kScoreWindowSize 0, heap, 0⟩ : CandidateState Q) slot
          = ⟨scorers, List.replicate kScoreWindowSize 0, heap, 0⟩ := by
        unfold evaluateSlot
        dsimp only
        rw [hzero, hset, hnoPrefix, add_zero, if_pos le_rfl]
      rw [List.foldl_cons, hslot]
      exact ih

/-- **A quiet round** that advances is followed by a quiet state. -/
theorem Quiet.round {Q : ItemQueue F ℤ} {heap : TopKHolder Q} {lists : List (List ℤ)} (hheap : heap.full = false)
    {maxScorePrefix : List F} (hnoPrefix : maxScorePrefix.getD 0 0 = 0) {sel : Option IDSelector}
    {s s' : SearchState Q} (h : Quiet heap lists s) (hround : RoundAdvances maxScorePrefix sel s)
    (hstep : searchWindow maxScorePrefix sel s = some s') : Quiet heap lists s' := by
  obtain ⟨hexact, -⟩ := hround s' hstep
  obtain ⟨hfe, hleast, c, hc, hscorers, hscores, hheap'⟩ := searchWindow_eq_some hstep
  have hnext : s'.firstEssential = 0 := by
    rw [hfe, nextEssential, h.heap_eq, hheap, if_neg Bool.false_ne_true, h.essential]
  obtain ⟨hmoves, -⟩ := searchWindow_moves h.walks hstep hexact
  obtain ⟨-, hlast, hcap, -⟩ := windowEndOf_spec (leastDoc_nonneg h.walks hleast)
  have hwithin := hcap (hlast.mp hexact)
  -- nothing was offered, and the window is clear again
  have hclear := scoreEssentialTerms_clear (windowBaseOf (leastDoc s s'.firstEssential))
    (toIdx (windowEndOf (leastDoc s s'.firstEssential)))
    (fun x (hx : x ∈ s.scorers.drop s'.firstEssential) => h.weightless x (List.mem_of_mem_drop hx))
    ⟨s.windowScores, List.replicate kBitmapWords 0⟩ h.clear
  rw [roundResult] at hc
  rw [hclear, hnext, h.heap_eq, evaluateWindowCandidates_clear hnoPrefix sel _ _ hheap] at hc
  refine ⟨hmoves.map_docIds.trans h.docIds, hheap'.trans (by rw [hc]), hscores.trans (by rw [hc]),
    hnext, hmoves.walks h.walks, ?_, ?_⟩
  · intro y hy
    obtain ⟨i, hi, rfl⟩ := List.mem_iff_getElem.mp hy
    have hlt : i < s.scorers.length := by rwa [hmoves.length_eq]
    have hmove := (List.forall₂_iff_get.mp hmoves).2 i hlt hi
    exact hmove.queryWeight_eq.trans (h.weightless _ (List.getElem_mem hlt))
  · intro y hy j hj
    obtain ⟨i, hi, rfl⟩ := List.mem_iff_getElem.mp hy
    have hlt : i < s.scorers.length := by rwa [hmoves.length_eq]
    have hmove := (List.forall₂_iff_get.mp hmoves).2 i hlt hi
    have hdocs : (s'.scorers[i]).docIds = (s.scorers[i]).docIds := hmove.docIds_eq
    rw [hdocs]
    rcases lt_or_ge (j : ℤ) (s.scorers[i]).currentIndex with hbefore | hafter
    · exact h.behind _ (List.getElem_mem hlt) j hbefore
    · exact (hmove.passed j hafter hj).trans_le hwithin

/-- A quiet state in which the loop breaks has no document of the last window. -/
theorem Quiet.finish {Q : ItemQueue F ℤ} {heap : TopKHolder Q} {lists : List (List ℤ)}
    (hheap : heap.full = false) {maxScorePrefix : List F} {sel : Option IDSelector}
    {s : SearchState Q} (h : Quiet heap lists s) (hbreak : searchWindow maxScorePrefix sel s = none) :
    ∀ docIds ∈ lists, ∀ d ∈ docIds, d < kLastWindow := by
  have hleast := searchWindow_eq_none hbreak
  rw [nextEssential, h.heap_eq, hheap, if_neg Bool.false_ne_true, h.essential, leastDoc,
    List.drop_zero] at hleast
  rw [← h.docIds, List.forall_mem_map]
  intro x hx d hd
  have hend : kNoMoreDocs ≤ x.docId := hleast ▸ (minDocId_spec s.scorers).1 x hx
  rcases (h.walks x hx).docId_cases with ⟨hcursor, -⟩ | ⟨-, -, -, -, hmem⟩
  · obtain ⟨j, hj, rfl⟩ := List.mem_iff_getElem.mp hd
    have hbehind := h.behind x hx j (by omega)
    rwa [List.getD_eq_getElem _ _ hj] at hbehind
  · exact absurd ((h.walks x hx).range _ hmem).2 (not_lt.mpr hend)

theorem exists_iterate_of_singleQuery {Q : ItemQueue F ℤ} {sort : StdSort} {fuel : ℕ}
    {lists : List (InvertedList F)} {maxTermScores windowScores : List F} {indices : List ℕ}
    {values : List F} {k : ℤ} {sel : Option IDSelector} {heap : TopKHolder Q}
    (hindices : indices ≠ []) (hnew : TopKHolder.new Q k = .ok heap)
    (h : InvertedIndex.singleQuery Q sort fuel lists maxTermScores windowScores indices values k sel
      ≠ none) :
    ∃ s, Loop.iterate (searchWindow (buildScorers sort indices values lists maxTermScores).2 sel)
      fuel ⟨(buildScorers sort indices values lists maxTermScores).1, windowScores, heap, 0⟩
        = some s := by
  apply Option.ne_none_iff_exists'.mp
  intro hloop
  apply h
  rw [InvertedIndex.singleQuery, if_neg hindices, hnew]
  dsimp only
  rw [hloop]

omit [Ring F] [LinearOrder F] in
theorem mem_zip_replicate {indices : List ℕ} {term : ℕ} (h : term ∈ indices) (w : F) :
    (term, w) ∈ indices.zip (List.replicate indices.length w) := by
  induction indices with
  | nil => cases h
  | cons first indices ih =>
      rw [List.length_cons, List.replicate_succ, List.zip_cons_cons]
      rcases List.mem_cons.mp h with rfl | h
      · exact List.mem_cons_self
      · exact List.mem_cons_of_mem _ (ih h)

/-- **Divergence.**  If every query over the terms ends, none of their lists reaches the last
window. -/
theorem beforeLastWindow_of_queryEnds {Q : ItemQueue F ℤ} {sort : StdSort}
    {lists : List (InvertedList F)} (hlists : ∀ l ∈ lists, AscendingIds l)
    (maxTermScores : List F) {indices : List ℕ}
    (h : QueryEnds Q sort lists maxTermScores indices (List.replicate indices.length 0) 1 none) :
    ∀ term ∈ indices, ∀ l, lists[term]? = some l → ∀ d ∈ l.docIds, d < kLastWindow := by
  intro term hterm l hl
  obtain ⟨⟨enough, hends⟩, hrounds⟩ := h
  obtain ⟨heap, hnew⟩ : ∃ heap, TopKHolder.new Q 1 = .ok heap := ⟨_, rfl⟩
  have hheap : heap.full = false := by
    have hempty : heap.items = 0 := by
      cases hnew
      exact Q.items_empty
    rw [Bool.eq_false_iff, Ne, (TopKHolder.new_holds hnew).full_iff, hempty, Multiset.card_zero]
    exact Nat.zero_ne_one
  have hquery : ∀ x ∈ (buildScorers sort indices (List.replicate indices.length 0) lists
      maxTermScores).1, x.Walks ∧ x.queryWeight = 0 ∧ x.currentIndex = 0 := by
    intro x hx
    obtain ⟨q, hq, rfl⟩ := mem_buildScorers.mp hx
    obtain ⟨hwalks, -, hweight, hcursor⟩ := buildScorer_walks hlists maxTermScores q.1 q.2
    exact ⟨hwalks, hweight.trans (List.eq_of_mem_replicate (List.of_mem_zip hq).2), hcursor⟩
  have hmem : l.docIds ∈ ((buildScorers sort indices (List.replicate indices.length 0)
      lists maxTermScores).1.map DirectTermScorer.docIds) := by
    have hzip : (term, (0 : F)) ∈ indices.zip (List.replicate indices.length 0) :=
      mem_zip_replicate hterm 0
    refine List.mem_map.mpr ⟨_, mem_buildScorers.mpr ⟨_, hzip, rfl⟩, ?_⟩
    rw [(buildScorer_walks hlists maxTermScores term 0).2.1, hl]
    rfl
  obtain ⟨r, hr⟩ := exists_iterate_of_singleQuery (List.ne_nil_of_mem hterm) hnew
    (hends enough le_rfl)
  have hnoPrefix : (buildScorers sort indices (List.replicate indices.length 0) lists
      maxTermScores).2.getD 0 0 = 0 := by
    rw [buildScorers, getD_scanl_add _ _ (Nat.zero_le _), zero_add, maxBound, List.take_zero]
    rfl
  obtain ⟨hreach, hbreak⟩ := Loop.reaches_of_iterate hr
  have hquiet : Quiet heap ((buildScorers sort indices (List.replicate indices.length 0) lists
      maxTermScores).1.map DirectTermScorer.docIds) r := by
    clear hr hbreak
    induction hreach with
    | refl =>
        exact ⟨rfl, rfl, rfl, rfl, fun x hx => (hquery x hx).1, fun x hx => (hquery x hx).2.1,
          fun x hx j hj => by rw [(hquery x hx).2.2] at hj; omega⟩
    | tail hreach hstep ih =>
        exact Quiet.round hheap hnoPrefix ih (hrounds heap hnew _ hreach) hstep
  exact hquiet.finish hheap hbreak _ hmem

/-- **Termination of a query**, exactly.  Every query over the given terms ends, with no overflow
on the way and an essential scorer past the window in each round, if and only if no list of the
terms has a document in the last window of the id range. -/
theorem singleQuery_ends_iff {lists : List (InvertedList F)} (hlists : ∀ l ∈ lists, AscendingIds l)
    (maxTermScores : List F) (indices : List ℕ) :
    (∀ (Q : ItemQueue F ℤ) (sort : StdSort) (values : List F) (k : ℤ) (sel : Option IDSelector),
      QueryEnds Q sort lists maxTermScores indices values k sel) ↔
    ∀ term ∈ indices, ∀ l, lists[term]? = some l → ∀ d ∈ l.docIds, d < 2 ^ 31 - kScoreWindowSize :=
  ⟨fun h => beforeLastWindow_of_queryEnds hlists maxTermScores
      (h (sortedQueue TopKItem.score) insertionSort _ 1 none),
    fun h Q sort values k sel =>
      queryEnds_of_beforeLastWindow Q sort hlists maxTermScores h values k sel⟩

/-- Three lists, the second of them without documents. -/
def threeLists : List (InvertedList ℤ) :=
  [⟨[3, 5000], [1, 2]⟩, ⟨[], []⟩, ⟨[3, 4000, 9000], [1, 1, 4]⟩]

/-- Three windows, and a term without a list. -/
theorem singleQuery_ends_iff_three_lists :
    (∀ (Q : ItemQueue ℤ ℤ) (sort : StdSort) (values : List ℤ) (k : ℤ) (sel : Option IDSelector),
      QueryEnds Q sort threeLists [2, 0, 4] [2, 7, 1, 0] values k sel) ↔
    ∀ term ∈ [2, 7, 1, 0], ∀ l : InvertedList ℤ, threeLists[term]? = some l →
      ∀ d ∈ l.docIds, d < 2 ^ 31 - kScoreWindowSize :=
  singleQuery_ends_iff (by simp [threeLists, AscendingIds]) [2, 0, 4] [2, 7, 1, 0]

/-- **The last document id** starts a window whose end does not fit 32 bits. -/
theorem singleQuery_stuck :
    ¬ QueryEnds (sortedQueue TopKItem.score) insertionSort
      [(⟨[2 ^ 31 - 2], [1]⟩ : InvertedList ℤ)] [1] [0] [1] 1 none := by
  rintro ⟨-, hrounds⟩
  have hround := hrounds _ rfl _ .refl
  have hleast : leastDoc (initialState (buildScorers insertionSort [0] [1]
      [(⟨[2 ^ 31 - 2], [1]⟩ : InvertedList ℤ)] [1]).1
      (⟨1, (sortedQueue TopKItem.score).empty, ⊤⟩ : TopKHolder (sortedQueue _))) 0
        = 2 ^ 31 - 2 := by decide
  have hstep := searchWindow_eq (buildScorers insertionSort [0] [1]
      [(⟨[2 ^ 31 - 2], [1]⟩ : InvertedList ℤ)] [1]).2 none (initialState (buildScorers
      insertionSort [0] [1] [(⟨[2 ^ 31 - 2], [1]⟩ : InvertedList ℤ)] [1]).1
      (⟨1, (sortedQueue TopKItem.score).empty, ⊤⟩ : TopKHolder (sortedQueue _)))
  have hend := (hround _ (hstep.trans (if_neg (by decide)))).1
  have hoverflow : windowEndOf (2 ^ 31 - 2) < 2 ^ 31 := hleast ▸ hend
  exact absurd hoverflow (by decide)

end Query

end Nsparse
