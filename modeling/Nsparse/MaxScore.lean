/-
Nsparse/MaxScore.lean

The windowed MaxScore search is exact.

`score T doc` is the sum of the terms' contributions to a document and `candidates`
collects the documents a search may return, each with that score.  The search never
looks at most of them, so the argument is an invariant over how far it has come:
with every document before `p` accounted for, the heap holds a top `k` of the
candidates before `p`, and the non-essential terms' maxima together stay below the
heap's least score (`Searched`).  A document that no essential term proposes cannot
then enter the heap, a candidate that is given up early could not have entered it,
and every other candidate is offered with its exact score.

Steps: one candidate (`evaluateSlot_spec`), one window (`evaluateWindowCandidates_spec`),
one round of the main loop (`searchWindow_spec`), the whole loop (`search_spec`).
-/
import Nsparse.TermScorer

namespace Nsparse

open DirectTermScorer

variable {F : Type}

theorem minDocId_spec (scorers : List (DirectTermScorer F)) :
    (∀ s ∈ scorers, minDocId scorers ≤ s.docId) ∧ minDocId scorers ≤ kNoMoreDocs ∧
      (minDocId scorers ≠ kNoMoreDocs → ∃ s ∈ scorers, s.docId = minDocId scorers) := by
  have key : ∀ (scorers : List (DirectTermScorer F)) (least : ℤ),
      let m := scorers.foldl (fun least s => if s.docId < least then s.docId else least) least
      (∀ s ∈ scorers, m ≤ s.docId) ∧ m ≤ least ∧ (m ≠ least → ∃ s ∈ scorers, s.docId = m) := by
    intro scorers
    induction scorers with
    | nil => intro least; simp
    | cons s ss ih =>
        intro least
        obtain ⟨least', hleast', hor⟩ : ∃ least', (if s.docId < least then s.docId else least)
            = least' ∧ (least' = s.docId ∧ s.docId < least ∨ least' = least ∧ least ≤ s.docId) := by
          split <;> exact ⟨_, rfl, by omega⟩
        simp only [List.foldl_cons, List.forall_mem_cons, List.exists_mem_cons_iff, hleast']
        have hle := (ih least').2.1
        refine ⟨⟨by omega, (ih least').1⟩, by omega, fun hne => ?_⟩
        by_cases heq : ss.foldl (fun (least : ℤ) (s : DirectTermScorer F) =>
            if s.docId < least then s.docId else least) least' = least'
        · exact Or.inl (by omega)
        · exact Or.inr ((ih least').2.2 heq)
  exact key scorers kNoMoreDocs

variable [Ring F]

/-! ### Scores and bounds -/

/-- The exact score of a document. -/
def score (T : List (DirectTermScorer F)) (doc : ℤ) : F :=
  (T.map fun t => t.contribution doc).sum

/-- The maxima of the first `i` terms together. -/
def maxBound (T : List (DirectTermScorer F)) (i : ℕ) : F :=
  ((T.take i).map fun t => t.maxScore).sum

/-- The prefix sums the search works with. -/
def prefixSums (T : List (DirectTermScorer F)) : List F :=
  T.scanl (fun sum s => sum + s.maxScore) 0

theorem score_eq_take_add_drop (T : List (DirectTermScorer F)) (i : ℕ) (doc : ℤ) :
    score T doc = score (T.take i) doc + score (T.drop i) doc := by
  simp only [score]
  rw [← List.sum_append, ← List.map_append, List.take_append_drop]

theorem getD_scanl_add (T : List (DirectTermScorer F)) (a : F) {i : ℕ} (hi : i ≤ T.length) :
    (T.scanl (fun sum s => sum + s.maxScore) a).getD i 0 = a + maxBound T i := by
  induction T generalizing a i with
  | nil =>
      obtain rfl : i = 0 := by simpa using hi
      simp [maxBound]
  | cons t T ih =>
      cases i with
      | zero => simp [maxBound]
      | succ i =>
          rw [List.scanl_cons, List.getD_cons_succ, ih _ (by simpa using hi)]
          simp [maxBound, add_assoc]

theorem getD_prefixSums {T : List (DirectTermScorer F)} {i : ℕ} (hi : i ≤ T.length) :
    (prefixSums T).getD i 0 = maxBound T i := by
  rw [prefixSums, getD_scanl_add T 0 hi, zero_add]

@[simp] theorem length_prefixSums (T : List (DirectTermScorer F)) :
    (prefixSums T).length = T.length + 1 := by simp [prefixSums]

theorem Cursors.score_drop {T : List (DirectTermScorer F)} {fe : ℕ} {p q : ℤ} {scorers : List (DirectTermScorer F)}
    (h : Cursors T fe p q scorers) (doc : ℤ) :
    score (scorers.drop fe) doc = score (T.drop fe) doc := by
  rw [h.high]
  simp [score, Function.comp_def]

variable [LinearOrder F]

/-! ### Candidates -/

/-- The documents before `p` that a search may return, with their scores. -/
def candidates (T : List (DirectTermScorer F)) (sel : Option IDSelector) (p : ℕ) :
    Multiset (TopKItem F ℤ) :=
  ((List.range p).filter fun d : ℕ => decide (0 < score T d) && IDSelector.passes sel d).map
    fun d : ℕ => (⟨score T d, d⟩ : TopKItem F ℤ)

theorem candidates_succ (T : List (DirectTermScorer F)) (sel : Option IDSelector) (p : ℕ) :
    candidates T sel (p + 1)
      = if 0 < score T p ∧ IDSelector.passes sel p = true then
          ⟨score T p, p⟩ ::ₘ candidates T sel p
        else candidates T sel p := by
  unfold candidates
  rw [List.range_succ, List.filter_append, List.map_append, ← Multiset.coe_add, add_comm]
  by_cases h : 0 < score T p ∧ IDSelector.passes sel p = true
  · rw [if_pos h]
    simp [h.1, h.2]
  · rw [if_neg h]
    have hfalse : (decide (0 < score T p) && IDSelector.passes sel p) = false := by
      rw [Bool.and_eq_false_iff]
      by_contra hcon
      push Not at hcon
      exact h ⟨by simpa using hcon.1, by simpa using hcon.2⟩
    simp [hfalse]

theorem pos_of_mem_candidates {T : List (DirectTermScorer F)} {sel : Option IDSelector} {p : ℕ}
    {x : TopKItem F ℤ} (h : x ∈ candidates T sel p) : 0 < x.score := by
  obtain ⟨d, hd, rfl⟩ := List.mem_map.mp (Multiset.mem_coe.mp h)
  have := (List.mem_filter.mp hd).2
  simp only [Bool.and_eq_true, decide_eq_true_eq] at this
  exact this.1

/-- Documents that score nothing add no candidates. -/
theorem candidates_eq_of_le {T : List (DirectTermScorer F)} {sel : Option IDSelector} {n p : ℕ}
    (hn : ∀ d : ℕ, n ≤ d → score T d = 0) (hp : n ≤ p) :
    candidates T sel p = candidates T sel n := by
  induction p, hp using Nat.le_induction with
  | base => rfl
  | succ p hp ih => rw [candidates_succ, if_neg (by simp [hn p hp]), ih]

/-! ### How far the search has come -/

variable {Q : ItemQueue F ℤ}

/-- The score a document has to beat. -/
def currentThreshold (heap : TopKHolder Q) : F :=
  if heap.full then heap.peekScore.getD 0 else 0

/-- Every document before `p` is accounted for, and a document that only the first `fe`
terms hold cannot enter the heap. -/
structure Searched (T : List (DirectTermScorer F)) (sel : Option IDSelector) (k fe : ℕ)
    (heap : TopKHolder Q) (p : ℕ) : Prop where
  holds : heap.Holds k (candidates T sel p)
  gate : fe = 0 ∨ heap.items.card = k ∧ ∀ y, heap.peekScore = some y → maxBound T fe < y

variable {T : List (DirectTermScorer F)} {sel : Option IDSelector} {k fe p : ℕ}
  {heap : TopKHolder Q}

theorem Searched.full_iff (h : Searched T sel k fe heap p) :
    heap.full = true ↔ heap.items.card = k := h.holds.full_iff

/-- Under a full heap the threshold is the least kept score. -/
theorem Searched.exists_peek (h : Searched T sel k fe heap p) (hf : heap.items.card = k) :
    ∃ y, heap.peekScore = some y ∧ currentThreshold heap = y ∧ 0 < y := by
  obtain ⟨x, -, hpeek, -, hmem, -⟩ := h.holds.exists_top hf
  refine ⟨x.score, hpeek, ?_, ?_⟩
  · rw [currentThreshold, if_pos (h.full_iff.mpr hf), hpeek, Option.getD_some]
  · exact pos_of_mem_candidates (Multiset.mem_of_le h.holds.best.le hmem)

theorem Searched.threshold_of_not_full (h : Searched T sel k fe heap p)
    (hf : heap.items.card ≠ k) : currentThreshold heap = 0 := by
  rw [currentThreshold, if_neg (fun hc => hf (h.full_iff.mp hc))]

theorem Searched.threshold_nonneg (h : Searched T sel k fe heap p) :
    0 ≤ currentThreshold heap := by
  by_cases hf : heap.items.card = k
  · obtain ⟨y, -, hthr, hpos⟩ := h.exists_peek hf
    rw [hthr]
    exact hpos.le
  · exact (h.threshold_of_not_full hf).ge

/-- A document that does not beat the threshold may be left out. -/
theorem Searched.skip (h : Searched T sel k fe heap p)
    (hle : score T p ≤ currentThreshold heap) : Searched T sel k fe heap (p + 1) := by
  refine ⟨?_, h.gate⟩
  rw [candidates_succ]
  split
  · rename_i hc
    by_cases hf : heap.items.card = k
    · obtain ⟨y, hpeek, hthr, -⟩ := h.exists_peek hf
      rw [← Multiset.singleton_add]
      refine h.holds.skip hf _ fun x hx z hz => ?_
      obtain rfl : y = z := by simpa [hpeek] using hz
      rw [Multiset.mem_singleton.mp hx]
      exact hle.trans hthr.le
    · rw [h.threshold_of_not_full hf] at hle
      exact absurd hc.1 (not_lt.mpr hle)
  · exact h.holds

/-- A document that is not selected is no candidate. -/
theorem Searched.unselected (h : Searched T sel k fe heap p)
    (hsel : IDSelector.passes sel p = false) : Searched T sel k fe heap (p + 1) := by
  refine ⟨?_, h.gate⟩
  rw [candidates_succ, if_neg (by simp [hsel])]
  exact h.holds

/-- A selected document that beats the threshold is offered with its exact score. -/
theorem Searched.offer (h : Searched T sel k fe heap p)
    (hlt : currentThreshold heap < score T p) (hsel : IDSelector.passes sel p = true) :
    Searched T sel k fe (heap.add (score T p) p) (p + 1) := by
  have hpos : 0 < score T p := h.threshold_nonneg.trans_lt hlt
  refine ⟨?_, ?_⟩
  · rw [candidates_succ, if_pos ⟨hpos, hsel⟩]
    exact h.holds.add _ _
  · rcases h.gate with h0 | ⟨hf, hgate⟩
    · exact Or.inl h0
    · obtain ⟨y, hpeek, -, -⟩ := h.exists_peek hf
      refine Or.inr ⟨h.holds.add_full hf _ _, fun y' hy' => ?_⟩
      exact (hgate y hpeek).trans_le (h.holds.peekScore_add_le hf hpeek hy')

/-! ### Inside a window -/

/-- Where the loop over a window's candidates has come to slot `n`. -/
structure WindowInv (T : List (DirectTermScorer F)) (sel : Option IDSelector) (k fe base : ℕ)
    (n : ℕ) (c : CandidateState Q) : Prop where
  searched : Searched T sel k fe c.heap (base + n)
  cursors : Cursors T fe (base + n : ℕ) (base + kScoreWindowSize : ℕ) c.scorers
  threshold : c.threshold = currentThreshold c.heap
  sized : c.windowScores.length = kScoreWindowSize
  scores : ∀ slot < kScoreWindowSize, c.windowScores.getD slot 0
    = if slot < n then 0 else score (T.drop fe) (base + slot : ℕ)

theorem WindowInv.clear {base n : ℕ} {c : CandidateState Q}
    (h : WindowInv T sel k fe base n c) (slot : ℕ) (hslot : slot < kScoreWindowSize) :
    (c.windowScores.set n 0).getD slot 0
      = if slot < n + 1 then 0 else score (T.drop fe) (base + slot : ℕ) := by
  have hlen : slot < c.windowScores.length := by rw [h.sized]; exact hslot
  rw [List.getD_eq_getElem?_getD, List.getElem?_set]
  by_cases heq : n = slot
  · subst heq
    simp [hlen]
  · rw [if_neg heq, ← List.getD_eq_getElem?_getD, h.scores slot hslot]
    exact if_congr (by omega) rfl rfl

/-- Where the main loop has come to document `p`. -/
structure RoundInv (T : List (DirectTermScorer F)) (sel : Option IDSelector) (k p : ℕ)
    (s : SearchState Q) : Prop where
  searched : Searched T sel k s.firstEssential s.heap p
  cursors : Cursors T s.firstEssential p p s.scorers
  inRange : s.firstEssential ≤ T.length
  aligned : kScoreWindowSize ∣ p
  windowScores : s.windowScores = List.replicate kScoreWindowSize 0

/-- A finished window leaves the score window clear. -/
theorem WindowInv.roundInv {base : ℕ} {c : CandidateState Q} (hin : fe ≤ T.length)
    (haligned : kScoreWindowSize ∣ base) (h : WindowInv T sel k fe base kScoreWindowSize c) :
    RoundInv T sel k (base + kScoreWindowSize) ⟨c.scorers, c.windowScores, c.heap, fe⟩ := by
  refine ⟨h.searched, h.cursors, hin, haligned.add (Nat.dvd_refl _), ?_⟩
  refine List.ext_getElem (by rw [h.sized, List.length_replicate]) fun i hi _ => ?_
  have hi' : i < kScoreWindowSize := h.sized ▸ hi
  have h0 := h.scores i hi'
  rw [if_pos hi', List.getD_eq_getElem _ _ hi] at h0
  rw [h0, List.getElem_replicate]

/-- Terms no document of which is shown contribute nothing from `p` on. -/
theorem score_eq_zero_of_not_mem {ts : List (DirectTermScorer F)} (hT : ∀ t ∈ ts, t.Valid)
    {doc : ℤ} (h : ∀ t ∈ ts, doc ∉ t.docIds) : score ts doc = 0 := by
  refine List.sum_eq_zero fun x hx => ?_
  obtain ⟨t, ht, rfl⟩ := List.mem_map.mp hx
  exact contribution_eq_zero (hT t ht) (h t ht)

/-- The essential scorers, which stand at `p`. -/
theorem Cursors.standsAt (hT : ∀ t ∈ T, t.Valid) {fe : ℕ} {p q : ℤ}
    {scorers : List (DirectTermScorer F)} (h : Cursors T fe p q scorers) :
    ∀ s ∈ scorers.drop fe, s.Valid ∧ s.StandsAt q := by
  intro s hs
  rw [h.high] at hs
  obtain ⟨t, ht, rfl⟩ := List.mem_map.mp hs
  exact ⟨(hT t (List.mem_of_mem_drop ht)).withIndex _, standsAt_withIndex t q⟩

/-! ### The gate -/

variable [IsOrderedRing F]

theorem score_take_le {T : List (DirectTermScorer F)} (hT : ∀ t ∈ T, t.Valid) (i : ℕ) (doc : ℤ) :
    score (T.take i) doc ≤ maxBound T i :=
  List.sum_le_sum fun t ht => (hT t (List.mem_of_mem_take ht)).bound doc

theorem maxBound_nonneg {T : List (DirectTermScorer F)} (hT : ∀ t ∈ T, t.Valid) (i : ℕ) :
    0 ≤ maxBound T i := by
  refine List.sum_nonneg fun x hx => ?_
  obtain ⟨t, ht, rfl⟩ := List.mem_map.mp hx
  exact (hT t (List.mem_of_mem_take ht)).nonneg

theorem maxBound_mono {T : List (DirectTermScorer F)} (hT : ∀ t ∈ T, t.Valid) {i j : ℕ}
    (h : i ≤ j) : maxBound T i ≤ maxBound T j := by
  have hsplit : T.take j = T.take i ++ (T.drop i).take (j - i) := by
    rw [← List.take_add, Nat.add_sub_cancel' h]
  unfold maxBound
  rw [hsplit, List.map_append, List.sum_append, le_add_iff_nonneg_right]
  refine List.sum_nonneg fun x hx => ?_
  obtain ⟨t, ht, rfl⟩ := List.mem_map.mp hx
  exact (hT t (List.mem_of_mem_drop (List.mem_of_mem_take ht))).nonneg

/-- A document that no essential term holds cannot beat the threshold. -/
theorem Searched.unproposed (hT : ∀ t ∈ T, t.Valid) (h : Searched T sel k fe heap p)
    (hzero : score (T.drop fe) p = 0) : Searched T sel k fe heap (p + 1) := by
  refine h.skip ?_
  rw [score_eq_take_add_drop T fe, hzero, add_zero]
  rcases h.gate with rfl | ⟨hf, hgate⟩
  · simpa [score] using h.threshold_nonneg
  · obtain ⟨y, hpeek, hthr, -⟩ := h.exists_peek hf
    rw [hthr]
    exact (score_take_le hT fe p).trans (hgate y hpeek).le

theorem Searched.unproposed_range (hT : ∀ t ∈ T, t.Valid) {q : ℕ} (hpq : p ≤ q)
    (h : Searched T sel k fe heap p)
    (hzero : ∀ d : ℕ, p ≤ d → d < q → score (T.drop fe) d = 0) : Searched T sel k fe heap q := by
  induction q, hpq using Nat.le_induction with
  | base => exact h
  | succ q hpq ih =>
      exact (ih fun d hd hdq => hzero d hd (by omega)).unproposed hT (hzero q hpq (by omega))

/-! ### Completing a candidate -/

/-- The lookups among the first `j` terms complete the score, or give it up; a score that is
given up cannot beat the threshold, nor can the part of it that was found. -/
theorem scoreNonEssential_spec (hT : ∀ t ∈ T, t.Valid) (threshold : F) {doc : ℤ}
    (hdoc : doc < kNoMoreDocs) {q : ℤ} :
    ∀ j ≤ fe, j ≤ T.length → ∀ (scorers : List (DirectTermScorer F)) (total : F),
      Cursors T fe doc q scorers →
      ∃ scorers' total',
        scoreNonEssential (prefixSums T) threshold doc j scorers total = (scorers', total') ∧
        Cursors T fe doc q scorers' ∧
        (total' = total + score (T.take j) doc ∨
          total + score (T.take j) doc ≤ threshold ∧ total' ≤ threshold) := by
  intro j
  induction j with
  | zero =>
      intro _ _ scorers total hc
      exact ⟨scorers, total, rfl, hc, Or.inl (by simp [score])⟩
  | succ j ih =>
      intro hj hjT scorers total hc
      obtain ⟨t, ht⟩ : ∃ t, T[j]? = some t := ⟨T[j], List.getElem?_eq_getElem (by omega)⟩
      have hv := hT t (List.mem_of_getElem? ht)
      obtain ⟨c, hs, hcle⟩ := hc.low j (by omega) t ht
      have hadv : (t.withIndex c).advanceTo doc = t.withIndex (lowerBound t.docIds doc) :=
        advanceTo_eq (hv.withIndex c) ⟨c, rfl, hcle⟩
      have hstand := standsAt_withIndex t doc
      have hval := add_shown (hv.withIndex _) hstand hdoc total
      have hset : Cursors T fe doc q
          (scorers.set j (t.withIndex (lowerBound t.docIds doc))) := by
        refine ⟨by rw [List.length_set, hc.length], fun i hi u hu => ?_, ?_⟩
        · rw [List.getElem?_set]
          by_cases hij : j = i
          · subst hij
            obtain rfl : t = u := by simpa [ht] using hu
            have hjs : j < scorers.length := by rw [hc.length]; omega
            exact ⟨_, by simp [hjs], le_rfl⟩
          · rw [if_neg hij]
            exact hc.low i hi u hu
        · rw [List.drop_set_of_lt (by omega), hc.high]
      have hsplit : score (T.take (j + 1)) doc = score (T.take j) doc + t.contribution doc := by
        rw [List.take_add_one, ht]
        simp [score]
      simp only [scoreNonEssential, hs, hadv, hval, contribution_withIndex]
      rw [getD_prefixSums (by omega)]
      split
      · rename_i hgive
        refine ⟨_, _, rfl, hset, Or.inr ⟨?_, ?_⟩⟩
        · calc total + score (T.take (j + 1)) doc
              = total + t.contribution doc + score (T.take j) doc := by
                rw [hsplit, add_comm (score (T.take j) doc), add_assoc]
            _ ≤ total + t.contribution doc + maxBound T j := by
                gcongr
                exact score_take_le hT j doc
            _ ≤ threshold := hgive
        · calc total + t.contribution doc
              ≤ total + t.contribution doc + maxBound T j :=
                le_add_of_nonneg_right (maxBound_nonneg hT j)
            _ ≤ threshold := hgive
      · obtain ⟨scorers', total', hrun, hc', htotal⟩ :=
          ih (by omega) (by omega) _ (total + t.contribution doc) hset
        refine ⟨scorers', total', hrun, hc', ?_⟩
        rwa [hsplit, add_comm (score (T.take j) doc), ← add_assoc]

/-! ### One candidate -/

/-- **One candidate**: whatever happens to it, its document is accounted for. -/
theorem evaluateSlot_spec (hT : ∀ t ∈ T, t.Valid) (hfe : fe ≤ T.length) {base n : ℕ}
    (hbase : base + kScoreWindowSize < 2 ^ 31) (hn : n < kScoreWindowSize)
    {c : CandidateState Q} (h : WindowInv T sel k fe base n c) :
    WindowInv T sel k fe base (n + 1) (evaluateSlot fe base (prefixSums T) sel c n) := by
  have hdoc : ((base + n : ℕ) : ℤ) < kNoMoreDocs := by unfold kNoMoreDocs; omega
  have hscore : c.windowScores.getD n 0 = score (T.drop fe) (base + n : ℕ) := by
    rw [h.scores n hn, if_neg (lt_irrefl n)]
  have hexact : score T (base + n : ℕ)
      = score (T.drop fe) (base + n : ℕ) + score (T.take fe) (base + n : ℕ) := by
    rw [score_eq_take_add_drop T fe, add_comm]
  have hcast : (base : ℤ) + (n : ℤ) = ((base + n : ℕ) : ℤ) := by push_cast; rfl
  have hnext : ((base + n : ℕ) : ℤ) ≤ (base + (n + 1) : ℕ) := by push_cast; omega
  have hsized : (c.windowScores.set n 0).length = kScoreWindowSize := by
    rw [List.length_set, h.sized]
  unfold evaluateSlot
  simp only [hscore, hcast, getD_prefixSums hfe]
  split
  · rename_i hbound
    refine ⟨h.searched.skip ?_, h.cursors.mono hT hnext, h.threshold, hsized, h.clear⟩
    rw [hexact, ← h.threshold]
    exact (add_le_add_right (score_take_le hT fe _) _).trans hbound
  · rename_i hbound
    split
    · rename_i hsel
      exact ⟨h.searched.unselected hsel, h.cursors.mono hT hnext, h.threshold, hsized, h.clear⟩
    · rename_i hsel
      have hsel : IDSelector.passes sel (base + n : ℕ) = true := by simpa using hsel
      obtain ⟨scorers', total', hrun, hc', htotal⟩ := scoreNonEssential_spec hT c.threshold hdoc
        fe le_rfl hfe c.scorers (score (T.drop fe) (base + n : ℕ)) h.cursors
      simp only [hrun]
      rw [← hexact] at htotal
      have hsearched : Searched T sel k fe (c.heap.add total' (base + n : ℕ)) (base + n + 1) := by
        rcases lt_or_ge c.threshold (score T (base + n : ℕ)) with hbeat | hlow
        · have hfound : total' = score T (base + n : ℕ) :=
            htotal.resolve_right fun hgive => absurd hgive.1 (not_le.mpr hbeat)
          rw [hfound]
          exact h.searched.offer (by rwa [← h.threshold]) hsel
        · -- a full heap ignores what was found of a candidate that was given up
          have htotal' : total' ≤ c.threshold := by
            rcases htotal with hfound | hgive
            · rw [hfound]; exact hlow
            · exact hgive.2
          by_cases hf : c.heap.items.card = k
          · obtain ⟨y, hpeek, hthr, -⟩ := h.searched.exists_peek hf
            rw [h.threshold, hthr] at htotal'
            rw [h.searched.holds.add_of_le hf hpeek htotal']
            exact h.searched.skip (by rwa [← h.threshold])
          · have h0 : fe = 0 := h.searched.gate.resolve_right fun hg => hf hg.1
            refine absurd ?_ hbound
            rw [hexact, h0] at hlow
            rw [h0]
            simpa [maxBound, score] using hlow
      refine ⟨hsearched, hc'.mono hT hnext, ?_, hsized, h.clear⟩
      by_cases hfull : (c.heap.add total' (base + n : ℕ)).full = true
      · rw [if_pos hfull, currentThreshold, if_pos hfull]
      · have hnot : c.heap.items.card ≠ k := fun hf => hfull
          (hsearched.full_iff.mpr (h.searched.holds.add_full hf _ _))
        rw [if_neg hfull, h.threshold, h.searched.threshold_of_not_full hnot, currentThreshold,
          if_neg hfull]

/-- A slot that no essential term touched holds a document that cannot be returned. -/
theorem WindowInv.untouched (hT : ∀ t ∈ T, t.Valid) {base n : ℕ} {c : CandidateState Q}
    (h : WindowInv T sel k fe base n c) (hzero : score (T.drop fe) (base + n : ℕ) = 0) :
    WindowInv T sel k fe base (n + 1) c := by
  refine ⟨h.searched.unproposed hT hzero, h.cursors.mono hT (by push_cast; omega), h.threshold,
    h.sized, fun slot hslot => ?_⟩
  rw [h.scores slot hslot]
  by_cases heq : slot = n
  · subst heq
    rw [if_neg (lt_irrefl _), if_pos (Nat.lt_succ_self _), hzero]
  · exact if_congr (by omega) rfl rfl

/-- **The candidates of a window**, in ascending order. -/
theorem evaluateWindowCandidates_spec (hT : ∀ t ∈ T, t.Valid) (hfe : fe ≤ T.length) {base : ℕ}
    (hbase : base + kScoreWindowSize < 2 ^ 31) (bitmap : List (BitVec 64))
    (hzero : ∀ slot < kScoreWindowSize, BitSet.isMarked bitmap slot = false →
      score (T.drop fe) (base + slot : ℕ) = 0)
    {scorers : List (DirectTermScorer F)} {windowScores : List F}
    (h : WindowInv T sel k fe base 0
      ⟨scorers, windowScores, heap, currentThreshold heap⟩) :
    WindowInv T sel k fe base kScoreWindowSize
      (evaluateWindowCandidates fe base (prefixSums T) sel bitmap scorers windowScores heap) := by
  have key : ∀ n ≤ kScoreWindowSize, WindowInv T sel k fe base n
      (((List.range n).filter (BitSet.isMarked bitmap)).foldl
        (evaluateSlot fe base (prefixSums T) sel)
        ⟨scorers, windowScores, heap, currentThreshold heap⟩) := by
    intro n
    induction n with
    | zero => intro _; exact h
    | succ n ih =>
        intro hn
        have hn' : n < kScoreWindowSize := by omega
        rw [List.range_succ, List.filter_append, List.foldl_append]
        rcases hm : BitSet.isMarked bitmap n with - | -
        · simpa [hm] using (ih hn'.le).untouched hT (hzero n hn' hm)
        · simpa [hm] using evaluateSlot_spec hT hfe hbase hn' (ih hn'.le)
  unfold evaluateWindowCandidates
  rw [BitSet.foldMarked_eq]
  exact key kScoreWindowSize le_rfl

/-! ### A round of the main loop -/

theorem partitionTerms_spec (hT : ∀ t ∈ T, t.Valid) (threshold : F) :
    partitionTerms (prefixSums T) threshold ≤ T.length ∧
      (partitionTerms (prefixSums T) threshold = 0 ∨
        maxBound T (partitionTerms (prefixSums T) threshold) < threshold) ∧
      ∀ i ≤ T.length, maxBound T i < threshold → i ≤ partitionTerms (prefixSums T) threshold := by
  have hlen : (prefixSums T).tail.length = T.length := by simp
  have htail : ∀ i (h : i < (prefixSums T).tail.length),
      (prefixSums T).tail[i] = maxBound T (i + 1) := by
    intro i h
    rw [← getD_prefixSums (by omega : i + 1 ≤ T.length), List.getElem_tail,
      List.getD_eq_getElem]
  have hpre := List.takeWhile_prefix (fun sum => decide (sum < threshold))
    (l := (prefixSums T).tail)
  have hle : partitionTerms (prefixSums T) threshold ≤ T.length := by
    rw [← hlen]
    exact hpre.length_le
  refine ⟨hle, ?_, fun i hi hlt => ?_⟩
  · rcases Nat.eq_zero_or_pos (partitionTerms (prefixSums T) threshold) with h0 | hpos
    · exact Or.inl h0
    · refine Or.inr ?_
      have hidx : partitionTerms (prefixSums T) threshold - 1
          < ((prefixSums T).tail.takeWhile fun sum => decide (sum < threshold)).length := by
        unfold partitionTerms at hpos ⊢
        omega
      have hmem := List.mem_takeWhile_imp (List.getElem_mem hidx)
      rw [hpre.getElem hidx, htail _ (by omega), Nat.sub_add_cancel hpos] at hmem
      simpa using hmem
  · have hall : ∀ x ∈ (prefixSums T).tail.take i, decide (x < threshold) = true := by
      intro x hx
      obtain ⟨j, hj, rfl⟩ := List.mem_iff_getElem.mp hx
      rw [List.length_take, hlen] at hj
      rw [List.getElem_take, htail j (by omega), decide_eq_true_iff]
      exact (maxBound_mono hT (by omega)).trans_lt hlt
    have hsplit := @List.takeWhile_append_of_pos _ _ _ ((prefixSums T).tail.drop i) hall
    rw [List.take_append_drop] at hsplit
    rw [partitionTerms, hsplit, List.length_append, List.length_take, hlen]
    omega

/-- The split of the terms a round works with. -/
def repartition (T : List (DirectTermScorer F)) (s : SearchState Q) : ℕ :=
  if s.heap.full then partitionTerms (prefixSums T) (s.heap.peekScore.getD 0)
  else s.firstEssential

/-- Repartitioning keeps everything: the threshold has only risen. -/
theorem RoundInv.repartition (hT : ∀ t ∈ T, t.Valid) {s : SearchState Q}
    (h : RoundInv T sel k p s) :
    Searched T sel k (repartition T s) s.heap p ∧ Cursors T (repartition T s) p p s.scorers ∧
      repartition T s ≤ T.length := by
  unfold Nsparse.repartition
  by_cases hfull : s.heap.full = true
  · rw [if_pos hfull]
    have hf := h.searched.full_iff.mp hfull
    obtain ⟨y, hpeek, -, hpos⟩ := h.searched.exists_peek hf
    rw [hpeek, Option.getD_some]
    obtain ⟨hle, hgate, hleast⟩ := partitionTerms_spec hT y
    have hmono : s.firstEssential ≤ partitionTerms (prefixSums T) y := by
      rcases h.searched.gate with h0 | ⟨-, hg⟩
      · omega
      · exact hleast _ h.inRange (hg y hpeek)
    refine ⟨⟨h.searched.holds, ?_⟩, h.cursors.widen hmono, hle⟩
    refine hgate.imp_right fun hlt => ⟨hf, fun y' hy' => ?_⟩
    obtain rfl : y = y' := by simpa [hpeek] using hy'
    exact hlt
  · rw [if_neg hfull]
    exact ⟨h.searched, h.cursors, h.inRange⟩

/-- When no essential scorer shows a document, nothing from `p` on can be returned. -/
theorem RoundInv.finish (hT : ∀ t ∈ T, t.Valid) {s : SearchState Q} (h : RoundInv T sel k p s)
    (hnone : searchWindow (prefixSums T) sel s = none) {q : ℕ} (hq : p ≤ q) :
    s.heap.Holds k (candidates T sel q) := by
  obtain ⟨hsearched, hcursors, -⟩ := h.repartition hT
  have hleast : minDocId (s.scorers.drop (Nsparse.repartition T s)) = kNoMoreDocs := by
    unfold searchWindow at hnone
    by_contra hne
    rw [Nsparse.repartition] at hne
    simp only [hne, if_false] at hnone
    cases hnone
  refine (hsearched.unproposed_range hT hq fun d hd _ => ?_).holds
  rw [← hcursors.score_drop]
  have hstand := hcursors.standsAt hT
  refine score_eq_zero_of_not_mem (fun t ht => (hstand t ht).1) fun t ht hmem => ?_
  obtain ⟨hv, hs⟩ := hstand t ht
  have hle := docId_le hv hs hmem (by exact_mod_cast hd)
  have hmin := (minDocId_spec (s.scorers.drop (Nsparse.repartition T s))).1 t ht
  have hrange := (hv.range _ hmem).2
  rw [hleast] at hmin
  unfold kNoMoreDocs kScoreWindowSize at *
  omega

/-- **One round**: a window is accounted for, and the search has moved past it. -/
theorem searchWindow_spec (hT : ∀ t ∈ T, t.Valid) {s s' : SearchState Q}
    (h : RoundInv T sel k p s) (hstep : searchWindow (prefixSums T) sel s = some s') :
    ∃ p', p < p' ∧ p < 2 ^ 31 ∧ RoundInv T sel k p' s' := by
  obtain ⟨hsearched, hcursors, hin⟩ := h.repartition hT
  have hstand := hcursors.standsAt hT
  obtain ⟨hmin, hminle, hex⟩ := minDocId_spec (s.scorers.drop (Nsparse.repartition T s))
  unfold searchWindow at hstep
  rw [← Nsparse.repartition] at hstep
  generalize hfe : Nsparse.repartition T s = fe at *
  by_cases hleast : minDocId (s.scorers.drop fe) = kNoMoreDocs
  · simp [hleast] at hstep
  · rw [if_neg hleast] at hstep
    obtain ⟨u, hu, hudoc⟩ := hex hleast
    obtain ⟨huv, hus⟩ := hstand u hu
    obtain ⟨humem, hup⟩ := docId_mem huv hus (by rw [hudoc]; exact hleast)
    obtain ⟨hu0, hurange⟩ := huv.range _ humem
    rw [hudoc] at hup hu0 hurange
    -- the window that holds the least document
    obtain ⟨least, hleastN⟩ := Int.eq_ofNat_of_zero_le hu0
    rw [hleastN] at hstep hup hurange
    have hbaseN : (least : ℤ).tdiv kScoreWindowSize * kScoreWindowSize
        = (least / kScoreWindowSize * kScoreWindowSize : ℕ) := by
      rw [Int.tdiv_eq_ediv_of_nonneg (by omega)]
      push_cast
      rfl
    rw [hbaseN] at hstep
    generalize hbase : least / kScoreWindowSize * kScoreWindowSize = base at *
    have hlo : base ≤ least := by rw [← hbase]; exact Nat.div_mul_le_self _ _
    have hhi : least < base + kScoreWindowSize := by
      rw [← hbase]
      exact Nat.lt_div_mul_add (by decide)
    have hend : toIdx ((base : ℤ) + kScoreWindowSize) = (base : ℤ) + kScoreWindowSize :=
      toIdx_of_lt (by omega) (by omega)
    have hbefore : ∀ d : ℕ, p ≤ d → d < least → score (T.drop fe) d = 0 := by
      intro d hd hdl
      rw [← hcursors.score_drop]
      refine score_eq_zero_of_not_mem (fun t ht => (hstand t ht).1) fun t ht hmem => ?_
      have hle := docId_le (hstand t ht).1 (hstand t ht).2 hmem (by exact_mod_cast hd)
      have := hmin t ht
      omega
    have hpbase : p ≤ base := by
      obtain ⟨m, rfl⟩ := h.aligned
      rw [← hbase, mul_comm]
      refine Nat.mul_le_mul_right _ ?_
      rw [Nat.le_div_iff_mul_le (by decide), mul_comm]
      exact_mod_cast hup
    have hsearched' : Searched T sel k fe s.heap base :=
      hsearched.unproposed_range hT hpbase fun d hd hdb => hbefore d hd (by omega)
    obtain ⟨w, hrun, hsized, hscores, hmarked⟩ := scoreEssentialTerms_spec
      (show (p : ℤ) ≤ base by exact_mod_cast hpbase) (s.scorers.drop fe)
      ⟨s.windowScores, List.replicate kBitmapWords 0⟩ hstand
      ⟨by rw [h.windowScores, List.length_replicate], List.length_replicate⟩
    simp only [hend, hrun, Option.some.injEq] at hstep
    have hzero : ∀ slot < kScoreWindowSize, BitSet.isMarked w.bitmap slot = false →
        score (T.drop fe) (base + slot : ℕ) = 0 := by
      intro slot hslot hm
      rw [← hcursors.score_drop]
      refine score_eq_zero_of_not_mem (fun t ht => (hstand t ht).1) fun t ht hmem => ?_
      have := (hmarked slot hslot).mpr (Or.inr ⟨t, ht, by exact_mod_cast hmem⟩)
      rw [hm] at this
      cases this
    have hentry : Cursors T fe (base + 0 : ℕ) (base + kScoreWindowSize : ℕ)
        (s.scorers.take fe ++ (s.scorers.drop fe).map fun t =>
          t.withIndex (lowerBound t.docIds ((base : ℤ) + kScoreWindowSize))) := by
      have hlen : (s.scorers.take fe).length = fe := by
        rw [List.length_take, hcursors.length]
        omega
      refine ⟨by simp [hcursors.length, hin], fun i hi t ht => ?_, ?_⟩
      · rw [List.getElem?_append_left (by omega), List.getElem?_take_of_lt hi]
        exact (hcursors.mono hT (by exact_mod_cast hpbase)).low i hi t ht
      · rw [List.drop_left' hlen, hcursors.high, List.map_map]
        refine List.map_congr_left fun t _ => ?_
        simp
    have hbound : base + kScoreWindowSize < 2 ^ 31 :=
      (Nat.add_le_add_right hlo _).trans_lt (by exact_mod_cast hurange)
    have hopen : WindowInv T sel k fe base 0 ⟨s.scorers.take fe ++ (s.scorers.drop fe).map fun t =>
        t.withIndex (lowerBound t.docIds ((base : ℤ) + kScoreWindowSize)), w.windowScores, s.heap,
        currentThreshold s.heap⟩ := by
      refine ⟨hsearched', hentry, rfl, hsized.scores, fun slot hslot => ?_⟩
      rw [hscores slot hslot, h.windowScores, if_neg (Nat.not_lt_zero _),
        List.getD_replicate _ hslot, zero_add]
      exact hcursors.score_drop ((base : ℤ) + slot)
    have hwindow := evaluateWindowCandidates_spec hT hin hbound w.bitmap hzero hopen
    have haligned : kScoreWindowSize ∣ base := by
      rw [← hbase]
      exact Nat.dvd_mul_left _ _
    rw [← hstep]
    exact ⟨base + kScoreWindowSize, hpbase.trans_lt (Nat.lt_add_of_pos_right (by decide)),
      hpbase.trans_lt ((Nat.le_add_right _ _).trans_lt hbound), hwindow.roundInv hin haligned⟩

/-! ### The whole search -/

/-- **The main loop** ends, and what its heap holds is a top `k` of all candidates. -/
theorem search_spec (sel : Option IDSelector) (hT : ∀ t ∈ T, t.Valid) (hstart : ∀ t ∈ T, t.currentIndex = 0)
    {capacity : ℤ} (hnew : TopKHolder.new Q capacity = .ok heap) :
    ∃ enough : ℕ, ∀ fuel, enough ≤ fuel → ∃ s p,
      Loop.iterate (searchWindow (prefixSums T) sel) fuel
          ⟨T, List.replicate kScoreWindowSize 0, heap, 0⟩ = some s ∧
        s.windowScores = List.replicate kScoreWindowSize 0 ∧
        ∀ q, p ≤ q → s.heap.Holds capacity.toNat (candidates T sel q) := by
  have hstand : (T.map fun t => t.withIndex (lowerBound t.docIds 0)) = T := by
    refine (List.map_congr_left fun t ht => ?_).trans (List.map_id T)
    have hlow : lowerBound t.docIds 0 = 0 := by
      by_contra hne
      have hlt := lt_of_lt_lowerBound (Nat.pos_of_ne_zero hne)
      have hlen := lowerBound_le t.docIds 0
      rw [List.getD_eq_getElem _ _ (by omega)] at hlt
      have := ((hT t ht).range _ (List.getElem_mem (by omega : 0 < t.docIds.length))).1
      omega
    rw [hlow, Nat.cast_zero, ← hstart t ht, withIndex_self]
    rfl
  have hinit : RoundInv T sel capacity.toNat 0
      ⟨T, List.replicate kScoreWindowSize 0, heap, 0⟩ := by
    refine ⟨⟨?_, Or.inl rfl⟩, ⟨rfl, ?_, ?_⟩, Nat.zero_le _, Nat.dvd_zero _, rfl⟩
    · exact TopKHolder.new_holds hnew
    · intro i hi
      exact absurd hi (Nat.not_lt_zero i)
    · simpa using hstand.symm
  refine ⟨2 ^ 31 + 1, fun fuel hfuel => ?_⟩
  obtain ⟨s, -, hrun, ⟨p, hinv, -⟩, hbreak⟩ := Loop.iterate_of_rank
    (fun r s => ∃ p, RoundInv T sel capacity.toNat p s ∧ r = 2 ^ 31 - p)
    (fun r s s' ⟨p, hinv, hr⟩ hstep => by
      obtain ⟨p', hlt, hp, hinv'⟩ := searchWindow_spec hT hinv hstep
      exact ⟨2 ^ 31 - p', by omega, p', hinv', rfl⟩)
    fuel (2 ^ 31 - 0) _ ⟨0, hinit, rfl⟩ (by omega)
  exact ⟨s, p, hrun, hinv.windowScores, fun q hq => hinv.finish hT hbreak hq⟩

end Nsparse
