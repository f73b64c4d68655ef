/-
Nsparse/TermScorer.lean

What a term scorer does to its cursor and to the score window.

`contribution` is what a scorer's term adds to a document's score.  A scorer *stands
at* a document `p` when its cursor is at its first posting not before `p`.  Advancing
to a document makes it stand there (`advanceTo_eq`), and scoring a window adds the
contribution of every document of the window to that document's slot, marks the slots
it touched, and leaves the scorer standing at the window's end
(`scoreEssentialTerms_spec`).
-/
import Nsparse.InvertedIndex

namespace Nsparse

variable {F : Type}

namespace DirectTermScorer

/-! ### Cursors -/

/-- The scorer with its cursor elsewhere. -/
def withIndex (s : DirectTermScorer F) (c : ℤ) : DirectTermScorer F := { s with currentIndex := c }

@[simp] theorem withIndex_docIds (s : DirectTermScorer F) (c : ℤ) :
    (s.withIndex c).docIds = s.docIds := rfl
@[simp] theorem withIndex_values (s : DirectTermScorer F) (c : ℤ) :
    (s.withIndex c).values = s.values := rfl
@[simp] theorem withIndex_listSize (s : DirectTermScorer F) (c : ℤ) :
    (s.withIndex c).listSize = s.listSize := rfl
@[simp] theorem withIndex_queryWeight (s : DirectTermScorer F) (c : ℤ) :
    (s.withIndex c).queryWeight = s.queryWeight := rfl
@[simp] theorem withIndex_maxScore (s : DirectTermScorer F) (c : ℤ) :
    (s.withIndex c).maxScore = s.maxScore := rfl
@[simp] theorem withIndex_currentIndex (s : DirectTermScorer F) (c : ℤ) :
    (s.withIndex c).currentIndex = c := rfl
@[simp] theorem withIndex_withIndex (s : DirectTermScorer F) (c c' : ℤ) :
    (s.withIndex c).withIndex c' = s.withIndex c' := rfl
@[simp] theorem withIndex_self (s : DirectTermScorer F) :
    s.withIndex s.currentIndex = s := rfl

theorem nextDoc_eq (s : DirectTermScorer F) : s.nextDoc = s.withIndex (s.currentIndex + 1) := rfl

/-- The cursor is at the first posting not before `p`. -/
def StandsAt (s : DirectTermScorer F) (p : ℤ) : Prop := s.currentIndex = lowerBound s.docIds p

/-- The cursor is at or before the first posting not before `p`. -/
def StandsWithin (s : DirectTermScorer F) (p : ℤ) : Prop :=
  ∃ c : ℕ, s.currentIndex = c ∧ c ≤ lowerBound s.docIds p

theorem standsAt_withIndex (s : DirectTermScorer F) (p : ℤ) :
    (s.withIndex (lowerBound s.docIds p)).StandsAt p := rfl

/-! ### Contributions -/

variable [Ring F]

/-- What the postings from position `c` on add to a document's score. -/
def contributionFrom (s : DirectTermScorer F) (c : ℕ) (doc : ℤ) : F :=
  ((((s.docIds.zip s.values).drop c).filter fun e => e.1 = doc).map
    fun e => s.queryWeight * e.2).sum

/-- What the term adds to a document's score. -/
def contribution (s : DirectTermScorer F) (doc : ℤ) : F := s.contributionFrom 0 doc

@[simp] theorem contribution_withIndex (s : DirectTermScorer F) (c : ℤ) (doc : ℤ) :
    (s.withIndex c).contribution doc = s.contribution doc := rfl

variable [LinearOrder F]

/-- What holds of a scorer wherever its cursor is: ascending documents in the range the
windows can address, a value for each, and a maximum that bounds every contribution. -/
structure Valid (s : DirectTermScorer F) : Prop where
  ascending : s.docIds.Pairwise (· < ·)
  range : ∀ d ∈ s.docIds, 0 ≤ d ∧ d + kScoreWindowSize < 2 ^ 31
  paired : s.values.length = s.docIds.length
  listSize : s.listSize = s.docIds.length
  nonneg : 0 ≤ s.maxScore
  bound : ∀ doc, s.contribution doc ≤ s.maxScore

theorem Valid.withIndex {s : DirectTermScorer F} (h : s.Valid) (c : ℤ) : (s.withIndex c).Valid :=
  ⟨h.ascending, h.range, h.paired, h.listSize, h.nonneg, h.bound⟩

variable {s : DirectTermScorer F}

theorem contributionFrom_of_lt (h : s.Valid) {c : ℕ} (hc : c < s.docIds.length) (doc : ℤ) :
    s.contributionFrom c doc
      = (if s.docIds.getD c 0 = doc then s.queryWeight * s.values.getD c 0 else 0)
        + s.contributionFrom (c + 1) doc := by
  have hlen : c < (s.docIds.zip s.values).length := by
    rw [List.length_zip, h.paired, min_self]
    exact hc
  have hv : c < s.values.length := by rw [h.paired]; exact hc
  unfold contributionFrom
  rw [List.drop_eq_getElem_cons hlen, List.getElem_zip, List.filter_cons,
    List.getD_eq_getElem _ _ hc, List.getD_eq_getElem _ _ hv]
  by_cases hd : s.docIds[c] = doc <;> simp [hd]

theorem contributionFrom_eq_zero (h : s.Valid) {c : ℕ} {doc : ℤ}
    (hne : ∀ j, c ≤ j → j < s.docIds.length → s.docIds.getD j 0 ≠ doc) :
    s.contributionFrom c doc = 0 := by
  induction hn : s.docIds.length - c generalizing c with
  | zero =>
      have hlen : (s.docIds.zip s.values).length ≤ c := by
        rw [List.length_zip]
        omega
      rw [contributionFrom, List.drop_eq_nil_of_le hlen]
      rfl
  | succ n ih =>
      have hc : c < s.docIds.length := by omega
      rw [contributionFrom_of_lt h hc, if_neg (hne c le_rfl hc), zero_add]
      exact ih (fun j hj => hne j (by omega)) (by omega)

/-- A document without a posting gets nothing. -/
theorem contribution_eq_zero (h : s.Valid) {doc : ℤ} (hd : doc ∉ s.docIds) :
    s.contribution doc = 0 := by
  refine contributionFrom_eq_zero h fun j _ hj heq => hd ?_
  rw [← heq, List.getD_eq_getElem _ _ hj]
  exact List.getElem_mem hj

/-- Postings before `p` are no part of what a document from `p` on gets. -/
theorem contributionFrom_lowerBound (h : s.Valid) {p doc : ℤ} (hp : p ≤ doc) :
    s.contributionFrom (lowerBound s.docIds p) doc = s.contribution doc := by
  have key : ∀ c ≤ lowerBound s.docIds p, s.contributionFrom c doc = s.contribution doc := by
    intro c
    induction c with
    | zero => intro _; rfl
    | succ c ih =>
        intro hc
        have hlt : s.docIds.getD c 0 < p := lt_of_lt_lowerBound (by omega)
        have hlen := lowerBound_le s.docIds p
        rw [← ih (by omega), contributionFrom_of_lt h (c := c) (by omega), if_neg (by omega),
          zero_add]
  exact key _ le_rfl

/-- The contribution of the document at the cursor. -/
theorem contribution_at (h : s.Valid) {c : ℕ} (hc : c < s.docIds.length) :
    s.contribution (s.docIds.getD c 0) = s.queryWeight * s.values.getD c 0 := by
  have hcb : c = lowerBound s.docIds (s.docIds.getD c 0) := by
    refine eq_lowerBound h.ascending hc.le (fun j hj => ?_) fun _ => le_rfl
    rw [List.getD_eq_getElem _ _ hc, List.getD_eq_getElem _ _ (hj.trans hc)]
    exact List.pairwise_iff_getElem.mp h.ascending j c _ _ hj
  rw [← contributionFrom_lowerBound h le_rfl, ← hcb, contributionFrom_of_lt h hc, if_pos rfl,
    contributionFrom_eq_zero h, add_zero]
  intro j hj hjl
  rw [List.getD_eq_getElem _ _ hc, List.getD_eq_getElem _ _ hjl]
  exact (List.pairwise_iff_getElem.mp h.ascending c j _ _ hj).ne'

/-! ### Moving the cursor -/

theorem StandsWithin.mono {p q : ℤ} (hv : s.Valid) (h : s.StandsWithin p) (hpq : p ≤ q) :
    s.StandsWithin q := by
  obtain ⟨c, hc, hle⟩ := h
  exact ⟨c, hc, hle.trans (lowerBound_mono hv.ascending hpq)⟩

/-- Advancing from at or before a document ends at that document. -/
theorem advanceTo_eq (h : s.Valid) {doc : ℤ} (hw : s.StandsWithin doc) :
    s.advanceTo doc = s.withIndex (lowerBound s.docIds doc) := by
  obtain ⟨c, hc, hle⟩ := hw
  have hlen := lowerBound_le s.docIds doc
  unfold advanceTo
  rw [h.listSize, hc]
  by_cases hend : (s.docIds.length : ℤ) ≤ c
  · rw [if_pos hend]
    have hcl : lowerBound s.docIds doc = c := by omega
    rw [hcl, ← hc, withIndex_self]
  · have hlt : c < s.docIds.length := by omega
    rw [if_neg hend]
    have hat : s.docAt c = s.docIds.getD c 0 := by simp [docAt]
    rw [hat]
    by_cases hge : doc ≤ s.docIds.getD c 0
    · rw [if_pos ⟨by omega, hge⟩]
      have hcl : lowerBound s.docIds doc = c := by
        refine (eq_lowerBound h.ascending hlt.le (fun j hj => ?_) fun _ => hge).symm
        exact lt_of_lt_lowerBound (hj.trans_le hle)
      rw [hcl, ← hc, withIndex_self]
    · rw [if_neg (fun hcon => hge hcon.2)]
      have hstep : c + 1 ≤ lowerBound s.docIds doc := by
        by_contra hcon
        exact hge (le_of_lowerBound_le h.ascending (by omega) hlt)
      have hdrop := add_lowerBound_drop h.ascending hstep
      have hneg : ¬ (c : ℤ) < 0 := by omega
      have hnat : ((c : ℤ) + 1).toNat = c + 1 := by omega
      simp only [hneg, if_false, hnat]
      have hidx : (if (c : ℤ) + 1 + lowerBound (s.docIds.drop (c + 1)) doc = s.docIds.length then
            (s.docIds.length : ℤ) else (c : ℤ) + 1 + lowerBound (s.docIds.drop (c + 1)) doc)
          = lowerBound s.docIds doc := by
        split <;> omega
      rw [hidx, withIndex, h.listSize]

/-- A scorer that stands at a document shows it exactly when it has a posting for it. -/
theorem docId_eq_iff (h : s.Valid) {doc : ℤ} (hs : s.StandsAt doc) (hdoc : doc < kNoMoreDocs) :
    s.docId = doc ↔ doc ∈ s.docIds := by
  have hlen := lowerBound_le s.docIds doc
  unfold docId
  rw [hs, h.listSize]
  by_cases hend : lowerBound s.docIds doc < s.docIds.length
  · have hat : s.docAt (lowerBound s.docIds doc) = s.docIds.getD (lowerBound s.docIds doc) 0 := by
      simp [docAt]
    rw [if_neg (by omega), hat]
    constructor
    · intro heq
      rw [← heq, List.getD_eq_getElem _ _ hend]
      exact List.getElem_mem hend
    · intro hmem
      obtain ⟨i, hi, hget⟩ := List.mem_iff_getElem.mp hmem
      have hib : i = lowerBound s.docIds doc := by
        refine eq_lowerBound h.ascending hi.le (fun j hj => ?_) fun _ => ?_
        · rw [List.getD_eq_getElem _ _ (hj.trans hi), ← hget]
          exact List.pairwise_iff_getElem.mp h.ascending j i _ _ hj
        · rw [List.getD_eq_getElem _ _ hi, hget]
      rw [← hib, List.getD_eq_getElem _ _ hi, hget]
  · rw [if_pos (by omega)]
    constructor
    · intro heq
      omega
    · intro hmem
      obtain ⟨i, hi, hget⟩ := List.mem_iff_getElem.mp hmem
      have := lt_of_lt_lowerBound (show i < lowerBound s.docIds doc by omega)
      rw [List.getD_eq_getElem _ _ hi, hget] at this
      omega

/-- Adding what the cursor shows for a document adds the term's contribution to it. -/
theorem add_shown (h : s.Valid) {doc : ℤ} (hs : s.StandsAt doc) (hdoc : doc < kNoMoreDocs)
    (total : F) :
    (if s.docId = doc then total + s.queryWeight * s.valueAt s.currentIndex else total)
      = total + s.contribution doc := by
  by_cases hmem : doc ∈ s.docIds
  · have hid := (docId_eq_iff h hs hdoc).mpr hmem
    rw [if_pos hid]
    have hlt : lowerBound s.docIds doc < s.docIds.length := by
      by_contra hcon
      unfold docId at hid
      rw [hs, h.listSize, if_pos (by omega)] at hid
      omega
    have hget : s.docIds.getD (lowerBound s.docIds doc) 0 = doc := by
      unfold docId at hid
      rw [hs, h.listSize, if_neg (by omega)] at hid
      simpa [docAt] using hid
    have hc := contribution_at h hlt
    rw [hget] at hc
    rw [hc, hs]
    simp [valueAt]
  · rw [if_neg (fun heq => hmem ((docId_eq_iff h hs hdoc).mp heq)), contribution_eq_zero h hmem,
      add_zero]

/-- The cursor shows nothing after a posting from where it stands on. -/
theorem docId_le (h : s.Valid) {p doc : ℤ} (hs : s.StandsAt p) (hmem : doc ∈ s.docIds)
    (hp : p ≤ doc) : s.docId ≤ doc := by
  obtain ⟨i, hi, hget⟩ := List.mem_iff_getElem.mp hmem
  have hle : lowerBound s.docIds p ≤ i := by
    by_contra hcon
    have := lt_of_lt_lowerBound (not_le.mp hcon)
    rw [List.getD_eq_getElem _ _ hi, hget] at this
    omega
  have hlt : lowerBound s.docIds p < s.docIds.length := hle.trans_lt hi
  have hat : s.docAt (lowerBound s.docIds p) = s.docIds.getD (lowerBound s.docIds p) 0 := by
    simp [docAt]
  unfold docId
  rw [hs, h.listSize, if_neg (by omega), hat, List.getD_eq_getElem _ _ hlt, ← hget]
  rcases hle.eq_or_lt with heq | hlt'
  · simp [heq]
  · exact (List.pairwise_iff_getElem.mp h.ascending _ i hlt hi hlt').le

/-- What the cursor shows is a posting from where it stands on. -/
theorem docId_mem (h : s.Valid) {p : ℤ} (hs : s.StandsAt p) (hne : s.docId ≠ kNoMoreDocs) :
    s.docId ∈ s.docIds ∧ p ≤ s.docId := by
  have hlen := lowerBound_le s.docIds p
  unfold docId at hne ⊢
  rw [hs, h.listSize] at hne ⊢
  split at hne
  · exact absurd rfl hne
  · rename_i hcur
    have hlt : lowerBound s.docIds p < s.docIds.length := by omega
    have hat : s.docAt (lowerBound s.docIds p) = s.docIds.getD (lowerBound s.docIds p) 0 := by
      simp [docAt]
    rw [if_neg hcur, hat]
    refine ⟨?_, le_of_lowerBound_le h.ascending le_rfl hlt⟩
    rw [List.getD_eq_getElem _ _ hlt]
    exact List.getElem_mem hlt

end DirectTermScorer

/-! ### Scoring a window -/

open DirectTermScorer

/-- The first `fe` terms of a query are at or before document `p`, the others stand at `q`. -/
structure Cursors (T : List (DirectTermScorer F)) (fe : ℕ) (p q : ℤ)
    (scorers : List (DirectTermScorer F)) : Prop where
  length : scorers.length = T.length
  low : ∀ i < fe, ∀ t, T[i]? = some t →
    ∃ c : ℕ, scorers[i]? = some (t.withIndex c) ∧ c ≤ lowerBound t.docIds p
  high : scorers.drop fe = (T.drop fe).map fun t => t.withIndex (lowerBound t.docIds q)

/-- More terms may count as non-essential. -/
theorem Cursors.widen {T scorers : List (DirectTermScorer F)} {fe fe' : ℕ} {p : ℤ}
    (h : Cursors T fe p p scorers) (hle : fe ≤ fe') : Cursors T fe' p p scorers := by
  have hhigh : ∀ i, fe ≤ i → scorers[i]?
      = T[i]?.map fun t => t.withIndex (lowerBound t.docIds p) := by
    intro i hi
    have hget := congrArg (fun l => l[i - fe]?) h.high
    simpa [List.getElem?_drop, Nat.add_sub_cancel' hi] using hget
  refine ⟨h.length, fun i hi t ht => ?_, ?_⟩
  · by_cases hlow : i < fe
    · exact h.low i hlow t ht
    · exact ⟨_, by rw [hhigh i (by omega), ht, Option.map_some], le_rfl⟩
  · refine List.ext_getElem? fun i => ?_
    rw [List.getElem?_drop, List.getElem?_map, List.getElem?_drop, hhigh _ (by omega)]

/-- The window has a slot for every document and a bit for every slot. -/
structure ScoreWindow.Sized (w : ScoreWindow F) : Prop where
  scores : w.windowScores.length = kScoreWindowSize
  bits : w.bitmap.length = kBitmapWords

variable [Ring F]

/-- `w'` is `w` with `amount slot` added to every slot, and with the slots of `touched` marked. -/
structure ScoreWindow.Adds (base : ℤ) (w w' : ScoreWindow F) (amount : ℤ → F)
    (touched : ℤ → Prop) : Prop where
  sized : w'.Sized
  scores : ∀ slot < kScoreWindowSize,
    w'.windowScores.getD slot 0 = w.windowScores.getD slot 0 + amount (base + slot)
  marked : ∀ slot < kScoreWindowSize, BitSet.isMarked w'.bitmap slot = true ↔
    BitSet.isMarked w.bitmap slot = true ∨ touched (base + slot)

variable [LinearOrder F]

theorem Cursors.mono {T scorers : List (DirectTermScorer F)} (hT : ∀ t ∈ T, t.Valid) {fe : ℕ}
    {p p' q : ℤ} (h : Cursors T fe p q scorers) (hp : p ≤ p') : Cursors T fe p' q scorers := by
  refine ⟨h.length, fun i hi t ht => ?_, h.high⟩
  obtain ⟨c, hc, hle⟩ := h.low i hi t ht
  have hv := hT t (List.mem_of_getElem? ht)
  exact ⟨c, hc, hle.trans (lowerBound_mono hv.ascending hp)⟩

/-- The postings of one scorer from its cursor to the end of the window. -/
theorem scorePostings_spec {s : DirectTermScorer F} (h : s.Valid) {base : ℤ} (fuel : ℕ)
    {c : ℕ} (w : ScoreWindow F) (hw : w.Sized)
    (hc : c ≤ lowerBound s.docIds (base + kScoreWindowSize))
    (hfuel : s.docIds.length - c ≤ fuel) :
    ∃ w', scorePostings base (base + kScoreWindowSize) fuel (s.withIndex c) w
        = (s.withIndex (lowerBound s.docIds (base + kScoreWindowSize)), w') ∧
      w.Adds base w' (s.contributionFrom c)
        (fun doc => ∃ j, c ≤ j ∧ j < s.docIds.length ∧ s.docIds.getD j 0 = doc) := by
  -- where the loop stops, nothing is left inside the window
  have stop : ∀ (w : ScoreWindow F) (c : ℕ), w.Sized →
      c = lowerBound s.docIds (base + kScoreWindowSize) → w.Adds base w (s.contributionFrom c)
      (fun doc => ∃ j, c ≤ j ∧ j < s.docIds.length ∧ s.docIds.getD j 0 = doc) := by
    intro w c hw hc
    have hout : ∀ slot < kScoreWindowSize, ∀ j, c ≤ j → j < s.docIds.length →
        s.docIds.getD j 0 ≠ base + slot := by
      intro slot hslot j hj hjl heq
      have := le_of_lowerBound_le h.ascending (hc ▸ hj) hjl
      omega
    refine ⟨hw, fun slot hslot => ?_, fun slot hslot => ⟨Or.inl, ?_⟩⟩
    · rw [contributionFrom_eq_zero h (hout slot hslot), add_zero]
    · rintro (hm | ⟨j, hj, hjl, heq⟩)
      · exact hm
      · exact absurd heq (hout slot hslot j hj hjl)
  have hlen := lowerBound_le s.docIds (base + kScoreWindowSize)
  induction fuel generalizing c w with
  | zero =>
      have hcl : c = lowerBound s.docIds (base + kScoreWindowSize) := by omega
      exact ⟨w, by rw [scorePostings, ← hcl], stop w c hw hcl⟩
  | succ fuel ih =>
      rw [scorePostings]
      by_cases hend : s.docIds.length ≤ c
      · have hcl : c = lowerBound s.docIds (base + kScoreWindowSize) := by omega
        refine ⟨w, ?_, stop w c hw hcl⟩
        rw [if_pos (by simp [h.listSize, hend]), ← hcl]
      · have hlt : c < s.docIds.length := not_le.mp hend
        have hat : (s.withIndex c).docAt (s.withIndex c).currentIndex = s.docIds.getD c 0 := by
          simp [docAt]
        have hval : (s.withIndex c).valueAt (s.withIndex c).currentIndex = s.values.getD c 0 := by
          simp [valueAt]
        rw [if_neg (by simpa [h.listSize] using hlt)]
        simp only [hat, hval]
        by_cases hout : base + kScoreWindowSize ≤ s.docIds.getD c 0
        · have hcl : c = lowerBound s.docIds (base + kScoreWindowSize) :=
            eq_lowerBound h.ascending hlt.le
              (fun j hj => lt_of_lt_lowerBound (hj.trans_le hc)) fun _ => hout
          exact ⟨w, by rw [if_pos hout, ← hcl], stop w c hw hcl⟩
        · have hnext : c + 1 ≤ lowerBound s.docIds (base + kScoreWindowSize) := by
            by_contra hcon
            exact hout (le_of_lowerBound_le h.ascending (by omega) hlt)
          have hstep : (s.withIndex c).nextDoc = s.withIndex ((c + 1 : ℕ) : ℤ) := by
            simp [nextDoc_eq]
          rw [if_neg hout, hstep]
          by_cases hbefore : s.docIds.getD c 0 < base
          · obtain ⟨w', hrun, hsized, hscores, hmarked⟩ :=
              ih (c := c + 1) w hw hnext (by omega)
            refine ⟨w', by rw [if_pos hbefore, hrun], hsized, fun slot hslot => ?_,
              fun slot hslot => ?_⟩
            · rw [hscores slot hslot, contributionFrom_of_lt h hlt, if_neg (by omega), zero_add]
            · rw [hmarked slot hslot]
              refine or_congr_right ⟨?_, ?_⟩
              · rintro ⟨j, hj, hrest⟩
                exact ⟨j, by omega, hrest⟩
              · rintro ⟨j, hj, hjl, heq⟩
                rcases hj.eq_or_lt with rfl | hj
                · omega
                · exact ⟨j, hj, hjl, heq⟩
          · let slot₀ := (s.docIds.getD c 0 - base).toNat
            have hslot₀ : slot₀ < kScoreWindowSize := by omega
            have hdoc : base + slot₀ = s.docIds.getD c 0 := by omega
            let w₁ : ScoreWindow F :=
              ⟨w.windowScores.modify slot₀ (· + s.queryWeight * s.values.getD c 0),
                BitSet.mark w.bitmap slot₀⟩
            have hw₁ : w₁.Sized := ⟨by simp [w₁, hw.scores], by simp [w₁, hw.bits]⟩
            obtain ⟨w', hrun, hsized, hscores, hmarked⟩ :=
              ih (c := c + 1) w₁ hw₁ hnext (by omega)
            refine ⟨w', by rw [if_neg hbefore]; exact hrun, hsized, fun slot hslot => ?_,
              fun slot hslot => ?_⟩
            · have hw₁s : w₁.windowScores.getD slot 0 = w.windowScores.getD slot 0
                  + if slot₀ = slot then s.queryWeight * s.values.getD c 0 else 0 := by
                have hslot' : slot < w.windowScores.length := by rw [hw.scores]; exact hslot
                simp only [w₁, List.getD_eq_getElem?_getD, List.getElem?_modify,
                  List.getElem?_eq_getElem hslot']
                by_cases heq : slot₀ = slot <;> simp [heq]
              have hiff : s.docIds.getD c 0 = base + slot ↔ slot₀ = slot := by omega
              rw [hscores slot hslot, contributionFrom_of_lt h hlt, hw₁s, add_assoc]
              simp only [hiff]
            · have hbits : slot₀ < 64 * w.bitmap.length := by
                rw [hw.bits]
                exact hslot₀
              rw [hmarked slot hslot, BitSet.isMarked_mark hbits, Bool.or_eq_true,
                decide_eq_true_iff, or_assoc]
              refine or_congr_right ⟨?_, ?_⟩
              · rintro (heq | ⟨j, hj, hrest⟩)
                · exact ⟨c, le_rfl, hlt, by omega⟩
                · exact ⟨j, by omega, hrest⟩
              · rintro ⟨j, hj, hjl, heq⟩
                rcases hj.eq_or_lt with rfl | hj
                · exact Or.inl (by omega)
                · exact Or.inr ⟨j, hj, hjl, heq⟩

/-- A scorer that stands at or before the window: it adds its contribution to every document
of the window and stands at the window's end afterwards. -/
theorem scoreTerm_spec {s : DirectTermScorer F} (h : s.Valid) {p base : ℤ} (hs : s.StandsAt p)
    (hp : p ≤ base) (w : ScoreWindow F) (hw : w.Sized) :
    ∃ w', scoreTerm base (base + kScoreWindowSize) s w
        = (s.withIndex (lowerBound s.docIds (base + kScoreWindowSize)), w') ∧
      w.Adds base w' s.contribution (· ∈ s.docIds) := by
  have hfuel : (s.listSize - s.currentIndex).toNat
      = s.docIds.length - lowerBound s.docIds p := by
    rw [h.listSize, hs]
    omega
  obtain ⟨w', hrun, hsized, hscores, hmarked⟩ := scorePostings_spec h
    (s.docIds.length - lowerBound s.docIds p) w hw
    (lowerBound_mono h.ascending (show p ≤ base + kScoreWindowSize by omega)) le_rfl
  refine ⟨w', ?_, hsized, fun slot hslot => ?_, fun slot hslot => ?_⟩
  · rw [scoreTerm, hfuel, ← hrun, ← hs, withIndex_self]
  · rw [hscores slot hslot, contributionFrom_lowerBound h (by omega)]
  · rw [hmarked slot hslot]
    refine or_congr_right ⟨?_, fun hmem => ?_⟩
    · rintro ⟨j, _, hjl, heq⟩
      rw [← heq, List.getD_eq_getElem _ _ hjl]
      exact List.getElem_mem hjl
    · obtain ⟨j, hj, hget⟩ := List.mem_iff_getElem.mp hmem
      have hget' : s.docIds.getD j 0 = base + slot := by rw [List.getD_eq_getElem _ _ hj, hget]
      refine ⟨j, ?_, hj, hget'⟩
      by_contra hcon
      have := lt_of_lt_lowerBound (not_le.mp hcon)
      omega

/-- **The essential terms over a window**: every slot receives the sum of their contributions,
the touched slots are marked, and every scorer stands at the window's end. -/
theorem scoreEssentialTerms_spec {p base : ℤ} (hp : p ≤ base) :
    ∀ (scorers : List (DirectTermScorer F)) (w : ScoreWindow F),
      (∀ s ∈ scorers, s.Valid ∧ s.StandsAt p) → w.Sized →
      ∃ w', scoreEssentialTerms base (base + kScoreWindowSize) scorers w
          = (scorers.map fun s =>
              s.withIndex (lowerBound s.docIds (base + kScoreWindowSize)), w') ∧
        w.Adds base w' (fun doc => (scorers.map fun s => s.contribution doc).sum)
          (fun doc => ∃ s ∈ scorers, doc ∈ s.docIds) := by
  intro scorers
  induction scorers with
  | nil =>
      intro w _ hw
      exact ⟨w, rfl, hw, by simp, by simp⟩
  | cons s ss ih =>
      intro w hss hw
      obtain ⟨⟨hv, hs⟩, hss⟩ := List.forall_mem_cons.mp hss
      obtain ⟨w₁, hrun₁, hw₁, hscores₁, hmarked₁⟩ := scoreTerm_spec hv hs hp w hw
      obtain ⟨w₂, hrun₂, hw₂, hscores₂, hmarked₂⟩ := ih w₁ hss hw₁
      refine ⟨w₂, ?_, hw₂, fun slot hslot => ?_, fun slot hslot => ?_⟩
      · simp only [scoreEssentialTerms, hrun₁, hrun₂, List.map_cons]
      · rw [hscores₂ slot hslot, hscores₁ slot hslot, List.map_cons, List.sum_cons, add_assoc]
      · rw [hmarked₂ slot hslot, hmarked₁ slot hslot, List.exists_mem_cons_iff, or_assoc]

end Nsparse
