/-
Nsparse/Heaps.lean

What the bounded heaps of `Ranker` return after any sequence of `add` calls.

`ReturnsTopK` is what a caller expects of the answer: as many pairs as there are,
or `k` of them; the `k` largest scores in descending order; and each answered pair
an added one, as often as it was added.  `TracksKth` is what a search prunes with:
the heap is full exactly from the `k`-th `add` on, and the score on its top is then
the `k`-th largest so far.

Both follow from the invariants of `Ranker` by one induction over the calls
(`TopKHolder.Holds.addAll`, `DedupeTopKHolder.Holds.addAll`); the second one needs
the dedupe ids of a sequence to be different from each other.
-/
import Nsparse.SeismicSearch

namespace Nsparse

variable {F T ID : Type}

/-- What a list of `add` calls offers. -/
def offeredBy (added : List (F × T)) : Multiset (TopKItem F T) :=
  (added.map fun call => ⟨call.1, call.2⟩ : List (TopKItem F T))

@[simp] theorem offeredBy_nil : offeredBy ([] : List (F × T)) = 0 := rfl

@[simp] theorem offeredBy_cons (call : F × T) (added : List (F × T)) :
    offeredBy (call :: added) = ⟨call.1, call.2⟩ ::ₘ offeredBy added := rfl

@[simp] theorem card_offeredBy (added : List (F × T)) : (offeredBy added).card = added.length := by
  simp [offeredBy]

theorem map_score_offeredBy (added : List (F × T)) :
    (offeredBy added).map TopKItem.score = ((added.map Prod.fst : List F) : Multiset F) := by
  rw [offeredBy, Multiset.map_coe, List.map_map]
  rfl

theorem map_pair_offeredBy (added : List (F × T)) :
    (offeredBy added).map (fun x => (x.score, x.id)) = (added : Multiset (F × T)) := by
  rw [offeredBy, Multiset.map_coe, List.map_map]
  exact congrArg _ (List.map_id _)

variable [LinearOrder F]

attribute [local instance] TopK.isTrans_ge TopK.antisymm_ge

/-- The added scores, the largest first. -/
def descendingScores (added : List (F × T)) : List F :=
  ((added.map Prod.fst : List F) : Multiset F).sort (· ≥ ·)

/-- `scores` and `ids` are a top `k` of the added pairs. -/
structure ReturnsTopK (k : ℕ) (added : List (F × T)) (scores : List F) (ids : List T) : Prop where
  count : scores.length = min k added.length
  paired : ids.length = scores.length
  descending : scores.Pairwise (· ≥ ·)
  largest : scores = (descendingScores added).take k
  among : ((scores.zip ids : List (F × T)) : Multiset (F × T)) ≤ (added : Multiset (F × T))

/-- A heap of capacity `k` knows when it is full, and then the `k`-th largest score. -/
structure TracksKth (k : ℕ) (added : List (F × T)) (full : Bool) (held : ℕ)
    (peekScore : Option F) : Prop where
  held_eq : held = min k added.length
  full_iff : full = true ↔ held = k
  kth : full = true → peekScore = (descendingScores added)[k - 1]?

/-- **Draining a top `k`.**  A descending list of a top `k` is what a caller expects. -/
theorem returnsTopK_of_drained {k : ℕ} {added : List (F × T)} {l : List (TopKItem F T)}
    (hbest : TopK.IsTopK k TopKItem.score (offeredBy added) (l : Multiset (TopKItem F T)))
    (hsorted : l.Pairwise fun a b => b.score ≤ a.score) :
    ReturnsTopK k added (l.map TopKItem.score) (l.map TopKItem.id) where
  count := by
    rw [List.length_map, ← Multiset.coe_card, hbest.card_eq, card_offeredBy]
  paired := by rw [List.length_map, List.length_map]
  descending := List.pairwise_map.mpr hsorted
  largest := by
    rw [descendingScores, ← map_score_offeredBy, ← hbest.sort_scores_eq_take]
    refine @List.Perm.eq_of_pairwise _ (· ≥ ·) _ _ (fun a b _ _ hab hba => le_antisymm hba hab)
      (List.pairwise_map.mpr hsorted) (Multiset.pairwise_sort _ _) ?_
    rw [← Multiset.coe_eq_coe, Multiset.sort_eq, Multiset.map_coe]
  among := by
    have hle := Multiset.map_le_map (f := fun x : TopKItem F T => (x.score, x.id)) hbest.le
    rwa [Multiset.map_coe, map_pair_offeredBy, ← List.zip_map'] at hle

/-! ### The runs -/

namespace TopKHolder

variable {Q : ItemQueue F T}

/-- A sequence of `add` calls. -/
def addAll (h : TopKHolder Q) (added : List (F × T)) : TopKHolder Q :=
  added.foldl (fun h call => h.add call.1 call.2) h

theorem Holds.addAll {h : TopKHolder Q} {k : ℕ} {offered : Multiset (TopKItem F T)}
    (hh : h.Holds k offered) (added : List (F × T)) :
    (h.addAll added).Holds k (offeredBy added + offered) := by
  induction added generalizing h offered with
  | nil =>
      rw [offeredBy_nil, zero_add]
      exact hh
  | cons call added ih =>
      have hstep := ih (hh.add call.1 call.2)
      rw [offeredBy_cons, Multiset.cons_add, ← Multiset.add_cons]
      exact hstep

theorem Holds.tracksKth {h : TopKHolder Q} {k : ℕ} {added : List (F × T)}
    (hh : h.Holds k (offeredBy added)) : TracksKth k added h.full h.size h.peekScore where
  held_eq := by rw [size, hh.best.card_eq, card_offeredBy]
  full_iff := hh.full_iff
  kth hf := by
    rw [hh.peekScore_eq (hh.full_iff.mp hf), map_score_offeredBy]
    rfl

theorem Holds.returnsTopK {h : TopKHolder Q} {k : ℕ} {added : List (F × T)}
    (hh : h.Holds k (offeredBy added)) :
    ReturnsTopK k added h.topKItemsDescending.1 h.topKItemsDescending.2 := by
  obtain ⟨l, hitems, hsorted, heq⟩ := h.topKItemsDescending_spec
  have hbest := hh.best
  rw [← hitems] at hbest
  rw [heq]
  exact returnsTopK_of_drained hbest hsorted

/-- The run of a new heap. -/
theorem new_addAll {k : ℤ} {h : TopKHolder Q} (hn : TopKHolder.new Q k = .ok h)
    (added : List (F × T)) : (h.addAll added).Holds k.toNat (offeredBy added) := by
  have hrun := (new_holds hn).addAll added
  rwa [add_zero] at hrun

theorem new_of_pos (Q : ItemQueue F T) {k : ℤ} (hk : 0 < k) :
    TopKHolder.new Q k = .ok ⟨k, Q.empty, ⊤⟩ := if_neg (not_le.mpr hk)

end TopKHolder

namespace DedupeTopKHolder

variable {Q : ItemQueue F T} [DecidableEq ID] {key : T → ID}

/-- A sequence of `add` calls. -/
def addAll (key : T → ID) (h : DedupeTopKHolder Q ID) (added : List (F × T)) :
    DedupeTopKHolder Q ID :=
  added.foldl (fun h call => h.add key call.1 call.2) h

theorem Holds.addAll {h : DedupeTopKHolder Q ID} {k : ℕ} {offered : Multiset (TopKItem F T)}
    (hh : h.Holds key k offered) {added : List (F × T)}
    (hdistinct : (added.map fun call => key call.2).Nodup)
    (hnew : ∀ call ∈ added, key call.2 ∉ offered.map fun x => key x.id) :
    (h.addAll key added).Holds key k (offeredBy added + offered) := by
  induction added generalizing h offered with
  | nil =>
      rw [offeredBy_nil, zero_add]
      exact hh
  | cons call added ih =>
      rw [List.map_cons, List.nodup_cons] at hdistinct
      have hstep := hh.add call.1 (hnew call List.mem_cons_self)
      rw [offeredBy_cons, Multiset.cons_add, ← Multiset.add_cons]
      refine ih hstep hdistinct.2 fun other hmem => ?_
      rw [Multiset.map_cons, Multiset.mem_cons, not_or]
      refine ⟨fun heq => hdistinct.1 ?_, hnew other (List.mem_cons_of_mem _ hmem)⟩
      exact List.mem_map.mpr ⟨other, hmem, heq⟩

/-- The run of a new heap. -/
theorem new_addAll (Q : ItemQueue F T) {k : ℕ} (hk : 0 < k) {added : List (F × T)}
    (hdistinct : (added.map fun call => key call.2).Nodup) :
    ((new Q k).addAll key added).Holds key k (offeredBy added) := by
  have hnew : (new Q k : DedupeTopKHolder Q ID).Holds key k 0 := new_holds Q hk
  have hrun := hnew.addAll hdistinct (by simp)
  rwa [add_zero] at hrun

omit [DecidableEq ID] in
/-- A full heap has a top, with the `k`-th largest score. -/
theorem Holds.tracksKth {h : DedupeTopKHolder Q ID} {k : ℕ} {added : List (F × T)}
    (hh : h.Holds key k (offeredBy added)) : TracksKth k added h.full h.size h.peekScore where
  held_eq := by rw [size, hh.best.card_eq, card_offeredBy]
  full_iff := by rw [full, decide_eq_true_iff, hh.cap, Nat.cast_inj]
  kth hf := by
    rw [full, decide_eq_true_iff, hh.cap, Nat.cast_inj] at hf
    rcases htop : Q.top h.pq with - | top
    · have h0 : h.items = 0 := (Q.top_eq_none _).mp htop
      rw [size, h0, Multiset.card_zero] at hf
      exact absurd hf.symm hh.pos.ne'
    · have hmem : top ∈ h.items := by
        rw [items, Q.items_pop _ _ htop]
        exact Multiset.mem_cons_self _ _
      rw [peekScore, htop, descendingScores, ← map_score_offeredBy,
        hh.best.kth_score hf hmem (Q.top_le _ _ htop)]
      rfl

omit [DecidableEq ID] in
/-- Draining fills the front of the answer; the rest is padding. -/
theorem Holds.returnsTopK {h : DedupeTopKHolder Q ID} {k : ℕ} {added : List (F × T)}
    (hh : h.Holds key k (offeredBy added)) (padWith : T) (scorePad : F) :
    ∃ scores ids, ReturnsTopK k added scores ids ∧
      h.topKDescendingWithScoresAndPadding padWith scorePad
        = (resize ids k padWith, resize scores k scorePad) := by
  obtain ⟨l, hl, hitems, hsorted⟩ := TopKHolder.drain_spec h.pq []
  have hbest := hh.best
  rw [items, ← hitems] at hbest
  refine ⟨_, _, returnsTopK_of_drained hbest hsorted, ?_⟩
  rw [topKDescendingWithScoresAndPadding, size, items, hl, List.append_nil, hh.cap,
    Int.toNat_natCast]

end DedupeTopKHolder

/-! ### Cutting a query -/

section Tokens

variable [Zero F] [Add F] [Sub F] [Mul F] [FloatFormat F]

/-- The terms of a query, each behind its weight as `top_k_tokens` compares it. -/
def weightedTerms (F : Type) [LinearOrder F] [Zero F] [Add F] [Sub F] [Mul F] [FloatFormat F]
    (elementSize : ℕ) (query : SparseRow Code) : List (F × ℕ) :=
  query.map fun entry =>
    ((ValueType.ofWidth F elementSize).toFloat ((ValueType.ofWidth F elementSize).decode entry.2),
      entry.1)

/-- A query that is not longer than the cut keeps all its terms, a longer one the heaviest. -/
theorem topKTokens_spec (Q : ItemQueue F ℕ) (elementSize : ℕ) (query : SparseRow Code) {cut : ℤ}
    (hcut : 0 < cut) :
    ∃ tokens, topKTokens Q elementSize query cut = .ok tokens ∧
      if (query.length : ℤ) ≤ cut then tokens = query.map Prod.fst
      else ∃ weights, ReturnsTopK cut.toNat (weightedTerms F elementSize query) weights tokens := by
  by_cases hlen : (query.length : ℤ) ≤ cut
  · exact ⟨_, by rw [topKTokens, if_pos hlen], by rw [if_pos hlen]⟩
  · have hnew := TopKHolder.new_of_pos Q hcut
    refine ⟨_, by rw [topKTokens, if_neg hlen, hnew]; rfl, ?_⟩
    rw [if_neg hlen]
    have hrun := (TopKHolder.new_addAll hnew (weightedTerms F elementSize query)).returnsTopK
    rw [TopKHolder.addAll, weightedTerms, List.foldl_map] at hrun
    exact ⟨_, hrun⟩

end Tokens

/-! ### The three together -/

/-- **The bounded heaps return the true top `k`**, whatever is added and in whatever order;
after every prefix of the calls they are full exactly when `k` items are held, and then
their top has the `k`-th largest score.  Cutting a query keeps its heaviest terms. -/
theorem heaps_return_topK [Zero F] [Add F] [Sub F] [Mul F] [FloatFormat F] [DecidableEq ID]
    (Q : ItemQueue F T) (key : T → ID) (tokens : ItemQueue F ℕ) (k : ℤ) (hk : 0 < k) :
    (∃ h, TopKHolder.new Q k = .ok h ∧ ∀ added : List (F × T),
      ReturnsTopK k.toNat added (h.addAll added).topKItemsDescending.1
        (h.addAll added).topKItemsDescending.2 ∧
      ∀ seen, seen <+: added → TracksKth k.toNat seen (h.addAll seen).full (h.addAll seen).size
        (h.addAll seen).peekScore) ∧
    (∀ added : List (F × T), (added.map fun call => key call.2).Nodup →
      let run := DedupeTopKHolder.addAll key (DedupeTopKHolder.new Q k)
      (∀ padWith scorePad, ∃ scores ids, ReturnsTopK k.toNat added scores ids ∧
        (run added).topKDescendingWithScoresAndPadding padWith scorePad
          = (resize ids k.toNat padWith, resize scores k.toNat scorePad)) ∧
      ∀ seen, seen <+: added →
        TracksKth k.toNat seen (run seen).full (run seen).size (run seen).peekScore) ∧
    ∀ (elementSize : ℕ) (query : SparseRow Code), ∃ kept,
      topKTokens tokens elementSize query k = .ok kept ∧
        if (query.length : ℤ) ≤ k then kept = query.map Prod.fst
        else ∃ weights,
          ReturnsTopK k.toNat (weightedTerms F elementSize query) weights kept := by
  refine ⟨?_, ?_, fun elementSize query => topKTokens_spec tokens elementSize query hk⟩
  · have hnew := TopKHolder.new_of_pos Q hk
    exact ⟨_, hnew, fun added => ⟨(TopKHolder.new_addAll hnew added).returnsTopK,
      fun seen _ => (TopKHolder.new_addAll hnew seen).tracksKth⟩⟩
  · intro added hdistinct run
    -- every prefix has different ids too
    have hrun : ∀ seen, seen <+: added → (run seen).Holds key k.toNat (offeredBy seen) := by
      intro seen hseen
      have hsub := (hseen.sublist.map fun call => key call.2).nodup hdistinct
      have hcast : ((k.toNat : ℕ) : ℤ) = k := Int.toNat_of_nonneg hk.le
      have hheld := DedupeTopKHolder.new_addAll Q (k := k.toNat) (by omega) hsub
      rwa [hcast] at hheld
    exact ⟨fun padWith scorePad => (hrun added (List.prefix_refl _)).returnsTopK padWith scorePad,
      fun seen hseen => (hrun seen hseen).tracksKth⟩

/-- Three documents through a heap of two. -/
theorem heaps_return_topK_two :
    (0 : ℤ) < 2 ∧ ∃ h, TopKHolder.new (sortedQueue (TopKItem.score (F := ℤ) (T := ℤ))) 2 = .ok h ∧
      ReturnsTopK 2 [(3, 7), (5, 8), (4, 9)]
        (h.addAll [(3, 7), (5, 8), (4, 9)]).topKItemsDescending.1
        (h.addAll [(3, 7), (5, 8), (4, 9)]).topKItemsDescending.2 := by
  obtain ⟨h, hnew, hrun⟩ := (heaps_return_topK
    (sortedQueue (TopKItem.score (F := ℤ) (T := ℤ))) id
    (sortedQueue TopKItem.score) 2 (by decide)).1
  exact ⟨by decide, h, hnew, (hrun _).1⟩

end Nsparse
