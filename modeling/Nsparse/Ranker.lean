/-
Nsparse/Ranker.lean

`TopKHolder`: the bounded heap that keeps the `k` best scored items.

The heap is a priority queue whose top is the least kept item, together with a
threshold that repeats the top's score once the heap is full.  `Holds` is its
invariant: the threshold is in step, and the kept items are a top `k` of
everything offered.  `add` keeps it (`Holds.add`), an item that was never offered
may be counted as offered when it does not beat the top (`Holds.skip`), and
draining the heap lists the kept items by descending score
(`topKItemsDescending_spec`).

`DedupeTopKHolder` has no threshold and asks its top instead; it also keeps the set
of the ids it holds and turns down an id it has.
-/
import Nsparse.Lib.TopK
import Nsparse.Std
import Nsparse.Types

namespace Nsparse

/-- A scored item. -/
structure TopKItem (F T : Type) where
  score : F
  id : T
  deriving Repr, DecidableEq

/-- The priority queue of a `TopKHolder`: least score on top. -/
abbrev ItemQueue (F T : Type) [LE F] := PriorityQueue (TopKItem F T) F TopKItem.score

variable {F T : Type} [LinearOrder F]

/-- The heap, its capacity and the cached score of its top; `⊤` stands for the
infinity `threshold_` starts from. -/
structure TopKHolder (Q : ItemQueue F T) where
  k : ℤ
  pq : Q.Carrier
  threshold : WithTop F

namespace TopKHolder

variable {Q : ItemQueue F T}

/-- The constructor rejects a capacity that is not positive. -/
def new (Q : ItemQueue F T) (k : ℤ) : Except Exception (TopKHolder Q) :=
  if k ≤ 0 then .error (.invalidArgument notPositiveMsg) else .ok ⟨k, Q.empty, ⊤⟩

def items (h : TopKHolder Q) : Multiset (TopKItem F T) := Q.items h.pq

def size (h : TopKHolder Q) : ℕ := h.items.card

def full (h : TopKHolder Q) : Bool := (h.size : ℤ) = h.k

/-- The score of the queue's top as the threshold caches it. -/
def topScore (q : Q.Carrier) : WithTop F :=
  match Q.top q with
  | none => ⊤
  | some x => (x.score : WithTop F)

/-- Offer an item: reject it, take it, or let it replace the top. -/
def add (h : TopKHolder Q) (score : F) (item : T) : TopKHolder Q :=
  if h.k ≤ h.size ∧ (score : WithTop F) ≤ h.threshold then h
  else if (h.size : ℤ) < h.k then
    let pq := Q.push h.pq ⟨score, item⟩
    { h with pq, threshold := if ((Q.items pq).card : ℤ) = h.k then topScore pq else h.threshold }
  else
    let pq := Q.push (Q.pop h.pq) ⟨score, item⟩
    { h with pq, threshold := topScore pq }

/-- The least kept score; there is none in an empty heap, where the source's call is
undefined. -/
def peekScore (h : TopKHolder Q) : Option F := (Q.top h.pq).map TopKItem.score

/-- Pop `n` items, filling the result from the back. -/
def drain (Q : ItemQueue F T) : ℕ → Q.Carrier → List (TopKItem F T) → List (TopKItem F T)
  | 0, _, acc => acc
  | n + 1, q, acc =>
      match Q.top q with
      | none => acc
      | some x => drain Q n (Q.pop q) (x :: acc)

/-- Scores and ids, highest score first. -/
def topKItemsDescending (h : TopKHolder Q) : List F × List T :=
  let items := drain Q h.size h.pq []
  (items.map TopKItem.score, items.map TopKItem.id)

@[simp] theorem add_k (h : TopKHolder Q) (score : F) (item : T) : (h.add score item).k = h.k := by
  unfold add
  split
  · rfl
  · split <;> rfl

/-! ### The invariant -/

/-- `h` has capacity `k`, its threshold is in step with its top, and it keeps a top `k`
of `offered`. -/
structure Holds (h : TopKHolder Q) (k : ℕ) (offered : Multiset (TopKItem F T)) : Prop where
  pos : 0 < k
  cap : h.k = k
  best : TopK.IsTopK k TopKItem.score offered h.items
  threshold : h.items.card = k → h.threshold = topScore h.pq

theorem new_holds {k : ℤ} {h : TopKHolder Q} (hn : new Q k = .ok h) :
    h.Holds k.toNat 0 := by
  unfold new at hn
  split at hn
  · cases hn
  · rename_i hk
    cases hn
    have hitems : (⟨k, Q.empty, ⊤⟩ : TopKHolder Q).items = 0 := Q.items_empty
    refine ⟨by omega, by simp only; omega, ?_, ?_⟩
    · rw [hitems]
      exact TopK.isTopK_zero
    · rw [hitems, Multiset.card_zero]
      intro h0
      omega

/-- Nothing was offered to a heap that is new. -/
theorem holds_empty (Q : ItemQueue F T) {k : ℤ} (hk : 0 < k) :
    (⟨k, Q.empty, ⊤⟩ : TopKHolder Q).Holds k.toNat 0 :=
  new_holds (by rw [new, if_neg (not_le.mpr hk)])

theorem Holds.full_iff {h : TopKHolder Q} {k : ℕ} {offered : Multiset (TopKItem F T)}
    (hh : h.Holds k offered) : h.full = true ↔ h.items.card = k := by
  rw [full, decide_eq_true_iff, size, hh.cap, Nat.cast_inj]

/-- A full heap has a top, which is a least kept item. -/
theorem Holds.exists_top {h : TopKHolder Q} {k : ℕ} {offered : Multiset (TopKItem F T)}
    (hh : h.Holds k offered) (hf : h.items.card = k) :
    ∃ x, Q.top h.pq = some x ∧ h.peekScore = some x.score ∧
      h.threshold = (x.score : WithTop F) ∧ x ∈ h.items ∧ ∀ y ∈ h.items, x.score ≤ y.score := by
  rcases hx : Q.top h.pq with - | x
  · have h0 : h.items = 0 := (Q.top_eq_none _).mp hx
    rw [h0, Multiset.card_zero] at hf
    exact absurd hf.symm hh.pos.ne'
  · refine ⟨x, rfl, by simp [peekScore, hx], by rw [hh.threshold hf, topScore, hx], ?_, ?_⟩
    · rw [items, Q.items_pop _ _ hx]
      exact Multiset.mem_cons_self _ _
    · exact Q.top_le _ _ hx

/-- **Offering an item.**  `add` keeps a top `k` of what was offered and the new item. -/
theorem Holds.add {h : TopKHolder Q} {k : ℕ} {offered : Multiset (TopKItem F T)}
    (hh : h.Holds k offered) (score : F) (item : T) :
    (h.add score item).Holds k (⟨score, item⟩ ::ₘ offered) := by
  have hle := hh.best.card_le
  by_cases hf : h.items.card = k
  · obtain ⟨x, hx, -, hthr, -, hmin⟩ := hh.exists_top hf
    have hge : h.k ≤ h.size := by rw [hh.cap, size, hf]
    by_cases hs : score ≤ x.score
    · have hadd : h.add score item = h := by
        rw [TopKHolder.add, if_pos ⟨hge, by rw [hthr]; exact WithTop.coe_le_coe.mpr hs⟩]
      rw [hadd]
      refine ⟨hh.pos, hh.cap, ?_, hh.threshold⟩
      rw [← Multiset.singleton_add]
      refine hh.best.skip _ hf fun y hy z hz => ?_
      rw [Multiset.mem_singleton.mp hy]
      exact hs.trans (hmin z hz)
    · have hlt : ¬ (h.size : ℤ) < h.k := by omega
      have hrej : ¬ (h.k ≤ h.size ∧ (score : WithTop F) ≤ h.threshold) := by
        rw [hthr, WithTop.coe_le_coe]
        exact fun hc => hs hc.2
      have hpop : h.items = x ::ₘ Q.items (Q.pop h.pq) := Q.items_pop _ _ hx
      have hitems : (h.add score item).items = ⟨score, item⟩ ::ₘ Q.items (Q.pop h.pq) := by
        rw [TopKHolder.add, if_neg hrej, if_neg hlt]
        exact Q.items_push _ _
      refine ⟨hh.pos, by rw [add_k, hh.cap], ?_, ?_⟩
      · rw [hitems]
        have hbest := hh.best
        rw [hpop] at hbest
        refine hbest.swap _ (by rw [← hpop, hf]) (fun y hy => hmin y ?_) (not_le.mp hs).le
        rw [hpop]
        exact Multiset.mem_cons_of_mem hy
      · intro _
        rw [TopKHolder.add, if_neg hrej, if_neg hlt]
  · have hlt : h.items.card < k := lt_of_le_of_ne hle hf
    have hltk : (h.size : ℤ) < h.k := by rw [hh.cap, size]; exact_mod_cast hlt
    have hrej : ¬ (h.k ≤ h.size ∧ (score : WithTop F) ≤ h.threshold) := fun hc => by omega
    have hitems : (h.add score item).items = ⟨score, item⟩ ::ₘ h.items := by
      rw [TopKHolder.add, if_neg hrej, if_pos hltk]
      exact Q.items_push _ _
    refine ⟨hh.pos, by rw [add_k, hh.cap], ?_, ?_⟩
    · rw [hitems]
      exact hh.best.push _ hlt
    · intro hfull
      rw [hitems] at hfull
      have hcard : ((Q.items (Q.push h.pq ⟨score, item⟩)).card : ℤ) = h.k := by
        rw [Q.items_push, hh.cap]
        exact_mod_cast hfull
      rw [TopKHolder.add, if_neg hrej, if_pos hltk]
      simp only [hcard, if_true]

/-- An item that does not beat the top of a full heap counts as offered. -/
theorem Holds.skip {h : TopKHolder Q} {k : ℕ} {offered : Multiset (TopKItem F T)}
    (hh : h.Holds k offered) (hf : h.items.card = k) (low : Multiset (TopKItem F T))
    (hlow : ∀ x ∈ low, ∀ y, h.peekScore = some y → x.score ≤ y) :
    h.Holds k (low + offered) := by
  obtain ⟨x, -, hpeek, -, -, hmin⟩ := hh.exists_top hf
  refine ⟨hh.pos, hh.cap, hh.best.skip low hf fun y hy z hz => ?_, hh.threshold⟩
  exact (hlow y hy _ hpeek).trans (hmin z hz)

/-- A full heap ignores an item that does not beat its top. -/
theorem Holds.add_of_le {h : TopKHolder Q} {k : ℕ} {offered : Multiset (TopKItem F T)}
    (hh : h.Holds k offered) (hf : h.items.card = k) {score y : F} (hy : h.peekScore = some y)
    (hle : score ≤ y) (item : T) : h.add score item = h := by
  obtain ⟨x, -, hpeek, hthr, -, -⟩ := hh.exists_top hf
  obtain rfl : x.score = y := by simpa [hpeek] using hy
  rw [TopKHolder.add, if_pos]
  refine ⟨by rw [hh.cap, size, hf], ?_⟩
  rw [hthr]
  exact WithTop.coe_le_coe.mpr hle

/-- An item is turned down when `k` of those before it score at least as much. -/
theorem Holds.add_of_countP {h : TopKHolder Q} {k : ℕ} {offered : Multiset (TopKItem F T)}
    (hh : h.Holds k offered) {score : F} (hcount : k ≤ offered.countP fun x => score ≤ x.score)
    (item : T) : h.add score item = h := by
  have hfull : h.items.card = k := by
    have hcard := hh.best.card_eq
    have hle := Multiset.countP_le_card (fun x => score ≤ TopKItem.score x) offered
    omega
  obtain ⟨x, -, hpeek, -, hmem, hmin⟩ := hh.exists_top hfull
  exact hh.add_of_le hfull hpeek ((hh.best.le_iff_countP hfull hmem hmin score).mpr hcount) item

/-- Otherwise it is pushed, onto a full heap after a pop. -/
theorem Holds.add_pq {h : TopKHolder Q} {k : ℕ} {offered : Multiset (TopKItem F T)}
    (hh : h.Holds k offered) {score : F}
    (hcount : offered.countP (fun x => score ≤ x.score) < k) (item : T) :
    (h.add score item).pq = Q.push h.pq ⟨score, item⟩ ∨
      (h.add score item).pq = Q.push (Q.pop h.pq) ⟨score, item⟩ := by
  by_cases hfull : h.items.card = k
  · right
    obtain ⟨x, -, -, hthr, hmem, hmin⟩ := hh.exists_top hfull
    have hlt : ¬ (h.size : ℤ) < h.k := by rw [hh.cap, size, hfull]; exact lt_irrefl _
    have hrej : ¬ (h.k ≤ h.size ∧ (score : WithTop F) ≤ h.threshold) := by
      rw [hthr, WithTop.coe_le_coe, hh.best.le_iff_countP hfull hmem hmin]
      exact fun hc => absurd hc.2 (not_le.mpr hcount)
    rw [TopKHolder.add, if_neg hrej, if_neg hlt]
  · left
    have hroom : h.items.card < k := lt_of_le_of_ne hh.best.card_le hfull
    have hlt : (h.size : ℤ) < h.k := by rw [hh.cap, size]; exact_mod_cast hroom
    rw [TopKHolder.add, if_neg fun hc => absurd hc.1 (not_le.mpr hlt), if_pos hlt]

/-- A heap that was full stays full. -/
theorem Holds.add_full {h : TopKHolder Q} {k : ℕ} {offered : Multiset (TopKItem F T)}
    (hh : h.Holds k offered) (hf : h.items.card = k) (score : F) (item : T) :
    (h.add score item).items.card = k := by
  have hcard := (hh.add score item).best.card_eq
  have hoff := hh.best.card_eq
  rw [hcard, Multiset.card_cons]
  omega

/-- The top of a full heap never falls. -/
theorem Holds.peekScore_add_le {h : TopKHolder Q} {k : ℕ} {offered : Multiset (TopKItem F T)}
    (hh : h.Holds k offered) (hf : h.items.card = k) {score y y' : F} {item : T}
    (hy : h.peekScore = some y) (hy' : (h.add score item).peekScore = some y') : y ≤ y' := by
  by_cases hs : score ≤ y
  · rw [hh.add_of_le hf hy hs] at hy'
    simp_all
  · obtain ⟨x, hx, hpeek, hthr, -, hmin⟩ := hh.exists_top hf
    obtain rfl : x.score = y := by simpa [hpeek] using hy
    have hlt : ¬ (h.size : ℤ) < h.k := by rw [hh.cap, size, hf]; simp
    have hrej : ¬ (h.k ≤ h.size ∧ (score : WithTop F) ≤ h.threshold) := by
      rw [hthr, WithTop.coe_le_coe]
      exact fun hc => hs hc.2
    have hpq : (h.add score item).pq = Q.push (Q.pop h.pq) ⟨score, item⟩ := by
      rw [TopKHolder.add, if_neg hrej, if_neg hlt]
    rw [peekScore, hpq, Option.map_eq_some_iff] at hy'
    obtain ⟨z, hz, rfl⟩ := hy'
    have hzmem : z ∈ Q.items (Q.push (Q.pop h.pq) ⟨score, item⟩) := by
      rw [Q.items_pop _ _ hz]
      exact Multiset.mem_cons_self _ _
    rw [Q.items_push] at hzmem
    rcases Multiset.mem_cons.mp hzmem with rfl | hzmem
    · exact (not_le.mp hs).le
    · refine hmin z ?_
      rw [items, Q.items_pop _ _ hx]
      exact Multiset.mem_cons_of_mem hzmem

/-! ### Draining -/

/-- Draining lists the items in descending order of whatever the top is least in, while the
queue is one of `P`. -/
theorem drain_spec_of_key {K : Type} [LE K] {key : TopKItem F T → K} {P : Q.Carrier → Prop}
    (hpop : ∀ q, P q → P (Q.pop q))
    (htop : ∀ q x, P q → Q.top q = some x → ∀ y ∈ Q.items q, key x ≤ key y) {q : Q.Carrier}
    (hq : P q) (acc : List (TopKItem F T)) :
    ∃ l : List (TopKItem F T), drain Q (Q.items q).card q acc = l ++ acc ∧
      (l : Multiset (TopKItem F T)) = Q.items q ∧
      l.Pairwise (fun a b => key b ≤ key a) := by
  generalize hn : (Q.items q).card = n
  induction n generalizing q acc with
  | zero =>
      refine ⟨[], rfl, ?_, List.Pairwise.nil⟩
      rw [Multiset.card_eq_zero.mp hn]
      rfl
  | succ n ih =>
      rcases hx : Q.top q with - | x
      · rw [(Q.top_eq_none q).mp hx, Multiset.card_zero] at hn
        exact absurd hn (Nat.succ_ne_zero n).symm
      · have hitem := Q.items_pop q x hx
        obtain ⟨l, hl, hitems, hsorted⟩ := ih (hpop q hq) (x :: acc) (by
          rw [hitem, Multiset.card_cons] at hn
          omega)
        refine ⟨l ++ [x], ?_, ?_, ?_⟩
        · simp only [drain, hx, hl, List.append_assoc, List.singleton_append]
        · rw [hitem, ← hitems, ← Multiset.coe_add, Multiset.coe_singleton, add_comm,
            Multiset.singleton_add]
        · refine List.pairwise_append.mpr ⟨hsorted, List.pairwise_singleton _ _, ?_⟩
          intro a ha b hb
          rw [List.mem_singleton.mp hb]
          refine htop q x hq hx a ?_
          rw [hitem, ← hitems]
          exact Multiset.mem_cons_of_mem ha

theorem drain_spec (q : Q.Carrier) (acc : List (TopKItem F T)) :
    ∃ l : List (TopKItem F T), drain Q (Q.items q).card q acc = l ++ acc ∧
      (l : Multiset (TopKItem F T)) = Q.items q ∧
      l.Pairwise (fun a b => b.score ≤ a.score) :=
  drain_spec_of_key (P := fun _ => True) (fun _ => id) (fun q x _ => Q.top_le q x) trivial acc

theorem topKItemsDescending_spec_of_key {K : Type} [LE K] {key : TopKItem F T → K}
    {h : TopKHolder Q} {P : Q.Carrier → Prop} (hpop : ∀ q, P q → P (Q.pop q))
    (htop : ∀ q x, P q → Q.top q = some x → ∀ y ∈ Q.items q, key x ≤ key y) (hq : P h.pq) :
    ∃ l : List (TopKItem F T), (l : Multiset (TopKItem F T)) = h.items ∧
      l.Pairwise (fun a b => key b ≤ key a) ∧
      h.topKItemsDescending = (l.map TopKItem.score, l.map TopKItem.id) := by
  obtain ⟨l, hl, hitems, hsorted⟩ := drain_spec_of_key hpop htop hq []
  refine ⟨l, hitems, hsorted, ?_⟩
  rw [topKItemsDescending, size, items, hl, List.append_nil]

/-- **Draining the heap** lists exactly the kept items, by descending score. -/
theorem topKItemsDescending_spec (h : TopKHolder Q) :
    ∃ l : List (TopKItem F T), (l : Multiset (TopKItem F T)) = h.items ∧
      l.Pairwise (fun a b => b.score ≤ a.score) ∧
      h.topKItemsDescending = (l.map TopKItem.score, l.map TopKItem.id) :=
  topKItemsDescending_spec_of_key (P := fun _ => True) (fun _ => id)
    (fun q x _ => Q.top_le q x) trivial

/-- The scores a heap returns are the `k` largest of those offered. -/
theorem Holds.scores_eq_take {h : TopKHolder Q} {k : ℕ} {offered : Multiset (TopKItem F T)}
    (hh : h.Holds k offered) :
    h.topKItemsDescending.1 = ((offered.map TopKItem.score).sort (· ≥ ·)).take k := by
  obtain ⟨l, hitems, hsorted, heq⟩ := h.topKItemsDescending_spec
  rw [← hh.best.sort_scores_eq_take, heq, ← hitems, Multiset.map_coe]
  refine @List.Perm.eq_of_pairwise _ (· ≥ ·) _ _ (fun a b _ _ hab hba => le_antisymm hba hab)
    ?_ (Multiset.pairwise_sort _ _) ?_
  · exact List.pairwise_map.mpr hsorted
  · rw [← Multiset.coe_eq_coe, Multiset.sort_eq]

/-- A full heap's top has the `k`-th largest score offered. -/
theorem Holds.peekScore_eq {h : TopKHolder Q} {k : ℕ} {offered : Multiset (TopKItem F T)}
    (hh : h.Holds k offered) (hf : h.items.card = k) :
    h.peekScore = ((offered.map TopKItem.score).sort (· ≥ ·))[k - 1]? := by
  obtain ⟨x, -, hpeek, -, hmem, hmin⟩ := hh.exists_top hf
  rw [hpeek, hh.best.kth_score hf hmem hmin]

end TopKHolder

/-! ### The heap without duplicates -/

/-- A heap and the set of the dedupe ids it holds.  An item carries its dedupe id, or is
its own: `key` reads it. -/
structure DedupeTopKHolder (Q : ItemQueue F T) (ID : Type) where
  k : ℤ
  pq : Q.Carrier
  dedupe : List ID

namespace DedupeTopKHolder

variable {Q : ItemQueue F T} {ID : Type} [DecidableEq ID]

omit [DecidableEq ID] in
def new (Q : ItemQueue F T) (k : ℤ) : DedupeTopKHolder Q ID := ⟨k, Q.empty, []⟩

def items (h : DedupeTopKHolder Q ID) : Multiset (TopKItem F T) := Q.items h.pq

def size (h : DedupeTopKHolder Q ID) : ℕ := h.items.card

def full (h : DedupeTopKHolder Q ID) : Bool := (h.size : ℤ) = h.k

/-- The least kept score, of a heap that is not empty. -/
def peekScore (h : DedupeTopKHolder Q ID) : Option F := (Q.top h.pq).map TopKItem.score

/-- `score <= pq.top().score`. -/
def atMostTop (h : DedupeTopKHolder Q ID) (score : F) : Bool :=
  match Q.top h.pq with
  | none => false
  | some top => decide (score ≤ top.score)

/-- Offer an item: reject it, find it there, take it, or let it replace the top. -/
def add (key : T → ID) (h : DedupeTopKHolder Q ID) (score : F) (item : T) :
    DedupeTopKHolder Q ID :=
  if h.k ≤ h.size ∧ h.atMostTop score then h
  else if key item ∈ h.dedupe then h
  else if (h.size : ℤ) < h.k then
    { h with pq := Q.push h.pq ⟨score, item⟩, dedupe := key item :: h.dedupe }
  else
    match Q.top h.pq with
    | none => h
    | some top =>
        if top.score < score then
          { h with pq := Q.push (Q.pop h.pq) ⟨score, item⟩
                   dedupe := key item :: h.dedupe.erase (key top.id) }
        else h

/-- `top_k_descending_with_scores_and_padding`: items and scores. -/
def topKDescendingWithScoresAndPadding (h : DedupeTopKHolder Q ID) (padWith : T)
    (scorePad : F) : List T × List F :=
  let items := TopKHolder.drain Q h.size h.pq []
  (resize (items.map TopKItem.id) h.k.toNat padWith,
    resize (items.map TopKItem.score) h.k.toNat scorePad)

/-- `h` keeps a top `k` of `offered`, and its set is the dedupe ids it holds. -/
structure Holds (key : T → ID) (h : DedupeTopKHolder Q ID) (k : ℕ)
    (offered : Multiset (TopKItem F T)) : Prop where
  pos : 0 < k
  cap : h.k = k
  best : TopK.IsTopK k TopKItem.score offered h.items
  dedupe : (h.dedupe : Multiset ID) = h.items.map fun x => key x.id

variable {key : T → ID}

omit [DecidableEq ID] in
theorem new_holds (Q : ItemQueue F T) {k : ℕ} (hk : 0 < k) : (new Q k).Holds key k 0 := by
  have hitems : (new Q k : DedupeTopKHolder Q ID).items = 0 := Q.items_empty
  refine ⟨hk, rfl, ?_, ?_⟩
  · rw [hitems]
    exact TopK.isTopK_zero
  · rw [hitems]
    rfl

/-- **Offering a new item.**  `add` keeps a top `k` of what was offered and the item. -/
theorem Holds.add {h : DedupeTopKHolder Q ID} {k : ℕ} {offered : Multiset (TopKItem F T)}
    (hh : h.Holds key k offered) (score : F) {item : T}
    (hid : key item ∉ offered.map fun x => key x.id) :
    (h.add key score item).Holds key k (⟨score, item⟩ ::ₘ offered) := by
  have hle := hh.best.card_le
  have hnot : key item ∉ h.dedupe := by
    rw [← Multiset.mem_coe, hh.dedupe]
    intro hmem
    apply hid
    exact Multiset.mem_of_le (Multiset.map_le_map hh.best.le) hmem
  by_cases hfull : h.items.card = k
  · -- a full heap has a top
    have hge : h.k ≤ h.size := by rw [hh.cap, size, hfull]
    have hlt : ¬ (h.size : ℤ) < h.k := not_lt.mpr hge
    rcases htop : Q.top h.pq with - | top
    · have h0 : h.items = 0 := (Q.top_eq_none _).mp htop
      rw [h0, Multiset.card_zero] at hfull
      exact absurd hfull.symm hh.pos.ne'
    · have hpop : h.items = top ::ₘ Q.items (Q.pop h.pq) := Q.items_pop _ _ htop
      have hmin : ∀ y ∈ h.items, top.score ≤ y.score := Q.top_le _ _ htop
      by_cases hs : score ≤ top.score
      · have hadd : h.add key score item = h := by
          rw [DedupeTopKHolder.add, if_pos ⟨hge, by simp [atMostTop, htop, hs]⟩]
        rw [hadd]
        refine ⟨hh.pos, hh.cap, ?_, hh.dedupe⟩
        rw [← Multiset.singleton_add]
        refine hh.best.skip _ hfull fun y hy z hz => ?_
        rw [Multiset.mem_singleton.mp hy]
        exact hs.trans (hmin z hz)
      · have hadd : h.add key score item =
            { h with pq := Q.push (Q.pop h.pq) ⟨score, item⟩
                     dedupe := key item :: h.dedupe.erase (key top.id) } := by
          have hreject : ¬ (h.k ≤ h.size ∧ h.atMostTop score = true) := by
            simp [atMostTop, htop, not_le.mp hs]
          rw [DedupeTopKHolder.add, if_neg hreject, if_neg hnot, if_neg hlt]
          simp only [htop, if_pos (not_le.mp hs)]
        have hitems : (h.add key score item).items
            = ⟨score, item⟩ ::ₘ Q.items (Q.pop h.pq) := by
          rw [hadd]
          exact Q.items_push _ _
        refine ⟨hh.pos, by rw [hadd]; exact hh.cap, ?_, ?_⟩
        · rw [hitems]
          have hbest := hh.best
          rw [hpop] at hbest
          refine hbest.swap _ (by rw [← hpop, hfull]) (fun y hy => hmin y ?_) (not_le.mp hs).le
          rw [hpop]
          exact Multiset.mem_cons_of_mem hy
        · rw [hitems, Multiset.map_cons, hadd, ← Multiset.cons_coe, ← Multiset.coe_erase,
            hh.dedupe, hpop, Multiset.map_cons, Multiset.erase_cons_head]
  · have hroom : h.items.card < k := lt_of_le_of_ne hle hfull
    have hlt : (h.size : ℤ) < h.k := by
      rw [hh.cap, size]
      exact_mod_cast hroom
    have hadd : h.add key score item =
        { h with pq := Q.push h.pq ⟨score, item⟩, dedupe := key item :: h.dedupe } := by
      rw [DedupeTopKHolder.add, if_neg fun hc => absurd hc.1 (not_le.mpr hlt), if_neg hnot,
        if_pos hlt]
    have hitems : (h.add key score item).items = ⟨score, item⟩ ::ₘ h.items := by
      rw [hadd]
      exact Q.items_push _ _
    refine ⟨hh.pos, by rw [hadd]; exact hh.cap, ?_, ?_⟩
    · rw [hitems]
      exact hh.best.push _ hroom
    · rw [hitems, Multiset.map_cons, hadd, ← Multiset.cons_coe, hh.dedupe]

end DedupeTopKHolder

end Nsparse
