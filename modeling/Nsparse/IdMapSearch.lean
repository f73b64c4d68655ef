/-
Nsparse/IdMapSearch.lean

Sequences of id-map searches that share one `SearchParameters` object.

A search with a selector leaves the parameters pointing to its own wrapper, which is
freed by then (`search_of_selector`).  So the next search with the same parameters
consults a dead object, and so does every one after it (`searches_of_dead`): sharing
the parameters is harmless exactly when there is no selector to wrap
(`searches_leave_parameters_iff`).
-/
import Nsparse.IdMapIndex
import Nsparse.InvertedHistory

namespace Nsparse

namespace IDMapIndex

variable {σ F P : Type}

/-- One search of a sequence: the instance, the allocator it finds, and its arguments. -/
structure SearchCall (σ F : Type) where
  index : IDMapIndex σ
  allocator : Allocator
  args : SearchArgs F

/-- The search of a call with the given parameters. -/
def SearchCall.search (I : Index σ F P) (c : SearchCall σ F) (store : SelectorStore)
    (params : Option (SearchParameters P)) :
    SearchOutcome F × Option (SearchParameters P) × SelectorStore :=
  c.index.search I c.allocator store params c.args

/-- Searches one after the other, each with the parameters as the one before it left them: their
outcomes, and the parameters and live selectors at the end. -/
def searches (I : Index σ F P) : List (SearchCall σ F) → SelectorStore →
    Option (SearchParameters P) →
    List (SearchOutcome F) × Option (SearchParameters P) × SelectorStore
  | [], store, params => ([], params, store)
  | c :: cs, store, params =>
      let (outcome, params, store) := c.search I store params
      let (outcomes, params, store) := searches I cs store params
      (outcome :: outcomes, params, store)

/-- The searches leave the shared parameters as they found them: these and the selector objects
end up unchanged, every search has the outcome it has on the original parameters, and none
consults a dead selector. -/
structure LeavesParameters (I : Index σ F P) (store : SelectorStore)
    (params : Option (SearchParameters P)) (calls : List (SearchCall σ F)) : Prop where
  unchanged : (searches I calls store params).2 = (params, store)
  outcomes : (searches I calls store params).1 = calls.map fun c => (c.search I store params).1
  alive : SearchOutcome.deadSelector ∉ (searches I calls store params).1

/-- The address of the parameters' selector. -/
def selectorOf (params : Option (SearchParameters P)) : Option ℕ :=
  params.bind SearchParameters.idSelector

/-! ### One search -/

variable {I : Index σ F P} {store : SelectorStore} {params : Option (SearchParameters P)}

/-- Freeing a selector that was just allocated gives the store back. -/
theorem filter_allocated {address : ℕ} (h : store.lookup address = none) (s : IDSelector) :
    ((address, s) :: store).filter (fun object => object.1 ≠ address) = store := by
  rw [List.filter_cons_of_neg (by simp), List.filter_eq_self]
  intro object hobject
  have hne : address ≠ object.1 := by simpa using List.lookup_eq_none_iff.mp h object hobject
  simpa using hne.symm

theorem publicSearch_ne_dead (index : σ) (a : SearchArgs F) (fields : Option P)
    (s : Option IDSelector) : I.publicSearch index a fields s ≠ .deadSelector := by
  unfold Index.publicSearch
  split
  · simp
  · split
    · simp
    · split
      · split <;> simp
      · simp

theorem translate_ne_dead {m : IDMapIndex σ} {a : SearchArgs F} {outcome : SearchOutcome F}
    (h : outcome ≠ .deadSelector) : m.translate a outcome ≠ .deadSelector := by
  cases outcome with
  | returned distances labels =>
      unfold translate
      dsimp only
      split <;> simp
  | deadSelector => exact absurd rfl h
  | threw => simp [translate]
  | outOfRange => simp [translate]
  | outOfFuel => simp [translate]

/-- Without a selector a search leaves everything alone. -/
theorem search_of_no_selector (h : selectorOf params = none) (c : SearchCall σ F) :
    (c.search I store params).2 = (params, store) ∧
      (c.search I store params).1 ≠ .deadSelector := by
  unfold SearchCall.search IDMapIndex.search
  cases params with
  | none => exact ⟨rfl, translate_ne_dead (publicSearch_ne_dead _ _ _ _)⟩
  | some p =>
      have hp : p.idSelector = none := h
      simp only [hp]
      exact ⟨trivial, translate_ne_dead (publicSearch_ne_dead _ _ _ _)⟩

/-- **A search with a live selector** keeps the live objects and leaves the parameters pointing
to an address where there is none. -/
theorem search_of_selector {p : SearchParameters P} {address : ℕ} {s : IDSelector}
    (hp : p.idSelector = some address) (hs : store.lookup address = some s)
    (c : SearchCall σ F) :
    ∃ wrapper, (c.search I store (some p)).2
        = (some { p with idSelector := some wrapper }, store) ∧
      store.lookup wrapper = none ∧ wrapper ≠ address := by
  have hfresh := c.allocator.fresh store
  refine ⟨c.allocator.address store, ?_, hfresh, fun h => ?_⟩
  · unfold SearchCall.search IDMapIndex.search
    simp only [hp, hs, filter_allocated hfresh]
  · rw [h, hs] at hfresh
    cases hfresh

/-- A search whose selector is dead consults it. -/
theorem search_of_dead {p : SearchParameters P} {address : ℕ}
    (hp : p.idSelector = some address) (hdead : store.lookup address = none)
    (c : SearchCall σ F) : c.search I store (some p) = (.deadSelector, some p, store) := by
  unfold SearchCall.search IDMapIndex.search
  simp only [hp, hdead]

/-! ### Sequences of searches -/

theorem searches_of_no_selector (h : selectorOf params = none) (calls : List (SearchCall σ F)) :
    LeavesParameters I store params calls := by
  induction calls with
  | nil => exact ⟨rfl, rfl, by simp [searches]⟩
  | cons c cs ih =>
      obtain ⟨hleft, hlive⟩ : (c.search I store params).2 = (params, store) ∧
          (c.search I store params).1 ≠ .deadSelector := search_of_no_selector h c
      rcases hc : c.search I store params with ⟨outcome, params', store'⟩
      rw [hc] at hleft hlive
      obtain ⟨rfl, rfl⟩ := Prod.mk.inj hleft
      refine ⟨?_, ?_, ?_⟩
      · simpa [searches, hc] using ih.unchanged
      · simpa [searches, hc] using ih.outcomes
      · simpa [searches, hc, hlive.symm] using ih.alive

/-- Once the selector is dead every search consults it. -/
theorem searches_of_dead {p : SearchParameters P} {address : ℕ}
    (hp : p.idSelector = some address) (hdead : store.lookup address = none)
    (calls : List (SearchCall σ F)) :
    searches I calls store (some p)
      = (List.replicate calls.length .deadSelector, some p, store) := by
  induction calls with
  | nil => rfl
  | cons c cs ih =>
      simp only [searches, search_of_dead hp hdead, ih, List.length_cons, List.replicate_succ]

/-- With a selector the first search leaves a dead one behind. -/
theorem searches_of_selector {p : SearchParameters P} {address : ℕ} {s : IDSelector}
    (hp : p.idSelector = some address) (hs : store.lookup address = some s)
    (c : SearchCall σ F) (cs : List (SearchCall σ F)) :
    ∃ wrapper, wrapper ≠ address ∧ searches I (c :: cs) store (some p)
      = ((c.search I store (some p)).1 :: List.replicate cs.length .deadSelector,
        some { p with idSelector := some wrapper }, store) := by
  obtain ⟨wrapper, hleft, hdead, hne⟩ := search_of_selector (I := I) hp hs c
  refine ⟨wrapper, hne, ?_⟩
  rcases hc : c.search I store (some p) with ⟨outcome, params', store'⟩
  rw [hc] at hleft
  obtain ⟨rfl, rfl⟩ := Prod.mk.inj hleft
  have hrest := searches_of_dead (I := I) (p := { p with idSelector := some wrapper }) rfl hdead cs
  simp only [searches, hc, hrest]

theorem not_leavesParameters {p : SearchParameters P} {address : ℕ} {s : IDSelector}
    (hp : p.idSelector = some address) (hs : store.lookup address = some s)
    (c : SearchCall σ F) (cs : List (SearchCall σ F)) :
    ¬ LeavesParameters I store (some p) (c :: cs) := by
  obtain ⟨wrapper, hne, hrun⟩ := searches_of_selector (I := I) hp hs c cs
  intro h
  have hparams := h.unchanged
  rw [hrun] at hparams
  have hsel := congrArg SearchParameters.idSelector (Option.some.inj (Prod.mk.inj hparams).1)
  rw [hp] at hsel
  exact hne (Option.some.inj hsel)

/-- **Shared parameters.**  When the caller's selector is alive, searches leave the parameters as
they found them exactly when there is no search or no selector. -/
theorem searches_leave_parameters_iff (I : Index σ F P) (store : SelectorStore)
    (params : Option (SearchParameters P)) (calls : List (SearchCall σ F))
    (hlive : ∀ address, selectorOf params = some address → store.lookup address ≠ none) :
    LeavesParameters I store params calls ↔ calls = [] ∨ selectorOf params = none := by
  constructor
  · intro h
    rcases calls with - | ⟨c, cs⟩
    · exact Or.inl rfl
    · refine Or.inr (Option.eq_none_iff_forall_ne_some.mpr fun address haddress => ?_)
      obtain ⟨p, rfl, hp⟩ := Option.bind_eq_some_iff.mp haddress
      obtain ⟨s, hs⟩ := Option.ne_none_iff_exists'.mp (hlive address haddress)
      exact not_leavesParameters hp hs c cs h
  · rintro (rfl | h)
    · exact ⟨rfl, rfl, by simp [searches]⟩
    · exact searches_of_no_selector h calls

/-! ### Two searches with one selector -/

/-- An address above all live ones. -/
def bumpAllocator : Allocator where
  address store := (store.map Prod.fst).sum + 1
  fresh store := by
    rw [List.lookup_eq_none_iff]
    intro object hobject
    have hle := List.single_le_sum (fun _ _ => Nat.zero_le _) _
      (List.mem_map_of_mem (f := Prod.fst) hobject)
    have hne : (store.map Prod.fst).sum + 1 ≠ object.1 := by omega
    simpa using hne

/-- A query for the term 0 with room for one result. -/
def oneQuery : SearchArgs ℤ :=
  ⟨1, some [0, 1], some [0], some [1], 1, some [0], some [0]⟩

/-- A search of an id map that holds one document under the id 70. -/
def oneSearch : SearchCall (InvertedIndex ℤ) ℤ :=
  ⟨⟨InvertedIndex.invertedOf 1 [[(0, 5)]], [70], fun id => if id = 70 then some 0 else none⟩,
    bumpAllocator, oneQuery⟩

/-- Searches of that id map run the inverted index. -/
def invertedSearch : Index (InvertedIndex ℤ) ℤ Unit :=
  InvertedIndex.asIndex (sortedQueue TopKItem.score) insertionSort 10

/-- The theorem at two searches without a selector, and at one with the selector of 70. -/
theorem searches_leave_parameters_iff_one_document :
    LeavesParameters invertedSearch [] (some ⟨none, ()⟩) [oneSearch, oneSearch] ∧
    ¬ LeavesParameters invertedSearch [(1, .array [70])] (some ⟨some 1, ()⟩) [oneSearch] :=
  ⟨(searches_leave_parameters_iff invertedSearch [] (some ⟨none, ()⟩) [oneSearch, oneSearch]
      (by simp [selectorOf])).mpr (Or.inr rfl),
    fun h => by
      simpa [selectorOf] using (searches_leave_parameters_iff invertedSearch [(1, .array [70])]
        (some ⟨some 1, ()⟩) [oneSearch] (by simp [selectorOf])).mp h⟩

/-- Two searches for the document 70 alone: the second consults the first one's wrapper. -/
theorem second_search_consults_dead_selector :
    .deadSelector ∈ (searches invertedSearch [oneSearch, oneSearch] [(1, .array [70])]
        (some ⟨some 1, ()⟩)).1 ∧
    ¬ LeavesParameters invertedSearch [(1, .array [70])] (some ⟨some 1, ()⟩)
        [oneSearch, oneSearch] := by
  refine ⟨?_, not_leavesParameters rfl rfl oneSearch [oneSearch]⟩
  have hs : List.lookup 1 [(1, IDSelector.array [70])] = some (.array [70]) := rfl
  obtain ⟨wrapper, -, hrun⟩ := searches_of_selector (I := invertedSearch)
    (p := ⟨some 1, ()⟩) rfl hs oneSearch [oneSearch]
  rw [hrun]
  simp

end IDMapIndex

end Nsparse
