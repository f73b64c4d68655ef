/-
Nsparse/InvertedHistory.lean

Histories of one inverted index: any interleaving of `add`, `build` and `search`.

`run` folds the calls over an index and `added` collects the documents whose `add`
returned normally.  A history brings an index to one of two situations: it tracks
what was added (`Tracks`: all documents are still waiting, or all are in the posting
lists), or some documents are gone (`Lost`).  They get lost by one kind of step, an
`add` when posting lists are already there: the next `build` inverts the new vectors
alone and replaces the lists (`step_tracks`, `step_lost`).  So a normally returning `build` leaves exactly the added documents in the lists if
and only if no such step happened (`run_build_tracks`, `run_build_lost`).
-/
import Nsparse.InvertedIndex

namespace Nsparse

namespace InvertedIndex

variable {F : Type}

/-! ### One `add` -/

/-- An `add` either throws and changes nothing, or appends its rows to the waiting vectors. -/
theorem add_cases (index : InvertedIndex F) (a : CsrArgs F)
    (hv : ∀ v, index.vectors = some v → v.WellFormed) :
    (∃ e, index.add a = (index, .error e) ∧ (a.rows = [] ∨ index.dimension = 0)) ∨
    ∃ v, index.add a = ({ index with
        vectors := some v
        numVectors := index.numVectors + a.rows.length }, .ok ()) ∧
      v.WellFormed ∧ a.rows ≠ [] ∧ (index.vectors = none → index.dimension ≠ 0) ∧
      v.rows = (index.vectors.elim [] SparseVectors.rows) ++ a.rows := by
  unfold add
  rcases hc : a.checked with e | ⟨p, is, vs⟩
  · exact Or.inl ⟨e, rfl, Or.inl (CsrArgs.rows_of_checked_error hc)⟩
  · obtain ⟨hpos, hlen, hoff, hpair, hrows, hn⟩ := CsrArgs.checked_eq_ok hc
    have hnnz : p.getD a.n.toNat 0 = is.length := by
      have hlast := hoff.last
      rw [List.getLast?_eq_getElem?, show p.length - 1 = a.n.toNat by omega] at hlast
      rw [List.getD_eq_getElem?_getD, hlast, Option.getD_some]
    have hcount : a.rows.length = a.n.toNat := by omega
    have hne : a.rows ≠ [] := List.length_pos_iff.mp (by omega)
    have key : ∀ v : SparseVectors F, v.WellFormed →
        ∃ v', v.addVectors p is vs = .ok v' ∧ v'.WellFormed ∧ v'.rows = v.rows ++ a.rows := by
      intro v hw
      rcases hadd : v.addVectors p is vs with e | v'
      · exfalso
        unfold SparseVectors.addVectors at hadd
        rw [if_neg (not_not.mpr hpair)] at hadd
        split at hadd <;> cases hadd
      · obtain ⟨hw', hr', -⟩ := SparseVectors.addVectors_eq_ok hw hoff hadd
        exact ⟨v', rfl, hw', by rw [hr', hrows]⟩
    simp only [hnnz, List.take_length, hpair ▸ List.take_length (l := vs)]
    rcases hvec : index.vectors with - | v
    · rcases hnew : SparseVectors.new (V := F) kElementSize index.dimension with e | v
      · refine Or.inl ⟨e, by simp, Or.inr ?_⟩
        by_contra hdim
        rw [SparseVectors.new, if_neg hdim] at hnew
        cases hnew
      · have hdim : index.dimension ≠ 0 := fun h0 => by
          rw [SparseVectors.new, if_pos h0] at hnew
          cases hnew
        obtain ⟨hw, hempty, -⟩ := SparseVectors.new_wellFormed hnew
        obtain ⟨v', hadd, hw', hr'⟩ := key v hw
        refine Or.inr ⟨v', ?_, hw', hne, fun _ => hdim, ?_⟩
        · simp [hadd, hcount]
        · rw [hr', hempty]
          rfl
    · obtain ⟨v', hadd, hw', hr'⟩ := key v (hv v hvec)
      refine Or.inr ⟨v', ?_, hw', hne, fun h => (by cases h), hr'⟩
      simp [hadd, hcount]

theorem length_rows_of_add_ok {index : InvertedIndex F} {a : CsrArgs F}
    (h : (index.add a).2 = .ok ()) : a.rows.length = a.n.toNat := by
  unfold add at h
  rcases hc : a.checked with e | ⟨p, is, vs⟩
  · rw [hc] at h
    cases h
  · have := (CsrArgs.checked_eq_ok hc).2.2.2.2.2
    omega

/-! ### Histories -/

/-- A public call on an inverted index. -/
inductive Call (F : Type)
  | add (a : CsrArgs F)
  | build
  | search (a : SearchArgs F) (idSelector : Option IDSelector)

variable [Ring F] [LinearOrder F]

/-- The index after a call, and whether the call threw; a search reads the index only. -/
def step (index : InvertedIndex F) : Call F → InvertedIndex F × Except Exception Unit
  | .add a => index.add a
  | .build => index.build
  | .search .. => (index, .ok ())

/-- The index after a history of calls. -/
def run (index : InvertedIndex F) (calls : List (Call F)) : InvertedIndex F :=
  calls.foldl (fun index c => (index.step c).1) index

/-- The documents a call adds: those of an `add` that returns normally. -/
def addedBy (index : InvertedIndex F) : Call F → List (SparseRow F)
  | .add a => if (index.add a).2 = .ok () then a.rows else []
  | _ => []

/-- The documents a history adds, in order. -/
def added (index : InvertedIndex F) : List (Call F) → List (SparseRow F)
  | [] => []
  | c :: cs => index.addedBy c ++ added (index.step c).1 cs

/-- An `add` of documents although posting lists are already there. -/
def addsAfterBuild (index : InvertedIndex F) (c : Call F) : Prop :=
  ∃ a, c = .add a ∧ a.rows ≠ [] ∧ index.invertedLists ≠ none

/-- No call of the history adds documents after a build. -/
def NoAddAfterBuild (index : InvertedIndex F) : List (Call F) → Prop
  | [] => True
  | c :: cs => ¬ index.addsAfterBuild c ∧ NoAddAfterBuild (index.step c).1 cs

theorem run_append (index : InvertedIndex F) (cs ds : List (Call F)) :
    index.run (cs ++ ds) = (index.run cs).run ds := List.foldl_append

/-! ### One call -/

/-- A `build` does nothing without waiting vectors, throws on a term past the dimension, and
otherwise turns the waiting vectors into posting lists. -/
theorem build_cases (index : InvertedIndex F) :
    (index.vectors = none ∧ index.build = (index, .ok ())) ∨
    ∃ v, index.vectors = some v ∧
      ((∃ e, index.build = ({ index with numVectors := v.rows.length }, .error e)) ∨
        TermsBelow index.dimension v.rows ∧
        index.build = (⟨index.dimension, none,
          some ((List.range index.dimension).map (postingList v.rows)), v.rows.length,
          (List.range index.dimension).map fun t => (postingList v.rows t).maxValue⟩, .ok ())) := by
  unfold build
  rcases hv : index.vectors with - | v
  · exact Or.inl ⟨rfl, rfl⟩
  · refine Or.inr ⟨v, rfl, ?_⟩
    simp only [buildInvertedLists_eq, SparseVectors.length_rows]
    by_cases hterms : TermsBelow index.dimension v.rows
    · refine Or.inr ⟨hterms, ?_⟩
      simp [hterms, List.map_map, Function.comp_def]
    · exact Or.inl ⟨_, by rw [if_neg hterms]⟩

/-- The index whose posting lists are those of `docs`. -/
def invertedOf (dim : ℕ) (docs : List (SparseRow F)) : InvertedIndex F :=
  ⟨dim, none, some ((List.range dim).map (postingList docs)), docs.length,
    (List.range dim).map fun t => (postingList docs t).maxValue⟩

/-- Nothing is lost: the documents are all waiting for a first `build`, or all inverted. -/
inductive Tracks (dim : ℕ) : InvertedIndex F → List (SparseRow F) → Prop
  | fresh : Tracks dim (new dim) []
  | waiting (v : SparseVectors F) (wellFormed : v.WellFormed) (positive : dim ≠ 0)
      (nonempty : v.rows ≠ []) : Tracks dim ⟨dim, some v, none, v.rows.length, []⟩ v.rows
  | inverted (docs : List (SparseRow F)) (terms : TermsBelow dim docs) (positive : dim ≠ 0)
      (nonempty : docs ≠ []) : Tracks dim (invertedOf dim docs) docs

/-- Fewer documents are left, waiting or counted, than were added. -/
def Lost (index : InvertedIndex F) (docs : List (SparseRow F)) : Prop :=
  (∃ v, index.vectors = some v ∧ v.WellFormed ∧ v.rows.length < docs.length) ∨
    index.vectors = none ∧ index.numVectors < docs.length

theorem Tracks.wellFormed {dim : ℕ} {index : InvertedIndex F} {docs : List (SparseRow F)}
    (h : Tracks dim index docs) : ∀ v, index.vectors = some v → v.WellFormed := by
  intro v hv
  cases h with
  | fresh => cases hv
  | waiting v' hw _ _ =>
      cases hv
      exact hw
  | inverted => cases hv

theorem Tracks.numVectors {dim : ℕ} {index : InvertedIndex F} {docs : List (SparseRow F)}
    (h : Tracks dim index docs) : index.numVectors = docs.length := by
  cases h <;> rfl

/-- An `add` without posting lists leaves its rows waiting behind the others. -/
theorem add_tracks {dim : ℕ} {index : InvertedIndex F} {docs : List (SparseRow F)}
    (h : Tracks dim index docs) {a : CsrArgs F} (hlists : index.invertedLists = none)
    {v : SparseVectors F} (hw : v.WellFormed) (hne : a.rows ≠ [])
    (hdim : index.vectors = none → index.dimension ≠ 0)
    (hrows : v.rows = (index.vectors.elim [] SparseVectors.rows) ++ a.rows) :
    Tracks dim { index with
      vectors := some v
      numVectors := index.numVectors + a.rows.length } (docs ++ a.rows) := by
  have hne : v.rows ≠ [] := by
    rw [hrows]
    exact List.append_ne_nil_of_right_ne_nil _ hne
  cases h with
  | fresh =>
      have hv : v.rows = a.rows := hrows
      rw [List.nil_append, ← hv]
      simpa [new] using Tracks.waiting v hw (hdim rfl) hne
  | waiting v' hw' hdim' hne' =>
      have hv : v.rows = v'.rows ++ a.rows := hrows
      rw [← hv]
      simpa [hv] using Tracks.waiting v hw hdim' hne
  | inverted => cases hlists

/-- A call that does not add documents over posting lists loses none. -/
theorem step_tracks {dim : ℕ} {index : InvertedIndex F} {docs : List (SparseRow F)}
    (h : Tracks dim index docs) {c : Call F} (hc : ¬ index.addsAfterBuild c) :
    Tracks dim (index.step c).1 (docs ++ index.addedBy c) := by
  cases c with
  | search => simpa [step, addedBy] using h
  | add a =>
      rcases add_cases index a h.wellFormed with ⟨e, he, -⟩ | ⟨v, hok, hw, hne, hdim, hrows⟩
      · simpa [step, addedBy, he] using h
      · have hlists : index.invertedLists = none := by
          by_contra hsome
          exact hc ⟨a, rfl, hne, hsome⟩
        simpa [step, addedBy, hok] using add_tracks h hlists hw hne hdim hrows
  | build =>
      have hadd : docs ++ index.addedBy .build = docs := List.append_nil docs
      rw [hadd]
      rcases build_cases index with ⟨-, hnoop⟩ | ⟨v, hv, hres⟩
      · rw [step, hnoop]
        exact h
      · cases h with
        | fresh => cases hv
        | inverted => cases hv
        | waiting v' hw hdim hne =>
            obtain rfl : v' = v := by simpa using hv
            rcases hres with ⟨e, he⟩ | ⟨hterms, hok⟩
            · rw [step, he]
              exact Tracks.waiting v' hw hdim hne
            · rw [step, hok]
              exact Tracks.inverted v'.rows hterms hdim hne

/-- Once documents are lost they stay lost. -/
theorem step_lost {index : InvertedIndex F} {docs : List (SparseRow F)} (h : index.Lost docs)
    (c : Call F) : (index.step c).1.Lost (docs ++ index.addedBy c) := by
  cases c with
  | search => simpa [step, addedBy] using h
  | add a =>
      have hwf : ∀ v, index.vectors = some v → v.WellFormed := by
        intro v hv
        rcases h with ⟨v', hv', hw, -⟩ | ⟨hnone, -⟩
        · rw [hv'] at hv
          cases hv
          exact hw
        · rw [hnone] at hv
          cases hv
      rcases add_cases index a hwf with ⟨e, he, -⟩ | ⟨v, hok, hw, hne, -, hrows⟩
      · simpa [step, addedBy, he] using h
      · refine Or.inl ⟨v, by simp [step, hok], hw, ?_⟩
        have hlt : (index.vectors.elim [] SparseVectors.rows).length < docs.length := by
          rcases h with ⟨v', hv', -, hlt⟩ | ⟨hnone, hlt⟩
          · simpa [hv'] using hlt
          · simp only [hnone, Option.elim_none, List.length_nil]
            omega
        have hpos := List.length_pos_iff.mpr hne
        simp only [addedBy, hok, if_true, hrows, List.length_append]
        omega
  | build =>
      have hadd : docs ++ index.addedBy .build = docs := List.append_nil docs
      rw [hadd]
      rcases build_cases index with ⟨-, hnoop⟩ | ⟨v, hv, hres⟩
      · rw [step, hnoop]
        exact h
      · obtain ⟨v', hv', hw, hlt⟩ := h.resolve_right fun hnone => by
          rw [hnone.1] at hv
          cases hv
        obtain rfl : v' = v := by simpa [hv'] using hv
        rcases hres with ⟨e, he⟩ | ⟨-, hok⟩
        · exact Or.inl ⟨v', by simp [step, he, hv'], hw, hlt⟩
        · refine Or.inr ⟨by simp [step, hok], ?_⟩
          simpa [step, hok] using hlt

/-- Adding documents over posting lists loses those in the lists. -/
theorem step_lose {dim : ℕ} {index : InvertedIndex F} {docs : List (SparseRow F)}
    (h : Tracks dim index docs) {c : Call F} (hc : index.addsAfterBuild c) :
    (index.step c).1.Lost (docs ++ index.addedBy c) := by
  obtain ⟨a, rfl, hsome, hlists⟩ := hc
  rcases add_cases index a h.wellFormed with ⟨e, -, hbad⟩ | ⟨v, hok, hw, -, -, hrows⟩
  · cases h with
    | fresh => exact absurd rfl hlists
    | waiting => exact absurd rfl hlists
    | inverted docs hterms hdim hne => exact absurd hbad (not_or.mpr ⟨hsome, hdim⟩)
  · refine Or.inl ⟨v, by simp [step, hok], hw, ?_⟩
    cases h with
    | fresh => exact absurd rfl hlists
    | waiting => exact absurd rfl hlists
    | inverted docs hterms hdim hne =>
        have hlen := List.length_pos_iff.mpr hne
        have hv : v.rows = a.rows := hrows
        simp only [addedBy, hok, if_true, hv, List.length_append]
        omega

/-! ### Whole histories -/

theorem run_tracks {dim : ℕ} {cs : List (Call F)} {index : InvertedIndex F}
    {docs : List (SparseRow F)} (h : Tracks dim index docs) (hcs : index.NoAddAfterBuild cs) :
    Tracks dim (index.run cs) (docs ++ index.added cs) := by
  induction cs generalizing index docs with
  | nil => simpa [run, added] using h
  | cons c cs ih =>
      rw [added, ← List.append_assoc]
      exact ih (step_tracks h hcs.1) hcs.2

theorem run_lost {cs : List (Call F)} {index : InvertedIndex F} {docs : List (SparseRow F)}
    (h : index.Lost docs) : (index.run cs).Lost (docs ++ index.added cs) := by
  induction cs generalizing index docs with
  | nil => simpa [run, added] using h
  | cons c cs ih =>
      rw [added, ← List.append_assoc]
      exact ih (step_lost h c)

theorem run_lose {dim : ℕ} {cs : List (Call F)} {index : InvertedIndex F}
    {docs : List (SparseRow F)} (h : Tracks dim index docs) (hcs : ¬ index.NoAddAfterBuild cs) :
    (index.run cs).Lost (docs ++ index.added cs) := by
  induction cs generalizing index docs with
  | nil => exact absurd trivial hcs
  | cons c cs ih =>
      rw [added, ← List.append_assoc]
      by_cases hc : index.addsAfterBuild c
      · exact run_lost (step_lose h hc)
      · exact ih (step_tracks h hc) fun hrest => hcs ⟨hc, hrest⟩

/-- **Nothing lost**: a normally returning `build` leaves the posting lists of all added
documents, or the fresh index when there are none. -/
theorem run_build_tracks {dim : ℕ} {cs : List (Call F)}
    (hcs : (new dim : InvertedIndex F).NoAddAfterBuild cs)
    (hok : ((new dim).run cs).build.2 = .ok ()) :
    ((new dim).run cs).build.1 = new dim ∧ (new dim).added cs = [] ∨
      ((new dim).run cs).build.1 = invertedOf dim ((new dim).added cs) ∧
        TermsBelow dim ((new dim).added cs) := by
  have h := run_tracks (Tracks.fresh ) hcs
  rw [List.nil_append] at h
  generalize (new dim).run cs = index at h hok
  generalize (new dim).added cs = docs at h
  cases h with
  | fresh => exact Or.inl ⟨rfl, rfl⟩
  | inverted docs hterms _ hne => exact Or.inr ⟨rfl, hterms⟩
  | waiting v hw _ hne =>
      rcases build_cases ⟨dim, some v, none, v.rows.length, []⟩ with ⟨hnone, -⟩ | ⟨v', hv, hres⟩
      · cases hnone
      · obtain rfl : v = v' := by simpa using hv
        rcases hres with ⟨e, he⟩ | ⟨hterms, hbuilt⟩
        · rw [he] at hok
          cases hok
        · exact Or.inr ⟨by rw [hbuilt]; rfl, hterms⟩

/-- **Something lost**: a normally returning `build` counts fewer documents than were added. -/
theorem run_build_lost {dim : ℕ} {cs : List (Call F)}
    (hcs : ¬ (new dim : InvertedIndex F).NoAddAfterBuild cs)
    (hok : ((new dim).run cs).build.2 = .ok ()) :
    ((new dim).run cs).build.1.numVectors < ((new dim).added cs).length := by
  have h := run_lose (Tracks.fresh ) hcs
  rw [List.nil_append] at h
  rcases build_cases ((new dim).run cs) with ⟨hnone, hnoop⟩ | ⟨v, hv, hres⟩
  · rw [hnoop]
    rcases h with ⟨v, hv, -⟩ | ⟨-, hlt⟩
    · rw [hnone] at hv
      cases hv
    · exact hlt
  · rcases hres with ⟨e, he⟩ | ⟨-, hbuilt⟩
    · rw [he] at hok
      cases hok
    · rw [hbuilt]
      rcases h with ⟨v', hv', -, hlt⟩ | ⟨hnone, -⟩
      · obtain rfl : v' = v := by simpa [hv'] using hv
        exact hlt
      · rw [hnone] at hv
        cases hv

end InvertedIndex

end Nsparse
