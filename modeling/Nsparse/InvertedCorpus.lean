/-
Nsparse/InvertedCorpus.lean

What a finished `build` should leave behind, and when it does.

`HoldsCorpus` is the promise: the posting lists are those of every document ever
added, under their global positions, each term's cached maximum is a maximum, and
the count is right.  A build keeps it exactly when no documents were added after an
earlier build and two conditions on the documents hold (`Postable`).  The id map
over an inverted index sees the same history as its delegate (`run_delegate`), so
the same condition decides whether row and id stay aligned.
-/
import Nsparse.IdMapIndex
import Nsparse.InvertedHistory

namespace Nsparse

variable {F : Type} [Ring F] [LinearOrder F]

namespace InvertedIndex

/-- The posting list of a term; empty when there is none. -/
def listOf (index : InvertedIndex F) (term : ℕ) : InvertedList F :=
  (index.invertedLists.getD []).getD term .empty

/-- The index holds `docs`: for every term the postings of all documents in the order of their
positions, a maximum for every term that has postings, and the number of documents. -/
structure HoldsCorpus (index : InvertedIndex F) (docs : List (SparseRow F)) : Prop where
  postings : ∀ term, index.listOf term
    = .ofPostings ((postingsOf docs term).map fun p => ((p.1 : ℤ), p.2))
  maxima : ∀ term, postingsOf docs term ≠ [] →
    IsGreatest {v | v ∈ (postingsOf docs term).map Prod.snd} (index.maxTermScores.getD term 0)
  numVectors : index.numVectors = docs.length

/-- What the document ids and the cached maxima ask of the documents: the positions of those
with terms fit 32 bits, and every term occurs with a value that is not negative. -/
structure Postable (docs : List (SparseRow F)) : Prop where
  ids : ∀ (i : ℕ) (row : SparseRow F), docs[i]? = some row → row ≠ [] → i < 2 ^ 31
  maxima : ∀ row ∈ docs, ∀ entry ∈ row, ∃ row' ∈ docs, ∃ v, (entry.1, v) ∈ row' ∧ 0 ≤ v

theorem postable_nil : Postable ([] : List (SparseRow F)) := ⟨by simp, by simp⟩

/-! ### A built index -/

variable {dim : ℕ} {docs : List (SparseRow F)}

theorem listOf_invertedOf (hterms : TermsBelow dim docs) (term : ℕ) :
    (invertedOf dim docs).listOf term = postingList docs term := by
  by_cases h : term < dim
  · simp [listOf, invertedOf, List.getD_eq_getElem?_getD, h]
  · have hnil := postingsOf_eq_nil hterms (not_lt.mp h)
    simp [listOf, invertedOf, List.getD_eq_getElem?_getD, h, postingList, hnil]

theorem maxTermScores_invertedOf {term : ℕ} (h : term < dim) :
    (invertedOf dim docs).maxTermScores.getD term 0 = (postingList docs term).maxValue := by
  simp [invertedOf, List.getD_eq_getElem?_getD, h]

/-- The cached maxima are maxima when every term has a value that is not negative. -/
theorem maxima_invertedOf_iff (hterms : TermsBelow dim docs) :
    (∀ term, postingsOf docs term ≠ [] →
      IsGreatest {v | v ∈ (postingsOf docs term).map Prod.snd}
        ((invertedOf dim docs).maxTermScores.getD term 0)) ↔
    ∀ row ∈ docs, ∀ entry ∈ row, ∃ row' ∈ docs, ∃ v, (entry.1, v) ∈ row' ∧ 0 ≤ v := by
  have hcodes : ∀ t, (postingList docs t).codes = (postingsOf docs t).map Prod.snd := fun t => by
    simp [postingList, InvertedList.ofPostings, Function.comp_def]
  have hiff : ∀ t < dim, IsGreatest {v | v ∈ (postingsOf docs t).map Prod.snd}
      ((invertedOf dim docs).maxTermScores.getD t 0) ↔
      ∃ row' ∈ docs, ∃ v, (t, v) ∈ row' ∧ 0 ≤ v := by
    intro t ht
    rw [maxTermScores_invertedOf ht, ← hcodes, InvertedList.isGreatest_maxValue_iff, hcodes]
    constructor
    · rintro ⟨v, hv, h0⟩
      obtain ⟨p, hp, rfl⟩ := List.mem_map.mp hv
      obtain ⟨row, hrow, hmem⟩ := mem_postingsOf_iff.mp hp
      exact ⟨row, List.mem_of_getElem? hrow, p.2, hmem, h0⟩
    · rintro ⟨row, hrow, v, hmem, h0⟩
      obtain ⟨i, hi⟩ := List.getElem?_of_mem hrow
      exact ⟨v, List.mem_map.mpr ⟨(i, v), mem_postingsOf_iff.mpr ⟨row, hi, hmem⟩, rfl⟩, h0⟩
  constructor
  · intro h row hrow entry hentry
    obtain ⟨i, hi⟩ := List.getElem?_of_mem hrow
    have hp : (i, entry.2) ∈ postingsOf docs entry.1 :=
      mem_postingsOf_iff.mpr ⟨row, hi, hentry⟩
    exact (hiff _ (hterms row hrow entry hentry)).mp (h _ (List.ne_nil_of_mem hp))
  · intro h t hne
    obtain ⟨p, hp⟩ := List.exists_mem_of_ne_nil _ hne
    obtain ⟨row, hrow, hmem⟩ := mem_postingsOf_iff.mp hp
    have hrow := List.mem_of_getElem? hrow
    exact (hiff t (hterms row hrow _ hmem)).mpr (h row hrow _ hmem)

theorem invertedOf_holdsCorpus_iff (hterms : TermsBelow dim docs) :
    (invertedOf dim docs).HoldsCorpus docs ↔ Postable docs := by
  have hlists := funext_iff.mp (funext (listOf_invertedOf hterms))
  constructor
  · intro h
    refine ⟨postingList_eq_iff.mp fun t => ?_, (maxima_invertedOf_iff hterms).mp h.maxima⟩
    rw [← hlists, h.postings]
  · intro h
    refine ⟨fun t => ?_, (maxima_invertedOf_iff hterms).mpr h.maxima, rfl⟩
    rw [hlists, postingList_eq_iff.mpr h.ids]

theorem new_holdsCorpus (dim : ℕ) : (new dim : InvertedIndex F).HoldsCorpus [] :=
  ⟨fun _ => rfl, fun _ h => absurd rfl h, rfl⟩

/-- **After a build.**  A normally returning `build` holds every added document exactly when
none was added over posting lists and the documents are postable. -/
theorem run_build_holdsCorpus_iff {cs : List (Call F)}
    (hok : ((new dim).run cs).build.2 = .ok ()) :
    ((new dim).run cs).build.1.HoldsCorpus ((new dim).added cs) ↔
      (new dim).NoAddAfterBuild cs ∧ Postable ((new dim).added cs) := by
  by_cases hcs : (new dim : InvertedIndex F).NoAddAfterBuild cs
  · rcases run_build_tracks hcs hok with ⟨hbuilt, hadded⟩ | ⟨hbuilt, hterms⟩
    · rw [hbuilt, hadded]
      exact iff_of_true (new_holdsCorpus dim) ⟨hcs, postable_nil⟩
    · rw [hbuilt, invertedOf_holdsCorpus_iff hterms]
      exact (and_iff_right hcs).symm
  · refine iff_of_false (fun h => ?_) fun h => hcs h.1
    exact absurd h.numVectors (run_build_lost hcs hok).ne

end InvertedIndex

/-! ### The id map over it -/

namespace IDMapIndex

open InvertedIndex

variable (P : Type) (Q : ItemQueue F ℤ) (sort : StdSort) (fuel : ℕ) {dim : ℕ}

/-- What a call on the id map does to an inverted index under it. -/
def MappedCall.onDelegate : MappedCall F → InvertedIndex.Call F
  | addWithIds a => .add a.toCsrArgs
  | build => .build
  | search a idSelector => .search a idSelector

/-- Row `i` of the index holds document `i`, and the map has its id at place `i`. -/
structure MapsRows (m : IDMapIndex (InvertedIndex F)) (docs : List (SparseRow F))
    (ids : List ℤ) : Prop where
  corpus : m.delegate.HoldsCorpus docs
  aligned : m.internalToExternal = ids
  complete : ids.length = docs.length

theorem step_delegate (m : IDMapIndex (InvertedIndex F)) (c : MappedCall F) :
    (m.step (asIndex Q sort fuel : Index (InvertedIndex F) F P) c).1.delegate = (m.delegate.step c.onDelegate).1 := by
  cases c with
  | search => rfl
  | build => rfl
  | addWithIds a =>
      rcases h : m.delegate.add a.toCsrArgs with ⟨delegate, e | ⟨⟩⟩
      · simp [IDMapIndex.step, MappedCall.onDelegate, InvertedIndex.step, addWithIds, asIndex, h]
      · simp [IDMapIndex.step, MappedCall.onDelegate, InvertedIndex.step, addWithIds, asIndex, h]

/-- The delegate goes through the same history. -/
theorem run_delegate (m : IDMapIndex (InvertedIndex F)) (cs : List (MappedCall F)) :
    (m.run (asIndex Q sort fuel : Index (InvertedIndex F) F P) cs).delegate
      = m.delegate.run (cs.map MappedCall.onDelegate) := by
  induction cs generalizing m with
  | nil => rfl
  | cons c cs ih =>
      have := ih (m.step (asIndex Q sort fuel : Index (InvertedIndex F) F P) c).1
      rwa [step_delegate P Q sort fuel] at this

/-- While nothing is lost the map is as long as the delegate, and a call extends it by the ids
it gives. -/
theorem step_aligned {m : IDMapIndex (InvertedIndex F)} {docs : List (SparseRow F)}
    (h : Tracks dim m.delegate docs) (hm : m.internalToExternal.length = docs.length)
    (c : MappedCall F) :
    (m.step (asIndex Q sort fuel : Index (InvertedIndex F) F P) c).1.internalToExternal
        = m.internalToExternal ++ m.givenBy (asIndex Q sort fuel : Index (InvertedIndex F) F P) c ∧
      (m.givenBy (asIndex Q sort fuel : Index (InvertedIndex F) F P) c).length
        = (m.delegate.addedBy c.onDelegate).length := by
  cases c with
  | search => exact ⟨(List.append_nil _).symm, rfl⟩
  | build => exact ⟨(List.append_nil _).symm, rfl⟩
  | addWithIds a =>
      rcases add_cases m.delegate a.toCsrArgs h.wellFormed with ⟨e, he, -⟩ | ⟨v, hok, -⟩
      · have hmap := addWithIds_of_error (I := (asIndex Q sort fuel : Index (InvertedIndex F) F P)) he
        simp [IDMapIndex.step, givenBy, hmap, MappedCall.onDelegate, addedBy, he]
      · have hlen : m.internalToExternal.length = m.delegate.numVectors := by
          rw [hm, h.numVectors]
        obtain ⟨hret, -, hmap⟩ :=
          addWithIds_of_ok (I := (asIndex Q sort fuel : Index (InvertedIndex F) F P)) hok hlen
        have hrows : a.rows.length = a.n.toNat := length_rows_of_add_ok (by rw [hok])
        simp [IDMapIndex.step, givenBy, hret, hmap, MappedCall.onDelegate, addedBy, hok, hrows,
          a.ids_length]

theorem run_aligned {m : IDMapIndex (InvertedIndex F)} {docs : List (SparseRow F)}
    {cs : List (MappedCall F)} (h : Tracks dim m.delegate docs)
    (hm : m.internalToExternal.length = docs.length)
    (hcs : m.delegate.NoAddAfterBuild (cs.map MappedCall.onDelegate)) :
    (m.run (asIndex Q sort fuel : Index (InvertedIndex F) F P) cs).internalToExternal
        = m.internalToExternal ++ m.given (asIndex Q sort fuel : Index (InvertedIndex F) F P) cs ∧
      (m.given (asIndex Q sort fuel : Index (InvertedIndex F) F P) cs).length
        = (m.delegate.added (cs.map MappedCall.onDelegate)).length := by
  induction cs generalizing m docs with
  | nil => exact ⟨(List.append_nil _).symm, rfl⟩
  | cons c cs ih =>
      obtain ⟨hext, hcount⟩ := step_aligned P Q sort fuel h hm c
      have hstep := step_tracks h hcs.1
      rw [← step_delegate P Q sort fuel] at hstep
      obtain ⟨hext', hcount'⟩ := ih hstep (by rw [hext]; simp [hm, hcount])
        (by rw [step_delegate]; exact hcs.2)
      rw [step_delegate] at hcount'
      refine ⟨?_, ?_⟩
      · rw [given, ← List.append_assoc, ← hext]
        exact hext'
      · simp [given, added, hcount, hcount']

end IDMapIndex

/-! ### Histories of adds, builds and searches -/

open InvertedIndex IDMapIndex

/-- **Rounds of add and build.**  After a normally returning `build` the index holds every
document ever added, and an id map over it has the caller's id for every row, exactly when no
document was added over posting lists and the added documents are postable. -/
theorem build_holds_every_document_iff (P : Type) (Q : ItemQueue F ℤ) (sort : StdSort)
    (fuel dim : ℕ) :
    (∀ calls : List (InvertedIndex.Call F),
      ((InvertedIndex.new dim).run calls).build.2 = .ok () →
        (((InvertedIndex.new dim).run calls).build.1.HoldsCorpus
            ((InvertedIndex.new dim).added calls) ↔
          (InvertedIndex.new dim).NoAddAfterBuild calls ∧
            Postable ((InvertedIndex.new dim).added calls))) ∧
    ∀ calls : List (MappedCall F),
      let I : Index (InvertedIndex F) F P := asIndex Q sort fuel
      let m := IDMapIndex.new (InvertedIndex.new dim)
      let history := calls.map MappedCall.onDelegate
      ((m.run I calls).build I).2 = .ok () →
        (((m.run I calls).build I).1.MapsRows ((InvertedIndex.new dim).added history)
            (m.given I calls) ↔
          (InvertedIndex.new dim).NoAddAfterBuild history ∧
            Postable ((InvertedIndex.new dim).added history)) := by
  refine ⟨fun calls hok => run_build_holdsCorpus_iff hok, ?_⟩
  intro calls I m history hok
  have hdelegate : ((m.run I calls).build I).1.delegate
      = ((InvertedIndex.new dim).run history).build.1 :=
    congrArg (fun index => index.build.1) (run_delegate P Q sort fuel m calls)
  have hret : ((InvertedIndex.new dim : InvertedIndex F).run history).build.2 = .ok () := by
    rw [← hok]
    exact congrArg (fun index => index.build.2) (run_delegate P Q sort fuel m calls).symm
  constructor
  · intro h
    rw [← run_build_holdsCorpus_iff hret, ← hdelegate]
    exact h.corpus
  · rintro ⟨hcs, hpost⟩
    obtain ⟨hmap, hcount⟩ := run_aligned P Q sort fuel (m := m) Tracks.fresh rfl hcs
    refine ⟨?_, hmap, hcount⟩
    rw [hdelegate]
    exact (run_build_holdsCorpus_iff hret).mpr ⟨hcs, hpost⟩

/-- One document with the term 0. -/
def oneDocument : CsrArgs ℤ where
  n := 1
  indptr := some [0, 1]
  indices := some [0]
  values := some [5]
  promise := by
    rintro p is vs ⟨⟩ ⟨⟩ ⟨⟩ -
    exact ⟨rfl, ⟨rfl, by decide, rfl⟩, rfl⟩

/-- Three documents, the second the best for the terms 0 and 1. -/
def threeDocuments : CsrArgs ℤ where
  n := 3
  indptr := some [0, 1, 3, 4]
  indices := some [0, 0, 1, 0]
  values := some [5, 3, 4, 1]
  promise := by
    rintro p is vs ⟨⟩ ⟨⟩ ⟨⟩ -
    exact ⟨rfl, ⟨rfl, by decide, rfl⟩, rfl⟩

/-- A query for both terms. -/
def twoTermQuery : CsrArgs ℤ where
  n := 1
  indptr := some [0, 2]
  indices := some [0, 1]
  values := some [1, 1]
  promise := by
    rintro p is vs ⟨⟩ ⟨⟩ ⟨⟩ -
    exact ⟨rfl, ⟨rfl, by decide, rfl⟩, rfl⟩

/-- The theorem at an index that is filled once, alone and under an id map. -/
theorem build_holds_every_document_iff_one_round :
    ((InvertedIndex.new 1).run [.add oneDocument, .build]).build.1.HoldsCorpus [[(0, 5)]] ∧
    ((IDMapIndex.new (InvertedIndex.new 1)).run
        (asIndex (sortedQueue TopKItem.score) insertionSort 0 : Index (InvertedIndex ℤ) ℤ Unit)
        [.addWithIds ⟨oneDocument, [70], rfl⟩]).internalToExternal = [70] := by
  obtain ⟨hindex, hmap⟩ := build_holds_every_document_iff (F := ℤ) Unit
    (sortedQueue TopKItem.score) insertionSort 0 1
  have hpost : Postable [[(0, (5 : ℤ))]] := by
    refine ⟨fun i row hrow _ => ?_, by simp⟩
    have hi : i < 1 := (List.getElem?_eq_some_iff.mp hrow).1
    omega
  refine ⟨(hindex [.add oneDocument, .build] (by decide)).mpr ⟨?_, hpost⟩, ?_⟩
  · simp [NoAddAfterBuild, addsAfterBuild, InvertedIndex.new]
  · refine ((hmap [.addWithIds ⟨oneDocument, [70], rfl⟩] (by decide)).mpr ⟨?_, hpost⟩).aligned
    simp [NoAddAfterBuild, addsAfterBuild, InvertedIndex.new, MappedCall.onDelegate]

/-- A second round of add and build returns normally and forgets the first. -/
theorem second_round_forgets_the_first :
    ((InvertedIndex.new 1).run [.add oneDocument, .build, .add oneDocument]).build.2 = .ok () ∧
    ¬ ((InvertedIndex.new 1).run [.add oneDocument, .build, .add oneDocument]).build.1.HoldsCorpus
        ((InvertedIndex.new 1).added [.add oneDocument, .build, .add oneDocument]) := by
  refine ⟨by decide, fun h => ?_⟩
  have hcount := h.numVectors
  revert hcount
  decide

end Nsparse
