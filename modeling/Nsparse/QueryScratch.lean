/-
Nsparse/QueryScratch.lean

The scratch a thread reuses from one query to the next.

Each search keeps some buffers for the thread that runs it: the dense query buffer and
the set of visited documents, with the candidate blocks and the summary scores in a
block search, or the score window and its bitmap in the inverted index.  Here the
queries are written over that scratch.  Some of it is reset where it is used; the dense
buffer and the score window are cleaned up behind the query instead, term by term
(`clearBuffer_scatter`) and slot by slot (`searchWindow_clears`).  No query sees what
another one did (`queries_do_not_leak`).
-/
import Nsparse.ExactMatch
import Nsparse.InvertedIndex
import Nsparse.Lib.ScratchPool

namespace Nsparse

variable {F : Type}

/-! ### A thread and its queries -/

/-- A loop over queries that reset their scratch answers each one as if it were alone. -/
theorem eachAlone_of_resets {S : Type}
    {run : SparseRow Code → S → Except SearchFault ((List F × List ℤ) × S)} {fresh : S}
    {Clean : S → Prop} {dense : S → List Code}
    {loop : List (SparseRow Code) → List Code → Except SearchFault (SearchRows F)}
    (hnil : ∀ buffer, loop [] buffer = .ok ([], []))
    (hcons : ∀ query queries scratch, loop (query :: queries) (dense scratch) = (do
      let (result, scratch) ← run query scratch
      let (ds, ls) ← loop queries (dense scratch)
      .ok (result.1 :: ds, result.2 :: ls)))
    {queries : List (SparseRow Code)}
    (hqueries : ∀ query ∈ queries, ScratchPool.Resets run fresh Clean query) {scratch : S}
    (hscratch : Clean scratch) :
    loop queries (dense scratch) = eachAlone (ScratchPool.alone run fresh) queries := by
  induction queries generalizing scratch with
  | nil => exact hnil _
  | cons query queries ih =>
      obtain ⟨hquery, hqueries⟩ := List.forall_mem_cons.mp hqueries
      obtain ⟨hsame, hclean⟩ := hquery scratch hscratch
      rw [hcons, eachAlone, ← hsame]
      rcases hrun : run query scratch with e | ⟨result, s⟩
      · rfl
      · show (loop queries (dense s)).bind _ = (eachAlone _ queries).bind _
        rw [ih hqueries (hclean _ hrun)]

/-! ### The inverted index -/

section Inverted

variable [Ring F] [LinearOrder F]

/-- The thread-local buffers of `InvertedIndex::single_query`. -/
structure InvertedScratch (F : Type) where
  windowScores : List F
  bitmap : List (BitVec 64)

def InvertedScratch.fresh : InvertedScratch F :=
  ⟨List.replicate kScoreWindowSize 0, List.replicate kBitmapWords 0⟩

/-- What is clean between queries: the scores; the bitmap only keeps its size. -/
structure InvertedScratch.Clean (scratch : InvertedScratch F) : Prop where
  windowScores : scratch.windowScores = List.replicate kScoreWindowSize 0
  bitmap : scratch.bitmap.length = kBitmapWords

variable {Q : ItemQueue F ℤ}

/-- One round of the main loop, with the bitmap that the last round left. -/
def searchWindowOn (maxScorePrefix : List F) (idSelector : Option IDSelector)
    (s : SearchState Q × List (BitVec 64)) : Option (SearchState Q × List (BitVec 64)) :=
  let (s, bitmap) := s
  let firstEssential :=
    if s.heap.full then partitionTerms maxScorePrefix (s.heap.peekScore.getD 0)
    else s.firstEssential
  let least := minDocId (s.scorers.drop firstEssential)
  if least = kNoMoreDocs then none
  else
    let windowBase := least.tdiv kScoreWindowSize * kScoreWindowSize
    let windowEnd := toIdx (windowBase + kScoreWindowSize)
    -- `memset`
    let bitmap := bitmap.map fun _ => 0
    let (essential, w) := scoreEssentialTerms windowBase windowEnd
      (s.scorers.drop firstEssential) ⟨s.windowScores, bitmap⟩
    let c := evaluateWindowCandidates firstEssential windowBase maxScorePrefix idSelector w.bitmap
      (s.scorers.take firstEssential ++ essential) w.windowScores s.heap
    some (⟨c.scorers, c.windowScores, c.heap, firstEssential⟩, w.bitmap)

/-- `InvertedIndex::single_query` on the buffers of a thread; it fails with an exception, or by
running out of fuel. -/
def InvertedIndex.queryOn (Q : ItemQueue F ℤ) (sort : StdSort) (fuel : ℕ)
    (lists : List (InvertedList F)) (maxTermScores : List F) (k : ℤ)
    (idSelector : Option IDSelector) (query : SparseRow F) (scratch : InvertedScratch F) :
    Except (Option Exception) ((List F × List ℤ) × InvertedScratch F) :=
  if query.map Prod.fst = [] then
    if k < 0 then
      .error (some (.lengthError "cannot create std::vector larger than max_size()"))
    else .ok ((List.replicate k.toNat (-1), List.replicate k.toNat INVALID_IDX), scratch)
  else
    match TopKHolder.new Q k with
    | .error e => .error (some e)
    | .ok heap =>
        let (scorers, maxScorePrefix) :=
          buildScorers sort (query.map Prod.fst) (query.map Prod.snd) lists maxTermScores
        match Loop.iterate (searchWindowOn maxScorePrefix idSelector) fuel
            (⟨scorers, scratch.windowScores, heap, 0⟩, scratch.bitmap) with
        | none => .error none
        | some (s, bitmap) =>
            let (scores, ids) := s.heap.topKItemsDescending
            .ok ((resize scores k.toNat (-1), resize ids k.toNat INVALID_IDX),
              ⟨s.windowScores, bitmap⟩)

/-! ### A window is left clear -/

/-- A slot that was not marked holds no score. -/
structure ScoreWindow.OnlyMarked (w : ScoreWindow F) : Prop where
  scores : w.windowScores.length = kScoreWindowSize
  bits : w.bitmap.length = kBitmapWords
  zero : ∀ slot, BitSet.isMarked w.bitmap slot = false → w.windowScores.getD slot 0 = 0

omit [LinearOrder F] in
/-- A score goes where its mark goes. -/
theorem ScoreWindow.OnlyMarked.touch {w : ScoreWindow F} (h : w.OnlyMarked) (slot : ℕ) (f : F → F) :
    ScoreWindow.OnlyMarked ⟨w.windowScores.modify slot f, BitSet.mark w.bitmap slot⟩ := by
  refine ⟨by rw [List.length_modify, h.scores], ?_, fun i hi => ?_⟩
  · rw [BitSet.mark, List.length_modify, h.bits]
  · by_cases hslot : slot < kScoreWindowSize
    · have hbits : slot < 64 * w.bitmap.length := by
        rw [h.bits]
        exact hslot
      rw [BitSet.isMarked_mark hbits, Bool.or_eq_false_iff] at hi
      have hne : slot ≠ i := fun heq => of_decide_eq_false hi.2 heq.symm
      rw [List.getD_eq_getElem?_getD, List.getElem?_modify_ne f _ hne,
        ← List.getD_eq_getElem?_getD]
      exact h.zero i hi.1
    · -- outside the window nothing changes
      have hscores : w.windowScores.modify slot f = w.windowScores :=
        List.modify_eq_self (by rw [h.scores]; exact not_lt.mp hslot)
      have hbits : BitSet.mark w.bitmap slot = w.bitmap := by
        apply List.modify_eq_self
        rw [h.bits, BitSet.shiftRight_6]
        exact Nat.div_le_div_right (not_lt.mp hslot)
      rw [hbits] at hi
      rw [hscores]
      exact h.zero i hi

omit [LinearOrder F] in
theorem scorePostings_onlyMarked (windowBase windowEnd : ℤ) (fuel : ℕ) (s : DirectTermScorer F)
    {w : ScoreWindow F} (h : w.OnlyMarked) :
    (scorePostings windowBase windowEnd fuel s w).2.OnlyMarked := by
  induction fuel generalizing s w with
  | zero => exact h
  | succ fuel ih =>
      rw [scorePostings]
      split
      · exact h
      · dsimp only
        split
        · exact h
        · split
          · exact ih s.nextDoc h
          · exact ih s.nextDoc (h.touch _ _)

omit [LinearOrder F] in
theorem scoreEssentialTerms_onlyMarked (windowBase windowEnd : ℤ)
    (scorers : List (DirectTermScorer F)) {w : ScoreWindow F} (h : w.OnlyMarked) :
    (scoreEssentialTerms windowBase windowEnd scorers w).2.OnlyMarked := by
  induction scorers generalizing w with
  | nil => exact h
  | cons s scorers ih => exact ih (scorePostings_onlyMarked windowBase windowEnd _ s h)

/-- A candidate's slot is cleared whatever becomes of the candidate. -/
theorem evaluateSlot_windowScores (firstEssential : ℕ) (windowBase : ℤ) (maxScorePrefix : List F)
    (idSelector : Option IDSelector) (c : CandidateState Q) (slot : ℕ) :
    (evaluateSlot firstEssential windowBase maxScorePrefix idSelector c slot).windowScores
      = c.windowScores.set slot 0 := by
  unfold evaluateSlot
  dsimp only
  split
  · rfl
  · split
    · rfl
    · rfl

theorem evaluateSlot_foldl (firstEssential : ℕ) (windowBase : ℤ) (maxScorePrefix : List F)
    (idSelector : Option IDSelector) (slots : List ℕ) (c : CandidateState Q) :
    (slots.foldl (evaluateSlot firstEssential windowBase maxScorePrefix idSelector) c).windowScores
      = slots.foldl (fun scores slot => scores.set slot 0) c.windowScores := by
  induction slots generalizing c with
  | nil => rfl
  | cons slot slots ih => rw [List.foldl_cons, ih, evaluateSlot_windowScores, List.foldl_cons]

omit [LinearOrder F] in
theorem getD_foldl_set_zero (slots : List ℕ) {scores : List F} {i : ℕ}
    (h : i ∈ slots ∨ scores.getD i 0 = 0) :
    (slots.foldl (fun scores slot => scores.set slot 0) scores).getD i 0 = 0 := by
  induction slots generalizing scores with
  | nil =>
      rcases h with h | h
      · cases h
      · exact h
  | cons slot slots ih =>
      apply ih
      by_cases hi : i ∈ slots
      · exact .inl hi
      · right
        rw [List.getD_eq_getElem?_getD, List.getElem?_set]
        split
        · split
          · rfl
          · rfl
        · rename_i hne
          rw [← List.getD_eq_getElem?_getD]
          rcases h with h | h
          · rcases List.mem_cons.mp h with rfl | h
            · exact absurd rfl hne
            · exact absurd h hi
          · exact h

/-- **The candidates clear the window**: every marked slot is visited. -/
theorem evaluateWindowCandidates_windowScores (firstEssential : ℕ) (windowBase : ℤ)
    (maxScorePrefix : List F) (idSelector : Option IDSelector) {w : ScoreWindow F}
    (h : w.OnlyMarked) (scorers : List (DirectTermScorer F)) (heap : TopKHolder Q) :
    (evaluateWindowCandidates firstEssential windowBase maxScorePrefix idSelector w.bitmap scorers
      w.windowScores heap).windowScores = List.replicate kScoreWindowSize 0 := by
  unfold evaluateWindowCandidates
  rw [BitSet.foldMarked_eq, evaluateSlot_foldl]
  dsimp only
  have hlen : ∀ (slots : List ℕ) (scores : List F),
      (slots.foldl (fun scores slot => scores.set slot 0) scores).length = scores.length := by
    intro slots
    induction slots with
    | nil => exact fun _ => rfl
    | cons slot slots ih => exact fun scores => (ih _).trans (List.length_set ..)
  refine List.eq_replicate_iff.mpr ⟨(hlen _ _).trans h.scores, fun score hscore => ?_⟩
  obtain ⟨i, hi, rfl⟩ := List.mem_iff_getElem.mp hscore
  rw [← List.getD_eq_getElem _ 0 hi]
  rw [hlen, h.scores] at hi
  apply getD_foldl_set_zero
  rcases hmarked : BitSet.isMarked w.bitmap i with - | -
  · exact .inr (h.zero i hmarked)
  · exact .inl (List.mem_filter.mpr ⟨List.mem_range.mpr hi, hmarked⟩)

/-- A round that found the buffers clean leaves them clean, and is the round of a fresh bitmap. -/
theorem searchWindow_clears (maxScorePrefix : List F) (idSelector : Option IDSelector)
    (s : SearchState Q × List (BitVec 64))
    (hs : (⟨s.1.windowScores, s.2⟩ : InvertedScratch F).Clean) :
    (searchWindowOn maxScorePrefix idSelector s).map Prod.fst
        = searchWindow maxScorePrefix idSelector s.1 ∧
      ∀ s', searchWindowOn maxScorePrefix idSelector s = some s' →
        (⟨s'.1.windowScores, s'.2⟩ : InvertedScratch F).Clean := by
  obtain ⟨s, bitmap⟩ := s
  obtain ⟨hscores, hbitmap⟩ := hs
  dsimp only at hscores hbitmap
  have hmemset : bitmap.map (fun _ => (0 : BitVec 64)) = List.replicate kBitmapWords 0 := by
    rw [List.map_const', hbitmap]
  have hclear : (⟨s.windowScores, List.replicate kBitmapWords 0⟩ : ScoreWindow F).OnlyMarked := by
    refine ⟨by rw [hscores, List.length_replicate], List.length_replicate .., fun slot _ => ?_⟩
    rw [hscores, List.getD_eq_getElem?_getD, List.getElem?_replicate]
    split
    · rfl
    · rfl
  unfold searchWindowOn searchWindow
  dsimp only
  rw [hmemset]
  generalize (if s.heap.full = true then partitionTerms maxScorePrefix (s.heap.peekScore.getD 0)
    else s.firstEssential) = firstEssential
  split
  · exact ⟨rfl, nofun⟩
  · have hmarked := fun windowBase windowEnd =>
      scoreEssentialTerms_onlyMarked windowBase windowEnd (s.scorers.drop firstEssential) hclear
    refine ⟨rfl, fun s' heq => ?_⟩
    obtain rfl := Option.some.inj heq
    exact ⟨evaluateWindowCandidates_windowScores _ _ _ _ (hmarked _ _) _ _, (hmarked _ _).bits⟩

omit [LinearOrder F] in
theorem InvertedScratch.fresh_clean : (InvertedScratch.fresh : InvertedScratch F).Clean :=
  ⟨rfl, List.length_replicate ..⟩

/-- **A query of the inverted index resets its buffers.** -/
theorem InvertedIndex.queryOn_resets (Q : ItemQueue F ℤ) (sort : StdSort) (fuel : ℕ)
    (lists : List (InvertedList F)) (maxTermScores : List F) (k : ℤ)
    (idSelector : Option IDSelector) (query : SparseRow F) :
    ScratchPool.Resets (InvertedIndex.queryOn Q sort fuel lists maxTermScores k idSelector) .fresh
      InvertedScratch.Clean query := by
  intro scratch hscratch
  unfold ScratchPool.alone InvertedIndex.queryOn
  by_cases hempty : query.map Prod.fst = []
  · rw [if_pos hempty, if_pos hempty]
    split
    · exact ⟨rfl, nofun⟩
    · exact ⟨rfl, fun result heq => Except.ok.inj heq ▸ hscratch⟩
  · rw [if_neg hempty, if_neg hempty]
    rcases TopKHolder.new Q k with e | heap
    · exact ⟨rfl, nofun⟩
    · dsimp only
      rcases buildScorers sort (query.map Prod.fst) (query.map Prod.snd) lists maxTermScores with
        ⟨scorers, maxScorePrefix⟩
      dsimp only
      -- both loops are the loop that starts every round with a fresh bitmap
      have hloop : ∀ bitmap, (⟨scratch.windowScores, bitmap⟩ : InvertedScratch F).Clean →
          (Loop.iterate (searchWindowOn maxScorePrefix idSelector) fuel
              ((⟨scorers, scratch.windowScores, heap, 0⟩ : SearchState Q), bitmap)).map Prod.fst
            = Loop.iterate (searchWindow maxScorePrefix idSelector) fuel
                ⟨scorers, scratch.windowScores, heap, 0⟩ ∧
          ∀ s', Loop.iterate (searchWindowOn maxScorePrefix idSelector) fuel
              ((⟨scorers, scratch.windowScores, heap, 0⟩ : SearchState Q), bitmap) = some s' →
            (⟨s'.1.windowScores, s'.2⟩ : InvertedScratch F).Clean := fun bitmap hbitmap =>
        Loop.iterate_map
          (I := fun s : SearchState Q × _ => (⟨s.1.windowScores, s.2⟩ : InvertedScratch F).Clean)
          (searchWindow_clears maxScorePrefix idSelector) fuel hbitmap
      have hscores : (InvertedScratch.fresh : InvertedScratch F).windowScores = scratch.windowScores :=
        hscratch.windowScores.symm
      obtain ⟨hsame, hclean⟩ := hloop scratch.bitmap hscratch
      obtain ⟨hfresh, -⟩ := hloop (InvertedScratch.fresh : InvertedScratch F).bitmap
        ⟨hscratch.windowScores, List.length_replicate ..⟩
      rw [hscores]
      rw [← hfresh] at hsame
      rcases hrun : Loop.iterate (searchWindowOn maxScorePrefix idSelector) fuel
        ((⟨scorers, scratch.windowScores, heap, 0⟩ : SearchState Q), scratch.bitmap) with
        - | ⟨s, bitmap⟩
      · rw [hrun] at hsame
        rw [Option.map_eq_none_iff.mp hsame.symm]
        exact ⟨rfl, nofun⟩
      · rw [hrun] at hsame hclean
        obtain ⟨⟨s', bitmap'⟩, hrun', hs'⟩ := Option.map_eq_some_iff.mp hsame.symm
        obtain rfl : s' = s := hs'
        rw [hrun']
        exact ⟨rfl, fun result heq => Except.ok.inj heq ▸ hclean _ rfl⟩

/-- On clean buffers it is `singleQuery`. -/
theorem InvertedIndex.singleQuery_eq_queryOn (Q : ItemQueue F ℤ) (sort : StdSort) (fuel : ℕ)
    (lists : List (InvertedList F)) (maxTermScores : List F) (k : ℤ)
    (idSelector : Option IDSelector) (query : SparseRow F) {scratch : InvertedScratch F}
    (hscratch : scratch.Clean) :
    InvertedIndex.singleQuery Q sort fuel lists maxTermScores scratch.windowScores
        (query.map Prod.fst) (query.map Prod.snd) k idSelector
      = match InvertedIndex.queryOn Q sort fuel lists maxTermScores k idSelector query scratch with
        | .error none => none
        | .error (some e) => some (.error e, scratch.windowScores)
        | .ok (result, scratch) => some (.ok result, scratch.windowScores) := by
  unfold InvertedIndex.singleQuery InvertedIndex.queryOn
  by_cases hempty : query.map Prod.fst = []
  · rw [if_pos hempty, if_pos hempty]
    split
    · rfl
    · rfl
  · rw [if_neg hempty, if_neg hempty]
    rcases TopKHolder.new Q k with e | heap
    · rfl
    · dsimp only
      rcases buildScorers sort (query.map Prod.fst) (query.map Prod.snd) lists maxTermScores with
        ⟨scorers, maxScorePrefix⟩
      dsimp only
      obtain ⟨hsame, -⟩ := Loop.iterate_map
        (I := fun s : SearchState Q × _ => (⟨s.1.windowScores, s.2⟩ : InvertedScratch F).Clean)
        (searchWindow_clears maxScorePrefix idSelector) fuel
        (t := (⟨scorers, scratch.windowScores, heap, 0⟩, scratch.bitmap)) hscratch
      rw [← hsame]
      rcases Loop.iterate (searchWindowOn maxScorePrefix idSelector) fuel
        ((⟨scorers, scratch.windowScores, heap, 0⟩ : SearchState Q), scratch.bitmap) with
        - | ⟨s, bitmap⟩
      · rfl
      · rfl

end Inverted

/-! ### The seismic indexes -/

section Seismic

variable [Zero F] [One F] [Neg F] [Add F] [Sub F] [Mul F] [LinearOrder F] [FloatFormat F]
variable {Q : ItemQueue F ℤ}

/-- The buffers of a thread in `SeismicIndex::search`. -/
structure SeismicScratch where
  dense : List Code
  visited : List ℤ

def SeismicScratch.fresh (dimension elementSize : ℕ) : SeismicScratch :=
  ⟨zeroBuffer dimension elementSize, []⟩

/-- The dense buffer is zero between queries; the set may hold anything. -/
def SeismicScratch.Clean (dimension elementSize : ℕ) (scratch : SeismicScratch) : Prop :=
  scratch.dense = zeroBuffer dimension elementSize

theorem SeismicScratch.fresh_clean (dimension elementSize : ℕ) :
    (SeismicScratch.fresh dimension elementSize).Clean dimension elementSize := rfl

/-- A query on the buffers of a thread. -/
def seismicQueryOn (Q : ItemQueue F ℤ) (T : ItemQueue F ℕ) (sort : StdSort)
    (vectors : SparseVectors Code) (lists : List InvertedListClusters) (c : SearchSetting F)
    (query : SparseRow Code) (scratch : SeismicScratch) :
    Except SearchFault ((List F × List ℤ) × SeismicScratch) := do
  let cuts ← SearchFault.lift (topKTokens T c.format.elementSize query c.cut)
  if vectors.numVectors = 0 then .ok (([], []), scratch)
  else
    let dense ← scatter scratch.dense query
    -- `visited.clear()`
    let visited := []
    let heap ← SearchFault.lift (TopKHolder.new Q c.k)
    let s ← queryLists sort vectors c.format.elementSize dense c.sel query c.heapFactor lists true
      cuts ⟨heap, visited⟩
    let dense ← clearBuffer c.format.elementSize dense query
    .ok (paddedResult c.format.decodeScore c.k s.heap.topKItemsDescending, ⟨dense, s.visited⟩)

/-- What a query finds, on clean buffers. -/
def seismicVisit (Q : ItemQueue F ℤ) (T : ItemQueue F ℕ) (sort : StdSort)
    (vectors : SparseVectors Code) (lists : List InvertedListClusters) (c : SearchSetting F)
    (dimension : ℕ) (query : SparseRow Code) : Except SearchFault (Visit Q) :=
  (SearchFault.lift (topKTokens T c.format.elementSize query c.cut)).bind fun cuts =>
    (SearchFault.lift (TopKHolder.new Q c.k)).bind fun heap =>
      queryLists sort vectors c.format.elementSize
        (written (zeroBuffer dimension c.format.elementSize) query) c.sel query c.heapFactor lists
        true cuts ⟨heap, []⟩

/-- What runs between the scatter and the cleanup finds the query in the buffer and leaves zeros. -/
theorem scatter_bracket {α β γ : Type} {dimension elementSize : ℕ} {query : SparseRow Code}
    (hquery : TermsWithin dimension query) (new : Except SearchFault α)
    (body : α → List Code → Except SearchFault β) (f : β → List Code → γ) :
    ((scatter (zeroBuffer dimension elementSize) query).bind fun dense =>
        new.bind fun a => (body a dense).bind fun b =>
          (clearBuffer elementSize dense query).bind fun dense => .ok (f b dense))
      = (new.bind fun a => body a (written (zeroBuffer dimension elementSize) query)).map fun b =>
          f b (zeroBuffer dimension elementSize) := by
  obtain ⟨hscatter, hclear⟩ := @clearBuffer_scatter dimension elementSize query hquery
  rw [hscatter]
  rcases new with e | a
  · rfl
  · show (body a (written (zeroBuffer dimension elementSize) query)).bind _
      = (body a (written (zeroBuffer dimension elementSize) query)).map _
    rcases body a (written (zeroBuffer dimension elementSize) query) with e | b
    · rfl
    · show (clearBuffer elementSize (written (zeroBuffer dimension elementSize) query) query).bind _
        = _
      rw [hclear]
      rfl

theorem seismicQueryOn_eq (Q : ItemQueue F ℤ) (T : ItemQueue F ℕ) (sort : StdSort)
    {vectors : SparseVectors Code} (hvectors : vectors.numVectors ≠ 0)
    (lists : List InvertedListClusters) (c : SearchSetting F) {dimension : ℕ}
    {query : SparseRow Code} (hquery : TermsWithin dimension query) {scratch : SeismicScratch}
    (hscratch : scratch.Clean dimension c.format.elementSize) :
    seismicQueryOn Q T sort vectors lists c query scratch
      = (seismicVisit Q T sort vectors lists c dimension query).map fun s =>
          (paddedResult c.format.decodeScore c.k s.heap.topKItemsDescending,
            ⟨zeroBuffer dimension c.format.elementSize, s.visited⟩) := by
  obtain ⟨dense, visited⟩ := scratch
  obtain rfl : dense = zeroBuffer dimension c.format.elementSize := hscratch
  unfold seismicQueryOn seismicVisit
  rcases SearchFault.lift (topKTokens T c.format.elementSize query c.cut) with e | cuts
  · rfl
  · show (if vectors.numVectors = 0 then _ else _) = _
    rw [if_neg hvectors]
    exact scatter_bracket hquery _ _ _

theorem seismicQueryOn_empty (Q : ItemQueue F ℤ) (T : ItemQueue F ℕ) (sort : StdSort)
    {vectors : SparseVectors Code} (hvectors : vectors.numVectors = 0)
    (lists : List InvertedListClusters) (c : SearchSetting F) (query : SparseRow Code)
    (scratch : SeismicScratch) :
    seismicQueryOn Q T sort vectors lists c query scratch
      = (SearchFault.lift (topKTokens T c.format.elementSize query c.cut)).map fun _ =>
          (([], []), scratch) := by
  unfold seismicQueryOn
  rcases SearchFault.lift (topKTokens T c.format.elementSize query c.cut) with e | cuts
  · rfl
  · show (if vectors.numVectors = 0 then _ else _) = _
    rw [if_pos hvectors]
    rfl

/-- **A query of a seismic index resets its buffers**, with its terms within the dimension. -/
theorem seismicQueryOn_resets (Q : ItemQueue F ℤ) (T : ItemQueue F ℕ) (sort : StdSort)
    (vectors : SparseVectors Code) (lists : List InvertedListClusters) (c : SearchSetting F)
    {dimension : ℕ} {query : SparseRow Code} (hquery : TermsWithin dimension query) :
    ScratchPool.Resets (seismicQueryOn Q T sort vectors lists c)
      (.fresh dimension c.format.elementSize)
      (SeismicScratch.Clean dimension c.format.elementSize) query := by
  intro scratch hscratch
  unfold ScratchPool.alone
  by_cases hvectors : vectors.numVectors = 0
  · rw [seismicQueryOn_empty Q T sort hvectors, seismicQueryOn_empty Q T sort hvectors]
    rcases SearchFault.lift (topKTokens T c.format.elementSize query c.cut) with e | cuts
    · exact ⟨rfl, nofun⟩
    · exact ⟨rfl, fun result heq => Except.ok.inj heq ▸ hscratch⟩
  · rw [seismicQueryOn_eq Q T sort hvectors lists c hquery hscratch,
      seismicQueryOn_eq Q T sort hvectors lists c hquery (SeismicScratch.fresh_clean ..)]
    rcases seismicVisit Q T sort vectors lists c dimension query with e | s
    · exact ⟨rfl, nofun⟩
    · exact ⟨rfl, fun result heq => Except.ok.inj heq ▸ rfl⟩

/-- The loop of a search runs its queries on the buffers of one thread. -/
theorem searchQueries_cons (Q : ItemQueue F ℤ) (T : ItemQueue F ℕ) (sort : StdSort)
    (vectors : SparseVectors Code) (lists : List InvertedListClusters) (c : SearchSetting F)
    (query : SparseRow Code) (queries : List (SparseRow Code)) (scratch : SeismicScratch) :
    searchQueries Q T sort vectors lists c (query :: queries) scratch.dense = (do
      let (result, scratch) ← seismicQueryOn Q T sort vectors lists c query scratch
      let (ds, ls) ← searchQueries Q T sort vectors lists c queries scratch.dense
      .ok (result.1 :: ds, result.2 :: ls)) := by
  have hok : ∀ {α : Type} (a : α), (Except.ok a : Except SearchFault α) = pure a := fun _ => rfl
  by_cases h : vectors.numVectors = 0
  · simp only [searchQueries, seismicQueryOn, singleQuery, if_pos h, bind_assoc, hok, pure_bind]
  · simp only [searchQueries, seismicQueryOn, singleQuery, if_neg h, bind_assoc, hok, pure_bind]

/-- Candidates and scores are filled anew, and the set is emptied, where they are used. -/
structure BlockScratch (F : Type) where
  dense : List Code
  visited : List ℤ
  candidates : List (BlockCandidate F)
  scores : List F

def BlockScratch.fresh (dimension elementSize : ℕ) : BlockScratch F :=
  ⟨zeroBuffer dimension elementSize, [], [], []⟩

def BlockScratch.Clean (dimension elementSize : ℕ) (scratch : BlockScratch F) : Prop :=
  scratch.dense = zeroBuffer dimension elementSize

omit [Zero F] [One F] [Neg F] [Add F] [Sub F] [Mul F] [LinearOrder F] [FloatFormat F] in
theorem BlockScratch.fresh_clean (dimension elementSize : ℕ) :
    (BlockScratch.fresh dimension elementSize : BlockScratch F).Clean dimension elementSize := rfl

/-- Push the blocks of one term, with the scores the buffer then holds. -/
def pushCandidates (lists : List InvertedListClusters) (query : SparseRow Code)
    (s : List (BlockCandidate F) × List F) (term : ℕ) : List (BlockCandidate F) × List F :=
  match lists[term]? with
  | none => s
  | some l =>
      if l.nClusters = 0 then s
      else
        let scores := l.scoreSummariesTransposed query
        (s.1 ++ (List.range l.nClusters).map fun cid => ⟨scores.getD cid 0, term, cid⟩, scores)

omit [One F] [Neg F] in
/-- What is pushed does not depend on what the score buffer held. -/
theorem pushCandidates_foldl (lists : List InvertedListClusters) (query : SparseRow Code)
    (cuts : List ℕ) (s : List (BlockCandidate F) × List F) :
    (cuts.foldl (pushCandidates lists query) s).1 = s.1 ++ blockCandidates lists query cuts := by
  induction cuts generalizing s with
  | nil => exact (List.append_nil _).symm
  | cons term cuts ih =>
      have hcons : blockCandidates lists query (term :: cuts)
          = _ ++ blockCandidates (F := F) lists query cuts := List.flatMap_cons ..
      rw [List.foldl_cons, ih, hcons, ← List.append_assoc]
      congr 1
      unfold pushCandidates
      rcases lists[term]? with - | l
      · exact (List.append_nil _).symm
      · dsimp only
        split
        · rename_i hempty
          rw [hempty]
          exact (List.append_nil _).symm
        · rfl

/-- `block_budget_query` and the padding after it, on the buffers of a thread. -/
def blockQueryOn (Q : ItemQueue F ℤ) (T : ItemQueue F ℕ) (nth : StdNthElement)
    (source : ForwardSource) (lists : List InvertedListClusters) (c : BlockSetting F)
    (query : SparseRow Code) (scratch : BlockScratch F) :
    Except SearchFault ((List F × List ℤ) × BlockScratch F) := do
  let cuts ← SearchFault.lift (topKTokens T c.format.elementSize query c.cut)
  let dense ← scatter scratch.dense query
  -- `visited.clear()` and `candidates.clear()`
  let visited := []
  let pushed := cuts.foldl (pushCandidates lists query) ([], scratch.scores)
  let candidates := selectBlocks nth pushed.1 c.kPrime
  let heap ← SearchFault.lift (TopKHolder.new Q c.k)
  let s ← candidates.foldlM
    (fun s candidate => scoreBlock source lists c.format.elementSize dense c.sel candidate s)
    (⟨heap, visited⟩ : Visit Q)
  let dense ← clearBuffer c.format.elementSize dense query
  .ok (paddedResult c.format.decodeScore c.k s.heap.topKItemsDescending,
    ⟨dense, s.visited, candidates, pushed.2⟩)

/-- What a block query finds, on clean buffers. -/
def blockVisit (Q : ItemQueue F ℤ) (nth : StdNthElement) (source : ForwardSource)
    (lists : List InvertedListClusters) (c : BlockSetting F) (dimension : ℕ)
    (query : SparseRow Code) (cuts : List ℕ) : Except SearchFault (Visit Q) :=
  (SearchFault.lift (TopKHolder.new Q c.k)).bind fun heap =>
    (selectBlocks nth (blockCandidates lists query cuts) c.kPrime).foldlM
      (fun s candidate => scoreBlock source lists c.format.elementSize
        (written (zeroBuffer dimension c.format.elementSize) query) c.sel candidate s)
      (⟨heap, []⟩ : Visit Q)

theorem blockQueryOn_eq (Q : ItemQueue F ℤ) (T : ItemQueue F ℕ) (nth : StdNthElement)
    (source : ForwardSource) (lists : List InvertedListClusters) (c : BlockSetting F)
    {dimension : ℕ} {query : SparseRow Code} (hquery : TermsWithin dimension query)
    {scratch : BlockScratch F} (hscratch : scratch.Clean dimension c.format.elementSize) :
    ∃ left : List ℕ → Visit Q → BlockScratch F,
      (∀ cuts s, (left cuts s).Clean dimension c.format.elementSize) ∧
      blockQueryOn Q T nth source lists c query scratch
        = (SearchFault.lift (topKTokens T c.format.elementSize query c.cut)).bind fun cuts =>
            (blockVisit Q nth source lists c dimension query cuts).map fun s =>
              (paddedResult c.format.decodeScore c.k s.heap.topKItemsDescending, left cuts s) := by
  obtain ⟨dense, visited, candidates, scores⟩ := scratch
  obtain rfl : dense = zeroBuffer dimension c.format.elementSize := hscratch
  refine ⟨fun cuts s => ⟨zeroBuffer dimension c.format.elementSize, s.visited,
    selectBlocks nth (cuts.foldl (pushCandidates lists query) ([], scores)).1 c.kPrime,
    (cuts.foldl (pushCandidates lists query) ([], scores)).2⟩, fun _ _ => rfl, ?_⟩
  unfold blockQueryOn
  rcases SearchFault.lift (topKTokens T c.format.elementSize query c.cut) with e | cuts
  · rfl
  · show _ = (blockVisit Q nth source lists c dimension query cuts).map _
    unfold blockVisit
    have hcandidates := pushCandidates_foldl lists query cuts (([] : List (BlockCandidate F)), scores)
    rw [List.nil_append] at hcandidates
    rw [← hcandidates]
    exact scatter_bracket hquery _ _ _

/-- **A block query resets its buffers**, with its terms within the dimension. -/
theorem blockQueryOn_resets (Q : ItemQueue F ℤ) (T : ItemQueue F ℕ) (nth : StdNthElement)
    (source : ForwardSource) (lists : List InvertedListClusters) (c : BlockSetting F)
    {dimension : ℕ} {query : SparseRow Code} (hquery : TermsWithin dimension query) :
    ScratchPool.Resets (blockQueryOn Q T nth source lists c)
      (.fresh dimension c.format.elementSize)
      (BlockScratch.Clean dimension c.format.elementSize) query := by
  intro scratch hscratch
  obtain ⟨left, hleft, heq⟩ := blockQueryOn_eq Q T nth source lists c hquery hscratch
  obtain ⟨leftFresh, -, heqFresh⟩ := blockQueryOn_eq Q T nth source lists c hquery
    (BlockScratch.fresh_clean ..)
  rw [ScratchPool.alone, heq, heqFresh]
  rcases SearchFault.lift (topKTokens T c.format.elementSize query c.cut) with e | cuts
  · exact ⟨rfl, nofun⟩
  · show ((blockVisit Q nth source lists c dimension query cuts).map _).map _
        = ((blockVisit Q nth source lists c dimension query cuts).map _).map _ ∧
      ∀ result, (blockVisit Q nth source lists c dimension query cuts).map _ = .ok result → _
    rcases blockVisit Q nth source lists c dimension query cuts with e | s
    · exact ⟨rfl, nofun⟩
    · exact ⟨rfl, fun result hok => Except.ok.inj hok ▸ hleft cuts s⟩

theorem blockQueries_cons (Q : ItemQueue F ℤ) (T : ItemQueue F ℕ) (nth : StdNthElement)
    (source : ForwardSource) (lists : List InvertedListClusters) (c : BlockSetting F)
    (query : SparseRow Code) (queries : List (SparseRow Code)) (scratch : BlockScratch F) :
    blockQueries Q T nth source lists c (query :: queries) scratch.dense = (do
      let (result, scratch) ← blockQueryOn Q T nth source lists c query scratch
      let (ds, ls) ← blockQueries Q T nth source lists c queries scratch.dense
      .ok (result.1 :: ds, result.2 :: ls)) := by
  have hok : ∀ {α : Type} (a : α), (Except.ok a : Except SearchFault α) = pure a := fun _ => rfl
  simp only [blockQueries, blockQueryOn, blockBudgetQuery, pushCandidates_foldl, List.nil_append,
    bind_assoc, hok, pure_bind]

/-- One query of `exact_match_directory`, on the dense buffer of a thread. -/
def directoryQueryOn (Q : ItemQueue F ℤ) (x : DiskSeismicIndex F) (format : QueryFormat F) (k : ℤ)
    (ids : List ℤ) (query : SparseRow Code) (dense : List Code) :
    Except SearchFault ((List F × List ℤ) × List Code) := do
  let dense ← scatter dense query
  let heap ← SearchFault.lift (TopKHolder.new Q k)
  let heap ← x.directoryDocs format.elementSize dense ids heap
  let dense ← clearBuffer format.elementSize dense query
  .ok (paddedResult format.decodeScore k heap.topKItemsDescending, dense)

theorem directoryQueryOn_eq (Q : ItemQueue F ℤ) (x : DiskSeismicIndex F) (format : QueryFormat F)
    (k : ℤ) (ids : List ℤ) {dimension : ℕ} {query : SparseRow Code}
    (hquery : TermsWithin dimension query) :
    directoryQueryOn Q x format k ids query (zeroBuffer dimension format.elementSize)
      = ((SearchFault.lift (TopKHolder.new Q k)).bind fun heap =>
          x.directoryDocs format.elementSize
            (written (zeroBuffer dimension format.elementSize) query) ids heap).map fun heap =>
              (paddedResult format.decodeScore k heap.topKItemsDescending,
                zeroBuffer dimension format.elementSize) :=
  scatter_bracket hquery _ _ _

/-- **A query of the directory resets its buffer**, with its terms within the dimension. -/
theorem directoryQueryOn_resets (Q : ItemQueue F ℤ) (x : DiskSeismicIndex F)
    (format : QueryFormat F) (k : ℤ) (ids : List ℤ) {dimension : ℕ} {query : SparseRow Code}
    (hquery : TermsWithin dimension query) :
    ScratchPool.Resets (directoryQueryOn Q x format k ids) (zeroBuffer dimension format.elementSize)
      (fun dense => dense = zeroBuffer dimension format.elementSize) query := by
  rintro dense rfl
  refine ⟨rfl, fun result hok => ?_⟩
  rw [directoryQueryOn_eq Q x format k ids hquery] at hok
  obtain ⟨heap, -, rfl⟩ := (exists_map_eq_ok_iff (P := (· = result))).mp ⟨result, hok, rfl⟩
  rfl

theorem exactMatchDirectory_cons (Q : ItemQueue F ℤ) (x : DiskSeismicIndex F)
    (format : QueryFormat F) (k : ℤ) (ids : List ℤ) (query : SparseRow Code)
    (queries : List (SparseRow Code)) (dense : List Code) :
    x.exactMatchDirectory Q format k ids (query :: queries) dense = (do
      let (result, dense) ← directoryQueryOn Q x format k ids query dense
      let (ds, ls) ← x.exactMatchDirectory Q format k ids queries dense
      .ok (result.1 :: ds, result.2 :: ls)) := by
  have hok : ∀ {α : Type} (a : α), (Except.ok a : Except SearchFault α) = pure a := fun _ => rfl
  simp only [DiskSeismicIndex.exactMatchDirectory, directoryQueryOn, bind_assoc, hok, pure_bind]

end Seismic

/-! ### No leak -/

section NoLeak

variable [Ring F] [LinearOrder F] [FloatFormat F]

/-- The loop of a seismic search answers each query as if it were alone. -/
theorem searchQueries_eq_alone (Q : ItemQueue F ℤ) (T : ItemQueue F ℕ) (sort : StdSort)
    (vectors : SparseVectors Code) (lists : List InvertedListClusters) (c : SearchSetting F)
    {dimension : ℕ} {queries : List (SparseRow Code)}
    (hqueries : ∀ query ∈ queries, TermsWithin dimension query) :
    searchQueries Q T sort vectors lists c queries (zeroBuffer dimension c.format.elementSize)
      = eachAlone (ScratchPool.alone (seismicQueryOn Q T sort vectors lists c)
          (.fresh dimension c.format.elementSize)) queries :=
  eachAlone_of_resets (fun _ => rfl) (searchQueries_cons Q T sort vectors lists c)
    (fun query h => seismicQueryOn_resets Q T sort vectors lists c (hqueries query h))
    (SeismicScratch.fresh_clean ..)

theorem blockQueries_eq_alone (Q : ItemQueue F ℤ) (T : ItemQueue F ℕ) (nth : StdNthElement)
    (source : ForwardSource) (lists : List InvertedListClusters) (c : BlockSetting F)
    {dimension : ℕ} {queries : List (SparseRow Code)}
    (hqueries : ∀ query ∈ queries, TermsWithin dimension query) :
    blockQueries Q T nth source lists c queries (zeroBuffer dimension c.format.elementSize)
      = eachAlone (ScratchPool.alone (blockQueryOn Q T nth source lists c)
          (.fresh dimension c.format.elementSize)) queries :=
  eachAlone_of_resets (fun _ => rfl) (blockQueries_cons Q T nth source lists c)
    (fun query h => blockQueryOn_resets Q T nth source lists c (hqueries query h))
    (BlockScratch.fresh_clean ..)

theorem exactMatchDirectory_eq_alone (Q : ItemQueue F ℤ) (x : DiskSeismicIndex F)
    (format : QueryFormat F) (k : ℤ) (ids : List ℤ) {dimension : ℕ}
    {queries : List (SparseRow Code)}
    (hqueries : ∀ query ∈ queries, TermsWithin dimension query) :
    x.exactMatchDirectory Q format k ids queries (zeroBuffer dimension format.elementSize)
      = eachAlone (ScratchPool.alone (directoryQueryOn Q x format k ids)
          (zeroBuffer dimension format.elementSize)) queries :=
  eachAlone_of_resets (fun _ => rfl) (exactMatchDirectory_cons Q x format k ids)
    (fun query h => directoryQueryOn_resets Q x format k ids (hqueries query h)) rfl

/-- **Queries do not leak** into one another: in any order and on any threads, each one has the
result it has alone on fresh buffers, and every buffer is left clean. -/
theorem queries_do_not_leak (Q : ItemQueue F ℤ) (T : ItemQueue F ℕ) (sort : StdSort)
    (nth : StdNthElement) (fuel : ℕ) {dimension : ℕ} (floatQueries : List (SparseRow F))
    (queries : List (SparseRow Code)) (hqueries : ∀ query ∈ queries, TermsWithin dimension query)
    (events : List (ℕ × ℕ)) :
    (∀ lists maxTermScores k sel,
      ScratchPool.Independent (InvertedIndex.queryOn Q sort fuel lists maxTermScores k sel) .fresh
        InvertedScratch.Clean (floatQueries.getD · []) events) ∧
    (∀ vectors lists (c : SearchSetting F),
      ScratchPool.Independent (seismicQueryOn Q T sort vectors lists c)
        (.fresh dimension c.format.elementSize)
        (SeismicScratch.Clean dimension c.format.elementSize) (queries.getD · []) events) ∧
    (∀ source lists (c : BlockSetting F),
      ScratchPool.Independent (blockQueryOn Q T nth source lists c)
        (.fresh dimension c.format.elementSize)
        (BlockScratch.Clean dimension c.format.elementSize) (queries.getD · []) events) ∧
    ∀ (x : DiskSeismicIndex F) (format : QueryFormat F) k ids,
      ScratchPool.Independent (directoryQueryOn Q x format k ids)
        (zeroBuffer dimension format.elementSize)
        (fun dense => dense = zeroBuffer dimension format.elementSize) (queries.getD · [])
        events := by
  have hwithin : ∀ i, TermsWithin dimension (queries.getD i []) := by
    intro i
    by_cases hi : i < queries.length
    · rw [List.getD_eq_getElem _ _ hi]
      exact hqueries _ (List.getElem_mem hi)
    · rw [List.getD_eq_default _ _ (not_lt.mp hi)]
      exact fun _ => nofun
  refine ⟨fun lists maxTermScores k sel => ?_, fun vectors lists c => ?_,
    fun source lists c => ?_, fun x format k ids => ?_⟩
  · apply ScratchPool.Resets.independent InvertedScratch.fresh_clean
    exact fun event _ => InvertedIndex.queryOn_resets Q sort fuel lists maxTermScores k sel _
  · apply ScratchPool.Resets.independent (SeismicScratch.fresh_clean ..)
    exact fun event _ => seismicQueryOn_resets Q T sort vectors lists c (hwithin event.2)
  · apply ScratchPool.Resets.independent (BlockScratch.fresh_clean ..)
    exact fun event _ => blockQueryOn_resets Q T nth source lists c (hwithin event.2)
  · apply ScratchPool.Resets.independent
    · rfl
    · exact fun event _ => directoryQueryOn_resets Q x format k ids (hwithin event.2)

/-- Three documents, two of them with term 0. -/
def threeDocs : SparseVectors Code := ⟨U8, 2, [0, 1, 2, 3], [0, 0, 1], [[5], [3], [7]]⟩

/-- A cluster for each of them. -/
def threeClusters : List InvertedListClusters :=
  [⟨2, U8, [0, 1], [0, 1, 2], [0], [0, 2], [0, 1], [5, 3]⟩,
    ⟨1, U8, [2], [0, 1], [1], [0, 1], [0], [7]⟩]

set_option maxRecDepth 20000 in
/-- Two threads and two queries, the first of which repeats its term: the thread that serves it second
scores the best of three clusters as the other would. -/
theorem queries_do_not_leak_repeated_term :
    ScratchPool.Independent
        (blockQueryOn (sortedQueue TopKItem.score) (sortedQueue TopKItem.score)
          insertionSort.nthElement (.rows threeDocs) threeClusters
          (⟨⟨U8, fun _ => [0], id⟩, 1, 10, 1, none⟩ : BlockSetting ℤ))
        (.fresh 2 U8) (BlockScratch.Clean 2 U8)
        ([[(0, [2]), (0, [3])], [(1, [1])]].getD · []) [(0, 1), (1, 0), (0, 0)] ∧
      ((ScratchPool.runAll
          (blockQueryOn (sortedQueue TopKItem.score) (sortedQueue TopKItem.score)
            insertionSort.nthElement (.rows threeDocs) threeClusters
            (⟨⟨U8, fun _ => [0], id⟩, 1, 10, 1, none⟩ : BlockSetting ℤ))
          ([[(0, [2]), (0, [3])], [(1, [1])]].getD · []) [(0, 1), (1, 0), (0, 0)]
          (ScratchPool.start (.fresh 2 U8))).toOption.map fun pool => (pool.slots 0, pool.slots 1))
        = some (some ([15], [0]), some ([7], [2])) := by
  refine ⟨?_, by decide⟩
  obtain ⟨-, -, hblocks, -⟩ := queries_do_not_leak (F := ℤ) (sortedQueue TopKItem.score)
    (sortedQueue TopKItem.score) insertionSort insertionSort.nthElement 0 []
    [[(0, [2]), (0, [3])], [(1, [1])]] (show ∀ query ∈ _, TermsWithin 2 query by decide)
    [(0, 1), (1, 0), (0, 0)]
  exact hblocks (.rows threeDocs) threeClusters ⟨⟨U8, fun _ => [0], id⟩, 1, 10, 1, none⟩

end NoLeak

end Nsparse
