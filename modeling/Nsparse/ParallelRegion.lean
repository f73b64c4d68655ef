/-
Nsparse/ParallelRegion.lean

What escapes from the parallel region of a search.

The seismic searches and the searches of the disk indexes answer their queries inside an
OpenMP region, where an exception that is not caught ends the process.  `Region` is what
such a search hands to its threads: the buffer each of them allocates and the work on a
query.  A search has a region or ends before one (`region`); where it has one, it is its
queries in turn (`search_of_region`).

Four things in there throw: a negative dimension when the buffer is allocated, a cut that
is not positive when a query has more terms, a mapped block that fails its checks, and a
locator that does not resolve.  Nothing else does (`nothing_escapes_iff`).
-/
import Nsparse.BatchedEqual
import Nsparse.Heaps
import Nsparse.QueryScratch
import Nsparse.Selection

namespace Nsparse

variable {F : Type}

/-! ### Outcomes without an exception -/

/-- The outcome is not an exception. -/
def SearchFault.NotThrown {α : Type} (r : Except SearchFault α) : Prop := ∀ e, r ≠ .error (.threw e)

namespace SearchFault

variable {α β : Type}

theorem quiet_ok (a : α) : NotThrown (.ok a) := nofun

theorem ok_bind (a : α) (f : α → Except SearchFault β) : (Except.ok a >>= f) = f a := rfl

theorem lift_ok (a : α) : lift (.ok a) = .ok a := rfl

theorem quiet_outOfBuffer : NotThrown (.error .outOfBuffer : Except SearchFault α) := nofun

theorem quiet_lift {r : Except Exception α} (h : ∃ a, r = .ok a) : NotThrown (lift r) := by
  obtain ⟨a, rfl⟩ := h
  exact quiet_ok a

/-- One step after another. -/
theorem NotThrown.bind {r : Except SearchFault α} {f : α → Except SearchFault β} (hr : NotThrown r)
    (hf : ∀ a, r = .ok a → NotThrown (f a)) : NotThrown (r >>= f) := by
  intro e
  rcases r with e' | a
  · intro heq
    exact hr e (by rw [Except.error.inj heq])
  · exact hf a rfl e

theorem quiet_foldlM {σ : Type} {step : σ → α → Except SearchFault σ} {l : List α}
    (h : ∀ a ∈ l, ∀ s, NotThrown (step s a)) (s : σ) : NotThrown (l.foldlM step s) := by
  induction l generalizing s with
  | nil => exact quiet_ok s
  | cons a l ih =>
      obtain ⟨ha, hl⟩ := List.forall_mem_cons.mp h
      rw [List.foldlM_cons]
      exact (ha s).bind fun s' _ => ih hl s'

end SearchFault

open SearchFault

/-! ### The steps of a query -/

theorem scatter_quiet (dense : List Code) (query : SparseRow Code) :
    NotThrown (scatter dense query) := by
  unfold scatter
  apply quiet_foldlM
  intro entry _ dense
  split
  · exact quiet_ok _
  · exact quiet_outOfBuffer

theorem clearBuffer_quiet (elementSize : ℕ) (dense : List Code) (query : SparseRow Code) :
    NotThrown (clearBuffer elementSize dense query) := scatter_quiet _ _

section Steps

variable [Zero F] [One F] [Neg F] [Add F] [Sub F] [Mul F] [LinearOrder F] [FloatFormat F]
variable {Q : ItemQueue F ℤ} {T : ItemQueue F ℕ}

omit [Zero F] [One F] [Neg F] [Add F] [Sub F] [Mul F] [FloatFormat F] in
theorem new_quiet {A : Type} (R : ItemQueue F A) {k : ℤ} (hk : 0 < k) :
    NotThrown (SearchFault.lift (TopKHolder.new R k)) := by
  apply quiet_lift
  exact ⟨_, TopKHolder.new_of_pos R hk⟩

omit [One F] [Neg F] in
/-- The terms of a query are cut to a positive number. -/
theorem topKTokens_quiet (elementSize : ℕ) (query : SparseRow Code) {cut : ℤ} (hcut : 0 < cut) :
    NotThrown (SearchFault.lift (topKTokens T elementSize query cut)) := by
  apply quiet_lift
  unfold topKTokens
  split
  · exact ⟨_, rfl⟩
  · rw [TopKHolder.new_of_pos T hcut]
    exact ⟨_, rfl⟩

omit [One F] [Neg F] in
theorem scoreDoc_quiet (elementSize : ℕ) (dense : List Code) (sel : Option IDSelector) (doc : ℤ)
    (row : SparseRow Code) (s : Visit Q) :
    NotThrown (scoreDoc elementSize dense sel doc row s) := by
  unfold scoreDoc
  split
  · exact quiet_ok _
  · dsimp only
    split
    · exact quiet_ok _
    · split
      · exact quiet_outOfBuffer
      · exact quiet_ok _

omit [One F] [Neg F] in
theorem scoreDocs_quiet (vectors : SparseVectors Code) (elementSize : ℕ) (dense : List Code)
    (sel : Option IDSelector) (docs : List ℤ) (s : Visit Q) :
    NotThrown (scoreDocs vectors elementSize dense sel docs s) := by
  unfold scoreDocs
  apply quiet_foldlM
  intro doc _ s
  exact scoreDoc_quiet _ _ _ _ _ s

omit [One F] [Neg F] in
theorem visitClusters_quiet (vectors : SparseVectors Code) (elementSize : ℕ) (dense : List Code)
    (sel : Option IDSelector) (l : InvertedListClusters) (scores : List F) (heapFactor : F)
    (firstList : Bool) (order : List ℕ) (s : Visit Q) :
    NotThrown
      (visitClusters vectors elementSize dense sel l scores heapFactor firstList order s) := by
  induction order generalizing s with
  | nil => exact quiet_ok s
  | cons cluster order ih =>
      unfold visitClusters
      split
      · split
        · exact quiet_ok s
        · exact ih s
      · exact (scoreDocs_quiet _ _ _ _ _ s).bind fun s _ => ih s

omit [One F] [Neg F] in
theorem queryLists_quiet (sort : StdSort) (vectors : SparseVectors Code) (elementSize : ℕ)
    (dense : List Code) (sel : Option IDSelector) (query : SparseRow Code) (heapFactor : F)
    (lists : List InvertedListClusters) (firstList : Bool) (cuts : List ℕ) (s : Visit Q) :
    NotThrown (queryLists sort vectors elementSize dense sel query heapFactor lists firstList cuts
      s) := by
  induction cuts generalizing firstList s with
  | nil => exact quiet_ok s
  | cons term cuts ih =>
      unfold queryLists
      split
      · exact ih firstList s
      · refine NotThrown.bind ?_ fun s _ => ih false s
        unfold querySingleInvertedList
        split
        · exact quiet_ok s
        · exact visitClusters_quiet _ _ _ _ _ _ _ _ _ s

/-- **A query of a seismic index** throws nothing, with a positive cut. -/
theorem seismicQueryOn_quiet (sort : StdSort) (vectors : SparseVectors Code)
    (lists : List InvertedListClusters) {c : SearchSetting F} (hk : 0 < c.k) (hcut : 0 < c.cut)
    (query : SparseRow Code) (scratch : SeismicScratch) :
    NotThrown (seismicQueryOn Q T sort vectors lists c query scratch) := by
  unfold seismicQueryOn
  refine (topKTokens_quiet _ query hcut).bind fun cuts _ => ?_
  split
  · exact quiet_ok _
  · refine (scatter_quiet _ _).bind fun dense _ => ?_
    refine (new_quiet Q hk).bind fun heap _ => ?_
    refine (queryLists_quiet sort vectors _ dense c.sel query _ lists true cuts _).bind
      fun s _ => ?_
    exact (clearBuffer_quiet _ _ _).bind fun dense _ => quiet_ok _

/-- A block passes its checks, where blocks are scored. -/
def ForwardSource.Readable (source : ForwardSource) (pl cid : ℕ) : Prop :=
  match source with
  | .blocks fwd => ∃ view, fwd.block pl cid = .ok view
  | .rows _ => True

omit [One F] [Neg F] in
theorem scoreBlock_quiet {source : ForwardSource} (lists : List InvertedListClusters)
    (elementSize : ℕ) (dense : List Code) (sel : Option IDSelector) {candidate : BlockCandidate F}
    (h : source.Readable candidate.pl candidate.cid) (s : Visit Q) :
    NotThrown (scoreBlock source lists elementSize dense sel candidate s) := by
  cases source with
  | blocks fwd =>
      refine NotThrown.bind (quiet_lift h) fun view _ => ?_
      rcases view with - | view
      · exact quiet_ok s
      · apply quiet_foldlM
        intro doc _ s
        exact scoreDoc_quiet _ _ _ _ _ s
  | rows vectors => exact scoreDocs_quiet _ _ _ _ _ s

omit [One F] [Neg F] in
/-- What is left of a query are terms of it. -/
theorem mem_topKTokens {elementSize : ℕ} {query : SparseRow Code} {cut : ℤ} {cuts : List ℕ}
    (h : topKTokens T elementSize query cut = .ok cuts) {term : ℕ} (hterm : term ∈ cuts) :
    term ∈ query.map Prod.fst := by
  unfold topKTokens at h
  split at h
  · obtain rfl := Except.ok.inj h
    exact hterm
  · dsimp only at h
    rcases hnew : TopKHolder.new T cut with e | holder
    · rw [hnew] at h
      cases h
    · rw [hnew] at h
      obtain rfl := Except.ok.inj h
      have hoffered : ∀ (entries : SparseRow Code) (holder : TopKHolder T),
          (∀ entry ∈ entries, entry ∈ query) →
          holder.Offered cut.toNat (fun item => item.id ∈ query.map Prod.fst) →
          (entries.foldl (fun (holder : TopKHolder T) entry =>
            holder.add ((ValueType.ofWidth F elementSize).toFloat
              ((ValueType.ofWidth F elementSize).decode entry.2)) entry.1) holder).Offered
            cut.toNat (fun item => item.id ∈ query.map Prod.fst) := by
        intro entries
        induction entries with
        | nil => exact fun holder _ hholder => hholder
        | cons entry entries ih =>
            intro holder hsub hholder
            obtain ⟨hentry, hsub⟩ := List.forall_mem_cons.mp hsub
            exact ih _ hsub (hholder.add (List.mem_map_of_mem hentry))
      obtain ⟨items, -, hitems, heq⟩ :=
        (hoffered query holder (fun _ h => h) (TopKHolder.offered_new hnew _)).drained
      dsimp only at hterm
      rw [heq] at hterm
      obtain ⟨item, hitem, rfl⟩ := List.mem_map.mp hterm
      exact hitems item hitem

omit [One F] [Neg F] in
/-- A candidate block is one of a term of the query. -/
theorem mem_cuts_of_mem_blockCandidates {lists : List InvertedListClusters}
    {query : SparseRow Code} {cuts : List ℕ} {candidate : BlockCandidate F}
    (h : candidate ∈ blockCandidates lists query cuts) : candidate.pl ∈ cuts := by
  obtain ⟨term, hterm, h⟩ := List.mem_flatMap.mp h
  rcases hl : lists[term]? with - | l
  · rw [hl] at h
    cases h
  · rw [hl] at h
    obtain ⟨cid, -, rfl⟩ := List.mem_map.mp h
    exact hterm

/-- **A block query** throws nothing, with a positive cut and readable blocks in the lists of the
terms that fit into the buffer. -/
theorem blockQueryOn_quiet (nth : StdNthElement) {source : ForwardSource}
    {lists : List InvertedListClusters} {c : BlockSetting F} (hk : 0 < c.k) (hcut : 0 < c.cut)
    {query : SparseRow Code} {scratch : BlockScratch F}
    (hblocks : ∀ entry ∈ query, entry.1 < scratch.dense.length → ∀ l, lists[entry.1]? = some l →
      ∀ cid < l.nClusters, source.Readable entry.1 cid) :
    NotThrown (blockQueryOn Q T nth source lists c query scratch) := by
  unfold blockQueryOn
  refine (topKTokens_quiet _ query hcut).bind fun cuts hcuts => ?_
  refine (scatter_quiet _ _).bind fun dense hscatter => ?_
  dsimp only
  refine (new_quiet Q hk).bind fun heap _ => ?_
  refine NotThrown.bind ?_ fun s _ => (clearBuffer_quiet _ _ _).bind fun dense _ => quiet_ok _
  apply quiet_foldlM
  intro candidate hcandidate s
  apply scoreBlock_quiet
  rw [pushCandidates_foldl, List.nil_append] at hcandidate
  have hmem := mem_selectBlocks hcandidate
  obtain ⟨l, hl, hcid⟩ := mem_blockCandidates hmem
  -- its term was written into the buffer
  have hterm := mem_topKTokens (lift_eq_ok hcuts) (mem_cuts_of_mem_blockCandidates hmem)
  obtain ⟨entry, hentry, hpl⟩ := List.mem_map.mp hterm
  rw [← hpl] at hl ⊢
  exact hblocks entry hentry ((scatter_eq_ok hscatter).1 entry hentry) l hl candidate.cid hcid

omit [One F] [Neg F] in
theorem directoryDocs_quiet (x : DiskSeismicIndex F) {elementSize : ℕ} (dense : List Code)
    {ids : List ℤ}
    (hdocs : ∀ doc : ℕ, doc < x.docLocators.length → ∃ row, x.getDoc doc elementSize = .ok row)
    (heap : TopKHolder Q) : NotThrown (x.directoryDocs elementSize dense ids heap) := by
  induction ids generalizing heap with
  | nil => exact quiet_ok heap
  | cons doc ids ih =>
      unfold DiskSeismicIndex.directoryDocs
      split
      · exact ih heap
      · rename_i hin
        push Not at hin
        obtain ⟨d, rfl⟩ := Int.eq_ofNat_of_zero_le hin.1
        refine NotThrown.bind (quiet_lift (hdocs d (Int.ofNat_lt.mp hin.2))) fun row _ => ?_
        split
        · exact quiet_outOfBuffer
        · exact ih _

/-- **A query of the directory** throws nothing when the locators resolve. -/
theorem directoryQueryOn_quiet (x : DiskSeismicIndex F) (format : QueryFormat F) {k : ℤ}
    (hk : 0 < k) (ids : List ℤ)
    (hdocs : ∀ doc : ℕ, doc < x.docLocators.length →
      ∃ row, x.getDoc doc format.elementSize = .ok row)
    (query : SparseRow Code) (dense : List Code) :
    NotThrown (directoryQueryOn Q x format k ids query dense) := by
  unfold directoryQueryOn
  refine (scatter_quiet _ _).bind fun dense _ => ?_
  refine (new_quiet Q hk).bind fun heap _ => ?_
  refine (directoryDocs_quiet x dense hdocs heap).bind fun heap _ => ?_
  exact (clearBuffer_quiet _ _ _).bind fun dense _ => quiet_ok _

end Steps

/-! ### Regions -/

/-- What a search hands to the threads of its parallel region: what each of them allocates first,
the queries, and the work on one of them. -/
structure Region (F : Type) where
  Scratch : Type
  allocated : Except Exception Scratch
  dense : Scratch → List Code
  queries : List (SparseRow Code)
  run : SparseRow Code → Scratch → Except SearchFault ((List F × List ℤ) × Scratch)

namespace Region

/-- No exception leaves the region: a thread gets its buffers, and no query throws, on those or on
what other queries left of them. -/
structure Quiet (r : Region F) : Prop where
  allocated : ∃ scratch, r.allocated = .ok scratch
  queries : ∀ fresh, r.allocated = .ok fresh → ∀ query ∈ r.queries, ∀ scratch,
    (r.dense scratch).length = (r.dense fresh).length → SearchFault.NotThrown (r.run query scratch)

/-- Queries in turn, on the buffers of one thread. -/
def loop (r : Region F) : List (SparseRow Code) → r.Scratch → Except SearchFault (SearchRows F)
  | [], _ => .ok ([], [])
  | query :: queries, scratch => do
      let (result, scratch) ← r.run query scratch
      let (ds, ls) ← r.loop queries scratch
      .ok (result.1 :: ds, result.2 :: ls)

/-- The region on one thread. -/
def outcome (r : Region F) : Except SearchFault (SearchRows F) :=
  (SearchFault.lift r.allocated).bind (r.loop r.queries)

/-- A loop of the searches is a region on one thread. -/
theorem outcome_eq (r : Region F)
    {loop : List (SparseRow Code) → List Code → Except SearchFault (SearchRows F)}
    (hnil : ∀ buffer, loop [] buffer = .ok ([], []))
    (hcons : ∀ query queries scratch, loop (query :: queries) (r.dense scratch) = (do
      let (result, scratch) ← r.run query scratch
      let (ds, ls) ← loop queries (r.dense scratch)
      .ok (result.1 :: ds, result.2 :: ls)))
    {scratch : r.Scratch} (hscratch : r.allocated = .ok scratch) :
    r.outcome = loop r.queries (r.dense scratch) := by
  have hloop : ∀ queries scratch, r.loop queries scratch = loop queries (r.dense scratch) := by
    intro queries
    induction queries with
    | nil => exact fun scratch => (hnil _).symm
    | cons query queries ih =>
        intro scratch
        rw [hcons, Region.loop]
        congr 1
        funext ⟨result, scratch'⟩
        show (r.loop queries scratch' >>= _) = (loop queries (r.dense scratch') >>= _)
        rw [ih]
  rw [outcome, hscratch]
  exact hloop r.queries scratch

end Region

/-- `std::vector` of `dimension * element_size` zero bytes: a negative dimension is a size beyond
any vector's. -/
def denseBuffer (dim : ℤ) (elementSize : ℕ) : Except Exception (List Code) :=
  if dim < 0 then .error (.lengthError "cannot create std::vector larger than max_size()")
  else .ok (zeroBuffer dim.toNat elementSize)

section Regions

variable [Zero F] [One F] [Neg F] [Add F] [Sub F] [Mul F] [LinearOrder F] [FloatFormat F]

/-- The region of a seismic search. -/
def seismicRegion (Q : ItemQueue F ℤ) (T : ItemQueue F ℕ) (sort : StdSort)
    (vectors : SparseVectors Code) (lists : List InvertedListClusters) (c : SearchSetting F)
    (dim : ℤ) (queries : List (SparseRow Code)) : Region F where
  Scratch := SeismicScratch
  allocated := (denseBuffer dim c.format.elementSize).map fun dense => ⟨dense, []⟩
  dense := SeismicScratch.dense
  queries := queries
  run := seismicQueryOn Q T sort vectors lists c

/-- The region of a block search. -/
def blockRegion (Q : ItemQueue F ℤ) (T : ItemQueue F ℕ) (nth : StdNthElement)
    (source : ForwardSource) (lists : List InvertedListClusters) (c : BlockSetting F) (dim : ℤ)
    (queries : List (SparseRow Code)) : Region F where
  Scratch := BlockScratch F
  allocated := (denseBuffer dim c.format.elementSize).map fun dense => ⟨dense, [], [], []⟩
  dense := BlockScratch.dense
  queries := queries
  run := blockQueryOn Q T nth source lists c

/-- The region of `exact_match_directory`. -/
def directoryRegion (Q : ItemQueue F ℤ) (x : DiskSeismicIndex F) (format : QueryFormat F) (k : ℤ)
    (ids : List ℤ) (dim : ℤ) (queries : List (SparseRow Code)) : Region F where
  Scratch := List Code
  allocated := denseBuffer dim format.elementSize
  dense := id
  queries := queries
  run := directoryQueryOn Q x format k ids

/-- The region that a search comes to, with vectors, a valid quantizer and no selector to walk. -/
def SeismicIndex.region (Q : ItemQueue F ℤ) (T : ItemQueue F ℕ) (sort : StdSort)
    (queryFormat : Option (SearchFields F) → Except Exception (QueryFormat F)) (dim : ℤ)
    (x : SeismicIndex F) (n : ℤ) (indptr indices : List ℕ) (values : List F) (k : ℤ)
    (params : Option (SearchFields F)) (sel : Option IDSelector) : Option (Region F) :=
  match x.vectors, queryFormat params, exactMatchIds sel k with
  | some vectors, .ok format, none =>
      if n = 0 then none
      else
        let (cut, heapFactor) := SearchFields.cutAndHeapFactor params
        some (seismicRegion Q T sort vectors x.clusteredInvertedLists
          ⟨format, k, cut, heapFactor, sel⟩ dim (codedQueries format n indptr indices values))
  | _, _, _ => none

namespace DiskSeismicIndex

/-- A block budget that is not positive is rejected before the region. -/
def budgetRegion (Q : ItemQueue F ℤ) (T : ItemQueue F ℕ) (nth : StdNthElement)
    (format : QueryFormat F) (dim : ℤ) (x : DiskSeismicIndex F) (n : ℤ) (indptr indices : List ℕ)
    (values : List F) (k : ℤ) (params : Option (SearchFields F)) (sel : Option IDSelector)
    (source : ForwardSource) : Option (Region F) :=
  let (cut, kPrime) := SearchFields.cutAndBudget params
  if kPrime ≤ 0 then none
  else
    some (blockRegion Q T nth source x.clusteredInvertedLists ⟨format, k, cut, kPrime, sel⟩ dim
      (codedQueries format n indptr indices values))

/-- The region of a search of a disk index.  The exact match through the vectors has none. -/
def region (Q : ItemQueue F ℤ) (T : ItemQueue F ℕ) (sort : StdSort) (nth : StdNthElement)
    (queryFormat : Option (SearchFields F) → Except Exception (QueryFormat F)) (dim : ℤ)
    (x : DiskSeismicIndex F) (n : ℤ) (indptr indices : List ℕ) (values : List F) (k : ℤ)
    (params : Option (SearchFields F)) (sel : Option IDSelector) : Option (Region F) :=
  if x.numVectors = 0 ∨ n = 0 then none
  else
    match x.forwardSource, queryFormat params with
    | some source, .ok format =>
        match exactMatchIds sel k, x.vectors with
        | none, _ =>
            x.budgetRegion Q T nth format dim n indptr indices values k params sel source
        | some _, some _ => none
        | some ids, none =>
            if x.docLocators = [] then
              x.budgetRegion Q T nth format dim n indptr indices values k params sel source
            else
              some (directoryRegion Q x format k (IDSelector.orderedIds sort ids) dim
                (codedQueries format n indptr indices values))
    | _, _ => none

end DiskSeismicIndex

/-! ### A search is its region -/

section Searches

variable {Q : ItemQueue F ℤ} {T : ItemQueue F ℕ} {sort : StdSort} {nth : StdNthElement}
  {queryFormat : Option (SearchFields F) → Except Exception (QueryFormat F)}
  {n k : ℤ} {indptr indices : List ℕ} {values : List F} {params : Option (SearchFields F)}
  {sel : Option IDSelector} {r : Region F}

omit [Zero F] [One F] [Neg F] [Add F] [Sub F] [Mul F] [LinearOrder F] [FloatFormat F] in
theorem denseBuffer_of_nonneg {dimension : ℤ} (h : 0 ≤ dimension) (elementSize : ℕ) :
    denseBuffer dimension elementSize = .ok (zeroBuffer dimension.toNat elementSize) :=
  if_neg (not_lt.mpr h)

omit [Zero F] [One F] [Neg F] [Add F] [Sub F] [Mul F] [LinearOrder F] [FloatFormat F] in
/-- Buffers around one that is filled are there exactly when the dimension is a size. -/
theorem map_denseBuffer_eq_ok {β : Type} {dimension : ℤ} {elementSize : ℕ} {f : List Code → β}
    {buffers : β} :
    (denseBuffer dimension elementSize).map f = .ok buffers ↔
      0 ≤ dimension ∧ f (zeroBuffer dimension.toNat elementSize) = buffers := by
  constructor
  · intro h
    rcases lt_or_ge dimension 0 with hneg | hdim
    · have hthrew : denseBuffer dimension elementSize = .error _ := if_pos hneg
      rw [hthrew] at h
      cases h
    · rw [denseBuffer_of_nonneg hdim] at h
      exact ⟨hdim, Except.ok.inj h⟩
  · rintro ⟨hdim, rfl⟩
    rw [denseBuffer_of_nonneg hdim]
    rfl

theorem seismicRegion_outcome (vectors : SparseVectors Code) (lists : List InvertedListClusters)
    (c : SearchSetting F) (dimension : ℕ) (queries : List (SparseRow Code)) :
    (seismicRegion Q T sort vectors lists c dimension queries).outcome
      = searchQueries Q T sort vectors lists c queries
          (zeroBuffer dimension c.format.elementSize) := by
  have hfresh : (seismicRegion Q T sort vectors lists c dimension queries).allocated
      = .ok (SeismicScratch.fresh dimension c.format.elementSize) := by
    show (denseBuffer dimension c.format.elementSize).map
      (fun dense => (⟨dense, []⟩ : SeismicScratch)) = _
    exact map_denseBuffer_eq_ok.mpr ⟨Int.natCast_nonneg dimension, rfl⟩
  exact Region.outcome_eq _ (fun _ => rfl) (searchQueries_cons Q T sort vectors lists c) hfresh

theorem blockRegion_outcome (source : ForwardSource) (lists : List InvertedListClusters)
    (c : BlockSetting F) (dimension : ℕ) (queries : List (SparseRow Code)) :
    (blockRegion Q T nth source lists c dimension queries).outcome
      = blockQueries Q T nth source lists c queries
          (zeroBuffer dimension c.format.elementSize) := by
  have hfresh : (blockRegion Q T nth source lists c dimension queries).allocated
      = .ok (BlockScratch.fresh dimension c.format.elementSize) := by
    show (denseBuffer dimension c.format.elementSize).map
      (fun dense => (⟨dense, [], [], []⟩ : BlockScratch F)) = _
    exact map_denseBuffer_eq_ok.mpr ⟨Int.natCast_nonneg dimension, rfl⟩
  exact Region.outcome_eq _ (fun _ => rfl) (blockQueries_cons Q T nth source lists c) hfresh

theorem directoryRegion_outcome (x : DiskSeismicIndex F) (format : QueryFormat F) (ids : List ℤ)
    (dimension : ℕ) (queries : List (SparseRow Code)) :
    (directoryRegion Q x format k ids dimension queries).outcome
      = x.exactMatchDirectory Q format k ids queries
          (zeroBuffer dimension format.elementSize) :=
  Region.outcome_eq _ (fun _ => rfl) (exactMatchDirectory_cons Q x format k ids)
    (denseBuffer_of_nonneg (Int.natCast_nonneg dimension) format.elementSize)

/-- **A seismic search** that comes to its region is that region. -/
theorem SeismicIndex.search_of_region {x : SeismicIndex F}
    (h : x.region Q T sort queryFormat x.dimension n indptr indices values k params sel = some r) :
    x.search Q T sort queryFormat n indptr indices values k params sel = r.outcome := by
  unfold SeismicIndex.region at h
  split at h
  · rename_i vectors format hvectors hformat hids
    split at h
    · cases h
    · rename_i hn
      obtain rfl := Option.some.inj h
      rw [seismicRegion_outcome]
      unfold SeismicIndex.search
      rw [hvectors, hformat]
      dsimp only
      rw [if_neg hn, hids]
      rfl
  · cases h

/-- **So is a search of a disk index.** -/
theorem DiskSeismicIndex.search_of_region {x : DiskSeismicIndex F}
    (h : x.region Q T sort nth queryFormat x.dimension n indptr indices values k params sel
      = some r) :
    x.search Q T sort nth queryFormat n indptr indices values k params sel = r.outcome := by
  have hblocks : ∀ source format, queryFormat params = .ok format →
      x.budgetRegion Q T nth format x.dimension n indptr indices values k params sel source
        = some r →
      x.searchBlocks Q T nth queryFormat n indptr indices values k params sel source
        = r.outcome := by
    intro source format hformat h
    unfold DiskSeismicIndex.budgetRegion at h
    dsimp only at h
    split at h
    · cases h
    · rename_i hbudget
      obtain rfl := Option.some.inj h
      rw [blockRegion_outcome]
      unfold DiskSeismicIndex.searchBlocks
      rw [hformat]
      dsimp only
      rw [if_neg hbudget]
      rfl
  unfold DiskSeismicIndex.region at h
  split at h
  · cases h
  rename_i hn
  split at h
  · rename_i source format hsource hformat
    unfold DiskSeismicIndex.search
    rw [if_neg hn, hsource]
    dsimp only
    split at h
    · rename_i hids
      rw [hids]
      exact hblocks source format hformat h
    · cases h
    · rename_i ids hids hvectors
      rw [hids, hvectors]
      dsimp only
      split at h
      · rename_i hlocators
        rw [if_pos hlocators]
        exact hblocks source format hformat h
      · rename_i hlocators
        rw [if_neg hlocators]
        obtain rfl := Option.some.inj h
        rw [directoryRegion_outcome]
        unfold DiskSeismicIndex.searchDirectory
        rw [hformat]
        rfl
  · cases h

end Searches

/-! ### What escapes -/

/-- In every search with this cut, of 16-bit terms and for a positive `k`, nothing escapes from the
region that the search comes to, if any. -/
def NothingEscapes
    (region : ℤ → List ℕ → List ℕ → List F → ℤ → Option (SearchFields F) → Option IDSelector →
      Option (Region F))
    (cut : ℤ) : Prop :=
  ∀ (queries : CsrArgs F) (indptr indices : List ℕ) (values : List F) (k : ℤ)
    (params : Option (SearchFields F)) (sel : Option IDSelector) (r : Region F),
    queries.checked = .ok (indptr, indices, values) → (∀ term ∈ indices, term < 2 ^ 16) → 0 < k →
    (SearchFields.cutAndBudget params).1 = cut →
    region queries.n indptr indices values k params sel = some r → r.Quiet

omit [Zero F] [Neg F] [Add F] [Sub F] [Mul F] [LinearOrder F] [FloatFormat F] in
/-- Both kinds of search read the same cut. -/
theorem fst_cutAndHeapFactor (params : Option (SearchFields F)) :
    (SearchFields.cutAndHeapFactor params).1 = (SearchFields.cutAndBudget params).1 := by
  rcases params with - | (- | - | - | - | -)
  all_goals rfl

/-- A batch of one query. -/
def oneQuery (query : SparseRow F) : CsrArgs F where
  n := 1
  indptr := some [0, query.length]
  indices := some (query.map Prod.fst)
  values := some (query.map Prod.snd)
  promise := by
    rintro p is vs ⟨⟩ ⟨⟩ ⟨⟩ -
    refine ⟨rfl, ⟨rfl, ?_, ?_⟩, ?_⟩
    · exact List.pairwise_pair.mpr (Nat.zero_le _)
    · rw [List.length_map]
      rfl
    · rw [List.length_map, List.length_map]

omit [Zero F] [One F] [Neg F] [Add F] [Sub F] [Mul F] [LinearOrder F] [FloatFormat F] in
theorem codedQueries_oneQuery (format : QueryFormat F) (query : SparseRow F) :
    codedQueries format 1 [0, query.length] (query.map Prod.fst) (query.map Prod.snd)
      = [query.map fun entry => (entry.1, format.encodeQuery entry.2)] := by
  have hzip : (query.map Prod.fst).zip ((query.map Prod.snd).map format.encodeQuery)
      = query.map fun entry => (entry.1, format.encodeQuery entry.2) := by
    rw [List.map_map, List.zip_map']
    rfl
  have hall : (query.map Prod.snd).take query.length = query.map Prod.snd :=
    List.take_of_length_le (List.length_map _).le
  show [Csr.row [0, query.length] ((query.map Prod.fst).zip
    (((query.map Prod.snd).take query.length).map format.encodeQuery)) 0] = _
  rw [hall, hzip]
  show [List.take query.length (List.drop 0 _)] = _
  rw [List.drop_zero, List.take_of_length_le (List.length_map _).le]

omit [Zero F] [One F] [Neg F] [Add F] [Sub F] [Mul F] [LinearOrder F] [FloatFormat F] in
/-- What the region of one query does with it. -/
theorem NothingEscapes.run_oneQuery
    {region : ℤ → List ℕ → List ℕ → List F → ℤ → Option (SearchFields F) → Option IDSelector →
      Option (Region F)} {cut : ℤ} (h : NothingEscapes region cut) (query : SparseRow F)
    (hterms : ∀ entry ∈ query, entry.1 < 2 ^ 16) {k : ℤ} (hk : 0 < k)
    {params : Option (SearchFields F)} (hcut : (SearchFields.cutAndBudget params).1 = cut)
    (sel : Option IDSelector) {r : Region F}
    (hr : region 1 [0, query.length] (query.map Prod.fst) (query.map Prod.snd) k params sel
      = some r) : r.Quiet := by
  refine h (oneQuery query) _ _ _ k params sel r rfl ?_ hk hcut hr
  exact List.forall_mem_map.mpr hterms

section Seismic

variable {Q : ItemQueue F ℤ} {T : ItemQueue F ℕ} {sort : StdSort}
  {queryFormat : Option (SearchFields F) → Except Exception (QueryFormat F)} {dim cut : ℤ}

omit [One F] [Neg F] in
/-- A query longer than a cut that is not positive cannot be cut. -/
theorem topKTokens_threw (T : ItemQueue F ℕ) (elementSize : ℕ) (query : SparseRow Code)
    (hcut : cut ≤ 0) (hlong : cut < query.length) :
    topKTokens T elementSize query cut = .error (.invalidArgument notPositiveMsg) := by
  rw [topKTokens, if_neg (not_le.mpr hlong), TopKHolder.new, if_pos hcut]
  rfl

/-- **Nothing escapes from a seismic search** exactly when it has nothing to search, or a dimension
that is a size and a positive cut. -/
theorem SeismicIndex.region_quiet_iff (x : SeismicIndex F)
    (hformat : ∃ format, queryFormat (some (.seismic cut 1)) = .ok format) :
    NothingEscapes (x.region Q T sort queryFormat dim) cut ↔
      x.vectors = none ∨ 0 ≤ dim ∧ 0 < cut := by
  constructor
  · intro h
    rcases hvectors : x.vectors with - | vectors
    · exact .inl rfl
    right
    obtain ⟨format, hformat⟩ := hformat
    -- one query comes to the region
    have hregion : ∀ query : SparseRow F,
        x.region Q T sort queryFormat dim 1 [0, query.length] (query.map Prod.fst)
            (query.map Prod.snd) 1 (some (.seismic cut 1)) none
          = some (seismicRegion Q T sort vectors x.clusteredInvertedLists
              ⟨format, 1, cut, 1, none⟩ dim
              [query.map fun entry => (entry.1, format.encodeQuery entry.2)]) := by
      intro query
      rw [← codedQueries_oneQuery, SeismicIndex.region, hvectors, hformat]
      rfl
    have hquiet := h.run_oneQuery [(0, 0)] (List.forall_mem_singleton.mpr (Nat.two_pow_pos 16))
      one_pos rfl none (hregion [(0, 0)])
    obtain ⟨fresh, hfresh⟩ := hquiet.allocated
    constructor
    · exact (map_denseBuffer_eq_ok.mp hfresh).1
    · by_contra hnot
      have hrun := hquiet.queries fresh hfresh _ (List.mem_singleton_self _) fresh rfl
      have hthrew := topKTokens_threw T format.elementSize [(0, format.encodeQuery (0 : F))]
        (not_lt.mp hnot) (lt_of_le_of_lt (not_lt.mp hnot) one_pos)
      apply hrun
      show seismicQueryOn Q T sort vectors x.clusteredInvertedLists _ [(0, format.encodeQuery 0)]
        fresh = .error (.threw (.invalidArgument notPositiveMsg))
      unfold seismicQueryOn
      rw [hthrew]
      rfl
  · intro h queries indptr indices values k params sel r hqueries hterms hk hcut hr
    unfold SeismicIndex.region at hr
    split at hr
    · rename_i vectors format hvectors hformat hids
      obtain hnone | ⟨hdim, hpos⟩ := h
      · rw [hnone] at hvectors
        cases hvectors
      split at hr
      · cases hr
      obtain rfl := Option.some.inj hr
      rw [← hcut, ← fst_cutAndHeapFactor] at hpos
      constructor
      · exact ⟨_, map_denseBuffer_eq_ok.mpr ⟨hdim, rfl⟩⟩
      · intro fresh _ query _ scratch _
        exact seismicQueryOn_quiet sort vectors x.clusteredInvertedLists hk hpos query scratch
    · cases hr

end Seismic

namespace DiskSeismicIndex

/-- The blocks that the lists name pass their checks, where a term can name the list and fits into
the buffer. -/
def BlocksReadable (x : DiskSeismicIndex F) (dim : ℤ) : Prop :=
  ∀ source, x.forwardSource = some source → ∀ (pl : ℕ) l,
    x.clusteredInvertedLists[pl]? = some l → pl < 2 ^ 16 → (pl : ℤ) < dim →
      ∀ cid < l.nClusters, source.Readable pl cid

/-- Every locator of a mapped index leads to its document. -/
def LocatorsResolve (x : DiskSeismicIndex F) (elementSize : ℕ) : Prop :=
  x.vectors = none → ∀ doc : ℕ, doc < x.docLocators.length →
    ∃ row, x.getDoc doc elementSize = .ok row

end DiskSeismicIndex

section Disk

variable {Q : ItemQueue F ℤ} {T : ItemQueue F ℕ} {sort : StdSort} {nth : StdNthElement}
  {queryFormat : Option (SearchFields F) → Except Exception (QueryFormat F)} {dim cut : ℤ}

/-- A loop throws when a step does and the steps before return. -/
theorem foldlM_threw {α σ : Type} {step : σ → α → Except SearchFault σ} {l : List α} {a : α}
    (ha : a ∈ l) (hthrows : ∀ s, ∃ e, step s a = .error (.threw e))
    (hsteps : ∀ b ∈ l, (∀ s, ∃ s', step s b = .ok s') ∨ ∀ s, ∃ e, step s b = .error (.threw e))
    (s : σ) : ∃ e, l.foldlM step s = .error (.threw e) := by
  induction l generalizing s with
  | nil => cases ha
  | cons b l ih =>
      obtain ⟨hb, hl⟩ := List.forall_mem_cons.mp hsteps
      rw [List.foldlM_cons]
      rcases hb with hok | hthrow
      · obtain ⟨s', hs'⟩ := hok s
        rw [hs']
        rcases List.mem_cons.mp ha with rfl | ha
        · obtain ⟨e, he⟩ := hthrows s
          rw [hs'] at he
          cases he
        · exact ih ha hl s'
      · obtain ⟨e, he⟩ := hthrow s
        rw [he]
        exact ⟨e, rfl⟩

omit [One F] [Neg F] in
/-- With a selector that lets nothing pass, a block is left unscored or throws. -/
theorem scoreBlock_rejecting (fwd : InlineForwardIndex) (lists : List InvertedListClusters)
    (elementSize : ℕ) (dense : List Code) (candidate : BlockCandidate F) :
    (∀ s : Visit Q, ∃ s', scoreBlock (.blocks fwd) lists elementSize dense
        (some (.plain fun _ => false)) candidate s = .ok s') ∨
      ∀ s : Visit Q, ∃ e, scoreBlock (.blocks fwd) lists elementSize dense
        (some (.plain fun _ => false)) candidate s = .error (.threw e) := by
  rcases hblock : fwd.block candidate.pl candidate.cid with e | view
  · right
    intro s
    refine ⟨e, ?_⟩
    unfold scoreBlock
    dsimp only
    rw [hblock]
    rfl
  · left
    intro s
    unfold scoreBlock
    dsimp only
    rw [hblock]
    rcases view with - | view
    · exact ⟨s, rfl⟩
    · show ∃ s', List.foldlM _ s _ = Except.ok s'
      generalize (view.docIdList fwd.mapping).zipIdx = docs
      induction docs generalizing s with
      | nil => exact ⟨s, rfl⟩
      | cons doc docs ih =>
          rw [List.foldlM_cons]
          have hskip : ∃ s', scoreDoc elementSize dense (some (.plain fun _ => false))
              (toIdx doc.1) (fwd.rowAt elementSize view doc.2) s = .ok s' := by
            unfold scoreDoc
            split
            · exact ⟨s, rfl⟩
            · exact ⟨_, if_pos rfl⟩
          obtain ⟨s', hs'⟩ := hskip
          rw [hs']
          exact ih s'

/-- **A query meets every block of a list**, with the term of the list and a budget for all of
them. -/
theorem blockQueryOn_threw (nth : StdNthElement) {fwd : InlineForwardIndex}
    {lists : List InvertedListClusters}
    (format : QueryFormat F) (hcut : 0 < cut) {pl cid : ℕ} {l : InvertedListClusters}
    (hl : lists[pl]? = some l) (hcid : cid < l.nClusters)
    (hbad : ¬(ForwardSource.blocks fwd).Readable pl cid) (code : Code) {scratch : BlockScratch F}
    (hpl : pl < scratch.dense.length) :
    ∃ e, blockQueryOn Q T nth (.blocks fwd) lists
      ⟨format, 1, cut, l.nClusters, some (.plain fun _ => false)⟩ [(pl, code)] scratch
        = .error (.threw e) := by
  have hcuts : topKTokens T format.elementSize [(pl, code)] cut = .ok [pl] :=
    if_pos (Int.add_one_le_of_lt hcut)
  have hscatter : scatter scratch.dense [(pl, code)] = .ok (scratch.dense.set pl code) := by
    unfold scatter
    rw [List.foldlM_cons, if_pos hpl]
    rfl
  have hcandidates : blockCandidates lists [(pl, code)] [pl]
      = (List.range l.nClusters).map fun cid =>
          (⟨(l.scoreSummariesTransposed [(pl, code)]).getD cid 0, pl, cid⟩ : BlockCandidate F) := by
    unfold blockCandidates
    rw [List.flatMap_cons, List.flatMap_nil, List.append_nil, hl]
  have hselected : ∀ candidates : List (BlockCandidate F), candidates.length = l.nClusters →
      selectBlocks nth candidates l.nClusters = candidates := by
    intro candidates hlength
    unfold selectBlocks
    dsimp only
    rw [Int.toNat_natCast, hlength, min_self, if_neg (lt_irrefl _)]
  have hlength : (blockCandidates (F := F) lists [(pl, code)] [pl]).length = l.nClusters := by
    rw [hcandidates, List.length_map, List.length_range]
  -- the loop reaches the block or throws before
  have hloop : ∀ dense (s : Visit Q), ∃ e, (blockCandidates lists [(pl, code)] [pl]).foldlM
      (fun s candidate => scoreBlock (.blocks fwd) lists format.elementSize dense
        (some (.plain fun _ => false)) candidate s) s = .error (.threw e) := by
    intro dense s
    have hmem : (⟨(l.scoreSummariesTransposed [(pl, code)]).getD cid 0, pl, cid⟩ :
        BlockCandidate F) ∈ blockCandidates lists [(pl, code)] [pl] := by
      rw [hcandidates]
      exact List.mem_map.mpr ⟨cid, List.mem_range.mpr hcid, rfl⟩
    refine foldlM_threw hmem (fun s => ?_) (fun candidate _ => ?_) s
    · rcases hblock : fwd.block pl cid with e | view
      · refine ⟨e, ?_⟩
        unfold scoreBlock
        dsimp only
        rw [hblock]
        rfl
      · exact absurd ⟨view, hblock⟩ hbad
    · exact scoreBlock_rejecting fwd lists format.elementSize dense candidate
  obtain ⟨e, he⟩ := hloop (scratch.dense.set pl code) ⟨⟨1, Q.empty, ⊤⟩, []⟩
  refine ⟨e, ?_⟩
  unfold blockQueryOn
  dsimp only
  rw [hcuts, lift_ok, ok_bind, hscatter, ok_bind, TopKHolder.new_of_pos Q one_pos, lift_ok, ok_bind,
    pushCandidates_foldl, List.nil_append, hselected _ hlength, he]
  rfl

/-- **A query meets a document**, with a selector of that document alone. -/
theorem directoryQueryOn_threw (sort : StdSort) {x : DiskSeismicIndex F}
    (format : QueryFormat F) {doc : ℕ}
    (hdoc : doc < x.docLocators.length) (hbad : ¬∃ row, x.getDoc doc format.elementSize = .ok row)
    (dense : List Code) :
    ∃ e, directoryQueryOn Q x format 1 (IDSelector.orderedIds sort [(doc : ℤ)]) [] dense
      = .error (.threw e) := by
  have hids : IDSelector.orderedIds sort [(doc : ℤ)] = [(doc : ℤ)] :=
    List.perm_singleton.mp (sort.perm _ _)
  rcases hget : x.getDoc doc format.elementSize with e | row
  · refine ⟨e, ?_⟩
    have hin : ¬((doc : ℤ) < 0 ∨ (x.docLocators.length : ℤ) ≤ doc) := by omega
    have hscatter : scatter dense [] = .ok dense := rfl
    unfold directoryQueryOn
    rw [hids, hscatter, ok_bind, TopKHolder.new_of_pos Q one_pos, lift_ok, ok_bind,
      DiskSeismicIndex.directoryDocs, if_neg hin, hget]
    rfl
  · exact absurd ⟨row, hget⟩ hbad

/-- One query, with a selector that is not walked, comes to the block region. -/
theorem DiskSeismicIndex.region_oneQuery {x : DiskSeismicIndex F} (hcount : x.numVectors ≠ 0)
    {source : ForwardSource} (hsource : x.forwardSource = some source) {kPrime : ℤ}
    {format : QueryFormat F} (hformat : queryFormat (some (.diskSeismic cut kPrime)) = .ok format)
    (hpos : 0 < kPrime) {sel : Option IDSelector} (hsel : exactMatchIds sel 1 = none)
    (query : SparseRow F) :
    x.region Q T sort nth queryFormat dim 1 [0, query.length] (query.map Prod.fst)
        (query.map Prod.snd) 1 (some (.diskSeismic cut kPrime)) sel
      = some (blockRegion Q T nth source x.clusteredInvertedLists ⟨format, 1, cut, kPrime, sel⟩ dim
          [query.map fun entry => (entry.1, format.encodeQuery entry.2)]) := by
  have hn : ¬(x.numVectors = 0 ∨ (1 : ℤ) = 0) := not_or.mpr ⟨hcount, one_ne_zero⟩
  rw [← codedQueries_oneQuery, DiskSeismicIndex.region, if_neg hn, hsource, hformat, hsel]
  show x.budgetRegion Q T nth format dim _ _ _ _ _ _ _ source = _
  rw [DiskSeismicIndex.budgetRegion]
  exact if_neg (not_le.mpr hpos)

/-- One document, with a selector of it alone, comes to the region over the locators. -/
theorem DiskSeismicIndex.region_oneDocument {x : DiskSeismicIndex F} (hcount : x.numVectors ≠ 0)
    {source : ForwardSource} (hsource : x.forwardSource = some source) {kPrime : ℤ}
    {format : QueryFormat F} (hformat : queryFormat (some (.diskSeismic cut kPrime)) = .ok format)
    (hvectors : x.vectors = none) {doc : ℕ} (hdoc : doc < x.docLocators.length) :
    x.region Q T sort nth queryFormat dim 1 [0, 0] [] [] 1 (some (.diskSeismic cut kPrime))
        (some (.enumerable (fun _ => true) [(doc : ℤ)] 1))
      = some (directoryRegion Q x format 1 (IDSelector.orderedIds sort [(doc : ℤ)]) dim
          [[]]) := by
  have hn : ¬(x.numVectors = 0 ∨ (1 : ℤ) = 0) := not_or.mpr ⟨hcount, one_ne_zero⟩
  have hlocators : x.docLocators ≠ [] := List.ne_nil_of_length_pos (Nat.zero_lt_of_lt hdoc)
  have hids : exactMatchIds (some (.enumerable (fun _ => true) [(doc : ℤ)] 1)) 1
      = some [(doc : ℤ)] := rfl
  rw [DiskSeismicIndex.region, if_neg hn, hsource, hformat, hids, hvectors]
  dsimp only
  rw [if_neg hlocators]
  rfl

section Escapes

variable {x : DiskSeismicIndex F} {source : ForwardSource}

/-- Where nothing escapes, the blocks are readable. -/
theorem DiskSeismicIndex.blocksReadable_of_nothingEscapes
    (h : NothingEscapes (x.region Q T sort nth queryFormat dim) cut) (hcount : x.numVectors ≠ 0)
    (hformat : ∀ kPrime, ∃ format, queryFormat (some (.diskSeismic cut kPrime)) = .ok format)
    (hdim : 0 ≤ dim) (hcut : 0 < cut) : x.BlocksReadable dim := by
  intro source hsource pl l hl hterm hpl cid hcid
  by_contra hbad
  rcases source with fwd | vectors
  · -- a budget for the whole list, and a selector that lets nothing pass
    have hposn : 0 < (l.nClusters : ℤ) := Int.natCast_pos.mpr (Nat.zero_lt_of_lt hcid)
    obtain ⟨format, hformat⟩ := hformat l.nClusters
    have hquiet := h.run_oneQuery [(pl, 0)] (List.forall_mem_singleton.mpr hterm) one_pos rfl
      (some (.plain fun _ => false))
      (DiskSeismicIndex.region_oneQuery hcount hsource hformat hposn rfl _)
    set fresh : BlockScratch F := BlockScratch.fresh dim.toNat format.elementSize
    have hfits : pl < fresh.dense.length := by
      show pl < (zeroBuffer dim.toNat format.elementSize).length
      rw [length_zeroBuffer]
      exact Int.lt_toNat.mpr hpl
    obtain ⟨e, he⟩ := blockQueryOn_threw (Q := Q) (T := T) nth format hcut hl hcid hbad
      (format.encodeQuery 0) hfits
    exact hquiet.queries fresh (map_denseBuffer_eq_ok.mpr ⟨hdim, rfl⟩) _
      (List.mem_singleton_self _) _ rfl e he
  · exact hbad trivial

/-- Where nothing escapes, the locators resolve. -/
theorem DiskSeismicIndex.locatorsResolve_of_nothingEscapes
    (h : NothingEscapes (x.region Q T sort nth queryFormat dim) cut) (hcount : x.numVectors ≠ 0)
    (hsource : x.forwardSource = some source) {kPrime : ℤ} {format : QueryFormat F}
    (hformat : queryFormat (some (.diskSeismic cut kPrime)) = .ok format) (hdim : 0 ≤ dim) :
    x.LocatorsResolve format.elementSize := by
  intro hvectors doc hdoc
  by_contra hbad
  have hquiet := h.run_oneQuery [] (fun _ => nofun) one_pos rfl _
    (DiskSeismicIndex.region_oneDocument hcount hsource hformat hvectors hdoc)
  obtain ⟨e, he⟩ := directoryQueryOn_threw (Q := Q) sort format hdoc hbad
    (zeroBuffer dim.toNat format.elementSize)
  exact hquiet.queries _ (denseBuffer_of_nonneg hdim _) _ (List.mem_singleton_self _) _ rfl e he

/-- Nothing leaves the region of blocks that are readable. -/
theorem DiskSeismicIndex.budgetRegion_quiet {format : QueryFormat F} {n k : ℤ}
    {indptr indices : List ℕ} {values : List F} {params : Option (SearchFields F)}
    {sel : Option IDSelector} {r : Region F} (hsource : x.forwardSource = some source)
    (hterms : ∀ term ∈ indices, term < 2 ^ 16) (hk : 0 < k) (hdim : 0 ≤ dim)
    (hcut : 0 < (SearchFields.cutAndBudget params).1) (hreadable : x.BlocksReadable dim)
    (hr : x.budgetRegion Q T nth format dim n indptr indices values k params sel source
      = some r) : r.Quiet := by
  have hcoded : ∀ query ∈ codedQueries format n indptr indices values, ∀ entry ∈ query,
      entry.1 < 2 ^ 16 := by
    intro query hquery entry hentry
    obtain ⟨i, -, rfl⟩ := List.mem_map.mp hquery
    have hmem := List.mem_of_mem_drop (List.mem_of_mem_take hentry)
    exact hterms _ (List.of_mem_zip hmem).1
  unfold DiskSeismicIndex.budgetRegion at hr
  dsimp only at hr
  split at hr
  · cases hr
  obtain rfl := Option.some.inj hr
  refine ⟨⟨_, map_denseBuffer_eq_ok.mpr ⟨hdim, rfl⟩⟩, ?_⟩
  intro fresh hfresh query hquery scratch hlength
  obtain ⟨-, rfl⟩ := map_denseBuffer_eq_ok.mp hfresh
  have hlength : scratch.dense.length = dim.toNat := hlength.trans (List.length_replicate ..)
  refine blockQueryOn_quiet nth hk hcut fun entry hentry hfits l hl cid hcid => ?_
  rw [hlength] at hfits
  exact hreadable source hsource entry.1 l hl (hcoded query hquery entry hentry)
    (Int.lt_toNat.mp hfits) cid hcid

end Escapes

/-- **Nothing escapes from a search of a disk index** exactly when it has nothing to search, or a
dimension that is a size, a positive cut, readable blocks and locators that resolve. -/
theorem DiskSeismicIndex.region_quiet_iff (x : DiskSeismicIndex F) {elementSize : ℕ}
    (hwidth : ∀ params format, queryFormat params = .ok format →
      format.elementSize = elementSize)
    (hformat : ∀ kPrime, ∃ format, queryFormat (some (.diskSeismic cut kPrime)) = .ok format) :
    NothingEscapes (x.region Q T sort nth queryFormat dim) cut ↔
      x.numVectors = 0 ∨ x.forwardSource = none ∨
        0 ≤ dim ∧ 0 < cut ∧ x.BlocksReadable dim ∧ x.LocatorsResolve elementSize := by
  constructor
  · intro h
    by_cases hcount : x.numVectors = 0
    · exact .inl hcount
    right
    rcases hsource : x.forwardSource with - | source
    · exact .inl rfl
    right
    obtain ⟨format, hone⟩ := hformat 1
    have hquiet := h.run_oneQuery [(0, 0)] (List.forall_mem_singleton.mpr (Nat.two_pow_pos 16))
      one_pos rfl none (DiskSeismicIndex.region_oneQuery hcount hsource hone one_pos rfl _)
    obtain ⟨fresh, hfresh⟩ := hquiet.allocated
    have hdim : 0 ≤ dim := (map_denseBuffer_eq_ok.mp hfresh).1
    have hcut : 0 < cut := by
      by_contra hnot
      have hrun := hquiet.queries fresh hfresh _ (List.mem_singleton_self _) fresh rfl
      have hthrew := topKTokens_threw T format.elementSize [(0, format.encodeQuery (0 : F))]
        (not_lt.mp hnot) (lt_of_le_of_lt (not_lt.mp hnot) one_pos)
      apply hrun
      show blockQueryOn Q T nth source x.clusteredInvertedLists _ [(0, format.encodeQuery 0)]
        fresh = .error (.threw (.invalidArgument notPositiveMsg))
      unfold blockQueryOn
      rw [hthrew]
      rfl
    refine ⟨hdim, hcut, x.blocksReadable_of_nothingEscapes h hcount hformat hdim hcut, ?_⟩
    rw [← hwidth _ format hone]
    exact x.locatorsResolve_of_nothingEscapes h hcount hsource hone hdim
  · intro h queries indptr indices values k params sel r hqueries hterms hk hcut hr
    subst hcut
    unfold DiskSeismicIndex.region at hr
    split at hr
    · cases hr
    rename_i hn
    split at hr
    · rename_i source format hsource hvalid
      obtain hzero | hnone | ⟨hdim, hpos, hreadable, hresolve⟩ := h
      · exact absurd (.inl hzero) hn
      · rw [hnone] at hsource
        cases hsource
      split at hr
      · exact x.budgetRegion_quiet hsource hterms hk hdim hpos hreadable hr
      · cases hr
      · rename_i ids hids hvectors
        split at hr
        · exact x.budgetRegion_quiet hsource hterms hk hdim hpos hreadable hr
        · obtain rfl := Option.some.inj hr
          have hdocs := hresolve hvectors
          rw [← hwidth params format hvalid] at hdocs
          refine ⟨⟨_, denseBuffer_of_nonneg hdim _⟩, fun _ _ query _ scratch _ => ?_⟩
          exact directoryQueryOn_quiet x format hk _ hdocs query scratch
    · cases hr

end Disk

/-! ### The four indexes -/

/-- An index that is searched through clusters. -/
inductive ClusteredIndex (F : Type) [LT F] [FloatFormat F]
  | seismic (x : SeismicIndex F)
  | seismicSQ (sq : ScalarQuantizer F) (x : SeismicIndex F)
  | diskSeismic (x : DiskSeismicIndex F)
  | diskSeismicSQ (sq : ScalarQuantizer F) (x : DiskSeismicIndex F)

/-- The condition on a disk index. -/
def DiskSeismicIndex.Harmless (x : DiskSeismicIndex F) (elementSize : ℕ) (dim cut : ℤ) : Prop :=
  x.numVectors = 0 ∨ x.forwardSource = none ∨
    0 ≤ dim ∧ 0 < cut ∧ x.BlocksReadable dim ∧ x.LocatorsResolve elementSize

namespace ClusteredIndex

/-- The region that a search comes to, if any, of an index with this `dimension_`. -/
def region (tools : SearchTools F) (dim : ℤ) :
    ClusteredIndex F → ℤ → List ℕ → List ℕ → List F → ℤ → Option (SearchFields F) →
      Option IDSelector → Option (Region F)
  | seismic x => x.region tools.heap tools.tokens tools.sort (floatSearch F) dim
  | seismicSQ sq x => x.region tools.heap tools.tokens tools.sort (quantizedSearch sq) dim
  | diskSeismic x => x.region tools.heap tools.tokens tools.sort tools.nth (floatSearch F) dim
  | diskSeismicSQ sq x =>
      x.region tools.heap tools.tokens tools.sort tools.nth (diskQuantizedSearch sq) dim

/-- There is nothing to search, or the dimension is a size, the cut is positive, and a disk index
has readable blocks and locators that resolve. -/
def Harmless (dim cut : ℤ) : ClusteredIndex F → Prop
  | seismic x => x.vectors = none ∨ 0 ≤ dim ∧ 0 < cut
  | seismicSQ _ x => x.vectors = none ∨ 0 ≤ dim ∧ 0 < cut
  | diskSeismic x => x.Harmless U32 dim cut
  | diskSeismicSQ sq x => x.Harmless sq.bytesPerValue dim cut

/-- **Nothing escapes from the parallel region** of any search with a cut exactly when the index is
harmless with that cut. -/
theorem nothing_escapes_iff (tools : SearchTools F) (dim cut : ℤ) (x : ClusteredIndex F) :
    NothingEscapes (x.region tools dim) cut ↔ x.Harmless dim cut := by
  cases x with
  | seismic x => exact x.region_quiet_iff ⟨_, rfl⟩
  | seismicSQ sq x => exact x.region_quiet_iff ⟨_, rfl⟩
  | diskSeismic x =>
      apply x.region_quiet_iff
      · rintro params format ⟨⟩
        rfl
      · exact fun kPrime => ⟨_, rfl⟩
  | diskSeismicSQ sq x =>
      apply x.region_quiet_iff
      · intro params format hformat
        unfold diskQuantizedSearch at hformat
        rcases hquery : sq.diskQueryQuantizer params with e | query
        · rw [hquery] at hformat
          cases hformat
        · rw [hquery] at hformat
          obtain rfl := Except.ok.inj hformat
          rfl
      · exact fun kPrime => ⟨_, rfl⟩

end ClusteredIndex

end Regions

/-- One document, built. -/
def oneDocumentClustered : ClusteredIndex ℤ :=
  .seismic (SeismicIndex.oneDocumentIndex.build SeismicIndex.calmEnv countingRng insertionSort 0).1

set_option maxRecDepth 10000 in
/-- **A cut of 0 escapes**: cutting the query throws inside the region. -/
theorem cut_zero_escapes :
    (SeismicIndex.oneDocumentIndex.build SeismicIndex.calmEnv countingRng insertionSort 0).2
        = .ok () ∧
      (∃ r scratch, oneDocumentClustered.region SearchedIndex.plainTools 2 1 [0, 1] [1] [1] 1
          (some (.seismic 0 1)) none = some r ∧ r.allocated = .ok scratch ∧
        ∃ query ∈ r.queries,
          r.run query scratch = .error (.threw (.invalidArgument notPositiveMsg))) ∧
      ¬NothingEscapes (oneDocumentClustered.region SearchedIndex.plainTools 2) 0 := by
  refine ⟨by decide, ⟨_, _, rfl, rfl, _, List.mem_singleton_self _, rfl⟩, ?_⟩
  intro h
  obtain hnone | ⟨-, hcut⟩ := (SeismicIndex.region_quiet_iff _ ⟨_, rfl⟩).mp h
  · cases hnone
  · exact lt_irrefl 0 hcut

end Nsparse
