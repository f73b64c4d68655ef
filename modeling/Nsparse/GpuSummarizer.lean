/-
Nsparse/GpuSummarizer.lean

The scratch buffers of the GPU summarizer.

A thread keeps nine device buffers from one call of `summarize_list` to the next and
grows them on demand.  Every request to the device may fail; what it throws is caught
and the list is summarized on the CPU.  Two of the buffers, `acc` and `seen`, have to
be zero whenever a kernel starts: they are zeroed when they grow, and the kernel
clears what it touched (`runBlock_clean`).

`Ready` is the state a call expects.  A call keeps it, and starts its kernel in it,
unless a buffer that was in use cannot be grown, `seen` cannot be grown, or a buffer
that has grown is not zeroed (`Safe`): then a freed pointer keeps its capacity, or
memory that was never zeroed passes for zeroed.
-/
import Nsparse.GpuCorpus

namespace Nsparse

/-! ### Device memory -/

/-- The live allocations: address and 32-bit words. -/
abbrev DeviceHeap := List (ℕ × List ℤ)

namespace DeviceHeap

/-- `cudaFree`; of a null pointer it does nothing, as nothing is at address 0. -/
def free (heap : DeviceHeap) (ptr : ℕ) : DeviceHeap := heap.filter fun cell => cell.1 ≠ ptr

/-- An address above every live one. -/
def above (heap : DeviceHeap) : ℕ := (heap.map Prod.fst).foldr max 0 + 1

/-- `cudaMalloc`: no memory, or some place, never that of a live allocation, with something in it. -/
def malloc (heap : DeviceHeap) (bytes : ℕ) (answer : Option (ℕ × List ℤ)) :
    Option (ℕ × DeviceHeap) :=
  answer.map fun place =>
    let ptr := if place.1 = 0 ∨ (heap.lookup place.1).isSome then heap.above else place.1
    (ptr, (ptr, resize place.2 (bytes / 4) 0) :: heap)

/-- Change the words of an allocation; of a place that is not live, nothing is known afterwards, and
nothing is changed here. -/
def update (heap : DeviceHeap) (ptr : ℕ) (f : List ℤ → List ℤ) : DeviceHeap :=
  heap.map fun cell => if cell.1 = ptr then (cell.1, f cell.2) else cell

/-- The words at an address. -/
def words (heap : DeviceHeap) (ptr : ℕ) : List ℤ := (heap.lookup ptr).getD []

end DeviceHeap

/-- Write words from a position on, as far as there is room. -/
def overwriteAt (position : ℕ) (new old : List ℤ) : List ℤ :=
  old.zipIdx.map fun cell =>
    if position ≤ cell.2 then new.getD (cell.2 - position) cell.1 else cell.1

/-! ### The scratch of a thread -/

/-- The buffers of a `ThreadCtx`. -/
inductive Scratch
  | docs
  | offsets
  | outBase
  | acc
  | seen
  | outTerm
  | outVal
  | outCount
  | outSum
  deriving Repr, DecidableEq

theorem Scratch.acc_ne_seen : Scratch.acc ≠ .seen := by decide

/-- A device pointer, 0 when null, and the capacity recorded for it in bytes. -/
structure ScratchBuffer where
  ptr : ℕ
  cap : ℕ
  deriving Repr, DecidableEq

/-- What a kernel finds when it starts. -/
structure Launch where
  heap : DeviceHeap
  buffers : Scratch → ScratchBuffer
  nClusters : ℕ
  dim : ℕ

/-- A thread and its device: the context, whether it was made, and the kernels started so far. -/
structure GpuThread where
  heap : DeviceHeap
  created : Bool
  buffers : Scratch → ScratchBuffer
  launches : List Launch

def GpuThread.start : GpuThread := ⟨[], false, fun _ => ⟨0, 0⟩, []⟩

/-- How the device answers the requests of one call. -/
structure DeviceAnswers where
  streamCreate : Bool
  memInfo : Option (ℕ × ℕ)
  malloc : Scratch → Option (ℕ × List ℤ)
  memset : Scratch → Bool
  copy : Scratch → Bool
  launch : Bool
  synchronize : Bool
  errorString : String

/-- Code that runs on a thread and may throw. -/
def GpuM (α : Type) := GpuThread → GpuThread × Except Exception α

namespace GpuM

variable {α β : Type}

def pure (a : α) : GpuM α := fun t => (t, .ok a)

def bind (m : GpuM α) (f : α → GpuM β) : GpuM β := fun t =>
  match m t with
  | (t, .error e) => (t, .error e)
  | (t, .ok a) => f a t

/-- `check_cuda` of a request that changes the thread when it succeeds. -/
def request (answer : Bool) (what errorString : String) (f : GpuThread → GpuThread) : GpuM Unit :=
  fun t => if answer then (f t, .ok ()) else (t, .error (cudaError what errorString))

theorem bind_ok {m : GpuM α} {t t' : GpuThread} {a : α} (h : m t = (t', .ok a)) (f : α → GpuM β) :
    m.bind f t = f a t' := by
  rw [bind, h]

theorem bind_error {m : GpuM α} {t t' : GpuThread} {e : Exception} (h : m t = (t', .error e))
    (f : α → GpuM β) : m.bind f t = (t', .error e) := by
  rw [bind, h]

end GpuM

/-! ### The kernel -/

/-- The words of `acc` and `seen`, and the terms of the block in the order they were appended in. -/
structure BlockState where
  acc : List ℤ
  seen : List ℤ
  terms : List ℕ
  deriving Repr, DecidableEq

/-- One value: `atomicMax` on its slot, and its term when `atomicCAS` finds the flag down. -/
def scatterMax (base : ℕ) (s : BlockState) (entry : ℕ × ℤ) : BlockState :=
  let slot := base + entry.1
  let s := { s with acc := s.acc.modify slot (max entry.2) }
  if s.seen.getD slot 0 = 0 then
    { s with
      seen := s.seen.set slot 1
      terms := s.terms ++ [entry.1] }
  else s

/-- The slots of a term are read and reset. -/
def resetSlot (base : ℕ) (s : BlockState) (term : ℕ) : BlockState :=
  { s with
    acc := s.acc.set (base + term) 0
    seen := s.seen.set (base + term) 0 }

/-- The threads of a block in some order. -/
structure Schedule where
  order : List (ℕ × ℤ) → List (ℕ × ℤ)
  perm : ∀ entries, (order entries).Perm entries

/-- A block between its barriers: all values, and then the terms met, with their maxima. -/
def runBlock (schedule : Schedule) (base : ℕ) (entries : List (ℕ × ℤ)) (acc seen : List ℤ) :
    BlockState × List ℤ :=
  let s := (schedule.order entries).foldl (scatterMax base) ⟨acc, seen, []⟩
  (s.terms.foldl (resetSlot base) s, s.terms.map fun term => s.acc.getD (base + term) 0)

variable {F : Type}

section Values

variable [FloatFormat F]

/-- A float as a word, and back. -/
def wordOf (x : F) : ℤ := toIdx (Wire.leNat (FloatFormat.toBits x))

def ofWord (F : Type) [FloatFormat F] (word : ℤ) : F :=
  FloatFormat.ofBits (Wire.leBytes U32 (word % 2 ^ 32).toNat)

/-- What a value is in `acc`: the bits of a float, or a code. -/
def accWord (elementSize : ℕ) (code : Code) : ℤ :=
  if elementSize = U32 then toIdx (Wire.leNat code) else Wire.leNat code

/-- What a maximum is in `out_val`. -/
def outWord (F : Type) [FloatFormat F] (elementSize : ℕ) (word : ℤ) : ℤ :=
  if elementSize = U32 then word else wordOf (FloatFormat.ofInt word : F)

end Values

/-- The terms and values of the documents of a cluster, as the device corpus has them. -/
def DeviceCorpus.entriesOf (corpus : DeviceCorpus) (docs : List ℤ) : List (ℕ × ℤ) :=
  docs.flatMap fun d =>
    let indptr := corpus.indptr.getD []
    let src := (indptr.getD d.toNat 0).toNat
    let len := (indptr.getD (d.toNat + 1) 0).toNat - src
    (List.range len).map fun t =>
      (((corpus.indices.getD []).getD (src + t) 0).toNat,
        accWord corpus.elementSize
          (((corpus.values.getD []).drop ((src + t) * corpus.elementSize)).take corpus.elementSize))

/-! ### A call -/

/-- A call of `summarize_list`: the store, the lists, what `ensure_resident` returns, and the device.
The dimension is positive, as the constructor of the store checks. -/
structure SummarizeCall where
  vectors : SparseVectors Code
  dim_pos : 0 < vectors.dimension
  docs : List ℤ
  offsets : List ℕ
  nClusters : ℕ
  available : Bool
  corpus : Except Exception DeviceCorpus
  schedule : ℕ → Schedule
  device : DeviceAnswers

/-- `ClusterSummary`. -/
structure ClusterSummary (F : Type) where
  terms : List ℕ
  values : List F
  sum : F
  deriving Repr, DecidableEq

namespace SummarizeCall

variable (call : SummarizeCall)

/-- The documents of cluster `b`. -/
def clusterDocs (b : ℕ) : List ℤ :=
  (call.docs.drop (call.offsets.getD b 0)).take
    (call.offsets.getD (b + 1) 0 - call.offsets.getD b 0)

def nDocs : ℕ := call.offsets.getD call.nClusters 0 - call.offsets.getD 0 0

/-- `h_out_base`: where the output of each cluster begins. -/
def outBase : List ℕ :=
  ((List.range call.nClusters).map fun b =>
    ((call.clusterDocs b).map fun d => (docRow call.vectors d).length).sum).scanl (· + ·) 0

def totalNnz : ℕ := call.outBase.getD call.nClusters 0

def accBytes : ℕ := call.nClusters * call.vectors.dimension * 4

end SummarizeCall

/-- `ensure_capacity`. -/
def ensureCapacity (dev : DeviceAnswers) (b : Scratch) (need : ℕ) : GpuM Unit := fun t =>
  let buffer := t.buffers b
  if buffer.cap < need then
    let t := { t with heap := t.heap.free buffer.ptr }
    match t.heap.malloc need (dev.malloc b) with
    | none => (t, .error (cudaError "cudaMalloc(ensure_capacity)" dev.errorString))
    | some (ptr, heap) =>
        ({ t with
            heap
            buffers := Function.update t.buffers b ⟨ptr, need⟩ }, .ok ())
  else (t, .ok ())

/-- Several buffers, in order. -/
def ensureCapacities (dev : DeviceAnswers) : List (Scratch × ℕ) → GpuM Unit
  | [] => GpuM.pure ()
  | (b, need) :: rest => (ensureCapacity dev b need).bind fun _ => ensureCapacities dev rest

/-- `cudaMemsetAsync` of the whole capacity. -/
def memsetZero (dev : DeviceAnswers) (b : Scratch) (what : String) : GpuM Unit :=
  GpuM.request (dev.memset b) what dev.errorString fun t =>
    { t with
      heap := t.heap.update (t.buffers b).ptr
        (overwriteAt 0 (List.replicate ((t.buffers b).cap / 4) 0)) }

/-- `cudaMemcpyAsync` to the device. -/
def copyToDevice (dev : DeviceAnswers) (b : Scratch) (what : String) (words : List ℤ) : GpuM Unit :=
  GpuM.request (dev.copy b) what dev.errorString fun t =>
    { t with heap := t.heap.update (t.buffers b).ptr (overwriteAt 0 words) }

/-- `cudaMemcpyAsync` of the first words to the host. -/
def copyToHost (dev : DeviceAnswers) (b : Scratch) (what : String) (count : ℕ) :
    GpuM (List ℤ) := fun t =>
  if dev.copy b then (t, .ok ((t.heap.words (t.buffers b).ptr).take count))
  else (t, .error (cudaError what dev.errorString))

/-- `thread_ctx`: a context is kept even when its stream could not be made. -/
def threadCtx (dev : DeviceAnswers) : GpuM Unit := fun t =>
  if t.created then (t, .ok ())
  else
    let t := { t with created := true }
    if dev.streamCreate then (t, .ok ())
    else (t, .error (cudaError "cudaStreamCreate" dev.errorString))

namespace SummarizeCall

variable (call : SummarizeCall)

/-- Whether to leave the list to the CPU because memory is short. -/
def declines : GpuM Bool := fun t =>
  let cap := (t.buffers .acc).cap
  if cap < call.accBytes then
    match call.device.memInfo with
    | none => (t, .error (cudaError "cudaMemGetInfo(&free_bytes, &total_bytes)"
        call.device.errorString))
    | some (free, total) =>
        (t, .ok (decide (free < 2 * (call.accBytes - cap) + total / 16)))
  else (t, .ok false)

/-- `acc` and `seen` grow together and are zeroed when they grew. -/
def growAccumulators : GpuM Unit := fun t =>
  let accGrew := (t.buffers .acc).cap < call.accBytes
  ((ensureCapacity call.device .acc call.accBytes).bind fun _ =>
    (ensureCapacity call.device .seen call.accBytes).bind fun _ =>
      if accGrew then
        (memsetZero call.device .acc "cudaMemsetAsync(ctx.d_acc, 0, ctx.acc_cap, stream)").bind
          fun _ => memsetZero call.device .seen "cudaMemsetAsync(ctx.d_seen, 0, ctx.seen_cap, stream)"
      else GpuM.pure ()) t

/-- The other buffers and what they have to hold. -/
def needs : List (Scratch × ℕ) :=
  [(.docs, call.nDocs * 4), (.offsets, (call.nClusters + 1) * 4),
    (.outBase, (call.nClusters + 1) * 4), (.outTerm, call.totalNnz * 4),
    (.outVal, call.totalNnz * 4), (.outCount, call.nClusters * 4), (.outSum, call.nClusters * 4)]

/-- The arrays of the list, rebased to 0. -/
def upload : GpuM Unit :=
  let base0 := call.offsets.getD 0 0
  let words (l : List ℕ) : List ℤ := l.map fun n : ℕ => (n : ℤ)
  (copyToDevice call.device .docs "cudaMemcpyAsync(ctx.d_docs)"
    ((call.docs.drop base0).take call.nDocs)).bind fun _ =>
  (copyToDevice call.device .offsets "cudaMemcpyAsync(ctx.d_offsets)"
    (words ((List.range (call.nClusters + 1)).map fun b => call.offsets.getD b 0 - base0))).bind
    fun _ =>
  copyToDevice call.device .outBase "cudaMemcpyAsync(ctx.d_out_base)" (words call.outBase)

/-- The blocks of the grid, one after the other: the two accumulators, and the terms and the maxima
of each block. -/
def runGrid (corpus : DeviceCorpus) : List ℕ → List ℤ → List ℤ →
    List ℤ × List ℤ × List (List ℕ × List ℤ)
  | [], acc, seen => (acc, seen, [])
  | b :: blocks, acc, seen =>
      let (s, maxima) := runBlock (call.schedule b) (b * call.vectors.dimension)
        (corpus.entriesOf (call.clusterDocs b)) acc seen
      let (acc, seen, outputs) := runGrid corpus blocks s.acc s.seen
      (acc, seen, (s.terms, maxima) :: outputs)

end SummarizeCall

section Summarize

variable [Zero F] [Add F] [FloatFormat F]

/-- What the kernel leaves on the device. -/
def writeOutputs (F : Type) [Zero F] [Add F] [FloatFormat F] (elementSize : ℕ)
    (buffers : Scratch → ScratchBuffer) :
    ℕ → List ℕ → List (List ℕ × List ℤ) → DeviceHeap → DeviceHeap
  | b, base :: bases, (terms, maxima) :: outputs, heap =>
      let values := maxima.map (outWord F elementSize)
      let sum := (values.map (ofWord F)).sum
      let heap := heap.update (buffers .outTerm).ptr
        (overwriteAt base (terms.map fun term : ℕ => (term : ℤ)))
      let heap := heap.update (buffers .outVal).ptr (overwriteAt base values)
      let heap := heap.update (buffers .outCount).ptr (overwriteAt b [(terms.length : ℤ)])
      let heap := heap.update (buffers .outSum).ptr (overwriteAt b [wordOf sum])
      writeOutputs F elementSize buffers (b + 1) bases outputs heap
  | _, _, _, heap => heap

namespace SummarizeCall

variable (F) (call : SummarizeCall)

/-- The kernel, unless its launch fails. -/
def launchKernel (corpus : DeviceCorpus) : GpuM Unit :=
  GpuM.request call.device.launch "cudaGetLastError()" call.device.errorString fun t =>
    let launch : Launch := ⟨t.heap, t.buffers, call.nClusters, call.vectors.dimension⟩
    let accPtr := (t.buffers .acc).ptr
    let seenPtr := (t.buffers .seen).ptr
    let (acc, seen, outputs) := call.runGrid corpus (List.range call.nClusters)
      (t.heap.words accPtr) (t.heap.words seenPtr)
    let heap := (t.heap.update accPtr fun _ => acc).update seenPtr fun _ => seen
    { t with
      heap := writeOutputs F corpus.elementSize t.buffers 0 call.outBase outputs heap
      launches := t.launches ++ [launch] }

/-- The results, cluster by cluster. -/
def download : GpuM (List (ClusterSummary F)) :=
  (copyToHost call.device .outTerm "cudaMemcpyAsync(h_term.data())" call.totalNnz).bind fun hTerm =>
  (copyToHost call.device .outVal "cudaMemcpyAsync(h_val.data())" call.totalNnz).bind fun hVal =>
  (copyToHost call.device .outCount "cudaMemcpyAsync(h_count.data())" call.nClusters).bind
    fun hCount =>
  (copyToHost call.device .outSum "cudaMemcpyAsync(h_sum.data())" call.nClusters).bind fun hSum =>
  (GpuM.request call.device.synchronize "cudaStreamSynchronize(stream)" call.device.errorString
    id).bind fun _ =>
  GpuM.pure ((List.range call.nClusters).map fun b =>
    let base := call.outBase.getD b 0
    let cnt := (hCount.getD b 0).toNat
    { terms := ((hTerm.drop base).take cnt).map fun term => term.toNat % 2 ^ 16
      values := ((hVal.drop base).take cnt).map (ofWord F)
      sum := ofWord F (hSum.getD b 0) })

/-- `summarize_list_impl`; `none` leaves the list to the CPU. -/
def summarizeListImpl : GpuM (Option (List (ClusterSummary F))) :=
  if call.nDocs = 0 then GpuM.pure none
  else if call.totalNnz = 0 then GpuM.pure none
  else fun t =>
    match call.corpus with
    | .error e => (t, .error e)
    | .ok corpus =>
        ((threadCtx call.device).bind fun _ =>
          call.declines.bind fun declined =>
          if declined then GpuM.pure none
          else
            call.growAccumulators.bind fun _ =>
            (ensureCapacities call.device call.needs).bind fun _ =>
            call.upload.bind fun _ =>
            (call.launchKernel F corpus).bind fun _ =>
            (call.download F).bind fun out => GpuM.pure (some out)) t

/-- `summarize_list`: the thread afterwards, and the summaries unless the CPU has to make them. -/
def summarizeList (t : GpuThread) : GpuThread × Option (List (ClusterSummary F)) :=
  if call.available = false ∨ call.nClusters = 0 then (t, none)
  else
    match call.summarizeListImpl F t with
    | (t, .error _) => (t, none)
    | (t, .ok out) => (t, out)

end SummarizeCall

/-- The calls of a thread, one after the other. -/
def GpuThread.run (F : Type) [Zero F] [Add F] [FloatFormat F] (t : GpuThread)
    (calls : List SummarizeCall) : GpuThread :=
  calls.foldl (fun t call => (call.summarizeList F t).1) t

end Summarize

/-! ### Clean kernels -/

/-- Nothing but zeros. -/
def AllZero (words : List ℤ) : Prop := ∀ p, words.getD p 0 = 0

theorem allZero_iff {words : List ℤ} : AllZero words ↔ ∀ w ∈ words, w = 0 := by
  constructor
  · intro h w hw
    obtain ⟨p, hp, rfl⟩ := List.mem_iff_getElem.mp hw
    have hzero := h p
    rwa [List.getD_eq_getElem _ _ hp] at hzero
  · intro h p
    rw [List.getD_eq_getElem?_getD]
    rcases hp : words[p]? with - | w
    · rfl
    · exact h w (List.mem_of_getElem? hp)

theorem getD_set_zero (words : List ℤ) (i p : ℕ) :
    (words.set i 0).getD p 0 = if i = p then 0 else words.getD p 0 := by
  rw [List.getD_eq_getElem?_getD, List.getD_eq_getElem?_getD, List.getElem?_set]
  split
  · split
    · rfl
    · rfl
  · rfl

theorem getD_set_ne (words : List ℤ) {i p : ℕ} (h : i ≠ p) (w : ℤ) :
    (words.set i w).getD p 0 = words.getD p 0 := by
  rw [List.getD_eq_getElem?_getD, List.getD_eq_getElem?_getD, List.getElem?_set_ne h]

theorem getD_modify_ne (words : List ℤ) {i p : ℕ} (h : i ≠ p) (f : ℤ → ℤ) :
    (words.modify i f).getD p 0 = words.getD p 0 := by
  rw [List.getD_eq_getElem?_getD, List.getD_eq_getElem?_getD, List.getElem?_modify_ne f words h]

/-- Only slots of the terms met are not zero. -/
def BlockState.ZeroBut (s : BlockState) (base : ℕ) (terms : List ℕ) : Prop :=
  ∀ p, (∀ term ∈ terms, p ≠ base + term) → s.acc.getD p 0 = 0 ∧ s.seen.getD p 0 = 0

/-- A flag is raised when its term is appended, so a slot that is not zero is that of a term met. -/
theorem scatterMax_zeroBut {s : BlockState} {base : ℕ} (h : s.ZeroBut base s.terms)
    (entry : ℕ × ℤ) :
    (scatterMax base s entry).ZeroBut base (scatterMax base s entry).terms ∧
      (scatterMax base s entry).acc.length = s.acc.length ∧
      (scatterMax base s entry).seen.length = s.seen.length := by
  unfold scatterMax
  dsimp only
  split
  · refine ⟨fun p hp => ?_, List.length_modify .., List.length_set ..⟩
    have hslot : base + entry.1 ≠ p := fun heq =>
      hp entry.1 (List.mem_append_right _ (List.mem_singleton_self _)) heq.symm
    rw [getD_modify_ne _ hslot, getD_set_ne _ hslot]
    exact h p fun term hterm => hp term (List.mem_append_left _ hterm)
  · rename_i hseen
    refine ⟨fun p hp => ?_, List.length_modify .., rfl⟩
    have hslot : base + entry.1 ≠ p := by
      -- the flag of the slot is up, so its term was met
      intro heq
      apply hseen
      rw [heq]
      exact (h p hp).2
    rw [getD_modify_ne _ hslot]
    exact h p hp

theorem scatterMax_foldl {base : ℕ} (entries : List (ℕ × ℤ)) {s : BlockState}
    (h : s.ZeroBut base s.terms) :
    (entries.foldl (scatterMax base) s).ZeroBut base (entries.foldl (scatterMax base) s).terms ∧
      (entries.foldl (scatterMax base) s).acc.length = s.acc.length ∧
      (entries.foldl (scatterMax base) s).seen.length = s.seen.length := by
  induction entries generalizing s with
  | nil => exact ⟨h, rfl, rfl⟩
  | cons entry entries ih =>
      obtain ⟨hstep, hacc, hseen⟩ := scatterMax_zeroBut h entry
      obtain ⟨hall, hacc', hseen'⟩ := ih hstep
      exact ⟨hall, hacc'.trans hacc, hseen'.trans hseen⟩

theorem resetSlot_foldl {base : ℕ} (terms : List ℕ) {s : BlockState} (h : s.ZeroBut base terms) :
    AllZero (terms.foldl (resetSlot base) s).acc ∧ AllZero (terms.foldl (resetSlot base) s).seen ∧
      (terms.foldl (resetSlot base) s).acc.length = s.acc.length ∧
      (terms.foldl (resetSlot base) s).seen.length = s.seen.length := by
  induction terms generalizing s with
  | nil => exact ⟨fun p => (h p nofun).1, fun p => (h p nofun).2, rfl, rfl⟩
  | cons term terms ih =>
      have hrest : (resetSlot base s term).ZeroBut base terms := by
        intro p hp
        show (s.acc.set (base + term) 0).getD p 0 = 0 ∧ (s.seen.set (base + term) 0).getD p 0 = 0
        rw [getD_set_zero, getD_set_zero]
        split
        · exact ⟨rfl, rfl⟩
        · rename_i hne
          exact h p (List.forall_mem_cons.mpr ⟨fun heq => hne heq.symm, hp⟩)
      obtain ⟨hacc, hseen, haccLen, hseenLen⟩ := ih hrest
      exact ⟨hacc, hseen, haccLen.trans (List.length_set ..), hseenLen.trans (List.length_set ..)⟩

/-- **A block leaves `acc` and `seen` zero** as it found them, in whatever order its threads run. -/
theorem runBlock_clean (schedule : Schedule) (base : ℕ) (entries : List (ℕ × ℤ)) {acc seen : List ℤ}
    (hacc : AllZero acc) (hseen : AllZero seen) :
    AllZero (runBlock schedule base entries acc seen).1.acc ∧
      AllZero (runBlock schedule base entries acc seen).1.seen ∧
      (runBlock schedule base entries acc seen).1.acc.length = acc.length ∧
      (runBlock schedule base entries acc seen).1.seen.length = seen.length := by
  have hstart : (⟨acc, seen, []⟩ : BlockState).ZeroBut base [] := fun p _ => ⟨hacc p, hseen p⟩
  obtain ⟨hall, haccLen, hseenLen⟩ := scatterMax_foldl (schedule.order entries) hstart
  obtain ⟨hacc', hseen', haccLen', hseenLen'⟩ := resetSlot_foldl _ hall
  exact ⟨hacc', hseen', haccLen'.trans haccLen, hseenLen'.trans hseenLen⟩

theorem SummarizeCall.runGrid_clean (call : SummarizeCall) (corpus : DeviceCorpus) (blocks : List ℕ)
    {acc seen : List ℤ} (hacc : AllZero acc) (hseen : AllZero seen) :
    AllZero (call.runGrid corpus blocks acc seen).1 ∧
      AllZero (call.runGrid corpus blocks acc seen).2.1 ∧
      (call.runGrid corpus blocks acc seen).1.length = acc.length ∧
      (call.runGrid corpus blocks acc seen).2.1.length = seen.length := by
  induction blocks generalizing acc seen with
  | nil => exact ⟨hacc, hseen, rfl, rfl⟩
  | cons b blocks ih =>
      obtain ⟨hacc', hseen', haccLen, hseenLen⟩ := runBlock_clean (call.schedule b)
        (b * call.vectors.dimension) (corpus.entriesOf (call.clusterDocs b)) hacc hseen
      obtain ⟨hacc'', hseen'', haccLen', hseenLen'⟩ := ih hacc' hseen'
      exact ⟨hacc'', hseen'', haccLen'.trans haccLen, hseenLen'.trans hseenLen⟩

/-! ### The heap -/

namespace DeviceHeap

theorem lookup_free {heap : DeviceHeap} {ptr p : ℕ} (h : p ≠ ptr) :
    (heap.free ptr).lookup p = heap.lookup p := by
  induction heap with
  | nil => rfl
  | cons cell heap ih =>
      obtain ⟨address, words⟩ := cell
      by_cases hcell : address = ptr
      · have hp : (p == address) = false := by simp [hcell, h]
        rw [free, List.filter_cons_of_neg (by simp [hcell]), List.lookup_cons, hp]
        exact ih
      · rw [free, List.filter_cons_of_pos (by simp [hcell]), List.lookup_cons, List.lookup_cons]
        split
        · rfl
        · exact ih

theorem lookup_update (heap : DeviceHeap) (ptr : ℕ) (f : List ℤ → List ℤ) (p : ℕ) :
    (heap.update ptr f).lookup p = if p = ptr then (heap.lookup p).map f else heap.lookup p := by
  induction heap with
  | nil =>
      split
      · rfl
      · rfl
  | cons cell heap ih =>
      obtain ⟨address, words⟩ := cell
      have hkey : (if address = ptr then (address, f words) else (address, words))
          = (address, if address = ptr then f words else words) := by
        split
        · rfl
        · rfl
      rw [update, List.map_cons]
      dsimp only
      rw [hkey, List.lookup_cons, List.lookup_cons]
      rcases hp : p == address with - | -
      · exact ih
      · obtain rfl := beq_iff_eq.mp hp
        dsimp only
        split
        · rfl
        · rfl

theorem lookup_above (heap : DeviceHeap) : heap.lookup heap.above = none := by
  rw [List.lookup_eq_none_iff]
  intro cell hcell
  have hle : ∀ l : List ℕ, cell.1 ∈ l → cell.1 ≤ l.foldr max 0 := by
    intro l
    induction l with
    | nil => exact nofun
    | cons n l ih =>
        intro hmem
        rcases List.mem_cons.mp hmem with heq | hmem
        · rw [heq]
          exact le_max_left _ _
        · exact (ih hmem).trans (le_max_right _ _)
  have hlt := hle _ (List.mem_map_of_mem hcell)
  rw [bne_iff_ne, ne_eq, above]
  omega

/-- **A new allocation** is somewhere else, and changes no other. -/
theorem malloc_spec {heap heap' : DeviceHeap} {bytes ptr : ℕ} {answer : Option (ℕ × List ℤ)}
    (h : heap.malloc bytes answer = some (ptr, heap')) :
    ptr ≠ 0 ∧ heap.lookup ptr = none ∧
      (∃ words, heap'.lookup ptr = some words ∧ words.length = bytes / 4) ∧
      ∀ p, p ≠ ptr → heap'.lookup p = heap.lookup p := by
  obtain ⟨place, rfl, hplace⟩ := Option.map_eq_some_iff.mp h
  obtain ⟨rfl, rfl⟩ := Prod.mk.inj hplace
  have hfresh : (if place.1 = 0 ∨ (heap.lookup place.1).isSome then heap.above else place.1) ≠ 0 ∧
      heap.lookup (if place.1 = 0 ∨ (heap.lookup place.1).isSome then heap.above else place.1)
        = none := by
    split
    · exact ⟨Nat.succ_ne_zero _, lookup_above heap⟩
    · rename_i hplace
      rw [not_or, Bool.not_eq_true, Option.isSome_eq_false_iff, Option.isNone_iff_eq_none] at hplace
      exact hplace
  refine ⟨hfresh.1, hfresh.2, ⟨_, List.lookup_cons_self .., ?_⟩, fun p hp => ?_⟩
  · simp only [resize, List.length_append, List.length_take, List.length_replicate]
    omega
  · have hne : (p == if place.1 = 0 ∨ (heap.lookup place.1).isSome then heap.above else place.1)
        = false := by simpa using hp
    rw [List.lookup_cons, hne]

end DeviceHeap

/-! ### The scratch between calls -/

/-- Every buffer in use has an allocation of its own, of the capacity recorded. -/
structure GpuThread.Live (t : GpuThread) : Prop where
  null : t.heap.lookup 0 = none
  unused : ∀ b, (t.buffers b).cap = 0 → (t.buffers b).ptr = 0
  live : ∀ b, (t.buffers b).cap ≠ 0 → ∃ words, t.heap.lookup (t.buffers b).ptr = some words ∧
    4 * words.length = (t.buffers b).cap
  distinct : ∀ b b', (t.buffers b).cap ≠ 0 → (t.buffers b).ptr = (t.buffers b').ptr → b = b'

/-- The words of a buffer. -/
def GpuThread.wordsOf (t : GpuThread) (b : Scratch) : List ℤ := t.heap.words (t.buffers b).ptr

/-- **What a call expects**: `acc` and `seen` have grown together and are zero. -/
structure GpuThread.Ready (t : GpuThread) : Prop extends t.Live where
  together : (t.buffers .acc).cap = (t.buffers .seen).cap
  acc : AllZero (t.wordsOf .acc)
  seen : AllZero (t.wordsOf .seen)

/-- **What a kernel may rely on.** -/
structure Launch.Clean (l : Launch) : Prop where
  acc : ∃ words, l.heap.lookup (l.buffers .acc).ptr = some words ∧
    l.nClusters * l.dim ≤ words.length ∧ ∀ w ∈ words, w = 0
  seen : ∃ words, l.heap.lookup (l.buffers .seen).ptr = some words ∧
    l.nClusters * l.dim ≤ words.length ∧ ∀ w ∈ words, w = 0
  live : ∀ b, ∃ words, l.heap.lookup (l.buffers b).ptr = some words ∧
    (l.buffers b).cap ≤ 4 * words.length

/-! ### When a call goes well -/

/-- No buffer in use fails to grow. -/
def GrowthSafe (dev : DeviceAnswers) : (Scratch → ℕ) → List (Scratch × ℕ) → Prop
  | _, [] => True
  | caps, (b, need) :: rest =>
      if need ≤ caps b then GrowthSafe dev caps rest
      else if (dev.malloc b).isSome then GrowthSafe dev (Function.update caps b need) rest
      else caps b = 0

instance GrowthSafe.decidable (dev : DeviceAnswers) :
    ∀ caps list, Decidable (GrowthSafe dev caps list)
  | _, [] => .isTrue trivial
  | caps, (b, need) :: rest =>
      have := GrowthSafe.decidable dev caps rest
      have := GrowthSafe.decidable dev (Function.update caps b need) rest
      inferInstanceAs (Decidable (if need ≤ caps b then GrowthSafe dev caps rest
        else if (dev.malloc b).isSome then GrowthSafe dev (Function.update caps b need) rest
        else caps b = 0))

namespace SummarizeCall

variable (call : SummarizeCall)

/-- The call gets as far as growing buffers. -/
def Grows (created : Bool) (caps : Scratch → ℕ) : Prop :=
  call.available = true ∧ call.nClusters ≠ 0 ∧ call.nDocs ≠ 0 ∧ call.totalNnz ≠ 0 ∧
    (∃ corpus, call.corpus = .ok corpus) ∧ (created = true ∨ call.device.streamCreate = true) ∧
    (caps .acc < call.accBytes → ∃ memory, call.device.memInfo = some memory ∧
      2 * (call.accBytes - caps .acc) + memory.2 / 16 ≤ memory.1)

/-- **No growth fails where it leaves a trace**: a buffer in use grows, `seen` grows when `acc` did,
and both are zeroed then. -/
def Safe (t : GpuThread) : Prop :=
  let caps := fun b => (t.buffers b).cap
  call.Grows t.created caps →
    if caps .acc < call.accBytes then
      if (call.device.malloc .acc).isSome then
        (call.device.malloc .seen).isSome ∧ call.device.memset .acc = true ∧
          call.device.memset .seen = true ∧ GrowthSafe call.device caps call.needs
      else caps .acc = 0
    else GrowthSafe call.device caps call.needs

/-- Every call of a run goes well. -/
def SafeRun (F : Type) [Zero F] [Add F] [FloatFormat F] : GpuThread → List SummarizeCall → Prop
  | _, [] => True
  | t, call :: calls => call.Safe t ∧ SafeRun F (call.summarizeList F t).1 calls

end SummarizeCall

/-! ### Growing -/

theorem DeviceHeap.lookup_free_eq_none {heap : DeviceHeap} {p : ℕ} (h : heap.lookup p = none)
    (ptr : ℕ) : (heap.free ptr).lookup p = none := by
  rw [List.lookup_eq_none_iff] at h ⊢
  exact fun cell hcell => h cell (List.mem_filter.mp hcell).1

/-- Freeing a buffer leaves the others where they are. -/
theorem GpuThread.Live.lookup_free {t : GpuThread} (h : t.Live) {b b' : Scratch} (hb' : b' ≠ b) :
    (t.heap.free (t.buffers b).ptr).lookup (t.buffers b').ptr
      = t.heap.lookup (t.buffers b').ptr := by
  by_cases hcap : (t.buffers b').cap = 0
  · rw [h.unused b' hcap, h.null]
    exact DeviceHeap.lookup_free_eq_none h.null _
  · exact DeviceHeap.lookup_free fun heq => hb' (h.distinct b' b hcap heq)

/-- The thread with a new allocation for a buffer. -/
def GpuThread.regrown (t : GpuThread) (heap : DeviceHeap) (b : Scratch) (ptr need : ℕ) : GpuThread :=
  { t with
    heap
    buffers := Function.update t.buffers b ⟨ptr, need⟩ }

/-- **A buffer moves** and the others stay. -/
theorem GpuThread.Live.regrown {t : GpuThread} (h : t.Live) {b : Scratch} {need ptr : ℕ}
    {heap : DeviceHeap} {answer : Option (ℕ × List ℤ)} (hneed : need ≠ 0) (hfour : 4 ∣ need)
    (hmalloc : (t.heap.free (t.buffers b).ptr).malloc need answer = some (ptr, heap)) :
    (t.regrown heap b ptr need).Live ∧
      ∀ b', b' ≠ b → (t.regrown heap b ptr need).buffers b' = t.buffers b' ∧
        (t.regrown heap b ptr need).wordsOf b' = t.wordsOf b' := by
  obtain ⟨hptr, hfresh, ⟨words, hwords, hlen⟩, hsame⟩ := DeviceHeap.malloc_spec hmalloc
  have hself : (t.regrown heap b ptr need).buffers b = ⟨ptr, need⟩ := Function.update_self ..
  have hbuffer : ∀ b', b' ≠ b → (t.regrown heap b ptr need).buffers b' = t.buffers b' :=
    fun b' hb' => Function.update_of_ne hb' ..
  -- no other buffer is where the new allocation is
  have hapart : ∀ b', b' ≠ b → (t.buffers b').ptr ≠ ptr := by
    intro b' hb' heq
    by_cases hcap : (t.buffers b').cap = 0
    · exact hptr (heq ▸ h.unused b' hcap)
    · obtain ⟨old, hold, -⟩ := h.live b' hcap
      have hfree := h.lookup_free hb'
      rw [hold, heq, hfresh] at hfree
      cases hfree
  have hother : ∀ b', b' ≠ b →
      heap.lookup (t.buffers b').ptr = t.heap.lookup (t.buffers b').ptr := fun b' hb' =>
    (hsame _ (hapart b' hb')).trans (h.lookup_free hb')
  refine ⟨⟨?_, ?_, ?_, ?_⟩, fun b' hb' => ⟨hbuffer b' hb', ?_⟩⟩
  · exact (hsame 0 hptr.symm).trans (DeviceHeap.lookup_free_eq_none h.null _)
  · intro b' hcap
    by_cases hb' : b' = b
    · subst hb'
      rw [hself] at hcap
      exact absurd hcap hneed
    · rw [hbuffer b' hb'] at hcap ⊢
      exact h.unused b' hcap
  · intro b' hcap
    by_cases hb' : b' = b
    · subst hb'
      rw [hself]
      exact ⟨words, hwords, by rw [hlen, Nat.mul_div_cancel' hfour]⟩
    · rw [hbuffer b' hb'] at hcap ⊢
      obtain ⟨old, hold, hold_len⟩ := h.live b' hcap
      exact ⟨old, (hother b' hb').trans hold, hold_len⟩
  · intro b' b'' hcap heq
    by_cases hb' : b' = b
    · by_cases hb'' : b'' = b
      · rw [hb', hb'']
      · subst hb'
        rw [hself, hbuffer b'' hb''] at heq
        exact absurd heq.symm (hapart b'' hb'')
    · rw [hbuffer b' hb'] at hcap heq
      by_cases hb'' : b'' = b
      · subst hb''
        rw [hself] at heq
        exact absurd heq (hapart b' hb')
      · rw [hbuffer b'' hb''] at heq
        exact h.distinct b' b'' hcap heq
  · show heap.words _ = t.heap.words _
    rw [hbuffer b' hb', DeviceHeap.words, hother b' hb']
    rfl

/-- A request for memory that does not fail, or has nothing to do. -/
theorem ensureCapacity_ok {t : GpuThread} (h : t.Live) (dev : DeviceAnswers) {b : Scratch} {need : ℕ}
    (hneed : need ≠ 0) (hfour : 4 ∣ need) (hgrows : (t.buffers b).cap < need → (dev.malloc b).isSome) :
    ∃ t', ensureCapacity dev b need t = (t', .ok ()) ∧ t'.Live ∧ t'.launches = t.launches ∧
      t'.created = t.created ∧
      (t'.buffers b).cap = (if (t.buffers b).cap < need then need else (t.buffers b).cap) ∧
      (need ≤ (t.buffers b).cap → t' = t) ∧
      ∀ b', b' ≠ b → t'.buffers b' = t.buffers b' ∧ t'.wordsOf b' = t.wordsOf b' := by
  unfold ensureCapacity
  dsimp only
  by_cases hgrow : (t.buffers b).cap < need
  · obtain ⟨place, hplace⟩ := Option.isSome_iff_exists.mp (hgrows hgrow)
    rcases hmalloc : (t.heap.free (t.buffers b).ptr).malloc need (dev.malloc b) with - | ⟨ptr, heap⟩
    · rw [DeviceHeap.malloc, hplace] at hmalloc
      cases hmalloc
    · obtain ⟨hlive, hother⟩ := h.regrown hneed hfour hmalloc
      rw [if_pos hgrow, if_pos hgrow]
      refine ⟨t.regrown heap b ptr need, rfl, hlive, rfl, rfl, ?_, fun hle => ?_, hother⟩
      · show (Function.update t.buffers b ⟨ptr, need⟩ b).cap = need
        rw [Function.update_self]
      · exact absurd hgrow (not_lt.mpr hle)
  · rw [if_neg hgrow, if_neg hgrow]
    exact ⟨t, rfl, h, rfl, rfl, rfl, fun _ => rfl, fun _ _ => ⟨rfl, rfl⟩⟩

/-- A failure for a buffer that was not in use leaves everything as it was. -/
theorem ensureCapacity_error {t : GpuThread} (h : t.Live) (dev : DeviceAnswers) {b : Scratch}
    {need : ℕ} (hneed : need ≠ 0) (hcap : (t.buffers b).cap = 0) (hnone : dev.malloc b = none) :
    ∃ e, ensureCapacity dev b need t = (t, .error e) := by
  have hgrow : (t.buffers b).cap < need := by omega
  have hfree : t.heap.free (t.buffers b).ptr = t.heap := by
    rw [h.unused b hcap]
    refine List.filter_eq_self.mpr fun cell hcell => decide_eq_true fun heq => ?_
    have hnot := (List.lookup_eq_none_iff.mp h.null) cell hcell
    rw [heq] at hnot
    cases hnot
  unfold ensureCapacity
  dsimp only
  rw [if_pos hgrow, hfree, hnone]
  exact ⟨_, rfl⟩

/-! ### Writing -/

@[simp] theorem length_overwriteAt (position : ℕ) (new old : List ℤ) :
    (overwriteAt position new old).length = old.length := by
  simp [overwriteAt]

/-- A buffer that is overwritten with zeros is zero. -/
theorem allZero_overwriteAt {n : ℕ} {old : List ℤ} (h : old.length ≤ n) :
    AllZero (overwriteAt 0 (List.replicate n 0) old) := by
  intro p
  rw [overwriteAt, List.getD_eq_getElem?_getD, List.getElem?_map, List.getElem?_zipIdx]
  rcases hp : old[p]? with - | w
  · rfl
  · have hlt := (List.getElem?_eq_some_iff.mp hp).1
    simp [List.getElem?_replicate, hlt.trans_le h]

/-- The thread with other words in a buffer. -/
def GpuThread.write (t : GpuThread) (b : Scratch) (f : List ℤ → List ℤ) : GpuThread :=
  { t with heap := t.heap.update (t.buffers b).ptr f }

namespace GpuThread

variable {t : GpuThread}

theorem Live.write (h : t.Live) {b : Scratch} {f : List ℤ → List ℤ}
    (hf : (f (t.wordsOf b)).length = (t.wordsOf b).length) : (t.write b f).Live where
  null := by
    show (t.heap.update (t.buffers b).ptr f).lookup 0 = none
    rw [DeviceHeap.lookup_update, h.null]
    split
    · rfl
    · rfl
  unused := h.unused
  live := by
    intro b' hcap
    obtain ⟨words, hwords, hlen⟩ := h.live b' hcap
    show ∃ words, (t.heap.update (t.buffers b).ptr f).lookup (t.buffers b').ptr = some words ∧ _
    rw [DeviceHeap.lookup_update, hwords]
    split
    · rename_i heq
      have hwordsOf : t.wordsOf b = words := by
        rw [wordsOf, DeviceHeap.words, ← heq, hwords]
        rfl
      rw [hwordsOf] at hf
      refine ⟨f words, rfl, ?_⟩
      rw [hf]
      exact hlen
    · exact ⟨words, rfl, hlen⟩
  distinct := h.distinct

theorem wordsOf_write_of_ne (h : t.Live) {b b' : Scratch} (hb' : b' ≠ b) (f : List ℤ → List ℤ) :
    (t.write b f).wordsOf b' = t.wordsOf b' := by
  show ((t.heap.update (t.buffers b).ptr f).lookup (t.buffers b').ptr).getD []
    = (t.heap.lookup (t.buffers b').ptr).getD []
  rw [DeviceHeap.lookup_update]
  split
  · rename_i heq
    by_cases hcap : (t.buffers b').cap = 0
    · rw [h.unused b' hcap, h.null]
      rfl
    · exact absurd (h.distinct b' b hcap heq) hb'
  · rfl

theorem wordsOf_write (h : t.Live) {b : Scratch} (hcap : (t.buffers b).cap ≠ 0)
    (f : List ℤ → List ℤ) : (t.write b f).wordsOf b = f (t.wordsOf b) := by
  obtain ⟨words, hwords, -⟩ := h.live b hcap
  show ((t.heap.update (t.buffers b).ptr f).lookup (t.buffers b).ptr).getD []
    = f ((t.heap.lookup (t.buffers b).ptr).getD [])
  rw [DeviceHeap.lookup_update, if_pos rfl, hwords]
  rfl

/-- Other buffers are written to without a trace in `acc` and `seen`. -/
theorem Ready.write (h : t.Ready) {b : Scratch} (hacc : b ≠ .acc) (hseen : b ≠ .seen)
    {f : List ℤ → List ℤ} (hf : (f (t.wordsOf b)).length = (t.wordsOf b).length) :
    (t.write b f).Ready where
  toLive := h.toLive.write hf
  together := h.together
  acc := by
    rw [wordsOf_write_of_ne h.toLive hacc.symm]
    exact h.acc
  seen := by
    rw [wordsOf_write_of_ne h.toLive hseen.symm]
    exact h.seen

end GpuThread

/-! ### The stages of a call -/

/-- The buffers that need not be zero grow one after the other. -/
theorem ensureCapacities_ready (dev : DeviceAnswers) {list : List (Scratch × ℕ)} {t : GpuThread}
    (h : t.Ready) (hlist : ∀ entry ∈ list, entry.1 ≠ .acc ∧ entry.1 ≠ .seen ∧ entry.2 ≠ 0 ∧ 4 ∣ entry.2)
    {caps : Scratch → ℕ} (hcaps : ∀ entry ∈ list, caps entry.1 = (t.buffers entry.1).cap)
    (hsafe : GrowthSafe dev caps list) :
    (∃ t', ensureCapacities dev list t = (t', .ok ()) ∧ t'.Ready ∧ t'.launches = t.launches ∧
      (∀ b, (t.buffers b).cap ≤ (t'.buffers b).cap) ∧
      ∀ entry ∈ list, entry.2 ≤ (t'.buffers entry.1).cap) ∨
    (∃ t' e, ensureCapacities dev list t = (t', .error e) ∧ t'.Ready ∧ t'.launches = t.launches) := by
  induction list generalizing t caps with
  | nil => exact .inl ⟨t, rfl, h, rfl, fun _ => le_rfl, nofun⟩
  | cons entry list ih =>
      obtain ⟨b, need⟩ := entry
      obtain ⟨⟨hacc, hseen, hneed, hfour⟩, hlist⟩ := List.forall_mem_cons.mp hlist
      obtain ⟨hcap, hcaps⟩ := List.forall_mem_cons.mp hcaps
      dsimp only at hacc hseen hneed hfour hcap
      rw [ensureCapacities, GpuM.bind]
      by_cases hfails : (t.buffers b).cap < need ∧ dev.malloc b = none
      · -- the buffer was not in use
        obtain ⟨hgrow, hnone⟩ := hfails
        have hno : ¬ (dev.malloc b).isSome = true := by
          rw [hnone]
          exact Bool.false_ne_true
        rw [GrowthSafe, hcap, if_neg (not_le.mpr hgrow), if_neg hno] at hsafe
        obtain ⟨e, herror⟩ := ensureCapacity_error h.toLive dev hneed hsafe hnone
        exact .inr ⟨t, e, by rw [herror], h, rfl⟩
      · have hgrows : (t.buffers b).cap < need → (dev.malloc b).isSome := fun hgrow =>
          Option.isSome_iff_ne_none.mpr fun hnone => hfails ⟨hgrow, hnone⟩
        obtain ⟨t', hok, hlive, hlaunches, -, hcap', hsame, hother⟩ :=
          ensureCapacity_ok h.toLive dev hneed hfour hgrows
        have hready : t'.Ready := by
          refine ⟨hlive, ?_, ?_, ?_⟩
          · rw [(hother _ hacc.symm).1, (hother _ hseen.symm).1]
            exact h.together
          · rw [(hother _ hacc.symm).2]
            exact h.acc
          · rw [(hother _ hseen.symm).2]
            exact h.seen
        have hmono : ∀ b', (t.buffers b').cap ≤ (t'.buffers b').cap := by
          intro b'
          by_cases hb' : b' = b
          · rw [hb', hcap']
            split
            · rename_i hlt
              exact hlt.le
            · exact le_rfl
          · rw [(hother b' hb').1]
        -- the rest of the list, with the capacities as they are now
        obtain ⟨caps', hcaps', hrest⟩ : ∃ caps' : Scratch → ℕ,
            (∀ entry ∈ list, caps' entry.1 = (t'.buffers entry.1).cap) ∧
              GrowthSafe dev caps' list := by
          rw [GrowthSafe, hcap] at hsafe
          by_cases hgrow : (t.buffers b).cap < need
          · rw [if_neg (not_le.mpr hgrow), if_pos (hgrows hgrow)] at hsafe
            refine ⟨_, fun entry hentry => ?_, hsafe⟩
            by_cases hb : entry.1 = b
            · rw [hb, Function.update_self, hcap', if_pos hgrow]
            · rw [Function.update_of_ne hb, (hother _ hb).1, hcaps entry hentry]
          · rw [if_pos (not_lt.mp hgrow)] at hsafe
            rw [hsame (not_lt.mp hgrow)]
            exact ⟨caps, hcaps, hsafe⟩
        rw [hok]
        dsimp only
        rcases ih hready hlist hcaps' hrest with
          ⟨t'', hok', hready', hlaunches', hmono', hneeds⟩ | ⟨t'', e, herror, hready', hlaunches'⟩
        · refine .inl ⟨t'', hok', hready', hlaunches'.trans hlaunches,
            fun b' => (hmono b').trans (hmono' b'), List.forall_mem_cons.mpr ⟨?_, hneeds⟩⟩
          refine le_trans ?_ (hmono' b)
          rw [hcap']
          split
          · exact le_rfl
          · rename_i hlt
            exact not_lt.mp hlt
        · exact .inr ⟨t'', e, herror, hready', hlaunches'.trans hlaunches⟩

/-- `acc` and `seen` after growing: both hold what is asked, and both are zero; or nothing happened. -/
theorem SummarizeCall.growAccumulators_ready (call : SummarizeCall) {t : GpuThread} (h : t.Ready)
    (hbytes : call.accBytes ≠ 0)
    (hsafe : (t.buffers .acc).cap < call.accBytes →
      if (call.device.malloc .acc).isSome then
        (call.device.malloc .seen).isSome ∧ call.device.memset .acc = true ∧
          call.device.memset .seen = true
      else (t.buffers .acc).cap = 0) :
    (∃ t', call.growAccumulators t = (t', .ok ()) ∧ t'.Ready ∧ t'.launches = t.launches ∧
      call.accBytes ≤ (t'.buffers .acc).cap ∧
      ∀ b, b ≠ .acc → b ≠ .seen → t'.buffers b = t.buffers b) ∨
    (∃ e, call.growAccumulators t = (t, .error e)) := by
  have hfour : 4 ∣ call.accBytes := Dvd.intro_left _ rfl
  unfold growAccumulators
  by_cases hgrow : (t.buffers .acc).cap < call.accBytes
  · have hsafe := hsafe hgrow
    by_cases hacc : (call.device.malloc .acc).isSome
    · rw [if_pos hacc] at hsafe
      obtain ⟨hseen, hmemsetAcc, hmemsetSeen⟩ := hsafe
      obtain ⟨t₁, hok₁, hlive₁, hlaunches₁, -, hcap₁, -, hother₁⟩ :=
        ensureCapacity_ok h.toLive call.device hbytes hfour fun _ => hacc
      rw [if_pos hgrow] at hcap₁
      obtain ⟨t₂, hok₂, hlive₂, hlaunches₂, -, hcap₂, -, hother₂⟩ :=
        ensureCapacity_ok hlive₁ call.device hbytes hfour fun _ => hseen
      have hseenGrows : (t₁.buffers .seen).cap < call.accBytes := by
        rw [(hother₁ .seen Scratch.acc_ne_seen.symm).1, ← h.together]
        exact hgrow
      rw [if_pos hseenGrows] at hcap₂
      have hcapAcc : (t₂.buffers .acc).cap = call.accBytes := by
        rw [(hother₂ .acc Scratch.acc_ne_seen).1]
        exact hcap₁
      have hinUse : ∀ b, (t₂.buffers b).cap = call.accBytes → (t₂.buffers b).cap ≠ 0 := by
        intro b hb
        rw [hb]
        exact hbytes
      -- the words of a buffer that was zeroed
      have hzeroed : ∀ b, (t₂.buffers b).cap = call.accBytes →
          AllZero (overwriteAt 0 (List.replicate (call.accBytes / 4) 0) (t₂.wordsOf b)) := by
        intro b hb
        obtain ⟨words, hwords, hlen⟩ := hlive₂.live b (hinUse b hb)
        have hwordsOf : t₂.wordsOf b = words := by
          rw [GpuThread.wordsOf, DeviceHeap.words, hwords]
          rfl
        rw [hwordsOf]
        apply allZero_overwriteAt
        omega
      set zero := overwriteAt 0 (List.replicate (call.accBytes / 4) 0) with hzero
      have hzero_len : ∀ old : List ℤ, (zero old).length = old.length := fun old =>
        length_overwriteAt _ _ _
      have hlive₃ := hlive₂.write (b := .acc) (hzero_len _)
      have hlive₄ := hlive₃.write (b := .seen) (hzero_len _)
      have hmemset₂ : ∀ what, memsetZero call.device .acc what t₂ = (t₂.write .acc zero, .ok ()) := by
        intro what
        rw [memsetZero, GpuM.request, if_pos hmemsetAcc, hcapAcc]
        rfl
      have hmemset₃ : ∀ what, memsetZero call.device .seen what (t₂.write .acc zero)
          = ((t₂.write .acc zero).write .seen zero, .ok ()) := by
        intro what
        rw [memsetZero, GpuM.request, if_pos hmemsetSeen]
        show _ = ((t₂.write .acc zero).write .seen (overwriteAt 0
          (List.replicate (call.accBytes / 4) 0)), _)
        rw [← hcap₂]
        rfl
      refine .inl ⟨(t₂.write .acc zero).write .seen zero, ?_, ⟨hlive₄, ?_, ?_, ?_⟩, ?_, ?_, ?_⟩
      · simp only [if_pos hgrow]
        rw [GpuM.bind_ok hok₁, GpuM.bind_ok hok₂, GpuM.bind_ok (hmemset₂ _)]
        exact hmemset₃ _
      · exact hcapAcc.trans hcap₂.symm
      · rw [GpuThread.wordsOf_write_of_ne hlive₃ Scratch.acc_ne_seen,
          GpuThread.wordsOf_write hlive₂ (hinUse _ hcapAcc)]
        exact hzeroed .acc hcapAcc
      · rw [GpuThread.wordsOf_write hlive₃ (hinUse _ hcap₂),
          GpuThread.wordsOf_write_of_ne hlive₂ Scratch.acc_ne_seen.symm]
        exact hzeroed .seen hcap₂
      · exact hlaunches₂.trans hlaunches₁
      · exact hcapAcc.ge
      · intro b hb hb'
        exact (hother₂ b hb').1.trans (hother₁ b hb).1
    · rw [if_neg hacc] at hsafe
      rw [Option.not_isSome_iff_eq_none] at hacc
      obtain ⟨e, herror⟩ := ensureCapacity_error h.toLive call.device hbytes hsafe hacc
      exact .inr ⟨e, GpuM.bind_error herror _⟩
  · -- both are large enough
    have hseen : ¬ (t.buffers .seen).cap < call.accBytes := by
      rw [← h.together]
      exact hgrow
    have henough : ∀ b, ¬ (t.buffers b).cap < call.accBytes →
        ensureCapacity call.device b call.accBytes t = (t, .ok ()) := fun b hb => by
      rw [ensureCapacity, if_neg hb]
    refine .inl ⟨t, ?_, h, rfl, not_lt.mp hgrow, fun _ _ _ => rfl⟩
    simp only [if_neg hgrow]
    rw [GpuM.bind_ok (henough _ hgrow), GpuM.bind_ok (henough _ hseen)]
    rfl

/-- The thread after some steps: ready, with only clean kernels started on the way. -/
def GpuThread.Reaches (t t' : GpuThread) : Prop :=
  t'.Ready ∧ ∃ new, t'.launches = t.launches ++ new ∧ ∀ l ∈ new, l.Clean

namespace GpuThread

variable {t t' t'' : GpuThread}

/-- Being ready is a matter of the heap and the buffers. -/
theorem Ready.congr (h : t.Ready) (hheap : t'.heap = t.heap) (hbuffers : t'.buffers = t.buffers) :
    t'.Ready := by
  obtain ⟨heap, created, buffers, launches⟩ := t
  obtain ⟨heap', created', buffers', launches'⟩ := t'
  obtain rfl := hheap
  obtain rfl := hbuffers
  exact ⟨⟨h.null, h.unused, h.live, h.distinct⟩, h.together, h.acc, h.seen⟩

theorem Ready.reaches (h : t'.Ready) (hlaunches : t'.launches = t.launches) : t.Reaches t' :=
  ⟨h, [], by rw [hlaunches, List.append_nil], nofun⟩

theorem Ready.reaches_self (h : t.Ready) : t.Reaches t := h.reaches rfl

theorem Reaches.trans (h : t.Reaches t') (h' : t'.Reaches t'') : t.Reaches t'' := by
  obtain ⟨-, new, hnew, hclean⟩ := h
  obtain ⟨hready, new', hnew', hclean'⟩ := h'
  refine ⟨hready, new ++ new', ?_, List.forall_mem_append.mpr ⟨hclean, hclean'⟩⟩
  rw [hnew', hnew, List.append_assoc]

end GpuThread

/-- What follows is looked at only when nothing was thrown. -/
theorem GpuM.bind_reaches {α β : Type} {m : GpuM α} {f : α → GpuM β} {t : GpuThread}
    (hm : t.Reaches (m t).1) (hf : ∀ t' a, m t = (t', .ok a) → t'.Reaches (f a t').1) :
    t.Reaches (m.bind f t).1 := by
  rcases hr : m t with ⟨t', e | a⟩
  · rw [GpuM.bind_error hr]
    rw [hr] at hm
    exact hm
  · rw [GpuM.bind_ok hr]
    rw [hr] at hm
    exact hm.trans (hf t' a hr)

/-- Code that leaves a thread ready, with the buffers and the launches it had. -/
def KeepsReady {α : Type} (m : GpuM α) : Prop :=
  ∀ t, t.Ready → (m t).1.Ready ∧ (m t).1.launches = t.launches ∧ (m t).1.buffers = t.buffers

theorem KeepsReady.bind {α β : Type} {m : GpuM α} {f : α → GpuM β} (hm : KeepsReady m)
    (hf : ∀ a, KeepsReady (f a)) : KeepsReady (m.bind f) := by
  intro t ht
  obtain ⟨hready, hlaunches, hbuffers⟩ := hm t ht
  unfold GpuM.bind
  rcases hr : m t with ⟨t', e | a⟩
  · rw [hr] at hready hlaunches hbuffers
    exact ⟨hready, hlaunches, hbuffers⟩
  · rw [hr] at hready hlaunches hbuffers
    obtain ⟨hready', hlaunches', hbuffers'⟩ := hf a t' hready
    exact ⟨hready', hlaunches'.trans hlaunches, hbuffers'.trans hbuffers⟩

theorem KeepsReady.reaches {α : Type} {m : GpuM α} (hm : KeepsReady m) {t : GpuThread}
    (h : t.Ready) : t.Reaches (m t).1 :=
  (hm t h).1.reaches (hm t h).2.1

theorem keepsReady_pure {α : Type} (a : α) : KeepsReady (GpuM.pure a) := fun _ h => ⟨h, rfl, rfl⟩

theorem keepsReady_copyToDevice (dev : DeviceAnswers) {b : Scratch} (hacc : b ≠ .acc)
    (hseen : b ≠ .seen) (what : String) (words : List ℤ) :
    KeepsReady (copyToDevice dev b what words) := by
  intro t ht
  unfold copyToDevice GpuM.request
  split
  · exact ⟨ht.write hacc hseen (length_overwriteAt _ _ _), rfl, rfl⟩
  · exact ⟨ht, rfl, rfl⟩

theorem keepsReady_copyToHost (dev : DeviceAnswers) (b : Scratch) (what : String) (count : ℕ) :
    KeepsReady (copyToHost dev b what count) := by
  intro t ht
  unfold copyToHost
  split
  · exact ⟨ht, rfl, rfl⟩
  · exact ⟨ht, rfl, rfl⟩

namespace SummarizeCall

theorem keepsReady_upload (call : SummarizeCall) : KeepsReady call.upload :=
  (keepsReady_copyToDevice _ (by decide) (by decide) _ _).bind fun _ =>
    (keepsReady_copyToDevice _ (by decide) (by decide) _ _).bind fun _ =>
      keepsReady_copyToDevice _ (by decide) (by decide) _ _

variable [Zero F] [Add F] [FloatFormat F]

omit [Zero F] [Add F] in
theorem keepsReady_download (call : SummarizeCall) : KeepsReady (call.download F) :=
  (keepsReady_copyToHost _ _ _ _).bind fun _ => (keepsReady_copyToHost _ _ _ _).bind fun _ =>
    (keepsReady_copyToHost _ _ _ _).bind fun _ => (keepsReady_copyToHost _ _ _ _).bind fun _ =>
      KeepsReady.bind
        (fun t ht => by
          unfold GpuM.request
          split
          · exact ⟨ht, rfl, rfl⟩
          · exact ⟨ht, rfl, rfl⟩)
        fun _ => keepsReady_pure _

/-- The outputs of the kernel go into buffers that need not be zero. -/
theorem writeOutputs_ready (elementSize : ℕ) (outputs : List (List ℕ × List ℤ)) {t : GpuThread}
    (h : t.Ready) (b : ℕ) (bases : List ℕ) :
    ({ t with heap := writeOutputs F elementSize t.buffers b bases outputs t.heap }
      : GpuThread).Ready := by
  induction outputs generalizing t b bases with
  | nil =>
      cases bases with
      | nil => exact h
      | cons base bases => exact h
  | cons output outputs ih =>
      obtain ⟨terms, maxima⟩ := output
      cases bases with
      | nil => exact h
      | cons base bases =>
          rw [writeOutputs]
          have hterm := h.write (b := .outTerm) (by decide) (by decide) (length_overwriteAt base
            (terms.map fun term : ℕ => (term : ℤ)) _)
          have hval := hterm.write (b := .outVal) (by decide) (by decide) (length_overwriteAt base
            (maxima.map (outWord F elementSize)) _)
          have hcount := hval.write (b := .outCount) (by decide) (by decide) (length_overwriteAt b
            [(terms.length : ℤ)] _)
          have hsum := hcount.write (b := .outSum) (by decide) (by decide) (length_overwriteAt b
            [wordOf ((maxima.map (outWord F elementSize)).map (ofWord F)).sum] _)
          exact ih hsum (b + 1) bases

/-! ### Runs -/

/-- **The kernel starts clean** and leaves the thread ready. -/
theorem launchKernel_ready (call : SummarizeCall) (corpus : DeviceCorpus) {t : GpuThread}
    (h : t.Ready) (hinUse : ∀ b, (t.buffers b).cap ≠ 0)
    (hbytes : call.accBytes ≤ (t.buffers .acc).cap) :
    t.Reaches (call.launchKernel F corpus t).1 := by
  unfold launchKernel GpuM.request
  split
  · obtain ⟨hacc, hseen, haccLen, hseenLen⟩ :=
      call.runGrid_clean corpus (List.range call.nClusters) h.acc h.seen
    unfold GpuThread.wordsOf at hacc hseen haccLen hseenLen
    rcases hgrid : call.runGrid corpus (List.range call.nClusters)
      (t.heap.words (t.buffers .acc).ptr) (t.heap.words (t.buffers .seen).ptr) with
      ⟨acc, seen, outputs⟩
    rw [hgrid] at hacc hseen haccLen hseenLen
    dsimp only at hacc hseen haccLen hseenLen ⊢
    rw [hgrid]
    dsimp only
    -- the accumulators are written back
    have hlive₁ : (t.write .acc fun _ => acc).Live := h.toLive.write haccLen
    have hsame : (t.write .acc fun _ => acc).wordsOf .seen = t.wordsOf .seen :=
      GpuThread.wordsOf_write_of_ne h.toLive Scratch.acc_ne_seen.symm _
    have hlive₂ : ((t.write .acc fun _ => acc).write .seen fun _ => seen).Live := by
      apply hlive₁.write
      rw [hsame]
      exact hseenLen
    have hready₂ : ((t.write .acc fun _ => acc).write .seen fun _ => seen).Ready := by
      refine ⟨hlive₂, h.together, ?_, ?_⟩
      · rw [GpuThread.wordsOf_write_of_ne hlive₁ Scratch.acc_ne_seen,
          GpuThread.wordsOf_write h.toLive (hinUse .acc)]
        exact hacc
      · rw [GpuThread.wordsOf_write hlive₁ (hinUse .seen)]
        exact hseen
    refine ⟨(writeOutputs_ready corpus.elementSize outputs hready₂ 0 call.outBase).congr rfl rfl,
      _, rfl, fun l hl => ?_⟩
    obtain rfl := List.mem_singleton.mp hl
    have hzeroed : ∀ b, call.accBytes ≤ (t.buffers b).cap → AllZero (t.wordsOf b) →
        ∃ words, t.heap.lookup (t.buffers b).ptr = some words ∧
          call.nClusters * call.vectors.dimension ≤ words.length ∧ ∀ w ∈ words, w = 0 := by
      intro b hb hzero
      obtain ⟨words, hwords, hlen⟩ := h.live b (hinUse b)
      rw [GpuThread.wordsOf, DeviceHeap.words, hwords] at hzero
      refine ⟨words, hwords, ?_, allZero_iff.mp hzero⟩
      rw [accBytes] at hb
      omega
    refine ⟨hzeroed .acc hbytes h.acc, hzeroed .seen (h.together ▸ hbytes) h.seen, fun b => ?_⟩
    obtain ⟨words, hwords, hlen⟩ := h.live b (hinUse b)
    exact ⟨words, hwords, hlen.ge⟩
  · exact h.reaches_self

theorem needs_spec (call : SummarizeCall) (hclusters : call.nClusters ≠ 0) (hdocs : call.nDocs ≠ 0)
    (hnnz : call.totalNnz ≠ 0) :
    ∀ entry ∈ call.needs, entry.1 ≠ .acc ∧ entry.1 ≠ .seen ∧ entry.2 ≠ 0 ∧ 4 ∣ entry.2 := by
  have hfour : ∀ n : ℕ, n ≠ 0 → n * 4 ≠ 0 ∧ 4 ∣ n * 4 := fun n hn =>
    ⟨Nat.mul_ne_zero hn four_ne_zero, Dvd.intro_left _ rfl⟩
  simp only [needs, List.forall_mem_cons]
  exact ⟨⟨by decide, by decide, hfour _ hdocs⟩,
    ⟨by decide, by decide, hfour _ (Nat.succ_ne_zero _)⟩,
    ⟨by decide, by decide, hfour _ (Nat.succ_ne_zero _)⟩, ⟨by decide, by decide, hfour _ hnnz⟩,
    ⟨by decide, by decide, hfour _ hnnz⟩, ⟨by decide, by decide, hfour _ hclusters⟩,
    ⟨by decide, by decide, hfour _ hclusters⟩, nofun⟩

/-- Every buffer but `acc` and `seen` is asked for. -/
theorem exists_need (call : SummarizeCall) {b : Scratch} (hacc : b ≠ .acc) (hseen : b ≠ .seen) :
    ∃ entry ∈ call.needs, entry.1 = b := by
  cases b with
  | acc => exact absurd rfl hacc
  | seen => exact absurd rfl hseen
  | _ => simp [needs]

/-- The part of a call that follows the check of the memory. -/
theorem grown_reaches (call : SummarizeCall) (corpus : DeviceCorpus) {t : GpuThread} (h : t.Ready)
    (hgrows : call.Grows t.created fun b => (t.buffers b).cap) (hsafe : call.Safe t) :
    t.Reaches ((call.growAccumulators.bind fun _ =>
      (ensureCapacities call.device call.needs).bind fun _ =>
      call.upload.bind fun _ =>
      (call.launchKernel F corpus).bind fun _ =>
      (call.download F).bind fun out => GpuM.pure (some out)) t).1 := by
  have hsafe := hsafe hgrows
  obtain ⟨-, hclusters, hdocs, hnnz, -⟩ := hgrows
  have hneeds := call.needs_spec hclusters hdocs hnnz
  have hbytes : call.accBytes ≠ 0 :=
    Nat.mul_ne_zero (Nat.mul_ne_zero hclusters call.dim_pos.ne') four_ne_zero
  have hgrowth : (t.buffers .acc).cap < call.accBytes →
      if (call.device.malloc .acc).isSome then
        (call.device.malloc .seen).isSome ∧ call.device.memset .acc = true ∧
          call.device.memset .seen = true
      else (t.buffers .acc).cap = 0 := by
    intro hlt
    rw [if_pos hlt] at hsafe
    split
    · rename_i hmalloc
      rw [if_pos hmalloc] at hsafe
      exact ⟨hsafe.1, hsafe.2.1, hsafe.2.2.1⟩
    · rename_i hmalloc
      rw [if_neg hmalloc] at hsafe
      exact hsafe
  rcases call.growAccumulators_ready h hbytes hgrowth with
    ⟨t₂, hok₂, hready₂, hlaunches₂, hacc₂, hother₂⟩ | ⟨e, herror⟩
  · rw [GpuM.bind_ok hok₂]
    apply (hready₂.reaches hlaunches₂).trans
    -- the accumulators have grown, so the others are safe
    have hrest : GrowthSafe call.device (fun b => (t.buffers b).cap) call.needs := by
      by_cases hlt : (t.buffers .acc).cap < call.accBytes
      · rw [if_pos hlt] at hsafe
        by_cases hmalloc : (call.device.malloc .acc).isSome
        · rw [if_pos hmalloc] at hsafe
          exact hsafe.2.2.2
        · rw [if_neg hmalloc] at hsafe
          rw [Option.not_isSome_iff_eq_none] at hmalloc
          obtain ⟨e, herror⟩ := ensureCapacity_error h.toLive call.device hbytes hsafe hmalloc
          rw [growAccumulators, GpuM.bind_error herror] at hok₂
          cases hok₂
      · rw [if_neg hlt] at hsafe
        exact hsafe
    have hcaps : ∀ entry ∈ call.needs, (t.buffers entry.1).cap = (t₂.buffers entry.1).cap :=
      fun entry hentry => by
        rw [hother₂ _ (hneeds entry hentry).1 (hneeds entry hentry).2.1]
    rcases ensureCapacities_ready call.device hready₂ hneeds hcaps hrest with
      ⟨t₃, hok₃, hready₃, hlaunches₃, hmono₃, hneeds₃⟩ | ⟨t₃, e, herror, hready₃, hlaunches₃⟩
    · rw [GpuM.bind_ok hok₃]
      apply (hready₃.reaches hlaunches₃).trans
      have hinUse : ∀ b, (t₃.buffers b).cap ≠ 0 := by
        have hacc₃ : (t₃.buffers .acc).cap ≠ 0 :=
          ((Nat.pos_of_ne_zero hbytes).trans_le (hacc₂.trans (hmono₃ .acc))).ne'
        intro b
        by_cases hacc : b = .acc
        · rw [hacc]
          exact hacc₃
        · by_cases hseen : b = .seen
          · rw [hseen, ← hready₃.together]
            exact hacc₃
          · obtain ⟨entry, hentry, rfl⟩ := call.exists_need hacc hseen
            exact ((Nat.pos_of_ne_zero (hneeds entry hentry).2.2.1).trans_le
              (hneeds₃ entry hentry)).ne'
      apply GpuM.bind_reaches (call.keepsReady_upload.reaches hready₃)
      intro t₄ _ hok₄
      obtain ⟨hready₄, -, hbuffers₄⟩ := call.keepsReady_upload t₃ hready₃
      rw [hok₄] at hready₄ hbuffers₄
      dsimp only at hready₄ hbuffers₄
      have hlaunch : t₄.Reaches (call.launchKernel F corpus t₄).1 := by
        apply launchKernel_ready call corpus hready₄
        · rw [hbuffers₄]
          exact hinUse
        · rw [hbuffers₄]
          exact hacc₂.trans (hmono₃ .acc)
      apply GpuM.bind_reaches hlaunch
      intro t₅ _ hok₅
      have hready₅ : t₅.Ready := by
        rw [hok₅] at hlaunch
        exact hlaunch.1
      exact (call.keepsReady_download.bind fun _ => keepsReady_pure _).reaches hready₅
    · rw [GpuM.bind_error herror]
      exact hready₃.reaches hlaunches₃
  · rw [GpuM.bind_error herror]
    exact h.reaches_self

omit [Zero F] [Add F] [FloatFormat F] in
/-- A context is there from then on, with or without its stream. -/
theorem threadCtx_cases (dev : DeviceAnswers) (t : GpuThread) :
    (∃ e, threadCtx dev t = ({ t with created := true }, .error e)) ∨
    (t.created = true ∨ dev.streamCreate = true) ∧
      threadCtx dev t = ({ t with created := true }, .ok ()) := by
  rcases hcreated : t.created with - | -
  · rcases hstream : dev.streamCreate with - | -
    · refine .inl ⟨cudaError "cudaStreamCreate" dev.errorString, ?_⟩
      simp only [threadCtx, hcreated, hstream]
      rfl
    · refine .inr ⟨.inr rfl, ?_⟩
      simp only [threadCtx, hcreated, hstream]
      rfl
  · refine .inr ⟨.inl rfl, ?_⟩
    rw [threadCtx, if_pos hcreated, ← hcreated]

omit [Zero F] [Add F] [FloatFormat F] in
/-- Looking at the memory changes nothing. -/
theorem declines_cases (call : SummarizeCall) (t : GpuThread) :
    (∃ e, call.declines t = (t, .error e)) ∨ call.declines t = (t, .ok true) ∨
    call.declines t = (t, .ok false) ∧ ((t.buffers .acc).cap < call.accBytes →
      ∃ memory, call.device.memInfo = some memory ∧
        2 * (call.accBytes - (t.buffers .acc).cap) + memory.2 / 16 ≤ memory.1) := by
  unfold declines
  dsimp only
  by_cases hgrow : (t.buffers .acc).cap < call.accBytes
  · rw [if_pos hgrow]
    rcases hmemory : call.device.memInfo with - | ⟨free, total⟩
    · exact .inl ⟨_, rfl⟩
    · dsimp only
      by_cases hshort : free < 2 * (call.accBytes - (t.buffers .acc).cap) + total / 16
      · rw [decide_eq_true hshort]
        exact .inr (.inl rfl)
      · rw [decide_eq_false hshort]
        exact .inr (.inr ⟨rfl, fun _ => ⟨(free, total), rfl, not_lt.mp hshort⟩⟩)
  · rw [if_neg hgrow]
    exact .inr (.inr ⟨rfl, fun hlt => absurd hlt hgrow⟩)

/-- **A call that goes well** leaves the thread ready, and started its kernel clean if at all. -/
theorem summarizeListImpl_reaches (call : SummarizeCall) {t : GpuThread} (h : t.Ready)
    (hsafe : call.Safe t) (havailable : call.available = true) (hclusters : call.nClusters ≠ 0) :
    t.Reaches (call.summarizeListImpl F t).1 := by
  by_cases hdocs : call.nDocs = 0
  · have himpl : call.summarizeListImpl F = GpuM.pure none := if_pos hdocs
    rw [himpl]
    exact h.reaches_self
  · by_cases hnnz : call.totalNnz = 0
    · have himpl : call.summarizeListImpl F = GpuM.pure none :=
        (if_neg hdocs).trans (if_pos hnnz)
      rw [himpl]
      exact h.reaches_self
    · have himpl : call.summarizeListImpl F = _ := (if_neg hdocs).trans (if_neg hnnz)
      rw [himpl]
      rcases hcorpus : call.corpus with e | corpus
      · exact h.reaches_self
      · dsimp only
        have hready : ({ t with created := true } : GpuThread).Ready := h.congr rfl rfl
        rcases threadCtx_cases call.device t with ⟨e, herror⟩ | ⟨hcreated, hok⟩
        · rw [GpuM.bind_error herror]
          exact hready.reaches rfl
        · rw [GpuM.bind_ok hok]
          apply (hready.reaches (t := t) rfl).trans
          rcases call.declines_cases { t with created := true } with
            ⟨e, herror⟩ | hshort | ⟨henough, hmemory⟩
          · rw [GpuM.bind_error herror]
            exact hready.reaches_self
          · rw [GpuM.bind_ok hshort]
            exact hready.reaches_self
          · rw [GpuM.bind_ok henough]
            apply call.grown_reaches corpus hready
            · exact ⟨havailable, hclusters, hdocs, hnnz, ⟨corpus, hcorpus⟩, .inl rfl, hmemory⟩
            · intro _
              apply hsafe
              exact ⟨havailable, hclusters, hdocs, hnnz, ⟨corpus, hcorpus⟩, hcreated, hmemory⟩

theorem summarizeList_reaches (call : SummarizeCall) {t : GpuThread} (h : t.Ready)
    (hsafe : call.Safe t) : t.Reaches (call.summarizeList F t).1 := by
  unfold summarizeList
  split
  · exact h.reaches_self
  · rename_i hcall
    obtain ⟨havailable, hclusters⟩ := not_or.mp hcall
    have himpl := call.summarizeListImpl_reaches (F := F) h hsafe (eq_true_of_ne_false havailable)
      hclusters
    rcases hr : call.summarizeListImpl F t with ⟨t', e | out⟩
    · rw [hr] at himpl
      exact himpl
    · rw [hr] at himpl
      exact himpl

end SummarizeCall

/-- A thread that has not called yet is ready. -/
theorem GpuThread.start_ready : GpuThread.start.Ready where
  null := rfl
  unused := fun _ _ => rfl
  live := fun _ h => absurd rfl h
  distinct := fun _ _ h => absurd rfl h
  together := rfl
  acc := fun _ => rfl
  seen := fun _ => rfl

section Runs

variable [Zero F] [Add F] [FloatFormat F]

/-- A run whose calls go well keeps the thread ready and its kernels clean. -/
theorem GpuThread.run_reaches (calls : List SummarizeCall) {t : GpuThread} (h : t.Ready)
    (hsafe : SummarizeCall.SafeRun F t calls) : t.Reaches (t.run F calls) := by
  induction calls generalizing t with
  | nil => exact h.reaches_self
  | cons call calls ih =>
      have hstep : t.Reaches (call.summarizeList F t).1 := call.summarizeList_reaches h hsafe.1
      exact hstep.trans (ih hstep.1 hsafe.2)

/-- **Every kernel starts clean** in a run of a thread whose calls go well: `acc` and `seen` are live,
large enough and zero, and every buffer is live and as large as recorded. -/
theorem run_launches_clean (calls : List SummarizeCall)
    (hsafe : SummarizeCall.SafeRun F .start calls) :
    ∀ l ∈ (GpuThread.start.run F calls).launches, l.Clean := by
  obtain ⟨-, new, hnew, hclean⟩ := GpuThread.run_reaches calls GpuThread.start_ready hsafe
  intro l hl
  rw [hnew] at hl
  exact hclean l hl

end Runs

/-- A device that does all it is asked to; fresh memory holds sevens. -/
def calmAnswers : DeviceAnswers :=
  ⟨true, some (1024, 1024), fun _ => some (0, [7]), fun _ => true, fun _ => true, true, true,
    "no error"⟩

/-- A call for a list of one document with one term. -/
def oneEntryCall (device : DeviceAnswers) : SummarizeCall where
  vectors := ⟨1, 1, [0, 1], [0], [[5]]⟩
  dim_pos := Nat.one_pos
  docs := [0]
  offsets := [0, 1]
  nClusters := 1
  available := true
  corpus := .ok ⟨some [0, 1], some [0], some [5], 1, 1, 1, 1, some 4096⟩
  schedule := fun _ => ⟨id, fun entries => .refl entries⟩
  device := device

theorem run_launches_clean_twice :
    (GpuThread.start.run ℤ [oneEntryCall calmAnswers, oneEntryCall calmAnswers]).launches.length = 2 ∧
    ∀ l ∈ (GpuThread.start.run ℤ [oneEntryCall calmAnswers, oneEntryCall calmAnswers]).launches,
      l.Clean :=
  ⟨by decide +kernel, run_launches_clean _
    ⟨fun _ => by decide +kernel, fun _ => by decide +kernel, trivial⟩⟩

/-- `seen` cannot be allocated when `acc` has been: the next call finds `acc` large enough and does
not zero it. -/
theorem unzeroed_accumulator_is_trusted :
    ¬ ∀ l ∈ (GpuThread.start.run ℤ
      [oneEntryCall { calmAnswers with malloc := fun b => if b = .seen then none else some (0, [7]) },
        oneEntryCall calmAnswers]).launches, l.Clean := by
  intro h
  obtain ⟨l, hl, hwords⟩ : ∃ l ∈ (GpuThread.start.run ℤ
      [oneEntryCall { calmAnswers with malloc := fun b => if b = .seen then none else some (0, [7]) },
        oneEntryCall calmAnswers]).launches,
      l.heap.lookup (l.buffers .acc).ptr = some [7] := by
    decide +kernel
  obtain ⟨words, hacc, -, hzero⟩ := (h l hl).acc
  obtain rfl := Option.some.inj (hwords.symm.trans hacc)
  exact absurd (hzero 7 (List.mem_singleton_self 7)) (by decide)

end Nsparse
