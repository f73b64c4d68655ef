/-
Nsparse/GpuMaxPool.lean

The max-pool of the GPU and that of the CPU.

The kernel compares the bits of floats as integers, the CPU compares floats.  Both take
the same maximum of the same values, below zero too, as long as no value is a NaN with
a clear sign (`WordOrder`): then, whatever the interleaving, the segment of a cluster
lists the pairs that `summarize_with_cpu_` computes (`summarizeListKernel_maxPools`).
Such a NaN is above every number for the kernel, and not met for the CPU.
-/
import Nsparse.SummarizeKernel
import Nsparse.Lib.Binary32

namespace Nsparse

variable {F : Type} [Ring F] [LT F] [DecidableLT F] [FloatFormat F]

/-! ### Floats as their bits -/

/-- `float`, as 32 bits with the order of IEEE 754; its sums are exact. -/
def ValueType.binary32 (F : Type) [Ring F] [LT F] [DecidableLT F] [FloatFormat F] :
    ValueType F where
  T := ℕ
  decode := Wire.leNat
  encode := Wire.leBytes U32
  zero := 0
  gt := Binary32.gt
  toFloat bits := FloatFormat.ofBits (Wire.leBytes U32 bits)
  sub a b := FloatFormat.ofBits (Wire.leBytes U32 a) - FloatFormat.ofBits (Wire.leBytes U32 b)
  Acc := F
  accZero := 0
  mulAdd acc a b :=
    acc + FloatFormat.ofBits (Wire.leBytes U32 a) * FloatFormat.ofBits (Wire.leBytes U32 b)
  accGt a b := decide (b < a)

/-- The type that `summarize_with_cpu_` is instantiated with. -/
def poolType (F : Type) [Ring F] [LT F] [DecidableLT F] [FloatFormat F] (elementSize : ℕ) :
    ValueType F :=
  if elementSize = U32 then .binary32 F else .uint F U8

/-- The differences of whole numbers are exact. -/
def ExactDifferences (F : Type) [Ring F] [FloatFormat F] : Prop :=
  ∀ i j : ℤ, (FloatFormat.ofInt (i - j) : F) = FloatFormat.ofInt i - FloatFormat.ofInt j

theorem poolType_sub (hF : ExactDifferences F) (elementSize : ℕ)
    (a b : (poolType F elementSize).T) : (poolType F elementSize).sub a b
      = (poolType F elementSize).toFloat a - (poolType F elementSize).toFloat b := by
  revert a b
  by_cases h : elementSize = U32
  · have hfloat : poolType F elementSize = .binary32 F := if_pos h
    rw [hfloat]
    exact fun _ _ => rfl
  · have huint : poolType F elementSize = .uint F U8 := if_neg h
    rw [huint]
    exact fun (a b : ℕ) => hF a b

/-! ### The largest value -/

/-- The largest of the values of a term and 0: nothing is above it. -/
structure IsPeak (vt : ValueType F) (entries : SparseRow Code) (term : ℕ) (x : vt.T) : Prop where
  among : x = vt.zero ∨ ∃ entry ∈ entries, entry.1 = term ∧ vt.decode entry.2 = x
  above_zero : vt.gt vt.zero x = false
  above : ∀ entry ∈ entries, entry.1 = term → vt.gt (vt.decode entry.2) x = false

/-- **The words of `acc` are ordered as the values**, while the accumulator holds what it can
(`Held`): the larger of two values has the larger word. -/
structure WordOrder (vt : ValueType F) (Ok : Code → Prop) (wordOf : Code → ℤ) (word : vt.T → ℤ)
    (Held : vt.T → Prop) : Prop where
  zero : word vt.zero = 0
  held_zero : Held vt.zero
  held : ∀ {x code}, Held x → Ok code → Held (if vt.gt (vt.decode code) x then vt.decode code else x)
  max : ∀ {x code}, Held x → Ok code →
    word (if vt.gt (vt.decode code) x then vt.decode code else x) = Max.max (word x) (wordOf code)
  zero_gt : ∀ {x}, Held x → vt.gt vt.zero x = false
  gt : ∀ {x code}, Held x → Ok code → wordOf code ≤ word x → vt.gt (vt.decode code) x = false

section Words

omit [Ring F] [LT F] [DecidableLT F] [FloatFormat F]

variable {vt : ValueType F} {Ok : Code → Prop} {wordOf : Code → ℤ} {word : vt.T → ℤ}
  {Held : vt.T → Prop}

theorem WordOrder.mono {Ok' : Code → Prop} (h : WordOrder vt Ok wordOf word Held)
    (hok : ∀ code, Ok' code → Ok code) : WordOrder vt Ok' wordOf word Held where
  zero := h.zero
  held_zero := h.held_zero
  held := fun hx hcode => h.held hx (hok _ hcode)
  max := fun hx hcode => h.max hx (hok _ hcode)
  zero_gt := h.zero_gt
  gt := fun hx hcode => h.gt hx (hok _ hcode)

/-- The word of the best value of a term is the largest of its words and 0. -/
theorem WordOrder.best (h : WordOrder vt Ok wordOf word Held) {entries : SparseRow Code}
    (hok : ∀ entry ∈ entries, Ok entry.2) (term : ℕ) :
    Held (best vt entries term) ∧ 0 ≤ word (best vt entries term) ∧
      (word (best vt entries term) = 0 ∨
        ∃ entry ∈ entries, entry.1 = term ∧ wordOf entry.2 = word (best vt entries term)) ∧
      ∀ entry ∈ entries, entry.1 = term → wordOf entry.2 ≤ word (best vt entries term) := by
  induction entries using List.reverseRecOn with
  | nil =>
      have hzero : word (Nsparse.best vt [] term) = 0 := h.zero
      exact ⟨h.held_zero, hzero.ge, .inl hzero, fun _ hmem => absurd hmem List.not_mem_nil⟩
  | append_singleton entries last ih =>
      obtain ⟨hheld, hnonneg, hamong, habove⟩ := ih fun entry hentry =>
        hok entry (List.mem_append_left _ hentry)
      have hlast := hok last (List.mem_append_right _ (List.mem_singleton_self last))
      rw [best_append]
      by_cases hterm : last.1 = term
      · -- the larger one
        have hmax := h.max hheld hlast
        rw [if_pos hterm]
        refine ⟨h.held hheld hlast, ?_, ?_, ?_⟩
        · rw [hmax]
          exact hnonneg.trans (le_max_left _ _)
        · rw [hmax]
          rcases max_choice (word (Nsparse.best vt entries term)) (wordOf last.2) with heq | heq
          · rw [heq]
            refine hamong.imp id ?_
            rintro ⟨entry, hentry, hfound⟩
            exact ⟨entry, List.mem_append_left _ hentry, hfound⟩
          · rw [heq]
            exact .inr ⟨last, List.mem_append_right _ (List.mem_singleton_self _), hterm, rfl⟩
        · intro entry hentry hof
          rw [hmax]
          rcases List.mem_append.mp hentry with hentry | hentry
          · exact (habove entry hentry hof).trans (le_max_left _ _)
          · rw [List.mem_singleton.mp hentry]
            exact le_max_right _ _
      · rw [if_neg hterm]
        refine ⟨hheld, hnonneg, hamong.imp id ?_, ?_⟩
        · rintro ⟨entry, hentry, hfound⟩
          exact ⟨entry, List.mem_append_left _ hentry, hfound⟩
        · intro entry hentry hof
          rcases List.mem_append.mp hentry with hentry | hentry
          · exact habove entry hentry hof
          · rw [List.mem_singleton.mp hentry] at hof
            exact absurd hof hterm

/-- It is one of the values, or 0. -/
theorem best_among (vt : ValueType F) (entries : SparseRow Code) (term : ℕ) :
    best vt entries term = vt.zero ∨
      ∃ entry ∈ entries, entry.1 = term ∧ vt.decode entry.2 = best vt entries term := by
  induction entries using List.reverseRecOn with
  | nil => exact .inl rfl
  | append_singleton entries last ih =>
      have hkeep : best vt entries term = vt.zero ∨ ∃ entry ∈ entries ++ [last],
          entry.1 = term ∧ vt.decode entry.2 = best vt entries term := by
        refine ih.imp id ?_
        rintro ⟨entry, hentry, hfound⟩
        exact ⟨entry, List.mem_append_left _ hentry, hfound⟩
      rw [best_append]
      split
      · rename_i hterm
        split
        · exact .inr ⟨last, List.mem_append_right _ (List.mem_singleton_self _), hterm, rfl⟩
        · exact hkeep
      · exact hkeep

/-- So it is the largest value. -/
theorem WordOrder.isPeak (h : WordOrder vt Ok wordOf word Held) {entries : SparseRow Code}
    (hok : ∀ entry ∈ entries, Ok entry.2) (term : ℕ) :
    IsPeak vt entries term (Nsparse.best vt entries term) := by
  obtain ⟨hheld, -, -, habove⟩ := h.best hok term
  refine ⟨best_among vt entries term, h.zero_gt hheld, fun entry hentry hterm => ?_⟩
  exact h.gt hheld (hok entry hentry) (habove entry hentry hterm)

end Words

/-- A float as a word is its bits as an integer. -/
theorem accWord_float {code : Code} (h : code.length = U32) :
    accWord U32 code = Binary32.toInt (Wire.leNat code) := by
  have hlt : Wire.leNat code < 2 ^ 32 := by
    have hbound := Wire.leNat_lt code
    rwa [h] at hbound
  rw [accWord, if_pos rfl, Binary32.toInt]
  split
  · rename_i hsmall
    exact toIdx_eq_self_iff.mpr hsmall
  · rw [toIdx, BitVec.toInt_ofInt, Int.bmod_def]
    norm_num
    omega

/-- The floats but the NaNs with a clear sign. -/
theorem wordOrder_binary32 : WordOrder (.binary32 F)
    (fun code => code.length = U32 ∧ ¬ Binary32.PositiveNan (Wire.leNat code))
    (accWord U32) Binary32.toInt Binary32.Plain where
  zero := rfl
  held_zero := Binary32.Plain.zero
  held := fun hx hcode => hx.max hcode.2
  max := by
    intro x code hx hcode
    have hlt : Wire.leNat code < 2 ^ 32 := by
      have hbound := Wire.leNat_lt code
      rwa [hcode.1] at hbound
    rw [accWord_float hcode.1]
    exact Binary32.toInt_max hx hcode.2 hlt
  zero_gt := Binary32.zero_gt
  gt := by
    intro x code hx hcode hle
    rw [accWord_float hcode.1] at hle
    exact Binary32.gt_of_toInt_le hx hcode.2 hle

omit [Ring F] [LT F] [DecidableLT F] in
/-- The codes of one byte. -/
theorem wordOrder_uint : WordOrder (.uint F U8) (fun _ => True) (accWord U8)
    (fun n : ℕ => (n : ℤ)) fun _ => True where
  zero := rfl
  held_zero := trivial
  held := fun _ _ => trivial
  max := by
    intro x code _ _
    have hmax : ∀ n : ℕ,
        (((if decide (n < Wire.leNat code) = true then Wire.leNat code else n) : ℕ) : ℤ)
          = Max.max (n : ℤ) (Wire.leNat code : ℤ) := by
      intro n
      simp only [decide_eq_true_eq]
      rw [← Nat.cast_max, max_def_lt]
    exact hmax x
  zero_gt := by
    intro x _
    have hzero : ∀ n : ℕ, decide (n < 0) = false := fun n => decide_eq_false (Nat.not_lt_zero n)
    exact hzero x
  gt := by
    intro x code _ _ hle
    have hgt : ∀ n : ℕ, (Wire.leNat code : ℤ) ≤ n → decide (n < Wire.leNat code) = false :=
      fun n hn => decide_eq_false (not_lt.mpr (Int.ofNat_le.mp hn))
    exact hgt x hle

/-! ### The pairs of the CPU -/

section Cpu

variable {vt : ValueType F}

/-- What `summarize_with_cpu_` has of each cluster before it cuts: the pairs and their sum. -/
def cpuPools (vt : ValueType F) (vectors : SparseVectors Code) :
    ℕ → List (List ℤ) → List vt.T → List ℕ → List (List (ℕ × vt.T) × F)
  | _, [], _, _ => []
  | i, docIds :: clusters, acc, epoch =>
      let s := poolCluster vt vectors ((i + 1) % 2 ^ 32) ⟨acc, epoch, [], 0⟩ docIds
      (s.touched.map fun term => (term, s.acc.getD term vt.zero), s.sum)
        :: cpuPools vt vectors (i + 1) clusters s.acc s.epoch

omit [LT F] [DecidableLT F] in
/-- It emits them one after the other. -/
theorem summarizeClusters_eq_foldl (sort : StdSort) (vectors : SparseVectors Code) (alpha : F)
    (clusters : List (List ℤ)) (i : ℕ) (acc : List vt.T) (epoch : List ℕ)
    (out : SparseVectors Code) :
    summarizeClusters vt sort vectors alpha i clusters acc epoch out
      = (cpuPools vt vectors i clusters acc epoch).foldl
          (fun out pool => summarizeEmitCluster vt sort pool.1 pool.2 alpha out) out := by
  induction clusters generalizing i acc epoch out with
  | nil => rfl
  | cons docIds clusters ih => exact ih _ _ _ _

/-- The pairs of a cluster with these entries, and their sum. -/
def pooled (vt : ValueType F) (entries : SparseRow Code) : List (ℕ × vt.T) × F :=
  ((termsMet entries).map fun term => (term, best vt entries term),
    ((termsMet entries).map fun term => vt.toFloat (best vt entries term)).sum)

omit [LT F] [DecidableLT F] [FloatFormat F] in
/-- **The CPU computes them** cluster by cluster, whatever its buffers hold from the last one. -/
theorem cpuPools_eq (hsub : ∀ a b, vt.sub a b = vt.toFloat a - vt.toFloat b)
    {vectors : SparseVectors Code} {clusters : List (List ℤ)} {i : ℕ} {acc : List vt.T}
    {epoch : List ℕ}
    (hterms : ∀ docIds ∈ clusters, ∀ entry ∈ clusterEntries vectors docIds,
      entry.1 < vectors.dimension)
    (hcount : i + clusters.length < 2 ^ 32) (hacc : acc.length = vectors.dimension)
    (hepoch : epoch.length = vectors.dimension) (hover : ∀ term, epoch.getD term 0 ≤ i) :
    cpuPools vt vectors i clusters acc epoch
      = clusters.map fun docIds => pooled vt (clusterEntries vectors docIds) := by
  induction clusters generalizing i acc epoch with
  | nil => rfl
  | cons docIds clusters ih =>
      obtain ⟨hfirst, hrest⟩ := List.forall_mem_cons.mp hterms
      rw [List.length_cons] at hcount
      have hcur : (i + 1) % 2 ^ 32 = i + 1 := Nat.mod_eq_of_lt (by omega)
      have hfresh : ∀ term, epoch.getD term 0 ≠ i + 1 := fun term heq =>
        absurd (hover term) (by omega)
      have hstart : PooledBest vt vectors.dimension (i + 1) epoch [] ⟨acc, epoch, [], 0⟩ :=
        ⟨hacc, hepoch, rfl, nofun, fun _ _ => rfl, nofun, rfl⟩
      have hpooled := hstart.run hsub hfresh hfirst
      rw [List.nil_append] at hpooled
      have hover' : ∀ term, ((clusterEntries vectors docIds).foldl (poolEntry vt (i + 1))
          ⟨acc, epoch, [], 0⟩).epoch.getD term 0 ≤ i + 1 := by
        intro term
        by_cases hmet : term ∈ termsMet (clusterEntries vectors docIds)
        · exact (hpooled.marked term hmet).le
        · rw [hpooled.unmarked term hmet]
          exact (hover term).trans (Nat.le_succ i)
      rw [cpuPools, hcur, poolCluster_eq, List.map_cons, ih hrest (by omega) hpooled.acc_length hpooled.epoch_length hover']
      refine congrArg (· :: _) (Prod.ext ?_ hpooled.sum)
      rw [hpooled.touched]
      exact List.map_congr_left fun term hterm => Prod.ext rfl (hpooled.values term hterm)

end Cpu

/-! ### The segments -/

namespace PoolLaunch

variable (launch : PoolLaunch)

/-- No float of the store is a NaN with a clear sign. -/
def NoPositiveNan : Prop :=
  launch.call.vectors.elementSize = U32 →
    ∀ code ∈ launch.call.vectors.values, ¬ Binary32.PositiveNan (Wire.leNat code)

/-- The type of the values of the store. -/
abbrev values (F : Type) [Ring F] [LT F] [DecidableLT F] [FloatFormat F] : ValueType F :=
  poolType F launch.call.vectors.elementSize

/-- The pairs in the segment of cluster `b`. -/
def gpuPairs (m : PoolMemory F) (b : ℕ) : List (ℕ × F) :=
  (List.range (m.outCount b)).map fun k =>
    (m.outTerm (launch.obase b + k), m.outVal (launch.obase b + k))

/-- The pairs of each cluster and their sums, by `summarize_with_cpu_`. -/
def cpuPairs (F : Type) [Ring F] [LT F] [DecidableLT F] [FloatFormat F] :
    List (List (ℕ × (launch.values F).T) × F) :=
  cpuPools (launch.values F) launch.call.vectors 0
    ((List.range launch.call.nClusters).map launch.call.clusterDocs)
    (List.replicate launch.dim (launch.values F).zero) (List.replicate launch.dim 0)

/-- **The kernel has pooled every cluster** as the CPU does. -/
structure MaxPools (before after : PoolMemory F) : Prop where
  clean : after.Clean
  inside : ∀ p, (∀ b < launch.call.nClusters, ∀ k < launch.segment b, p ≠ launch.obase b + k) →
    after.outTerm p = before.outTerm p ∧ after.outVal p = before.outVal p
  nodup : ∀ b < launch.call.nClusters, ((launch.gpuPairs after b).map Prod.fst).Nodup
  terms : ∀ b < launch.call.nClusters, ∀ term,
    term ∈ (launch.gpuPairs after b).map Prod.fst ↔ term ∈ (launch.clusterEntries b).map Prod.fst
  maxima : ∀ b < launch.call.nClusters, ∀ pair ∈ launch.gpuPairs after b,
    ∃ x, IsPeak (launch.values F) (launch.clusterEntries b) pair.1 x ∧
      pair.2 = (launch.values F).toFloat x
  count : ∀ b < launch.call.nClusters,
    after.outCount b = (termsMet (launch.clusterEntries b)).length
  sum : ∀ b < launch.call.nClusters,
    after.outSum b = ((launch.gpuPairs after b).map Prod.snd).sum
  cpu : ∀ b < launch.call.nClusters, ∃ pool, (launch.cpuPairs F)[b]? = some pool ∧
    (launch.gpuPairs after b).Perm
      (pool.1.map fun pair => (pair.1, (launch.values F).toFloat pair.2)) ∧
    after.outSum b = pool.2

/-- They are what it emits. -/
theorem summarizeWithCpu_eq_cpuPairs (sort : StdSort) (alpha : F) :
    summarizeWithCpu (launch.values F) sort launch.call.vectors
        ((List.range launch.call.nClusters).map launch.call.clusterDocs) alpha
      = (launch.cpuPairs F).foldl
          (fun out pool => summarizeEmitCluster (launch.values F) sort pool.1 pool.2 alpha out)
          ⟨launch.call.vectors.elementSize, launch.dim, [], [], []⟩ :=
  summarizeClusters_eq_foldl sort _ alpha _ _ _ _ _

variable {launch} {b : ℕ}

/-- A word that is read back is the value. -/
theorem exists_words (hnan : launch.NoPositiveNan) :
    ∃ (word : (launch.values F).T → ℤ) (Held : (launch.values F).T → Prop),
      WordOrder (launch.values F) (fun code => code ∈ launch.call.vectors.values)
        (accWord launch.call.vectors.elementSize) word Held ∧
      ∀ x, Held x → readMax F launch.corpus.elementSize (word x) = (launch.values F).toFloat x := by
  have hcodes : ∀ code ∈ launch.call.vectors.values,
      code.length = launch.call.vectors.elementSize := launch.vectors ▸ launch.store.codes
  have hsize : launch.corpus.elementSize = launch.call.vectors.elementSize :=
    launch.shows.elementSize.trans (congrArg _ launch.vectors)
  rcases launch.width with hwidth | hwidth
  · have hvalues : launch.values F = .binary32 F := if_pos hwidth
    rw [hsize, hvalues, hwidth]
    refine ⟨Binary32.toInt, Binary32.Plain,
      wordOrder_binary32.mono fun code hcode => ⟨hwidth ▸ hcodes code hcode, hnan hwidth code hcode⟩,
      fun (bits : ℕ) hbits => ?_⟩
    have hword : Binary32.toInt bits = bits := if_pos hbits.1
    have hmod : ((bits : ℤ) % 2 ^ 32).toNat = bits := by
      have hlt := hbits.1
      omega
    show (if U32 = U32 then _ else _) = _
    rw [if_pos rfl, hword, ofWord, hmod]
    rfl
  · have hvalues : launch.values F = .uint F U8 := if_neg (by rw [hwidth]; decide)
    rw [hsize, hvalues, hwidth]
    exact ⟨fun n : ℕ => (n : ℤ), fun _ => True, wordOrder_uint.mono fun _ _ => trivial,
      fun _ _ => rfl⟩

/-- A value of a cluster is one of the store. -/
theorem code_mem {entry : ℕ × Code} (h : entry ∈ launch.clusterEntries b) :
    entry.2 ∈ launch.call.vectors.values := by
  obtain ⟨d, -, hd⟩ := List.mem_flatMap.mp h
  have hmem : entry ∈ launch.call.vectors.entries := List.mem_of_mem_drop (List.mem_of_mem_take hd)
  exact (List.of_mem_zip hmem).2

/-- The top of a key is the word of the best value. -/
theorem isTop_best {word : (launch.values F).T → ℤ} {Held : (launch.values F).T → Prop}
    (h : WordOrder (launch.values F) (fun code => code ∈ launch.call.vectors.values)
      (accWord launch.call.vectors.elementSize) word Held) (term : ℕ) :
    (launch.job F b).IsTop term (word (best (launch.values F) (launch.clusterEntries b) term)) := by
  obtain ⟨-, hnonneg, hamong, habove⟩ := h.best (fun _ => code_mem) term
  have hentry : ∀ w, (launch.job F b).Entry (term, w) ↔ ∃ entry ∈ launch.clusterEntries b,
      entry.1 = term ∧ accWord launch.call.vectors.elementSize entry.2 = w := by
    intro w
    rw [job_entry_iff, entriesOf_clusterDocs, List.mem_map]
    simp only [Prod.mk.injEq]
  refine ⟨hnonneg, hamong.imp id (hentry _).mpr, fun w hw => ?_⟩
  obtain ⟨entry, hmem, hterm, rfl⟩ := (hentry w).mp hw
  exact habove entry hmem hterm

/-- **What is in the segment of a cluster**: its terms in the order their places were claimed in, and
the best value of each. -/
theorem gpuPairs_eq (hterms : launch.TermsBelow) (hnan : launch.NoPositiveNan)
    {before : PoolMemory F} (hclean : before.Clean) {moves : List Grid.Move}
    (hdone : launch.kernel.Done (launch.kernel.run (launch.kernel.start before) moves))
    (hb : b < launch.call.nClusters) {after : PoolMemory F}
    (hafter : (launch.kernel.run (launch.kernel.start before) moves).memory = after) :
    ∃ order : List ℕ, order.Perm (termsMet (launch.clusterEntries b)) ∧ after.outCount b = order.length ∧
      launch.gpuPairs after b = order.map (fun term =>
        (term, (launch.values F).toFloat (best (launch.values F) (launch.clusterEntries b) term))) ∧
      after.outSum b = ((launch.gpuPairs after b).map Prod.snd).sum := by
  obtain ⟨word, Held, hwords, hread⟩ := exists_words (F := F) hnan
  obtain ⟨order, top, hpooled, houtSum⟩ := done_pooled hterms hclean hdone hb
  rw [hafter] at hpooled houtSum
  have htop : ∀ term, (launch.job F b).read (top term)
      = (launch.values F).toFloat (best (launch.values F) (launch.clusterEntries b) term) := by
    intro term
    rw [(hpooled.lists.tops term).unique (isTop_best hwords term)]
    exact hread _ (hwords.best (fun _ => code_mem) term).1
  have hcount : after.outCount b = order.length := hpooled.outCount
  have hlength : order.length ≤ launch.segment b :=
    length_le_segment hpooled.lists.nodup fun term => (hpooled.lists.keys term).mp
  have hpairs : launch.gpuPairs after b = order.map fun term =>
      (term, (launch.values F).toFloat (best (launch.values F) (launch.clusterEntries b) term)) := by
    unfold gpuPairs
    rw [hcount]
    apply List.ext_getElem
    · rw [List.length_map, List.length_map, List.length_range]
    · intro k hk hk'
      rw [List.length_map] at hk'
      have hplace := List.getElem?_eq_getElem hk'
      have hinside : k < launch.segment b := hk'.trans_le hlength
      have hterm := hpooled.outKey k _ hplace
      have hval := hpooled.outVal k _ hplace
      rw [htop] at hval
      rw [List.getElem_map, List.getElem_map, List.getElem_range]
      exact Prod.ext ((window_of_lt hinside).symm.trans hterm)
        ((window_of_lt hinside).symm.trans hval)
  refine ⟨order, ?_, hcount, hpairs, ?_⟩
  · apply (List.perm_ext_iff_of_nodup hpooled.lists.nodup (nodup_termsMet _)).mpr
    intro term
    rw [hpooled.lists.keys, job_key_iff, mem_termsMet]
  · rw [houtSum, hpairs, List.map_map]
    refine hpooled.sum.trans (congrArg List.sum (List.map_congr_left fun term _ => htop term))

/-- What the CPU has of a cluster. -/
theorem getElem?_cpuPairs (hF : ExactDifferences F) (hterms : launch.TermsBelow)
    (hb : b < launch.call.nClusters) :
    (launch.cpuPairs F)[b]? = some (pooled (launch.values F) (launch.clusterEntries b)) := by
  have hgrid := launch.grid_lt
  have hover : ∀ term, (List.replicate launch.dim 0).getD term 0 ≤ 0 := by
    intro term
    rw [List.getD_eq_getElem?_getD, List.getElem?_replicate]
    split
    · exact le_rfl
    · exact le_rfl
  have hpools : launch.cpuPairs F
      = ((List.range launch.call.nClusters).map launch.call.clusterDocs).map fun docIds =>
          pooled (launch.values F) (Nsparse.clusterEntries launch.call.vectors docIds) := by
    refine cpuPools_eq (poolType_sub hF launch.call.vectors.elementSize) ?_ ?_
      List.length_replicate List.length_replicate hover
    · intro docIds hdocIds entry hentry
      obtain ⟨c, -, rfl⟩ := List.mem_map.mp hdocIds
      exact hterms.cluster hentry
    · rw [List.length_map, List.length_range]
      omega
  rw [hpools, List.map_map, List.getElem?_map, List.getElem?_range hb]
  rfl

/-- **The max-pool kernel has no races in its result.**  From clean buffers, in any interleaving of
the accesses of all threads of all blocks: no step writes outside the slots and the segment of its
block, every run can be completed, and when all threads have returned the segments hold what
`summarize_with_cpu_` computes, and the buffers are clean again. -/
theorem summarizeListKernel_maxPools (hF : ExactDifferences F) (launch : PoolLaunch)
    (hterms : launch.TermsBelow) (hnan : launch.NoPositiveNan) (before : PoolMemory F)
    (hclean : before.Clean) (moves : List Grid.Move) :
    (∀ b i s', launch.kernel.move (launch.kernel.run (launch.kernel.start before) moves)
        (.thread b i) = some s' →
      OnlyIn launch b (launch.kernel.run (launch.kernel.start before) moves).memory s'.memory) ∧
    (∃ more, launch.kernel.Done (launch.kernel.run (launch.kernel.start before) (moves ++ more))) ∧
    (launch.kernel.Done (launch.kernel.run (launch.kernel.start before) moves) →
      launch.MaxPools before (launch.kernel.run (launch.kernel.start before) moves).memory) := by
  refine ⟨fun b i s' => run_onlyIn hterms hclean moves, ?_, fun hdone => ?_⟩
  · obtain ⟨more, hmore⟩ := Grid.exists_done launch.kernel
      (launch.kernel.run (launch.kernel.start before) moves)
    refine ⟨more, ?_⟩
    rwa [Grid.run_append]
  · have hpairs := fun b (hb : b < launch.call.nClusters) =>
      gpuPairs_eq hterms hnan hclean hdone hb rfl
    have helsewhere := (kernel_holds hterms hclean moves).1
    have hcleaned := done_clean hterms hclean hdone
    generalize (launch.kernel.run (launch.kernel.start before) moves).memory = after
      at hpairs helsewhere hcleaned ⊢
    have hfst : ∀ b < launch.call.nClusters,
        ((launch.gpuPairs after b).map Prod.fst).Perm (termsMet (launch.clusterEntries b)) := by
      intro b hb
      obtain ⟨order, hperm, -, heq, -⟩ := hpairs b hb
      rw [heq, List.map_map]
      exact (List.map_id order).symm ▸ hperm
    exact
      { clean := hcleaned
        inside := helsewhere.places
        nodup := fun b hb => (hfst b hb).nodup_iff.mpr (nodup_termsMet _)
        terms := fun b hb term => (hfst b hb).mem_iff.trans mem_termsMet
        maxima := by
          intro b hb pair hpair
          obtain ⟨word, Held, hwords, -⟩ := exists_words (F := F) hnan
          obtain ⟨order, -, -, heq, -⟩ := hpairs b hb
          rw [heq] at hpair
          obtain ⟨term, -, rfl⟩ := List.mem_map.mp hpair
          exact ⟨_, hwords.isPeak (fun _ => code_mem) term, rfl⟩
        count := by
          intro b hb
          obtain ⟨order, hperm, hcount, -, -⟩ := hpairs b hb
          rw [hcount, hperm.length_eq]
        sum := by
          intro b hb
          obtain ⟨order, -, -, -, hsum⟩ := hpairs b hb
          exact hsum
        cpu := by
          intro b hb
          obtain ⟨order, hperm, -, heq, hsum⟩ := hpairs b hb
          refine ⟨_, getElem?_cpuPairs hF hterms hb, ?_, ?_⟩
          · rw [heq, pooled, List.map_map]
            exact hperm.map _
          · rw [hsum, heq, List.map_map]
            exact (hperm.map _).sum_eq }

theorem id_perm (entries : List (ℕ × ℤ)) : (id entries).Perm entries := .refl entries

/-- A launch for a document with one float. -/
def ofFloat (code : Code) (h : code.length = U32) : PoolLaunch where
  call :=
    { vectors := (oneFloatStore code h).vectors
      dim_pos := Nat.one_pos
      docs := [0]
      offsets := [0, 1]
      nClusters := 1
      available := true
      corpus := .ok (callFor code h).shown
      schedule := fun _ => ⟨id, id_perm⟩
      device := calmAnswers }
  store := oneFloatStore code h
  vectors := rfl
  corpus := (callFor code h).shown
  shows := ResidentCall.shown_shows rfl
  width := .inl rfl
  docs := by
    intro d hd
    rw [List.mem_singleton.mp hd]
    exact ⟨le_rfl, Nat.one_pos⟩
  dim_lt := (by decide : 1 < 2 ^ 31)
  grid_lt := (by decide : 1 < 2 ^ 31)
  nnz_lt := (by decide : 1 < 2 ^ 31)
  blockDim := 128
  blockDim_pos := by decide

/-- Clean buffers, with sevens where the output goes. -/
def sevens : PoolMemory ℤ :=
  ⟨fun _ => 0, fun _ => 0, fun _ => 7, fun _ => 7, fun _ => 7, fun _ => 7, fun _ => 7, fun _ => 7⟩

/-- The first thread does what there is to do. -/
def firstThread : List Grid.Move :=
  [.thread 0 0, .barrier 0, .thread 0 0, .thread 0 0, .thread 0 0, .thread 0 0, .barrier 0,
    .thread 0 0, .thread 0 0, .barrier 0, .thread 0 0, .thread 0 0, .thread 0 0, .thread 0 0,
    .thread 0 0, .thread 0 0, .barrier 0, .thread 0 0]

theorem ofFloat_termsBelow (code : Code) (h : code.length = U32) :
    (ofFloat code h).TermsBelow := by
  intro term hterm
  rw [List.mem_singleton.mp hterm]
  exact Nat.one_pos

theorem sevens_clean : sevens.Clean := fun _ => ⟨rfl, rfl⟩

/-- Two documents with term 0, and term 1 in the second of them. -/
def sharedTermStore : HostCorpus where
  vectors := ⟨U32, 2, [0, 1, 3], [0, 0, 1], [[0, 0, 128, 63], [0, 0, 0, 64], [0, 0, 128, 63]]⟩
  wellFormed := ⟨rfl, fun h => absurd h (List.cons_ne_nil _ _), fun _ => ⟨rfl, by decide, rfl⟩⟩
  nonempty := by decide
  terms := by decide
  codes := by decide

/-- A launch for the cluster of both. -/
def sharedTerm : PoolLaunch where
  call :=
    { vectors := sharedTermStore.vectors
      dim_pos := Nat.two_pos
      docs := [0, 1]
      offsets := [0, 2]
      nClusters := 1
      available := true
      corpus := .ok (ResidentCall.mk 4096 sharedTermStore calmDevice).shown
      schedule := fun _ => ⟨id, id_perm⟩
      device := calmAnswers }
  store := sharedTermStore
  vectors := rfl
  corpus := (ResidentCall.mk 4096 sharedTermStore calmDevice).shown
  shows := ResidentCall.shown_shows rfl
  width := .inl rfl
  docs := by decide
  dim_lt := (by decide : 2 < 2 ^ 31)
  grid_lt := (by decide : 1 < 2 ^ 31)
  nnz_lt := (by decide : 3 < 2 ^ 31)
  blockDim := 128
  blockDim_pos := by decide

/-- Both threads raise term 0 before one of them claims it, and they drain a term each. -/
def interleaved : List Grid.Move :=
  [.thread 0 0, .barrier 0,
    .thread 0 0, .thread 0 1, .thread 0 1, .thread 0 0, .thread 0 1, .thread 0 1, .thread 0 1,
    .thread 0 1, .thread 0 1, .thread 0 1, .barrier 0,
    .thread 0 0, .thread 0 0, .barrier 0,
    .thread 0 0, .thread 0 1, .thread 0 0, .thread 0 1, .thread 0 0, .thread 0 1, .thread 0 1,
    .thread 0 0, .thread 0 0, .thread 0 1, .thread 0 1, .thread 0 0, .barrier 0, .thread 0 0]

theorem interleaved_done :
    sharedTerm.kernel.Done (sharedTerm.kernel.run (sharedTerm.kernel.start sevens) interleaved) ∧
      sharedTerm.gpuPairs (sharedTerm.kernel.run (sharedTerm.kernel.start sevens)
        interleaved).memory 0 = [(0, 2), (1, 1)] := by
  decide +kernel

theorem summarizeListKernel_maxPools_shared_term :
    sharedTerm.gpuPairs (sharedTerm.kernel.run (sharedTerm.kernel.start sevens)
        interleaved).memory 0 = [(0, 2), (1, 1)] ∧
      sharedTerm.MaxPools sevens (sharedTerm.kernel.run (sharedTerm.kernel.start sevens)
        interleaved).memory := by
  obtain ⟨hdone, hpairs⟩ := interleaved_done
  have hterms : sharedTerm.TermsBelow := show ∀ term ∈ [0, 0, 1], term < 2 by decide
  have hnan : sharedTerm.NoPositiveNan := fun _ => by
    show ∀ code ∈ sharedTermStore.vectors.values, _
    decide
  obtain ⟨-, -, hpools⟩ := summarizeListKernel_maxPools (F := ℤ) (fun _ _ => rfl)
    sharedTerm hterms hnan sevens sevens_clean interleaved
  exact ⟨hpairs, hpools hdone⟩
/-- A NaN with a clear sign is above every number for the kernel, and the CPU does not take it. -/
theorem nan_is_pooled :
    ¬ ∀ (launch : PoolLaunch) (before : PoolMemory ℤ) (moves : List Grid.Move),
      launch.TermsBelow → before.Clean →
      launch.kernel.Done (launch.kernel.run (launch.kernel.start before) moves) →
      launch.MaxPools before (launch.kernel.run (launch.kernel.start before) moves).memory := by
  intro h
  have hpools := h (ofFloat [0, 0, 192, 127] rfl) sevens firstThread (ofFloat_termsBelow _ rfl)
    sevens_clean (by decide +kernel)
  obtain ⟨pool, hpool, hperm, -⟩ := hpools.cpu 0 Nat.one_pos
  rw [getElem?_cpuPairs (fun _ _ => rfl) (ofFloat_termsBelow _ rfl) Nat.one_pos] at hpool
  obtain rfl := Option.some_inj.mp hpool
  have hgpu : (ofFloat [0, 0, 192, 127] rfl).gpuPairs
      ((ofFloat [0, 0, 192, 127] rfl).kernel.run ((ofFloat [0, 0, 192, 127] rfl).kernel.start sevens)
        firstThread).memory 0 = [(0, 12582912 * 2 ^ 105)] := by decide +kernel
  have hcpu : ((pooled ((ofFloat [0, 0, 192, 127] rfl).values ℤ)
      ((ofFloat [0, 0, 192, 127] rfl).clusterEntries 0)).1.map fun pair =>
        (pair.1, ((ofFloat [0, 0, 192, 127] rfl).values ℤ).toFloat pair.2)) = [(0, 0)] := by
    decide +kernel
  rw [hgpu, hcpu, List.perm_singleton] at hperm
  exact absurd hperm (by decide)

end PoolLaunch

end Nsparse
