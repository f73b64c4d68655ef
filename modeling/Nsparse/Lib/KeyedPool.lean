/-
Nsparse/Lib/KeyedPool.lean

A block of threads that pools values by key.

In the first phase the threads raise the peak of every key they meet; whoever finds the
flag of a key down claims the next place of the output for it.  In the second phase the
places are shared out again: the threads read the peak of the key at each place, emit
and add it, and put peak and flag back.  Between the phases the first thread alone
looks after the counters.

`Filling` and `Draining` say what the memory and the threads at work know of each
other, `Inv` what holds in which phase.  Every step keeps it (`Inv.step`), and every
barrier does (`Inv.barrier`).  When the last phase is over the output lists every key
once, with the largest of its values, in the order the places were claimed in, and all
peaks and flags are as they were before (`Inv.pooled`).
-/
import Nsparse.Lib.Grid

namespace KeyedPool

variable {κ V α : Type*}

/-! ### The machine -/

/-- What a block works on. -/
structure Memory (κ V α : Type*) where
  peak : κ → V
  flag : κ → Bool
  outKey : ℕ → κ
  outVal : ℕ → α
  count : ℕ
  sum : α
  outCount : ℕ
  outSum : α

/-- A thread of the first phase, with the entries left to it: it raises a peak, touches the flag of
the key, claims a place for it and writes it there. -/
inductive Fill (κ V : Type*)
  | raise (left : List (κ × V))
  | touch (key : κ) (left : List (κ × V))
  | claim (key : κ) (left : List (κ × V))
  | write (place : ℕ) (key : κ) (left : List (κ × V))

/-- A thread of the second phase, with the places left to it: it fetches the key of a place, reads
the peak, emits it, adds it, clears the peak and lowers the flag. -/
inductive Drain (κ α : Type*)
  | fetch (left : List ℕ)
  | read (place : ℕ) (key : κ) (left : List ℕ)
  | emit (place : ℕ) (key : κ) (x : α) (left : List ℕ)
  | add (place : ℕ) (key : κ) (x : α) (left : List ℕ)
  | clear (place : ℕ) (key : κ) (left : List ℕ)
  | lower (place : ℕ) (key : κ) (left : List ℕ)

inductive Thread (κ V α : Type*)
  | wait
  | zeroCount
  | fill (f : Fill κ V)
  | zeroSum
  | storeCount
  | drain (d : Drain κ α)
  | storeSum

/-- The threads, the entries of each, and how a peak is read. -/
structure Job (κ V α : Type*) where
  threads : ℕ
  threads_pos : 0 < threads
  entries : ℕ → List (κ × V)
  read : V → α

/-- Every `n`th element, from the `i`th on. -/
def strided {β : Type*} (n i : ℕ) (l : List β) : List β :=
  (l.zipIdx.filter fun x => x.2 % n = i).map Prod.fst

section Machine

variable [DecidableEq κ] [LinearOrder V] [Zero V] [Add α] [Zero α]

def fillStep (m : Memory κ V α) : Fill κ V → Option (Memory κ V α × Fill κ V)
  | .raise [] => none
  | .raise (entry :: left) =>
      some ({ m with peak := Function.update m.peak entry.1 (max (m.peak entry.1) entry.2) },
        .touch entry.1 left)
  | .touch key left =>
      if m.flag key then some (m, .raise left)
      else some ({ m with flag := Function.update m.flag key true }, .claim key left)
  | .claim key left => some ({ m with count := m.count + 1 }, .write m.count key left)
  | .write place key left =>
      some ({ m with outKey := Function.update m.outKey place key }, .raise left)

def drainStep (read : V → α) (m : Memory κ V α) : Drain κ α → Option (Memory κ V α × Drain κ α)
  | .fetch [] => none
  | .fetch (place :: left) => some (m, .read place (m.outKey place) left)
  | .read place key left => some (m, .emit place key (read (m.peak key)) left)
  | .emit place key x left =>
      some ({ m with outVal := Function.update m.outVal place x }, .add place key x left)
  | .add place key x left => some ({ m with sum := m.sum + x }, .clear place key left)
  | .clear place key left =>
      some ({ m with peak := Function.update m.peak key 0 }, .lower place key left)
  | .lower _ key left =>
      some ({ m with flag := Function.update m.flag key false }, .fetch left)

/-- One step of a thread. -/
def step (read : V → α) (m : Memory κ V α) : Thread κ V α → Option (Memory κ V α × Thread κ V α)
  | .wait => none
  | .zeroCount => some ({ m with count := 0 }, .wait)
  | .fill f => (fillStep m f).map fun r => (r.1, .fill r.2)
  | .zeroSum => some ({ m with sum := 0 }, .storeCount)
  | .storeCount => some ({ m with outCount := m.count }, .wait)
  | .drain d => (drainStep read m d).map fun r => (r.1, .drain r.2)
  | .storeSum => some ({ m with outSum := m.sum }, .wait)

/-- What thread `i` begins a phase with. -/
def enter (entries : ℕ → List (κ × V)) (n phase i count : ℕ) : Thread κ V α :=
  match phase with
  | 0 => if i = 0 then .zeroCount else .wait
  | 1 => .fill (.raise (entries i))
  | 2 => if i = 0 then .zeroSum else .wait
  | 3 => .drain (.fetch (strided n i (List.range count)))
  | _ => if i = 0 then .storeSum else .wait

end Machine

/-! ### Every `n`th element -/

section Strided

variable {β : Type*} {n i : ℕ}

theorem strided_concat (l : List β) (b : β) :
    strided n i (l ++ [b]) = strided n i l ++ if l.length % n = i then [b] else [] := by
  unfold strided
  rw [List.zipIdx_append, List.filter_append, List.map_append]
  congr 1
  show List.map Prod.fst (List.filter _ [(b, 0 + l.length)]) = _
  rw [Nat.zero_add]
  by_cases h : l.length % n = i
  · rw [List.filter_cons_of_pos (by simpa using h), if_pos h]
    rfl
  · rw [List.filter_cons_of_neg (by simpa using h), if_neg h]
    rfl

theorem strided_subset (l : List β) : strided n i l ⊆ l := by
  induction l using List.reverseRecOn with
  | nil => exact List.Subset.refl _
  | append_singleton l b ih =>
      rw [strided_concat]
      apply List.append_subset.mpr
      constructor
      · exact fun x hx => List.mem_append_left _ (ih hx)
      · intro x hx
        split at hx
        · exact List.mem_append_right _ hx
        · cases hx

/-- Every element goes to a thread. -/
theorem exists_mem_strided (hn : 0 < n) {l : List β} {b : β} (hb : b ∈ l) :
    ∃ i < n, b ∈ strided n i l := by
  induction l using List.reverseRecOn with
  | nil => cases hb
  | append_singleton l c ih =>
      rcases List.mem_append.mp hb with hb | hb
      · obtain ⟨i, hi, hmem⟩ := ih hb
        refine ⟨i, hi, ?_⟩
        rw [strided_concat]
        exact List.mem_append_left _ hmem
      · refine ⟨l.length % n, Nat.mod_lt _ hn, ?_⟩
        rw [strided_concat, if_pos rfl]
        exact List.mem_append_right _ hb

theorem mem_strided_range {count p : ℕ} :
    p ∈ strided n i (List.range count) ↔ p < count ∧ p % n = i := by
  induction count with
  | zero => simp [strided]
  | succ count ih =>
      rw [List.range_succ, strided_concat, List.length_range, List.mem_append, ih]
      split
      · rename_i h
        rw [List.mem_singleton]
        constructor
        · rintro (⟨hlt, hp⟩ | rfl)
          · exact ⟨hlt.trans (Nat.lt_succ_self _), hp⟩
          · exact ⟨Nat.lt_succ_self _, h⟩
        · rintro ⟨hlt, hp⟩
          rcases Nat.lt_succ_iff_lt_or_eq.mp hlt with hlt | heq
          · exact .inl ⟨hlt, hp⟩
          · exact .inr heq
      · rename_i h
        constructor
        · rintro (⟨hlt, hp⟩ | hmem)
          · exact ⟨hlt.trans (Nat.lt_succ_self _), hp⟩
          · cases hmem
        · rintro ⟨hlt, hp⟩
          rcases Nat.lt_succ_iff_lt_or_eq.mp hlt with hlt | heq
          · exact .inl ⟨hlt, hp⟩
          · exact absurd (heq ▸ hp) h

theorem nodup_strided {l : List β} (h : l.Nodup) : (strided n i l).Nodup := by
  induction l using List.reverseRecOn with
  | nil => exact List.nodup_nil
  | append_singleton l b ih =>
      rw [strided_concat]
      obtain ⟨hl, -, hdisjoint⟩ := List.nodup_append.mp h
      split
      · refine List.nodup_append.mpr ⟨ih hl, List.nodup_singleton _, fun a ha c hc => ?_⟩
        exact hdisjoint a (strided_subset l ha) c hc
      · rw [List.append_nil]
        exact ih hl

/-- The threads together add what one alone would. -/
theorem sum_strided [AddCommMonoid α] (hn : 0 < n) (f : β → α) (l : List β) :
    ∑ i ∈ Finset.range n, ((strided n i l).map f).sum = (l.map f).sum := by
  induction l using List.reverseRecOn with
  | nil =>
      apply Finset.sum_eq_zero
      intro i _
      rfl
  | append_singleton l b ih =>
      have hlast : ∑ i ∈ Finset.range n, (if l.length % n = i then f b else 0) = f b := by
        rw [Finset.sum_ite_eq, if_pos (Finset.mem_range.mpr (Nat.mod_lt _ hn))]
      rw [List.map_append, List.sum_append, ← ih, List.map_singleton, List.sum_singleton,
        ← hlast, ← Finset.sum_add_distrib]
      apply Finset.sum_congr rfl
      intro i _
      rw [strided_concat, List.map_append, List.sum_append]
      congr 1
      split
      · rw [List.map_singleton, List.sum_singleton]
      · rfl

end Strided

/-! ### What is to be found -/

namespace Job

variable (job : Job κ V α)

/-- Some thread has this entry. -/
def Entry (e : κ × V) : Prop := ∃ i < job.threads, e ∈ job.entries i

def Key (k : κ) : Prop := ∃ v, job.Entry (k, v)

/-- The largest value of a key, and 0 when none is above. -/
structure IsTop [LinearOrder V] [Zero V] (k : κ) (v : V) : Prop where
  nonneg : 0 ≤ v
  among : v = 0 ∨ job.Entry (k, v)
  above : ∀ w, job.Entry (k, w) → w ≤ v

theorem IsTop.unique [LinearOrder V] [Zero V] {job : Job κ V α} {k : κ} {v w : V}
    (hv : job.IsTop k v) (hw : job.IsTop k w) : v = w := by
  have hle : ∀ {x y : V}, job.IsTop k x → job.IsTop k y → x ≤ y := by
    intro x y hx hy
    rcases hx.among with rfl | hentry
    · exact hy.nonneg
    · exact hy.above x hentry
  exact le_antisymm (hle hv hw) (hle hw hv)

end Job

/-! ### The first phase -/

namespace Fill

/-- The entries that are not raised yet. -/
def left : Fill κ V → List (κ × V)
  | .raise left => left
  | .touch _ left => left
  | .claim _ left => left
  | .write _ _ left => left

/-- The key a thread is at. -/
def held : Fill κ V → Option κ
  | .raise _ => none
  | .touch key _ => some key
  | .claim key _ => some key
  | .write _ key _ => some key

/-- The keys whose flags a thread is going to touch. -/
def owed : Fill κ V → List κ
  | .raise left => left.map Prod.fst
  | .touch key left => key :: left.map Prod.fst
  | .claim _ left => left.map Prod.fst
  | .write _ _ left => left.map Prod.fst

/-- How many places a thread is about to claim for a key. -/
def claims [DecidableEq κ] (k : κ) : Fill κ V → ℕ
  | .claim key _ => if key = k then 1 else 0
  | _ => 0

/-- A thread is about to write a key at a place. -/
def Writes (p : ℕ) (k : κ) : Fill κ V → Prop
  | .write place key _ => place = p ∧ key = k
  | _ => False

/-- A thread works on entries of the job. -/
def Inside (job : Job κ V α) (f : Fill κ V) : Prop :=
  (∀ e ∈ f.left, job.Entry e) ∧ ∀ k ∈ f.held, job.Key k

end Fill

section Filling

variable [DecidableEq κ] [LinearOrder V] [Zero V]

/-- **While the threads fill**: `order` are the keys in the order their places were claimed in. -/
structure Filling (job : Job κ V α) (m : Memory κ V α) (fs : ℕ → Fill κ V) (order : List κ) :
    Prop where
  known : ∀ k ∈ order, job.Key k
  count : m.count = order.length
  nonneg : ∀ k, 0 ≤ m.peak k
  among : ∀ k, m.peak k = 0 ∨ job.Entry (k, m.peak k)
  raised : ∀ e, job.Entry e → e.2 ≤ m.peak e.1 ∨ ∃ i < job.threads, e ∈ (fs i).left
  touched : ∀ e, job.Entry e → m.flag e.1 = true ∨ ∃ i < job.threads, e.1 ∈ (fs i).owed
  flags : ∀ k, (if m.flag k = true then 1 else 0)
    = order.count k + ∑ i ∈ Finset.range job.threads, (fs i).claims k
  written : ∀ p k, order[p]? = some k → m.outKey p = k ∨ ∃ i < job.threads, (fs i).Writes p k
  writing : ∀ i < job.threads, ∀ p k, (fs i).Writes p k → order[p]? = some k
  inside : ∀ i < job.threads, (fs i).Inside job

variable {job : Job κ V α} {m m' : Memory κ V α} {fs : ℕ → Fill κ V} {order : List κ}

theorem Filling.start (hcount : m.count = 0) (hpeak : ∀ k, m.peak k = 0)
    (hflag : ∀ k, m.flag k = false) : Filling job m (fun i => .raise (job.entries i)) [] where
  known := fun _ h => absurd h List.not_mem_nil
  count := hcount
  nonneg := fun k => (hpeak k).ge
  among := fun k => .inl (hpeak k)
  raised := fun _ h => .inr h
  touched := by
    rintro e ⟨i, hi, he⟩
    exact .inr ⟨i, hi, List.mem_map_of_mem he⟩
  flags := by
    intro k
    rw [hflag k, List.count_nil, Nat.zero_add]
    exact (Finset.sum_eq_zero fun i _ => rfl).symm
  written := fun p k h => by cases h
  writing := fun i _ p k h => h.elim
  inside := fun i hi => ⟨fun e he => ⟨i, hi, he⟩, fun k hk => by cases hk⟩

/-- A flag is that of at most one place. -/
theorem Filling.count_le (h : Filling job m fs order) (k : κ) : order.count k ≤ 1 := by
  have hflags := h.flags k
  split at hflags
  · omega
  · omega

theorem Filling.nodup (h : Filling job m fs order) : order.Nodup :=
  List.nodup_iff_count_le_one.mpr h.count_le

omit [Zero V] in
theorem le_update_max (peak : κ → V) (key k : κ) (v : V) :
    peak k ≤ Function.update peak key (max (peak key) v) k := by
  by_cases hk : k = key
  · rw [hk, Function.update_self]
    exact le_max_left _ _
  · rw [Function.update_of_ne hk]

theorem Filling.raise (h : Filling job m fs order) {i : ℕ} {entry : κ × V} {left : List (κ × V)}
    (hi : i < job.threads) (hf : fs i = .raise (entry :: left)) :
    Filling job
      { m with peak := Function.update m.peak entry.1 (max (m.peak entry.1) entry.2) }
      (Function.update fs i (.touch entry.1 left)) order where
  known := h.known
  count := h.count
  nonneg := fun k => (h.nonneg k).trans (le_update_max ..)
  among := by
    intro k
    show Function.update m.peak entry.1 _ k = 0 ∨ job.Entry (k, Function.update m.peak entry.1 _ k)
    by_cases hk : k = entry.1
    · rw [hk, Function.update_self]
      rcases max_choice (m.peak entry.1) entry.2 with heq | heq
      · rw [heq]
        exact h.among entry.1
      · rw [heq]
        have hmem : entry ∈ (fs i).left := by
          rw [hf]
          exact List.mem_cons_self
        exact .inr ((h.inside i hi).1 entry hmem)
    · rw [Function.update_of_ne hk]
      exact h.among k
  raised := by
    intro e he
    rcases h.raised e he with hle | ⟨j, hj, hmem⟩
    · exact .inl (hle.trans (le_update_max ..))
    · by_cases hji : j = i
      · rw [hji, hf] at hmem
        rcases List.mem_cons.mp hmem with rfl | hmem
        · left
          show e.2 ≤ Function.update m.peak e.1 _ e.1
          rw [Function.update_self]
          exact le_max_right _ _
        · refine .inr ⟨i, hi, ?_⟩
          rwa [Function.update_self]
      · refine .inr ⟨j, hj, ?_⟩
        rwa [Function.update_of_ne hji]
  touched := fun e he => (h.touched e he).imp id fun hex =>
    Grid.exists_update (P := fun f : Fill κ V => e.1 ∈ f.owed) hi hex (by rw [hf]; exact id)
  flags := by
    intro k
    rw [Finset.sum_congr rfl fun j _ => Grid.update_same (F := Fill.claims k) (by rw [hf]; rfl) j]
    exact h.flags k
  written := fun p k hp => (h.written p k hp).imp id fun hex =>
    Grid.exists_update (P := Fill.Writes p k) hi hex (by rw [hf]; exact False.elim)
  writing := Grid.forall_update (P := fun f : Fill κ V => ∀ p k, f.Writes p k → order[p]? = some k)
    h.writing fun _ _ hw => hw.elim
  inside := by
    apply Grid.forall_update (P := Fill.Inside job) h.inside
    obtain ⟨hleft, -⟩ := h.inside i hi
    rw [hf] at hleft
    obtain ⟨hentry, hrest⟩ := List.forall_mem_cons.mp hleft
    refine ⟨hrest, fun k hk => ?_⟩
    obtain rfl := Option.some_inj.mp hk
    exact ⟨entry.2, hentry⟩

/-- The flag is up already. -/
theorem Filling.touch_up (h : Filling job m fs order) {i : ℕ} {key : κ} {left : List (κ × V)}
    (hi : i < job.threads) (hf : fs i = .touch key left) (hup : m.flag key = true) :
    Filling job m (Function.update fs i (.raise left)) order where
  known := h.known
  count := h.count
  nonneg := h.nonneg
  among := h.among
  raised := fun e he => (h.raised e he).imp id fun hex =>
    Grid.exists_update (P := fun f : Fill κ V => e ∈ f.left) hi hex (by rw [hf]; exact id)
  touched := by
    intro e he
    by_cases hkey : e.1 = key
    · exact .inl (hkey ▸ hup)
    · refine (h.touched e he).imp id fun hex =>
        Grid.exists_update (P := fun f : Fill κ V => e.1 ∈ f.owed) hi hex fun hmem => ?_
      rw [hf] at hmem
      exact (List.mem_cons.mp hmem).resolve_left hkey
  flags := by
    intro k
    rw [Finset.sum_congr rfl fun j _ => Grid.update_same (F := Fill.claims k) (by rw [hf]; rfl) j]
    exact h.flags k
  written := fun p k hp => (h.written p k hp).imp id fun hex =>
    Grid.exists_update (P := Fill.Writes p k) hi hex (by rw [hf]; exact False.elim)
  writing := Grid.forall_update (P := fun f : Fill κ V => ∀ p k, f.Writes p k → order[p]? = some k)
    h.writing fun _ _ hw => hw.elim
  inside := by
    apply Grid.forall_update (P := Fill.Inside job) h.inside
    obtain ⟨hleft, -⟩ := h.inside i hi
    rw [hf] at hleft
    exact ⟨hleft, fun k hk => by cases hk⟩

/-- The flag is down: nobody else has claimed a place for the key or is about to. -/
theorem Filling.touch_down (h : Filling job m fs order) {i : ℕ} {key : κ} {left : List (κ × V)}
    (hi : i < job.threads) (hf : fs i = .touch key left) (hdown : m.flag key = false) :
    Filling job { m with flag := Function.update m.flag key true }
      (Function.update fs i (.claim key left)) order where
  known := h.known
  count := h.count
  nonneg := h.nonneg
  among := h.among
  raised := fun e he => (h.raised e he).imp id fun hex =>
    Grid.exists_update (P := fun f : Fill κ V => e ∈ f.left) hi hex (by rw [hf]; exact id)
  touched := by
    intro e he
    show Function.update m.flag key true e.1 = true ∨ _
    by_cases hkey : e.1 = key
    · left
      rw [hkey, Function.update_self]
    · rw [Function.update_of_ne hkey]
      refine (h.touched e he).imp id fun hex =>
        Grid.exists_update (P := fun f : Fill κ V => e.1 ∈ f.owed) hi hex fun hmem => ?_
      rw [hf] at hmem
      exact (List.mem_cons.mp hmem).resolve_left hkey
  flags := by
    intro k
    show (if Function.update m.flag key true k = true then 1 else 0) = _
    have hflags := h.flags k
    by_cases hk : k = key
    · subst hk
      obtain ⟨others, hbefore, hafter⟩ :=
        @Grid.sum_update _ _ _ _ _ fs (.claim k left) (Fill.claims k) hi
      have hself : (Fill.claim k left).claims k = 1 := if_pos rfl
      have hnone : (fs i).claims k = 0 := by
        rw [hf]
        rfl
      rw [hdown, if_neg Bool.false_ne_true] at hflags
      rw [Function.update_self, if_pos rfl]
      omega
    · have hnone : (Fill.claim key left).claims k = (fs i).claims k := by
        rw [hf]
        exact if_neg fun heq => hk heq.symm
      rw [Function.update_of_ne hk,
        Finset.sum_congr rfl fun j _ => Grid.update_same (F := Fill.claims k) hnone j]
      exact hflags
  written := fun p k hp => (h.written p k hp).imp id fun hex =>
    Grid.exists_update (P := Fill.Writes p k) hi hex (by rw [hf]; exact False.elim)
  writing := Grid.forall_update (P := fun f : Fill κ V => ∀ p k, f.Writes p k → order[p]? = some k)
    h.writing fun _ _ hw => hw.elim
  inside := by
    apply Grid.forall_update (P := Fill.Inside job) h.inside
    have hinside := h.inside i hi
    rw [hf] at hinside
    exact hinside

/-- The next place is for the key. -/
theorem Filling.claim (h : Filling job m fs order) {i : ℕ} {key : κ} {left : List (κ × V)}
    (hi : i < job.threads) (hf : fs i = .claim key left) :
    Filling job { m with count := m.count + 1 }
      (Function.update fs i (.write m.count key left)) (order ++ [key]) where
  known := by
    intro k hk
    rcases List.mem_append.mp hk with hk | hk
    · exact h.known k hk
    · obtain rfl := List.mem_singleton.mp hk
      obtain ⟨-, hheld⟩ := h.inside i hi
      rw [hf] at hheld
      exact hheld k rfl
  count := by
    rw [List.length_append, h.count]
    rfl
  nonneg := h.nonneg
  among := h.among
  raised := fun e he => (h.raised e he).imp id fun hex =>
    Grid.exists_update (P := fun f : Fill κ V => e ∈ f.left) hi hex (by rw [hf]; exact id)
  touched := fun e he => (h.touched e he).imp id fun hex =>
    Grid.exists_update (P := fun f : Fill κ V => e.1 ∈ f.owed) hi hex (by rw [hf]; exact id)
  flags := by
    intro k
    have hflags := h.flags k
    obtain ⟨others, hbefore, hafter⟩ :=
      @Grid.sum_update _ _ _ _ _ fs (.write m.count key left) (Fill.claims k) hi
    have hnone : (Fill.write m.count key left).claims k = 0 := rfl
    have hself : (fs i).claims k = if key = k then 1 else 0 := by
      rw [hf]
      rfl
    have hcount : (order ++ [key]).count k = order.count k + if key = k then 1 else 0 := by
      rw [List.count_append, List.count_singleton]
      simp only [beq_iff_eq]
    show (if m.flag k = true then 1 else 0) = _
    rw [hcount]
    omega
  written := by
    intro p k hp
    rcases Nat.lt_or_ge p order.length with hlt | hge
    · rw [List.getElem?_append_left hlt] at hp
      exact (h.written p k hp).imp id fun hex =>
        Grid.exists_update (P := Fill.Writes p k) hi hex (by rw [hf]; exact False.elim)
    · rw [List.getElem?_append_right hge, List.getElem?_singleton] at hp
      split at hp
      · rename_i hzero
        refine .inr ⟨i, hi, ?_⟩
        rw [Function.update_self]
        exact ⟨h.count.trans (le_antisymm hge (Nat.sub_eq_zero_iff_le.mp hzero)),
          Option.some_inj.mp hp⟩
      · cases hp
  writing := by
    apply Grid.forall_update (P := fun f : Fill κ V =>
      ∀ p k, f.Writes p k → (order ++ [key])[p]? = some k)
    · intro j hj p k hw
      have hp := h.writing j hj p k hw
      rwa [List.getElem?_append_left (List.getElem?_eq_some_iff.mp hp).1]
    · rintro p k ⟨rfl, rfl⟩
      rw [h.count, List.getElem?_append_right le_rfl, Nat.sub_self]
      rfl
  inside := by
    apply Grid.forall_update (P := Fill.Inside job) h.inside
    have hinside := h.inside i hi
    rw [hf] at hinside
    exact hinside

/-- The key goes to the place that was claimed for it. -/
theorem Filling.write (h : Filling job m fs order) {i place : ℕ} {key : κ} {left : List (κ × V)}
    (hi : i < job.threads) (hf : fs i = .write place key left) :
    Filling job { m with outKey := Function.update m.outKey place key }
      (Function.update fs i (.raise left)) order where
  known := h.known
  count := h.count
  nonneg := h.nonneg
  among := h.among
  raised := fun e he => (h.raised e he).imp id fun hex =>
    Grid.exists_update (P := fun f : Fill κ V => e ∈ f.left) hi hex (by rw [hf]; exact id)
  touched := fun e he => (h.touched e he).imp id fun hex =>
    Grid.exists_update (P := fun f : Fill κ V => e.1 ∈ f.owed) hi hex (by rw [hf]; exact id)
  flags := by
    intro k
    rw [Finset.sum_congr rfl fun j _ => Grid.update_same (F := Fill.claims k) (by rw [hf]; rfl) j]
    exact h.flags k
  written := by
    intro p k hp
    show Function.update m.outKey place key p = k ∨ _
    by_cases hplace : p = place
    · left
      have hkey := h.writing i hi place key (by rw [hf]; exact ⟨rfl, rfl⟩)
      rw [hplace, hkey] at hp
      rw [hplace, Function.update_self]
      exact Option.some_inj.mp hp
    · rw [Function.update_of_ne hplace]
      refine (h.written p k hp).imp id fun hex =>
        Grid.exists_update (P := Fill.Writes p k) hi hex fun hw => ?_
      rw [hf] at hw
      exact absurd hw.1.symm hplace
  writing := Grid.forall_update (P := fun f : Fill κ V => ∀ p k, f.Writes p k → order[p]? = some k)
    h.writing fun _ _ hw => hw.elim
  inside := by
    apply Grid.forall_update (P := Fill.Inside job) h.inside
    obtain ⟨hleft, -⟩ := h.inside i hi
    rw [hf] at hleft
    exact ⟨hleft, fun k hk => by cases hk⟩

/-- **A step of the first phase.** -/
theorem Filling.step [Add α] [Zero α] (h : Filling job m fs order) {i : ℕ} {f : Fill κ V}
    (hi : i < job.threads) (hstep : fillStep m (fs i) = some (m', f)) :
    ∃ order, Filling job m' (Function.update fs i f) order := by
  rcases hf : fs i with left | ⟨key, left⟩ | ⟨key, left⟩ | ⟨place, key, left⟩
  · rw [hf] at hstep
    cases left with
    | nil => cases hstep
    | cons entry left =>
        obtain ⟨rfl, rfl⟩ := Prod.mk.inj (Option.some_inj.mp hstep)
        exact ⟨order, h.raise hi hf⟩
  · rw [hf, fillStep] at hstep
    split at hstep
    · rename_i hup
      obtain ⟨rfl, rfl⟩ := Prod.mk.inj (Option.some_inj.mp hstep)
      exact ⟨order, h.touch_up hi hf hup⟩
    · rename_i hdown
      obtain ⟨rfl, rfl⟩ := Prod.mk.inj (Option.some_inj.mp hstep)
      exact ⟨order, h.touch_down hi hf (Bool.eq_false_iff.mpr hdown)⟩
  · rw [hf] at hstep
    obtain ⟨rfl, rfl⟩ := Prod.mk.inj (Option.some_inj.mp hstep)
    exact ⟨order ++ [key], h.claim hi hf⟩
  · rw [hf] at hstep
    obtain ⟨rfl, rfl⟩ := Prod.mk.inj (Option.some_inj.mp hstep)
    exact ⟨order, h.write hi hf⟩

/-- What the output lists: every key once, and its largest value. -/
structure Lists (job : Job κ V α) (order : List κ) (top : κ → V) : Prop where
  nodup : order.Nodup
  keys : ∀ k, k ∈ order ↔ job.Key k
  tops : ∀ k, job.IsTop k (top k)

/-- **When the threads have filled.** -/
structure Filled (job : Job κ V α) (m : Memory κ V α) (order : List κ) (top : κ → V) : Prop where
  lists : Lists job order top
  count : m.count = order.length
  outKey : ∀ p k, order[p]? = some k → m.outKey p = k
  peak : ∀ k, m.peak k = top k
  flag : ∀ k, m.flag k = true → job.Key k

/-- Nothing is left to a thread that waits. -/
theorem Filling.filled (h : Filling job m fs order)
    (hwaits : ∀ i < job.threads, fs i = .raise []) : Filled job m order m.peak where
  lists := by
    have hclaims : ∀ k, ∑ i ∈ Finset.range job.threads, (fs i).claims k = 0 := by
      intro k
      apply Finset.sum_eq_zero
      intro i hi
      rw [hwaits i (Finset.mem_range.mp hi)]
      rfl
    refine ⟨h.nodup, fun k => ⟨h.known k, ?_⟩, fun k => ⟨h.nonneg k, h.among k, ?_⟩⟩
    · rintro ⟨v, hentry⟩
      -- the flag is up, so the key has its place
      have hflag : m.flag k = true := by
        refine (h.touched _ hentry).resolve_right ?_
        rintro ⟨i, hi, howed⟩
        rw [hwaits i hi] at howed
        cases howed
      have hflags := h.flags k
      rw [if_pos hflag, hclaims, Nat.add_zero] at hflags
      exact List.count_pos_iff.mp (hflags ▸ Nat.one_pos)
    · intro w hentry
      refine (h.raised _ hentry).resolve_right ?_
      rintro ⟨i, hi, hleft⟩
      rw [hwaits i hi] at hleft
      cases hleft
  count := h.count
  outKey := by
    intro p k hp
    refine (h.written p k hp).resolve_right ?_
    rintro ⟨i, hi, hw⟩
    rw [hwaits i hi] at hw
    exact hw
  peak := fun _ => rfl
  flag := by
    intro k hflag
    apply h.known
    have hflags := h.flags k
    rw [if_pos hflag, Finset.sum_eq_zero, Nat.add_zero] at hflags
    · exact List.count_pos_iff.mp (hflags ▸ Nat.one_pos)
    · intro i hi
      rw [hwaits i (Finset.mem_range.mp hi)]
      rfl

end Filling

/-! ### The second phase -/

namespace Drain

/-- The places whose flags are up. -/
def places : Drain κ α → List ℕ
  | .fetch left => left
  | .read place _ left => place :: left
  | .emit place _ _ left => place :: left
  | .add place _ _ left => place :: left
  | .clear place _ left => place :: left
  | .lower place _ left => place :: left

/-- The places whose peaks are not cleared. -/
def raised : Drain κ α → List ℕ
  | .fetch left => left
  | .read place _ left => place :: left
  | .emit place _ _ left => place :: left
  | .add place _ _ left => place :: left
  | .clear place _ left => place :: left
  | .lower _ _ left => left

/-- The places whose values are not emitted. -/
def silent : Drain κ α → List ℕ
  | .fetch left => left
  | .read place _ left => place :: left
  | .emit place _ _ left => place :: left
  | .add _ _ _ left => left
  | .clear _ _ left => left
  | .lower _ _ left => left

/-- The places whose values are not added. -/
def unadded : Drain κ α → List ℕ
  | .fetch left => left
  | .read place _ left => place :: left
  | .emit place _ _ left => place :: left
  | .add place _ _ left => place :: left
  | .clear _ _ left => left
  | .lower _ _ left => left

/-- What a thread holds belongs to its place. -/
def Holds (order : List κ) (value : κ → α) : Drain κ α → Prop
  | .fetch _ => True
  | .read place key _ => order[place]? = some key
  | .emit place key x _ => order[place]? = some key ∧ x = value key
  | .add place key x _ => order[place]? = some key ∧ x = value key
  | .clear place key _ => order[place]? = some key
  | .lower place key _ => order[place]? = some key

end Drain

section Draining

variable [LinearOrder V] [Zero V] [AddCommMonoid α]

/-- The value at a place. -/
def valueAt (order : List κ) (value : κ → α) (p : ℕ) : α := (order[p]?.map value).getD 0

/-- **While the threads drain**: thread `p % n` has place `p`. -/
structure Draining (job : Job κ V α) (m : Memory κ V α) (ds : ℕ → Drain κ α) (order : List κ)
    (top : κ → V) : Prop where
  lists : Lists job order top
  outCount : m.outCount = order.length
  outKey : ∀ p k, order[p]? = some k → m.outKey p = k
  mine : ∀ i < job.threads, (ds i).places.Nodup ∧
    ∀ p ∈ (ds i).places, p % job.threads = i ∧ p < order.length
  holds : ∀ i < job.threads, (ds i).Holds order fun k => job.read (top k)
  peak : ∀ p k, order[p]? = some k →
    m.peak k = if p ∈ (ds (p % job.threads)).raised then top k else 0
  flag : ∀ p k, order[p]? = some k → p ∉ (ds (p % job.threads)).places → m.flag k = false
  others : ∀ k, ¬ job.Key k → m.peak k = 0 ∧ m.flag k = false
  outVal : ∀ p k, order[p]? = some k → p ∉ (ds (p % job.threads)).silent →
    m.outVal p = job.read (top k)
  sum : m.sum + ∑ i ∈ Finset.range job.threads,
      ((ds i).unadded.map (valueAt order fun k => job.read (top k))).sum
    = (order.map fun k => job.read (top k)).sum

variable {job : Job κ V α} {m m' : Memory κ V α} {ds : ℕ → Drain κ α} {order : List κ} {top : κ → V}

theorem sum_valueAt (order : List κ) (value : κ → α) :
    ((List.range order.length).map (valueAt order value)).sum = (order.map value).sum := by
  congr 1
  apply List.ext_getElem
  · simp
  · intro p hp hp'
    rw [List.length_map] at hp'
    rw [List.getElem_map, List.getElem_map, List.getElem_range, valueAt,
      List.getElem?_eq_getElem hp']
    rfl

/-- The places are shared out. -/
theorem Filled.draining (h : Filled job m order top) (hsum : m.sum = 0)
    (hcount : m.outCount = m.count) :
    Draining job m (fun i => .fetch (strided job.threads i (List.range m.count))) order top where
  lists := h.lists
  outCount := hcount.trans h.count
  outKey := h.outKey
  mine := by
    intro i _
    refine ⟨nodup_strided List.nodup_range, fun p hp => ?_⟩
    obtain ⟨hlt, hmod⟩ := mem_strided_range.mp hp
    exact ⟨hmod, h.count ▸ hlt⟩
  holds := fun _ _ => trivial
  peak := by
    intro p k hp
    have hlt := (List.getElem?_eq_some_iff.mp hp).1
    have hmem : p ∈ strided job.threads (p % job.threads) (List.range m.count) :=
      mem_strided_range.mpr ⟨h.count.symm ▸ hlt, rfl⟩
    exact (h.peak k).trans (if_pos hmem).symm
  flag := by
    intro p k hp hnot
    have hlt := (List.getElem?_eq_some_iff.mp hp).1
    exact absurd (mem_strided_range.mpr ⟨h.count.symm ▸ hlt, rfl⟩) hnot
  others := by
    intro k hk
    constructor
    · rw [h.peak k]
      exact (h.lists.tops k).among.resolve_right fun hentry => hk ⟨_, hentry⟩
    · exact Bool.eq_false_iff.mpr fun hflag => hk (h.flag k hflag)
  outVal := by
    intro p k hp hnot
    have hlt := (List.getElem?_eq_some_iff.mp hp).1
    exact absurd (mem_strided_range.mpr ⟨h.count.symm ▸ hlt, rfl⟩) hnot
  sum := by
    rw [hsum, zero_add, ← sum_valueAt, ← h.count]
    exact sum_strided job.threads_pos _ _

omit [AddCommMonoid α] in
/-- A place is finished with in one respect: nothing else changes in it. -/
theorem mem_pop {g : Drain κ α → List ℕ} {n i place : ℕ} {d : Drain κ α}
    (hpop : g (ds i) = place :: g d) (hnew : place ∉ g d) (hmine : place % n = i) (p : ℕ) :
    p ∈ g (Function.update ds i d (p % n)) ↔ p ∈ g (ds (p % n)) ∧ p ≠ place := by
  by_cases hp : p % n = i
  · rw [hp, Function.update_self, hpop, List.mem_cons]
    constructor
    · intro hmem
      exact ⟨.inr hmem, fun heq => hnew (heq ▸ hmem)⟩
    · rintro ⟨hmem, hne⟩
      exact hmem.resolve_left hne
  · rw [Function.update_of_ne hp]
    exact ⟨fun hmem => ⟨hmem, fun heq => hp (heq ▸ hmine)⟩, And.left⟩

omit [AddCommMonoid α] in
/-- Two places are of two keys. -/
theorem Lists.place_eq (h : Lists job order top) {p q : ℕ} {k : κ} (hp : order[p]? = some k)
    (hq : order[q]? = some k) : p = q :=
  (List.getElem?_inj (List.getElem?_eq_some_iff.mp hp).1 h.nodup).mp (hp.trans hq.symm)

/-- The thread that steps has the same places afterwards, or one less. -/
theorem Draining.mine_update (h : Draining job m ds order top) {i : ℕ} {d : Drain κ α}
    (hi : i < job.threads) (hplaces : d.places.Sublist (ds i).places) :
    ∀ j < job.threads, (Function.update ds i d j).places.Nodup ∧
      ∀ p ∈ (Function.update ds i d j).places, p % job.threads = j ∧ p < order.length := by
  intro j hj
  by_cases hji : j = i
  · rw [hji, Function.update_self]
    obtain ⟨hnodup, hmine⟩ := h.mine i hi
    exact ⟨hnodup.sublist hplaces, fun p hp => hmine p (hplaces.subset hp)⟩
  · rw [Function.update_of_ne hji]
    exact h.mine j hj

/-- What a thread holds after its step is what it should. -/
theorem Draining.holds_update (h : Draining job m ds order top) {i : ℕ} {d : Drain κ α}
    (hd : d.Holds order fun k => job.read (top k)) :
    ∀ j < job.threads, (Function.update ds i d j).Holds order fun k => job.read (top k) :=
  Grid.forall_update (P := Drain.Holds order fun k => job.read (top k)) h.holds hd

/-- What is added and what is not yet stay the same together. -/
theorem Draining.sum_same (h : Draining job m ds order top) {i : ℕ} {d : Drain κ α}
    (hsame : d.unadded = (ds i).unadded) :
    m.sum + ∑ j ∈ Finset.range job.threads,
        ((Function.update ds i d j).unadded.map (valueAt order fun k => job.read (top k))).sum
      = (order.map fun k => job.read (top k)).sum := by
  rw [Finset.sum_congr rfl fun j _ => congrArg
    (fun l : List ℕ => (l.map (valueAt order fun k => job.read (top k))).sum)
    (Grid.update_same (F := Drain.unadded) hsame j)]
  exact h.sum

/-- A thread reads and writes nothing that others see. -/
theorem Draining.hold (h : Draining job m ds order top) {i : ℕ} {d : Drain κ α}
    (hi : i < job.threads) (hplaces : d.places = (ds i).places) (hraised : d.raised = (ds i).raised)
    (hsilent : d.silent = (ds i).silent) (hunadded : d.unadded = (ds i).unadded)
    (hd : d.Holds order fun k => job.read (top k)) :
    Draining job m (Function.update ds i d) order top where
  lists := h.lists
  outCount := h.outCount
  outKey := h.outKey
  mine := h.mine_update hi (hplaces ▸ List.Sublist.refl _)
  holds := h.holds_update hd
  peak := by
    intro p k hp
    rw [Grid.update_same (F := Drain.raised) hraised]
    exact h.peak p k hp
  flag := by
    intro p k hp hnot
    rw [Grid.update_same (F := Drain.places) hplaces] at hnot
    exact h.flag p k hp hnot
  others := h.others
  outVal := by
    intro p k hp hnot
    rw [Grid.update_same (F := Drain.silent) hsilent] at hnot
    exact h.outVal p k hp hnot
  sum := h.sum_same hunadded

/-- The value goes to its place. -/
theorem Draining.emit (h : Draining job m ds order top) {i place : ℕ} {key : κ} {x : α}
    {left : List ℕ} (hi : i < job.threads) (hd : ds i = .emit place key x left) :
    Draining job { m with outVal := Function.update m.outVal place x }
      (Function.update ds i (.add place key x left)) order top := by
  obtain ⟨hnodup, hmine⟩ := h.mine i hi
  have hholds := h.holds i hi
  rw [hd] at hnodup hmine hholds
  obtain ⟨hnew, -⟩ := List.nodup_cons.mp hnodup
  have hpop : (ds i).silent = place :: (Drain.add place key x left).silent := by
    rw [hd]
    rfl
  have hsilent := @mem_pop κ α ds Drain.silent job.threads i place _ hpop hnew
    (hmine place List.mem_cons_self).1
  exact
    { lists := h.lists
      outCount := h.outCount
      outKey := h.outKey
      mine := h.mine_update hi (by rw [hd]; exact List.Sublist.refl _)
      holds := h.holds_update hholds
      peak := by
        intro p k hp
        rw [Grid.update_same (F := Drain.raised) (by rw [hd]; rfl)]
        exact h.peak p k hp
      flag := by
        intro p k hp hnot
        rw [Grid.update_same (F := Drain.places) (by rw [hd]; rfl)] at hnot
        exact h.flag p k hp hnot
      others := h.others
      outVal := by
        intro p k hp hnot
        show Function.update m.outVal place x p = _
        by_cases hplace : p = place
        · rw [hplace, hholds.1] at hp
          rw [hplace, Function.update_self, hholds.2, Option.some_inj.mp hp]
        · rw [hsilent p] at hnot
          rw [Function.update_of_ne hplace]
          exact h.outVal p k hp fun hmem => hnot ⟨hmem, hplace⟩
      sum := h.sum_same (by rw [hd]; rfl) }

/-- The value is added. -/
theorem Draining.add (h : Draining job m ds order top) {i place : ℕ} {key : κ} {x : α}
    {left : List ℕ} (hi : i < job.threads) (hd : ds i = .add place key x left) :
    Draining job { m with sum := m.sum + x } (Function.update ds i (.clear place key left)) order
      top := by
  have hholds := h.holds i hi
  rw [hd] at hholds
  exact
    { lists := h.lists
      outCount := h.outCount
      outKey := h.outKey
      mine := h.mine_update hi (by rw [hd]; exact List.Sublist.refl _)
      holds := h.holds_update hholds.1
      peak := by
        intro p k hp
        rw [Grid.update_same (F := Drain.raised) (by rw [hd]; rfl)]
        exact h.peak p k hp
      flag := by
        intro p k hp hnot
        rw [Grid.update_same (F := Drain.places) (by rw [hd]; rfl)] at hnot
        exact h.flag p k hp hnot
      others := h.others
      outVal := by
        intro p k hp hnot
        rw [Grid.update_same (F := Drain.silent) (by rw [hd]; rfl)] at hnot
        exact h.outVal p k hp hnot
      sum := by
        have hsum := h.sum
        obtain ⟨others, hbefore, hafter⟩ := @Grid.sum_update _ _ _ _ _ ds (.clear place key left)
          (fun d : Drain κ α => (d.unadded.map (valueAt order fun k => job.read (top k))).sum) hi
        have hplace : valueAt order (fun k => job.read (top k)) place = x := by
          rw [valueAt, hholds.1, hholds.2]
          rfl
        have hself : ((ds i).unadded.map (valueAt order fun k => job.read (top k))).sum
            = x + (left.map (valueAt order fun k => job.read (top k))).sum := by
          rw [hd, ← hplace]
          rfl
        have hnext : ((Drain.clear place key left : Drain κ α).unadded.map
            (valueAt order fun k => job.read (top k))).sum
            = (left.map (valueAt order fun k => job.read (top k))).sum := rfl
        rw [hbefore, hself] at hsum
        show m.sum + x + _ = _
        rw [hafter, hnext, ← hsum]
        abel }

/-- The peak is cleared. -/
theorem Draining.clear [DecidableEq κ] (h : Draining job m ds order top) {i place : ℕ} {key : κ} {left : List ℕ}
    (hi : i < job.threads) (hd : ds i = .clear place key left) :
    Draining job { m with peak := Function.update m.peak key 0 }
      (Function.update ds i (.lower place key left)) order top := by
  obtain ⟨hnodup, hmine⟩ := h.mine i hi
  have hholds : order[place]? = some key := by
    have hholds := h.holds i hi
    rwa [hd] at hholds
  rw [hd] at hnodup hmine
  obtain ⟨hnew, -⟩ := List.nodup_cons.mp hnodup
  have hpop : (ds i).raised = place :: (Drain.lower place key left : Drain κ α).raised := by
    rw [hd]
    rfl
  have hraised := @mem_pop κ α ds Drain.raised job.threads i place _ hpop hnew
    (hmine place List.mem_cons_self).1
  exact
    { lists := h.lists
      outCount := h.outCount
      outKey := h.outKey
      mine := h.mine_update hi (by rw [hd]; exact List.Sublist.refl _)
      holds := h.holds_update hholds
      peak := by
        intro p k hp
        show Function.update m.peak key 0 k = _
        rw [if_congr (hraised p) rfl rfl]
        by_cases hk : k = key
        · have hplace := h.lists.place_eq hp (hk ▸ hholds)
          rw [hk, Function.update_self, if_neg fun hmem => hmem.2 hplace]
        · have hplace : p ≠ place := by
            rintro rfl
            exact hk (Option.some_inj.mp (hp.symm.trans hholds))
          rw [Function.update_of_ne hk, h.peak p k hp]
          exact if_congr (and_iff_left hplace).symm rfl rfl
      flag := by
        intro p k hp hnot
        rw [Grid.update_same (F := Drain.places) (by rw [hd]; rfl)] at hnot
        exact h.flag p k hp hnot
      others := by
        intro k hk
        refine ⟨?_, (h.others k hk).2⟩
        show Function.update m.peak key 0 k = 0
        by_cases hkey : k = key
        · rw [hkey, Function.update_self]
        · rw [Function.update_of_ne hkey]
          exact (h.others k hk).1
      outVal := by
        intro p k hp hnot
        rw [Grid.update_same (F := Drain.silent) (by rw [hd]; rfl)] at hnot
        exact h.outVal p k hp hnot
      sum := h.sum_same (by rw [hd]; rfl) }

/-- The flag is lowered, and the place is done with. -/
theorem Draining.lower [DecidableEq κ] (h : Draining job m ds order top) {i place : ℕ} {key : κ} {left : List ℕ}
    (hi : i < job.threads) (hd : ds i = .lower place key left) :
    Draining job { m with flag := Function.update m.flag key false }
      (Function.update ds i (.fetch left)) order top := by
  obtain ⟨hnodup, hmine⟩ := h.mine i hi
  have hholds : order[place]? = some key := by
    have hholds := h.holds i hi
    rwa [hd] at hholds
  rw [hd] at hnodup hmine
  obtain ⟨hnew, -⟩ := List.nodup_cons.mp hnodup
  have hpop : (ds i).places = place :: (Drain.fetch left : Drain κ α).places := by
    rw [hd]
    rfl
  have hplaces := @mem_pop κ α ds Drain.places job.threads i place _ hpop hnew
    (hmine place List.mem_cons_self).1
  exact
    { lists := h.lists
      outCount := h.outCount
      outKey := h.outKey
      mine := h.mine_update hi (by rw [hd]; exact List.sublist_cons_self place left)
      holds := h.holds_update trivial
      peak := by
        intro p k hp
        rw [Grid.update_same (F := Drain.raised) (by rw [hd]; rfl)]
        exact h.peak p k hp
      flag := by
        intro p k hp hnot
        show Function.update m.flag key false k = false
        by_cases hk : k = key
        · rw [hk, Function.update_self]
        · have hplace : p ≠ place := by
            rintro rfl
            exact hk (Option.some_inj.mp (hp.symm.trans hholds))
          rw [hplaces p] at hnot
          rw [Function.update_of_ne hk]
          exact h.flag p k hp fun hmem => hnot ⟨hmem, hplace⟩
      others := by
        intro k hk
        refine ⟨(h.others k hk).1, ?_⟩
        show Function.update m.flag key false k = false
        by_cases hkey : k = key
        · rw [hkey, Function.update_self]
        · rw [Function.update_of_ne hkey]
          exact (h.others k hk).2
      outVal := by
        intro p k hp hnot
        rw [Grid.update_same (F := Drain.silent) (by rw [hd]; rfl)] at hnot
        exact h.outVal p k hp hnot
      sum := h.sum_same (by rw [hd]; rfl) }

/-- **A step of the second phase.** -/
theorem Draining.step [DecidableEq κ] (h : Draining job m ds order top) {i : ℕ} {d : Drain κ α}
    (hi : i < job.threads) (hstep : drainStep job.read m (ds i) = some (m', d)) :
    Draining job m' (Function.update ds i d) order top := by
  have hholds := h.holds i hi
  rcases hd : ds i with left | ⟨place, key, left⟩ | ⟨place, key, x, left⟩ | ⟨place, key, x, left⟩ |
    ⟨place, key, left⟩ | ⟨place, key, left⟩
  · rw [hd] at hstep
    cases left with
    | nil => cases hstep
    | cons place left =>
        obtain ⟨rfl, rfl⟩ := Prod.mk.inj (Option.some_inj.mp hstep)
        have hlt : place < order.length := by
          apply ((h.mine i hi).2 place _).2
          rw [hd]
          exact List.mem_cons_self
        have hplace : order[place]? = some (m.outKey place) := by
          rw [List.getElem?_eq_getElem hlt, h.outKey place _ (List.getElem?_eq_getElem hlt)]
        apply h.hold hi
        · rw [hd]
          rfl
        · rw [hd]
          rfl
        · rw [hd]
          rfl
        · rw [hd]
          rfl
        · exact hplace
  · rw [hd] at hstep hholds
    obtain ⟨rfl, rfl⟩ := Prod.mk.inj (Option.some_inj.mp hstep)
    have hpeak : m.peak key = top key := by
      rw [h.peak place key hholds, if_pos]
      have hmine := ((h.mine i hi).2 place (by rw [hd]; exact List.mem_cons_self)).1
      rw [hmine, hd]
      exact List.mem_cons_self
    apply h.hold hi
    · rw [hd]
      rfl
    · rw [hd]
      rfl
    · rw [hd]
      rfl
    · rw [hd]
      rfl
    · exact ⟨hholds, congrArg job.read hpeak⟩
  · rw [hd] at hstep
    obtain ⟨rfl, rfl⟩ := Prod.mk.inj (Option.some_inj.mp hstep)
    exact h.emit hi hd
  · rw [hd] at hstep
    obtain ⟨rfl, rfl⟩ := Prod.mk.inj (Option.some_inj.mp hstep)
    exact h.add hi hd
  · rw [hd] at hstep
    obtain ⟨rfl, rfl⟩ := Prod.mk.inj (Option.some_inj.mp hstep)
    exact h.clear hi hd
  · rw [hd] at hstep
    obtain ⟨rfl, rfl⟩ := Prod.mk.inj (Option.some_inj.mp hstep)
    exact h.lower hi hd

/-- **When the threads have drained**: the output is complete and the memory as it was before. -/
structure Pooled (job : Job κ V α) (m : Memory κ V α) (order : List κ) (top : κ → V) : Prop where
  lists : Lists job order top
  outCount : m.outCount = order.length
  outKey : ∀ p k, order[p]? = some k → m.outKey p = k
  outVal : ∀ p k, order[p]? = some k → m.outVal p = job.read (top k)
  sum : m.sum = (order.map fun k => job.read (top k)).sum
  clean : ∀ k, m.peak k = 0 ∧ m.flag k = false

theorem Draining.pooled (h : Draining job m ds order top)
    (hwaits : ∀ i < job.threads, ds i = .fetch []) : Pooled job m order top where
  lists := h.lists
  outCount := h.outCount
  outKey := h.outKey
  outVal := by
    intro p k hp
    apply h.outVal p k hp
    rw [hwaits _ (Nat.mod_lt p job.threads_pos)]
    exact List.not_mem_nil
  sum := by
    have hsum := h.sum
    rwa [Finset.sum_eq_zero, add_zero] at hsum
    intro i hi
    rw [hwaits i (Finset.mem_range.mp hi)]
    rfl
  clean := by
    intro k
    by_cases hk : job.Key k
    · obtain ⟨p, hp⟩ := List.mem_iff_getElem?.mp ((h.lists.keys k).mpr hk)
      have hthread := hwaits _ (Nat.mod_lt p job.threads_pos)
      constructor
      · rw [h.peak p k hp, hthread]
        exact if_neg List.not_mem_nil
      · apply h.flag p k hp
        rw [hthread]
        exact List.not_mem_nil
    · exact h.others k hk

end Draining

/-! ### All phases -/

section Phases

/-- Only the first thread has something to do. -/
def Alone (job : Job κ V α) (ts : ℕ → Thread κ V α) (P : Thread κ V α → Prop) : Prop :=
  P (ts 0) ∧ ∀ i < job.threads, i ≠ 0 → ts i = .wait

variable [DecidableEq κ] [LinearOrder V] [Zero V] [AddCommMonoid α]

/-- **What holds in a phase.** -/
def Inv (job : Job κ V α) (m : Memory κ V α) (phase : ℕ) (ts : ℕ → Thread κ V α) : Prop :=
  match phase with
  | 0 => (∀ k, m.peak k = 0 ∧ m.flag k = false) ∧
      Alone job ts fun t => t = .zeroCount ∨ (t = .wait ∧ m.count = 0)
  | 1 => ∃ fs : ℕ → Fill κ V, (∀ i < job.threads, ts i = .fill (fs i)) ∧
      ∃ order, Filling job m fs order
  | 2 => ∃ order top, Filled job m order top ∧
      Alone job ts fun t => t = .zeroSum ∨ (t = .storeCount ∧ m.sum = 0) ∨
        (t = .wait ∧ m.sum = 0 ∧ m.outCount = m.count)
  | 3 => ∃ ds : ℕ → Drain κ α, (∀ i < job.threads, ts i = .drain (ds i)) ∧
      ∃ order top, Draining job m ds order top
  | 4 => ∃ order top, Pooled job m order top ∧
      Alone job ts fun t => t = .storeSum ∨ (t = .wait ∧ m.outSum = m.sum)
  | _ => False

variable {job : Job κ V α} {m m' : Memory κ V α} {phase : ℕ} {ts : ℕ → Thread κ V α}

/-- The memory is clean when the threads start. -/
theorem Inv.start (hclean : ∀ k, m.peak k = 0 ∧ m.flag k = false) :
    Inv job m 0 fun i => enter job.entries job.threads 0 i m.count :=
  ⟨hclean, .inl rfl, fun _ _ hi => if_neg hi⟩

omit [DecidableEq κ] [LinearOrder V] [Zero V] [AddCommMonoid α] in
/-- The first thread steps, and the others wait on. -/
theorem Alone.update {P Q : Thread κ V α → Prop} (h : Alone job ts P) {t : Thread κ V α}
    (ht : Q t) : Alone job (Function.update ts 0 t) Q := by
  refine ⟨?_, fun i hi hne => ?_⟩
  · rwa [Function.update_self]
  · rw [Function.update_of_ne hne]
    exact h.2 i hi hne

/-- A thread that steps in a phase of the first thread is the first. -/
theorem Alone.eq_zero {P : Thread κ V α → Prop} (h : Alone job ts P) {i : ℕ} {t : Thread κ V α}
    (hi : i < job.threads) (hstep : step job.read m (ts i) = some (m', t)) : i = 0 := by
  by_contra hne
  rw [h.2 i hi hne] at hstep
  cases hstep

/-- **Every step keeps it.** -/
theorem Inv.step (h : Inv job m phase ts) {i : ℕ} {t : Thread κ V α} (hi : i < job.threads)
    (hstep : step job.read m (ts i) = some (m', t)) :
    Inv job m' phase (Function.update ts i t) := by
  match phase, h with
  | 0, ⟨hclean, halone⟩ =>
      obtain rfl := halone.eq_zero hi hstep
      rcases halone.1 with hfirst | ⟨hfirst, -⟩
      · rw [hfirst] at hstep
        obtain ⟨rfl, rfl⟩ := Prod.mk.inj (Option.some_inj.mp hstep)
        exact ⟨hclean, halone.update (.inr ⟨rfl, rfl⟩)⟩
      · rw [hfirst] at hstep
        cases hstep
  | 1, ⟨fs, hfs, order, hfill⟩ =>
      rw [hfs i hi] at hstep
      obtain ⟨⟨m'', f⟩, hfillStep, heq⟩ := Option.map_eq_some_iff.mp hstep
      obtain ⟨rfl, rfl⟩ := Prod.mk.inj heq
      refine ⟨Function.update fs i f, fun j hj => ?_, hfill.step hi hfillStep⟩
      by_cases hji : j = i
      · rw [hji, Function.update_self, Function.update_self]
      · rw [Function.update_of_ne hji, Function.update_of_ne hji]
        exact hfs j hj
  | 2, ⟨order, top, hfilled, halone⟩ =>
      obtain rfl := halone.eq_zero hi hstep
      rcases halone.1 with hfirst | ⟨hfirst, hsum⟩ | ⟨hfirst, -⟩
      · rw [hfirst] at hstep
        obtain ⟨rfl, rfl⟩ := Prod.mk.inj (Option.some_inj.mp hstep)
        refine ⟨order, top, ⟨hfilled.lists, hfilled.count, hfilled.outKey, hfilled.peak,
          hfilled.flag⟩, halone.update (.inr (.inl ⟨rfl, rfl⟩))⟩
      · rw [hfirst] at hstep
        obtain ⟨rfl, rfl⟩ := Prod.mk.inj (Option.some_inj.mp hstep)
        refine ⟨order, top, ⟨hfilled.lists, hfilled.count, hfilled.outKey, hfilled.peak,
          hfilled.flag⟩, halone.update (.inr (.inr ⟨rfl, hsum, rfl⟩))⟩
      · rw [hfirst] at hstep
        cases hstep
  | 3, ⟨ds, hds, order, top, hdrain⟩ =>
      rw [hds i hi] at hstep
      obtain ⟨⟨m'', d⟩, hdrainStep, heq⟩ := Option.map_eq_some_iff.mp hstep
      obtain ⟨rfl, rfl⟩ := Prod.mk.inj heq
      refine ⟨Function.update ds i d, fun j hj => ?_, order, top, hdrain.step hi hdrainStep⟩
      by_cases hji : j = i
      · rw [hji, Function.update_self, Function.update_self]
      · rw [Function.update_of_ne hji, Function.update_of_ne hji]
        exact hds j hj
  | 4, ⟨order, top, hpooled, halone⟩ =>
      obtain rfl := halone.eq_zero hi hstep
      rcases halone.1 with hfirst | ⟨hfirst, -⟩
      · rw [hfirst] at hstep
        obtain ⟨rfl, rfl⟩ := Prod.mk.inj (Option.some_inj.mp hstep)
        exact ⟨order, top, ⟨hpooled.lists, hpooled.outCount, hpooled.outKey, hpooled.outVal,
          hpooled.sum, hpooled.clean⟩, halone.update (.inr ⟨rfl, rfl⟩)⟩
      · rw [hfirst] at hstep
        cases hstep

/-- All threads wait. -/
def Waits (job : Job κ V α) (m : Memory κ V α) (ts : ℕ → Thread κ V α) : Prop :=
  ∀ i < job.threads, step job.read m (ts i) = none

/-- The first thread is through when it waits. -/
theorem Waits.first (h : Waits job m ts) : step job.read m (ts 0) = none := h 0 job.threads_pos

/-- **Every barrier keeps it.** -/
theorem Inv.barrier (h : Inv job m phase ts) (hphase : phase < 4) (hwaits : Waits job m ts) :
    Inv job m (phase + 1) fun i => enter job.entries job.threads (phase + 1) i m.count := by
  match phase, h with
  | 0, ⟨hclean, halone⟩ =>
      have hcount : m.count = 0 := by
        rcases halone.1 with hfirst | ⟨-, hcount⟩
        · have hnone := hwaits.first
          rw [hfirst] at hnone
          cases hnone
        · exact hcount
      exact ⟨_, fun _ _ => rfl, [],
        Filling.start hcount (fun k => (hclean k).1) fun k => (hclean k).2⟩
  | 1, ⟨fs, hfs, order, hfill⟩ =>
      refine ⟨order, m.peak, hfill.filled fun i hi => ?_, .inl rfl, fun _ _ hne => if_neg hne⟩
      have hnone := hwaits i hi
      rw [hfs i hi] at hnone
      have hnone := Option.map_eq_none_iff.mp hnone
      rcases hf : fs i with left | ⟨key, left⟩ | ⟨key, left⟩ | ⟨place, key, left⟩
      · cases left with
        | nil => rfl
        | cons entry left =>
            rw [hf] at hnone
            cases hnone
      · rw [hf, fillStep] at hnone
        split at hnone
        · cases hnone
        · cases hnone
      · rw [hf] at hnone
        cases hnone
      · rw [hf] at hnone
        cases hnone
  | 2, ⟨order, top, hfilled, halone⟩ =>
      have hfirst : m.sum = 0 ∧ m.outCount = m.count := by
        have hnone := hwaits.first
        rcases halone.1 with hfirst | ⟨hfirst, -⟩ | ⟨-, hdone⟩
        · rw [hfirst] at hnone
          cases hnone
        · rw [hfirst] at hnone
          cases hnone
        · exact hdone
      exact ⟨_, fun _ _ => rfl, order, top, hfilled.draining hfirst.1 hfirst.2⟩
  | 3, ⟨ds, hds, order, top, hdrain⟩ =>
      refine ⟨order, top, hdrain.pooled fun i hi => ?_, .inl rfl, fun _ _ hne => if_neg hne⟩
      have hnone := hwaits i hi
      rw [hds i hi] at hnone
      have hnone := Option.map_eq_none_iff.mp hnone
      rcases hd : ds i with left | ⟨place, key, left⟩ | ⟨place, key, x, left⟩ |
        ⟨place, key, x, left⟩ | ⟨place, key, left⟩ | ⟨place, key, left⟩
      · cases left with
        | nil => rfl
        | cons place left =>
            rw [hd] at hnone
            cases hnone
      all_goals
        rw [hd] at hnone
        cases hnone

/-- **At the end** the output is complete. -/
theorem Inv.pooled (h : Inv job m 4 ts) (hwaits : Waits job m ts) :
    ∃ order top, Pooled job m order top ∧ m.outSum = m.sum := by
  obtain ⟨order, top, hpooled, halone⟩ := h
  refine ⟨order, top, hpooled, ?_⟩
  rcases halone.1 with hfirst | ⟨-, hsum⟩
  · have hnone := hwaits.first
    rw [hfirst] at hnone
    cases hnone
  · exact hsum

/-! ### Where the accesses are -/

/-- The next access of a thread is to a key of a kind, or to a place below a bound. -/
def Thread.Within (K : κ → Prop) (width : ℕ) : Thread κ V α → Prop
  | .fill (.raise (entry :: _)) => K entry.1
  | .fill (.touch key _) => K key
  | .fill (.write place _ _) => place < width
  | .drain (.fetch (place :: _)) => place < width
  | .drain (.read _ key _) => K key
  | .drain (.emit place _ _ _) => place < width
  | .drain (.clear _ key _) => K key
  | .drain (.lower _ key _) => K key
  | _ => True

omit [DecidableEq κ] [LinearOrder V] [Zero V] [AddCommMonoid α] in
theorem Thread.Within.mono {K K' : κ → Prop} {width : ℕ} (h : ∀ k, K k → K' k)
    {t : Thread κ V α} (ht : t.Within K width) : t.Within K' width := by
  match t, ht with
  | .wait, _ => trivial
  | .zeroCount, _ => trivial
  | .fill (.raise []), _ => trivial
  | .fill (.raise (_ :: _)), ht => exact h _ ht
  | .fill (.touch _ _), ht => exact h _ ht
  | .fill (.claim _ _), _ => trivial
  | .fill (.write _ _ _), ht => exact ht
  | .zeroSum, _ => trivial
  | .storeCount, _ => trivial
  | .drain (.fetch []), _ => trivial
  | .drain (.fetch (_ :: _)), ht => exact ht
  | .drain (.read _ _ _), ht => exact h _ ht
  | .drain (.emit _ _ _ _), ht => exact ht
  | .drain (.add _ _ _ _), _ => trivial
  | .drain (.clear _ _ _), ht => exact h _ ht
  | .drain (.lower _ _ _), ht => exact h _ ht
  | .storeSum, _ => trivial

/-- **Every access is to a key of the job**, or to a place of one. -/
theorem Inv.within (h : Inv job m phase ts) {i width : ℕ} (hi : i < job.threads)
    (hwidth : ∀ order : List κ, order.Nodup → (∀ k ∈ order, job.Key k) → order.length ≤ width) :
    (ts i).Within job.Key width := by
  have halone : ∀ {P : Thread κ V α → Prop}, Alone job ts P →
      (∀ t, P t → t.Within job.Key width) → (ts i).Within job.Key width := by
    intro P halone hP
    by_cases hzero : i = 0
    · rw [hzero]
      exact hP _ halone.1
    · rw [halone.2 i hi hzero]
      trivial
  match phase, h with
  | 0, ⟨_, h⟩ =>
      refine halone h fun t ht => ?_
      rcases ht with rfl | ⟨rfl, -⟩
      · trivial
      · trivial
  | 1, ⟨fs, hfs, order, hfill⟩ =>
      obtain ⟨hleft, hheld⟩ := hfill.inside i hi
      have hwriting := hfill.writing i hi
      rw [hfs i hi]
      rcases hf : fs i with left | ⟨key, left⟩ | ⟨key, left⟩ | ⟨place, key, left⟩
      · cases left with
        | nil => trivial
        | cons entry left =>
            rw [hf] at hleft
            exact ⟨entry.2, hleft entry List.mem_cons_self⟩
      · rw [hf] at hheld
        exact hheld key rfl
      · trivial
      · rw [hf] at hwriting
        have hlt := (List.getElem?_eq_some_iff.mp (hwriting place key ⟨rfl, rfl⟩)).1
        exact hlt.trans_le (hwidth order hfill.nodup hfill.known)
  | 2, ⟨_, _, _, h⟩ =>
      refine halone h fun t ht => ?_
      rcases ht with rfl | ⟨rfl, -⟩ | ⟨rfl, -⟩
      · trivial
      · trivial
      · trivial
  | 3, ⟨ds, hds, order, top, hdrain⟩ =>
      have hplaces := (hdrain.mine i hi).2
      have hholds := hdrain.holds i hi
      have hlength := hwidth order hdrain.lists.nodup fun k => (hdrain.lists.keys k).mp
      have hkey : ∀ {p k}, order[p]? = some k → job.Key k := fun hp =>
        (hdrain.lists.keys _).mp (List.mem_of_getElem? hp)
      rw [hds i hi]
      rcases hd : ds i with left | ⟨place, key, left⟩ | ⟨place, key, x, left⟩ |
        ⟨place, key, x, left⟩ | ⟨place, key, left⟩ | ⟨place, key, left⟩
      · cases left with
        | nil => trivial
        | cons place left =>
            rw [hd] at hplaces
            exact (hplaces place List.mem_cons_self).2.trans_le hlength
      · rw [hd] at hholds
        exact hkey hholds
      · rw [hd] at hplaces
        exact (hplaces place List.mem_cons_self).2.trans_le hlength
      · trivial
      · rw [hd] at hholds
        exact hkey hholds
      · rw [hd] at hholds
        exact hkey hholds
  | 4, ⟨_, _, _, h⟩ =>
      refine halone h fun t ht => ?_
      rcases ht with rfl | ⟨rfl, -⟩
      · trivial
      · trivial

end Phases

/-! ### Steps that are left -/

namespace Thread

/-- How many steps a thread has left in its phase, at most. -/
def size : Thread κ V α → ℕ
  | .wait => 0
  | .zeroCount => 1
  | .fill (.raise left) => 4 * left.length
  | .fill (.touch _ left) => 4 * left.length + 3
  | .fill (.claim _ left) => 4 * left.length + 2
  | .fill (.write _ _ left) => 4 * left.length + 1
  | .zeroSum => 2
  | .storeCount => 1
  | .drain (.fetch left) => 6 * left.length
  | .drain (.read _ _ left) => 6 * left.length + 5
  | .drain (.emit _ _ _ left) => 6 * left.length + 4
  | .drain (.add _ _ _ left) => 6 * left.length + 3
  | .drain (.clear _ _ left) => 6 * left.length + 2
  | .drain (.lower _ _ left) => 6 * left.length + 1
  | .storeSum => 1

end Thread

end KeyedPool
