/-
Nsparse/WindowBalance.lean

How evenly `make_windows` cuts the term space.

`WindowLoop` is a run of its loop in which every subtraction is exact and the inner loop
stops by its own condition.  The target of a window is the mean of what is left, so a
window that reaches it leaves no larger mean behind; a window that is held back leaves
one term for each window to come.  Either way no window takes more than the mean of the
whole and one term (`makeWindows_even`).
-/
import Nsparse.WindowPostings

namespace Nsparse

/-! ### Loads -/

/-- The load of the terms from `a` up to `b`. -/
def loadBetween (termCounts : List ℕ) (lambda a b : ℕ) : ℕ :=
  ((List.range' a (b - a)).map fun t => loadOf lambda (termCounts.getD t 0)).sum

/-- The largest load of a single term. -/
def largestLoad (termCounts : List ℕ) (lambda : ℕ) : ℕ :=
  (termCounts.map (loadOf lambda)).foldr max 0

variable {termCounts : List ℕ} {lambda : ℕ}

@[simp] theorem loadBetween_self (a : ℕ) : loadBetween termCounts lambda a a = 0 := by
  rw [loadBetween, Nat.sub_self]
  rfl

/-- One term more. -/
theorem loadBetween_succ {a b : ℕ} (h : a ≤ b) :
    loadBetween termCounts lambda a (b + 1)
      = loadBetween termCounts lambda a b + loadOf lambda (termCounts.getD b 0) := by
  rw [loadBetween, Nat.sub_add_comm h, List.range'_1_concat, List.map_append, List.sum_append,
    Nat.add_sub_cancel' h, List.map_singleton, List.sum_singleton]
  rfl

theorem loadBetween_add {a b c : ℕ} (hab : a ≤ b) (hbc : b ≤ c) :
    loadBetween termCounts lambda a b + loadBetween termCounts lambda b c
      = loadBetween termCounts lambda a c := by
  induction c, hbc using Nat.le_induction with
  | base => rw [loadBetween_self, Nat.add_zero]
  | succ c hbc ih =>
      rw [loadBetween_succ hbc, loadBetween_succ (hab.trans hbc), ← ih, Nat.add_assoc]

theorem loadOf_le_largestLoad {t : ℕ} (h : t < termCounts.length) :
    loadOf lambda (termCounts.getD t 0) ≤ largestLoad termCounts lambda := by
  rw [List.getD_eq_getElem?_getD, List.getElem?_eq_getElem h]
  exact List.le_max_of_le (List.mem_map_of_mem (List.getElem_mem h)) le_rfl

theorem loadBetween_all :
    loadBetween termCounts lambda 0 termCounts.length = (termCounts.map (loadOf lambda)).sum := by
  rw [loadBetween, Nat.sub_zero, ← List.range_eq_range']
  congr 1
  apply List.ext_getElem (by simp)
  intro t ht _
  rw [List.length_map, List.length_range] at ht
  simp [List.getElem?_eq_getElem ht]

/-! ### Growing one window -/

/-- A run of the inner loop of `make_windows`, from the end `stop` and the load taken so far to
the end and the load it stops with by its own condition. -/
inductive WindowGrows (termCounts : List ℕ) (lambda start maxEnd target : ℕ) :
    ℕ → ℕ → ℕ → ℕ → Prop
  | stops {stop load : ℕ} (h : ¬(stop < maxEnd ∧ (stop = start ∨ load < target))) :
      WindowGrows termCounts lambda start maxEnd target stop load stop load
  | takes {stop load stop' load' : ℕ} (h : stop < maxEnd ∧ (stop = start ∨ load < target))
      (rest : WindowGrows termCounts lambda start maxEnd target (stop + 1)
        (load + loadOf lambda (termCounts.getD stop 0)) stop' load') :
      WindowGrows termCounts lambda start maxEnd target stop load stop' load'

variable {start maxEnd target : ℕ}

/-- The terms that may still be added are enough fuel. -/
theorem growWindow_grows (termCounts : List ℕ) (lambda start maxEnd target fuel stop load : ℕ)
    (hfuel : maxEnd ≤ stop + fuel) :
    WindowGrows termCounts lambda start maxEnd target stop load
      (growWindow termCounts lambda start maxEnd target fuel stop load).1
      (growWindow termCounts lambda start maxEnd target fuel stop load).2 := by
  induction fuel generalizing stop load with
  | zero => exact .stops fun h => absurd h.1 (not_lt.mpr hfuel)
  | succ fuel ih =>
      rw [growWindow]
      split
      · exact .takes ‹_› (ih _ _ (by omega))
      · exact .stops ‹_›

/-- What the inner loop keeps: the load is that of the terms taken, and it is below the target
but for the last of them. -/
structure WindowTaken (termCounts : List ℕ) (lambda start maxEnd target stop load : ℕ) : Prop where
  ordered : start ≤ stop
  within : stop ≤ maxEnd
  load_eq : load = loadBetween termCounts lambda start stop
  light : load ≤ target + largestLoad termCounts lambda
  single : stop = start + 1 → load ≤ largestLoad termCounts lambda

/-- Before the first term nothing is taken. -/
theorem windowTaken_start (h : start ≤ maxEnd) :
    WindowTaken termCounts lambda start maxEnd target start 0 where
  ordered := le_rfl
  within := h
  load_eq := (loadBetween_self start).symm
  light := Nat.zero_le _
  single _ := Nat.zero_le _

/-- One term more. -/
theorem WindowTaken.takes {stop load : ℕ} (hmax : maxEnd ≤ termCounts.length)
    (h : WindowTaken termCounts lambda start maxEnd target stop load)
    (hcond : stop < maxEnd ∧ (stop = start ∨ load < target)) :
    WindowTaken termCounts lambda start maxEnd target (stop + 1)
      (load + loadOf lambda (termCounts.getD stop 0)) := by
  have hterm : loadOf lambda (termCounts.getD stop 0) ≤ largestLoad termCounts lambda :=
    loadOf_le_largestLoad (hcond.1.trans_le hmax)
  have hempty : stop = start → load = 0 := by
    rintro rfl
    rw [h.load_eq, loadBetween_self]
  refine ⟨h.ordered.trans (Nat.le_succ _), hcond.1, ?_, ?_, fun hstop => ?_⟩
  · rw [loadBetween_succ h.ordered, ← h.load_eq]
  · rcases hcond.2 with hstart | hlow
    · rw [hempty hstart, Nat.zero_add]
      exact hterm.trans (Nat.le_add_left _ _)
    · exact Nat.add_le_add hlow.le hterm
  · rw [hempty (Nat.succ_injective hstop), Nat.zero_add]
    exact hterm

/-- What the inner loop ends with, and that it ended by its own condition. -/
theorem WindowGrows.taken {stop load stop' load' : ℕ} (hmax : maxEnd ≤ termCounts.length)
    (hrun : WindowGrows termCounts lambda start maxEnd target stop load stop' load')
    (h : WindowTaken termCounts lambda start maxEnd target stop load) :
    WindowTaken termCounts lambda start maxEnd target stop' load' ∧
      ¬(stop' < maxEnd ∧ (stop' = start ∨ load' < target)) := by
  induction hrun with
  | stops hstop => exact ⟨h, hstop⟩
  | takes hcond _ ih => exact ih (h.takes hmax hcond)

/-! ### The windows one after another -/

/-- A run of the outer loop of `make_windows`, from the windows made so far, the next term and
the load that is left.  The number of windows left and the load left are differences of
unsigned numbers; a step has both of them exact. -/
inductive WindowLoop (termCounts : List ℕ) (lambda batches : ℕ) :
    List TermWindow → ℕ → ℕ → List TermWindow → Prop
  | done {windows : List TermWindow} {start remainingLoad : ℕ}
      (hend : termCounts.length ≤ start) :
      WindowLoop termCounts lambda batches windows start remainingLoad windows
  | last {windows : List TermWindow} {start remainingLoad : ℕ}
      (hstart : start < termCounts.length) (hmade : windows.length ≤ batches)
      (hlast : batches - windows.length ≤ 1) :
      WindowLoop termCounts lambda batches windows start remainingLoad
        (windows ++ [⟨start, termCounts.length⟩])
  | step {windows out : List TermWindow} {start remainingLoad stop load windowsLeft : ℕ}
      (hstart : start < termCounts.length) (hmade : windows.length + windowsLeft = batches)
      (hleft : 1 < windowsLeft) (hkept : windowsLeft - 1 ≤ termCounts.length)
      (hgrows : WindowGrows termCounts lambda start (termCounts.length - (windowsLeft - 1))
        ((remainingLoad + windowsLeft - 1) / windowsLeft) start 0 stop load)
      (hload : load ≤ remainingLoad)
      (hrest : WindowLoop termCounts lambda batches (windows ++ [⟨start, stop⟩]) stop
        (remainingLoad - load) out) :
      WindowLoop termCounts lambda batches windows start remainingLoad out

/-- Reaching the mean of what is left leaves no larger mean behind. -/
theorem remaining_le_of_mean_le {r w load t : ℕ} (hr : r ≤ (w + 1) * t)
    (hload : (r + w) / (w + 1) ≤ load) : r - load ≤ w * t := by
  have hreach : r ≤ (w + 1) * load := by
    have hmean : r + w < (w + 1) * ((r + w) / (w + 1)) + (w + 1) :=
      Nat.lt_mul_div_succ (r + w) (Nat.succ_pos w)
    have hmul := Nat.mul_le_mul_left (w + 1) hload
    omega
  apply Nat.le_of_mul_le_mul_left _ (Nat.succ_pos w)
  calc (w + 1) * (r - load) = (w + 1) * r - (w + 1) * load := Nat.mul_sub ..
    _ ≤ (w + 1) * r - r := Nat.sub_le_sub_left hreach _
    _ = w * r := by rw [Nat.succ_mul, Nat.add_sub_cancel]
    _ ≤ w * ((w + 1) * t) := Nat.mul_le_mul_left w hr
    _ = (w + 1) * (w * t) := Nat.mul_left_comm ..

/-- What holds before each window: the load left is that of the terms left, there is a term
for each window, and the mean has not grown past `bound` or each window left gets one term. -/
structure WindowsLeft (termCounts : List ℕ) (lambda bound windowsLeft start remainingLoad : ℕ) :
    Prop where
  load_eq : remainingLoad = loadBetween termCounts lambda start termCounts.length
  enough : start + windowsLeft ≤ termCounts.length
  even : remainingLoad ≤ windowsLeft * bound ∨ start + windowsLeft = termCounts.length

variable {bound windowsLeft remainingLoad : ℕ}

/-- The mean of what is left. -/
theorem WindowsLeft.target_le (h : WindowsLeft termCounts lambda bound (windowsLeft + 2) start
    remainingLoad) (hopen : start + (windowsLeft + 2) ≠ termCounts.length) :
    (remainingLoad + (windowsLeft + 2) - 1) / (windowsLeft + 2) ≤ bound := by
  have hmean := h.even.resolve_right hopen
  apply Nat.le_of_lt_succ
  rw [Nat.div_lt_iff_lt_mul (Nat.succ_pos _), Nat.succ_mul, Nat.mul_comm bound]
  show remainingLoad + (windowsLeft + 1) < (windowsLeft + 2) * bound + (windowsLeft + 2)
  omega

/-- **One window.**  A term for it, at most the mean and one term, and the same for the rest. -/
theorem WindowsLeft.step {stop load : ℕ}
    (h : WindowsLeft termCounts lambda bound (windowsLeft + 2) start remainingLoad)
    (hgrows : WindowGrows termCounts lambda start (termCounts.length - (windowsLeft + 1))
      ((remainingLoad + (windowsLeft + 2) - 1) / (windowsLeft + 2)) start 0 stop load) :
    start < stop ∧ load = loadBetween termCounts lambda start stop ∧ load ≤ remainingLoad ∧
      load ≤ bound + largestLoad termCounts lambda ∧
      WindowsLeft termCounts lambda bound (windowsLeft + 1) stop (remainingLoad - load) := by
  have henough := h.enough
  obtain ⟨htaken, hexit⟩ :=
    hgrows.taken (Nat.sub_le _ _) (windowTaken_start (Nat.le_sub_of_add_le (by omega)))
  have hordered := htaken.ordered
  have hwithin := htaken.within
  have hnonempty : start < stop := by
    apply lt_of_le_of_ne hordered
    rintro rfl
    exact hexit ⟨by omega, .inl rfl⟩
  have hrest : load + loadBetween termCounts lambda stop termCounts.length = remainingLoad := by
    rw [htaken.load_eq, h.load_eq]
    exact loadBetween_add hordered (by omega)
  have hmean := h.target_le
  refine ⟨hnonempty, htaken.load_eq, by omega, ?_, by omega, by omega, ?_⟩
  · by_cases hopen : start + (windowsLeft + 2) = termCounts.length
    · -- one term is all this window may take
      exact (htaken.single (by omega)).trans (Nat.le_add_left _ _)
    · exact htaken.light.trans (Nat.add_le_add_right (hmean hopen) _)
  · by_cases hfull : stop = termCounts.length - (windowsLeft + 1)
    · -- the terms kept back are all that is left
      exact .inr (by omega)
    · left
      have hreached := not_lt.mp fun hlow =>
        hexit ⟨lt_of_le_of_ne hwithin hfull, .inr hlow⟩
      exact remaining_le_of_mean_le (h.even.resolve_right (by omega)) hreached

/-- The last window takes what is left. -/
theorem WindowsLeft.last (h : WindowsLeft termCounts lambda bound 1 start remainingLoad) :
    loadBetween termCounts lambda start termCounts.length
      ≤ bound + largestLoad termCounts lambda := by
  rcases h.even with hmean | hone
  · rw [← h.load_eq]
    exact (hmean.trans_eq (Nat.one_mul _)).trans (Nat.le_add_right _ _)
  · have hstart : start < termCounts.length := h.enough
    rw [← hone, loadBetween_succ le_rfl, loadBetween_self, Nat.zero_add]
    exact (loadOf_le_largestLoad hstart).trans (Nat.le_add_left _ _)

/-- What is said of every window: it is not empty, and its load is bounded. -/
def TermWindow.Light (termCounts : List ℕ) (lambda bound : ℕ) (w : TermWindow) : Prop :=
  w.start < w.stop ∧
    loadBetween termCounts lambda w.start w.stop ≤ bound + largestLoad termCounts lambda

/-- The windows still to come: the loop makes them, one for each left, all of them light. -/
theorem makeWindowsFrom_even {batches : ℕ} (windows : List TermWindow)
    (hmade : windows.length + (windowsLeft + 1) = batches)
    (h : WindowsLeft termCounts lambda bound (windowsLeft + 1) start remainingLoad) :
    WindowLoop termCounts lambda batches windows start remainingLoad
        (windows ++ makeWindowsFrom termCounts lambda (windowsLeft + 1) start remainingLoad) ∧
      (makeWindowsFrom termCounts lambda (windowsLeft + 1) start remainingLoad).length
        = windowsLeft + 1 ∧
      ∀ w ∈ makeWindowsFrom termCounts lambda (windowsLeft + 1) start remainingLoad,
        w.Light termCounts lambda bound := by
  have hstart : start < termCounts.length :=
    (Nat.lt_add_of_pos_right (Nat.succ_pos windowsLeft)).trans_le h.enough
  induction windowsLeft generalizing windows start remainingLoad with
  | zero =>
      rw [makeWindowsFrom, if_pos hstart]
      refine ⟨.last hstart (by omega) (by omega), rfl, ?_⟩
      rintro w hw
      rw [List.mem_singleton.mp hw]
      exact ⟨hstart, h.last⟩
  | succ windowsLeft ih =>
      have hgrows := growWindow_grows termCounts lambda start
        (termCounts.length - (windowsLeft + 1))
        ((remainingLoad + (windowsLeft + 2) - 1) / (windowsLeft + 2))
        (termCounts.length - (windowsLeft + 1) - start) start 0 (by omega)
      rw [makeWindowsFrom, if_pos hstart]
      dsimp only
      generalize growWindow termCounts lambda start _ _ _ start 0 = grown at hgrows ⊢
      obtain ⟨stop, load⟩ := grown
      obtain ⟨hnonempty, hload, hle, hlight, hnext⟩ := h.step hgrows
      have hstop : stop < termCounts.length :=
        (Nat.lt_add_of_pos_right (Nat.succ_pos windowsLeft)).trans_le hnext.enough
      have hkept : windowsLeft + 1 ≤ termCounts.length :=
        (Nat.le_add_left _ _).trans hnext.enough
      obtain ⟨hloop, hlength, hall⟩ := ih (windows ++ [⟨start, stop⟩])
        (by rw [List.length_append, List.length_singleton]; omega) hnext hstop
      refine ⟨?_, ?_, List.forall_mem_cons.mpr ⟨⟨hnonempty, ?_⟩, hall⟩⟩
      · rw [List.append_assoc, List.singleton_append] at hloop
        exact .step hstart hmade (Nat.le_add_left 2 _) hkept hgrows hle hloop
      · rw [List.length_cons, hlength]
      · rw [← hload]
        exact hlight

/-- **The windows are even.**  The loop ends with `batches` windows and no difference in it
wraps around; they are not empty, follow one another from the first term to the last, and none
of them carries more than the mean load and the heaviest term. -/
theorem makeWindows_even (termCounts : List ℕ) (lambda batches : ℕ) (hpos : 1 ≤ batches)
    (hdim : batches ≤ termCounts.length) :
    WindowLoop termCounts lambda batches [] 0 ((termCounts.map (loadOf lambda)).sum)
        (makeWindows termCounts lambda batches) ∧
      (makeWindows termCounts lambda batches).length = batches ∧
      Contiguous 0 termCounts.length (makeWindows termCounts lambda batches) ∧
      ∀ w ∈ makeWindows termCounts lambda batches, w.start < w.stop ∧
        loadBetween termCounts lambda w.start w.stop
          ≤ ((termCounts.map (loadOf lambda)).sum + batches - 1) / batches
            + largestLoad termCounts lambda := by
  obtain ⟨windowsLeft, rfl⟩ := Nat.exists_eq_add_of_le' hpos
  have hmean : (termCounts.map (loadOf lambda)).sum ≤ (windowsLeft + 1)
      * (((termCounts.map (loadOf lambda)).sum + (windowsLeft + 1) - 1) / (windowsLeft + 1)) := by
    show _ ≤ (windowsLeft + 1) * (((termCounts.map (loadOf lambda)).sum + windowsLeft) / _)
    have hdiv := Nat.lt_mul_div_succ ((termCounts.map (loadOf lambda)).sum + windowsLeft)
      (Nat.succ_pos windowsLeft)
    rw [Nat.mul_succ, Nat.succ_eq_add_one] at hdiv
    omega
  have hleft : WindowsLeft termCounts lambda _ (windowsLeft + 1) 0
      (termCounts.map (loadOf lambda)).sum :=
    ⟨loadBetween_all.symm, (Nat.zero_add _).trans_le hdim, .inl hmean⟩
  obtain ⟨hloop, hlength, hall⟩ := makeWindowsFrom_even [] (Nat.zero_add _) hleft
  exact ⟨hloop, hlength, makeWindows_contiguous termCounts lambda _, hall⟩

/-- Three terms in two windows: the heavy one has a window of its own. -/
theorem makeWindows_even_three :
    (makeWindows [5, 0, 1] 1 2).length = 2 ∧ makeWindows [5, 0, 1] 1 2 = [⟨0, 1⟩, ⟨1, 3⟩] :=
  ⟨(makeWindows_even [5, 0, 1] 1 2 (by decide) (by decide)).2.1, by decide⟩

end Nsparse
