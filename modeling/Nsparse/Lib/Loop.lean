/-
Nsparse/Lib/Loop.lean

Loops that may or may not end, run with fuel.

`iterate body fuel s` runs `body` until it answers `none`, the loop's `break`,
and answers `none` itself when the fuel is spent first.  Fuel is a bound of the
embedding and not of the program: an invariant whose rank falls at every round gives
an answer and the invariant at the exit (`iterate_of_rank`).
-/
import Mathlib.Tactic

namespace Loop

variable {σ : Type*}

/-- Run `body` until it breaks, for at most `fuel` rounds. -/
def iterate (body : σ → Option σ) : ℕ → σ → Option σ
  | 0, _ => none
  | fuel + 1, s =>
      match body s with
      | none => some s
      | some s' => iterate body fuel s'

variable {body : σ → Option σ}

/-- A ranked invariant: each round keeps it at a smaller rank.  Then the loop ends, with
the invariant, in a state where the body breaks. -/
theorem iterate_of_rank (I : ℕ → σ → Prop)
    (hstep : ∀ r s s', I r s → body s = some s' → ∃ r' < r, I r' s') :
    ∀ (fuel r : ℕ) (s : σ), I r s → r < fuel →
      ∃ res r', iterate body fuel s = some res ∧ I r' res ∧ body res = none := by
  intro fuel
  induction fuel with
  | zero => intro r s _ hr; omega
  | succ fuel ih =>
      intro r s hI hr
      rcases hb : body s with - | s'
      · exact ⟨s, r, by simp [iterate, hb], hI, hb⟩
      · obtain ⟨r₁, hlt, hI'⟩ := hstep r s s' hI hb
        obtain ⟨res, r', hres, hIr, hbr⟩ := ih r₁ s' hI' (by omega)
        exact ⟨res, r', by simpa [iterate, hb] using hres, hIr, hbr⟩

/-- What every round keeps holds at the exit. -/
theorem iterate_invariant (I : σ → Prop) (hstep : ∀ s s', I s → body s = some s' → I s') {fuel : ℕ}
    {s r : σ} (h : iterate body fuel s = some r) (hs : I s) : I r := by
  induction fuel generalizing s with
  | zero => cases h
  | succ fuel ih =>
      rw [iterate] at h
      rcases hb : body s with - | s'
      · rw [hb] at h
        exact Option.some.inj h ▸ hs
      · rw [hb] at h
        exact ih h (hstep s s' hs hb)

/-- The state a loop ends in is reached by rounds, and there is none after it. -/
theorem reaches_of_iterate {fuel : ℕ} {s r : σ} (h : iterate body fuel s = some r) :
    Relation.ReflTransGen (fun s s' => body s = some s') s r ∧ body r = none := by
  induction fuel generalizing s with
  | zero => cases h
  | succ fuel ih =>
      rw [iterate] at h
      rcases hb : body s with - | s'
      · rw [hb] at h
        obtain rfl := Option.some.inj h
        exact ⟨.refl, hb⟩
      · rw [hb] at h
        obtain ⟨hreach, hbreak⟩ := ih h
        exact ⟨.head hb hreach, hbreak⟩

/-- A loop that carries more than another one and looks like it from there ends like it. -/
theorem iterate_map {τ : Type*} {proj : τ → σ} {I : τ → Prop} {body' : τ → Option τ}
    (h : ∀ t, I t → (body' t).map proj = body (proj t) ∧ ∀ t', body' t = some t' → I t')
    (fuel : ℕ) {t : τ} (ht : I t) :
    (iterate body' fuel t).map proj = iterate body fuel (proj t) ∧
      ∀ t', iterate body' fuel t = some t' → I t' := by
  induction fuel generalizing t with
  | zero => exact ⟨rfl, nofun⟩
  | succ fuel ih =>
      obtain ⟨hproj, hkeeps⟩ := h t ht
      rw [iterate, iterate]
      rcases hb : body' t with - | t'
      · rw [hb] at hproj
        rw [← hproj]
        exact ⟨rfl, fun t' heq => Option.some.inj heq ▸ ht⟩
      · rw [hb] at hproj
        rw [← hproj]
        exact ih (hkeeps t' hb)

end Loop
