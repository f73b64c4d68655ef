/-
Nsparse/Lib/Truncation.lean

What a reader makes of bytes that end too early.

A reader that is not told when the bytes run out may take a cut file for a shorter one.
`Cut raised s r N P` says what `r` does on the bytes that `s` wrote when some of the
last are missing: where `N` notices the cut it raises an error, elsewhere it gives back
a value, of which `P` says more, and stands at the end of the bytes.  What follows a cut
that was not noticed reads from nothing (`AtEnd`, `FailsAtEnd`).  Cuts compose along the
text of a format, as round trips do: sequences (`Cut.bind`) and repetitions
(`Cut.readMany`).
-/
import Nsparse.Lib.Wire

namespace Wire

variable {ε α β : Type}

/-! ### Nothing left -/

/-- With nothing left to read, `r` gives back `a`. -/
def AtEnd (r : Reader ε α) (a : α) : Prop :=
  ∀ data : Bytes, r ⟨data, data.length⟩ = .ok (a, ⟨data, data.length⟩)

/-- With nothing left to read, `r` raises an error. -/
def FailsAtEnd (raised : ε → Prop) (r : Reader ε α) : Prop :=
  ∀ data : Bytes, ∃ e, raised e ∧ r ⟨data, data.length⟩ = .error e

variable {raised : ε → Prop} {r : Reader ε α} {k : α → Reader ε β} {a : α} {b : β}

theorem AtEnd.bind (h : AtEnd r a) (h' : AtEnd (k a) b) : AtEnd (r.bind k) b := fun data =>
  (Reader.bind_of_ok (h data)).trans (h' data)

theorem AtEnd.map (f : α → β) (h : AtEnd r a) : AtEnd (r.map f) (f a) := fun data => by
  rw [Reader.map, h data]

theorem AtEnd.fails (h : AtEnd r a) (h' : FailsAtEnd raised (k a)) :
    FailsAtEnd raised (r.bind k) := fun data => by
  obtain ⟨e, he, hk⟩ := h' data
  exact ⟨e, he, (Reader.bind_of_ok (h data)).trans hk⟩

theorem FailsAtEnd.bind (h : FailsAtEnd raised r) : FailsAtEnd raised (r.bind k) := fun data => by
  obtain ⟨e, he, hr⟩ := h data
  exact ⟨e, he, Reader.bind_of_error hr⟩

theorem FailsAtEnd.map (f : α → β) (h : FailsAtEnd raised r) :
    FailsAtEnd raised (r.map f) := fun data => by
  obtain ⟨e, he, hr⟩ := h data
  refine ⟨e, he, ?_⟩
  rw [Reader.map, hr]

theorem AtEnd.readMany (h : AtEnd r a) (n : ℕ) : AtEnd (readMany r n) (List.replicate n a) := by
  induction n with
  | zero => exact fun _ => rfl
  | succ n ih =>
      intro data
      rw [Wire.readMany, h data]
      dsimp only
      rw [ih data]
      rfl

/-- Reads can be grouped as one likes. -/
theorem Reader.bind_assoc {γ : Type} (r : Reader ε α) (k : α → Reader ε β) (l : β → Reader ε γ) :
    r.bind (fun a => (k a).bind l) = (r.bind k).bind l := by
  funext c
  unfold Reader.bind
  cases r c with
  | error e => rfl
  | ok p => rfl

theorem Reader.map_bind {γ : Type} (r : Reader ε α) (k : α → Reader ε β) (f : β → γ) :
    r.bind (fun a => (k a).map f) = (r.bind k).map f := by
  funext c
  rw [Reader.map, Reader.bind, Reader.bind]
  cases r c with
  | error e => rfl
  | ok p => rfl

theorem Reader.bind_map {γ : Type} (r : Reader ε α) (f : α → β) (k : β → Reader ε γ) :
    (r.map f).bind k = r.bind fun a => k (f a) := by
  funext c
  rw [Reader.bind, Reader.map, Reader.bind]
  cases r c with
  | error e => rfl
  | ok p => rfl

theorem Reader.map_map {γ : Type} (r : Reader ε α) (f : α → β) (g : β → γ) :
    (r.map f).map g = r.map (g ∘ f) := by
  funext c
  rw [Reader.map, Reader.map, Reader.map]
  cases r c with
  | error e => rfl
  | ok p => rfl

/-! ### Cuts -/

/-- Which cuts are noticed, by the bytes written before and the length that is left in all. -/
abbrev Notices := Bytes → ℕ → Prop

/-- The bytes that `s` wrote behind `w`, without the last ones. -/
structure IsCut (s : Writer) (w data : Bytes) : Prop where
  part : data <+: s w
  behind : w.length ≤ data.length
  short : data.length < (s w).length

/-- `r` on what is left of the bytes that `s` wrote; `P` says what is read when so many bytes are
left of them. -/
structure Cut (raised : ε → Prop) (s : Writer) (r : Reader ε α) (N : Notices) (P : ℕ → α → Prop) :
    Prop where
  noticed : ∀ w data, IsCut s w data → N w data.length →
    ∃ e, raised e ∧ r ⟨data, w.length⟩ = .error e
  unnoticed : ∀ w data, IsCut s w data → ¬ N w data.length →
    ∃ a, P (data.length - w.length) a ∧ r ⟨data, w.length⟩ = .ok (a, ⟨data, data.length⟩)

namespace Notices

/-- No cut is noticed. -/
def never : Notices := fun _ _ => False

/-- Every cut is. -/
def always : Notices := fun _ _ => True

/-- The cuts of what `s` wrote, and of what was written behind it. -/
def seq (s : Writer) (N M : Notices) : Notices := fun w m =>
  if m < (s w).length then N w m else M (s w) m

/-- The cuts of several values, one behind the other. -/
def many (s : α → Writer) (N : α → Notices) : List α → Notices
  | [] => never
  | x :: xs => seq (s x) (N x) (many s N xs)

@[simp] theorem seq_always (s : Writer) : seq s always always = always := by
  funext w m
  unfold seq
  split <;> rfl

@[simp] theorem seq_never (s : Writer) : seq s never never = never := by
  funext w m
  unfold seq
  split <;> rfl

theorem seq_congr {s : Writer} {N N' M M' : Notices} (hN : ∀ w m, w.length ≤ m → (N w m ↔ N' w m))
    (hM : ∀ w m, w.length ≤ m → (M w m ↔ M' w m)) {w : Bytes} {m : ℕ} (hm : w.length ≤ m) :
    seq s N M w m ↔ seq s N' M' w m := by
  unfold seq
  split
  · exact hN w m hm
  · exact hM (s w) m (by omega)

end Notices

section Combinators

variable {s t : Writer} {N M : Notices} {P : ℕ → α → Prop} {Q : β → Prop}

/-- Nothing is cut off nothing. -/
theorem Cut.nothing : Cut raised id r N P where
  noticed _ _ h := absurd h.short (not_lt.mpr h.behind)
  unnoticed _ _ h := absurd h.short (not_lt.mpr h.behind)

/-- Only the cuts that there are count. -/
theorem Cut.congr (h : Cut raised s r N P)
    (hiff : ∀ w m, w.length ≤ m → m < (s w).length → (N w m ↔ M w m)) :
    Cut raised s r M P where
  noticed w data hcut hM := h.noticed w data hcut ((hiff w _ hcut.behind hcut.short).mpr hM)
  unnoticed w data hcut hM :=
    h.unnoticed w data hcut fun hN => hM ((hiff w _ hcut.behind hcut.short).mp hN)

/-- When every cut is noticed there is nothing to say about what is read. -/
theorem Cut.always {P' : ℕ → α → Prop} (h : Cut raised s r .always P) :
    Cut raised s r .always P' where
  noticed := h.noticed
  unnoticed _ _ _ hnot := absurd trivial hnot

theorem Cut.mono {P' : ℕ → α → Prop} (h : Cut raised s r N P) (himp : ∀ j a, P j a → P' j a) :
    Cut raised s r N P' where
  noticed := h.noticed
  unnoticed w data hcut hN := by
    obtain ⟨a, ha, hr⟩ := h.unnoticed w data hcut hN
    exact ⟨a, himp _ a ha, hr⟩

theorem Cut.map (f : α → β) {P' : ℕ → β → Prop} (h : Cut raised s r N P)
    (hf : ∀ j a, P j a → P' j (f a)) : Cut raised s (r.map f) N P' where
  noticed w data hcut hN := by
    obtain ⟨e, he, hr⟩ := h.noticed w data hcut hN
    refine ⟨e, he, ?_⟩
    rw [Reader.map, hr]
  unnoticed w data hcut hN := by
    obtain ⟨a, ha, hr⟩ := h.unnoticed w data hcut hN
    refine ⟨f a, hf _ a ha, ?_⟩
    rw [Reader.map, hr]

/-- What is left of a cut section that was written in one piece. -/
theorem IsCut.eq_append {bs w data : Bytes} (h : IsCut (emit bs) w data) :
    data = w ++ bs.take (data.length - w.length) := by
  have htake := List.prefix_iff_eq_take.mp h.part
  rwa [emit, List.take_append, List.take_of_length_le h.behind] at htake

/-- A cut of two values is one of the first, or the first is whole. -/
theorem IsCut.split (ht : Appends t) {w data : Bytes}
    (h : IsCut (s.andThen t) w data) :
    (data.length < (s w).length ∧ IsCut s w data) ∨
      (s w).length ≤ data.length ∧ IsCut t (s w) data ∧ ∃ rest, data = s w ++ rest := by
  rcases lt_or_ge data.length (s w).length with hlt | hge
  · exact .inl ⟨hlt, List.prefix_of_prefix_length_le h.part (ht (s w)) hlt.le, h.behind, hlt⟩
  · obtain ⟨rest, hrest⟩ := List.prefix_of_prefix_length_le (ht (s w)) h.part hge
    exact .inr ⟨hge, ⟨h.part, hge, h.short⟩, rest, hrest.symm⟩

/-- **Sequencing.**  Behind a cut that is not noticed the rest is read from nothing, and where that
is `loud` it fails. -/
theorem Cut.bind {loud : ℕ → Prop} (hs : Cut raised s r N P) (hr : RoundTrips s r a)
    (ht : Appends t) (hk : Cut raised t (k a) M fun _ => Q)
    (hloud : ∀ j a', P j a' → loud j → FailsAtEnd raised (k a'))
    (hquiet : ∀ j a', P j a' → ¬ loud j → ∃ b, Q b ∧ AtEnd (k a') b) :
    Cut raised (s.andThen t) (r.bind k)
      (.seq s (fun w m => N w m ∨ loud (m - w.length)) M) fun _ => Q where
  noticed w data hcut hN := by
    rcases hcut.split ht with ⟨hlt, hfirst⟩ | ⟨hge, hsecond, rest, rfl⟩
    · rw [Notices.seq, if_pos hlt] at hN
      by_cases hfirstN : N w data.length
      · obtain ⟨e, he, hread⟩ := hs.noticed w data hfirst hfirstN
        exact ⟨e, he, Reader.bind_of_error hread⟩
      · obtain ⟨a', ha', hread⟩ := hs.unnoticed w data hfirst hfirstN
        obtain ⟨e, he, hfail⟩ := hloud _ a' ha' (hN.resolve_left hfirstN) data
        exact ⟨e, he, (Reader.bind_of_ok hread).trans hfail⟩
    · rw [Notices.seq, if_neg (not_lt.mpr hge)] at hN
      obtain ⟨e, he, hread⟩ := hk.noticed (s w) _ hsecond hN
      exact ⟨e, he, (Reader.bind_of_ok (hr.reads w rest)).trans hread⟩
  unnoticed w data hcut hN := by
    rcases hcut.split ht with ⟨hlt, hfirst⟩ | ⟨hge, hsecond, rest, rfl⟩
    · rw [Notices.seq, if_pos hlt, not_or] at hN
      obtain ⟨a', ha', hread⟩ := hs.unnoticed w data hfirst hN.1
      obtain ⟨b, hb, hat⟩ := hquiet _ a' ha' hN.2
      exact ⟨b, hb, (Reader.bind_of_ok hread).trans (hat data)⟩
    · rw [Notices.seq, if_neg (not_lt.mpr hge)] at hN
      obtain ⟨b, hb, hread⟩ := hk.unnoticed (s w) _ hsecond hN
      exact ⟨b, hb, (Reader.bind_of_ok (hr.reads w rest)).trans hread⟩

/-- When the rest reads from nothing without notice. -/
theorem Cut.bindQuiet (hs : Cut raised s r N P) (hr : RoundTrips s r a) (ht : Appends t)
    (hk : Cut raised t (k a) M fun _ => Q)
    (hquiet : ∀ j a', P j a' → ∃ b, Q b ∧ AtEnd (k a') b) :
    Cut raised (s.andThen t) (r.bind k) (.seq s N M) fun _ => Q := by
  have hbind := @Cut.bind _ _ _ _ _ _ _ _ _ _ _ _ _ (fun _ => False) hs hr ht hk
    (fun _ _ _ hfalse => hfalse.elim) fun j a' ha' _ => hquiet j a' ha'
  refine hbind.congr fun w m hm _ => Notices.seq_congr ?_ (fun _ _ _ => Iff.rfl) hm
  exact fun w m _ => or_iff_left id

/-- When the rest fails on nothing, every cut of the first value is noticed after all. -/
theorem Cut.bindFails (hs : Cut raised s r N P) (hr : RoundTrips s r a) (ht : Appends t)
    (hk : Cut raised t (k a) M fun _ => Q)
    (hloud : ∀ j a', P j a' → FailsAtEnd raised (k a')) :
    Cut raised (s.andThen t) (r.bind k) (.seq s .always M) fun _ => Q := by
  have hbind := @Cut.bind _ _ _ _ _ _ _ _ _ _ _ _ _ (fun _ => True) hs hr ht hk
    (fun j a' ha' _ => hloud j a' ha') fun _ _ _ hnot => absurd trivial hnot
  refine hbind.congr fun w m hm _ => Notices.seq_congr ?_ (fun _ _ _ => Iff.rfl) hm
  exact fun w m _ => iff_of_true (.inr trivial) trivial

/-- When every cut of either is noticed. -/
theorem Cut.bindAll (hs : Cut raised s r .always P) (hr : RoundTrips s r a) (ht : Appends t)
    (hk : Cut raised t (k a) .always fun _ => Q) :
    Cut raised (s.andThen t) (r.bind k) .always fun _ => Q := by
  have hfirst : Cut raised s r .always fun _ _ => False := hs.always
  have hbind := hfirst.bindQuiet hr ht hk fun _ _ hfalse => hfalse.elim
  rwa [Notices.seq_always] at hbind

/-- **Repetition.** -/
theorem Cut.readMany {s : α → Writer} {N : α → Notices} {xs : List α} {empty : α}
    (hr : ∀ x ∈ xs, RoundTrips (s x) r x)
    (h : ∀ x ∈ xs, Cut raised (s x) r (N x) fun _ _ => True) (hend : AtEnd r empty) :
    Cut raised (writeMany s xs) (readMany r xs.length) (.many s N xs)
      fun _ as => as.length = xs.length := by
  induction xs with
  | nil => exact Cut.nothing
  | cons x xs ih =>
      obtain ⟨hx, hxs⟩ := List.forall_mem_cons.mp hr
      obtain ⟨hcut, hcuts⟩ := List.forall_mem_cons.mp h
      have htail := RoundTrips.readMany hxs
      -- one more value is one read and then the others
      have hstep : Wire.readMany r (x :: xs).length
          = r.bind fun a => (Wire.readMany r xs.length).map (a :: ·) := by
        funext c
        rw [List.length_cons, Wire.readMany, Reader.bind]
        cases r c with
        | error e => rfl
        | ok p =>
            dsimp only
            rw [Reader.map]
            cases Wire.readMany r xs.length p.2 with
            | error e => rfl
            | ok q => rfl
      rw [hstep]
      refine hcut.bindQuiet hx htail.appends ((ih hxs hcuts).map _ fun _ as has => ?_) fun _ a _ => ?_
      · exact congrArg Nat.succ has
      · refine ⟨_, ?_, (hend.readMany xs.length).map (a :: ·)⟩
        rw [List.length_cons, List.length_replicate, List.length_cons]

end Combinators

/-! ### Scalars -/

/-- A scalar that is cut short: its first `j` bytes, and the others of what was there before. -/
def Codec.overlay (c : Codec α) (init a : α) (j : ℕ) : α :=
  c.dec ((c.enc a).take j ++ (c.enc init).drop j)

/-- With all its bytes it is the scalar. -/
theorem Codec.overlay_of_le {c : Codec α} {a : α} (h : c.Fits a) (init : α) {j : ℕ}
    (hj : c.width ≤ j) : c.overlay init a j = a := by
  rw [Codec.overlay, List.take_of_length_le (by rwa [c.length_enc]),
    List.drop_of_length_le (by rwa [c.length_enc]), List.append_nil]
  exact h

/-- The number that the first bytes of `n` stand for. -/
theorem leNat_take_leBytes (width n j : ℕ) :
    leNat ((leBytes width n).take j) = n % 256 ^ min j width := by
  induction width generalizing n j with
  | zero => rw [leBytes, List.take_nil, Nat.min_zero, pow_zero, Nat.mod_one, leNat]
  | succ width ih =>
      cases j with
      | zero => rw [List.take_zero, Nat.zero_min, pow_zero, Nat.mod_one, leNat]
      | succ j =>
          have hbyte : (UInt8.ofNat (n % 256)).toNat = n % 256 := by
            rw [UInt8.toNat_ofNat']
            omega
          rw [leBytes, List.take_succ_cons, leNat, ih, hbyte, Nat.succ_min_succ, pow_succ',
            Nat.mod_mul]

/-- Over zeros that is all there is. -/
theorem Codec.overlay_nat_zero (width n j : ℕ) :
    (Codec.nat width).overlay 0 n j = n % 256 ^ min j width := by
  show leNat ((leBytes width n).take j ++ (leBytes width 0).drop j) = _
  rw [leBytes_zero, List.drop_replicate, leNat_append_zeros, leNat_take_leBytes]

/-- One byte of a small number is all of it. -/
theorem Codec.overlay_nat_zero_ne_iff {width n : ℕ} (hwidth : 0 < width) (hpos : 0 < n)
    (hlt : n < 256) (j : ℕ) : (Codec.nat width).overlay 0 n j ≠ n ↔ j = 0 := by
  rw [overlay_nat_zero]
  rcases Nat.eq_zero_or_pos j with rfl | hj
  · rw [Nat.zero_min, pow_zero, Nat.mod_one]
    exact iff_of_true hpos.ne rfl
  · have hbig : n < 256 ^ min j width :=
      lt_of_lt_of_le ((pow_one 256).symm ▸ hlt) (Nat.pow_le_pow_right (by decide) (by omega))
    exact iff_of_false (not_not.mpr (Nat.mod_eq_of_lt hbig)) hj.ne'

end Wire
