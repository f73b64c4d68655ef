/-
Nsparse/ListAgreement.lean

The two readers of a posting-list section walk one layout.

A list ends in `count` words of a declared `width`, and only there can its readers
part.  `WordSection` is what the bytes declare about that end, and one step of the
walk (`SectionOutcome`) says what the two readers do with it: both throw, the copying
one overruns its buffer for the padding, the mapped one alone throws because the
words are misaligned in memory, or both read the same.  The step is the same for both kinds
of lists; `Rejects` and `Accepts` sum it up over a whole section.
-/
import Nsparse.ListReaders

namespace Nsparse

open Wire

variable {α β : Type}

namespace WordSection

variable (s : WordSection)

/-- Both readers reject: the bytes end before the words, or there is no width, or the words are
more than a `size_t` counts, or end where no buffer reaches. -/
def Rejected (size : ℕ) : Prop :=
  size < s.start ∨ s.width = 0 ∨ 2 ^ 64 ≤ s.count * s.width ∨ (s.Padded ∧ 2 ^ 63 ≤ s.next)

/-- The words can be loaded from a mapping at `base`. -/
def Loadable (base : ℕ) : Prop := s.count = 0 ∨ s.width ∣ base

end WordSection

/-- What the copying reader `r` and the mapped reader `m` do with a list at `pos`. -/
inductive SectionOutcome (r : Reader Fault α) (m : Reader Exception α) (data : Bytes)
    (base pos : ℕ) (s : WordSection) : Prop
  | short (hr : r ⟨data, pos⟩ = .error .short)
  | rejected (e : Exception) (e' : Exception) (hr : r ⟨data, pos⟩ = .error (.thrown e))
      (hm : m ⟨data, pos⟩ = .error e') (h : s.Rejected data.length)
  | overrun (hr : r ⟨data, pos⟩ = .error .overrun) (h : ¬ s.Rejected data.length)
      (hpad : ¬ s.Padded)
  | misaligned (a : α) (e : Exception) (hr : r ⟨data, pos⟩ = .ok (a, ⟨data, s.next⟩))
      (hm : m ⟨data, pos⟩ = .error e) (h : ¬ s.Rejected data.length) (hpad : s.Padded)
      (hload : ¬ s.Loadable base) (hlen : s.next ≤ data.length)
  | read (a : α) (hr : r ⟨data, pos⟩ = .ok (a, ⟨data, s.next⟩))
      (hm : m ⟨data, pos⟩ = .ok (a, ⟨data, s.next⟩)) (h : ¬ s.Rejected data.length)
      (hpad : s.Padded) (hload : s.Loadable base) (hlen : s.next ≤ data.length)

/-- A walk up to the words, and then what happens there. -/
theorem Walks.outcome {r : Reader Fault α} {m : Reader Exception α} {k : α → Reader Fault β}
    {k' : α → Reader Exception β} {data : Bytes} {base pos mid : ℕ} {a : α} {s : WordSection}
    (h : Walks r m data pos mid a) (hdata : data.length < 2 ^ 63) (hle : mid ≤ s.start)
    (h' : mid ≤ data.length → SectionOutcome (k a) (k' a) data base mid s) :
    SectionOutcome (r.bind k) (m.bind k') data base pos s := by
  cases h with
  | short e hr hm hlen => exact .short (by rw [Reader.bind, hr])
  | thrown e e' hr hm hlen =>
      exact .rejected e e' (by rw [Reader.bind, hr]) (by rw [Reader.bind, hm])
        (.inl (hdata.trans_le (hlen.trans hle)))
  | read hr hm hpos hlen =>
      have hk : r.bind k ⟨data, pos⟩ = k a ⟨data, mid⟩ := by rw [Reader.bind, hr]
      have hk' : m.bind k' ⟨data, pos⟩ = k' a ⟨data, mid⟩ := by rw [Reader.bind, hm]
      cases h' hlen with
      | short hr' => exact .short (hk.trans hr')
      | rejected e e' hr' hm' h => exact .rejected e e' (hk.trans hr') (hk'.trans hm') h
      | overrun hr' h hpad => exact .overrun (hk.trans hr') h hpad
      | misaligned b e hr' hm' h hpad hload hend =>
          exact .misaligned b e (hk.trans hr') (hk'.trans hm') h hpad hload hend
      | read b hr' hm' h hpad hload hend =>
          exact .read b (hk.trans hr') (hk'.trans hm') h hpad hload hend

theorem SectionOutcome.map {r : Reader Fault α} {m : Reader Exception α} {data : Bytes}
    {base pos : ℕ} {s : WordSection} (f : α → β) (h : SectionOutcome r m data base pos s) :
    SectionOutcome (r.map f) (m.map f) data base pos s := by
  cases h with
  | short hr => exact .short (by rw [Reader.map, hr])
  | rejected e e' hr hm h =>
      exact .rejected e e' (by rw [Reader.map, hr]) (by rw [Reader.map, hm]) h
  | overrun hr h hpad => exact .overrun (by rw [Reader.map, hr]) h hpad
  | misaligned a e hr hm h hpad hload hend =>
      exact .misaligned (f a) e (by rw [Reader.map, hr]) (by rw [Reader.map, hm]) h hpad hload hend
  | read a hr hm h hpad hload hend =>
      exact .read (f a) (by rw [Reader.map, hr]) (by rw [Reader.map, hm]) h hpad hload hend

/-! ### The words of one list -/

/-- **The words.**  The readers part where padding overruns the buffer and where the width does
not divide the address of the mapping. -/
theorem words_outcome {data : Bytes} {base : ℕ} (misaligned : String) {s : WordSection}
    (hdata : data.length < 2 ^ 63) (hpos : s.start ≤ data.length) :
    SectionOutcome (IOReader.guarded.readWords s.count s.width)
      (borrowWords base misaligned s.count s.width) data base s.start s := by
  obtain ⟨count, width, start⟩ := s
  dsimp only at hpos ⊢
  by_cases hover : 2 ^ 64 ≤ count * width
  · refine .rejected _ (.runtimeError "size overflow in index file")
      (readWords_of_overflow hover _) ?_ (.inr (.inr (.inl hover)))
    rw [borrowWords, checkedMul, if_pos hover]
  rw [not_le] at hover
  rcases Nat.eq_zero_or_pos width with hzero | hwidth
  · subst hzero
    refine .rejected zeroWidth zeroWidth ?_ ?_ (.inr (.inl rfl))
    · rw [readWords_of_lt hover]
      rfl
    · rw [borrowWords_of_lt hover]
      rfl
  by_cases hpad : padding start width ≤ kMaxAlignment
  · -- the padding is read, so the two agree on the bytes of the words
    have hwalk := walks_readPadded .byte Nat.one_pos (count * width) hwidth hpad (one_dvd _) hdata
      hpos
    rw [show Codec.byte.width = 1 from rfl, Nat.mul_one] at hwalk
    cases hwalk with
    | short e hr hm hlen => exact .short (by rwa [readWords_of_lt hover])
    | thrown e e' hr hm hlen =>
        refine .rejected e e' (by rwa [readWords_of_lt hover]) ?_ (.inr (.inr (.inr ⟨hpad, hlen⟩)))
        rw [borrowWords_of_lt hover, hm]
    | read hr hm hle hlen =>
        have hrej : ¬ WordSection.Rejected ⟨count, width, start⟩ data.length := by
          rintro (h | h | h | ⟨-, h⟩)
          · exact absurd h (not_lt.mpr hpos)
          · exact hwidth.ne' h
          · exact absurd h (not_le.mpr hover)
          · exact absurd (h.trans hlen) (not_le.mpr hdata)
        have hstart : (alignTo start width + count * width - count * width + base) % width
            = base % width := by
          have hdvd : width ∣ alignTo start width := dvd_add_padding start hwidth
          rw [Nat.add_sub_cancel, Nat.add_mod, Nat.mod_eq_zero_of_dvd hdvd, zero_add, Nat.mod_mod]
        have hm' := @borrowWords_of_lt base count width misaligned hover ⟨data, start⟩
        rw [hm] at hm'
        dsimp only at hm'
        rw [hstart] at hm'
        by_cases hload : count = 0 ∨ width ∣ base
        · refine .read _ (by rwa [readWords_of_lt hover]) ?_ hrej hpad hload hlen
          refine hm'.trans (if_neg ?_)
          rintro ⟨hcount, hne⟩
          rcases hload with h0 | hdvd
          · exact hcount.ne' h0
          · exact hne (Nat.mod_eq_zero_of_dvd hdvd)
        · refine .misaligned _ (.runtimeError misaligned) (by rwa [readWords_of_lt hover]) ?_ hrej
            hpad hload hlen
          obtain ⟨hcount, hdvd⟩ := not_or.mp hload
          exact hm'.trans
            (if_pos ⟨Nat.pos_of_ne_zero hcount, fun h => hdvd (Nat.dvd_of_mod_eq_zero h)⟩)
  · rw [not_le] at hpad
    rcases le_or_gt (alignTo start width) data.length with h | h
    · refine .overrun ?_ ?_ (not_le.mpr hpad)
      · rw [readWords_of_lt hover, IOReader.readPadded, Reader.bind,
          guarded_skipPadding_overrun hpad hwidth h]
      · rintro (h | h | h | ⟨h, -⟩)
        · exact absurd h (not_lt.mpr hpos)
        · exact hwidth.ne' h
        · exact absurd h (not_le.mpr hover)
        · exact absurd h (not_le.mpr hpad)
    · refine .short ?_
      rw [readWords_of_lt hover, IOReader.readPadded, Reader.bind,
        guarded_skipPadding_short hwidth hpos h]

/-! ### Lists one after the other -/

section Walk

variable (layout : ℕ → WordSection) (size base : ℕ)

/-- The copying reader throws at one of `n` lists from `pos` on. -/
def Rejects : ℕ → ℕ → Prop
  | 0, _ => False
  | n + 1, pos =>
      (layout pos).Rejected size ∨ ((layout pos).Padded ∧ Rejects n (layout pos).next)

/-- Both readers come to the end of `n` lists from `pos` on. -/
def Accepts : ℕ → ℕ → Prop
  | 0, _ => True
  | n + 1, pos =>
      ¬ (layout pos).Rejected size ∧ (layout pos).Padded ∧ (layout pos).Loadable base ∧
        Accepts n (layout pos).next

theorem Accepts.not_rejects {layout : ℕ → WordSection} {size base n pos : ℕ}
    (h : Accepts layout size base n pos) : ¬ Rejects layout size n pos := by
  induction n generalizing pos with
  | zero => exact id
  | succ n ih =>
      rintro (hrej | ⟨-, hrej⟩)
      · exact h.1 hrej
      · exact ih h.2.2.2 hrej

end Walk

/-- What the two readers do with several lists. -/
inductive WalkOutcome (r : Reader Fault (List α)) (m : Reader Exception (List α)) (data : Bytes)
    (pos n : ℕ) (rejects accepts : Prop) : Prop
  | short (hr : r ⟨data, pos⟩ = .error .short)
  | rejected (e : Exception) (e' : Exception) (hr : r ⟨data, pos⟩ = .error (.thrown e))
      (hm : m ⟨data, pos⟩ = .error e') (h : rejects)
  | accepted (as : List α) (stop : ℕ) (hr : r ⟨data, pos⟩ = .ok (as, ⟨data, stop⟩))
      (hm : m ⟨data, pos⟩ = .ok (as, ⟨data, stop⟩)) (h : accepts)
      (hroom : pos + 8 * n ≤ stop) (hstop : stop ≤ data.length)
  | overrun (hr : r ⟨data, pos⟩ = .error .overrun) (h : ¬ rejects) (h' : ¬ accepts)
  | misaligned (as : List α) (stop : ℕ) (e : Exception)
      (hr : r ⟨data, pos⟩ = .ok (as, ⟨data, stop⟩)) (hm : m ⟨data, pos⟩ = .error e)
      (h : ¬ rejects) (h' : ¬ accepts) (hroom : pos + 8 * n ≤ stop) (hstop : stop ≤ data.length)

/-- **Step by step through the lists**: the readers of one list decide what those of a section
do.  A list on which only the mapped reader throws makes them differ unless the copying reader throws
at a later one. -/
theorem readMany_outcome {r : Reader Fault α} {m : Reader Exception α} {data : Bytes} {base : ℕ}
    {layout : ℕ → WordSection} (hroom : ∀ pos, pos + 8 ≤ (layout pos).next)
    (h : ∀ pos, pos ≤ data.length → SectionOutcome r m data base pos (layout pos)) (n : ℕ) {pos : ℕ}
    (hpos : pos ≤ data.length) :
    WalkOutcome (readMany r n) (readMany m n) data pos n (Rejects layout data.length n pos)
      (Accepts layout data.length base n pos) := by
  induction n generalizing pos with
  | zero => exact .accepted [] pos rfl rfl trivial le_rfl hpos
  | succ n ih =>
      have hnext := hroom pos
      cases h pos hpos with
      | short hr => exact .short (by rw [readMany, hr])
      | rejected e e' hr hm hrej =>
          exact .rejected e e' (by rw [readMany, hr]) (by rw [readMany, hm]) (.inl hrej)
      | overrun hr hrej hpad =>
          refine .overrun (by rw [readMany, hr]) ?_ fun hacc => hpad hacc.2.1
          rintro (h | h)
          · exact hrej h
          · exact hpad h.1
      | misaligned a e hr hm hrej hpad hload hend =>
          -- the mapped reader stops here, and what the copying one does is up to the later lists
          have hm' : readMany m (n + 1) ⟨data, pos⟩ = .error e := by rw [readMany, hm]
          have hnot : ¬ Accepts layout data.length base (n + 1) pos := fun hacc => hload hacc.2.2.1
          have hlater : ∀ _ : ¬ Rejects layout data.length n (layout pos).next,
              ¬ Rejects layout data.length (n + 1) pos := fun hn => by
            rintro (h | h)
            · exact hrej h
            · exact hn h.2
          cases ih hend with
          | short hr' => exact .short (by rw [readMany, hr]; dsimp only; rw [hr'])
          | rejected e' e'' hr' hm'' hrej' =>
              exact .rejected e' e (by rw [readMany, hr]; dsimp only; rw [hr']) hm'
                (.inr ⟨hpad, hrej'⟩)
          | accepted as stop hr' hm'' hacc hroom' hstop =>
              exact .misaligned (a :: as) stop e (by rw [readMany, hr]; dsimp only; rw [hr']) hm'
                (hlater hacc.not_rejects) hnot (by omega) hstop
          | overrun hr' hn hn' =>
              exact .overrun (by rw [readMany, hr]; dsimp only; rw [hr']) (hlater hn) hnot
          | misaligned as stop e' hr' hm'' hn hn' hroom' hstop =>
              exact .misaligned (a :: as) stop e (by rw [readMany, hr]; dsimp only; rw [hr']) hm'
                (hlater hn) hnot (by omega) hstop
      | read a hr hm hrej hpad hload hend =>
          have hlater : ∀ _ : ¬ Rejects layout data.length n (layout pos).next,
              ¬ Rejects layout data.length (n + 1) pos := fun hn => by
            rintro (h | h)
            · exact hrej h
            · exact hn h.2
          cases ih hend with
          | short hr' => exact .short (by rw [readMany, hr]; dsimp only; rw [hr'])
          | rejected e e' hr' hm' hrej' =>
              exact .rejected e e' (by rw [readMany, hr]; dsimp only; rw [hr'])
                (by rw [readMany, hm]; dsimp only; rw [hm']) (.inr ⟨hpad, hrej'⟩)
          | accepted as stop hr' hm' hacc hroom' hstop =>
              exact .accepted (a :: as) stop (by rw [readMany, hr]; dsimp only; rw [hr'])
                (by rw [readMany, hm]; dsimp only; rw [hm']) ⟨hrej, hpad, hload, hacc⟩ (by omega)
                hstop
          | overrun hr' hn hn' =>
              exact .overrun (by rw [readMany, hr]; dsimp only; rw [hr']) (hlater hn)
                fun hacc => hn' hacc.2.2.2
          | misaligned as stop e hr' hm' hn hn' hroom' hstop =>
              exact .misaligned (a :: as) stop e (by rw [readMany, hr]; dsimp only; rw [hr'])
                (by rw [readMany, hm]; dsimp only; rw [hm']) (hlater hn)
                (fun hacc => hn' hacc.2.2.2) (by omega) hstop

theorem WalkOutcome.sameOutcome_iff {r : Reader Fault (List α)} {m : Reader Exception (List α)}
    {data : Bytes} {pos n : ℕ} {rejects accepts : Prop}
    (h : WalkOutcome r m data pos n rejects accepts) (hshort : r ⟨data, pos⟩ ≠ .error .short) :
    SameOutcome (r ⟨data, pos⟩) (m ⟨data, pos⟩) ↔ rejects ∨ accepts := by
  cases h with
  | short hr => exact absurd hr hshort
  | rejected e e' hr hm h =>
      rw [hr, hm]
      exact iff_of_true trivial (.inl h)
  | accepted as stop hr hm h hroom hstop =>
      rw [hr, hm]
      exact iff_of_true rfl (.inr h)
  | overrun hr h h' =>
      rw [hr]
      exact iff_of_false id (not_or.mpr ⟨h, h'⟩)
  | misaligned as stop e hr hm h h' hroom hstop =>
      rw [hr, hm]
      exact iff_of_false id (not_or.mpr ⟨h, h'⟩)

/-- The limit on the number of lists changes nothing: the copying reader would run short. -/
theorem WalkOutcome.afterCheck {r : Reader Fault (List α)} {m : Reader Exception (List α)}
    {data : Bytes} {pos n : ℕ} {rejects accepts : Prop}
    (h : WalkOutcome r m data pos n rejects accepts) :
    WalkOutcome r ((ArrayInvertedLists.throwIfTooManyTerms n).bind fun _ => m) data pos n rejects
      accepts := by
  by_cases hmany : (Cursor.mk data pos).remaining / sizeCodec.width < n
  · have hthrow : ∃ e, (ArrayInvertedLists.throwIfTooManyTerms n).bind (fun _ => m) ⟨data, pos⟩
        = .error e := ⟨_, by rw [Reader.bind, ArrayInvertedLists.throwIfTooManyTerms, if_pos hmany]⟩
    have hfull : ∀ stop, pos + 8 * n ≤ stop → ¬ stop ≤ data.length := fun stop hroom hstop => by
      have hmany' : (data.length - pos) / 8 < n := hmany
      omega
    obtain ⟨e', hm'⟩ := hthrow
    cases h with
    | short hr => exact .short hr
    | rejected e _ hr hm h => exact .rejected e e' hr hm' h
    | accepted as stop hr hm h hroom hstop => exact absurd hstop (hfull stop hroom)
    | overrun hr h h' => exact .overrun hr h h'
    | misaligned as stop e hr hm h h' hroom hstop => exact absurd hstop (hfull stop hroom)
  · have hsame : (ArrayInvertedLists.throwIfTooManyTerms n).bind (fun _ => m) ⟨data, pos⟩
        = m ⟨data, pos⟩ := by
      rw [Reader.bind, ArrayInvertedLists.throwIfTooManyTerms, if_neg hmany]
    cases h with
    | short hr => exact .short hr
    | rejected e e' hr hm h => exact .rejected e e' hr (hsame.trans hm) h
    | accepted as stop hr hm h hroom hstop =>
        exact .accepted as stop hr (hsame.trans hm) h hroom hstop
    | overrun hr h h' => exact .overrun hr h h'
    | misaligned as stop e hr hm h h' hroom hstop =>
        exact .misaligned as stop e hr (hsame.trans hm) h h' hroom hstop

/-! ### Clustered lists -/

section Layout

variable (data : Bytes) (pos : ℕ)

/-- Where the offsets of a clustered list are counted. -/
def offsetCountAt : ℕ := arrayEnd (pos + 8) 4 (sizeCodec.readAt data pos)

/-- Where its number of clusters is, and behind that its width and its number of terms. -/
def clusterCountAt : ℕ :=
  arrayEnd (offsetCountAt data pos + 8) 4 (sizeCodec.readAt data (offsetCountAt data pos))

/-- Where its entries are counted. -/
def entryCountAt : ℕ :=
  let nTerms := sizeCodec.readAt data (clusterCountAt data pos + 16)
  let termsAt := clusterCountAt data pos + 24
  if nTerms > 0 then arrayEnd (arrayEnd termsAt 2 nTerms) 4 (nTerms + 1) else termsAt

/-- The summary values of the clustered list at `pos`. -/
def clusterSection : WordSection where
  count := sizeCodec.readAt data (entryCountAt data pos)
  width := sizeCodec.readAt data (clusterCountAt data pos + 8)
  start := arrayEnd (entryCountAt data pos + 8) 2 (sizeCodec.readAt data (entryCountAt data pos))

/-- The values of the plain list at `pos`, in an index of this width. -/
def postingSection (elementSize : ℕ) : WordSection where
  count := sizeCodec.readAt data pos
  width := elementSize
  start := arrayEnd (pos + 8) 4 (sizeCodec.readAt data pos)

end Layout

variable {data : Bytes} {pos : ℕ}

theorem offsetCountAt_ge (data : Bytes) (pos : ℕ) : pos + 8 ≤ offsetCountAt data pos := le_arrayEnd _ _ _

theorem clusterCountAt_ge (data : Bytes) (pos : ℕ) : offsetCountAt data pos + 8 ≤ clusterCountAt data pos := le_arrayEnd _ _ _

theorem entryCountAt_ge (data : Bytes) (pos : ℕ) : clusterCountAt data pos + 24 ≤ entryCountAt data pos := by
  unfold entryCountAt
  dsimp only
  split
  · exact (le_arrayEnd _ _ _).trans (le_arrayEnd _ _ _)
  · exact le_rfl

theorem clusterSection_start_ge (data : Bytes) (pos : ℕ) : entryCountAt data pos + 8 ≤ (clusterSection data pos).start :=
  le_arrayEnd _ _ _

theorem clusterSection_room (data : Bytes) (pos : ℕ) : pos + 8 ≤ (clusterSection data pos).next := by
  have h := (clusterSection data pos).start_le_next
  have h1 := offsetCountAt_ge data pos
  have h2 := clusterCountAt_ge data pos
  have h3 := entryCountAt_ge data pos
  have h4 := clusterSection_start_ge data pos
  omega

theorem postingSection_room (data : Bytes) (elementSize pos : ℕ) :
    pos + 8 ≤ (postingSection data pos elementSize).next := by
  have hstart : pos + 8 ≤ (postingSection data pos elementSize).start := le_arrayEnd _ _ _
  exact hstart.trans (WordSection.start_le_next _)

theorem walks_termColumns {nTerms : ℕ} (hdata : data.length < 2 ^ 63) (hpos : pos ≤ data.length) :
    Walks (InvertedListClusters.readTermColumnsFrom .guarded nTerms)
      (InvertedListClusters.readTermColumns nTerms) data pos
      (if nTerms > 0 then arrayEnd (arrayEnd pos 2 nTerms) 4 (nTerms + 1) else pos)
      (if nTerms > 0 then (termCodec.arrayAt data (alignTo pos 2) nTerms,
        idxCodec.arrayAt data (alignTo (arrayEnd pos 2 nTerms) 4) (nTerms + 1)) else ([], [])) := by
  unfold InvertedListClusters.readTermColumnsFrom InvertedListClusters.readTermColumns
  split
  · exact (walks_term nTerms hdata hpos).bind (le_arrayEnd _ _ _) fun h => (walks_idx _ hdata h).map _
  · exact .read rfl rfl le_rfl hpos

/-- **A clustered list.** -/
theorem InvertedListClusters.deserialize_outcome (base : ℕ) (l : InvertedListClusters)
    (hdata : data.length < 2 ^ 63) (hpos : pos ≤ data.length) :
    SectionOutcome (InvertedListClusters.deserialize .guarded l)
      (InvertedListClusters.mmapDeserialize base) data base pos (clusterSection data pos) := by
  have h1 := offsetCountAt_ge data pos
  have h2 := clusterCountAt_ge data pos
  have h3 := entryCountAt_ge data pos
  have h4 := clusterSection_start_ge data pos
  have h5 : (clusterSection data pos).start = arrayEnd (entryCountAt data pos + 8) 2
    (sizeCodec.readAt data (entryCountAt data pos)) := rfl
  refine (walks_count 0 hpos).outcome hdata (by omega) fun hpos => ?_
  refine (walks_idx _ hdata hpos).outcome hdata
    (show offsetCountAt data pos ≤ (clusterSection data pos).start by omega) fun hpos => ?_
  refine (walks_count 0 hpos).outcome hdata
    (show offsetCountAt data pos + 8 ≤ (clusterSection data pos).start by omega) fun hpos => ?_
  refine (walks_idx _ hdata hpos).outcome hdata
    (show clusterCountAt data pos ≤ (clusterSection data pos).start by omega) fun hpos => ?_
  refine (walks_count _ hpos).outcome hdata
    (show clusterCountAt data pos + 8 ≤ (clusterSection data pos).start by omega) fun hpos => ?_
  refine (walks_count _ hpos).outcome hdata
    (show clusterCountAt data pos + 16 ≤ (clusterSection data pos).start by omega) fun hpos => ?_
  refine (walks_count 0 hpos).outcome hdata
    (show clusterCountAt data pos + 24 ≤ (clusterSection data pos).start by omega) fun hpos => ?_
  refine (walks_termColumns hdata hpos).outcome hdata
    (show entryCountAt data pos ≤ (clusterSection data pos).start by omega) fun hpos => ?_
  refine (walks_count 0 hpos).outcome hdata
    (show entryCountAt data pos + 8 ≤ (clusterSection data pos).start by omega) fun hpos => ?_
  refine (walks_term _ hdata hpos).outcome hdata h5.ge fun hpos => ?_
  have hwords := fun misaligned =>
    @words_outcome data base misaligned (clusterSection data pos) hdata hpos
  exact (hwords _).map _

/-- **A plain list.** -/
theorem InvertedList.deserialize_outcome (base elementSize : ℕ) (hdata : data.length < 2 ^ 63)
    (hpos : pos ≤ data.length) :
    SectionOutcome (InvertedList.deserialize .guarded elementSize)
      (InvertedList.mmapDeserialize base elementSize) data base pos
      (postingSection data pos elementSize) := by
  refine (walks_count 0 hpos).outcome hdata (le_arrayEnd _ _ _) fun hpos => ?_
  refine (walks_idx _ hdata hpos).outcome hdata le_rfl fun hpos => ?_
  have hwords := fun misaligned =>
    @words_outcome data base misaligned (postingSection data pos elementSize) hdata hpos
  exact (hwords _).map _

/-! ### Whole sections -/

/-- Some list of the section makes the copying reader throw, or none makes a reader fail. -/
def ClusteredSectionAgrees (data : Bytes) (base pos : ℕ) : Prop :=
  Rejects (clusterSection data) data.length (sizeCodec.readAt data pos) (pos + 8) ∨
    Accepts (clusterSection data) data.length base (sizeCodec.readAt data pos) (pos + 8)

/-- The section is of another width, or likewise. -/
def PostingSectionAgrees (data : Bytes) (base elementSize pos : ℕ) : Prop :=
  let layout := fun pos => postingSection data pos elementSize
  sizeCodec.readAt data (pos + 8) ≠ elementSize ∨
    Rejects layout data.length (sizeCodec.readAt data pos) (pos + 16) ∨
    Accepts layout data.length base (sizeCodec.readAt data pos) (pos + 16)

theorem unalarmed_deserializeLists :
    Unalarmed (deserializeLists .guarded) (deserializeLists .buffered) := by
  refine (unalarmed_readScalar _ _).bind fun size => Unalarmed.readMany ?_ size
  refine (unalarmed_readScalar _ _).bind fun nDocs => ?_
  refine (unalarmed_readPadded _ _ _).bind fun docs => ?_
  refine (unalarmed_readScalar _ _).bind fun nOffsets => ?_
  refine (unalarmed_readPadded _ _ _).bind fun offsets => ?_
  refine (unalarmed_readScalar _ _).bind fun nClusters => ?_
  refine (unalarmed_readScalar _ _).bind fun elementSize => ?_
  refine (unalarmed_readScalar _ _).bind fun nTerms => ?_
  refine Unalarmed.bind ?_ fun columns => ?_
  · unfold InvertedListClusters.readTermColumnsFrom
    split
    · exact (unalarmed_readPadded _ _ _).bind fun termIds => (unalarmed_readPadded _ _ _).map _
    · exact .refl _
  · refine (unalarmed_readScalar _ _).bind fun nnz => ?_
    exact (unalarmed_readPadded _ _ _).bind fun cscCluster => (unalarmed_readWords _ _).map _

theorem unalarmed_arrayInvertedLists (elementSize : ℕ) :
    Unalarmed (ArrayInvertedLists.read .guarded elementSize)
      (ArrayInvertedLists.read .buffered elementSize) := by
  refine (unalarmed_readScalar _ _).bind fun nTerm => ?_
  refine (unalarmed_readScalar _ _).bind fun stored => ?_
  refine (Unalarmed.refl _).bind fun _ => Unalarmed.readMany ?_ nTerm
  refine (unalarmed_readScalar _ _).bind fun listSize => ?_
  exact (unalarmed_readPadded _ _ _).bind fun docIds => (unalarmed_readWords _ _).map _

theorem deserializeLists_agrees_iff (base : ℕ) (hdata : data.length < 2 ^ 63)
    (hpos : pos ≤ data.length) (hshort : deserializeLists .guarded ⟨data, pos⟩ ≠ .error .short) :
    SameOutcome (deserializeLists .guarded ⟨data, pos⟩) (mmapDeserializeLists base ⟨data, pos⟩) ↔
      ClusteredSectionAgrees data base pos := by
  rcases readScalar_cases sizeCodec 0 hpos with ⟨-, hr, -⟩ | ⟨hlen, hr, hm⟩
  · exact absurd (by rw [deserializeLists, Reader.bind, hr]) hshort
  · have hr' : deserializeLists .guarded ⟨data, pos⟩
        = readMany (InvertedListClusters.deserialize .guarded .empty) (sizeCodec.readAt data pos)
          ⟨data, pos + 8⟩ := by
      rw [deserializeLists, Reader.bind, hr]
      rfl
    have hm' : mmapDeserializeLists base ⟨data, pos⟩
        = readMany (InvertedListClusters.mmapDeserialize base) (sizeCodec.readAt data pos)
          ⟨data, pos + 8⟩ := by
      rw [mmapDeserializeLists, Reader.bind, hm]
      rfl
    rw [hr'] at hshort ⊢
    rw [hm']
    exact (readMany_outcome (clusterSection_room data)
      (fun pos hpos => InvertedListClusters.deserialize_outcome base _ hdata hpos) _
      hlen).sameOutcome_iff hshort

theorem arrayInvertedLists_agrees_iff (base elementSize : ℕ) (hdata : data.length < 2 ^ 63)
    (hpos : pos ≤ data.length)
    (hshort : ArrayInvertedLists.read .guarded elementSize ⟨data, pos⟩ ≠ .error .short) :
    SameOutcome (ArrayInvertedLists.read .guarded elementSize ⟨data, pos⟩)
      (ArrayInvertedLists.map base elementSize ⟨data, pos⟩) ↔
      PostingSectionAgrees data base elementSize pos := by
  rcases readScalar_cases sizeCodec 0 hpos with ⟨-, hr, -⟩ | ⟨hlen, hr, hm⟩
  · exact absurd (by rw [ArrayInvertedLists.read, Reader.bind, hr]) hshort
  rcases readScalar_cases sizeCodec 0 hlen with ⟨-, hr₂, -⟩ | ⟨hlen₂, hr₂, hm₂⟩
  · exact absurd (by rw [ArrayInvertedLists.read, Reader.bind, hr]; dsimp only; rw [Reader.bind, hr₂])
      hshort
  have hcopy : ∀ x, ArrayInvertedLists.throwIfForeignElementSize
      (sizeCodec.readAt data (pos + 8)) elementSize = x →
      ArrayInvertedLists.read .guarded elementSize ⟨data, pos⟩
        = (IOReader.check x).bind (fun _ => readMany (InvertedList.deserialize .guarded elementSize)
          (sizeCodec.readAt data pos)) ⟨data, pos + 16⟩ := fun x hx => by
    rw [ArrayInvertedLists.read, Reader.bind, hr]
    dsimp only
    rw [Reader.bind, hr₂, ← hx]
    rfl
  have hmap : ∀ x, ArrayInvertedLists.throwIfForeignElementSize
      (sizeCodec.readAt data (pos + 8)) elementSize = x →
      ArrayInvertedLists.map base elementSize ⟨data, pos⟩
        = (Reader.lift x).bind (fun _ =>
          (ArrayInvertedLists.throwIfTooManyTerms (sizeCodec.readAt data pos)).bind fun _ =>
          readMany (InvertedList.mmapDeserialize base elementSize)
          (sizeCodec.readAt data pos)) ⟨data, pos + 16⟩ := fun x hx => by
    rw [ArrayInvertedLists.map, Reader.bind, hm]
    dsimp only
    rw [Reader.bind, hm₂, ← hx]
    rfl
  by_cases hforeign : sizeCodec.readAt data (pos + 8) ≠ elementSize
  · rw [hcopy _ (if_pos hforeign), hmap _ (if_pos hforeign)]
    exact iff_of_true trivial (.inl hforeign)
  · rw [hcopy _ (if_neg hforeign)] at hshort ⊢
    rw [hmap _ (if_neg hforeign)]
    have hwalk := fun n => readMany_outcome (postingSection_room data elementSize)
      (fun pos hpos => InvertedList.deserialize_outcome base elementSize hdata hpos) n hlen₂
    exact ((hwalk _).afterCheck.sameOutcome_iff hshort).trans (or_iff_right hforeign).symm

/-- **The two readers of a posting-list section agree exactly when no width gets in the way.**
At every page, wherever the section starts, and for both kinds of sections: whenever the copying
reader does not run short, its outcome and that of the mapped reader are the same if and only if
the copying reader throws at some list before its padding overran, or every list up to the end
needs at most 8 bytes of padding and has no values or a width that divides the address. -/
theorem posting_sections_agree_iff (data : Bytes) (page pos : ℕ) (hdata : data.length < 2 ^ 63)
    (hpos : pos ≤ data.length) :
    (deserializeLists .guarded ⟨data, pos⟩ ≠ .error .short →
      (SameOutcome (deserializeLists .buffered ⟨data, pos⟩)
          (mmapDeserializeLists (4096 * page) ⟨data, pos⟩) ↔
        ClusteredSectionAgrees data (4096 * page) pos)) ∧
    ∀ elementSize, ArrayInvertedLists.read .guarded elementSize ⟨data, pos⟩ ≠ .error .short →
      (SameOutcome (ArrayInvertedLists.read .buffered elementSize ⟨data, pos⟩)
          (ArrayInvertedLists.map (4096 * page) elementSize ⟨data, pos⟩) ↔
        PostingSectionAgrees data (4096 * page) elementSize pos) := by
  refine ⟨fun hshort => ?_, fun elementSize hshort => ?_⟩
  · rw [← (unalarmed_deserializeLists ⟨data, pos⟩).resolve_left hshort]
    exact deserializeLists_agrees_iff _ hdata hpos hshort
  · rw [← (unalarmed_arrayInvertedLists elementSize ⟨data, pos⟩).resolve_left hshort]
    exact arrayInvertedLists_agrees_iff _ _ hdata hpos hshort

/-- A section of one clustered list with a value of 3 bytes. -/
def oddWidthSection : Bytes :=
  serializeLists false [⟨1, 3, [], [], [], [], [0], [1, 2, 3]⟩] []

theorem posting_sections_agree_iff_odd_width :
    SameOutcome (deserializeLists .buffered ⟨oddWidthSection, 0⟩)
        (mmapDeserializeLists (4096 * 3) ⟨oddWidthSection, 0⟩) ↔
      ClusteredSectionAgrees oddWidthSection (4096 * 3) 0 :=
  (posting_sections_agree_iff oddWidthSection 3 0 (by decide) (by decide)).1 (by decide)

set_option maxRecDepth 10000 in
/-- In the second page of the address space the copying reader takes what the mapped one rejects. -/
theorem mapped_reader_alone_rejects_odd_width :
    deserializeLists .guarded ⟨oddWidthSection, 0⟩ ≠ .error .short ∧
      ¬ SameOutcome (deserializeLists .buffered ⟨oddWidthSection, 0⟩)
        (mmapDeserializeLists (4096 * 1) ⟨oddWidthSection, 0⟩) := by
  decide

end Nsparse
