/-
Nsparse/Lib/CountingSort.lean

Counting sort into compressed columns: count the items of every column, sum the
counts into offsets, and place each item at its column's next free slot.

The three passes are the usual ones on arrays.  The offset of a column is the number
of items in the columns before it (`getD_offsets`), placing keeps what holds of all
slots (`forall_mem_place`), and reading a column gives its items in the order they
came in (`map_place_offsets`).  When the items are the entries of rows, that transposes
the rows (`itemsOf_itemsOf_rowItems`).
-/
import Mathlib.Data.List.GetD
import Mathlib.Tactic

namespace CountingSort

variable {α : Type*}

/-- The items of each of `n` columns, counted one place to the right. -/
def countColumns (n : ℕ) (columns : List ℕ) : List ℕ :=
  columns.foldl (fun ptr column => ptr.modify (column + 1) (· + 1)) (List.replicate (n + 1) 0)

/-- Running sums over the first `n` places. -/
def prefixSums (n : ℕ) (ptr : List ℕ) : List ℕ :=
  (List.range n).foldl (fun ptr t => ptr.modify (t + 1) (· + ptr.getD t 0)) ptr

/-- The offset of every column and the total. -/
def offsets (n : ℕ) (columns : List ℕ) : List ℕ := prefixSums n (countColumns n columns)

/-- Put every item at its column's cursor, which moves on. -/
def place (cursor : List ℕ) (out : List α) : List (ℕ × α) → List α
  | [] => out
  | (column, a) :: items =>
      place (cursor.modify column (· + 1)) (out.set (cursor.getD column 0) a) items

@[simp] theorem length_countColumns (n : ℕ) (columns : List ℕ) :
    (countColumns n columns).length = n + 1 := by
  have key : ∀ (columns : List ℕ) (ptr : List ℕ),
      (columns.foldl (fun ptr column => ptr.modify (column + 1) (· + 1)) ptr).length
        = ptr.length := by
    intro columns
    induction columns with
    | nil => intro ptr; rfl
    | cons column columns ih => intro ptr; rw [List.foldl_cons, ih, List.length_modify]
  rw [countColumns, key, List.length_replicate]

@[simp] theorem length_prefixSums (n : ℕ) (ptr : List ℕ) :
    (prefixSums n ptr).length = ptr.length := by
  have key : ∀ (ts : List ℕ) (ptr : List ℕ),
      (ts.foldl (fun ptr t => ptr.modify (t + 1) (· + ptr.getD t 0)) ptr).length
        = ptr.length := by
    intro ts
    induction ts with
    | nil => intro ptr; rfl
    | cons t ts ih => intro ptr; rw [List.foldl_cons, ih, List.length_modify]
  exact key _ ptr

@[simp] theorem length_offsets (n : ℕ) (columns : List ℕ) :
    (offsets n columns).length = n + 1 := by
  rw [offsets, length_prefixSums, length_countColumns]

@[simp] theorem length_place (cursor : List ℕ) (out : List α) (items : List (ℕ × α)) :
    (place cursor out items).length = out.length := by
  induction items generalizing cursor out with
  | nil => rfl
  | cons item items ih =>
      obtain ⟨column, a⟩ := item
      rw [place, ih, List.length_set]

/-! ### Offsets -/

/-- How often each column occurs. -/
theorem getD_countColumns {n p : ℕ} (hp : p ≤ n) (columns : List ℕ) :
    (countColumns n columns).getD p 0 = columns.countP (fun c => c + 1 = p) := by
  have key : ∀ (columns : List ℕ) (ptr : List ℕ), ptr.length = n + 1 →
      (columns.foldl (fun ptr column => ptr.modify (column + 1) (· + 1)) ptr).getD p 0
        = ptr.getD p 0 + columns.countP (fun c => c + 1 = p) := by
    intro columns
    induction columns with
    | nil => intro ptr _; rfl
    | cons column columns ih =>
        intro ptr hlen
        rw [List.foldl_cons, ih _ (by rw [List.length_modify, hlen]), List.countP_cons]
        have hget : (ptr.modify (column + 1) (· + 1)).getD p 0
            = ptr.getD p 0 + if decide (column + 1 = p) = true then 1 else 0 := by
          have hin : p < ptr.length := by omega
          rw [List.getD_eq_getElem _ _ (by rwa [List.length_modify]), List.getElem_modify,
            List.getD_eq_getElem _ _ hin]
          split <;> simp [*]
        rw [hget]
        omega
  rw [countColumns, key columns _ (List.length_replicate), List.getD_replicate _ (by omega),
    Nat.zero_add]

/-- The places up to the last one passed hold sums, the others what they held. -/
theorem getD_prefixSums {n : ℕ} {ptr : List ℕ} (hlen : ptr.length = n + 1) {p : ℕ} (hp : p ≤ n) :
    (prefixSums n ptr).getD p 0 = ((List.range (p + 1)).map fun i => ptr.getD i 0).sum := by
  have key : ∀ m ≤ n, ((List.range m).foldl
      (fun ptr t => ptr.modify (t + 1) (· + ptr.getD t 0)) ptr).length = n + 1 ∧
      ∀ p ≤ n, ((List.range m).foldl
        (fun ptr t => ptr.modify (t + 1) (· + ptr.getD t 0)) ptr).getD p 0
        = if p ≤ m then ((List.range (p + 1)).map fun i => ptr.getD i 0).sum
          else ptr.getD p 0 := by
    intro m
    induction m with
    | zero =>
        refine fun _ => ⟨hlen, fun p _ => ?_⟩
        split
        · rename_i h
          rw [Nat.le_zero.mp h]
          simp
        · rfl
    | succ m ih =>
        intro hm
        obtain ⟨hlength, hvals⟩ := ih (by omega)
        rw [List.range_succ, List.foldl_append, List.foldl_cons, List.foldl_nil]
        refine ⟨by rw [List.length_modify, hlength], fun p hp => ?_⟩
        rw [List.getD_eq_getElem _ _ (by rw [List.length_modify]; omega), List.getElem_modify,
          ← List.getD_eq_getElem _ 0, hvals p hp, hvals m (by omega), if_pos le_rfl]
        by_cases hpm : m + 1 = p
        · subst hpm
          have hlast : ((List.range (m + 1 + 1)).map fun i => ptr.getD i 0).sum
              = ((List.range (m + 1)).map fun i => ptr.getD i 0).sum + ptr.getD (m + 1) 0 := by
            rw [List.range_succ, List.map_append, List.sum_append, List.map_singleton,
              List.sum_singleton]
          rw [if_pos rfl, if_neg (by omega), if_pos le_rfl, hlast, add_comm]
        · rw [if_neg hpm]
          by_cases hle : p ≤ m
          · rw [if_pos hle, if_pos (by omega)]
          · rw [if_neg hle, if_neg (by omega)]
  rw [prefixSums, (key n le_rfl).2 p hp, if_pos hp]

/-- **The offset of a column** is the number of items in the columns before it. -/
theorem getD_offsets {n p : ℕ} (hp : p ≤ n) (columns : List ℕ) :
    (offsets n columns).getD p 0 = columns.countP (· < p) := by
  have hsum : ∀ m, ((List.range m).map fun i => columns.countP (fun c => c + 1 = i)).sum
      = columns.countP (· + 1 < m) := by
    intro m
    induction m with
    | zero => simp
    | succ m ih =>
        rw [List.range_succ, List.map_append, List.sum_append, ih, List.map_singleton,
          List.sum_singleton]
        clear ih
        induction columns with
        | nil => rfl
        | cons c columns ih =>
            simp only [List.countP_cons, decide_eq_true_eq]
            split_ifs <;> omega
  rw [offsets, getD_prefixSums (length_countColumns n columns) hp,
    List.map_congr_left fun i hi => getD_countColumns
      (Nat.le_of_lt_succ ((List.mem_range.mp hi).trans_le (Nat.succ_le_succ hp))) columns, hsum]
  simp

/-! ### Placing -/

/-- What holds of the initial slots and of every item holds of every slot. -/
theorem forall_mem_place {p : α → Prop} {cursor : List ℕ} {out : List α} {items : List (ℕ × α)}
    (hout : ∀ a ∈ out, p a) (hitems : ∀ item ∈ items, p item.2) :
    ∀ a ∈ place cursor out items, p a := by
  induction items generalizing cursor out with
  | nil => exact hout
  | cons item items ih =>
      obtain ⟨column, b⟩ := item
      obtain ⟨hb, hrest⟩ := List.forall_mem_cons.mp hitems
      refine ih (fun a ha => ?_) hrest
      rcases List.mem_or_eq_of_mem_set ha with h | h
      · exact hout a h
      · rw [h]
        exact hb

/-- The items of one column, in order. -/
def itemsOf (items : List (ℕ × α)) (column : ℕ) : List α :=
  (items.filter fun item => item.1 = column).map Prod.snd

theorem itemsOf_append (items items' : List (ℕ × α)) (column : ℕ) :
    itemsOf (items ++ items') column = itemsOf items column ++ itemsOf items' column := by
  rw [itemsOf, List.filter_append, List.map_append]
  rfl

theorem itemsOf_singleton (c : ℕ) (a : α) (column : ℕ) :
    itemsOf [(c, a)] column = if c = column then [a] else [] := by
  unfold itemsOf
  by_cases h : c = column
  · rw [List.filter_cons_of_pos (by simpa using h), if_pos h]
    rfl
  · rw [List.filter_cons_of_neg (by simpa using h), if_neg h]
    rfl

/-- The number of items in the columns before one. -/
def baseOf (items : List (ℕ × α)) (column : ℕ) : ℕ := items.countP fun item => item.1 < column

theorem length_itemsOf (items : List (ℕ × α)) (column : ℕ) :
    (itemsOf items column).length = items.countP fun item => item.1 = column := by
  rw [itemsOf, List.length_map, List.countP_eq_length_filter]

/-- Columns follow one another. -/
theorem baseOf_add_length_le {items : List (ℕ × α)} {c c' : ℕ} (h : c < c') :
    baseOf items c + (itemsOf items c).length ≤ baseOf items c' := by
  rw [length_itemsOf]
  unfold baseOf
  induction items with
  | nil => simp
  | cons item items ih =>
      simp only [List.countP_cons, decide_eq_true_eq]
      split_ifs <;> omega

theorem baseOf_add_length_succ (items : List (ℕ × α)) (column : ℕ) :
    baseOf items column + (itemsOf items column).length = baseOf items (column + 1) := by
  rw [length_itemsOf]
  unfold baseOf
  induction items with
  | nil => rfl
  | cons item items ih =>
      simp only [List.countP_cons, decide_eq_true_eq]
      split_ifs <;> omega

theorem baseOf_le_length (items : List (ℕ × α)) (column : ℕ) : baseOf items column ≤ items.length :=
  List.countP_le_length

/-- The items placed so far stand in their columns, and each cursor behind those of its own. -/
structure Placed (n : ℕ) (base : ℕ → ℕ) (done : List (ℕ × α)) (cursor : List ℕ) (out : List α) :
    Prop where
  cursors : ∀ t < n, cursor[t]? = some (base t + (itemsOf done t).length)
  slots : ∀ t < n, ∀ j < (itemsOf done t).length, out[base t + j]? = (itemsOf done t)[j]?

/-- **Placing** keeps the items of every column together, in their order. -/
theorem place_spec {n : ℕ} {base : ℕ → ℕ} {rest done : List (ℕ × α)} {cursor : List ℕ}
    {out : List α} (h : Placed n base done cursor out) (hcolumns : ∀ item ∈ rest, item.1 < n)
    (hapart : ∀ t t', t < t' → base t + (itemsOf (done ++ rest) t).length ≤ base t')
    (hroom : ∀ t < n, base t + (itemsOf (done ++ rest) t).length ≤ out.length) :
    Placed n base (done ++ rest) (rest.foldl (fun cursor item => cursor.modify item.1 (· + 1)) cursor)
      (place cursor out rest) := by
  induction rest generalizing done cursor out with
  | nil =>
      rw [List.append_nil]
      exact h
  | cons item rest ih =>
      obtain ⟨c, a⟩ := item
      obtain ⟨hc, hrest⟩ := List.forall_mem_cons.mp hcolumns
      have hsplit : done ++ (c, a) :: rest = (done ++ [(c, a)]) ++ rest := by
        rw [List.append_assoc]
        rfl
      have hcursor : cursor.getD c 0 = base c + (itemsOf done c).length := by
        rw [List.getD_eq_getElem?_getD, h.cursors c hc]
        rfl
      have hgrown : ∀ t, (itemsOf (done ++ [(c, a)]) t).length
          ≤ (itemsOf (done ++ (c, a) :: rest) t).length := by
        intro t
        rw [hsplit, itemsOf_append _ rest, List.length_append]
        exact Nat.le_add_right _ _
      have hhere : (itemsOf (done ++ [(c, a)]) c).length = (itemsOf done c).length + 1 := by
        rw [itemsOf_append, itemsOf_singleton, if_pos rfl, List.length_append]
        rfl
      have hother : ∀ t, t ≠ c → itemsOf (done ++ [(c, a)]) t = itemsOf done t := by
        intro t ht
        rw [itemsOf_append, itemsOf_singleton, if_neg (Ne.symm ht), List.append_nil]
      rw [place, List.foldl_cons, hsplit]
      apply ih
      · refine ⟨fun t ht => ?_, fun t ht j hj => ?_⟩
        · rw [List.getElem?_modify, h.cursors t ht]
          by_cases htc : c = t
          · subst htc
            rw [hhere]
            simp [Nat.add_assoc]
          · rw [hother t (Ne.symm htc)]
            simp [htc]
        · rw [hcursor]
          by_cases htc : t = c
          · subst htc
            rw [hhere] at hj
            rw [itemsOf_append, itemsOf_singleton, if_pos rfl]
            rcases Nat.lt_succ_iff_lt_or_eq.mp hj with hlt | rfl
            · rw [List.getElem?_set_ne (by omega), List.getElem?_append_left hlt]
              exact h.slots t ht j hlt
            · have hin : base t + (itemsOf done t).length < out.length := by
                have h1 := hroom t ht
                have h2 := hgrown t
                omega
              rw [List.getElem?_set_self hin, List.getElem?_append_right le_rfl, Nat.sub_self]
              rfl
          · rw [hother t htc] at hj ⊢
            -- the slot written lies in another column
            have hne : base c + (itemsOf done c).length ≠ base t + j := by
              have hct := hgrown c
              have htt := hgrown t
              rw [hhere] at hct
              rw [hother t htc] at htt
              rcases Nat.lt_or_gt_of_ne htc with hlt | hgt
              · have := hapart t c hlt
                omega
              · have := hapart c t hgt
                omega
            rw [List.getElem?_set_ne hne]
            exact h.slots t ht j hj
      · exact hrest
      · rw [← hsplit]
        exact hapart
      · rw [← hsplit, List.length_set]
        exact hroom

/-- **The segment of a column** holds its items, in their order. -/
theorem getElem?_place_offsets {n : ℕ} {items : List (ℕ × α)} (hcolumns : ∀ item ∈ items, item.1 < n)
    {out : List α} (hlength : out.length = items.length) {t j : ℕ} (ht : t < n)
    (hj : j < (itemsOf items t).length) :
    (place (offsets n (items.map Prod.fst)).dropLast out items)[
        (offsets n (items.map Prod.fst)).getD t 0 + j]? = (itemsOf items t)[j]? := by
  have hbase : ∀ p ≤ n, (offsets n (items.map Prod.fst)).getD p 0 = baseOf items p := by
    intro p hp
    rw [getD_offsets hp, List.countP_map]
    rfl
  have hstart : Placed n (baseOf items) [] (offsets n (items.map Prod.fst)).dropLast out := by
    refine ⟨fun p hp => ?_, fun p _ i hi => absurd hi (Nat.not_lt_zero i)⟩
    have hlt : p < (offsets n (items.map Prod.fst)).length := by
      rw [length_offsets]
      omega
    have hget := hbase p hp.le
    rw [List.getD_eq_getElem _ _ hlt] at hget
    rw [List.dropLast_eq_take, List.getElem?_take_of_lt (by rw [length_offsets]; omega),
      List.getElem?_eq_getElem hlt, hget]
    rfl
  have hall := place_spec hstart hcolumns (fun p p' h => baseOf_add_length_le h) fun p _ => by
    rw [List.nil_append, hlength, baseOf_add_length_succ]
    exact baseOf_le_length items _
  rw [List.nil_append] at hall
  rw [hbase t ht.le]
  exact hall.slots t ht j hj

/-- The offsets of a column and of the next one enclose as many slots as it has items. -/
theorem getD_offsets_succ {n : ℕ} (items : List (ℕ × α)) {t : ℕ} (ht : t < n) :
    (offsets n (items.map Prod.fst)).getD (t + 1) 0
      = (offsets n (items.map Prod.fst)).getD t 0 + (itemsOf items t).length := by
  rw [getD_offsets ht, getD_offsets ht.le, List.countP_map, List.countP_map]
  exact (baseOf_add_length_succ items t).symm

/-- Reading a segment slot by slot. -/
theorem map_getD_range' {xs l : List α} {start : ℕ} (d : α)
    (h : ∀ j < l.length, xs[start + j]? = l[j]?) :
    (List.range' start l.length).map (fun p => xs.getD p d) = l := by
  apply List.ext_getElem
  · rw [List.length_map, List.length_range']
  · intro j _ hj
    rw [List.getElem_map, List.getElem_range', Nat.one_mul, List.getD_eq_getElem?_getD, h j hj,
      List.getElem?_eq_getElem hj]
    rfl

/-- **Reading a column** from the placed items gives its items. -/
theorem map_place_offsets {n : ℕ} {items : List (ℕ × α)} (hcolumns : ∀ item ∈ items, item.1 < n)
    {out : List α} (hlength : out.length = items.length) {t : ℕ} (ht : t < n) (d : α) :
    (List.range' ((offsets n (items.map Prod.fst)).getD t 0)
        ((offsets n (items.map Prod.fst)).getD (t + 1) 0
          - (offsets n (items.map Prod.fst)).getD t 0)).map
      (fun p => (place (offsets n (items.map Prod.fst)).dropLast out items).getD p d)
      = itemsOf items t := by
  rw [getD_offsets_succ items ht, Nat.add_sub_cancel_left]
  exact map_getD_range' d fun j hj => getElem?_place_offsets hcolumns hlength ht hj

/-! ### Items of rows -/

/-- The entries of the rows as items of their columns, each with the position of its row. -/
def rowItems (first : ℕ) (rows : List (List (ℕ × α))) : List (ℕ × ℕ × α) :=
  (rows.zipIdx first).flatMap fun r => r.1.map fun entry => (entry.1, r.2, entry.2)

theorem rowItems_cons (first : ℕ) (row : List (ℕ × α)) (rows : List (List (ℕ × α))) :
    rowItems first (row :: rows)
      = row.map (fun entry => (entry.1, first, entry.2)) ++ rowItems (first + 1) rows := by
  rw [rowItems, List.zipIdx_cons, List.flatMap_cons]
  rfl

/-- Columns and values may be changed before or after. -/
theorem rowItems_map {β : Type*} (column : ℕ → ℕ) (f : α → β) (first : ℕ)
    (rows : List (List (ℕ × α))) :
    rowItems first (rows.map fun row => row.map fun entry => (column entry.1, f entry.2))
      = (rows.zipIdx first).flatMap fun r =>
          r.1.map fun entry => (column entry.1, r.2, f entry.2) := by
  induction rows generalizing first with
  | nil => rfl
  | cons row rows ih =>
      rw [List.map_cons, rowItems_cons, ih, List.zipIdx_cons, List.flatMap_cons, List.map_map]
      rfl

/-- Without the positions the items are the entries. -/
theorem map_rowItems (first : ℕ) (rows : List (List (ℕ × α))) :
    (rowItems first rows).map (fun item => (item.1, item.2.2)) = rows.flatten := by
  induction rows generalizing first with
  | nil => rfl
  | cons row rows ih =>
      rw [rowItems_cons, List.map_append, ih, List.flatten_cons, List.map_map]
      exact congrArg (· ++ rows.flatten) (List.map_id row)

theorem map_fst_rowItems (first : ℕ) (rows : List (List (ℕ × α))) :
    (rowItems first rows).map Prod.fst = rows.flatten.map Prod.fst := by
  rw [← map_rowItems first, List.map_map]
  rfl

theorem le_of_mem_rowItems {first : ℕ} {rows : List (List (ℕ × α))} {item : ℕ × ℕ × α}
    (h : item ∈ rowItems first rows) : first ≤ item.2.1 := by
  simp only [rowItems, List.mem_flatMap, List.mem_map] at h
  obtain ⟨r, hr, entry, -, rfl⟩ := h
  exact (List.mk_mem_zipIdx_iff_le_and_getElem?_sub.mp hr).1

theorem itemsOf_map_const {β : Type*} (k column : ℕ) (f : α → β) (l : List α) :
    itemsOf (l.map fun x => (k, f x)) column = if k = column then l.map f else [] := by
  rw [itemsOf, List.filter_map, List.map_map]
  by_cases h : k = column
  · rw [if_pos h, List.filter_eq_self.mpr fun x _ => by simpa using h]
    rfl
  · rw [if_neg h, List.filter_eq_nil_iff.mpr fun x _ => by simpa using h]
    rfl

/-- Of the items of a column, those of one row are the row's own. -/
theorem itemsOf_itemsOf_rowItems (first : ℕ) (rows : List (List (ℕ × α))) (column r : ℕ) :
    itemsOf (itemsOf (rowItems first rows) column) (first + r)
      = itemsOf (rows.getD r []) column := by
  induction rows generalizing first r with
  | nil => rfl
  | cons row rows ih =>
      have hrow : itemsOf (row.map fun entry => (entry.1, first, entry.2)) column
          = (itemsOf row column).map fun a => (first, id a) := by
        rw [itemsOf, itemsOf, List.filter_map, List.map_map, List.map_map]
        rfl
      rw [rowItems_cons, itemsOf_append, itemsOf_append, hrow, itemsOf_map_const]
      cases r with
      | zero =>
          have hnone : itemsOf (itemsOf (rowItems (first + 1) rows) column) (first + 0) = [] := by
            rw [itemsOf, List.map_eq_nil_iff, List.filter_eq_nil_iff]
            intro item hitem heq
            obtain ⟨placed, hplaced, rfl⟩ := List.mem_map.mp hitem
            have hle := le_of_mem_rowItems (List.mem_filter.mp hplaced).1
            have hfirst : placed.2.1 = first + 0 := by simpa using heq
            rw [hfirst] at hle
            exact Nat.not_succ_le_self first hle
          rw [hnone, if_pos (Nat.add_zero first).symm, List.append_nil, List.map_id]
          rfl
      | succ r =>
          have hnext := ih (first + 1) r
          rw [Nat.add_assoc, Nat.add_comm 1 r] at hnext
          rw [if_neg (by omega), List.nil_append, hnext]
          rfl

/-- Additions at many places, seen at one place. -/
theorem getElem?_foldl_modify {A β : Type*} (add : A → β → A) (items : List (ℕ × β))
    (sums : List A) (c : ℕ) :
    (items.foldl (fun sums p => sums.modify p.1 (add · p.2)) sums)[c]?
      = sums[c]?.map fun a => (itemsOf items c).foldl add a := by
  induction items generalizing sums with
  | nil => simp [itemsOf]
  | cons item items ih =>
      have hsplit : itemsOf (item :: items) c
          = (if item.1 = c then [item.2] else []) ++ itemsOf items c := by
        rw [← itemsOf_singleton, ← itemsOf_append]
        rfl
      rw [List.foldl_cons, ih, List.getElem?_modify, hsplit]
      by_cases h : item.1 = c
      · simp [h, Function.comp_def]
      · simp [h]

/-! ### Bounded counters -/

/-- The offsets stay below a limit exactly when the number of items does. -/
theorem forall_offsets_lt_iff {n limit : ℕ} {columns : List ℕ} (h : ∀ c ∈ columns, c < n) :
    (∀ offset ∈ offsets n columns, offset < limit) ↔ columns.length < limit := by
  constructor
  · intro hall
    have hlast : (offsets n columns).getD n 0 = columns.length := by
      rw [getD_offsets le_rfl, List.countP_eq_length.mpr fun c hc => by simpa using h c hc]
    have hn : n < (offsets n columns).length := by simp
    rw [← hlast, List.getD_eq_getElem _ _ hn]
    exact hall _ (List.getElem_mem hn)
  · intro hlt offset hoffset
    obtain ⟨p, hp, rfl⟩ := List.mem_iff_getElem.mp hoffset
    have hpn : p ≤ n := by simpa [Nat.lt_succ_iff] using hp
    rw [← List.getD_eq_getElem _ 0 hp, getD_offsets hpn]
    exact List.countP_le_length.trans_lt hlt

end CountingSort
