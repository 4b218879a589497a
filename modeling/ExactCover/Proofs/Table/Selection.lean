import ExactCover.Search.Traversal
import ExactCover.Table.Coherent

/-!
# What selecting does to a table

Selecting a row covers its columns one after another, and each of them is covered in the table that
the earlier ones have left.  On a coherent table none of this can be seen in the result: it holds
the columns that the row does not cover, and under each of them the rows that share no column with
the row selected (`mem_select`, `Coherent.lists_select`).  So the table after any number of
selections depends on the set of rows selected only (`mem_selectAll`, `Coherent.lists_selectAll`).

`Shows` says that a table is the picture of a list of columns and a list of live rows, as the search
without a table has them.  Selecting a row keeps it (`Shows.select`), and the tightest column of the
table is the one that this search branches on (`Shows.map_tightest?`).
-/

set_option autoImplicit false

namespace ExactCover.Table

variable {C R : Type} [Key C] [Key R] {o : Options C R} {t : Table C R}

/-! ## The columns of a row, one after another -/

theorem mem_selectColumn {s : Table C R × Undo C R} {c d : C} :
    d ∈ (selectColumn o s c).1 ↔ d ∈ s.1 ∧ d ≠ c := by
  obtain ⟨t, u⟩ := s
  rcases hrs : t[c]? with _ | rs
  · rw [selectColumn_of_eq_none hrs, iff_self_and]
    rintro hd rfl
    simp [Std.ExtTreeMap.mem_iff_isSome_getElem?, hrs] at hd
  · rw [selectColumn_of_eq_some hrs, mem_cover, and_comm]

theorem mem_foldl_selectColumn {s : Table C R × Undo C R} {cs : List C} {d : C} :
    d ∈ (cs.foldl (selectColumn o) s).1 ↔ d ∈ s.1 ∧ d ∉ cs := by
  induction cs generalizing s with
  | nil => simp
  | cons c cs ih =>
    rw [List.foldl_cons, ih, mem_selectColumn, List.mem_cons, not_or, and_assoc]

theorem Coherent.lists_foldl_selectColumn (h : t.Coherent o) {u : Undo C R} {cs : List C} {d : C}
    {r : R} : (cs.foldl (selectColumn o) (t, u)).1.Lists d r ↔
      t.Lists d r ∧ ∀ c ∈ cs, c ∉ o.columns r := by
  induction cs generalizing t u with
  | nil => simp
  | cons c cs ih =>
    rw [List.foldl_cons, List.forall_mem_cons]
    rcases hrs : t[c]? with _ | rs
    · rw [selectColumn_of_eq_none hrs, ih h]
      -- A listed row covers columns of the table only, and `c` is not one of them.
      refine and_congr_right fun hl ↦ (and_iff_right fun hc ↦ ?_).symm
      have hmem := mem_of_lists (h.lists_all d r hl c hc)
      simp [Std.ExtTreeMap.mem_iff_isSome_getElem?, hrs] at hmem
    · rw [selectColumn_of_eq_some hrs, ih (h.cover hrs), h.lists_cover_iff hrs, and_assoc]

theorem size_strike {r : R} : (t.strike o r).size = t.size := by
  rw [strike]
  induction o.columns r generalizing t with
  | nil => rfl
  | cons c cs ih => rw [List.foldl_cons, ih, Std.ExtTreeMap.size_modify]

theorem size_foldl_strike {rows : List R} : (rows.foldl (strike o) t).size = t.size := by
  induction rows generalizing t with
  | nil => rfl
  | cons r rows ih => rw [List.foldl_cons, ih, size_strike]

/-- Covering a column takes one column out of the table. -/
theorem size_cover {c : C} {rs : Std.ExtTreeSet R} (hrs : t[c]? = some rs) :
    (t.cover o c rs).size + 1 = t.size := by
  have hc : c ∈ t := Std.ExtTreeMap.mem_iff_isSome_getElem?.2 (by simp [hrs])
  have hpos : t.size ≠ 0 := fun h ↦ by
    rw [Std.ExtTreeMap.eq_empty_iff_size_eq_zero.2 h] at hc
    exact Std.ExtTreeMap.not_mem_empty hc
  rw [cover, size_foldl_strike, Std.ExtTreeMap.size_erase,
    if_pos (Std.ExtTreeMap.mem_iff_contains.1 hc)]
  omega

theorem size_foldl_selectColumn {u : Undo C R} {cs : List C} :
    (cs.foldl (selectColumn o) (t, u)).1.size + (cs.foldl (selectColumn o) (t, u)).2.length =
      t.size + u.length := by
  induction cs generalizing t u with
  | nil => rfl
  | cons c cs ih =>
    rw [List.foldl_cons]
    rcases hrs : t[c]? with _ | rs
    · rw [selectColumn_of_eq_none hrs, ih]
    · rw [selectColumn_of_eq_some hrs, ih, List.length_cons, ← size_cover (o := o) hrs]
      omega

/-! ## A row -/

/-- A selection leaves the columns that the row does not cover. -/
@[simp]
theorem mem_select {r : R} {d : C} : d ∈ (t.select o r).1 ↔ d ∈ t ∧ d ∉ o.columns r :=
  mem_foldl_selectColumn

/-- **A selection leaves the rows that share no column with the row selected.** -/
theorem Coherent.lists_select (h : t.Coherent o) {r r' : R} {d : C} :
    (t.select o r).1.Lists d r' ↔ t.Lists d r' ∧ ∀ c ∈ o.columns r, c ∉ o.columns r' :=
  h.lists_foldl_selectColumn

/-- Every column is either left in the table or on the record. -/
theorem size_select_add_length {r : R} :
    (t.select o r).1.size + (t.select o r).2.length = t.size :=
  size_foldl_selectColumn

theorem keys_select {r : R} : (t.select o r).1.keys = o.uncovered t.keys r := by
  refine Ascending.ext Std.ExtTreeMap.ordered_keys (Std.ExtTreeMap.ordered_keys.filter _) ?_
  simp [Std.ExtTreeMap.mem_keys]

/-- Selecting a row that covers a column of the table makes the table smaller. -/
theorem size_select_lt {r : R} {c : C} (hc : c ∈ t) (hr : c ∈ o.columns r) :
    (t.select o r).1.size < t.size := by
  rw [← Std.ExtTreeMap.length_keys, ← Std.ExtTreeMap.length_keys, keys_select]
  exact Options.length_uncovered_lt (Std.ExtTreeMap.mem_keys.2 hc) hr

/-! ## Several rows -/

/-- The table after selecting rows one after another. -/
def selectAll (o : Options C R) (t : Table C R) (rows : List R) : Table C R :=
  rows.foldl (fun t r ↦ (t.select o r).1) t

@[simp]
theorem selectAll_nil : t.selectAll o [] = t := rfl

@[simp]
theorem selectAll_concat {rows : List R} {r : R} :
    t.selectAll o (rows ++ [r]) = ((t.selectAll o rows).select o r).1 := by
  simp [selectAll]

theorem Coherent.selectAll (h : t.Coherent o) (rows : List R) :
    (t.selectAll o rows).Coherent o := by
  induction rows generalizing t with
  | nil => exact h
  | cons r rows ih => exact ih (h.select r)

/-- Selections leave the columns that none of the rows covers. -/
theorem mem_selectAll {rows : List R} {d : C} :
    d ∈ t.selectAll o rows ↔ d ∈ t ∧ ∀ r ∈ rows, d ∉ o.columns r := by
  induction rows generalizing t with
  | nil => simp
  | cons r rows ih =>
    rw [selectAll, List.foldl_cons, ← selectAll, ih, mem_select, List.forall_mem_cons, and_assoc]

/-- **Selections leave the rows that share no column with any of the rows selected.** -/
theorem Coherent.lists_selectAll (h : t.Coherent o) {rows : List R} {d : C} {r' : R} :
    (t.selectAll o rows).Lists d r' ↔
      t.Lists d r' ∧ ∀ r ∈ rows, ∀ c ∈ o.columns r, c ∉ o.columns r' := by
  induction rows generalizing t with
  | nil => simp
  | cons r rows ih =>
    rw [Table.selectAll, List.foldl_cons, ← Table.selectAll, ih (h.select r), h.lists_select,
      List.forall_mem_cons, and_assoc]

/-! ## Tables as pictures of columns and live rows -/

/-- **The table holds the given columns, each with the live rows that cover it.** -/
structure Shows (o : Options C R) (t : Table C R) (columns : List C) (live : List R) : Prop where
  /-- The columns are those of the table, ascending. -/
  keys_eq : t.keys = columns
  /-- A column lists the live rows that cover it, and live rows cover columns of the table only. -/
  lists_iff : ∀ c r, t.Lists c r ↔ r ∈ live ∧ c ∈ o.columns r
  /-- The live rows are rows. -/
  mem_options : ∀ r ∈ live, r ∈ o
  /-- They are given in ascending order. -/
  ascending : Ascending live
  /-- A live row covers no column twice. -/
  nodup : ∀ r ∈ live, (o.columns r).Nodup

namespace Shows

variable {columns : List C} {live : List R}

theorem coherent (h : t.Shows o columns live) : t.Coherent o where
  mem_columns c r hl := ((h.lists_iff c r).1 hl).2
  lists_all c r hl d hd := (h.lists_iff d r).2 ⟨((h.lists_iff c r).1 hl).1, hd⟩
  nodup c r hl := h.nodup r ((h.lists_iff c r).1 hl).1

theorem mem_iff (h : t.Shows o columns live) {c : C} : c ∈ t ↔ c ∈ columns := by
  rw [← h.keys_eq, Std.ExtTreeMap.mem_keys]

/-- A live row covers uncovered columns only. -/
theorem mem_columns (h : t.Shows o columns live) {r : R} (hr : r ∈ live) {c : C}
    (hc : c ∈ o.columns r) : c ∈ columns :=
  h.mem_iff.1 (mem_of_lists ((h.lists_iff c r).2 ⟨hr, hc⟩))

/-- There are no more live rows than rows. -/
theorem length_live_le (h : t.Shows o columns live) : live.length ≤ o.size := by
  rw [← Std.ExtTreeMap.length_keys]
  exact h.ascending.nodup.length_le_of_subset fun r hr ↦
    Std.ExtTreeMap.mem_keys.2 (h.mem_options r hr)

/-- **Selecting a row takes away its columns and the rows that share one of them.** -/
theorem select (h : t.Shows o columns live) (r : R) :
    (t.select o r).1.Shows o (o.uncovered columns r) (o.compatible live r) where
  keys_eq := by rw [keys_select, h.keys_eq]
  lists_iff c r' := by
    rw [h.coherent.lists_select, h.lists_iff, Options.mem_compatible, and_right_comm]
  mem_options r' hr' := h.mem_options r' (Options.mem_compatible.1 hr').1
  ascending := h.ascending.filter _
  nodup r' hr' := h.nodup r' (Options.mem_compatible.1 hr').1

theorem selectAll (h : t.Shows o columns live) (rows : List R) :
    (t.selectAll o rows).Shows o (rows.foldl o.uncovered columns)
      (rows.foldl o.compatible live) := by
  induction rows generalizing t columns live with
  | nil => exact h
  | cons r rows ih => exact ih (h.select r)

/-- The candidates of a column are the live rows that cover it. -/
theorem toList_eq_covering (h : t.Shows o columns live) {c : C} {rs : Std.ExtTreeSet R}
    (hrs : t[c]? = some rs) : rs.toList = o.covering live c := by
  refine Ascending.ext Std.ExtTreeSet.ordered_toList (h.ascending.filter _) fun r ↦ ?_
  rw [Std.ExtTreeSet.mem_toList, ← lists_iff_of_getElem? hrs, h.lists_iff, Options.mem_covering]

end Shows

/-! ## The tightest column -/

/-- Where an image is least, its argument is. -/
theorem minOn?_map {α β : Type} (f : α → β) (w : β → Nat) (l : List α) :
    (l.map f).minOn? w = (l.minOn? (w ∘ f)).map f := by
  induction l with
  | nil => simp [List.minOn?_nil]
  | cons a l ih =>
    rw [List.map_cons, List.minOn?_cons, List.minOn?_cons, ih]
    rcases l.minOn? (w ∘ f) with _ | b
    · rfl
    · simp only [Option.map_some, Option.elim_some, minOn_eq_if, Function.comp_apply]
      split <;> rfl

/-- Two measures that agree on a list are least at the same place. -/
theorem minOn?_congr {α : Type} {v w : α → Nat} {l : List α} (h : ∀ a ∈ l, v a = w a) :
    l.minOn? v = l.minOn? w := by
  induction l with
  | nil => simp [List.minOn?_nil]
  | cons a l ih =>
    rw [List.forall_mem_cons] at h
    rw [List.minOn?_cons, List.minOn?_cons, ih h.2]
    rcases hb : l.minOn? w with _ | b
    · rfl
    · simp only [Option.elim_some, minOn_eq_if, h.1, h.2 b (List.minOn?_mem hb)]

theorem getElem?_of_tightest? {c : C} {rs : Std.ExtTreeSet R} (h : t.tightest? = some (c, rs)) :
    t[c]? = some rs :=
  Std.ExtTreeMap.mem_toList_iff_getElem?_eq_some.1 (List.minOn?_mem (t.tightest?_eq_minOn? ▸ h))

/-- **The table and its picture have the same tightest column.** -/
theorem Shows.map_tightest? {columns : List C} {live : List R} (h : t.Shows o columns live) :
    t.tightest?.map Prod.fst = columns.minOn? fun c ↦ (o.covering live c).length := by
  rw [← h.keys_eq, ← Std.ExtTreeMap.map_fst_toList_eq_keys, minOn?_map,
    tightest?_eq_minOn?]
  refine congrArg _ (minOn?_congr ?_)
  rintro ⟨c, rs⟩ hmem
  have hrs := Std.ExtTreeMap.mem_toList_iff_getElem?_eq_some.1 hmem
  rw [Function.comp_apply, ← h.toList_eq_covering hrs, Std.ExtTreeSet.length_toList]

end ExactCover.Table
