import ExactCover.Problem.Basic
import ExactCover.Proofs.Table.Selection

/-!
# Problems that can be built

A problem comes from the empty one, or from a pair of tables that were accepted, by attempts to add
columns and rows; an attempt that is refused leaves the problem as it is (`Problem.edit`).
`Problem.Built` singles out the problems that arise this way, and `Built.consistent` says what all
of them have in common: their two tables describe the same relation.

Both checks are shown to be exact for that.  `columnFault?` finds nothing wrong just with lists of
different columns of the table, and `tableFault?` just with tables that are consistent
(`columnFault?_eq_none_iff`, `tableFault?_eq_none_iff`).  What an addition that is accepted does to
the two tables is said once (`addColumn_spec`, `addRow_spec`), for tables in any state.
-/

set_option autoImplicit false

namespace ExactCover

variable {C R : Type} [Key C] [Key R]

omit [Key C] in
theorem Options.columns_eq_of_getElem? {o : Options C R} {r : R} {cs : List C}
    (h : o[r]? = some cs) : o.columns r = cs := by
  rw [columns, Std.ExtTreeMap.getD_eq_getD_getElem?, h, Option.getD_some]

omit [Key C] in
theorem Options.getElem?_eq_some {o : Options C R} {r : R} (h : r ∈ o) :
    o[r]? = some (o.columns r) := by
  obtain ⟨cs, hcs⟩ := Option.isSome_iff_exists.1 (Std.ExtTreeMap.mem_iff_isSome_getElem?.1 h)
  rw [columns_eq_of_getElem? hcs, hcs]

omit [Key C] in
theorem Options.columns_eq_nil {o : Options C R} {r : R} (h : r ∉ o) : o.columns r = [] := by
  rw [columns, Std.ExtTreeMap.getD_eq_fallback h]

omit [Key C] in
/-- What covers a column is a row. -/
theorem Options.mem_of_mem_columns {o : Options C R} {r : R} {c : C} (h : c ∈ o.columns r) :
    r ∈ o :=
  Classical.byContradiction fun hr ↦ List.not_mem_nil (columns_eq_nil hr ▸ h)

omit [Key C] in
theorem Options.columns_insert {o : Options C R} {r r' : R} {cs : List C} :
    Options.columns (o.insert r cs) r' = if r' = r then cs else o.columns r' := by
  rw [columns, Std.ExtTreeMap.getD_insert, columns]
  by_cases h : r' = r
  · rw [if_pos h, if_pos (Key.compare_eq_iff.2 h.symm)]
  · rw [if_neg h, if_neg fun hc ↦ h (Key.compare_eq_iff.1 hc).symm]

namespace Problem

/-! ## What the checks accept -/

omit [Key C] in
/-- Both checks of a list of columns go through it with those that were `seen` in hand.  Here `P` is
what is asked of each column besides being new. -/
theorem new_cons_iff {P : C → Prop} {c : C} {seen cs : List C} :
    (∀ d ∈ c :: cs, P d ∧ d ∉ seen) ∧ (c :: cs).Nodup ↔
      (P c ∧ c ∉ seen) ∧ (∀ d ∈ cs, P d ∧ d ∉ c :: seen) ∧ cs.Nodup := by
  rw [List.forall_mem_cons, List.nodup_cons]
  simp only [List.mem_cons, not_or]
  constructor
  · rintro ⟨⟨hc, hall⟩, hcs, hnodup⟩
    exact ⟨hc, fun d hd ↦ ⟨(hall d hd).1, fun h ↦ hcs (h ▸ hd), (hall d hd).2⟩, hnodup⟩
  · rintro ⟨hc, hall, hnodup⟩
    exact ⟨⟨hc, fun d hd ↦ ⟨(hall d hd).1, (hall d hd).2.2⟩⟩, fun h ↦ (hall c h).2.1 rfl, hnodup⟩

theorem columnFault?_eq_none_iff {t : Table C R} {r : R} {seen cs : List C} :
    columnFault? t r seen cs = none ↔ (∀ c ∈ cs, c ∈ t ∧ c ∉ seen) ∧ cs.Nodup := by
  induction cs generalizing seen with
  | nil => simp [columnFault?]
  | cons c cs ih =>
    rw [columnFault?, new_cons_iff, ← ih]
    by_cases ht : c ∈ t
    · by_cases hs : c ∈ seen <;> simp [ht, hs]
    · simp [ht]

theorem optionFault?_eq_none_iff {t : Table C R} {r : R} {seen cs : List C} :
    optionFault? t r seen cs = none ↔ (∀ c ∈ cs, t.Lists c r ∧ c ∉ seen) ∧ cs.Nodup := by
  induction cs generalizing seen with
  | nil => simp [optionFault?]
  | cons c cs ih =>
    rw [optionFault?, new_cons_iff, ← ih]
    by_cases hs : c ∈ seen
    · simp [hs]
    · rcases hrs : t[c]? with _ | rs
      · simp [hs, Table.Lists, hrs]
      · by_cases hr : r ∈ rs <;> simp [hs, hr, Table.lists_iff_of_getElem? hrs]

theorem candidateFault?_eq_none_iff {o : Options C R} {c : C} {r : R} :
    candidateFault? o c r = none ↔ c ∈ o.columns r := by
  rw [candidateFault?]
  rcases hcs : o[r]? with _ | cs
  · have hr : r ∉ o := by simp [Std.ExtTreeMap.mem_iff_isSome_getElem?, hcs]
    simp [Options.columns_eq_nil hr]
  · simp [Options.columns_eq_of_getElem? hcs]

/-- **Tables are accepted exactly if they describe the same relation.** -/
theorem tableFault?_eq_none_iff {t : Table C R} {o : Options C R} :
    tableFault? t o = none ↔ Consistent ⟨t, o⟩ := by
  rw [tableFault?, Option.orElse_eq_orElse, Option.orElse_eq_or, Option.or_eq_none_iff,
    List.findSome?_eq_none_iff, List.findSome?_eq_none_iff]
  simp only [List.findSome?_eq_none_iff, Prod.forall, optionFault?_eq_none_iff,
    candidateFault?_eq_none_iff, Std.ExtTreeSet.mem_toList, List.not_mem_nil, not_false_eq_true,
    and_true, Std.ExtTreeMap.mem_toList_iff_getElem?_eq_some]
  constructor
  · rintro ⟨hcandidates, hoptions⟩
    refine ⟨fun c r ↦ ⟨?_, fun hc ↦ ?_⟩, fun r ↦ ?_⟩
    · rintro ⟨rs, hrs, hr⟩
      exact hcandidates c rs hrs r hr
    · have hr := Options.mem_of_mem_columns hc
      exact (hoptions r _ (Options.getElem?_eq_some hr)).1 c hc
    · by_cases hr : r ∈ o
      · exact (hoptions r _ (Options.getElem?_eq_some hr)).2
      · exact Options.columns_eq_nil hr ▸ List.nodup_nil
  · rintro ⟨hlists, hnodup⟩
    refine ⟨fun c rs hrs r hr ↦ (hlists c r).1 ⟨rs, hrs, hr⟩, fun r cs hcs ↦ ?_⟩
    have hcolumns := Options.columns_eq_of_getElem? hcs
    exact ⟨fun c hc ↦ (hlists c r).2 (hcolumns ▸ hc), hcolumns ▸ hnodup r⟩

/-! ## What additions do -/

/-- **What declaring a column does.**  It was not there before, and nothing else changes. -/
theorem addColumn_spec {p q : Problem C R} {c : C} (hq : p.addColumn c = .ok q) :
    c ∉ p.table ∧ q.options = p.options ∧ ∀ d r, q.table.Lists d r ↔ p.table.Lists d r := by
  rw [Problem.addColumn] at hq
  split at hq
  · cases hq
  · rename_i hc
    cases hq
    refine ⟨hc, rfl, fun d r ↦ ?_⟩
    -- The new column has no candidates, and nothing was listed under it before.
    rw [Table.Lists, Std.ExtTreeMap.getElem?_insert]
    by_cases hd : c = d
    · subst hd
      have hn : ¬p.table.Lists c r := fun hl ↦ hc (Table.mem_of_lists hl)
      simp [Std.ReflCmp.compare_self, hn]
    · rw [if_neg fun hcd ↦ hd (Key.compare_eq_iff.1 hcd), Table.Lists]

/-- **What declaring a row does.**  It was not there before, and covers different columns of the
table; it is listed under these, and nothing else changes. -/
theorem addRow_spec {p q : Problem C R} {r : R} {cs : List C} (hq : p.addRow r cs = .ok q) :
    r ∉ p.options ∧ (∀ c ∈ cs, c ∈ p.table) ∧ cs.Nodup ∧ q.options = p.options.insert r cs ∧
      ∀ d r', q.table.Lists d r' ↔ p.table.Lists d r' ∨ (r' = r ∧ d ∈ cs) := by
  rw [Problem.addRow] at hq
  split at hq
  · cases hq
  · rename_i hr
    split at hq
    · cases hq
    · rename_i hfault
      cases hq
      obtain ⟨hcs, hnodup⟩ := columnFault?_eq_none_iff.1 hfault
      refine ⟨hr, fun c hc ↦ (hcs c hc).1, hnodup, rfl, fun d r' ↦ ?_⟩
      rw [Table.lists_foldl_insert, and_iff_left_of_imp fun hd ↦ (hcs d hd).1]

protected theorem Consistent.empty : Consistent (∅ : Problem C R) where
  lists_iff c r := by
    have hn : r ∉ (∅ : Options C R) := Std.ExtTreeMap.not_mem_empty
    change Table.Lists ∅ c r ↔ c ∈ Options.columns ∅ r
    simp [Table.Lists, Options.columns_eq_nil hn]
  nodup r := by
    have hn : r ∉ (∅ : Options C R) := Std.ExtTreeMap.not_mem_empty
    exact (Options.columns_eq_nil hn).symm ▸ List.nodup_nil

theorem Consistent.addColumn {p q : Problem C R} (h : p.Consistent) {c : C}
    (hq : p.addColumn c = .ok q) : q.Consistent := by
  obtain ⟨-, hoptions, hlists⟩ := addColumn_spec hq
  refine ⟨fun d r ↦ ?_, fun r ↦ ?_⟩
  · rw [hlists, hoptions, h.lists_iff]
  · rw [hoptions]
    exact h.nodup r

theorem Consistent.addRow {p q : Problem C R} (h : p.Consistent) {r : R} {cs : List C}
    (hq : p.addRow r cs = .ok q) : q.Consistent := by
  obtain ⟨hr, -, hnodup, hoptions, hlists⟩ := addRow_spec hq
  refine ⟨fun d r' ↦ ?_, fun r' ↦ ?_⟩
  · rw [hoptions, Options.columns_insert, hlists, h.lists_iff]
    by_cases hr' : r' = r
    · subst hr'
      simp [Options.columns_eq_nil hr]
    · simp [hr']
  · rw [hoptions, Options.columns_insert]
    split
    · exact hnodup
    · exact h.nodup r'

/-! ## All problems that can be built -/

/-- An attempt to add something to a problem. -/
inductive Edit (C R : Type) where
  /-- Declaring a column. -/
  | column (c : C)
  /-- Declaring a row with the columns it covers. -/
  | row (r : R) (cs : List C)
deriving DecidableEq

/-- The problem after an attempt: with the addition if it is accepted, and as before otherwise. -/
def edit (p : Problem C R) : Edit C R → Problem C R
  | .column c => (p.addColumn c).toOption.getD p
  | .row r cs => (p.addRow r cs).toOption.getD p

/-- An attempt either changes nothing, or it adds a column or a row. -/
theorem edit_cases (p : Problem C R) (e : Edit C R) : p.edit e = p ∨
    (∃ c, p.addColumn c = .ok (p.edit e)) ∨ ∃ r cs, p.addRow r cs = .ok (p.edit e) := by
  cases e with
  | column c =>
    cases hq : p.addColumn c with
    | error _ => exact .inl (by rw [edit, hq]; rfl)
    | ok q => exact .inr (.inl ⟨c, by rw [edit, hq]; rfl⟩)
  | row r cs =>
    cases hq : p.addRow r cs with
    | error _ => exact .inl (by rw [edit, hq]; rfl)
    | ok q => exact .inr (.inr ⟨r, cs, by rw [edit, hq]; rfl⟩)

/-- **The problems that can be built**: from nothing or from two tables, by any attempts to add
columns and rows. -/
inductive Built : Problem C R → Prop
  | empty : Built ∅
  | ofTables {t : Table C R} {o : Options C R} {p : Problem C R} (h : ofTables t o = .ok p) :
    Built p
  | edit {p : Problem C R} (h : Built p) (e : Edit C R) : Built (p.edit e)

/-- Any number of attempts may be made. -/
theorem Built.foldl_edit {p : Problem C R} (h : p.Built) (es : List (Edit C R)) :
    (es.foldl Problem.edit p).Built := by
  induction es generalizing p with
  | nil => exact h
  | cons e es ih => exact ih (h.edit e)

/-- The corners of a triangle, to be covered by its three sides and by one of the corners. -/
def triangle : Problem Nat Nat :=
  [Edit.column 1, .column 2, .column 3, .row 1 [1, 2], .row 2 [1, 3], .row 3 [2, 3],
    .row 4 [3]].foldl edit ∅

theorem triangle_built : triangle.Built := Built.empty.foldl_edit _

/-- Tables that are accepted describe the same relation. -/
theorem Consistent.ofTables {t : Table C R} {o : Options C R} {p : Problem C R}
    (h : ofTables t o = .ok p) : p.Consistent := by
  rw [Problem.ofTables] at h
  split at h
  · cases h
  · cases h
    exact tableFault?_eq_none_iff.1 ‹_›

/-- **Of every problem that can be built the two tables describe the same relation.** -/
theorem Built.consistent {p : Problem C R} (h : p.Built) : p.Consistent := by
  induction h with
  | empty => exact .empty
  | ofTables h => exact .ofTables h
  | @edit p _ e ih =>
    rcases p.edit_cases e with he | ⟨c, hc⟩ | ⟨r, cs, hr⟩
    · exact he.symm ▸ ih
    · exact ih.addColumn hc
    · exact ih.addRow hr

/-- The table of a consistent problem shows all of its columns and all of its rows. -/
theorem Consistent.shows {p : Problem C R} (h : p.Consistent) :
    p.table.Shows p.options p.table.keys p.options.keys where
  keys_eq := rfl
  lists_iff c r := by
    rw [h.lists_iff, Std.ExtTreeMap.mem_keys, iff_and_self]
    exact Options.mem_of_mem_columns
  mem_options _ hr := Std.ExtTreeMap.mem_keys.1 hr
  ascending := Std.ExtTreeMap.ordered_keys
  nodup r _ := h.nodup r

end Problem

end ExactCover
