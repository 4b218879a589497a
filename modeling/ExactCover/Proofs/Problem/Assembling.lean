import ExactCover.Proofs.Problem.Declaring

/-!
# Two ways to the same problems

A problem is either put together addition by addition, or taken over from two tables as they are.
Both ways lead to the same problems: the consistent ones.  A consistent problem is known by its
columns and the options of its rows, since its table lists just what these options say
(`Problem.Consistent.ext_options`).  So it does not matter in which order the additions were made
(`Problem.Consistent.assemble_eq`), and checking the tables of what has been put together finds
nothing wrong (`Problem.Built.ofTables_eq`).

`Problem.assemble` is the problem that a list of additions makes if all of them are accepted, and
`Problem.assemble_spec` says what it holds: the columns and the rows of the list, whatever the
order in which they came.
-/

set_option autoImplicit false

namespace ExactCover

variable {C R : Type} [Key C] [Key R]

omit [Key C] in
/-- A row covers what its options name. -/
theorem Options.mem_columns_iff {o : Options C R} {r : R} {c : C} :
    c ∈ o.columns r ↔ ∃ cs, o[r]? = some cs ∧ c ∈ cs := by
  constructor
  · intro hc
    exact ⟨_, getElem?_eq_some (mem_of_mem_columns hc), hc⟩
  · rintro ⟨cs, hcs, hc⟩
    rwa [columns_eq_of_getElem? hcs]

namespace Problem

variable {p q : Problem C R} {t : Table C R} {o : Options C R} {c d : C} {r : R} {cs : List C}

/-! ## Consistent problems -/

/-- **A consistent problem is known by its columns and its options.** -/
theorem Consistent.ext_options (hp : p.Consistent) (hq : q.Consistent)
    (htable : ∀ c, c ∈ p.table ↔ c ∈ q.table) (hoptions : p.options = q.options) : p = q := by
  refine Problem.ext (Table.ext_lists htable fun c r ↦ ?_) hoptions
  rw [hp.lists_iff, hq.lists_iff, hoptions]

/-- Consistency, said of the entries of both tables. -/
theorem consistent_iff : Consistent ⟨t, o⟩ ↔
    (∀ (r : R) (cs : List C), o[r]? = some cs → cs.Nodup) ∧
      (∀ (r : R) (cs : List C), o[r]? = some cs → ∀ c ∈ cs, c ∈ t) ∧
      ∀ (c : C) (rs : Std.ExtTreeSet R), t[c]? = some rs →
        ∀ r, r ∈ rs ↔ ∃ cs, o[r]? = some cs ∧ c ∈ cs := by
  constructor
  · intro h
    refine ⟨fun r cs hcs ↦ ?_, fun r cs hcs c hc ↦ ?_, fun c rs hrs r ↦ ?_⟩
    · rw [← Options.columns_eq_of_getElem? hcs]
      exact h.nodup r
    · exact Table.mem_of_lists ((h.lists_iff c r).2 (Options.mem_columns_iff.2 ⟨cs, hcs, hc⟩))
    · rw [← Table.lists_iff_of_getElem? hrs, ← Options.mem_columns_iff]
      exact h.lists_iff c r
  · rintro ⟨hnodup, hdeclared, hlists⟩
    refine ⟨fun c r ↦ ⟨?_, fun hc ↦ ?_⟩, fun r ↦ ?_⟩
    · rintro ⟨rs, hrs, hr⟩
      exact Options.mem_columns_iff.2 ((hlists c rs hrs r).1 hr)
    · -- A column that is covered is in the table, so it has candidates to compare with.
      rw [Options.mem_columns_iff] at hc
      obtain ⟨cs, hcs, hc⟩ := hc
      obtain ⟨rs, hrs⟩ := Option.isSome_iff_exists.1
        (Std.ExtTreeMap.mem_iff_isSome_getElem?.1 (hdeclared r cs hcs c hc))
      exact ⟨rs, hrs, (hlists c rs hrs r).2 ⟨cs, hcs, hc⟩⟩
    · by_cases hr : r ∈ o
      · exact hnodup r _ (Options.getElem?_eq_some hr)
      · exact Options.columns_eq_nil hr ▸ List.nodup_nil

/-- **Tables are taken over as they are, if they are consistent.** -/
theorem ofTables_eq_ok_iff : ofTables t o = .ok p ↔ p = ⟨t, o⟩ ∧ Consistent ⟨t, o⟩ := by
  rw [← tableFault?_eq_none_iff, ofTables]
  cases tableFault? t o <;> simp [eq_comm]

/-- The tables of a problem that was built would have been accepted. -/
theorem Built.ofTables_eq (hp : p.Built) : Problem.ofTables p.table p.options = .ok p :=
  ofTables_eq_ok_iff.2 ⟨rfl, hp.consistent⟩

/-! ## Lists of additions -/

/-- The problem with an addition, if it is accepted. -/
def add (p : Problem C R) : Edit C R → Except (TableError C R) (Problem C R)
  | .column c => p.addColumn c
  | .row r cs => p.addRow r cs

/-- **The problem that a list of additions makes**, if all of them are accepted. -/
def assemble (es : List (Edit C R)) : Except (TableError C R) (Problem C R) := es.foldlM add ∅

/-- The list declares the columns and, after them, the rows. -/
def columnsThenRows (columns : List C) (rows : List (R × List C)) : List (Edit C R) :=
  columns.map .column ++ rows.map fun e ↦ .row e.1 e.2

theorem mem_table_of_addColumn (hq : p.addColumn c = .ok q) :
    d ∈ q.table ↔ d = c ∨ d ∈ p.table := by
  obtain ⟨q', hq', htable, -⟩ := exists_addColumn (addColumn_spec hq).1
  obtain rfl : q = q' := Except.ok.inj (hq.symm.trans hq')
  exact htable d

theorem entries_of_addRow (hq : p.addRow r cs = .ok q) : (∀ d, d ∈ q.table ↔ d ∈ p.table) ∧
    ∀ r', q.options[r']? = if r' = r then some cs else p.options[r']? := by
  obtain ⟨hr, hcs, hnodup, -⟩ := addRow_spec hq
  obtain ⟨q', hq', htable, hoptions⟩ := exists_addRow hr hcs hnodup
  obtain rfl : q = q' := Except.ok.inj (hq.symm.trans hq')
  exact ⟨htable, hoptions⟩

/-- What an addition adds is what it says. -/
theorem Built.add_spec (hp : p.Built) {e : Edit C R} (hq : p.add e = .ok q) : q.Built ∧
    (∀ c, c ∈ q.table ↔ e = .column c ∨ c ∈ p.table) ∧
    ∀ r cs, q.options[r]? = some cs ↔ e = .row r cs ∨ p.options[r]? = some cs := by
  cases e with
  | column c =>
    refine ⟨hp.addColumn hq, fun d ↦ ?_, fun r cs ↦ ?_⟩
    · rw [mem_table_of_addColumn hq, Edit.column.injEq, eq_comm]
    · rw [(addColumn_spec hq).2.1]
      simp
  | row r cs =>
    refine ⟨hp.addRow hq, fun d ↦ ?_, fun r' cs' ↦ ?_⟩
    · rw [(entries_of_addRow hq).1]
      simp
    · rw [(entries_of_addRow hq).2, Edit.row.injEq, eq_comm (a := r)]
      by_cases hr' : r' = r
      · -- The name was free before.
        have hnone : p.options[r]? = none :=
          Std.ExtTreeMap.getElem?_eq_none (addRow_spec hq).1
        simp [hr', hnone]
      · simp [hr']

/-- **A list of additions adds what is on the list.** -/
theorem Built.foldlM_add_spec (hp : p.Built) {es : List (Edit C R)}
    (hq : es.foldlM add p = .ok q) : q.Built ∧
      (∀ c, c ∈ q.table ↔ .column c ∈ es ∨ c ∈ p.table) ∧
      ∀ r cs, q.options[r]? = some cs ↔ .row r cs ∈ es ∨ p.options[r]? = some cs := by
  induction es generalizing p with
  | nil =>
    cases hq
    exact ⟨hp, by simp, by simp⟩
  | cons e es ih =>
    rw [List.foldlM_cons] at hq
    cases hp' : p.add e with
    | error fault =>
      rw [hp'] at hq
      cases hq
    | ok p' =>
      rw [hp'] at hq
      obtain ⟨hbuilt, htable, hoptions⟩ := hp.add_spec hp'
      obtain ⟨hbuilt', htable', hoptions'⟩ := ih hbuilt hq
      refine ⟨hbuilt', fun c ↦ ?_, fun r cs ↦ ?_⟩
      · rw [htable', htable, List.mem_cons, eq_comm (a := e), or_left_comm, or_assoc]
      · rw [hoptions', hoptions, List.mem_cons, eq_comm (a := e), or_left_comm, or_assoc]

/-- **What has been put together holds the columns and the rows of the list.** -/
theorem assemble_spec {es : List (Edit C R)} (hp : assemble es = .ok p) : p.Built ∧
    (∀ c, c ∈ p.table ↔ .column c ∈ es) ∧ ∀ r cs, p.options[r]? = some cs ↔ .row r cs ∈ es := by
  obtain ⟨hbuilt, htable, hoptions⟩ := Built.empty.foldlM_add_spec hp
  have hrow (r : R) : (∅ : Problem C R).options[r]? = none :=
    Std.ExtTreeMap.getElem?_eq_none Std.ExtTreeMap.not_mem_empty
  refine ⟨hbuilt, fun c ↦ (htable c).trans (or_iff_left Std.ExtTreeMap.not_mem_empty), ?_⟩
  intro r cs
  rw [hoptions, hrow]
  simp

/-! ## Assembling a given problem -/

/-- **A consistent problem can be put together in any order of its columns and of its rows.** -/
theorem Consistent.assemble_eq (h : p.Consistent) {columns : List C} {rows : List (R × List C)}
    (hcolumns : columns.Perm p.table.keys) (hrows : rows.Perm p.options.toList) :
    assemble (columnsThenRows columns rows) = .ok p := by
  have hmem (c : C) : c ∈ columns ↔ c ∈ p.table := by
    rw [hcolumns.mem_iff, Std.ExtTreeMap.mem_keys]
  have hkeys : (rows.map Prod.fst).Perm p.options.keys :=
    Std.ExtTreeMap.map_fst_toList_eq_keys (t := p.options) ▸ hrows.map Prod.fst
  have hmem' (r : R) : r ∈ rows.map Prod.fst ↔ r ∈ p.options := by
    rw [hkeys.mem_iff, Std.ExtTreeMap.mem_keys]
  -- A row of the list comes with the columns that it covers.
  have hrows_eq : rows = (rows.map Prod.fst).map fun r ↦ (r, p.options.columns r) := by
    rw [List.map_map]
    refine (List.map_id rows).symm.trans (List.map_congr_left fun e he ↦ ?_)
    have hentry := Std.ExtTreeMap.mem_toList_iff_getElem?_eq_some.1 (hrows.mem_iff.1 he)
    exact Prod.ext rfl (Options.columns_eq_of_getElem? hentry).symm
  obtain ⟨q, hq, hbuilt, htable, hoptions⟩ := Built.empty.foldlM_addColumn (R := R)
    (hcolumns.nodup_iff.2 (Ascending.nodup Std.ExtTreeMap.ordered_keys))
    fun _ _ ↦ Std.ExtTreeMap.not_mem_empty
  have htable_iff (c : C) : c ∈ q.table ↔ c ∈ p.table :=
    (htable c).trans ((or_iff_left Std.ExtTreeMap.not_mem_empty).trans (hmem c))
  have hfree (r : R) : r ∉ q.options := by
    rw [hoptions]
    exact Std.ExtTreeMap.not_mem_empty
  obtain ⟨q', hq', hbuilt', htable', hrows', hrest⟩ := hbuilt.foldlM_addRow
    (f := p.options.columns) (hkeys.nodup_iff.2 (Ascending.nodup Std.ExtTreeMap.ordered_keys))
    (fun r _ ↦ hfree r) fun r _ ↦
      ⟨fun c hc ↦ (htable_iff c).2 (Table.mem_of_lists ((h.lists_iff c r).2 hc)), h.nodup r⟩
  have heq : q' = p := by
    refine hbuilt'.consistent.ext_options h (fun c ↦ (htable' c).trans (htable_iff c)) ?_
    refine Std.ExtTreeMap.ext_getElem? fun r ↦ ?_
    by_cases hr : r ∈ rows.map Prod.fst
    · rw [hrows' r hr, Options.getElem?_eq_some ((hmem' r).1 hr)]
    · rw [hrest r hr, Std.ExtTreeMap.getElem?_eq_none (hfree r),
        Std.ExtTreeMap.getElem?_eq_none (mt (hmem' r).2 hr)]
  rw [assemble, columnsThenRows, List.foldlM_append, List.foldlM_map, ← heq, ← hq', hrows_eq]
  simp only [List.foldlM_map]
  exact congrArg (· >>= _) hq

/-- **Both ways lead to the same problems.**  Tables are taken over, and as they are, just if no
options name a column twice or one that is not in the table, and a column of the table lists the
rows whose options name it.  What is taken over can be put together, declaring the columns in any
order and then the rows in any order.  And whatever attempts at additions have been made, in any
order and with any success, the tables that come of them are taken over. -/
theorem ofTables_and_assemble :
    (∀ (t : Table C R) (o : Options C R),
      ((∃ p, ofTables t o = .ok p) ↔
        (∀ (r : R) (cs : List C), o[r]? = some cs → cs.Nodup) ∧
        (∀ (r : R) (cs : List C), o[r]? = some cs → ∀ c ∈ cs, c ∈ t) ∧
        ∀ (c : C) (rs : Std.ExtTreeSet R), t[c]? = some rs →
          ∀ r, r ∈ rs ↔ ∃ cs, o[r]? = some cs ∧ c ∈ cs) ∧
      ∀ p, ofTables t o = .ok p → p = ⟨t, o⟩) ∧
    (∀ (t : Table C R) (o : Options C R) (p : Problem C R), ofTables t o = .ok p →
      ∀ (columns : List C) (rows : List (R × List C)),
        columns.Perm t.keys → rows.Perm o.toList →
          assemble (columnsThenRows columns rows) = .ok p) ∧
    ∀ (es : List (Edit C R)) (p : Problem C R), es.foldl Problem.edit ∅ = p →
      ofTables p.table p.options = .ok p := by
  refine ⟨fun t o ↦ ⟨?_, fun p hp ↦ (ofTables_eq_ok_iff.1 hp).1⟩, ?_, ?_⟩
  · rw [← consistent_iff]
    constructor
    · rintro ⟨p, hp⟩
      exact (ofTables_eq_ok_iff.1 hp).2
    · exact fun h ↦ ⟨_, ofTables_eq_ok_iff.2 ⟨rfl, h⟩⟩
  · intro t o p hp columns rows hcolumns hrows
    obtain ⟨rfl, h⟩ := ofTables_eq_ok_iff.1 hp
    exact h.assemble_eq hcolumns hrows
  · rintro es p rfl
    exact (Built.empty.foldl_edit es).ofTables_eq

/-- The triangle was built corner by corner and side by side.  Its tables are accepted, and it can
be put together the other way round as well. -/
theorem ofTables_and_assemble_triangle :
    ofTables triangle.table triangle.options = .ok triangle ∧
    assemble (columnsThenRows [3, 1, 2] [(4, [3]), (3, [2, 3]), (2, [1, 3]), (1, [1, 2])]) =
      .ok triangle := by
  obtain ⟨-, hany, hedits⟩ := ofTables_and_assemble (C := Nat) (R := Nat)
  have haccepted := hedits _ triangle rfl
  exact ⟨haccepted, hany _ _ _ haccepted _ _ (by decide +kernel) (by decide +kernel)⟩

end Problem

end ExactCover
