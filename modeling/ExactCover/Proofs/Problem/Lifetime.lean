import ExactCover.Proofs.Search.ExactCovers
import ExactCover.Proofs.Search.Lookups
import ExactCover.Proofs.Search.Pauses
import ExactCover.Proofs.Search.Uses

/-!
# The lifetime of a problem

A problem is used and goes on being built: columns and rows are added between two searches, and
some of the searches are abandoned.  What an abandoned search leaves behind is not `Consistent`.
Columns are gone whose names are free again, and rows are declared that are listed nowhere.

What still holds, however the additions and the searches are mixed, is that no row is listed by
halves: `Problem.Orderly` asks for a `Coherent` table and for rows that cover no column twice.  It
is kept by whatever can happen to a problem (`Problem.Orderly.act`), hence for its whole lifetime
(`Problem.Lived.orderly`).  And it is enough for searching: an orderly table shows its columns and
the rows that it lists (`Table.Coherent.shows`), so a search finds the exact covers by those.

A row that is declared but not listed is `Retired`.  Its name is taken, and nothing ever lists it
again (`Problem.Retired.foldl_act`).  A search that is abandoned at a solution retires every row.
-/

set_option autoImplicit false

namespace ExactCover

variable {C R : Type} [Key C] [Key R]

/-! ## The rows of a table -/

namespace Table

variable {o : Options C R} {t : Table C R} {r : R}

/-- The rows that are listed under some column, ascending. -/
def rows (t : Table C R) : List R :=
  (Std.ExtTreeSet.ofList (t.toList.flatMap fun e ↦ e.2.toList)).toList

@[simp]
theorem mem_rows : r ∈ t.rows ↔ ∃ c, t.Lists c r := by
  simp [rows, Lists, Std.ExtTreeMap.mem_toList_iff_getElem?_eq_some]

/-- **A coherent table shows its columns and the rows that it lists.** -/
theorem Coherent.shows (h : t.Coherent o) : t.Shows o t.keys t.rows where
  keys_eq := rfl
  lists_iff c r := by
    rw [mem_rows]
    constructor
    · intro hl
      exact ⟨⟨c, hl⟩, h.mem_columns c r hl⟩
    · rintro ⟨⟨d, hl⟩, hc⟩
      exact h.lists_all d r hl c hc
  mem_options r hr := by
    obtain ⟨c, hl⟩ := mem_rows.1 hr
    exact Options.mem_of_mem_columns (h.mem_columns c r hl)
  ascending := Std.ExtTreeSet.ordered_toList
  nodup r hr := by
    obtain ⟨c, hl⟩ := mem_rows.1 hr
    exact h.nodup c r hl

end Table

/-! ## What can happen to a problem -/

/-- Something that is done to a problem. -/
inductive Action (C R : Type) where
  /-- An attempt to add a column or a row. -/
  | edit (e : Problem.Edit C R)
  /-- A use, the search of which is left as it should be. -/
  | use (u : Use)
  /-- A search that is called so many times and then abandoned. -/
  | abandon (k : Nat)

namespace Problem

/-- The problem after an action. -/
def act (p : Problem C R) : Action C R → Problem C R
  | .edit e => p.edit e
  | .use u => (p.use u).2
  | .abandon k => (p.solve.after k).abandon

/-- **The problems that can be met with.**  The empty one, and any in the place of which a pair of
tables was accepted, begin a lifetime; and any action may follow. -/
inductive Lived : Problem C R → Prop
  | empty : Lived ∅
  | ofTables {t : Table C R} {o : Options C R} {p : Problem C R} (h : ofTables t o = .ok p) :
    Lived p
  | act {p : Problem C R} (h : Lived p) (a : Action C R) : Lived (p.act a)

variable {p q : Problem C R} {c : C} {r : R} {cs : List C}

/-! ## Order in the tables -/

/-- **No row is listed by halves**, and none covers a column twice. -/
structure Orderly (p : Problem C R) : Prop where
  /-- A row is listed under all of its columns, or not at all. -/
  coherent : p.table.Coherent p.options
  /-- A row covers no column twice, whether it is listed or not. -/
  nodup : ∀ r, (p.options.columns r).Nodup

theorem Consistent.orderly (h : p.Consistent) : p.Orderly := ⟨h.shows.coherent, h.nodup⟩

namespace Orderly

theorem shows (h : p.Orderly) : p.table.Shows p.options p.table.keys p.table.rows :=
  h.coherent.shows

/-- What is listed is declared. -/
theorem mem_options (h : p.Orderly) (hl : p.table.Lists c r) : r ∈ p.options :=
  h.shows.mem_options r (Table.mem_rows.2 ⟨c, hl⟩)

theorem addColumn (h : p.Orderly) (hq : p.addColumn c = .ok q) : q.Orderly := by
  obtain ⟨-, hoptions, hlists⟩ := addColumn_spec hq
  refine ⟨⟨?_, ?_, ?_⟩, ?_⟩
  · simpa only [hlists, hoptions] using h.coherent.mem_columns
  · simpa only [hlists, hoptions] using h.coherent.lists_all
  · simpa only [hlists, hoptions] using h.coherent.nodup
  · rw [hoptions]
    exact h.nodup

theorem addRow (h : p.Orderly) (hq : p.addRow r cs = .ok q) : q.Orderly := by
  obtain ⟨hr, -, hnodup, hoptions, hlists⟩ := addRow_spec hq
  have hnew (d : C) : ¬p.table.Lists d r := fun hl ↦ hr (h.mem_options hl)
  -- The new row is listed under its columns, and all others are as they were.
  have hlists' (d : C) (r' : R) :
      q.table.Lists d r' ↔ if r' = r then d ∈ cs else p.table.Lists d r' := by
    rw [hlists]
    split
    · next he => simp [he, hnew]
    · next he => simp [he]
  have hcolumns (r' : R) : q.options.columns r' = if r' = r then cs else p.options.columns r' := by
    rw [hoptions, Options.columns_insert]
  have hnodup' (r' : R) : (q.options.columns r').Nodup := by
    rw [hcolumns]
    split
    · exact hnodup
    · exact h.nodup r'
  refine ⟨⟨fun d r' hl ↦ ?_, fun d r' hl e he ↦ ?_, fun _ r' _ ↦ hnodup' r'⟩, hnodup'⟩
  · rw [hlists'] at hl
    rw [hcolumns]
    by_cases hr' : r' = r
    · rw [if_pos hr'] at hl ⊢
      exact hl
    · rw [if_neg hr'] at hl ⊢
      exact h.coherent.mem_columns d r' hl
  · rw [hlists'] at hl ⊢
    rw [hcolumns] at he
    by_cases hr' : r' = r
    · rw [if_pos hr'] at he ⊢
      exact he
    · rw [if_neg hr'] at hl he ⊢
      exact h.coherent.lists_all d r' hl e he

/-- Searches of an orderly problem are searches by the rows that it lists. -/
theorem explores_after (h : p.Orderly) (k : Nat) :
    (p.solve.after k).Explores p p.table.rows :=
  ((p.explores_solve p.table.rows).after h.shows k).1

/-- What an abandoned search leaves is what is left by selecting some rows. -/
theorem abandon_after (h : p.Orderly) (k : Nat) :
    ∃ rows, (p.solve.after k).abandon = ⟨p.tableAfter rows, p.options⟩ :=
  ⟨_, Problem.ext (h.explores_after k).table_eq (h.explores_after k).options_eq⟩

/-- **What an action can do.**  It changes nothing, or it adds a column or a row, or it leaves the
table with some rows selected. -/
theorem act_cases (h : p.Orderly) (a : Action C R) : p.act a = p ∨
    (∃ c, p.addColumn c = .ok (p.act a)) ∨ (∃ r cs, p.addRow r cs = .ok (p.act a)) ∨
      ∃ rows, p.act a = ⟨p.tableAfter rows, p.options⟩ := by
  cases a with
  | edit e =>
    rcases p.edit_cases e with he | hcolumn | hrow
    · exact .inl he
    · exact .inr (.inl hcolumn)
    · exact .inr (.inr (.inl hrow))
  | use u => exact .inl (use_snd h.shows u)
  | abandon k => exact .inr (.inr (.inr (h.abandon_after k)))

/-- **Whatever is done to an orderly problem, it stays orderly.** -/
theorem act (h : p.Orderly) (a : Action C R) : (p.act a).Orderly := by
  rcases h.act_cases a with ha | ⟨c, hc⟩ | ⟨r, cs, hr⟩ | ⟨rows, hrows⟩
  · exact ha.symm ▸ h
  · exact h.addColumn hc
  · exact h.addRow hr
  · rw [hrows]
    exact ⟨h.coherent.selectAll rows, h.nodup⟩

end Orderly

/-- Any number of actions may follow one another. -/
theorem Lived.foldl_act (hp : p.Lived) (as : List (Action C R)) :
    (as.foldl Problem.act p).Lived := by
  induction as generalizing p with
  | nil => exact hp
  | cons a as ih => exact ih (hp.act a)

/-- Whatever can be built can be met with. -/
theorem Built.lived (hp : p.Built) : p.Lived := by
  induction hp with
  | empty => exact .empty
  | ofTables h => exact .ofTables h
  | edit _ e ih => exact ih.act (.edit e)

/-- **Every problem that can be met with is orderly.** -/
theorem Lived.orderly (hp : p.Lived) : p.Orderly := by
  induction hp with
  | empty => exact Consistent.empty.orderly
  | ofTables h => exact (Consistent.ofTables h).orderly
  | act _ a ih => exact ih.act a

/-! ## Searching an orderly problem -/

namespace Orderly

/-- A search answers the exact covers by the rows listed, one after another. -/
theorem answer_after (h : p.Orderly) (k : Nat) :
    (p.solve.after k).next.1 = (p.options.exactCovers p.table.keys p.table.rows)[k]? :=
  ((p.explores_solve p.table.rows).after h.shows k).2.1

/-- Every answer is an exact cover. -/
theorem isExactCover_of_answer (h : p.Orderly) {k : Nat} {rows : List R}
    (hanswer : (p.solve.after k).next.1 = some rows) : p.IsExactCover rows := by
  rw [h.answer_after] at hanswer
  exact (isExactCover_iff_exists_perm h.shows).2 ⟨rows, List.mem_of_getElem? hanswer, .refl rows⟩

/-- No two answers have the same rows. -/
theorem pairwise_exactCovers (h : p.Orderly) :
    (p.options.exactCovers p.table.keys p.table.rows).Pairwise fun rows rows' ↦
      ¬rows.Perm rows' :=
  (Options.pairwise_exactCovers h.shows.confined h.shows.ascending.nodup).imp
    fun hne hperm ↦ hne (Set.ext fun _ ↦ hperm.mem_iff)

end Orderly

/-! ## Retired rows -/

/-- **The row is declared, but listed nowhere.** -/
structure Retired (p : Problem C R) (r : R) : Prop where
  /-- The name is taken. -/
  mem_options : r ∈ p.options
  /-- No column lists the row. -/
  not_lists : ∀ c, ¬p.table.Lists c r

namespace Retired

theorem addColumn (h : p.Retired r) (hq : p.addColumn c = .ok q) : q.Retired r := by
  obtain ⟨-, hoptions, hlists⟩ := addColumn_spec hq
  refine ⟨hoptions ▸ h.mem_options, fun d hl ↦ ?_⟩
  exact h.not_lists d ((hlists d r).1 hl)

/-- Only a row that has not been declared can be added. -/
theorem addRow {r' : R} (h : p.Retired r) (hq : p.addRow r' cs = .ok q) : q.Retired r := by
  obtain ⟨hr', -, -, hoptions, hlists⟩ := addRow_spec hq
  have hne : r ≠ r' := fun he ↦ hr' (he ▸ h.mem_options)
  constructor
  · rw [hoptions, Std.ExtTreeMap.mem_insert]
    exact .inr h.mem_options
  · intro d hl
    rcases (hlists d r).1 hl with hl | ⟨he, -⟩
    · exact h.not_lists d hl
    · exact hne he

/-- **A retired row stays retired**, whatever is done to the problem. -/
theorem act (hp : p.Orderly) (h : p.Retired r) (a : Action C R) : (p.act a).Retired r := by
  rcases hp.act_cases a with ha | ⟨c, hc⟩ | ⟨r', cs, hr'⟩ | ⟨rows, hrows⟩
  · exact ha.symm ▸ h
  · exact h.addColumn hc
  · exact h.addRow hr'
  · rw [hrows]
    exact ⟨h.mem_options, fun c hl ↦ h.not_lists c (hp.coherent.lists_selectAll.1 hl).1⟩

theorem foldl_act (hp : p.Orderly) (h : p.Retired r) (as : List (Action C R)) :
    (as.foldl Problem.act p).Retired r := by
  induction as generalizing p with
  | nil => exact h
  | cons a as ih => exact ih (hp.act a) (h.act hp a)

/-- A retired row is part of no answer. -/
theorem notMem_answer (hp : p.Orderly) (h : p.Retired r) {k : Nat} {rows : List R}
    (hanswer : (p.solve.after k).next.1 = some rows) : r ∉ rows := by
  intro hr
  obtain ⟨c, hl⟩ := (hp.isExactCover_of_answer hanswer).listed r hr
  exact h.not_lists c hl

end Retired

/-- **A search that is abandoned at a solution retires every row.** -/
theorem Orderly.retired_abandon (h : p.Orderly) {k : Nat} {rows : List R}
    (hanswer : (p.solve.after k).next.1 = some rows) (hr : r ∈ p.options) :
    (p.solve.after (k + 1)).abandon.Retired r := by
  have hsolution := (h.explores_after k).atSolution_next h.shows hanswer
  rw [Search.after_succ, hsolution.abandon_eq]
  refine ⟨hr, fun c hl ↦ ?_⟩
  exact Std.ExtTreeMap.not_mem_empty (Table.mem_of_lists hl)

/-! ## Whole lifetimes -/

/-- **What can be relied on in any problem that can be met with.**  A row covers no column twice,
and is listed under just the columns that it covers, or under none; and what is listed is declared.
No state of a search, on the way or when it is left, looks up what is not a row.  The search answers
the exact covers of the columns that are there by the rows that are listed, each once, and it can be
left at any time, giving back the problem.  And once a search is abandoned at a solution, the rows
declared by then are not listed any more, nor part of any answer, whatever happens to the problem
later. -/
theorem Lived.orderly_and_searchable (hp : p.Lived) :
    (∀ r ∈ p.options, (p.options.columns r).Nodup ∧
      ((∀ c, p.table.Lists c r ↔ c ∈ p.options.columns r) ∨ ∀ c, ¬p.table.Lists c r)) ∧
    (∀ c r, p.table.Lists c r → r ∈ p.options) ∧
    (∀ k s, (p.solve.after k).Reaches s → s.step? = some s.step ∧ s.close? = some s.close) ∧
    (∃ covers : List (List R), (∀ k, (p.solve.after k).next.1 = covers[k]?) ∧
      (∀ rows, p.IsExactCover rows ↔ ∃ rows' ∈ covers, rows'.Perm rows) ∧
      covers.Pairwise fun rows rows' ↦ ¬rows.Perm rows') ∧
    (∀ k, (p.solve.after k).close = p) ∧
    ∀ k rows, (p.solve.after k).next.1 = some rows → ∀ later : List (Action C R),
      ∀ r ∈ p.options,
        (∀ c, ¬(later.foldl Problem.act (p.solve.after (k + 1)).abandon).table.Lists c r) ∧
        ∀ j rows', ((later.foldl Problem.act (p.solve.after (k + 1)).abandon).solve.after j).next.1 =
          some rows' → r ∉ rows' := by
  have h := hp.orderly
  refine ⟨fun r hr ↦ ⟨h.nodup r, ?_⟩, fun c r ↦ h.mem_options, fun k s hs ↦ ?_,
    ⟨_, h.answer_after, fun rows ↦ isExactCover_iff_exists_perm h.shows, h.pairwise_exactCovers⟩,
    close_after h.shows, fun k rows hanswer later r hr ↦ ?_⟩
  · by_cases hlisted : ∃ c, p.table.Lists c r
    · obtain ⟨c, hl⟩ := hlisted
      exact .inl fun d ↦ h.coherent.lists_iff hl
    · exact .inr (not_exists.1 hlisted)
  · have hexplores := (h.explores_after k).reaches h.shows hs
    exact ⟨hexplores.step?_eq h.shows, hexplores.close?_eq h.shows⟩
  · have habandoned : (p.solve.after (k + 1)).abandon.Lived := hp.act (.abandon (k + 1))
    have hretired := (h.retired_abandon hanswer hr).foldl_act habandoned.orderly later
    have horderly := (habandoned.foldl_act later).orderly
    exact ⟨hretired.not_lists, fun j rows' ↦ hretired.notMem_answer horderly⟩

/-- What becomes of the triangle after its search was abandoned at the solution.  Two of the corners
are declared once more, the first side is refused because it was declared before, and a fifth row
takes its place. -/
def triangleResumed : Problem Nat Nat :=
  [Action.edit (.column 1), .edit (.column 2), .edit (.row 1 [1, 2]),
    .edit (.row 5 [2, 1])].foldl act (triangle.solve.after 1).abandon

/-- The fifth row is the only one that the resumed triangle lists. -/
theorem orderly_and_searchable_triangle : triangle.Lived ∧ triangleResumed.Lived ∧
    (triangle.solve.after 0).next.1 = some [1, 4] ∧ (∀ c, ¬triangleResumed.table.Lists c 1) ∧
    (triangleResumed.solve.after 0).next.1 = some [5] ∧
    (triangleResumed.solve.after 1).close = triangleResumed := by
  have hlived := triangle_built.lived
  have hresumed : triangleResumed.Lived := (hlived.act (.abandon 1)).foldl_act _
  have hfirst : (triangle.solve.after 0).next.1 = some [1, 4] := by decide +kernel
  obtain ⟨-, -, -, -, -, hretired⟩ := Lived.orderly_and_searchable hlived
  obtain ⟨-, -, -, -, hclose, -⟩ := Lived.orderly_and_searchable hresumed
  exact ⟨hlived, hresumed, hfirst, (hretired 0 _ hfirst _ 1 (by decide +kernel)).1,
    by decide +kernel, hclose 1⟩

end Problem

end ExactCover
