import ExactCover.Proofs.Search.Calls

/-!
# What a search looks up

To select a row, a search looks up the columns that it covers, and those of every candidate of a
column that is covered on the way.  To retract the row it looks up the latter once more.  What is
not a row has no columns to be looked up; `Options.columns` gives none for it, and a search that
came across one would go on as if nothing had happened.

It does not come across any.  The operations of a search are repeated here with lookups that can
fail: `Table.select?` and `Table.retract?` give nothing if they look up what is not a row, and so
do a step (`Search.step?`) and leaving the search (`Search.close?`).  In every state that a search
passes through they give what the plain operations give (`Search.Explores.step?_eq`,
`Search.Explores.close?_eq`).  For the candidates of its frames, and those on the records of its
selections, were all listed in the table when the search began, and what is listed there is a row.
-/

set_option autoImplicit false

namespace ExactCover

variable {C R : Type} [Key C] [Key R] {o : Options C R} {t : Table C R} {r : R}

/-! ## Operations with lookups that can fail -/

namespace Table

/-- Removes `r` from the candidates of the columns that are looked up for it. -/
def strike? (o : Options C R) (t : Table C R) (r : R) : Option (Table C R) :=
  o[r]?.map fun cs ↦ cs.foldl (fun t c ↦ t.modify c (·.erase r)) t

/-- Adds `r` to the candidates of the columns that are looked up for it. -/
def unstrike? (o : Options C R) (t : Table C R) (r : R) : Option (Table C R) :=
  o[r]?.map fun cs ↦ cs.foldl (fun t c ↦ t.modify c (·.insert r)) t

/-- Takes out a column, looking up each of its candidates. -/
def cover? (o : Options C R) (t : Table C R) (c : C) (rs : Std.ExtTreeSet R) : Option (Table C R) :=
  rs.toList.foldlM (strike? o) (t.erase c)

/-- Puts a column back, looking up each of its candidates. -/
def uncover? (o : Options C R) (t : Table C R) (c : C) (rs : Std.ExtTreeSet R) :
    Option (Table C R) :=
  (rs.toList.foldlM (unstrike? o) t).map fun t ↦ t.insert c rs

/-- Covers a column if it is still in the table, and puts it on the record. -/
def selectColumn? (o : Options C R) (s : Table C R × Undo C R) (c : C) :
    Option (Table C R × Undo C R) :=
  match s.1[c]? with
  | none => some s
  | some rs => (s.1.cover? o c rs).map fun t ↦ (t, (c, rs) :: s.2)

/-- Selects a row, looking up its columns. -/
def select? (o : Options C R) (t : Table C R) (r : R) : Option (Table C R × Undo C R) :=
  o[r]?.bind fun cs ↦ cs.foldlM (selectColumn? o) (t, [])

/-- Retracts a selection. -/
def retract? (o : Options C R) (t : Table C R) (u : Undo C R) : Option (Table C R) :=
  u.foldlM (fun t e ↦ t.uncover? o e.1 e.2) t

end Table

namespace Search

/-- One step of the search, unless it looks up what is not a row. -/
def step? (s : Search C R) : Option (Report R × Search C R) :=
  match s.phase, s.frames with
  | .ready, _ => some s.step
  | _, [] => some s.step
  | _, f :: _ =>
    match f.selected, f.untried with
    | some selection, _ => (s.table.retract? s.options selection.undo).map fun _ ↦ s.step
    | none, [] => some s.step
    | none, row :: _ => (s.table.select? s.options row).map fun _ ↦ s.step

/-- Retracts what is still selected and gives the problem back, unless that looks up what is not a
row. -/
def close? (s : Search C R) : Option (Problem C R) :=
  let selections := s.frames.filterMap (·.selected)
  (selections.foldlM (fun (t : Table C R) σ ↦ t.retract? s.options σ.undo) s.table).map
    fun t ↦ ⟨t, s.options⟩

end Search

/-! ## Lookups that do not fail -/

/-- If each element is accepted as long as `P` holds, and `P` goes on to hold, all of them are
accepted. -/
theorem foldlM_eq_some {α β : Type} {P : β → Prop} {f : β → α → Option β} {g : β → α → β}
    {l : List α} (h : ∀ b, ∀ a ∈ l, P b → f b a = some (g b a) ∧ P (g b a)) {b : β} (hb : P b) :
    l.foldlM f b = some (l.foldl g b) ∧ P (l.foldl g b) := by
  induction l generalizing b with
  | nil => exact ⟨rfl, hb⟩
  | cons a l ih =>
    obtain ⟨hf, hg⟩ := h b a List.mem_cons_self hb
    rw [List.foldlM_cons, hf, List.foldl_cons]
    exact ih (fun b a ha ↦ h b a (List.mem_cons_of_mem _ ha)) hg

namespace Table

/-- **The table lists rows only**, and there are only rows on the record beside it. -/
structure Declared (o : Options C R) (s : Table C R × Undo C R) : Prop where
  /-- What is listed is a row. -/
  mem_of_lists : ∀ c r, s.1.Lists c r → r ∈ o
  /-- What is on record is a row. -/
  mem_of_undo : ∀ e ∈ s.2, ∀ r ∈ e.2, r ∈ o

theorem strike?_eq (hr : r ∈ o) : t.strike? o r = some (t.strike o r) := by
  rw [strike?, Options.getElem?_eq_some hr]
  rfl

theorem unstrike?_eq (hr : r ∈ o) : t.unstrike? o r = some (t.unstrike o r) := by
  rw [unstrike?, Options.getElem?_eq_some hr]
  rfl

theorem cover?_eq {c : C} {rs : Std.ExtTreeSet R} (h : ∀ r ∈ rs, r ∈ o) :
    t.cover? o c rs = some (t.cover o c rs) :=
  (foldlM_eq_some (P := fun _ ↦ True)
    (fun _ _ hr _ ↦ ⟨strike?_eq (h _ (Std.ExtTreeSet.mem_toList.1 hr)), trivial⟩) trivial).1

theorem uncover?_eq {c : C} {rs : Std.ExtTreeSet R} (h : ∀ r ∈ rs, r ∈ o) :
    t.uncover? o c rs = some (t.uncover o c rs) := by
  have hrows := foldlM_eq_some (P := fun _ ↦ True) (f := unstrike? o) (g := unstrike o) (b := t)
    (fun _ _ hr _ ↦ ⟨unstrike?_eq (h _ (Std.ExtTreeSet.mem_toList.1 hr)), trivial⟩) trivial
  rw [uncover?, hrows.1]
  rfl

/-- Covering a column of such a table looks up rows only, and leaves such a table. -/
theorem Declared.selectColumn {s : Table C R × Undo C R} (h : Declared o s) (c : C) :
    selectColumn? o s c = some (selectColumn o s c) ∧ Declared o (selectColumn o s c) := by
  obtain ⟨t, u⟩ := s
  rcases hrs : t[c]? with _ | rs
  · rw [selectColumn_of_eq_none hrs, selectColumn?, hrs]
    exact ⟨rfl, h⟩
  · have hrows : ∀ r ∈ rs, r ∈ o := fun r hr ↦ h.mem_of_lists c r ⟨rs, hrs, hr⟩
    rw [selectColumn_of_eq_some hrs, selectColumn?, hrs]
    dsimp only
    rw [cover?_eq hrows]
    refine ⟨rfl, fun d r hl ↦ h.mem_of_lists d r (lists_cover.1 hl).2.1, ?_⟩
    exact List.forall_mem_cons.2 ⟨hrows, h.mem_of_undo⟩

/-- **Selecting a row looks up rows only**, and puts only rows on record. -/
theorem Declared.select (h : Declared o (t, [])) (hr : r ∈ o) :
    t.select? o r = some (t.select o r) ∧ Declared o (t.select o r) := by
  rw [select?, Options.getElem?_eq_some hr]
  exact foldlM_eq_some (fun _ c _ hs ↦ hs.selectColumn c) h

/-- **Retracting a selection looks up rows only**, if there are only rows on its record. -/
theorem retract?_eq {u : Undo C R} (h : ∀ e ∈ u, ∀ r ∈ e.2, r ∈ o) :
    t.retract? o u = some (t.retract o u) :=
  (foldlM_eq_some (P := fun _ ↦ True) (fun _ e he _ ↦ ⟨uncover?_eq (h e he), trivial⟩) trivial).1

theorem Shows.declared {columns : List C} {live : List R} (h : t.Shows o columns live) :
    Declared o (t, []) :=
  ⟨fun c r hl ↦ h.mem_options r ((h.lists_iff c r).1 hl).1, nofun⟩

end Table

/-! ## Frames -/

section Frames

variable {p : Problem C R} {live : List R} {frames : List (Frame C R)} {f : Frame C R}

/-- Each frame was opened on a table that selections have left. -/
theorem Stack.exists_openedOn (h : Stack p frames) (hf : f ∈ frames) :
    ∃ rows, f.OpenedOn p.options (p.tableAfter rows) := by
  induction h with
  | nil => exact absurd hf List.not_mem_nil
  | @cons g outer _ _ hg ih =>
    rcases List.mem_cons.1 hf with rfl | hf
    · exact ⟨_, hg⟩
    · exact ih hf

theorem Problem.declared_tableAfter (hp : p.table.Shows p.options p.table.keys live)
    (rows : List R) : Table.Declared p.options (p.tableAfter rows, []) :=
  (hp.selectAll rows).declared

/-- The candidates of a frame are rows. -/
theorem Stack.mem_options_of_mem_candidates (hp : p.table.Shows p.options p.table.keys live)
    (h : Stack p frames) (hf : f ∈ frames) (hr : r ∈ f.candidates) : r ∈ p.options := by
  obtain ⟨rows, hopened⟩ := h.exists_openedOn hf
  obtain ⟨c, rs, htight, hrs⟩ := hopened.candidates_eq
  rw [hrs, Std.ExtTreeSet.mem_toList] at hr
  exact (Problem.declared_tableAfter hp rows).mem_of_lists c r
    ⟨rs, Table.getElem?_of_tightest? htight, hr⟩

/-- There are only rows on the record of a frame's selection. -/
theorem Stack.mem_options_of_mem_undo (hp : p.table.Shows p.options p.table.keys live)
    (h : Stack p frames) (hf : f ∈ frames) {σ : Selection C R} (hσ : f.selected = some σ) :
    ∀ e ∈ σ.undo, ∀ r ∈ e.2, r ∈ p.options := by
  obtain ⟨rows, hopened⟩ := h.exists_openedOn hf
  have hrow : σ.row ∈ p.options :=
    h.mem_options_of_mem_candidates hp hf (by simp [Frame.candidates, hσ])
  rw [hopened.undo_eq σ hσ]
  exact ((Problem.declared_tableAfter hp rows).select hrow).2.mem_of_undo

end Frames

/-! ## The states of a search -/

namespace Search

variable {p : Problem C R} {live : List R} {s s' : Search C R}

/-- The states that a search passes through, step by step. -/
inductive Reaches (s : Search C R) : Search C R → Prop
  | refl : Reaches s s
  | step {s' : Search C R} (h : Reaches s s') : Reaches s s'.step.2

namespace Explores

/-- **A search of a problem stays one**, whatever the number of steps. -/
theorem reaches (hp : p.table.Shows p.options p.table.keys live) (h : s.Explores p live)
    (hs : s.Reaches s') : s'.Explores p live := by
  induction hs with
  | refl => exact h
  | step _ ih => exact (ih.step hp).explores

/-- **No step looks up what is not a row.** -/
theorem step?_eq (hp : p.table.Shows p.options p.table.keys live) (h : s.Explores p live) :
    s.step? = some s.step := by
  rw [step?]
  split
  · rfl
  · rfl
  · next f outer hframes _ =>
    have hf : f ∈ s.frames := hframes ▸ List.mem_cons_self
    split
    · next selection hselected =>
      rw [h.options_eq, Table.retract?_eq (h.stack.mem_options_of_mem_undo hp hf hselected)]
      rfl
    · rfl
    · next row untried _ huntried =>
      have hrow : row ∈ p.options :=
        h.stack.mem_options_of_mem_candidates hp hf (by simp [Frame.candidates, huntried])
      have hselect := (Problem.declared_tableAfter hp s.chosen).select hrow
      rw [h.options_eq, h.table_eq, hselect.1]
      rfl

/-- **Neither does leaving the search.** -/
theorem close?_eq (hp : p.table.Shows p.options p.table.keys live) (h : s.Explores p live) :
    s.close? = some s.close := by
  have hretract := foldlM_eq_some (P := fun _ ↦ True) (l := s.frames.filterMap (·.selected))
    (f := fun (t : Table C R) σ ↦ t.retract? s.options σ.undo)
    (g := fun t σ ↦ t.retract s.options σ.undo)
    (b := s.table) (fun t σ hσ _ ↦ ?_) trivial
  · rw [close?, hretract.1]
    rfl
  · obtain ⟨f, hf, hselected⟩ := List.mem_filterMap.1 hσ
    refine ⟨Table.retract?_eq ?_, trivial⟩
    rw [h.options_eq]
    exact h.stack.mem_options_of_mem_undo hp hf hselected

end Explores

end Search

end ExactCover
