import ExactCover.Table.Lemmas

/-!
# Why a selection can be retracted

An undo record does not say from which columns candidates were struck.  That retracting still gives
back the exact table rests on one property of tables, `Coherent`: a row is listed either under all
of its columns or under none.  The tables of a new problem have it, covering a column keeps it
(`Coherent.cover`), and on such tables uncovering is the exact inverse of covering
(`Coherent.uncover_cover`), hence retracting of selecting (`Coherent.retract_select`).

The property does not ask that all rows be listed, nor that all columns of a row be in the table, so
the table of an abandoned search has it too.
-/

set_option autoImplicit false

namespace ExactCover.Table

variable {C R : Type} [Key C] [Key R] {o : Options C R} {t : Table C R}

/-- **A listed row covers the column it is listed under, and is listed under every other column it
covers**, each of which it covers once. -/
structure Coherent (o : Options C R) (t : Table C R) : Prop where
  /-- A row is listed only under columns that it covers. -/
  mem_columns : ∀ c r, t.Lists c r → c ∈ o.columns r
  /-- A listed row is listed under all of its columns. -/
  lists_all : ∀ c r, t.Lists c r → ∀ d ∈ o.columns r, t.Lists d r
  /-- A listed row covers no column twice. -/
  nodup : ∀ c r, t.Lists c r → (o.columns r).Nodup

namespace Coherent

/-- A row that is listed at all is listed under exactly the columns that it covers. -/
theorem lists_iff (h : t.Coherent o) {c d : C} {r : R} (hc : t.Lists c r) :
    t.Lists d r ↔ d ∈ o.columns r :=
  ⟨h.mem_columns d r, h.lists_all c r hc d⟩

/-- What covering a column leaves: the other columns, with the rows that do not cover it. -/
theorem lists_cover_iff (h : t.Coherent o) {c d : C} {rs : Std.ExtTreeSet R} {r : R}
    (hrs : t[c]? = some rs) : (t.cover o c rs).Lists d r ↔ t.Lists d r ∧ c ∉ o.columns r := by
  rw [lists_cover, ← lists_iff_of_getElem? hrs]
  constructor
  · rintro ⟨hd, hl, hn⟩
    exact ⟨hl, fun hc ↦ hn ⟨h.lists_all d r hl c hc, h.mem_columns d r hl⟩⟩
  · rintro ⟨hl, hc⟩
    refine ⟨?_, hl, fun hn ↦ hc (h.mem_columns c r hn.1)⟩
    rintro rfl
    exact hc (h.mem_columns d r hl)

/-- Covering a column keeps a table coherent. -/
theorem cover (h : t.Coherent o) {c : C} {rs : Std.ExtTreeSet R} (hrs : t[c]? = some rs) :
    (t.cover o c rs).Coherent o where
  mem_columns d r hd := h.mem_columns d r ((h.lists_cover_iff hrs).1 hd).1
  lists_all d r hd e he :=
    have ⟨hl, hc⟩ := (h.lists_cover_iff hrs).1 hd
    (h.lists_cover_iff hrs).2 ⟨h.lists_all d r hl e he, hc⟩
  nodup d r hd := h.nodup d r ((h.lists_cover_iff hrs).1 hd).1

/-- **Uncovering is the inverse of covering.** -/
theorem uncover_cover (h : t.Coherent o) {c : C} {rs : Std.ExtTreeSet R} (hrs : t[c]? = some rs) :
    (t.cover o c rs).uncover o c rs = t := by
  have hc : c ∈ t := Std.ExtTreeMap.mem_iff_isSome_getElem?.2 (by simp [hrs])
  refine ext_lists (fun d ↦ ?_) fun d r ↦ ?_
  · rw [mem_uncover, mem_cover]
    by_cases hd : d = c
    · simp [hd, hc]
    · simp [hd]
  · rw [lists_uncover]
    by_cases hd : d = c
    · rw [if_pos hd, hd, lists_iff_of_getElem? hrs]
    · rw [if_neg hd, h.lists_cover_iff hrs, mem_cover, ← lists_iff_of_getElem? hrs]
      constructor
      · rintro (⟨hl, -⟩ | ⟨hl, hd, -⟩)
        · exact hl
        · exact h.lists_all c r hl d hd
      · intro hl
        by_cases hcr : c ∈ o.columns r
        · exact .inr ⟨h.lists_all d r hl c hcr, h.mem_columns d r hl, hd, mem_of_lists hl⟩
        · exact .inl ⟨hl, hcr⟩

/-- Selecting further columns keeps a table coherent, and what it adds to the record takes the table
back to where it was. -/
theorem foldl_selectColumn (h : t.Coherent o) (cs : List C) (u : Undo C R) :
    (cs.foldl (selectColumn o) (t, u)).1.Coherent o ∧
      ∃ v, (cs.foldl (selectColumn o) (t, u)).2 = v ++ u ∧
        (cs.foldl (selectColumn o) (t, u)).1.retract o v = t := by
  induction cs generalizing t u with
  | nil => exact ⟨h, [], rfl, rfl⟩
  | cons c cs ih =>
    rw [List.foldl_cons]
    rcases hrs : t[c]? with _ | rs
    · rw [selectColumn_of_eq_none hrs]
      exact ih h u
    · rw [selectColumn_of_eq_some hrs]
      obtain ⟨hcoherent, v, hv, hback⟩ := ih (h.cover hrs) ((c, rs) :: u)
      refine ⟨hcoherent, v ++ [(c, rs)], by rw [hv, List.append_cons], ?_⟩
      rw [retract_append, hback]
      exact h.uncover_cover hrs

/-- Selecting a row keeps a table coherent. -/
theorem select (h : t.Coherent o) (r : R) : (t.select o r).1.Coherent o :=
  (h.foldl_selectColumn (o.columns r) []).1

/-- **Retracting is the inverse of selecting**, for every row, whether it is listed or not. -/
theorem retract_select (h : t.Coherent o) (r : R) :
    (t.select o r).1.retract o (t.select o r).2 = t := by
  obtain ⟨-, v, hv, hback⟩ := h.foldl_selectColumn (o.columns r) []
  rw [List.append_nil] at hv
  rw [Table.select, hv]
  exact hback

end Coherent

end ExactCover.Table
