import ExactCover.Proofs.Problem.Building

/-!
# Declaring many columns and rows

A problem that is put together by a program is put together in two passes: all columns first, then
all rows.  Neither pass can fail if the columns are different, and the rows are different and each
covers different columns among those declared; and the problem that comes out has just these
columns and rows (`Problem.Built.foldlM_addColumn`, `Problem.Built.foldlM_addRow`).
-/

set_option autoImplicit false

namespace ExactCover.Problem

variable {C R : Type} [Key C] [Key R] {p q : Problem C R} {c d : C} {r r' : R} {cs : List C}

/-! ## One at a time -/

theorem Built.addColumn (h : p.Built) (hq : p.addColumn c = .ok q) : q.Built := by
  have hedit : p.edit (.column c) = q := by
    rw [Problem.edit, hq]
    rfl
  exact hedit ▸ h.edit _

theorem Built.addRow (h : p.Built) (hq : p.addRow r cs = .ok q) : q.Built := by
  have hedit : p.edit (.row r cs) = q := by
    rw [Problem.edit, hq]
    rfl
  exact hedit ▸ h.edit _

/-- A new column can be declared. -/
theorem exists_addColumn (hc : c ∉ p.table) : ∃ q, p.addColumn c = .ok q ∧
    (∀ d, d ∈ q.table ↔ d = c ∨ d ∈ p.table) ∧ q.options = p.options := by
  refine ⟨_, if_neg hc, fun d ↦ ?_, rfl⟩
  rw [Std.ExtTreeMap.mem_insert, Key.compare_eq_iff, eq_comm]

/-- A new row can be declared if it covers different columns that are declared. -/
theorem exists_addRow (hr : r ∉ p.options) (hcs : ∀ c ∈ cs, c ∈ p.table) (hnodup : cs.Nodup) :
    ∃ q, p.addRow r cs = .ok q ∧ (∀ c, c ∈ q.table ↔ c ∈ p.table) ∧
      ∀ r', q.options[r']? = if r' = r then some cs else p.options[r']? := by
  have hfault : columnFault? p.table r [] cs = none :=
    columnFault?_eq_none_iff.2 ⟨fun c hc ↦ ⟨hcs c hc, List.not_mem_nil⟩, hnodup⟩
  refine ⟨_, by rw [Problem.addRow, if_neg hr, hfault], fun _ ↦ Table.mem_foldl_modify, ?_⟩
  intro r'
  rw [Std.ExtTreeMap.getElem?_insert]
  simp only [Key.compare_eq_iff, eq_comm (a := r')]

/-! ## One after another -/

/-- **Different columns can be declared one after another.** -/
theorem Built.foldlM_addColumn (h : p.Built) (hnodup : cs.Nodup) (hnew : ∀ c ∈ cs, c ∉ p.table) :
    ∃ q, cs.foldlM Problem.addColumn p = .ok q ∧ q.Built ∧
      (∀ c, c ∈ q.table ↔ c ∈ cs ∨ c ∈ p.table) ∧ q.options = p.options := by
  induction cs generalizing p with
  | nil => exact ⟨p, rfl, h, fun c ↦ by simp, rfl⟩
  | cons c cs ih =>
    rw [List.nodup_cons] at hnodup
    rw [List.forall_mem_cons] at hnew
    obtain ⟨p', hp', htable, hoptions⟩ := exists_addColumn hnew.1
    have hnew' : ∀ d ∈ cs, d ∉ p'.table := by
      intro d hd
      rw [htable, not_or]
      exact ⟨fun he ↦ hnodup.1 (he ▸ hd), hnew.2 d hd⟩
    obtain ⟨q, hq, hbuilt, htable', hoptions'⟩ := ih (h.addColumn hp') hnodup.2 hnew'
    refine ⟨q, by rw [List.foldlM_cons, hp']; exact hq, hbuilt, fun d ↦ ?_,
      hoptions'.trans hoptions⟩
    rw [htable', htable, List.mem_cons, or_left_comm, or_assoc]

/-- **Different rows can be declared one after another**, if each covers different columns that are
declared. -/
theorem Built.foldlM_addRow {rows : List R} {f : R → List C} (h : p.Built) (hnodup : rows.Nodup)
    (hnew : ∀ r ∈ rows, r ∉ p.options) (hcs : ∀ r ∈ rows, (∀ c ∈ f r, c ∈ p.table) ∧ (f r).Nodup) :
    ∃ q, rows.foldlM (fun p r ↦ p.addRow r (f r)) p = .ok q ∧ q.Built ∧
      (∀ c, c ∈ q.table ↔ c ∈ p.table) ∧ (∀ r ∈ rows, q.options[r]? = some (f r)) ∧
      ∀ r, r ∉ rows → q.options[r]? = p.options[r]? := by
  induction rows generalizing p with
  | nil => exact ⟨p, rfl, h, fun _ ↦ Iff.rfl, nofun, fun _ _ ↦ rfl⟩
  | cons r rows ih =>
    rw [List.nodup_cons] at hnodup
    rw [List.forall_mem_cons] at hnew hcs
    obtain ⟨p', hp', htable, hoptions⟩ := exists_addRow hnew.1 hcs.1.1 hcs.1.2
    have hnew' : ∀ r' ∈ rows, r' ∉ p'.options := by
      intro r' hr'
      have hne : r' ≠ r := fun he ↦ hnodup.1 (he ▸ hr')
      rw [Std.ExtTreeMap.mem_iff_isSome_getElem?, hoptions, if_neg hne,
        ← Std.ExtTreeMap.mem_iff_isSome_getElem?]
      exact hnew.2 r' hr'
    have hcs' : ∀ r' ∈ rows, (∀ c ∈ f r', c ∈ p'.table) ∧ (f r').Nodup := fun r' hr' ↦
      ⟨fun c hc ↦ (htable c).2 ((hcs.2 r' hr').1 c hc), (hcs.2 r' hr').2⟩
    obtain ⟨q, hq, hbuilt, htable', hrows, hrest⟩ := ih (h.addRow hp') hnodup.2 hnew' hcs'
    refine ⟨q, by rw [List.foldlM_cons, hp']; exact hq, hbuilt,
      fun c ↦ (htable' c).trans (htable c), List.forall_mem_cons.2 ⟨?_, hrows⟩, fun r' hr' ↦ ?_⟩
    · rw [hrest r hnodup.1, hoptions, if_pos rfl]
    · rw [List.mem_cons, not_or] at hr'
      rw [hrest r' hr'.2, hoptions, if_neg hr'.1]

end ExactCover.Problem
