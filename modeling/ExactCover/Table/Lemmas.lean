import ExactCover.Table.Basic

/-!
# What the operations on a table do to its entries

A candidate table is known once it is known which columns it holds and which rows each of them
lists (`Table.ext_lists`).  This file says for every operation what happens to these two: the
lemmas named `mem_…` are about the columns, and those named `lists_…` about the rows listed.
With them nobody has to look into an operation again.
-/

set_option autoImplicit false

namespace ExactCover.Table

variable {C R : Type} [Key C] [Key R]

/-! ## Tables by their entries -/

theorem lists_iff_of_getElem? {t : Table C R} {c : C} {r : R} {rs : Std.ExtTreeSet R}
    (h : t[c]? = some rs) : t.Lists c r ↔ r ∈ rs := by
  simp [Lists, h]

theorem mem_of_lists {t : Table C R} {c : C} {r : R} (h : t.Lists c r) : c ∈ t := by
  obtain ⟨rs, hrs, -⟩ := h
  exact Std.ExtTreeMap.mem_iff_isSome_getElem?.2 (by simp [hrs])

/-- **Two tables are equal** if they hold the same columns and list the same rows under each. -/
theorem ext_lists {s t : Table C R} (hmem : ∀ c, c ∈ s ↔ c ∈ t)
    (hlists : ∀ c r, s.Lists c r ↔ t.Lists c r) : s = t := by
  refine Std.ExtTreeMap.ext_getElem? fun c ↦ ?_
  rcases hs : s[c]? with _ | rs <;> rcases ht : t[c]? with _ | rs'
  · rfl
  · exact absurd ((hmem c).2 (Std.ExtTreeMap.mem_iff_isSome_getElem?.2 (by simp [ht])))
      fun h ↦ by simp [Std.ExtTreeMap.mem_iff_isSome_getElem?, hs] at h
  · exact absurd ((hmem c).1 (Std.ExtTreeMap.mem_iff_isSome_getElem?.2 (by simp [hs])))
      fun h ↦ by simp [Std.ExtTreeMap.mem_iff_isSome_getElem?, ht] at h
  · refine congrArg some (Std.ExtTreeSet.ext_mem fun r ↦ ?_)
    rw [← lists_iff_of_getElem? hs, ← lists_iff_of_getElem? ht]
    exact hlists c r

/-! ## One row under its columns -/

theorem mem_foldl_modify {f : Std.ExtTreeSet R → Std.ExtTreeSet R} {t : Table C R} {cs : List C}
    {c : C} : c ∈ cs.foldl (fun t d ↦ t.modify d f) t ↔ c ∈ t := by
  induction cs generalizing t with
  | nil => rfl
  | cons d cs ih => rw [List.foldl_cons, ih, Std.ExtTreeMap.mem_modify]

theorem lists_modify {f : Std.ExtTreeSet R → Std.ExtTreeSet R} {t : Table C R} {c d : C} {r : R} :
    Lists (t.modify d f) c r ↔
      if d = c then ∃ rs, t[c]? = some rs ∧ r ∈ f rs else t.Lists c r := by
  rw [Lists, Std.ExtTreeMap.getElem?_modify]
  by_cases h : d = c
  · subst h
    rcases hd : t[d]? with _ | rs <;> simp [Std.ReflCmp.compare_self]
  · rw [if_neg (fun hc ↦ h (Key.compare_eq_iff.1 hc)), if_neg h, Lists]

theorem mem_erase_iff {rs : Std.ExtTreeSet R} {r r' : R} : r' ∈ rs.erase r ↔ r' ≠ r ∧ r' ∈ rs := by
  rw [Std.ExtTreeSet.mem_erase, ne_eq, Key.compare_eq_iff, eq_comm]

theorem mem_insert_iff {rs : Std.ExtTreeSet R} {r r' : R} :
    r' ∈ rs.insert r ↔ r' = r ∨ r' ∈ rs := by
  rw [Std.ExtTreeSet.mem_insert, Key.compare_eq_iff, eq_comm]

theorem lists_foldl_erase {t : Table C R} {cs : List C} {c : C} {r r' : R} :
    Lists (cs.foldl (fun (t : Table C R) d ↦ t.modify d (·.erase r)) t) c r' ↔
      t.Lists c r' ∧ ¬(r' = r ∧ c ∈ cs) := by
  induction cs generalizing t with
  | nil => simp
  | cons d cs ih =>
    rw [List.foldl_cons, ih, lists_modify, List.mem_cons]
    by_cases h : d = c
    · subst h
      simp only [if_true, true_or, and_true, mem_erase_iff, Lists]
      constructor
      · rintro ⟨⟨rs, hrs, hne, hr⟩, -⟩
        exact ⟨⟨rs, hrs, hr⟩, hne⟩
      · rintro ⟨⟨rs, hrs, hr⟩, hne⟩
        exact ⟨⟨rs, hrs, hne, hr⟩, fun h ↦ hne h.1⟩
    · rw [if_neg h]
      simp [Ne.symm h]

theorem lists_foldl_insert {t : Table C R} {cs : List C} {c : C} {r r' : R} :
    Lists (cs.foldl (fun (t : Table C R) d ↦ t.modify d (·.insert r)) t) c r' ↔
      t.Lists c r' ∨ (r' = r ∧ c ∈ cs ∧ c ∈ t) := by
  induction cs generalizing t with
  | nil => simp
  | cons d cs ih =>
    rw [List.foldl_cons, ih, lists_modify, List.mem_cons, Std.ExtTreeMap.mem_modify]
    by_cases h : d = c
    · subst h
      simp only [if_true, true_or, true_and, mem_insert_iff, Lists]
      constructor
      · rintro (⟨rs, hrs, rfl | hr⟩ | ⟨rfl, -, hmem⟩)
        · exact .inr ⟨rfl, Std.ExtTreeMap.mem_iff_isSome_getElem?.2 (by simp [hrs])⟩
        · exact .inl ⟨rs, hrs, hr⟩
        · exact .inr ⟨rfl, hmem⟩
      · rintro (⟨rs, hrs, hr⟩ | ⟨rfl, hmem⟩)
        · exact .inl ⟨rs, hrs, .inr hr⟩
        · obtain ⟨rs, hrs⟩ :=
            Option.isSome_iff_exists.1 (Std.ExtTreeMap.mem_iff_isSome_getElem?.1 hmem)
          exact .inl ⟨rs, hrs, .inl rfl⟩
    · rw [if_neg h]
      simp [Ne.symm h]

@[simp]
theorem mem_strike {o : Options C R} {t : Table C R} {r : R} {c : C} :
    c ∈ t.strike o r ↔ c ∈ t := mem_foldl_modify

theorem lists_strike {o : Options C R} {t : Table C R} {r r' : R} {c : C} :
    (t.strike o r).Lists c r' ↔ t.Lists c r' ∧ ¬(r' = r ∧ c ∈ o.columns r) := lists_foldl_erase

@[simp]
theorem mem_unstrike {o : Options C R} {t : Table C R} {r : R} {c : C} :
    c ∈ t.unstrike o r ↔ c ∈ t := mem_foldl_modify

theorem lists_unstrike {o : Options C R} {t : Table C R} {r r' : R} {c : C} :
    (t.unstrike o r).Lists c r' ↔ t.Lists c r' ∨ (r' = r ∧ c ∈ o.columns r ∧ c ∈ t) :=
  lists_foldl_insert

/-! ## Several rows -/

theorem mem_foldl_strike {o : Options C R} {t : Table C R} {rs : List R} {c : C} :
    c ∈ rs.foldl (strike o) t ↔ c ∈ t := by
  induction rs generalizing t with
  | nil => rfl
  | cons r rs ih => rw [List.foldl_cons, ih, mem_strike]

theorem lists_foldl_strike {o : Options C R} {t : Table C R} {rs : List R} {c : C} {r : R} :
    (rs.foldl (strike o) t).Lists c r ↔ t.Lists c r ∧ ¬(r ∈ rs ∧ c ∈ o.columns r) := by
  induction rs generalizing t with
  | nil => simp
  | cons r₀ rs ih =>
    rw [List.foldl_cons, ih, lists_strike, List.mem_cons]
    by_cases h : r = r₀
    · subst h
      simp only [true_and, true_or]
      exact ⟨fun h ↦ h.1, fun h ↦ ⟨h, fun h' ↦ h.2 h'.2⟩⟩
    · simp [h]

theorem mem_foldl_unstrike {o : Options C R} {t : Table C R} {rs : List R} {c : C} :
    c ∈ rs.foldl (unstrike o) t ↔ c ∈ t := by
  induction rs generalizing t with
  | nil => rfl
  | cons r rs ih => rw [List.foldl_cons, ih, mem_unstrike]

theorem lists_foldl_unstrike {o : Options C R} {t : Table C R} {rs : List R} {c : C} {r : R} :
    (rs.foldl (unstrike o) t).Lists c r ↔
      t.Lists c r ∨ (r ∈ rs ∧ c ∈ o.columns r ∧ c ∈ t) := by
  induction rs generalizing t with
  | nil => simp
  | cons r₀ rs ih =>
    rw [List.foldl_cons, ih, lists_unstrike, List.mem_cons, mem_unstrike]
    by_cases h : r = r₀
    · subst h
      simp only [true_and, true_or]
      rw [or_assoc, or_iff_left_of_imp (b := r ∈ rs ∧ _) fun h ↦ h.2]
    · simp [h]

/-! ## Covering and uncovering a column -/

theorem mem_cover {o : Options C R} {t : Table C R} {c d : C} {rs : Std.ExtTreeSet R} :
    d ∈ t.cover o c rs ↔ d ≠ c ∧ d ∈ t := by
  rw [cover, mem_foldl_strike, Std.ExtTreeMap.mem_erase, ne_eq, Key.compare_eq_iff, eq_comm]

theorem lists_erase {t : Table C R} {c d : C} {r : R} :
    Lists (t.erase c) d r ↔ d ≠ c ∧ t.Lists d r := by
  rw [Lists, Std.ExtTreeMap.getElem?_erase]
  by_cases h : c = d
  · subst h
    simp [Std.ReflCmp.compare_self]
  · rw [if_neg (fun hc ↦ h (Key.compare_eq_iff.1 hc))]
    simp [Lists, Ne.symm h]

theorem lists_cover {o : Options C R} {t : Table C R} {c d : C} {rs : Std.ExtTreeSet R} {r : R} :
    (t.cover o c rs).Lists d r ↔ d ≠ c ∧ t.Lists d r ∧ ¬(r ∈ rs ∧ d ∈ o.columns r) := by
  rw [cover, lists_foldl_strike, lists_erase, and_assoc, Std.ExtTreeSet.mem_toList]

theorem mem_uncover {o : Options C R} {t : Table C R} {c d : C} {rs : Std.ExtTreeSet R} :
    d ∈ t.uncover o c rs ↔ d = c ∨ d ∈ t := by
  rw [uncover, Std.ExtTreeMap.mem_insert, mem_foldl_unstrike, Key.compare_eq_iff, eq_comm]

theorem lists_uncover {o : Options C R} {t : Table C R} {c d : C} {rs : Std.ExtTreeSet R} {r : R} :
    (t.uncover o c rs).Lists d r ↔
      if d = c then r ∈ rs else t.Lists d r ∨ (r ∈ rs ∧ d ∈ o.columns r ∧ d ∈ t) := by
  rw [uncover, Lists, Std.ExtTreeMap.getElem?_insert]
  by_cases h : d = c
  · subst h
    simp [Std.ReflCmp.compare_self]
  · rw [if_neg (fun hc ↦ h (Key.compare_eq_iff.1 hc).symm), if_neg h, ← Std.ExtTreeSet.mem_toList]
    exact lists_foldl_unstrike

/-! ## Selecting and retracting -/

/-- A column that is covered already does not matter to a selection. -/
theorem selectColumn_of_eq_none {o : Options C R} {t : Table C R} {u : Undo C R} {c : C}
    (h : t[c]? = none) : selectColumn o (t, u) c = (t, u) := by
  simp [selectColumn, h]

theorem selectColumn_of_eq_some {o : Options C R} {t : Table C R} {u : Undo C R} {c : C}
    {rs : Std.ExtTreeSet R} (h : t[c]? = some rs) :
    selectColumn o (t, u) c = (t.cover o c rs, (c, rs) :: u) := by
  simp [selectColumn, h]

theorem retract_append {o : Options C R} {t : Table C R} {u v : Undo C R} :
    t.retract o (u ++ v) = (t.retract o u).retract o v := List.foldl_append

end ExactCover.Table
