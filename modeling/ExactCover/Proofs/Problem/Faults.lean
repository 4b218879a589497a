import ExactCover.Proofs.Problem.Assembling
import Mathlib.Data.List.Duplicate

/-!
# Which fault is reported

Tables and rows that are refused may have many faults, and one of them is named.  Which one it is
can be said without the order in which the checks are made.

The columns of a row are gone through as the row lists them, and whether one of them is amiss may
depend on those before it.  So the fault of a row is at the first position where something is amiss
(`FirstAmiss`); what is reported of it is what is amiss there (`columnFault?_eq_some_iff`,
`optionFault?_eq_some_iff`).  A table is gone through in ascending order, so that of all pairs of a
column and a row that are amiss the least one is reported, and of all rows that are amiss the least
(`findSome?_eq_some_iff_least`).

`Problem.Reported` puts this together for a pair of tables, and `TableError.Genuine` says what each
kind of error claims about the tables.  What is reported is one as well as the other
(`Problem.reported_of_tables`).
-/

set_option autoImplicit false

namespace ExactCover

/-! ## The first position -/

/-- **The first member of a list that is amiss** is `c`, at position `i`.  What is amiss with it may
depend on those listed before it. -/
structure FirstAmiss {α : Type} (Amiss : List α → α → Prop) (cs : List α) (i : Nat) (c : α) :
    Prop where
  /-- It stands there. -/
  getElem?_eq : cs[i]? = some c
  /-- It is amiss. -/
  amiss : Amiss (cs.take i) c
  /-- None before it is. -/
  not_before : ∀ j < i, ∀ d, cs[j]? = some d → ¬Amiss (cs.take j) d

section scan

variable {α ε : Type} {Amiss : List α → α → Prop} {check : List α → α → Option ε}
  {seen cs : List α} {c d : α} {i : Nat} {fault : ε}

theorem not_firstAmiss_nil : ¬FirstAmiss Amiss [] i d := fun h ↦ by
  simpa using h.getElem?_eq

/-- It is the head, or the head is not amiss and it is found further on. -/
theorem firstAmiss_cons : FirstAmiss Amiss (c :: cs) i d ↔ (i = 0 ∧ d = c ∧ Amiss [] c) ∨
    ∃ j, i = j + 1 ∧ ¬Amiss [] c ∧ FirstAmiss (fun before ↦ Amiss (c :: before)) cs j d := by
  constructor
  · intro h
    cases i with
    | zero =>
      obtain rfl : c = d := by simpa using h.getElem?_eq
      exact .inl ⟨rfl, rfl, h.amiss⟩
    | succ j =>
      refine .inr ⟨j, rfl, h.not_before 0 j.succ_pos c rfl, h.getElem?_eq, h.amiss, ?_⟩
      intro k hk
      exact h.not_before (k + 1) (Nat.succ_lt_succ hk)
  · rintro (⟨rfl, rfl, h⟩ | ⟨j, rfl, hc, h⟩)
    · exact ⟨rfl, h, fun j hj ↦ absurd hj (Nat.not_lt_zero j)⟩
    · refine ⟨h.getElem?_eq, h.amiss, fun k hk e he ↦ ?_⟩
      cases k with
      | zero =>
        obtain rfl : c = e := by simpa using he
        exact hc
      | succ k => exact h.not_before k (Nat.lt_of_succ_lt_succ hk) e he

/-- Checks a list from left to right, those `seen` before in hand, up to the first fault. -/
def scan (check : List α → α → Option ε) (seen : List α) : List α → Option ε
  | [] => none
  | c :: cs => (check seen c).or (scan check (c :: seen) cs)

/-- **The fault found is that of the first position where there is any.** -/
theorem scan_eq_some_iff : scan check seen cs = some fault ↔
    ∃ i c, FirstAmiss (fun before c ↦ check (before.reverse ++ seen) c ≠ none) cs i c ∧
      check ((cs.take i).reverse ++ seen) c = some fault := by
  induction cs generalizing seen with
  | nil => simp [scan, not_firstAmiss_nil]
  | cons c cs ih =>
    simp only [firstAmiss_cons, scan]
    rcases hc : check seen c with _ | fault'
    · rw [Option.none_or, ih]
      constructor
      · rintro ⟨j, d, h, hfault⟩
        exact ⟨j + 1, d, .inr ⟨j, rfl, by simp [hc], by simpa using h⟩, by simpa using hfault⟩
      · rintro ⟨_, d, ⟨rfl, rfl, h⟩ | ⟨j, rfl, -, h⟩, hfault⟩
        · simp [hc] at h
        · exact ⟨j, d, by simpa using h, by simpa using hfault⟩
    · rw [Option.some_or]
      constructor
      · intro hfault
        exact ⟨0, c, .inl ⟨rfl, rfl, by simp [hc]⟩, by simpa [hc] using hfault⟩
      · rintro ⟨_, d, ⟨rfl, rfl, h⟩ | ⟨j, rfl, h, -⟩, hfault⟩
        · simpa [hc] using hfault
        · simp [hc] at h

end scan

variable {C R : Type} [Key C] [Key R]

namespace Problem

variable {t : Table C R} {o : Options C R} {c : C} {r : R} {cs : List C} {fault : TableError C R}

/-! ## The columns of one row -/

/-- What is amiss with one column of a new row. -/
theorem columnFault?_singleton {before : List C} : columnFault? t r before [c] =
    if c ∉ t then some (.columnNotDeclared r c)
    else if c ∈ before then some (.columnRepeated r c)
    else none := by
  rw [columnFault?, columnFault?]

/-- The columns are checked one by one. -/
theorem columnFault?_eq_scan {seen : List C} :
    columnFault? t r seen cs = scan (fun before c ↦ columnFault? t r before [c]) seen cs := by
  induction cs generalizing seen with
  | nil => rfl
  | cons c cs ih =>
    rw [columnFault?, scan, ih, columnFault?_singleton]
    by_cases ht : c ∈ t
    · by_cases hs : c ∈ seen <;> simp [ht, hs]
    · simp [ht]

/-- **A new row is at fault where a column first is not in the table or was listed before.** -/
theorem columnFault?_eq_some_iff : columnFault? t r [] cs = some fault ↔
    ∃ i c, FirstAmiss (fun before c ↦ c ∉ t ∨ c ∈ before) cs i c ∧
      fault = if c ∉ t then .columnNotDeclared r c else .columnRepeated r c := by
  have hamiss (before : List C) (c : C) :
      columnFault? t r (before.reverse ++ []) [c] ≠ none ↔ c ∉ t ∨ c ∈ before := by
    by_cases ht : c ∈ t <;> simp [columnFault?_singleton, ht]
  rw [columnFault?_eq_scan, scan_eq_some_iff]
  simp only [hamiss]
  refine exists_congr fun i ↦ exists_congr fun c ↦ and_congr_right fun h ↦ ?_
  by_cases ht : c ∈ t
  · have hbefore := h.amiss.resolve_left (not_not_intro ht)
    simp [columnFault?_singleton, ht, hbefore, eq_comm]
  · simp [columnFault?_singleton, ht, eq_comm]

/-- The columns of a row in the tables are checked one by one as well. -/
theorem optionFault?_eq_scan {seen : List C} :
    optionFault? t r seen cs = scan (fun before c ↦ optionFault? t r before [c]) seen cs := by
  induction cs generalizing seen with
  | nil => rfl
  | cons c cs ih =>
    rw [optionFault?, scan, ih, optionFault?]
    by_cases hs : c ∈ seen
    · simp [hs]
    · rcases t[c]? with _ | rs
      · simp [hs]
      · by_cases hr : r ∈ rs <;> simp [hs, hr, optionFault?]

/-- A column that is not in the table lists nothing, so three things can be amiss. -/
theorem optionFault?_singleton_eq_none_iff {before : List C} :
    optionFault? t r before [c] = none ↔ ¬(c ∈ before ∨ c ∉ t ∨ ¬t.Lists c r) := by
  rw [or_iff_right_of_imp fun hc ↦ mt Table.mem_of_lists hc, optionFault?_eq_none_iff]
  simp [and_comm]

/-- Where a column is amiss, this is reported. -/
theorem optionFault?_singleton_of_amiss {before : List C}
    (h : c ∈ before ∨ c ∉ t ∨ ¬t.Lists c r) : optionFault? t r before [c] =
      some (if c ∈ before then .columnRepeated r c
        else if c ∉ t then .columnNotDeclared r c else .oneSided c r) := by
  by_cases hs : c ∈ before
  · rw [optionFault?, if_pos hs, if_pos hs]
  · rw [optionFault?, if_neg hs, if_neg hs]
    rcases hrs : t[c]? with _ | rs
    · have ht : c ∉ t := by simp [Std.ExtTreeMap.mem_iff_isSome_getElem?, hrs]
      rw [if_pos ht]
    · have ht : c ∈ t := Std.ExtTreeMap.mem_iff_isSome_getElem?.2 (by rw [hrs]; rfl)
      have hlists := (h.resolve_left hs).resolve_left (not_not_intro ht)
      rw [Table.lists_iff_of_getElem? hrs] at hlists
      rw [if_neg (not_not_intro ht)]
      exact if_neg hlists

/-- **A row in the tables is at fault where a column first was listed before, is not in the table or
does not list the row.** -/
theorem optionFault?_eq_some_iff : optionFault? t r [] cs = some fault ↔
    ∃ i c, FirstAmiss (fun before c ↦ c ∈ before ∨ c ∉ t ∨ ¬t.Lists c r) cs i c ∧
      fault = if c ∈ cs.take i then .columnRepeated r c
        else if c ∉ t then .columnNotDeclared r c else .oneSided c r := by
  have hamiss (before : List C) (c : C) : optionFault? t r (before.reverse ++ []) [c] ≠ none ↔
      c ∈ before ∨ c ∉ t ∨ ¬t.Lists c r := by
    rw [ne_eq, optionFault?_singleton_eq_none_iff, not_not, List.append_nil, List.mem_reverse]
  rw [optionFault?_eq_scan, scan_eq_some_iff]
  simp only [hamiss]
  refine exists_congr fun i ↦ exists_congr fun c ↦ and_congr_right fun h ↦ ?_
  rw [optionFault?_singleton_of_amiss (by simpa using h.amiss), Option.some_inj, eq_comm]
  simp only [List.append_nil, List.mem_reverse]

end Problem

/-! ## The least member -/

/-- **In an ascending list the least member with a fault decides.** -/
theorem findSome?_eq_some_iff_least {α κ ε : Type} [Key κ] {key : α → κ} {f : α → Option ε}
    {l : List α} {fault : ε} (h : l.Pairwise fun a b ↦ compare (key a) (key b) = .lt) :
    l.findSome? f = some fault ↔
      ∃ a ∈ l, f a = some fault ∧ ∀ b ∈ l, f b ≠ none → (compare (key a) (key b)).isLE := by
  induction l with
  | nil => simp
  | cons a l ih =>
    rw [List.pairwise_cons] at h
    rw [List.findSome?_cons]
    cases hfa : f a with
    | none =>
      dsimp only
      rw [ih h.2]
      constructor
      · rintro ⟨b, hb, hfb, hleast⟩
        exact ⟨b, List.mem_cons_of_mem _ hb, hfb,
          List.forall_mem_cons.2 ⟨fun hne ↦ absurd hfa hne, hleast⟩⟩
      · rintro ⟨b, hb, hfb, hleast⟩
        have hne : b ≠ a := by
          rintro rfl
          simp [hfa] at hfb
        exact ⟨b, List.mem_of_ne_of_mem hne hb, hfb, (List.forall_mem_cons.1 hleast).2⟩
    | some fault' =>
      dsimp only
      constructor
      · intro hfault
        exact ⟨a, List.mem_cons_self, hfa.trans hfault, List.forall_mem_cons.2
          ⟨fun _ ↦ Std.ReflCmp.isLE_rfl, fun b hb _ ↦ Ordering.isLE_of_eq_lt (h.1 b hb)⟩⟩
      · rintro ⟨b, hb, hfb, hleast⟩
        obtain rfl | hb := List.mem_cons.1 hb
        · exact hfa.symm.trans hfb
        · -- The head is less, and has a fault too.
          have hle := hleast a List.mem_cons_self (by simp [hfa])
          exact absurd hle (Std.OrientedCmp.not_isLE_of_lt (h.1 b hb))

theorem findSome?_flatMap {α β ε : Type} {g : α → List β} {f : β → Option ε} {l : List α} :
    (l.flatMap g).findSome? f = l.findSome? fun a ↦ (g a).findSome? f := by
  induction l with
  | nil => rfl
  | cons a l ih =>
    rw [List.flatMap_cons, List.findSome?_append, ih, List.findSome?_cons]
    cases (g a).findSome? f <;> rfl

namespace Table

variable {t : Table C R}

/-- What is listed in a table: each column with each of its candidates. -/
def listing (t : Table C R) : List (C × R) :=
  t.toList.flatMap fun e ↦ e.2.toList.map fun r ↦ (e.1, r)

theorem mem_listing {e : C × R} : e ∈ t.listing ↔ t.Lists e.1 e.2 := by
  obtain ⟨c, r⟩ := e
  simp [listing, Lists, Std.ExtTreeMap.mem_toList_iff_getElem?_eq_some]

/-- It is gone through column by column, and for each column row by row. -/
theorem ascending_listing : Ascending t.listing := by
  refine List.pairwise_flatMap.2 ⟨fun e _ ↦ ?_, ?_⟩
  · refine List.pairwise_map.2 (Std.ExtTreeSet.ordered_toList.imp fun {r r'} hlt ↦ ?_)
    change ((compare e.1 e.1).then (compare r r')) = .lt
    rw [(Std.ReflCmp.compare_self : compare e.1 e.1 = .eq), Ordering.eq_then, hlt]
  · refine Std.ExtTreeMap.ordered_keys_toList.imp fun {e e'} hlt x hx y hy ↦ ?_
    obtain ⟨r, -, rfl⟩ := List.mem_map.1 hx
    obtain ⟨r', -, rfl⟩ := List.mem_map.1 hy
    change ((compare e.1 e'.1).then (compare r r')) = .lt
    rw [hlt, Ordering.lt_then]

end Table

namespace Problem

variable {t : Table C R} {o : Options C R} {c : C} {r : R} {fault : TableError C R}

theorem candidateFault?_eq_some_iff : candidateFault? o c r = some fault ↔
    c ∉ o.columns r ∧ fault = if r ∉ o then .rowNotDeclared c r else .oneSided c r := by
  rw [candidateFault?]
  by_cases hr : r ∈ o
  · rw [Options.getElem?_eq_some hr]
    by_cases hc : c ∈ o.columns r <;> simp [hr, hc, eq_comm]
  · rw [Std.ExtTreeMap.getElem?_eq_none hr, Options.columns_eq_nil hr]
    simp [hr, eq_comm]

/-- The candidates of all columns are gone through as one list. -/
theorem tableFault?_eq : tableFault? t o =
    (t.listing.findSome? fun e ↦ candidateFault? o e.1 e.2).or
      (o.toList.findSome? fun e ↦ optionFault? t e.1 [] e.2) := by
  rw [tableFault?, Option.orElse_eq_orElse, Option.orElse_eq_or, Table.listing, findSome?_flatMap]
  simp only [List.findSome?_map]
  rfl

/-- Of the pairs that are listed without being among the options, the least one is found. -/
theorem findSome?_listing_eq_some_iff :
    (t.listing.findSome? fun e ↦ candidateFault? o e.1 e.2) = some fault ↔
      ∃ c r, t.Lists c r ∧ c ∉ o.columns r ∧
        (∀ d r', t.Lists d r' → d ∉ o.columns r' → (compare (c, r) (d, r')).isLE) ∧
        fault = if r ∉ o then .rowNotDeclared c r else .oneSided c r := by
  rw [findSome?_eq_some_iff_least Table.ascending_listing]
  simp only [candidateFault?_eq_some_iff, ne_eq, candidateFault?_eq_none_iff, Prod.exists,
    Prod.forall, Table.mem_listing]
  constructor
  · rintro ⟨c, r, hlists, ⟨hc, hfault⟩, hleast⟩
    exact ⟨c, r, hlists, hc, hleast, hfault⟩
  · rintro ⟨c, r, hlists, hc, hleast, hfault⟩
    exact ⟨c, r, hlists, ⟨hc, hfault⟩, hleast⟩

theorem findSome?_listing_eq_none_iff :
    (t.listing.findSome? fun e ↦ candidateFault? o e.1 e.2) = none ↔
      ∀ c r, t.Lists c r → c ∈ o.columns r := by
  simp only [List.findSome?_eq_none_iff, candidateFault?_eq_none_iff, Prod.forall,
    Table.mem_listing]

/-- Of the rows with a column amiss, the least one is found. -/
theorem findSome?_options_eq_some_iff :
    (o.toList.findSome? fun e ↦ optionFault? t e.1 [] e.2) = some fault ↔
      ∃ (r : R) (cs : List C), o[r]? = some cs ∧ optionFault? t r [] cs = some fault ∧
        ∀ (r' : R) (cs' : List C), o[r']? = some cs' → optionFault? t r' [] cs' ≠ none →
          (compare r r').isLE := by
  rw [findSome?_eq_some_iff_least Std.ExtTreeMap.ordered_keys_toList]
  simp only [Prod.exists, Prod.forall, Std.ExtTreeMap.mem_toList_iff_getElem?_eq_some]

/-! ## What is reported of a pair of tables -/

/-- **What is reported of two tables that do not agree.** -/
inductive Reported (t : Table C R) (o : Options C R) : TableError C R → Prop
  /-- Of the pairs that are listed in the table, but not among the options, the least one. -/
  | candidate {c : C} {r : R} {fault : TableError C R} (listed : t.Lists c r)
      (not_covered : c ∉ o.columns r)
      (least : ∀ d r', t.Lists d r' → d ∉ o.columns r' → (compare (c, r) (d, r')).isLE)
      (fault_eq : fault = if r ∉ o then .rowNotDeclared c r else .oneSided c r) :
      Reported t o fault
  /-- If there are none, then of the rows with a column amiss the least one, and there the column
  that is amiss first. -/
  | option {r : R} {cs : List C} {i : Nat} {c : C} {fault : TableError C R}
      (covered : ∀ d r', t.Lists d r' → d ∈ o.columns r')
      (options_eq : o[r]? = some cs)
      (first : FirstAmiss (fun before d ↦ d ∈ before ∨ d ∉ t ∨ ¬t.Lists d r) cs i c)
      (least : ∀ (r' : R) (cs' : List C), o[r']? = some cs' →
        (∃ j d, FirstAmiss (fun before d ↦ d ∈ before ∨ d ∉ t ∨ ¬t.Lists d r') cs' j d) →
          (compare r r').isLE)
      (fault_eq : fault = if c ∈ cs.take i then .columnRepeated r c
        else if c ∉ t then .columnNotDeclared r c else .oneSided c r) :
      Reported t o fault

theorem tableFault?_eq_some_iff : tableFault? t o = some fault ↔ Reported t o fault := by
  have hamiss (r : R) (cs : List C) : optionFault? t r [] cs ≠ none ↔
      ∃ i c, FirstAmiss (fun before c ↦ c ∈ before ∨ c ∉ t ∨ ¬t.Lists c r) cs i c := by
    rw [← Option.isSome_iff_ne_none, Option.isSome_iff_exists]
    simp only [optionFault?_eq_some_iff]
    exact ⟨fun ⟨_, i, c, h, _⟩ ↦ ⟨i, c, h⟩, fun ⟨i, c, h⟩ ↦ ⟨_, i, c, h, rfl⟩⟩
  rw [tableFault?_eq, Option.or_eq_some_iff, findSome?_listing_eq_some_iff,
    findSome?_listing_eq_none_iff, findSome?_options_eq_some_iff]
  simp only [hamiss, optionFault?_eq_some_iff]
  constructor
  · rintro (⟨c, r, hlists, hc, hleast, hfault⟩ | ⟨hall, r, cs, hcs, ⟨i, c, hfirst, hfault⟩, hleast⟩)
    · exact .candidate hlists hc hleast hfault
    · exact .option hall hcs hfirst hleast hfault
  · rintro (⟨hlists, hc, hleast, hfault⟩ | ⟨hall, hcs, hfirst, hleast, hfault⟩)
    · exact .inl ⟨_, _, hlists, hc, hleast, hfault⟩
    · exact .inr ⟨hall, _, _, hcs, ⟨_, _, hfirst, hfault⟩, hleast⟩

end Problem

/-! ## Errors are about defects -/

/-- **What an error says of two tables.** -/
def TableError.Genuine (t : Table C R) (o : Options C R) : TableError C R → Prop
  -- No two entries of a table have the same key.
  | .columnDeclaredTwice _ => False
  | .rowDeclaredTwice _ => False
  | .columnNotDeclared r c => c ∈ o.columns r ∧ c ∉ t
  | .columnRepeated r c => List.Duplicate c (o.columns r)
  | .rowNotDeclared c r => t.Lists c r ∧ r ∉ o
  -- Both are there, and exactly one of them lists the other.
  | .oneSided c r => c ∈ t ∧ r ∈ o ∧ ¬(t.Lists c r ↔ c ∈ o.columns r)

namespace Problem

variable {t : Table C R} {o : Options C R} {fault : TableError C R}

omit [Key C] in
theorem duplicate_of_mem_take {cs : List C} {i : Nat} {c : C} (h : cs[i]? = some c)
    (hc : c ∈ cs.take i) : List.Duplicate c cs := by
  have hdrop : c ∈ cs.drop i := by
    rw [List.mem_iff_getElem?]
    exact ⟨0, by simpa using h⟩
  rw [List.duplicate_iff_sublist, ← List.take_append_drop i cs]
  exact (List.singleton_sublist.2 hc).append (List.singleton_sublist.2 hdrop)

/-- **What is reported is a defect of the tables.** -/
theorem Reported.genuine (h : Reported t o fault) : fault.Genuine t o := by
  cases h with
  | @candidate c r _ listed not_covered least fault_eq =>
    subst fault_eq
    split
    · rename_i hr
      exact ⟨listed, hr⟩
    · rename_i hr
      exact ⟨Table.mem_of_lists listed, not_not.1 hr, fun h ↦ not_covered (h.1 listed)⟩
  | @option r cs i c _ covered options_eq first least fault_eq =>
    have hcolumns : o.columns r = cs := Options.columns_eq_of_getElem? options_eq
    have hc : c ∈ o.columns r := hcolumns ▸ List.mem_of_getElem? first.getElem?_eq
    subst fault_eq
    split
    · rename_i hbefore
      change List.Duplicate c (o.columns r)
      exact hcolumns.symm ▸ duplicate_of_mem_take first.getElem?_eq hbefore
    · rename_i hbefore
      split
      · rename_i ht
        exact ⟨hc, ht⟩
      · rename_i ht
        have hlists := (first.amiss.resolve_left hbefore).resolve_left ht
        exact ⟨not_not.1 ht, Options.mem_of_mem_columns hc, fun h ↦ hlists (h.2 hc)⟩

/-- **Which fault is reported.**  Tables are refused with the fault that `Reported` singles out of
all that they have, and what is reported is a defect of the tables. -/
theorem reported_of_tables (t : Table C R) (o : Options C R) (fault : TableError C R) :
    (ofTables t o = .error fault ↔ Reported t o fault) ∧
      (ofTables t o = .error fault → fault.Genuine t o) := by
  have hiff : ofTables t o = .error fault ↔ Reported t o fault := by
    rw [← tableFault?_eq_some_iff, ofTables]
    cases tableFault? t o <;> simp
  exact ⟨hiff, fun h ↦ (hiff.1 h).genuine⟩

/-- A table of three columns; the last one lists a row that has no options. -/
def tornTable : Table Nat Nat := .ofList [(1, {1, 2}), (2, {2}), (3, {9})]

/-- Options for the rows of the other columns.  The first row is not listed under the second column,
and the list of the second row has two defects more. -/
def tornOptions : Options Nat Nat := .ofList [(1, [1, 2]), (2, [2, 1, 2, 7])]

/-- Of four defects the one is reported that shows from the side of the columns.  Without it, the
one is reported that shows at the least row. -/
theorem reported_of_tables_torn :
    ofTables tornTable tornOptions = .error (.rowNotDeclared 3 9) ∧
      TableError.Genuine tornTable tornOptions (.rowNotDeclared 3 9) ∧
      ofTables (tornTable.erase 3) tornOptions = .error (.oneSided 2 1) ∧
      TableError.Genuine (tornTable.erase 3) tornOptions (.oneSided 2 1) := by
  have h : ofTables tornTable tornOptions = .error (.rowNotDeclared 3 9) := by decide +kernel
  have h' : ofTables (tornTable.erase 3) tornOptions = .error (.oneSided 2 1) := by decide +kernel
  exact ⟨h, (reported_of_tables _ _ _).2 h, h', (reported_of_tables _ _ _).2 h'⟩

end Problem

end ExactCover
