import ExactCover.Proofs.Search.Calls
import Mathlib.Data.List.Nodup
import Mathlib.Data.Set.Insert

/-!
# The exact covers that a search finds

`Options.Covers` says what is asked of a set of live rows: every column is covered by exactly one of
them, and none covers nothing.  The traversal of `ExactCover.Search.Traversal` lists these sets,
each once (`Options.exactCovers`).  The reason is the same at every node.  A set that covers the
columns has exactly one row for the column branched on; without this row it covers the columns that
are left, by rows that are still live (`Options.Covers.diff`); and what covers those gives back,
together with the row, what covers all (`Options.Covers.insert`).  Both rest on live rows covering
no columns but those which are to be covered, `Options.Confined`.

`Problem.Built.next_exactCovers` puts this together with what the calls of a search answer.
-/

set_option autoImplicit false

namespace ExactCover

variable {C R : Type} [Key C] [Key R]

namespace Options

/-- **The rows in `S` cover each of the columns exactly once.**  They are live, and each covers
something. -/
structure Covers (o : Options C R) (columns : List C) (live : List R) (S : Set R) : Prop where
  /-- Only live rows are used. -/
  mem_live : ∀ r ∈ S, r ∈ live
  /-- No row covers nothing. -/
  columns_ne_nil : ∀ r ∈ S, o.columns r ≠ []
  /-- Every column is covered by exactly one row. -/
  existsUnique : ∀ c ∈ columns, ∃! r, r ∈ S ∧ c ∈ o.columns r

/-- The live rows cover no other columns than those to be covered. -/
def Confined (o : Options C R) (columns : List C) (live : List R) : Prop :=
  ∀ r ∈ live, ∀ c ∈ o.columns r, c ∈ columns

variable {o : Options C R} {columns : List C} {live rows : List R} {c : C} {r : R} {S : Set R}

/-! ## One row -/

theorem Confined.select (h : o.Confined columns live) (r : R) :
    o.Confined (o.uncovered columns r) (o.compatible live r) := by
  intro r' hr' c hc
  rw [mem_compatible] at hr'
  exact mem_uncovered.2 ⟨h r' hr'.1 c hc, fun hcr ↦ hr'.2 c hcr hc⟩

/-- **Without one of its rows, a cover covers what this row does not.** -/
theorem Covers.diff (hlive : o.Confined columns live) (h : o.Covers columns live S) (hr : r ∈ S) :
    o.Covers (o.uncovered columns r) (o.compatible live r) (S \ {r}) where
  mem_live r' hr' := by
    refine mem_compatible.2 ⟨h.mem_live r' hr'.1, fun c hc hc' ↦ hr'.2 ?_⟩
    have hcolumn := hlive r (h.mem_live r hr) c hc
    exact (h.existsUnique c hcolumn).unique ⟨hr'.1, hc'⟩ ⟨hr, hc⟩
  columns_ne_nil r' hr' := h.columns_ne_nil r' hr'.1
  existsUnique c hc := by
    rw [mem_uncovered] at hc
    obtain ⟨r', ⟨hr', hcr'⟩, hunique⟩ := h.existsUnique c hc.1
    have hne : r' ≠ r := fun he ↦ hc.2 (he ▸ hcr')
    exact ⟨r', ⟨⟨hr', hne⟩, hcr'⟩, fun r'' hr'' ↦ hunique r'' ⟨hr''.1.1, hr''.2⟩⟩

/-- **Together with a live row, what covers the columns that it leaves covers all of them.** -/
theorem Covers.insert (hr : r ∈ live) (hne : o.columns r ≠ [])
    (h : o.Covers (o.uncovered columns r) (o.compatible live r) S) :
    o.Covers columns live (insert r S) where
  mem_live r' hr' := by
    rcases hr' with rfl | hr'
    · exact hr
    · exact (mem_compatible.1 (h.mem_live r' hr')).1
  columns_ne_nil r' hr' := by
    rcases hr' with rfl | hr'
    · exact hne
    · exact h.columns_ne_nil r' hr'
  existsUnique c hc := by
    by_cases hcr : c ∈ o.columns r
    · refine ⟨r, ⟨Set.mem_insert r S, hcr⟩, ?_⟩
      rintro r' ⟨rfl | hr', hcr'⟩
      · rfl
      · exact absurd hcr' ((mem_compatible.1 (h.mem_live r' hr')).2 c hcr)
    · obtain ⟨r', ⟨hr', hcr'⟩, hunique⟩ := h.existsUnique c (mem_uncovered.2 ⟨hc, hcr⟩)
      refine ⟨r', ⟨Set.mem_insert_of_mem r hr', hcr'⟩, ?_⟩
      rintro r'' ⟨rfl | hr'', hcr''⟩
      · exact absurd hcr'' hcr
      · exact hunique r'' ⟨hr'', hcr''⟩

/-- No row is compatible with itself, unless it covers nothing. -/
theorem notMem_of_covers (hc : c ∈ o.columns r)
    (h : o.Covers columns (o.compatible live r) S) : r ∉ S :=
  fun hr ↦ (mem_compatible.1 (h.mem_live r hr)).2 c hc hc

omit [Key C] in
/-- Only nothing covers nothing. -/
theorem covers_nil_iff (hlive : o.Confined [] live) : o.Covers [] live S ↔ S = ∅ := by
  constructor
  · intro h
    refine Set.eq_empty_of_forall_notMem fun r hr ↦ h.columns_ne_nil r hr ?_
    exact List.eq_nil_iff_forall_not_mem.2 fun c hc ↦
      List.not_mem_nil (hlive r (h.mem_live r hr) c hc)
  · rintro rfl
    exact ⟨nofun, nofun, nofun⟩

/-! ## The covers that are listed -/

/-- The rows of the solutions that the traversal meets below a node, from this node on. -/
def exactCovers (o : Options C R) (columns : List C) (live : List R) : List (List R) :=
  (o.visits columns live []).filterMap Visit.solution?

/-- What was selected before comes first in every solution. -/
theorem filterMap_visits (chosen : List R) :
    (o.visits columns live chosen).filterMap Visit.solution? =
      (o.exactCovers columns live).map (chosen ++ ·) := by
  induction columns, live, ([] : List R) using Options.visits.induct o generalizing chosen with
  | case1 columns live _ h =>
    rw [exactCovers, visits_of_eq_none h, visits_of_eq_none h]
    simp [Visit.solution?]
  | case2 columns live _ c h hc =>
    rw [exactCovers, visits_of_covering_eq_nil h hc, visits_of_covering_eq_nil h hc]
    rfl
  | case3 columns live _ c h hc ih =>
    rw [exactCovers, visits_of_covering_ne_nil h hc, visits_of_covering_ne_nil h hc,
      List.filterMap_flatMap, List.filterMap_flatMap, List.map_flatMap]
    refine List.flatMap_congr fun r hr ↦ ?_
    rw [List.filterMap_cons_none rfl, List.filterMap_cons_none rfl, ih r hr, ih r hr, List.map_map]
    simp [Function.comp_def]

theorem exactCovers_nil : o.exactCovers [] live = [[]] := by
  rw [exactCovers, visits_of_eq_none List.minOn?_nil]
  rfl

/-- The covers are found branch by branch. -/
theorem exactCovers_of_eq_some
    (h : (columns.minOn? fun c ↦ (o.covering live c).length) = some c) :
    o.exactCovers columns live = (o.covering live c).flatMap fun r ↦
      (o.exactCovers (o.uncovered columns r) (o.compatible live r)).map (r :: ·) := by
  by_cases hc : o.covering live c = []
  · rw [exactCovers, visits_of_covering_eq_nil h hc, hc]
    rfl
  · rw [exactCovers, visits_of_covering_ne_nil h hc, List.filterMap_flatMap]
    refine List.flatMap_congr fun r _ ↦ ?_
    rw [List.filterMap_cons_none rfl, filterMap_visits]
    rfl

/-- **Induction along the traversal**: from what holds without columns, and passes on from the
branches at some column to all of them together. -/
theorem exactCovers_induct {motive : List C → List R → Prop} (nil : ∀ live, motive [] live)
    (branch : ∀ columns live, ∀ c ∈ columns,
      o.exactCovers columns live = ((o.covering live c).flatMap fun r ↦
        (o.exactCovers (o.uncovered columns r) (o.compatible live r)).map (r :: ·)) →
      (∀ r ∈ o.covering live c, motive (o.uncovered columns r) (o.compatible live r)) →
      motive columns live) (columns : List C) (live : List R) : motive columns live := by
  induction columns, live, ([] : List R) using Options.visits.induct o with
  | case1 columns live _ h =>
    rw [← Option.not_isSome_iff_eq_none, List.isSome_minOn?_iff, not_not] at h
    subst h
    exact nil live
  | case2 columns live _ c h hc =>
    refine branch columns live c (List.minOn?_mem h) (exactCovers_of_eq_some h) ?_
    intro r hr
    exact absurd hr (hc ▸ List.not_mem_nil)
  | case3 columns live _ c h _ ih =>
    exact branch columns live c (List.minOn?_mem h) (exactCovers_of_eq_some h) ih

/-- **Soundness**: what is listed covers the columns exactly. -/
theorem covers_of_mem_exactCovers (hlive : o.Confined columns live)
    (h : rows ∈ o.exactCovers columns live) :
    rows.Nodup ∧ o.Covers columns live {r | r ∈ rows} := by
  induction columns, live using o.exactCovers_induct generalizing rows with
  | nil live =>
    rw [exactCovers_nil, List.mem_singleton] at h
    subst h
    exact ⟨List.nodup_nil, (covers_nil_iff hlive).2 (by simp)⟩
  | branch columns live c hc heq ih =>
    rw [heq] at h
    obtain ⟨r, hr, h⟩ := List.mem_flatMap.1 h
    obtain ⟨rest, hrest, rfl⟩ := List.mem_map.1 h
    obtain ⟨hnodup, hcovers⟩ := ih r hr (hlive.select r) hrest
    rw [mem_covering] at hr
    refine ⟨List.nodup_cons.2 ⟨notMem_of_covers (S := {r | r ∈ rest}) hr.2 hcovers, hnodup⟩, ?_⟩
    rw [List.setOfPred_mem_cons]
    exact hcovers.insert hr.1 (List.ne_nil_of_mem hr.2)

/-- **Completeness**: whatever covers the columns exactly is listed. -/
theorem Covers.exists_mem_exactCovers (hlive : o.Confined columns live)
    (h : o.Covers columns live S) : ∃ rows ∈ o.exactCovers columns live, {r | r ∈ rows} = S := by
  induction columns, live using o.exactCovers_induct generalizing S with
  | nil live =>
    rw [exactCovers_nil, (covers_nil_iff hlive).1 h]
    exact ⟨[], List.mem_singleton_self [], by simp⟩
  | branch columns live c hc heq ih =>
    obtain ⟨r, ⟨hrS, hcr⟩, -⟩ := h.existsUnique c hc
    have hr : r ∈ o.covering live c := mem_covering.2 ⟨h.mem_live r hrS, hcr⟩
    obtain ⟨rest, hrest, hS⟩ := ih r hr (hlive.select r) (h.diff hlive hrS)
    refine ⟨r :: rest, ?_, ?_⟩
    · rw [heq]
      exact List.mem_flatMap.2 ⟨r, hr, List.mem_map.2 ⟨rest, hrest, rfl⟩⟩
    · rw [List.setOfPred_mem_cons, hS, Set.insert_sdiff_self_of_mem hrS]

omit [Key R] in
/-- **What is listed branch by branch has different rows**, if this is so within each branch and the
candidates exclude each other: no row that has a branch is selected below another. -/
theorem pairwise_branches {rs : List R} {branch : R → List (List R)} (hnodup : rs.Nodup)
    (hbranch : ∀ r ∈ rs,
      (branch r).Pairwise fun rows rows' ↦ {r | r ∈ rows} ≠ {r | r ∈ rows'})
    (hexcluded : ∀ r ∈ rs, ∀ rows ∈ branch r, ∀ r' ∈ rs, r' ∉ rows) :
    (rs.flatMap fun r ↦ (branch r).map (r :: ·)).Pairwise
      fun rows rows' ↦ {r | r ∈ rows} ≠ {r | r ∈ rows'} := by
  rw [List.pairwise_flatMap]
  constructor
  · -- Within a branch they differ in what follows its row.
    intro r hr
    rw [List.pairwise_map]
    refine (hbranch r hr).imp_of_mem ?_
    intro a b ha hb hne he
    have hra : r ∉ {r' | r' ∈ a} := hexcluded r hr a ha r hr
    have hrb : r ∉ {r' | r' ∈ b} := hexcluded r hr b hb r hr
    rw [List.setOfPred_mem_cons, List.setOfPred_mem_cons] at he
    refine hne ?_
    rw [← Set.insert_sdiff_self_of_notMem hra, he, Set.insert_sdiff_self_of_notMem hrb]
  · -- The row of one branch is not in the other.
    refine hnodup.imp_of_mem ?_
    intro r r' hr hr' hne
    simp only [List.mem_map, forall_exists_index, and_imp]
    rintro _ rest - rfl _ rest' hrest' rfl he
    rw [List.setOfPred_mem_cons, List.setOfPred_mem_cons] at he
    have hmem : r ∈ insert r' {r | r ∈ rest'} := he ▸ Set.mem_insert r _
    exact hexcluded r' hr' rest' hrest' r hr (hmem.resolve_left hne)

/-- **No duplication**: no two covers listed have the same rows. -/
theorem pairwise_exactCovers (hlive : o.Confined columns live) (hnodup : live.Nodup) :
    (o.exactCovers columns live).Pairwise fun rows rows' ↦ {r | r ∈ rows} ≠ {r | r ∈ rows'} := by
  induction columns, live using o.exactCovers_induct with
  | nil live =>
    rw [exactCovers_nil]
    exact List.pairwise_singleton _ _
  | branch columns live c hc heq ih =>
    rw [heq]
    refine pairwise_branches (hnodup.filter _)
      (fun r hr ↦ ih r hr (hlive.select r) (hnodup.filter _)) fun r hr rest hrest r' hr' hmem ↦ ?_
    -- Two candidates share the column branched on.
    have hlisted := (covers_of_mem_exactCovers (hlive.select r) hrest).2.mem_live r' hmem
    exact (mem_compatible.1 hlisted).2 c (mem_covering.1 hr).2 (mem_covering.1 hr').2

end Options

/-! ## The covers of a problem -/

/-- Where a table shows its columns and live rows, the live rows cover no other columns. -/
theorem Table.Shows.confined {t : Table C R} {o : Options C R} {columns : List C} {live : List R}
    (h : t.Shows o columns live) : o.Confined columns live :=
  fun _ hr _ hc ↦ h.mem_columns hr hc

namespace Problem

variable {p : Problem C R} {live rows : List R}

/-- A list of rows is an exact cover just if its rows are different and, as a set, cover the
columns. -/
theorem isExactCover_iff_covers (h : p.table.Shows p.options p.table.keys live) :
    p.IsExactCover rows ↔
      rows.Nodup ∧ p.options.Covers p.table.keys live {r | r ∈ rows} := by
  constructor
  · intro hrows
    refine ⟨hrows.nodup, ?_, ?_, ?_⟩
    · intro r hr
      obtain ⟨c, hc⟩ := hrows.listed r hr
      exact ((h.lists_iff c r).1 hc).1
    · intro r hr
      obtain ⟨c, hc⟩ := hrows.listed r hr
      exact List.ne_nil_of_mem ((h.lists_iff c r).1 hc).2
    · intro c hc
      obtain ⟨r, hr, hcr, hunique⟩ := hrows.exactly_one c (Std.ExtTreeMap.mem_keys.1 hc)
      exact ⟨r, ⟨hr, hcr⟩, fun r' hr' ↦ hunique r' hr'.1 hr'.2⟩
  · rintro ⟨hnodup, hcovers⟩
    refine ⟨hnodup, ?_, ?_⟩
    · intro r hr
      obtain ⟨c, hc⟩ := List.exists_mem_of_ne_nil _ (hcovers.columns_ne_nil r hr)
      exact ⟨c, (h.lists_iff c r).2 ⟨hcovers.mem_live r hr, hc⟩⟩
    · intro c hc
      obtain ⟨r, ⟨hr, hcr⟩, hunique⟩ := hcovers.existsUnique c (Std.ExtTreeMap.mem_keys.2 hc)
      exact ⟨r, hr, hcr, fun r' hr' hcr' ↦ hunique r' ⟨hr', hcr'⟩⟩

/-- **The exact covers are the solutions listed, in any order of their rows.** -/
theorem isExactCover_iff_exists_perm (h : p.table.Shows p.options p.table.keys live) :
    p.IsExactCover rows ↔ ∃ rows' ∈ p.options.exactCovers p.table.keys live, rows'.Perm rows := by
  rw [isExactCover_iff_covers h]
  constructor
  · rintro ⟨hnodup, hcovers⟩
    obtain ⟨rows', hrows', heq⟩ := hcovers.exists_mem_exactCovers h.confined
    refine ⟨rows', hrows', ?_⟩
    have hnodup' := (Options.covers_of_mem_exactCovers h.confined hrows').1
    exact (List.perm_ext_iff_of_nodup hnodup' hnodup).2 (Set.ext_iff.1 heq)
  · rintro ⟨rows', hrows', hperm⟩
    obtain ⟨hnodup, hcovers⟩ := Options.covers_of_mem_exactCovers h.confined hrows'
    have heq : {r | r ∈ rows'} = {r | r ∈ rows} := Set.ext fun _ ↦ hperm.mem_iff
    exact ⟨hperm.nodup_iff.1 hnodup, heq ▸ hcovers⟩

theorem Consistent.mem_solutions (h : p.Consistent) (hrows : rows ∈ p.solutions) :
    rows.Nodup ∧ p.options.Covers p.table.keys p.options.keys {r | r ∈ rows} :=
  Options.covers_of_mem_exactCovers h.shows.confined hrows

theorem Consistent.exists_mem_solutions (h : p.Consistent) {S : Set R}
    (hS : p.options.Covers p.table.keys p.options.keys S) :
    ∃ rows ∈ p.solutions, {r | r ∈ rows} = S :=
  hS.exists_mem_exactCovers h.shows.confined

theorem Consistent.pairwise_solutions (h : p.Consistent) :
    p.solutions.Pairwise fun rows rows' ↦ {r | r ∈ rows} ≠ {r | r ∈ rows'} :=
  Options.pairwise_exactCovers h.shows.confined h.shows.ascending.nodup

theorem Consistent.nodup_solutions (h : p.Consistent) : p.solutions.Nodup :=
  h.pairwise_solutions.imp fun hne he ↦ hne (by rw [he])

/-- A solution is known by its rows. -/
theorem Consistent.eq_of_mem_solutions (h : p.Consistent) {rows' : List R}
    (hrows : rows ∈ p.solutions) (hrows' : rows' ∈ p.solutions)
    (heq : {r | r ∈ rows} = {r | r ∈ rows'}) : rows = rows' := by
  have hnodup : (p.solutions.map fun rows ↦ {r | r ∈ rows}).Nodup :=
    List.pairwise_map.2 h.pairwise_solutions
  exact List.inj_on_of_nodup_map hnodup hrows hrows' heq

/-- **A search answers the exact covers of its problem, each once.**  The calls answer the members
of a list one after another, and then nothing any more.  Each of them has different rows, which
cover every column exactly once and none of which covers nothing; every set of rows that does so
is among them; and no two of them are the same set. -/
theorem Built.next_exactCovers (hp : p.Built) : ∃ covers : List (List R),
    (∀ k, (p.solve.after k).next.1 = covers[k]?) ∧
      (∀ rows ∈ covers,
        rows.Nodup ∧ p.options.Covers p.table.keys p.options.keys {r | r ∈ rows}) ∧
      (∀ S : Set R, p.options.Covers p.table.keys p.options.keys S →
        ∃ rows ∈ covers, {r | r ∈ rows} = S) ∧
      covers.Pairwise fun rows rows' ↦ {r | r ∈ rows} ≠ {r | r ∈ rows'} := by
  have h := hp.consistent
  exact ⟨p.solutions, hp.answer_after, fun _ ↦ h.mem_solutions, fun _ ↦ h.exists_mem_solutions,
    h.pairwise_solutions⟩

/-- The first side of the triangle and the fourth row have all corners, so a call answers them. -/
theorem next_exactCovers_triangle : triangle.Built ∧ ∃ k rows,
    (triangle.solve.after k).next.1 = some rows ∧ {r | r ∈ rows} = ({1, 4} : Set Nat) := by
  obtain ⟨covers, hnext, -, hcomplete, -⟩ := Built.next_exactCovers triangle_built
  have hS : triangle.options.Covers triangle.table.keys triangle.options.keys {1, 4} := by
    have hkeys : triangle.table.keys = [1, 2, 3] := by decide +kernel
    have hside : triangle.options.columns 1 = [1, 2] := by decide +kernel
    have hcorner : triangle.options.columns 4 = [3] := by decide +kernel
    refine ⟨?_, ?_, ?_⟩
    · rintro r (rfl | rfl) <;> decide +kernel
    · rintro r (rfl | rfl) <;> decide +kernel
    · simp only [hkeys, List.forall_mem_cons, List.not_mem_nil, false_imp_iff, forall_const,
        and_true]
      refine ⟨⟨1, ?_⟩, ⟨1, ?_⟩, ⟨4, ?_⟩⟩ <;> simp [hside, hcorner]
  obtain ⟨rows, hrows, hrowsS⟩ := hcomplete _ hS
  obtain ⟨k, hk⟩ := List.getElem?_of_mem hrows
  exact ⟨triangle_built, k, rows, (hnext k).trans hk, hrowsS⟩

end Problem

end ExactCover
