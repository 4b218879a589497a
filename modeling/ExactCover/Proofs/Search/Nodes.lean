import ExactCover.Proofs.Search.ExactCovers
import Mathlib.Data.Set.Card
import Mathlib.Data.Set.Finite.Powerset

/-!
# The nodes of a search

A node of the search tree is known by the rows selected on the way to it.  `Options.nodes` lists the
nodes of the traversal of `ExactCover.Search.Traversal` in the order in which they are entered.  No
two of them have the same rows, in whatever order these were selected
(`Options.pairwise_nodes`): the candidates of one column exclude each other, and what is live below
one of them excludes all others.  The rows of a node are independent: no two share a column, and
none of them has no columns (`Options.Independent`, `Options.independent_of_mem_nodes`).

So there are no more nodes than there are independent sets of rows, and these are finitely many
(`Options.finite_independent`).

The nodes that a search still has to enter can be read off its frames, as the visits that are
pending can (`Problem.nodesAfter`, `Problem.nodesIn`).
-/

set_option autoImplicit false

namespace ExactCover

variable {C R : Type} [Key C] [Key R]

namespace Options

variable {o : Options C R} {columns : List C} {live rows : List R} {c : C} {r : R} {S : Set R}

/-! ## Independent rows -/

/-- **No two of the rows share a column**, and none has no columns. -/
structure Independent (o : Options C R) (S : Set R) : Prop where
  /-- None covers nothing. -/
  columns_ne_nil : ∀ r ∈ S, o.columns r ≠ []
  /-- No column is covered twice. -/
  disjoint : ∀ r ∈ S, ∀ r' ∈ S, r' ≠ r → ∀ c ∈ o.columns r, c ∉ o.columns r'

omit [Key C] in
theorem independent_empty : o.Independent ∅ := ⟨nofun, nofun⟩

/-- A row can be added to rows that are compatible with it. -/
theorem Independent.insert (h : o.Independent S) (hne : o.columns r ≠ [])
    (hS : ∀ r' ∈ S, r' ∈ o.compatible live r) : o.Independent (insert r S) where
  columns_ne_nil := by
    rintro r' (rfl | hr')
    · exact hne
    · exact h.columns_ne_nil r' hr'
  disjoint := by
    rintro r₁ (rfl | h₁) r₂ (rfl | h₂) hdistinct c hc
    · exact absurd rfl hdistinct
    · exact (mem_compatible.1 (hS r₂ h₂)).2 c hc
    · exact fun hc' ↦ (mem_compatible.1 (hS r₁ h₁)).2 c hc' hc
    · exact h.disjoint r₁ h₁ r₂ h₂ hdistinct c hc

omit [Key C] in
/-- There are only finitely many rows with columns. -/
theorem finite_independent (o : Options C R) : {S : Set R | o.Independent S}.Finite := by
  refine (o.keys.finite_toSet.finite_subsets).subset fun S hS r hr ↦ ?_
  obtain ⟨c, hc⟩ := List.exists_mem_of_ne_nil _ (hS.columns_ne_nil r hr)
  exact Std.ExtTreeMap.mem_keys.2 (mem_of_mem_columns hc)

/-! ## The nodes of the traversal -/

/-- **The nodes of the traversal**, each as the rows selected on the way to it, in the order in
which they are entered. -/
def nodes (o : Options C R) (columns : List C) (live : List R) : List (List R) :=
  match hc : columns.minOn? fun c ↦ (o.covering live c).length with
  | none => [[]]
  | some c => [] :: (o.covering live c).attach.flatMap fun r ↦
      have := length_uncovered_lt (List.minOn?_mem hc) (mem_covering.1 r.2).2
      (o.nodes (o.uncovered columns r.1) (o.compatible live r.1)).map (r.1 :: ·)
termination_by columns.length

/-- A node without columns has no nodes below it. -/
theorem nodes_of_eq_none (h : (columns.minOn? fun c ↦ (o.covering live c).length) = none) :
    o.nodes columns live = [[]] := by
  rw [nodes]
  split
  · rfl
  · simp_all

/-- Below any other are the branches at its tightest column. -/
theorem nodes_of_eq_some (h : (columns.minOn? fun c ↦ (o.covering live c).length) = some c) :
    o.nodes columns live = [] :: (o.covering live c).flatMap fun r ↦
      (o.nodes (o.uncovered columns r) (o.compatible live r)).map (r :: ·) := by
  rw [nodes]
  split
  · simp_all
  · rename_i d hd
    obtain rfl : d = c := Option.some_inj.1 (hd.symm.trans h)
    rw [List.flatMap_subtype (g := fun r ↦
      (o.nodes (o.uncovered columns r) (o.compatible live r)).map (r :: ·)) fun _ _ ↦ rfl,
      List.unattach_attach]

/-- **The rows of a node are live and independent.** -/
theorem independent_of_mem_nodes (h : rows ∈ o.nodes columns live) :
    (∀ r ∈ rows, r ∈ live) ∧ o.Independent {r | r ∈ rows} := by
  induction columns, live using Options.nodes.induct o generalizing rows with
  | case1 columns live hnone =>
    rw [nodes_of_eq_none hnone, List.mem_singleton] at h
    subst h
    exact ⟨nofun, by simpa using independent_empty⟩
  | case2 columns live c hsome ih =>
    rw [nodes_of_eq_some hsome, List.mem_cons, List.mem_flatMap] at h
    obtain rfl | ⟨r, hr, h⟩ := h
    · exact ⟨nofun, by simpa using independent_empty⟩
    obtain ⟨rest, hrest, rfl⟩ := List.mem_map.1 h
    obtain ⟨hlive, hindependent⟩ := ih ⟨r, hr⟩ hrest
    rw [mem_covering] at hr
    refine ⟨List.forall_mem_cons.2 ⟨hr.1, fun r' hr' ↦ (mem_compatible.1 (hlive r' hr')).1⟩, ?_⟩
    rw [List.setOfPred_mem_cons]
    exact hindependent.insert (List.ne_nil_of_mem hr.2) hlive

/-- **No two nodes have the same rows.** -/
theorem pairwise_nodes (hnodup : live.Nodup) :
    (o.nodes columns live).Pairwise fun rows rows' ↦ {r | r ∈ rows} ≠ {r | r ∈ rows'} := by
  induction columns, live using Options.nodes.induct o with
  | case1 columns live hnone =>
    rw [nodes_of_eq_none hnone]
    exact List.pairwise_singleton _ _
  | case2 columns live c hsome ih =>
    rw [nodes_of_eq_some hsome, List.pairwise_cons]
    constructor
    · -- No row is selected at the root.
      intro rows hrows
      obtain ⟨r, -, hrows⟩ := List.mem_flatMap.1 hrows
      obtain ⟨rest, -, rfl⟩ := List.mem_map.1 hrows
      rw [List.setOfPred_mem_cons]
      simpa using (Set.insert_nonempty r _).ne_empty.symm
    · refine pairwise_branches (hnodup.filter _) (fun r hr ↦ ih ⟨r, hr⟩ (hnodup.filter _))
        fun r hr rest hrest r' hr' hmem ↦ ?_
      -- Two candidates share the column branched on.
      have hlisted := (independent_of_mem_nodes hrest).1 r' hmem
      exact (mem_compatible.1 hlisted).2 c (mem_covering.1 hr).2 (mem_covering.1 hr').2

/-- The root comes first. -/
theorem nodes_eq_cons : o.nodes columns live = [] :: (o.nodes columns live).tail := by
  cases h : columns.minOn? fun c ↦ (o.covering live c).length with
  | none => rw [nodes_of_eq_none h, List.tail_cons]
  | some c => rw [nodes_of_eq_some h, List.tail_cons]

/-- **There are no more nodes below the root than independent sets of rows**, the empty one not
counted. -/
theorem length_tail_nodes_le (hnodup : live.Nodup) :
    (o.nodes columns live).tail.length ≤ {S : Set R | S.Nonempty ∧ o.Independent S}.ncard := by
  classical
  have hroot : ∀ rows ∈ (o.nodes columns live).tail,
      {r | r ∈ ([] : List R)} ≠ {r | r ∈ rows} := by
    have hpairwise : (o.nodes columns live).Pairwise _ := pairwise_nodes hnodup
    rw [nodes_eq_cons, List.pairwise_cons] at hpairwise
    exact hpairwise.1
  let sets := (o.nodes columns live).tail.map fun rows ↦ {r | r ∈ rows}
  have hsets : sets.Nodup := List.pairwise_map.2 (pairwise_nodes hnodup).tail
  have hsubset : (sets.toFinset : Set (Set R)) ⊆ {S | S.Nonempty ∧ o.Independent S} := by
    intro S hS
    obtain ⟨rows, hrows, rfl⟩ := List.mem_map.1 (List.mem_toFinset.1 hS)
    refine ⟨Set.nonempty_iff_ne_empty.2 fun hempty ↦ hroot rows hrows ?_,
      (independent_of_mem_nodes (List.mem_of_mem_tail hrows)).2⟩
    rw [hempty]
    simp
  calc (o.nodes columns live).tail.length = sets.toFinset.card := by
        rw [List.toFinset_card_of_nodup hsets, List.length_map]
    _ = (sets.toFinset : Set (Set R)).ncard := (Set.ncard_coe_finset _).symm
    _ ≤ {S : Set R | S.Nonempty ∧ o.Independent S}.ncard :=
        Set.ncard_le_ncard hsubset (o.finite_independent.subset fun _ hS ↦ hS.2)

end Options

/-! ## The nodes ahead of a search -/

namespace Problem

/-- The nodes from the one to which selecting the given rows leads, if the search started with the
given live rows. -/
def nodesAfter (p : Problem C R) (live rows : List R) : List (List R) :=
  (p.options.nodes (rows.foldl p.options.uncovered p.table.keys)
    (rows.foldl p.options.compatible live)).map (rows ++ ·)

/-- The nodes of all branches that a stack of frames leaves. -/
def nodesIn (p : Problem C R) (live : List R) : List (Frame C R) → List (List R)
  | [] => []
  | f :: outer => (f.untried.flatMap fun r ↦ p.nodesAfter live (chosenIn outer ++ [r])) ++
      p.nodesIn live outer

variable {p : Problem C R} {live rows : List R} {c : C} {rs : Std.ExtTreeSet R}

/-- The node itself comes first. -/
theorem nodesAfter_eq_cons : p.nodesAfter live rows = rows :: (p.nodesAfter live rows).tail := by
  rw [nodesAfter, Options.nodes_eq_cons, List.map_cons, List.append_nil, List.tail_cons]

theorem nodesAfter_of_eq_none (h : p.table.Shows p.options p.table.keys live)
    (ht : (p.tableAfter rows).tightest? = none) : p.nodesAfter live rows = [rows] := by
  have hnone := (h.selectAll rows).map_tightest?
  rw [← tableAfter, ht] at hnone
  rw [nodesAfter, Options.nodes_of_eq_none hnone.symm]
  simp

theorem nodesAfter_of_eq_some (h : p.table.Shows p.options p.table.keys live)
    (ht : (p.tableAfter rows).tightest? = some (c, rs)) :
    p.nodesAfter live rows =
      rows :: rs.toList.flatMap fun r ↦ p.nodesAfter live (rows ++ [r]) := by
  have hsome := (h.selectAll rows).map_tightest?
  rw [← tableAfter, ht] at hsome
  rw [nodesAfter, Options.nodes_of_eq_some hsome.symm,
    ← (h.selectAll rows).toList_eq_covering (Table.getElem?_of_tightest? ht), List.map_cons,
    List.append_nil, List.map_flatMap]
  simp only [nodesAfter, List.map_map, List.foldl_append, List.foldl_cons, List.foldl_nil,
    Function.comp_def, List.append_assoc, List.singleton_append]

end Problem

end ExactCover
