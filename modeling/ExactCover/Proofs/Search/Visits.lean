import ExactCover.Proofs.Table.Selection
import ExactCover.Search.Traversal
import Mathlib.Algebra.Ring.Nat

/-!
# Counting visits

The traversal of `ExactCover.Search.Traversal` lists what a search meets.  Here is what follows
about its numbers: the work that a list of visits stands for adds up (`Visit.tally_append`), and a
traversal of `n` columns and at most `m` live rows enters less than `(m + 1) ^ n` nodes and meets at
most one solution more than that (`Options.nodes_visits_lt`, `Options.solutions_visits_le`).

`Visit.upTo k` cuts a list of visits after the `k`-th solution.  And a node is read off the table
that shows it: `Table.Shows.visits_of_eq_none` and its companions say what the traversal meets at
the tightest column of the table.
-/

set_option autoImplicit false

namespace ExactCover

/-! ## The work that visits stand for -/

/-- Work adds up, counter by counter. -/
protected def Statistics.add (s t : Statistics) : Statistics :=
  ⟨s.nodes + t.nodes, s.deadEnds + t.deadEnds, s.solutions + t.solutions⟩

instance : Add Statistics := ⟨Statistics.add⟩

namespace Statistics

@[simp]
theorem nodes_zero : (0 : Statistics).nodes = 0 := rfl

@[simp]
theorem deadEnds_zero : (0 : Statistics).deadEnds = 0 := rfl

@[simp]
theorem solutions_zero : (0 : Statistics).solutions = 0 := rfl

@[simp]
theorem nodes_add (s t : Statistics) : (s + t).nodes = s.nodes + t.nodes := rfl

@[simp]
theorem deadEnds_add (s t : Statistics) : (s + t).deadEnds = s.deadEnds + t.deadEnds := rfl

@[simp]
theorem solutions_add (s t : Statistics) : (s + t).solutions = s.solutions + t.solutions := rfl

theorem ext {s t : Statistics} (hnodes : s.nodes = t.nodes) (hdeadEnds : s.deadEnds = t.deadEnds)
    (hsolutions : s.solutions = t.solutions) : s = t := by
  cases s; cases t; cases hnodes; cases hdeadEnds; cases hsolutions; rfl

protected theorem add_zero (s : Statistics) : s + 0 = s := rfl

protected theorem zero_add (s : Statistics) : 0 + s = s :=
  ext (Nat.zero_add _) (Nat.zero_add _) (Nat.zero_add _)

protected theorem add_assoc (s t u : Statistics) : s + t + u = s + (t + u) :=
  ext (Nat.add_assoc _ _ _) (Nat.add_assoc _ _ _) (Nat.add_assoc _ _ _)

end Statistics

namespace Visit

variable {R : Type}

theorem tally_cons (v : Visit R) (vs : List (Visit R)) :
    tally (v :: vs) = tally [v] + tally vs := by
  cases v <;> apply Statistics.ext <;> simp [tally, Nat.add_comm]

theorem tally_append (vs ws : List (Visit R)) : tally (vs ++ ws) = tally vs + tally ws := by
  induction vs with
  | nil => exact (Statistics.zero_add _).symm
  | cons v vs ih => rw [List.cons_append, tally_cons, ih, tally_cons v vs, Statistics.add_assoc]

/-- The nodes entered in a list of parts are at most as many as in the same number of copies of the
largest part. -/
theorem nodes_tally_flatMap_le {α : Type} {f : α → List (Visit R)} {l : List α} {n : Nat}
    (h : ∀ a ∈ l, (tally (f a)).nodes ≤ n) : (tally (l.flatMap f)).nodes ≤ l.length * n := by
  induction l with
  | nil => exact Nat.zero_le _
  | cons a l ih =>
    rw [List.forall_mem_cons] at h
    rw [List.flatMap_cons, tally_append, Statistics.nodes_add, List.length_cons, Nat.succ_mul]
    have hrest := ih h.2
    have hfirst := h.1
    omega

/-- If no part meets more solutions than it enters nodes, neither do all of them together. -/
theorem solutions_tally_flatMap_le {α : Type} {f : α → List (Visit R)} {l : List α}
    (h : ∀ a ∈ l, (tally (f a)).solutions ≤ (tally (f a)).nodes) :
    (tally (l.flatMap f)).solutions ≤ (tally (l.flatMap f)).nodes := by
  induction l with
  | nil => exact Nat.le_refl _
  | cons a l ih =>
    rw [List.forall_mem_cons] at h
    rw [List.flatMap_cons, tally_append]
    exact Nat.add_le_add h.1 (ih h.2)

/-- The solutions met are counted. -/
theorem solutions_tally (vs : List (Visit R)) :
    (tally vs).solutions = (vs.filterMap solution?).length := by
  induction vs with
  | nil => rfl
  | cons v vs ih => cases v <;> simp [tally, solution?, ih, List.filterMap_cons]

/-! ## The first solutions -/

/-- The visits up to the solution with the given number, or all of them if there are fewer
solutions. -/
def upTo : Nat → List (Visit R) → List (Visit R)
  | 0, _ => []
  | _ + 1, [] => []
  | k + 1, solution rows :: vs => solution rows :: upTo k vs
  | k + 1, v :: vs => v :: upTo (k + 1) vs

@[simp]
theorem upTo_zero (vs : List (Visit R)) : upTo 0 vs = [] := by
  cases vs <;> rfl

@[simp]
theorem upTo_nil (k : Nat) : upTo k ([] : List (Visit R)) = [] := by
  cases k <;> rfl

/-- Before the first solution nothing is cut off. -/
theorem upTo_append {vs ws : List (Visit R)} (hvs : vs.filterMap solution? = []) (k : Nat) :
    upTo (k + 1) (vs ++ ws) = vs ++ upTo (k + 1) ws := by
  induction vs with
  | nil => rfl
  | cons v vs ih =>
    cases v with
    | enter r => exact congrArg (enter r :: ·) (ih hvs)
    | deadEnd => exact congrArg (deadEnd :: ·) (ih hvs)
    | solution rows => simp [solution?] at hvs

/-- Nothing is cut off if there is no solution with the given number. -/
theorem upTo_of_lt {vs : List (Visit R)} {k : Nat} (hk : (tally vs).solutions < k) :
    upTo k vs = vs := by
  induction vs generalizing k with
  | nil => exact upTo_nil k
  | cons v vs ih =>
    obtain ⟨k, rfl⟩ := Nat.exists_eq_add_one.2 (Nat.zero_lt_of_lt hk)
    cases v with
    | enter r => exact congrArg (enter r :: ·) (ih hk)
    | deadEnd => exact congrArg (deadEnd :: ·) (ih hk)
    | solution rows => exact congrArg (solution rows :: ·) (ih (Nat.lt_of_succ_lt_succ hk))

theorem upTo_of_eq_nil {vs : List (Visit R)} (hvs : vs.filterMap solution? = []) (k : Nat) :
    upTo (k + 1) vs = vs := by
  rw [← List.append_nil vs, upTo_append hvs, upTo]

end Visit

variable {C R : Type} [Key C] [Key R] {o : Options C R} {columns : List C} {live chosen : List R}

/-! ## The size of a traversal -/

namespace Options

/-- **A traversal enters less than `(m + 1) ^ n` nodes**, with `n` columns and `m` live rows. -/
theorem nodes_visits_lt {m : Nat} (hm : live.length ≤ m) :
    (Visit.tally (o.visits columns live chosen)).nodes < (m + 1) ^ columns.length := by
  induction columns, live, chosen using Options.visits.induct o with
  | case1 columns live chosen h =>
    rw [visits_of_eq_none h]
    exact Nat.pow_pos (Nat.succ_pos m)
  | case2 columns live chosen c h hc =>
    rw [visits_of_covering_eq_nil h hc]
    exact Nat.pow_pos (Nat.succ_pos m)
  | case3 columns live chosen c h hc ih =>
    have hmem := List.minOn?_mem h
    obtain ⟨n, hn⟩ : ∃ n, columns.length = n + 1 :=
      Nat.exists_eq_add_one.2 (List.length_pos_of_mem hmem)
    have hbranch : ∀ r ∈ o.covering live c, (Visit.tally (.enter r ::
        o.visits (o.uncovered columns r) (o.compatible live r) (chosen ++ [r]))).nodes ≤
          (m + 1) ^ n := by
      intro r hr
      have hlt := length_uncovered_lt hmem (mem_covering.1 hr).2
      have hle : (o.compatible live r).length ≤ m := Nat.le_trans (List.length_filter_le _ _) hm
      refine Nat.le_trans (ih r hr hle) (Nat.pow_le_pow_right (Nat.succ_pos m) ?_)
      omega
    rw [visits_of_covering_ne_nil h hc, hn, Nat.pow_succ, Nat.mul_comm, Nat.succ_mul]
    have hle := Visit.nodes_tally_flatMap_le hbranch
    have hlen : (o.covering live c).length ≤ m := Nat.le_trans (List.length_filter_le _ _) hm
    have hmul := Nat.mul_le_mul_right ((m + 1) ^ n) hlen
    have hpos : 0 < (m + 1) ^ n := Nat.pow_pos (Nat.succ_pos m)
    omega

/-- **Every solution but that of the root has a node of its own.** -/
theorem solutions_visits_le : (Visit.tally (o.visits columns live chosen)).solutions ≤
    (Visit.tally (o.visits columns live chosen)).nodes + 1 := by
  induction columns, live, chosen using Options.visits.induct o with
  | case1 columns live chosen h =>
    rw [visits_of_eq_none h]
    exact Nat.le_refl _
  | case2 columns live chosen c h hc =>
    rw [visits_of_covering_eq_nil h hc]
    exact Nat.zero_le _
  | case3 columns live chosen c h hc ih =>
    rw [visits_of_covering_ne_nil h hc]
    exact Nat.le_succ_of_le (Visit.solutions_tally_flatMap_le fun r hr ↦ ih r hr)

end Options

/-! ## Nodes as tables show them -/

namespace Table.Shows

variable {t : Table C R} {c : C} {rs : Std.ExtTreeSet R}

/-- A table without columns shows a solution. -/
theorem visits_of_eq_none (h : t.Shows o columns live) (ht : t.tightest? = none) :
    o.visits columns live chosen = [.solution chosen] :=
  Options.visits_of_eq_none (by rw [← h.map_tightest?, ht, Option.map_none])

/-- A table with a column that lists no rows shows a dead end. -/
theorem visits_of_isEmpty (h : t.Shows o columns live) (ht : t.tightest? = some (c, rs))
    (hrs : rs.isEmpty = true) : o.visits columns live chosen = [.deadEnd] := by
  refine Options.visits_of_covering_eq_nil (by rw [← h.map_tightest?, ht, Option.map_some]) ?_
  rw [← h.toList_eq_covering (getElem?_of_tightest? ht)]
  simpa using hrs

/-- Any other table shows a node that branches on the rows which its tightest column lists. -/
theorem visits_of_not_isEmpty (h : t.Shows o columns live) (ht : t.tightest? = some (c, rs))
    (hrs : ¬rs.isEmpty = true) : o.visits columns live chosen = rs.toList.flatMap fun r ↦
      .enter r :: o.visits (o.uncovered columns r) (o.compatible live r) (chosen ++ [r]) := by
  have hlist := h.toList_eq_covering (getElem?_of_tightest? ht)
  rw [Options.visits_of_covering_ne_nil (c := c) (by rw [← h.map_tightest?, ht, Option.map_some]),
    hlist]
  rw [← hlist]
  simpa using hrs

end Table.Shows

end ExactCover
