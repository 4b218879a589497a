import ExactCover.Proofs.Problem.Building
import ExactCover.Proofs.Search.Step
import Mathlib.Tactic.Linarith

/-!
# Calling for solutions

A call of `Search.next` runs the search up to its next report.  It never runs out of the steps
granted to it, for `Search.stepBound` exceeds the work left in any state of a search
(`Search.Explores.work_lt_stepBound`), so what it answers is what the search has to say.

`Search.after` is the search after a number of calls.  Whatever the number, it is a state of the
same search; the call that follows answers the next solution of the traversal, none after the last;
and the counters tell the visits up to the solutions answered (`Search.Explores.after`).  The same
calls are made by `Search.take` and `Search.rest`, and the latter makes enough of them
(`Search.Explores.rest`).
-/

set_option autoImplicit false

namespace ExactCover

variable {C R : Type} [Key C] [Key R] {p : Problem C R} {live : List R} {s : Search C R}

/-- A new search has everything ahead. -/
theorem Problem.explores_solve (p : Problem C R) (live : List R) : p.solve.Explores p live where
  options_eq := rfl
  chosen_eq := rfl
  table_eq := rfl
  stack := .nil
  frames_eq_nil _ := rfl
  accounts := ⟨[], rfl, rfl⟩

namespace Search

/-! ## Enough steps -/

theorem add_le_pow (m n : Nat) : (m + 1) ^ n + n ≤ (2 * m + 3) ^ n := by
  induction n with
  | zero => exact Nat.le_refl _
  | succ n ih =>
    have hpos : 0 < (m + 1) ^ n := Nat.pow_pos (Nat.succ_pos m)
    calc (m + 1) ^ (n + 1) + (n + 1) = (m + 1) * (m + 1) ^ n + n + 1 := by
          rw [Nat.pow_succ, Nat.mul_comm, Nat.add_assoc]
      _ ≤ (2 * m + 3) * ((m + 1) ^ n + n) := by nlinarith
      _ ≤ (2 * m + 3) * (2 * m + 3) ^ n := Nat.mul_le_mul_left _ ih
      _ = (2 * m + 3) ^ (n + 1) := by rw [Nat.pow_succ, Nat.mul_comm]

omit [Key C] in
theorem leaving_le (frames : List (Frame C R)) : leaving frames ≤ 2 * frames.length := by
  induction frames with
  | nil => exact Nat.le_refl _
  | cons f frames ih =>
    rw [leaving, List.foldr_cons, ← leaving, List.length_cons]
    split <;> omega

omit [Key R] in
/-- What is ahead is part of the whole. -/
theorem Accounts.tally_eq {all ahead : List (Visit R)} {σ : Statistics}
    (h : Accounts all ahead σ) : Visit.tally all = σ + Visit.tally ahead := by
  obtain ⟨behind, rfl, rfl⟩ := h
  exact Visit.tally_append _ _

namespace Explores

/-- The columns in the table and those on record are those of the problem. -/
theorem columnCount_eq (h : s.Explores p live) : s.columnCount = p.table.size := by
  rw [columnCount, h.table_eq, h.chosen_eq]
  exact h.stack.foldr_covered

theorem nodes_lt (hp : p.table.Shows p.options p.table.keys live) :
    (Visit.tally (p.visitsAfter live [])).nodes < (p.options.size + 1) ^ p.table.size := by
  rw [← Std.ExtTreeMap.length_keys (t := p.table)]
  exact Options.nodes_visits_lt hp.length_live_le

theorem three_mul_le_stepBound (h : s.Explores p live) :
    3 * ((p.options.size + 1) ^ p.table.size + p.table.size) ≤ s.stepBound := by
  rw [stepBound, h.columnCount_eq, h.options_eq]
  calc 3 * ((p.options.size + 1) ^ p.table.size + p.table.size)
      ≤ (2 * p.options.size + 3) * (2 * p.options.size + 3) ^ p.table.size :=
        Nat.mul_le_mul (Nat.le_add_left 3 _) (add_le_pow _ _)
    _ = (2 * p.options.size + 3) ^ (p.table.size + 1) := Nat.pow_succ'.symm

/-- **The steps granted exceed the work left.** -/
theorem work_lt_stepBound (hp : p.table.Shows p.options p.table.keys live)
    (h : s.Explores p live) : s.work p live < s.stepBound := by
  have hnodes : (Visit.tally (s.pending p live)).nodes + 1 ≤
      (p.options.size + 1) ^ p.table.size := by
    have hall := congrArg Statistics.nodes h.accounts.tally_eq
    have hlt := nodes_lt hp
    rw [Statistics.nodes_add] at hall
    omega
  have hframes : leaving s.frames ≤ 2 * p.table.size :=
    Nat.le_trans (leaving_le _) (Nat.mul_le_mul_left 2 (h.stack.length_le hp.coherent))
  have hbound := h.three_mul_le_stepBound
  rw [work]
  split <;> omega

/-- They exceed the number of solutions left as well. -/
theorem solutions_lt_stepBound (hp : p.table.Shows p.options p.table.keys live)
    (h : s.Explores p live) : (Visit.tally (s.pending p live)).solutions < s.stepBound := by
  have hall := congrArg Statistics.solutions h.accounts.tally_eq
  have hsolutions : (Visit.tally (p.visitsAfter live [])).solutions ≤
      (Visit.tally (p.visitsAfter live [])).nodes + 1 := Options.solutions_visits_le
  have hnodes := nodes_lt hp
  have hbound := h.three_mul_le_stepBound
  rw [Statistics.solutions_add] at hall
  omega

end Explores

/-! ## One call -/

/-- What a call has found out when it gives its answer. -/
def answered : Option (List R) → Report R
  | none => .exhausted
  | some rows => .solution rows

namespace Explores

/-- **A run with more steps than there is work left ends with a report.** -/
theorem run (hp : p.table.Shows p.options p.table.keys live) {n : Nat} (h : s.Explores p live)
    (hn : s.work p live < n) : Continues p live (s.pending p live) s.statistics 0
      (answered (s.run n).1, (s.run n).2) := by
  induction n generalizing s with
  | zero => omega
  | succ n ih =>
    have hstep := h.step hp
    rw [Search.run]
    generalize s.step = result at hstep
    cases hstep with
    | working hvs hahead hσ h' hwork =>
      rw [hahead]
      exact .append hvs (Nat.le_refl 0) (hσ ▸ ih h' (by omega))
    | solution hvs hahead hσ h' hrows htable hselected =>
      exact .solution hvs hahead hσ h' hrows htable hselected
    | exhausted hahead hσ h' hframes hphase => exact .exhausted hahead hσ h' hframes hphase

/-- What every step keeps is kept by any number of steps. -/
theorem run_of_step {P : Search C R → Prop} (hp : p.table.Shows p.options p.table.keys live)
    (hstep : ∀ s : Search C R, s.Explores p live → P s → P s.step.2) {n : Nat}
    (h : s.Explores p live) (hs : P s) : P (s.run n).2 := by
  induction n generalizing s with
  | zero => exact hs
  | succ n ih =>
    have hs' := hstep s h hs
    have h' := (h.step hp).explores
    rw [Search.run]
    generalize s.step = result at hs' h'
    obtain ⟨report, s'⟩ := result
    cases report with
    | working => exact ih h' hs'
    | solution rows => exact hs'
    | exhausted => exact hs'

/-- A call ends with a report. -/
theorem next (hp : p.table.Shows p.options p.table.keys live) (h : s.Explores p live) :
    Continues p live (s.pending p live) s.statistics 0 (answered s.next.1, s.next.2) :=
  h.run hp (h.work_lt_stepBound hp)

/-- **A call answers the first of the solutions ahead**, or that there are none and nothing else is
ahead either.  The work of it is that of the visits up to this solution. -/
theorem next_ahead (hp : p.table.Shows p.options p.table.keys live) (h : s.Explores p live) :
    s.next.2.Explores p live ∧
      (s.pending p live).filterMap Visit.solution? =
        s.next.1.toList ++ (s.next.2.pending p live).filterMap Visit.solution? ∧
      (s.next.1 = none → s.next.2.pending p live = []) ∧
      ∀ k, s.next.2.statistics + Visit.tally (Visit.upTo k (s.next.2.pending p live)) =
        s.statistics + Visit.tally (Visit.upTo (k + 1) (s.pending p live)) := by
  have hnext := h.next hp
  generalize s.next = result at hnext ⊢
  obtain ⟨answer, s'⟩ := result
  cases answer with
  | none =>
    cases hnext with
    | exhausted hahead hσ h' hframes hphase =>
      have hpending : s'.pending p live = [] := by rw [pending, hphase, hframes]; rfl
      refine ⟨h', by rw [hahead, hpending]; rfl, fun _ ↦ hpending, fun k ↦ ?_⟩
      rw [hpending, hσ, Visit.upTo_of_eq_nil hahead, Visit.upTo_nil]
      exact Statistics.add_zero _
  | some rows =>
    cases hnext with
    | solution hvs hahead hσ h' =>
      refine ⟨h', by rw [hahead, List.filterMap_append, hvs]; rfl,
        fun hnone ↦ absurd hnone (Option.some_ne_none rows), fun k ↦ ?_⟩
      rw [hahead, Visit.upTo_append hvs, Visit.upTo, hσ, Statistics.add_assoc, ← Visit.tally_append,
        List.append_assoc]
      rfl

end Explores

/-! ## Several calls -/

/-- The search after a number of calls. -/
def after : Nat → Search C R → Search C R
  | 0, s => s
  | k + 1, s => after k s.next.2

theorem after_succ (k : Nat) (s : Search C R) : s.after (k + 1) = (s.after k).next.2 := by
  induction k generalizing s with
  | zero => rfl
  | succ k ih => exact ih s.next.2

namespace Explores

/-- **A search can be called any number of times.**  The call after the first `k` answers the
`k`-th of the solutions ahead, and the work done is that of the visits up to the `k` solutions
answered. -/
theorem after (hp : p.table.Shows p.options p.table.keys live) (k : Nat)
    (h : s.Explores p live) : (s.after k).Explores p live ∧
      (s.after k).next.1 = ((s.pending p live).filterMap Visit.solution?)[k]? ∧
      (s.after k).statistics = s.statistics + Visit.tally (Visit.upTo k (s.pending p live)) := by
  induction k generalizing s with
  | zero =>
    obtain ⟨-, hsolutions, hnil, -⟩ := h.next_ahead hp
    refine ⟨h, ?_, by rw [Visit.upTo_zero]; rfl⟩
    rw [Search.after, hsolutions]
    cases hanswer : s.next.1 with
    | none => rw [hnil hanswer]; rfl
    | some rows => rfl
  | succ k ih =>
    obtain ⟨h', hsolutions, hnil, hwork⟩ := h.next_ahead hp
    obtain ⟨h'', hanswer, hwork'⟩ := ih h'
    refine ⟨h'', hanswer.trans ?_, hwork'.trans (hwork k)⟩
    rw [hsolutions]
    cases hanswer : s.next.1 with
    | none => rw [hnil hanswer]; rfl
    | some rows => rfl

/-- **What every step keeps is kept by every call.** -/
theorem after_of_step {P : Search C R → Prop} (hp : p.table.Shows p.options p.table.keys live)
    (hstep : ∀ s : Search C R, s.Explores p live → P s → P s.step.2) (k : Nat)
    (h : s.Explores p live) (hs : P s) : P (s.after k) := by
  induction k generalizing s with
  | zero => exact hs
  | succ k ih => exact ih (h.next_ahead hp).1 (h.run_of_step hp hstep hs)

theorem take (hp : p.table.Shows p.options p.table.keys live) (n : Nat)
    (h : s.Explores p live) : (s.take n).2.Explores p live ∧
      (s.take n).1 = ((s.pending p live).filterMap Visit.solution?).take n ∧
      (s.take n).2.statistics = s.statistics + Visit.tally (Visit.upTo n (s.pending p live)) := by
  induction n generalizing s with
  | zero => exact ⟨h, rfl, by rw [Visit.upTo_zero]; rfl⟩
  | succ n ih =>
    obtain ⟨h', hsolutions, hnil, hwork⟩ := h.next_ahead hp
    obtain ⟨h'', hanswers, hwork'⟩ := ih h'
    rw [Search.take, hsolutions, ← hwork n]
    generalize s.next = result at *
    obtain ⟨answer, s'⟩ := result
    cases answer with
    | none =>
      rw [hnil rfl, Visit.upTo_nil]
      exact ⟨h', rfl, rfl⟩
    | some rows => exact ⟨h'', congrArg (rows :: ·) hanswers, hwork'⟩

/-- **All that are left are all that are ahead.** -/
theorem rest (hp : p.table.Shows p.options p.table.keys live) (h : s.Explores p live) :
    s.rest.2.Explores p live ∧ s.rest.1 = (s.pending p live).filterMap Visit.solution? ∧
      s.rest.2.statistics = s.statistics + Visit.tally (s.pending p live) := by
  obtain ⟨h', hanswers, hwork⟩ := h.take hp s.stepBound
  have hlt := h.solutions_lt_stepBound hp
  refine ⟨h', hanswers.trans (List.take_of_length_le ?_), hwork.trans ?_⟩
  · rw [← Visit.solutions_tally]
    exact Nat.le_of_lt hlt
  · rw [Visit.upTo_of_lt hlt]

end Explores

end Search

/-! ## Searches from the beginning -/

namespace Problem

/-- Before the first call everything is ahead. -/
theorem pending_solve (p : Problem C R) : p.solve.pending p p.options.keys = p.visits := rfl

/-- Whatever the number of calls, a search of a problem that can be built is in a state it should be
in. -/
theorem Built.explores_after (hp : p.Built) (k : Nat) :
    (p.solve.after k).Explores p p.options.keys :=
  ((p.explores_solve p.options.keys).after hp.consistent.shows k).1

/-- Each call answers the next solution of the traversal, and none after the last. -/
theorem Built.answer_after (hp : p.Built) (k : Nat) :
    (p.solve.after k).next.1 = p.solutions[k]? :=
  ((p.explores_solve p.options.keys).after hp.consistent.shows k).2.1

/-- The work done by then is that of the visits up to the solutions answered. -/
theorem Built.statistics_after (hp : p.Built) (k : Nat) :
    (p.solve.after k).statistics = Visit.tally (Visit.upTo k p.visits) := by
  rw [((p.explores_solve p.options.keys).after hp.consistent.shows k).2.2, pending_solve]
  exact Statistics.zero_add _

/-- **The search follows the traversal.**  Each call answers the next solution that the traversal
meets, and none after the last; and the work done after the call is that of the visits up to this
solution, or of the whole traversal. -/
theorem Built.next_after_solve (hp : p.Built) (k : Nat) :
    (p.solve.after k).next.1 = p.solutions[k]? ∧
      (p.solve.after k).next.2.statistics = Visit.tally (Visit.upTo (k + 1) p.visits) ∧
      (p.solutions.length ≤ k →
        (p.solve.after k).next.2.statistics = Visit.tally p.visits) := by
  have hwork : (p.solve.after k).next.2.statistics = Visit.tally (Visit.upTo (k + 1) p.visits) := by
    rw [← Search.after_succ, hp.statistics_after]
  refine ⟨hp.answer_after k, hwork, fun hk ↦ ?_⟩
  rw [hwork, Visit.upTo_of_lt]
  rw [Visit.solutions_tally]
  exact Nat.lt_succ_of_le hk

/-- The only solution of the triangle is met before the dead end. -/
theorem next_after_solve_triangle : triangle.Built ∧
    (triangle.solve.after 0).next.1 = some [1, 4] ∧
    (triangle.solve.after 0).next.2.statistics = ⟨2, 0, 1⟩ ∧
    (triangle.solve.after 1).next.1 = none ∧
    (triangle.solve.after 1).next.2.statistics = ⟨3, 1, 1⟩ := by
  have h (k : Nat) := Built.next_after_solve triangle_built k
  refine ⟨triangle_built, (h 0).1.trans ?_, (h 0).2.1.trans ?_, (h 1).1.trans ?_,
    (h 1).2.1.trans ?_⟩ <;> decide +kernel

/-- All solutions are counted. -/
theorem Built.countSolutions_fst (hp : p.Built) : p.countSolutions.1 = p.solutions.length := by
  have h := (p.explores_solve p.options.keys).rest hp.consistent.shows
  exact congrArg List.length h.2.1

/-- A first solution is found whenever one is counted. -/
theorem Built.isSome_firstSolution_iff (hp : p.Built) :
    p.firstSolution.1.isSome ↔ 0 < p.countSolutions.1 := by
  have hfirst : p.firstSolution.1 = p.solutions[0]? := hp.answer_after 0
  rw [hfirst, hp.countSolutions_fst, isSome_getElem?]

end Problem

end ExactCover
