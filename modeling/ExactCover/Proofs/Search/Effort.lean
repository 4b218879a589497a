import ExactCover.Proofs.Search.Nodes
import ExactCover.Proofs.Search.Path
import ExactCover.Proofs.Search.Record

/-!
# The effort of a search

What keeps a search going is a loop without a visible bound: it opens frames and closes them, and
the candidates of a frame were written down when the table was a different one.  Here it is shown
that the effort is bounded all the same.

Every call ends, also if the number of its steps is not limited in advance (`Search.Returns`).  At
every moment there are no more frames, and no more rows selected, than there are columns.  And no
work is done twice.  The rows that are selected just after a selection (`Search.selections`) are
those of the node entered, and the nodes are entered one after another as `Options.nodes` lists
them (`Search.Explores.stepped`).  So no two selections lead to the same set of rows, and there are
no more selections than there are independent sets (`Problem.Built.effort`).
-/

set_option autoImplicit false

namespace ExactCover

variable {C R : Type} [Key C] [Key R] {p : Problem C R} {live rows : List R}

namespace Search

variable {s s' : Search C R}

/-! ## Calls end -/

/-- **The loop of a call**, without a limit to its steps: `s.Returns result` if it is left with this
result. -/
inductive Returns : Search C R → Option (List R) × Search C R → Prop
  /-- There is nothing to report yet, and the loop goes on. -/
  | working {s s' : Search C R} {result : Option (List R) × Search C R}
      (hstep : s.step = (.working, s')) (h : Returns s' result) : Returns s result
  /-- A solution is reported, or that there are no more. -/
  | reported {s s' : Search C R} {answer : Option (List R)}
      (hstep : s.step = (answered answer, s')) : Returns s (answer, s')

omit [Key R] in
theorem answered_ne_working (answer : Option (List R)) : answered answer ≠ .working := by
  cases answer <;> nofun

omit [Key R] in
theorem answered_inj {answer answer' : Option (List R)} (h : answered answer = answered answer') :
    answer = answer' := by
  cases answer <;> cases answer' <;> cases h <;> rfl

/-- The loop has at most one result. -/
theorem Returns.unique {result result' : Option (List R) × Search C R} (h : s.Returns result)
    (h' : s.Returns result') : result = result' := by
  induction h with
  | working hstep _ ih =>
    cases h' with
    | working hstep' h' =>
      cases hstep.symm.trans hstep'
      exact ih h'
    | reported hstep' =>
      have hreport := congrArg Prod.fst (hstep'.symm.trans hstep)
      exact absurd hreport (answered_ne_working _)
  | reported hstep =>
    have hsame := hstep.symm
    cases h' with
    | working hstep' =>
      have hreport := congrArg Prod.fst (hsame.trans hstep')
      exact absurd hreport (answered_ne_working _)
    | reported hstep' =>
      obtain ⟨hreport, hstate⟩ := Prod.mk.inj (hsame.trans hstep')
      rw [answered_inj hreport, hstate]

namespace Explores

/-- **The loop ends**, as soon as a run that exceeds the work left. -/
theorem returns_run (hp : p.table.Shows p.options p.table.keys live) {n : Nat}
    (h : s.Explores p live) (hn : s.work p live < n) : s.Returns (s.run n) := by
  induction n generalizing s with
  | zero => omega
  | succ n ih =>
    have hcontinues := h.step hp
    rw [Search.run]
    generalize hstep : s.step = result at hcontinues ⊢
    cases hcontinues with
    | working _ _ _ h' hwork => exact .working hstep (ih h' (by omega))
    | solution => exact .reported hstep
    | exhausted => exact .reported hstep

/-- **A call ends, with the result of the loop.** -/
theorem returns_iff (hp : p.table.Shows p.options p.table.keys live) (h : s.Explores p live)
    {result : Option (List R) × Search C R} : s.Returns result ↔ result = s.next := by
  have hnext : s.Returns s.next := h.returns_run hp (h.work_lt_stepBound hp)
  exact ⟨fun hresult ↦ hresult.unique hnext, fun heq ↦ heq ▸ hnext⟩

end Explores

/-! ## Selections -/

/-- The search right after the selection that the next step makes, if it makes any. -/
def entered? (s : Search C R) : Option (Search C R) :=
  match s.phase, s.frames with
  | .searching, ⟨searched, none, row :: untried⟩ :: outer =>
    some (s.enter searched row untried outer)
  | _, _ => none

/-- The search after a number of steps. -/
def stepped : Nat → Search C R → Search C R
  | 0, s => s
  | n + 1, s => stepped n s.step.2

/-- **The selections made in a number of steps**, each as the rows that are selected after it. -/
def selections : Nat → Search C R → List (List R)
  | 0, _ => []
  | n + 1, s => (s.entered?.map chosen).toList ++ selections n s.step.2

/-- The nodes that a search has still to enter. -/
def nodesAhead (p : Problem C R) (live : List R) (s : Search C R) : List (List R) :=
  match s.phase with
  | .ready => (p.nodesAfter live []).tail
  | _ => p.nodesIn live s.frames

theorem nodesAhead_of_searching (h : s.phase = .searching) :
    s.nodesAhead p live = p.nodesIn live s.frames := by
  rw [nodesAhead, h]

/-- Without a frame there are no nodes ahead, unless the search has not begun. -/
theorem nodesAhead_of_nil (hphase : s.phase ≠ .ready) (hframes : s.frames = []) :
    s.nodesAhead p live = [] := by
  rw [nodesAhead, hframes]
  split
  · contradiction
  · rfl

theorem entered?_of_nil (hframes : s.frames = []) : s.entered? = none := by
  rw [entered?, hframes]
  split <;> simp_all

/-- **Looking at a node** opens a frame for the nodes below it, if there are any. -/
theorem nodesIn_descend (hp : p.table.Shows p.options p.table.keys live)
    (hchosen : s.chosen = chosenIn s.frames) (htable : s.table = p.tableAfter s.chosen) :
    p.nodesIn live s.descend.2.frames =
      (p.nodesAfter live s.chosen).tail ++ p.nodesIn live s.frames := by
  have htight : (p.tableAfter s.chosen).tightest? = s.table.tightest? := by rw [htable]
  rcases hnode : s.table.tightest? with _ | ⟨c, rs⟩
  · rw [descend_of_eq_none hnode, Problem.nodesAfter_of_eq_none hp (htight.trans hnode)]
    rfl
  rw [Problem.nodesAfter_of_eq_some hp (htight.trans hnode), List.tail_cons]
  by_cases hrs : rs.isEmpty = true
  · have hnil : rs.toList = [] := by simpa using hrs
    rw [descend_of_isEmpty hnode hrs, hnil]
    rfl
  · rw [descend_of_not_isEmpty hnode hrs, Problem.nodesIn, hchosen]

/-- **A step enters the first of the nodes ahead, or none.** -/
theorem Explores.nodesAhead_step (hp : p.table.Shows p.options p.table.keys live)
    (h : s.Explores p live) :
    s.nodesAhead p live = (s.entered?.map chosen).toList ++ s.step.2.nodesAhead p live ∧
      s.step.2.statistics.nodes =
        s.statistics.nodes + (s.entered?.map chosen).toList.length := by
  have hcases := h.step_cases
  generalize s.step = result at hcases ⊢
  cases hcases with
  | ready hphase =>
    let s' : Search C R := { s with phase := .searching }
    have hframes : s'.frames = [] := h.frames_eq_nil (by rw [hphase]; decide)
    have hchosen : s'.chosen = [] := h.chosen_eq.trans (congrArg chosenIn hframes)
    have hsearching : s'.descend.2.phase = .searching := (phase_descend s').1
    change _ = _ ++ s'.descend.2.nodesAhead p live ∧ s'.descend.2.statistics.nodes = _
    rw [nodesAhead_of_searching hsearching, nodesIn_descend (s := s') hp h.chosen_eq h.table_eq,
      nodes_descend, hchosen, hframes, Problem.nodesIn, List.append_nil, nodesAhead, entered?,
      hphase]
    exact ⟨rfl, rfl⟩
  | nil hphase hframes =>
    obtain ⟨-, hframes', hphase', hσ⟩ := h.finish hphase hframes
    have hfinished : s.finish.phase ≠ .ready := by rw [hphase']; decide
    rw [hσ, nodesAhead_of_nil hphase hframes, nodesAhead_of_nil hfinished hframes',
      entered?_of_nil hframes]
    exact ⟨rfl, rfl⟩
  | @selected searched untried σ outer hphase hframes =>
    rw [nodesAhead_of_searching hphase, nodesAhead_of_searching (by exact hphase)]
    simp [leave, entered?, hphase, hframes, Problem.nodesIn]
  | @untried_nil searched outer hphase hframes =>
    rw [nodesAhead_of_searching hphase, nodesAhead_of_searching (by exact hphase)]
    simp [entered?, hphase, hframes, Problem.nodesIn]
  | @untried_cons searched untried row outer hphase hframes =>
    let s' := s.enter searched row untried outer
    have hentered : s.entered? = some s' := by rw [entered?, hphase, hframes]
    have hchosen : s.chosen = chosenIn outer := by rw [h.chosen_eq, hframes, chosenIn_cons_none]
    have hchosen' : s'.chosen = chosenIn outer ++ [row] := congrArg (· ++ [row]) hchosen
    have hsearching : s'.descend.2.phase = .searching := (phase_descend s').1.trans hphase
    change _ = _ ++ s'.descend.2.nodesAhead p live ∧ s'.descend.2.statistics.nodes = _
    rw [nodesAhead_of_searching hsearching,
      nodesIn_descend hp (h.chosen_enter hframes) h.table_enter, nodes_descend, hentered,
      nodesAhead_of_searching hphase, hframes, Problem.nodesIn, List.flatMap_cons, ← hchosen',
      Problem.nodesAfter_eq_cons, List.append_assoc]
    exact ⟨rfl, rfl⟩

/-- **Selection by selection** a search takes the nodes that were ahead of it. -/
theorem Explores.stepped (hp : p.table.Shows p.options p.table.keys live) (n : Nat)
    (h : s.Explores p live) : (s.stepped n).Explores p live ∧
      s.nodesAhead p live = s.selections n ++ (s.stepped n).nodesAhead p live ∧
      (s.stepped n).statistics.nodes = s.statistics.nodes + (s.selections n).length := by
  induction n generalizing s with
  | zero => exact ⟨h, rfl, rfl⟩
  | succ n ih =>
    obtain ⟨hahead, hnodes⟩ := h.nodesAhead_step hp
    obtain ⟨h', hahead', hnodes'⟩ := ih (h.step hp).explores
    refine ⟨h', ?_, ?_⟩
    · rw [hahead, hahead', selections, List.append_assoc]
      rfl
    · rw [Search.stepped, hnodes', hnodes, selections, List.length_append, Nat.add_assoc]

theorem stepped_succ (n : Nat) : s.stepped (n + 1) = (s.stepped n).step.2 := by
  induction n generalizing s with
  | zero => rfl
  | succ n ih => exact ih

/-- What a search reaches it reaches in some number of steps. -/
theorem Reaches.exists_stepped (h : s.Reaches s') : ∃ n, s.stepped n = s' := by
  induction h with
  | refl => exact ⟨0, rfl⟩
  | step _ ih =>
    obtain ⟨n, rfl⟩ := ih
    exact ⟨n + 1, stepped_succ n⟩

/-! ## What bounds a search -/

omit [Key C] in
theorem length_chosenIn_le (frames : List (Frame C R)) :
    (chosenIn frames).length ≤ frames.length := by
  rw [chosenIn, List.length_reverse]
  exact List.length_filterMap_le _ _

namespace Explores

/-- **There are never more frames than columns.** -/
theorem length_frames_le (hp : p.table.Shows p.options p.table.keys live) (h : s.Explores p live)
    (hs : s.Passes s') : s'.frames.length ≤ p.columnCount := by
  cases hs with
  | between hs => exact (h.reaches hp hs).stack.length_le hp.coherent
  | entered hs _ hframes =>
    have hle := (h.reaches hp hs).stack.length_le hp.coherent
    rw [hframes] at hle
    exact hle

/-- The selections that have been counted are among the nodes that were ahead. -/
theorem nodes_le (hp : p.table.Shows p.options p.table.keys live) (h : s.Explores p live)
    (hs : s.Passes s') :
    s'.statistics.nodes ≤ s.statistics.nodes + (s.nodesAhead p live).length := by
  have hle (n : Nat) : (s.stepped n).statistics.nodes ≤
      s.statistics.nodes + (s.nodesAhead p live).length := by
    obtain ⟨-, hahead, hnodes⟩ := h.stepped hp n
    rw [hahead, hnodes, List.length_append]
    omega
  cases hs with
  | between hs =>
    obtain ⟨n, rfl⟩ := hs.exists_stepped
    exact hle n
  | @entered s' searched untried row outer hs hphase hframes =>
    -- The row is counted from the moment that it is selected.
    obtain ⟨n, rfl⟩ := hs.exists_stepped
    have hnext := hle (n + 1)
    rw [stepped_succ, step_of_untried_cons hphase hframes, nodes_descend] at hnext
    exact hnext

end Explores

end Search

/-! ## Searches of problems that were built -/

namespace Problem

/-- A new search has all nodes ahead but the root. -/
theorem nodesAhead_solve (p : Problem C R) : p.solve.nodesAhead p p.options.keys =
    (p.options.nodes p.table.keys p.options.keys).tail := by
  change (p.nodesAfter p.options.keys []).tail = _
  rw [nodesAfter]
  simp

/-- **The search ends, and never repeats work.**  Every call ends: the loop in it does, with the
result of the call.  From some number of calls on, and not before, the answer is that there are no
more solutions.  At every moment there are no more frames than columns, and no more rows are
selected.  No two selections leave the same rows selected, and their number is that of the nodes
counted.  So the nodes counted are never more than the sets of rows of which no two share a column
and none has no columns, without the empty one. -/
theorem Built.effort (hp : p.Built) :
    (∀ k result, (p.solve.after k).Returns result ↔ result = (p.solve.after k).next) ∧
    (∃ k, ∀ j, (p.solve.after j).next.1 = none ↔ k ≤ j) ∧
    (∀ k, p.solve.Passes (p.solve.after k)) ∧
    (∀ s, p.solve.Passes s → s.frames.length ≤ p.columnCount ∧ s.chosen.length ≤ p.columnCount) ∧
    (∀ n, (p.solve.stepped n).statistics.nodes = (p.solve.selections n).length ∧
      (p.solve.selections n).Pairwise fun rows rows' ↦ {r | r ∈ rows} ≠ {r | r ∈ rows'}) ∧
    ∀ s, p.solve.Passes s →
      s.statistics.nodes ≤ {S : Set R | S.Nonempty ∧ p.options.Independent S}.ncard := by
  have hshows := hp.consistent.shows
  have hsolve := p.explores_solve p.options.keys
  have hnodup : p.options.keys.Nodup := hshows.ascending.nodup
  refine ⟨fun k result ↦ (hp.explores_after k).returns_iff hshows, ⟨p.solutions.length, fun j ↦ ?_⟩,
    fun k ↦ .between (p.solve.reaches_after k), fun s hs ↦ ?_, fun n ↦ ?_, fun s hs ↦ ?_⟩
  · rw [hp.answer_after, List.getElem?_eq_none_iff]
  · have hframes := hsolve.length_frames_le hshows hs
    have hchosen := hsolve.chosen_of_passes hshows hs
    exact ⟨hframes, hchosen ▸ (Search.length_chosenIn_le s.frames).trans hframes⟩
  · obtain ⟨-, hahead, hnodes⟩ := hsolve.stepped hshows n
    refine ⟨hnodes.trans (Nat.zero_add _), ?_⟩
    have hpairwise : (p.options.nodes p.table.keys p.options.keys).tail.Pairwise _ :=
      (Options.pairwise_nodes hnodup).tail
    rw [← nodesAhead_solve, hahead, List.pairwise_append] at hpairwise
    exact hpairwise.1
  · refine (hsolve.nodes_le hshows hs).trans ?_
    rw [nodesAhead_solve]
    exact (Nat.zero_add _).trans_le (Options.length_tail_nodes_le hnodup)

/-- In the triangle a side and the corner that it leaves are selected, and then another side in
vain.  These are all selections. -/
theorem effort_triangle : triangle.Built ∧
    triangle.solve.selections 12 = [[1], [1, 4], [2]] ∧
    (triangle.solve.stepped 12).statistics.nodes = 3 ∧
    (∃ k, ∀ j, (triangle.solve.after j).next.1 = none ↔ k ≤ j) ∧
    (triangle.solve.after 1).Returns (triangle.solve.after 1).next ∧
    3 ≤ {S : Set Nat | S.Nonempty ∧ triangle.options.Independent S}.ncard := by
  obtain ⟨hreturns, hends, hpasses, -, hselections, hnodes⟩ := Built.effort triangle_built
  have hthree : triangle.solve.selections 12 = [[1], [1, 4], [2]] := by decide +kernel
  have hcount : (triangle.solve.after 2).statistics.nodes = 3 := by decide +kernel
  refine ⟨triangle_built, hthree, ?_, hends, (hreturns 1 _).2 rfl, ?_⟩
  · rw [(hselections 12).1, hthree]
    rfl
  · rw [← hcount]
    exact hnodes _ (hpasses 2)

end Problem

end ExactCover
