import ExactCover.Proofs.Search.Stack

/-!
# The steps of a search

`Search.Explores` is the invariant of a search of a problem `p`: the rows selected are those of its
frames, the frames and the table are those that these rows call for, and the counters tell the
visits of the traversal that are behind it.  Those still ahead are `Search.pending`, and
`Search.work` bounds the steps that they take.

A step takes some visits off the front of those that are pending, a solution last if the step
reports one, and adds them to the counters; if it reports nothing, there is less work left
(`Search.Explores.step`).  The five kinds of steps are taken one by one.  Three of them do not
look at a node, and what the other two find there is `Search.AtNode.descend`.
-/

set_option autoImplicit false

namespace ExactCover

variable {C R : Type} [Key C] [Key R]

namespace Search

/-! ## The invariant -/

/-- The visits that are still ahead of a search. -/
def pending (p : Problem C R) (live : List R) (s : Search C R) : List (Visit R) :=
  match s.phase with
  | .ready => p.visitsAfter live []
  | _ => p.pendingIn live s.frames

/-- The work `σ` is that of the visits which are not ahead any more. -/
def Accounts (all ahead : List (Visit R)) (σ : Statistics) : Prop :=
  ∃ behind, all = behind ++ ahead ∧ σ = Visit.tally behind

omit [Key R] in
theorem Accounts.append {all vs ahead : List (Visit R)} {σ : Statistics}
    (h : Accounts all (vs ++ ahead) σ) : Accounts all ahead (σ + Visit.tally vs) := by
  obtain ⟨behind, rfl, rfl⟩ := h
  exact ⟨behind ++ vs, (List.append_assoc _ _ _).symm, (Visit.tally_append _ _).symm⟩

/-- **The states of a search of `p`**, if the rows that can be selected are those in `live`. -/
structure Explores (p : Problem C R) (live : List R) (s : Search C R) : Prop where
  /-- The rows are those of the problem. -/
  options_eq : s.options = p.options
  /-- The rows selected are those of the frames. -/
  chosen_eq : s.chosen = chosenIn s.frames
  /-- The table is the one that the selections leave. -/
  table_eq : s.table = p.tableAfter s.chosen
  /-- The frames are those that the selections call for. -/
  stack : Stack p s.frames
  /-- Before the first step, and after the last, no frame is open. -/
  frames_eq_nil : s.phase ≠ .searching → s.frames = []
  /-- The counters tell the visits that are not ahead any more. -/
  accounts : Accounts (p.visitsAfter live []) (s.pending p live) s.statistics

/-- The number of steps that it takes to leave the frames of a stack. -/
def leaving (frames : List (Frame C R)) : Nat :=
  frames.foldr (fun f n ↦ (if f.selected.isSome then 2 else 1) + n) 0

/-- **A bound on the steps that are left**: three for each node ahead — selecting its row, closing
its frame and retracting the row — besides those that leave the frames which are open. -/
def work (p : Problem C R) (live : List R) (s : Search C R) : Nat :=
  3 * (Visit.tally (s.pending p live)).nodes + leaving s.frames +
    if s.phase = .ready then 2 else 0

/-- **What may come of a step** when the visits `ahead` are pending and the work `σ` has been done:
a search that has taken some of them, up to a solution if it reports one, and all of them if it
reports that there is nothing left.  If it reports nothing, less than `bound` work is left. -/
inductive Continues (p : Problem C R) (live : List R) (ahead : List (Visit R)) (σ : Statistics)
    (bound : Nat) : Report R × Search C R → Prop
  | working {vs : List (Visit R)} {s : Search C R} (hvs : vs.filterMap Visit.solution? = [])
      (hahead : ahead = vs ++ s.pending p live) (hσ : s.statistics = σ + Visit.tally vs)
      (h : s.Explores p live) (hwork : s.work p live < bound) :
      Continues p live ahead σ bound (.working, s)
  | solution {vs : List (Visit R)} {rows : List R} {s : Search C R}
      (hvs : vs.filterMap Visit.solution? = [])
      (hahead : ahead = vs ++ .solution rows :: s.pending p live)
      (hσ : s.statistics = σ + Visit.tally (vs ++ [.solution rows])) (h : s.Explores p live)
      (hrows : s.chosen = rows) (htable : s.table = ∅)
      (hselected : ∀ f ∈ s.frames, f.selected.isSome = true) :
      Continues p live ahead σ bound (.solution rows, s)
  | exhausted {s : Search C R} (hahead : ahead.filterMap Visit.solution? = [])
      (hσ : s.statistics = σ + Visit.tally ahead) (h : s.Explores p live)
      (hframes : s.frames = []) (hphase : s.phase = .finished) :
      Continues p live ahead σ bound (.exhausted, s)

variable {p : Problem C R} {live : List R}

/-- What comes of a step is a search of the same problem. -/
theorem Continues.explores {ahead : List (Visit R)} {σ : Statistics} {bound : Nat}
    {result : Report R × Search C R} (h : Continues p live ahead σ bound result) :
    result.2.Explores p live := by
  cases h <;> assumption

/-- Visits among which there is no solution can be put in front. -/
theorem Continues.append {vs ahead : List (Visit R)} {σ : Statistics} {bound bound' : Nat}
    {result : Report R × Search C R} (hvs : vs.filterMap Visit.solution? = [])
    (hbound : bound ≤ bound')
    (h : Continues p live ahead (σ + Visit.tally vs) bound result) :
    Continues p live (vs ++ ahead) σ bound' result := by
  have happend {ws : List (Visit R)} (hws : ws.filterMap Visit.solution? = []) :
      (vs ++ ws).filterMap Visit.solution? = [] := by
    rw [List.filterMap_append, hvs, hws, List.append_nil]
  cases h with
  | working hws hahead hσ h hwork =>
    refine .working (happend hws) (by rw [hahead, List.append_assoc]) ?_ h (by omega)
    rw [hσ, Visit.tally_append, Statistics.add_assoc]
  | solution hws hahead hσ h hrows htable hselected =>
    refine .solution (happend hws) (by rw [hahead, List.append_assoc]) ?_ h hrows htable hselected
    rw [hσ, List.append_assoc, Visit.tally_append vs, Statistics.add_assoc]
  | exhausted hahead hσ h hframes hphase =>
    refine .exhausted (happend hahead) ?_ h hframes hphase
    rw [hσ, Visit.tally_append, Statistics.add_assoc]

/-! ## Looking at a node -/

/-- A search that has come to a node and is about to look at it: all frames have a row selected, and
the visits below the node are still ahead. -/
structure AtNode (p : Problem C R) (live : List R) (s : Search C R) : Prop where
  /-- The rows are those of the problem. -/
  options_eq : s.options = p.options
  /-- The rows selected are those of the frames. -/
  chosen_eq : s.chosen = chosenIn s.frames
  /-- The table is the one that the selections leave. -/
  table_eq : s.table = p.tableAfter s.chosen
  /-- The frames are those that the selections call for. -/
  stack : Stack p s.frames
  /-- Every frame has a row selected. -/
  selected : ∀ f ∈ s.frames, f.selected.isSome = true
  /-- The search is under way. -/
  phase_eq : s.phase = .searching
  /-- The counters tell the visits that are behind. -/
  accounts : Accounts (p.visitsAfter live [])
    (p.visitsAfter live s.chosen ++ p.pendingIn live s.frames) s.statistics

theorem pending_of_searching {s : Search C R} (h : s.phase = .searching) :
    s.pending p live = p.pendingIn live s.frames := by
  rw [pending, h]

/-- With no column left, the rows selected are a solution. -/
theorem descend_of_eq_none {s : Search C R} (h : s.table.tightest? = none) :
    s.descend = (.solution s.chosen, { s with
      statistics := { s.statistics with solutions := s.statistics.solutions + 1 }
      log := .solution (s.statistics.solutions + 1) s.depth :: s.log }) := by
  rw [descend, h]

/-- With a column that has no candidates, it is a dead end. -/
theorem descend_of_isEmpty {s : Search C R} {c : C} {rs : Std.ExtTreeSet R}
    (h : s.table.tightest? = some (c, rs)) (hrs : rs.isEmpty = true) :
    s.descend = (.working, { s with
      statistics := { s.statistics with deadEnds := s.statistics.deadEnds + 1 }
      log := .deadEnd s.depth :: s.log }) := by
  rw [descend, h]
  exact if_pos hrs

/-- Otherwise a frame is opened for the tightest column. -/
theorem descend_of_not_isEmpty {s : Search C R} {c : C} {rs : Std.ExtTreeSet R}
    (h : s.table.tightest? = some (c, rs)) (hrs : ¬rs.isEmpty = true) :
    s.descend = (.working, { s with
      frames := ⟨[], none, rs.toList⟩ :: s.frames
      log := .branching rs.size s.depth :: s.log }) := by
  rw [descend, h]
  exact if_neg hrs

/-- **Looking at a node** takes the visits that belong to it, or opens a frame for them. -/
theorem AtNode.descend {s : Search C R} (hp : p.table.Shows p.options p.table.keys live)
    (h : s.AtNode p live) :
    Continues p live (p.visitsAfter live s.chosen ++ p.pendingIn live s.frames) s.statistics
      (3 * (Visit.tally (p.visitsAfter live s.chosen ++ p.pendingIn live s.frames)).nodes +
        leaving s.frames + 2) s.descend := by
  have htight : (p.tableAfter s.chosen).tightest? = s.table.tightest? := by rw [h.table_eq]
  have hsearching : s.phase ≠ .ready := by rw [h.phase_eq]; decide
  have haccounts := h.accounts
  rcases hnode : s.table.tightest? with _ | ⟨c, rs⟩
  · -- The node is a solution.
    rw [Problem.visitsAfter_of_eq_none hp (htight.trans hnode),
      ← pending_of_searching h.phase_eq] at haccounts ⊢
    rw [descend_of_eq_none hnode]
    exact .solution List.filterMap_nil rfl rfl
      ⟨h.options_eq, h.chosen_eq, h.table_eq, h.stack, absurd h.phase_eq, haccounts.append⟩
      rfl (Table.tightest?_eq_none_iff.1 hnode) h.selected
  by_cases hrs : rs.isEmpty = true
  · -- The node is a dead end.
    have hvs : [Visit.deadEnd (R := R)].filterMap Visit.solution? = [] := rfl
    rw [Problem.visitsAfter_of_isEmpty hp (htight.trans hnode) hrs,
      ← pending_of_searching h.phase_eq] at haccounts ⊢
    have hwork : s.work p live < 3 * (Visit.tally ([.deadEnd] ++ s.pending p live)).nodes +
        leaving s.frames + 2 := by
      rw [work, if_neg hsearching, Visit.tally_append, Statistics.nodes_add]
      omega
    rw [descend_of_isEmpty hnode hrs]
    exact .working hvs rfl rfl
      ⟨h.options_eq, h.chosen_eq, h.table_eq, h.stack, absurd h.phase_eq, haccounts.append⟩
      hwork
  · -- The node is branched on.
    let s' : Search C R := { s with
      frames := ⟨[], none, rs.toList⟩ :: s.frames
      log := .branching rs.size s.depth :: s.log }
    have hchosen : s'.chosen = chosenIn s'.frames := h.chosen_eq.trans chosenIn_cons_none.symm
    have hpending : s'.pending p live =
        p.visitsAfter live s.chosen ++ p.pendingIn live s.frames := by
      rw [pending_of_searching (s := s') h.phase_eq, Problem.pendingIn,
        Problem.visitsAfter_of_not_isEmpty hp (htight.trans hnode) hrs, h.chosen_eq]
    have hopened : Frame.OpenedOn p.options (p.tableAfter (chosenIn s.frames))
        ⟨[], none, rs.toList⟩ :=
      ⟨⟨c, rs, h.chosen_eq ▸ htight.trans hnode, rfl⟩, fun _ hσ ↦ by cases hσ⟩
    rw [descend_of_not_isEmpty hnode hrs]
    refine .working (s := s') List.filterMap_nil hpending.symm rfl
      ⟨h.options_eq, hchosen, h.table_eq, .cons h.stack h.selected hopened,
        absurd h.phase_eq, hpending.symm ▸ haccounts⟩ ?_
    rw [work, hpending, if_neg hsearching, leaving, List.foldr_cons, ← leaving]
    simp only [Option.isSome_none, if_false, Bool.false_eq_true]
    omega

/-! ## The five kinds of steps -/

theorem step_of_ready {s : Search C R} (hphase : s.phase = .ready) :
    s.step = descend { s with phase := .searching } := by
  rw [step, hphase]

theorem step_of_nil {s : Search C R} (hphase : s.phase ≠ .ready) (hframes : s.frames = []) :
    s.step = (.exhausted, s.finish) := by
  rw [step, hframes]
  cases h : s.phase with
  | ready => exact absurd h hphase
  | searching => rfl
  | finished => rfl

/-- The search right after it has retracted the row selected in its top frame. -/
def leave (s : Search C R) (searched : List R) (σ : Selection C R) (untried : List R)
    (outer : List (Frame C R)) : Search C R :=
  { s with
    table := s.table.retract s.options σ.undo
    frames := ⟨σ.row :: searched, none, untried⟩ :: outer
    chosen := s.chosen.dropLast
    log := .retracted (searched.length + 1)
      (Frame.total (C := C) ⟨σ.row :: searched, none, untried⟩) s.chosen.dropLast.length :: s.log }

/-- The search right after it has selected `row`, the next candidate of its top frame. -/
def enter (s : Search C R) (searched : List R) (row : R) (untried : List R)
    (outer : List (Frame C R)) : Search C R :=
  { s with
    table := (s.table.select s.options row).1
    frames := ⟨searched, some ⟨row, (s.table.select s.options row).2⟩, untried⟩ :: outer
    chosen := s.chosen ++ [row]
    statistics := { s.statistics with nodes := s.statistics.nodes + 1 }
    log := .selecting (searched.length + 1)
      (Frame.total (C := C) ⟨searched, none, row :: untried⟩) s.depth :: s.log }

section Frame

variable {s : Search C R} {searched untried : List R} {outer : List (Frame C R)}

theorem step_of_selected {σ : Selection C R} (hphase : s.phase = .searching)
    (hframes : s.frames = ⟨searched, some σ, untried⟩ :: outer) :
    s.step = (.working, s.leave searched σ untried outer) := by
  rw [step, leave, hphase, hframes]
  rfl

theorem step_of_untried_nil (hphase : s.phase = .searching)
    (hframes : s.frames = ⟨searched, none, []⟩ :: outer) :
    s.step = (.working, { s with frames := outer }) := by
  rw [step, hphase, hframes]

theorem step_of_untried_cons {row : R} (hphase : s.phase = .searching)
    (hframes : s.frames = ⟨searched, none, row :: untried⟩ :: outer) :
    s.step = (s.enter searched row untried outer).descend := by
  rw [step, enter, hphase, hframes]

end Frame

/-- **What a step does**, in each of the five cases. -/
inductive StepCase (s : Search C R) : Report R × Search C R → Prop
  /-- It looks at the root. -/
  | ready (hphase : s.phase = .ready) : StepCase s (descend { s with phase := .searching })
  /-- It finds that no frame is left. -/
  | nil (hphase : s.phase ≠ .ready) (hframes : s.frames = []) : StepCase s (.exhausted, s.finish)
  /-- It retracts the row selected in the top frame. -/
  | selected {searched untried : List R} {σ : Selection C R} {outer : List (Frame C R)}
      (hphase : s.phase = .searching) (hframes : s.frames = ⟨searched, some σ, untried⟩ :: outer) :
      StepCase s (.working, s.leave searched σ untried outer)
  /-- It closes the top frame, which has no candidates left. -/
  | untried_nil {searched : List R} {outer : List (Frame C R)} (hphase : s.phase = .searching)
      (hframes : s.frames = ⟨searched, none, []⟩ :: outer) :
      StepCase s (.working, { s with frames := outer })
  /-- It selects the next candidate of the top frame and looks at the node it leads to. -/
  | untried_cons {searched untried : List R} {row : R} {outer : List (Frame C R)}
      (hphase : s.phase = .searching)
      (hframes : s.frames = ⟨searched, none, row :: untried⟩ :: outer) :
      StepCase s (s.enter searched row untried outer).descend

namespace Explores

variable {s : Search C R} {searched untried : List R} {outer : List (Frame C R)}

/-- The first step looks at the root. -/
theorem step_ready (hp : p.table.Shows p.options p.table.keys live) (h : s.Explores p live)
    (hphase : s.phase = .ready) :
    Continues p live (s.pending p live) s.statistics (s.work p live) s.step := by
  have hframes : s.frames = [] := h.frames_eq_nil (by rw [hphase]; decide)
  have hchosen : s.chosen = [] := by rw [h.chosen_eq, hframes, chosenIn_nil]
  have hpending : s.pending p live =
      p.visitsAfter live s.chosen ++ p.pendingIn live s.frames := by
    rw [pending, hphase, hchosen, hframes, Problem.pendingIn, List.append_nil]
  have hnode : AtNode p live { s with phase := .searching } :=
    ⟨h.options_eq, h.chosen_eq, h.table_eq, h.stack, by simp [hframes], rfl,
      hpending ▸ h.accounts⟩
  rw [step_of_ready hphase, work, if_pos hphase, hpending]
  exact hnode.descend hp

theorem finish (h : s.Explores p live) (hphase : s.phase ≠ .ready) (hframes : s.frames = []) :
    s.finish.Explores p live ∧ s.finish.frames = [] ∧ s.finish.phase = .finished ∧
      s.finish.statistics = s.statistics := by
  rw [Search.finish]
  cases hs : s.phase with
  | ready => exact absurd hs hphase
  | searching =>
    have haccounts := h.accounts
    rw [pending_of_searching hs] at haccounts
    exact ⟨⟨h.options_eq, h.chosen_eq, h.table_eq, h.stack, fun _ ↦ hframes, haccounts⟩, hframes,
      rfl, rfl⟩
  | finished => exact ⟨h, hframes, hs, rfl⟩

/-- Without frames there is nothing left to be met. -/
theorem step_nil (h : s.Explores p live) (hphase : s.phase ≠ .ready) (hframes : s.frames = []) :
    Continues p live (s.pending p live) s.statistics (s.work p live) s.step := by
  have hpending : s.pending p live = [] := by
    rw [pending, hframes]
    split
    · contradiction
    · rfl
  obtain ⟨hexplores, hframes', hphase', hσ⟩ := h.finish hphase hframes
  rw [step_of_nil hphase hframes, hpending]
  exact .exhausted List.filterMap_nil hσ hexplores hframes' hphase'

theorem phase_eq (h : s.Explores p live) (hframes : s.frames ≠ []) : s.phase = .searching :=
  Decidable.byContradiction fun hphase ↦ hframes (h.frames_eq_nil hphase)

/-- There are no other cases, since frames are open only while the search is under way. -/
theorem step_cases (h : s.Explores p live) : StepCase s s.step := by
  by_cases hphase : s.phase = .ready
  · rw [step_of_ready hphase]
    exact .ready hphase
  match hframes : s.frames with
  | [] =>
    rw [step_of_nil hphase hframes]
    exact .nil hphase hframes
  | ⟨_, some _, _⟩ :: _ =>
    have hsearching := h.phase_eq (by simp [hframes])
    rw [step_of_selected hsearching hframes]
    exact .selected hsearching hframes
  | ⟨_, none, []⟩ :: _ =>
    have hsearching := h.phase_eq (by simp [hframes])
    rw [step_of_untried_nil hsearching hframes]
    exact .untried_nil hsearching hframes
  | ⟨_, none, _ :: _⟩ :: _ =>
    have hsearching := h.phase_eq (by simp [hframes])
    rw [step_of_untried_cons hsearching hframes]
    exact .untried_cons hsearching hframes

/-- What the invariant says while there is a frame. -/
theorem of_frames_eq (h : s.Explores p live) {f : Frame C R} (hframes : s.frames = f :: outer) :
    s.phase = .searching ∧ Stack p (f :: outer) ∧ s.chosen = chosenIn (f :: outer) ∧
      s.table = p.tableAfter (chosenIn (f :: outer)) :=
  ⟨h.phase_eq (by simp [hframes]), hframes ▸ h.stack, hframes ▸ h.chosen_eq,
    by rw [h.table_eq, h.chosen_eq, hframes]⟩

/-- Retracting the row selected last takes it away from the end of the rows selected. -/
theorem chosen_leave (h : s.Explores p live) {σ : Selection C R}
    (hframes : s.frames = ⟨searched, some σ, untried⟩ :: outer) :
    (s.leave searched σ untried outer).chosen = chosenIn outer := by
  simp only [leave, h.chosen_eq, hframes, chosenIn_cons_some, List.dropLast_concat]

/-- Selecting a row adds it to the end. -/
theorem chosen_enter (h : s.Explores p live) {row : R}
    (hframes : s.frames = ⟨searched, none, row :: untried⟩ :: outer) :
    (s.enter searched row untried outer).chosen =
      chosenIn (s.enter searched row untried outer).frames := by
  simp only [enter, h.chosen_eq, hframes, chosenIn_cons_none, chosenIn_cons_some]

/-- The table is then the one that all of these rows leave. -/
theorem table_enter (h : s.Explores p live) {row : R} :
    (s.enter searched row untried outer).table =
      p.tableAfter (s.enter searched row untried outer).chosen := by
  change (s.table.select s.options row).1 = p.tableAfter (s.chosen ++ [row])
  rw [Problem.tableAfter_concat, ← h.table_eq, h.options_eq]

/-- A step that leaves the visits ahead as they are makes progress by leaving frames. -/
theorem working {s' : Search C R} (h : s.Explores p live) (hphase : s.phase = .searching)
    (hphase' : s'.phase = .searching) (hoptions : s'.options = s.options)
    (hσ : s'.statistics = s.statistics) (hchosen : s'.chosen = chosenIn s'.frames)
    (htable : s'.table = p.tableAfter (chosenIn s'.frames)) (hstack : Stack p s'.frames)
    (hahead : p.pendingIn live s.frames = p.pendingIn live s'.frames)
    (hleaving : leaving s'.frames < leaving s.frames) :
    Continues p live (s.pending p live) s.statistics (s.work p live) (.working, s') := by
  have hpending : s.pending p live = s'.pending p live := by
    rw [pending_of_searching hphase, pending_of_searching hphase', hahead]
  refine .working List.filterMap_nil hpending hσ
    ⟨hoptions.trans h.options_eq, hchosen, hchosen ▸ htable, hstack, absurd hphase', ?_⟩ ?_
  · rw [← hpending, hσ]
    exact h.accounts
  · rw [work, work, hpending, hphase, hphase']
    omega

omit [Key C] in
theorem leaving_cons (f : Frame C R) : leaving (f :: outer) =
    (if f.selected.isSome then 2 else 1) + leaving outer := rfl

/-- Retracting a row gives back the table on which its frame was opened. -/
theorem step_selected (hp : p.table.Coherent p.options) (h : s.Explores p live)
    {σ : Selection C R} (hframes : s.frames = ⟨searched, some σ, untried⟩ :: outer) :
    Continues p live (s.pending p live) s.statistics (s.work p live) s.step := by
  obtain ⟨hphase, hstack, -, htable⟩ := h.of_frames_eq hframes
  rw [chosenIn_cons_some, Problem.tableAfter_concat] at htable
  cases hstack with | cons houter hselected hf =>
  let f : Frame C R := ⟨σ.row :: searched, none, untried⟩
  have hback : s.table.retract s.options σ.undo = p.tableAfter (chosenIn (f :: outer)) := by
    rw [htable, h.options_eq, hf.undo_eq σ rfl, chosenIn_cons_none]
    exact (hp.selectAll _).retract_select σ.row
  have hopened : f.OpenedOn p.options (p.tableAfter (chosenIn outer)) :=
    hf.of_candidates_eq (by simp [f, Frame.candidates]) nofun
  have hchosen : (s.leave searched σ untried outer).chosen = chosenIn (f :: outer) :=
    (h.chosen_leave hframes).trans chosenIn_cons_none.symm
  have hleaving : leaving (f :: outer) < leaving s.frames := by
    rw [hframes, leaving_cons, leaving_cons]
    simp [f]
  rw [step_of_selected hphase hframes]
  refine h.working hphase hphase rfl rfl hchosen hback (.cons houter hselected hopened) ?_ hleaving
  rw [hframes]
  rfl

/-- A frame without candidates is closed. -/
theorem step_untried_nil (h : s.Explores p live)
    (hframes : s.frames = ⟨searched, none, []⟩ :: outer) :
    Continues p live (s.pending p live) s.statistics (s.work p live) s.step := by
  obtain ⟨hphase, hstack, hchosen, htable⟩ := h.of_frames_eq hframes
  rw [chosenIn_cons_none] at hchosen htable
  rw [step_of_untried_nil hphase hframes]
  refine h.working hphase hphase rfl rfl hchosen htable hstack.tail ?_ ?_
  · rw [hframes]
    rfl
  · rw [hframes, leaving_cons]
    simp

/-- Selecting a candidate enters the node it leads to. -/
theorem step_untried_cons (hp : p.table.Shows p.options p.table.keys live) (h : s.Explores p live)
    {row : R} (hframes : s.frames = ⟨searched, none, row :: untried⟩ :: outer) :
    Continues p live (s.pending p live) s.statistics (s.work p live) s.step := by
  obtain ⟨hphase, hstack, hchosen, htable⟩ := h.of_frames_eq hframes
  have haccounts := h.accounts
  rw [chosenIn_cons_none] at hchosen htable
  cases hstack with | cons houter hselected hf =>
  let f : Frame C R := ⟨searched, some ⟨row, (s.table.select s.options row).2⟩, untried⟩
  have hpending : s.pending p live = [.enter row] ++
      (p.visitsAfter live (s.chosen ++ [row]) ++ p.pendingIn live (f :: outer)) := by
    rw [pending_of_searching hphase, hframes, hchosen, Problem.pendingIn, List.flatMap_cons,
      Problem.branch, Problem.pendingIn, List.append_assoc]
    rfl
  have hopened : f.OpenedOn p.options (p.tableAfter (chosenIn outer)) := by
    refine hf.of_candidates_eq (by simp [f, Frame.candidates]) fun σ hσ ↦ ?_
    cases hσ
    rw [htable, h.options_eq]
  have hvs : [Visit.enter row].filterMap Visit.solution? = [] := rfl
  have hall : ∀ g ∈ f :: outer, g.selected.isSome = true := by simpa [f] using hselected
  have hwork : 3 * (Visit.tally (p.visitsAfter live (s.chosen ++ [row]) ++
      p.pendingIn live (f :: outer))).nodes + leaving (f :: outer) + 2 ≤ s.work p live := by
    have hentered : (Visit.tally [Visit.enter row]).nodes = 1 := rfl
    rw [work, hpending, Visit.tally_append [Visit.enter row], Statistics.nodes_add, hentered,
      hframes, leaving_cons, leaving_cons]
    simp only [f, Option.isSome_some, Option.isSome_none, if_true, Bool.false_eq_true, if_false]
    omega
  rw [hpending] at haccounts ⊢
  rw [step_of_untried_cons hphase hframes]
  exact Continues.append hvs hwork <| AtNode.descend hp <|
    AtNode.mk (s := s.enter searched row untried outer) h.options_eq (h.chosen_enter hframes)
      h.table_enter (.cons houter hselected hopened) hall hphase haccounts.append

/-- **Every step of a search is accounted for.** -/
theorem step (hp : p.table.Shows p.options p.table.keys live) (h : s.Explores p live) :
    Continues p live (s.pending p live) s.statistics (s.work p live) s.step := by
  by_cases hphase : s.phase = .ready
  · exact h.step_ready hp hphase
  match hframes : s.frames with
  | [] => exact h.step_nil hphase hframes
  | ⟨_, some _, _⟩ :: _ => exact h.step_selected hp.coherent hframes
  | ⟨_, none, []⟩ :: _ => exact h.step_untried_nil hframes
  | ⟨_, none, _ :: _⟩ :: _ => exact h.step_untried_cons hp hframes

end Explores

end Search

end ExactCover
