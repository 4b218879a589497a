import ExactCover.Proofs.Search.Lines
import ExactCover.Proofs.Search.Pauses

/-!
# The log of a search

A search logs what it does while its counters, its stack and its phase change, and it does so in
several places and across several calls.  Here it is shown that the log agrees with all of them.

A log can be read by someone who knows nothing of the search.  Lines can be counted and compared
with the counters (`Tells`), and the lines about selections and retractions can be followed like
brackets, keeping a list of those that are open (`Event.follow`).  What is open then are the
selections in the frames of the search (`openIn`).  `Search.Recorded` says all this of one state.
Each step adds at most two lines, and after each of them the record is in order
(`Search.Recorded.step`); so it is in order after any number of calls (`Problem.Built.log_after`).
-/

set_option autoImplicit false

namespace ExactCover

/-! ## Reading a log -/

/-- A line that announces the selection of a candidate. -/
structure Opening where
  /-- Which of the candidates of its column it is. -/
  number : Nat
  /-- How many there are. -/
  total : Nat
  /-- How many rows were selected before. -/
  depth : Nat
deriving DecidableEq

namespace Event

/-- Reads on in a log.  The openings are those of the lines so far that have not been matched, the
latest first.  A retraction has to match the latest of them, and where a line shows a depth, this
has to be their number. -/
def follow (opened : List Opening) : Event → Option (List Opening)
  | selecting number total depth =>
    if depth = opened.length then some (⟨number, total, depth⟩ :: opened) else none
  | retracted number total depth =>
    if opened.head? = some ⟨number, total, depth⟩ then some opened.tail else none
  | branching _ depth | deadEnd depth | solution _ depth =>
    if depth = opened.length then some opened else none
  | solving _ _ | finished _ => some opened

/-- The number that a solution is given. -/
def solutionNumber? : Event → Option Nat
  | solution number _ => some number
  | _ => none

/-- The work that has been done when the event has happened. -/
def tally (σ : Statistics) : Event → Statistics
  | selecting _ _ _ => { σ with nodes := σ.nodes + 1 }
  | deadEnd _ => { σ with deadEnds := σ.deadEnds + 1 }
  | solution _ _ => { σ with solutions := σ.solutions + 1 }
  | _ => σ

/-- The event is one in the course of a search that has done the work `σ`.  A solution has the next
number. -/
def InCourse (σ : Statistics) : Event → Prop
  | solving _ _ | finished _ => False
  | solution number _ => number = σ.solutions + 1
  | _ => True

/-- How many nodes the event says the findings at: one, or none. -/
def finding : Event → Nat
  | branching _ _ | deadEnd _ | solution _ _ => 1
  | _ => 0

end Event

open Event

/-- **The log shows the work**: it begins with the size of the problem, it has a line for each
selection and each dead end, and it numbers the solutions. -/
structure Tells (columns rows : Nat) (σ : Statistics) (log : List Event) : Prop where
  /-- The first line gives the size of the problem. -/
  first_eq : log.getLast? = some (.solving columns rows)
  /-- No other line does. -/
  solving_eq : linesAbout .solving log = 1
  /-- Each selection has a line. -/
  selecting_eq : linesAbout .selecting log = σ.nodes
  /-- Each dead end has a line. -/
  deadEnd_eq : linesAbout .deadEnd log = σ.deadEnds
  /-- The solutions are numbered from one in the order in which they are found. -/
  solution_eq : log.reverse.filterMap solutionNumber? = List.range' 1 σ.solutions

theorem Tells.cons {columns rows : Nat} {σ : Statistics} {log : List Event} {e : Event}
    (h : Tells columns rows σ log) (hsolving : e.kind ≠ .solving)
    (hnumber : ∀ n, e.solutionNumber? = some n → n = σ.solutions + 1) :
    Tells columns rows (e.tally σ) (e :: log) where
  first_eq := by rw [List.getLast?_cons, h.first_eq]; rfl
  solving_eq := by rw [linesAbout_cons, h.solving_eq, if_neg hsolving]
  selecting_eq := by
    rw [linesAbout_cons, h.selecting_eq]
    cases e <;> rfl
  deadEnd_eq := by
    rw [linesAbout_cons, h.deadEnd_eq]
    cases e <;> rfl
  solution_eq := by
    rw [List.reverse_cons, List.filterMap_append, h.solution_eq]
    cases e with
    | solution number rows =>
      rw [hnumber number rfl, Nat.add_comm]
      exact List.range'_1_concat.symm
    | _ => exact List.append_nil _

variable {C R : Type} [Key C] [Key R]

/-! ## How far the search has come -/

/-- How far a search has come when it makes a report. -/
def Report.phase {R : Type} : Report R → Phase
  | .working | .solution _ => .searching
  | .exhausted => .finished

namespace Search

variable {p : Problem C R} {live rows : List R} {s s' : Search C R}

theorem phase_descend (s : Search C R) :
    s.descend.2.phase = s.phase ∧ s.descend.1.phase = .searching := by
  rw [Search.descend]
  split
  · exact ⟨rfl, rfl⟩
  · split <;> exact ⟨rfl, rfl⟩

theorem finish_of_ne_finished (h : s.phase ≠ .finished) :
    s.finish = { s with phase := .finished, log := .finished s.statistics :: s.log } := by
  rw [Search.finish]
  cases hs : s.phase with
  | ready => rfl
  | searching => rfl
  | finished => exact absurd hs h

theorem finish_of_finished (h : s.phase = .finished) : s.finish = s := by rw [Search.finish, h]

theorem phase_finish (s : Search C R) : s.finish.phase = .finished := by
  by_cases h : s.phase = .finished
  · rw [finish_of_finished h, h]
  · rw [finish_of_ne_finished h]

namespace Explores

theorem phase_step (hs : s.Explores p live) : s.step.2.phase = s.step.1.phase := by
  have hstep := hs.step_cases
  generalize s.step = result at hstep ⊢
  cases hstep with
  | ready => rw [(phase_descend _).1, (phase_descend _).2]
  | nil => exact phase_finish s
  | selected hphase => exact hphase
  | untried_nil hphase => exact hphase
  | untried_cons hphase =>
    rw [(phase_descend _).1, (phase_descend _).2]
    exact hphase

theorem phase_run (hp : p.table.Shows p.options p.table.keys live) {m : Nat}
    (hs : s.Explores p live) (hanswer : (s.run m).1 = some rows) :
    (s.run m).2.phase = .searching := by
  induction m generalizing s with
  | zero => cases hanswer
  | succ m ih =>
    have hphase := hs.phase_step
    have hs' := (hs.step hp).explores
    rw [Search.run] at hanswer ⊢
    generalize s.step = result at hanswer hphase hs' ⊢
    obtain ⟨report, s'⟩ := result
    cases report with
    | working => exact ih hs' hanswer
    | solution rows => exact hphase
    | exhausted => cases hanswer

/-- **The answer to a call tells how far the search has come.** -/
theorem phase_next (hp : p.table.Shows p.options p.table.keys live) (hs : s.Explores p live) :
    s.next.2.phase = (answered s.next.1).phase := by
  cases hanswer : s.next.1 with
  | none =>
    have hnext := hs.next hp
    rw [hanswer] at hnext
    cases hnext with
    | exhausted _ _ _ _ hphase => exact hphase
  | some rows => exact hs.phase_run hp hanswer

end Explores

end Search

/-! ## Frames and openings -/

/-- The openings that are matched when the selections in the frames are retracted. -/
def openIn : List (Frame C R) → List Opening
  | [] => []
  | f :: outer =>
    match f.selected with
    | none => openIn outer
    | some _ => ⟨f.searched.length + 1, f.total, (chosenIn outer).length⟩ :: openIn outer

section openIn

variable {outer : List (Frame C R)} {searched untried : List R} {σ : Selection C R}

omit [Key C]

@[simp]
theorem openIn_nil : openIn ([] : List (Frame C R)) = [] := rfl

@[simp]
theorem openIn_cons_none : openIn (⟨searched, none, untried⟩ :: outer) = openIn outer := rfl

@[simp]
theorem openIn_cons_some : openIn (⟨searched, some σ, untried⟩ :: outer) =
    ⟨searched.length + 1, searched.length + 1 + untried.length, (chosenIn outer).length⟩ ::
      openIn outer := rfl

/-- Every row selected has an opening. -/
theorem length_openIn (frames : List (Frame C R)) :
    (openIn frames).length = (chosenIn frames).length := by
  induction frames with
  | nil => rfl
  | cons f outer ih =>
    obtain ⟨searched, _ | σ, untried⟩ := f
    · rw [openIn_cons_none, chosenIn_cons_none, ih]
    · rw [openIn_cons_some, chosenIn_cons_some, List.length_cons, List.length_append, ih]
      rfl

end openIn

namespace Search

/-- **The log is a record of the search so far.** -/
structure Recorded (columns rows n : Nat) (s : Search C R) : Prop where
  /-- It shows the work. -/
  tells : Tells columns rows s.statistics s.log
  /-- It can be followed, up to the selections that are open. -/
  follow_eq : s.log.reverse.foldlM follow [] = some (openIn s.frames)
  /-- It says of so many nodes what was found there. -/
  found_eq : linesAbout .branching s.log + s.statistics.deadEnds + s.statistics.solutions = n
  /-- It does not say that the search is over as long as it is not. -/
  finished_eq : s.phase ≠ .finished → linesAbout .finished s.log = 0
  /-- In the end it does, once. -/
  exists_finished : s.phase = .finished →
    ∃ earlier, s.log = .finished s.statistics :: earlier ∧ linesAbout .finished earlier = 0

variable {p : Problem C R} {live : List R} {s s' : Search C R} {columns rows n : Nat}

theorem depth_eq (h : s.chosen = chosenIn s.frames) : s.depth = (openIn s.frames).length := by
  rw [depth, h, length_openIn]

namespace Recorded

/-- An event is added to the record. -/
theorem cons {e : Event} (h : Recorded columns rows n s) (hlog : s'.log = e :: s.log)
    (hσ : s'.statistics = e.tally s.statistics)
    (hfollow : e.follow (openIn s.frames) = some (openIn s'.frames))
    (he : e.InCourse s.statistics) (hphase : s.phase ≠ .finished)
    (hphase' : s'.phase ≠ .finished) :
    Recorded columns rows (n + e.finding) s' where
  tells := by
    rw [hlog, hσ]
    refine h.tells.cons ?_ ?_ <;> cases e <;> simp_all [InCourse, kind, solutionNumber?]
  follow_eq := by
    rw [hlog, List.reverse_cons, List.foldlM_append, h.follow_eq]
    simpa using hfollow
  found_eq := by
    rw [hlog, hσ, linesAbout_cons, ← h.found_eq]
    cases e <;> simp [kind, tally, finding] <;> omega
  finished_eq _ := by
    rw [hlog, linesAbout_cons, h.finished_eq hphase]
    cases e <;> first | rfl | exact he.elim
  exists_finished h' := absurd h' hphase'

/-- **Looking at a node says what is found there.** -/
theorem descend (h : Recorded columns rows n s) (hchosen : s.chosen = chosenIn s.frames)
    (hphase : s.phase = .searching) : Recorded columns rows (n + 1) s.descend.2 := by
  have hdepth := depth_eq hchosen
  have hnot : s.phase ≠ .finished := by rw [hphase]; decide
  rcases hnode : s.table.tightest? with _ | ⟨c, rs⟩
  · rw [descend_of_eq_none hnode]
    exact h.cons (e := .solution _ _) rfl rfl (if_pos hdepth) rfl hnot hnot
  by_cases hrs : rs.isEmpty = true
  · rw [descend_of_isEmpty hnode hrs]
    exact h.cons (e := .deadEnd _) rfl rfl (if_pos hdepth) trivial hnot hnot
  · rw [descend_of_not_isEmpty hnode hrs]
    exact h.cons (e := .branching _ _) rfl rfl (if_pos hdepth) trivial hnot hnot

/-- Saying that the search is over, unless that was said before. -/
theorem finish (h : Recorded columns rows n s) : Recorded columns rows n s.finish := by
  by_cases hphase : s.phase = .finished
  · rwa [finish_of_finished hphase]
  · rw [finish_of_ne_finished hphase]
    refine ⟨h.tells.cons (e := .finished _) nofun nofun, ?_, ?_, fun hnot ↦ absurd rfl hnot,
      fun _ ↦ ⟨s.log, rfl, h.finished_eq hphase⟩⟩
    · rw [List.reverse_cons, List.foldlM_append, h.follow_eq]
      rfl
    · rw [linesAbout_cons]
      exact h.found_eq

end Recorded

/-! ## One step -/

/-- The number of nodes that have been looked at. -/
def lookedAt (s : Search C R) : Nat :=
  if s.phase = .ready then s.statistics.nodes else s.statistics.nodes + 1

theorem lookedAt_of_searching (h : s.phase = .searching) :
    s.lookedAt = s.statistics.nodes + 1 := by
  rw [lookedAt, if_neg (by rw [h]; decide)]

/-- To look at a node is not to select a row. -/
theorem nodes_descend (s : Search C R) : s.descend.2.statistics.nodes = s.statistics.nodes := by
  rw [Search.descend]
  split
  · rfl
  · split <;> rfl

theorem lookedAt_descend (h : s.phase = .searching) :
    s.descend.2.lookedAt = s.statistics.nodes + 1 := by
  rw [lookedAt_of_searching ((phase_descend s).1.trans h), nodes_descend]

namespace Recorded

/-- **Every step keeps the record.** -/
theorem step (hs : s.Explores p live) (h : Recorded columns rows s.lookedAt s) :
    Recorded columns rows s.step.2.lookedAt s.step.2 := by
  have hstep := hs.step_cases
  generalize s.step = result at hstep ⊢
  cases hstep with
  | ready hphase =>
    have hnode : Recorded columns rows s.lookedAt { s with phase := .searching } :=
      ⟨h.tells, h.follow_eq, h.found_eq, fun _ ↦ h.finished_eq (by rw [hphase]; decide),
        by rintro ⟨⟩⟩
    rw [lookedAt, if_pos hphase] at hnode
    rw [lookedAt_descend rfl]
    exact hnode.descend hs.chosen_eq rfl
  | nil hphase hframes =>
    have hσ : s.finish.statistics = s.statistics := (hs.finish hphase hframes).2.2.2
    rw [lookedAt, if_neg hphase] at h
    rw [lookedAt, phase_finish, hσ]
    exact h.finish
  | @selected searched untried σ outer hphase hframes =>
    have hnot : s.phase ≠ .finished := by rw [hphase]; decide
    have hchosen : s.chosen.dropLast = chosenIn outer := hs.chosen_leave hframes
    refine h.cons (e := .retracted _ _ _) rfl rfl ?_ trivial hnot hnot
    rw [hframes, openIn_cons_some, hchosen]
    exact if_pos (by simp [Frame.total])
  | untried_nil hphase hframes =>
    have hfollow := h.follow_eq
    rw [hframes] at hfollow
    exact ⟨h.tells, hfollow, h.found_eq, h.finished_eq, h.exists_finished⟩
  | @untried_cons searched untried row outer hphase hframes =>
    have hnot : s.phase ≠ .finished := by rw [hphase]; decide
    have htotal : Frame.total (C := C) ⟨searched, none, row :: untried⟩ =
        searched.length + 1 + untried.length := by
      simp only [Frame.total, List.length_cons, Option.isSome_none, Bool.false_eq_true, if_false]
      omega
    have hchosen : s.chosen = chosenIn outer := by rw [hs.chosen_eq, hframes, chosenIn_cons_none]
    rw [lookedAt_of_searching hphase] at h
    rw [lookedAt_descend (by exact hphase)]
    refine Recorded.descend ?_ (hs.chosen_enter hframes) hphase
    refine h.cons (e := .selecting _ _ _) rfl rfl ?_ trivial hnot hnot
    rw [follow, if_pos (depth_eq hs.chosen_eq), enter, hframes, openIn_cons_none, openIn_cons_some,
      htotal, depth, hchosen]

/-- So does every call. -/
theorem after (hp : p.table.Shows p.options p.table.keys live) (k : Nat) (hs : s.Explores p live)
    (h : Recorded columns rows s.lookedAt s) :
    Recorded columns rows (s.after k).lookedAt (s.after k) :=
  hs.after_of_step (P := fun t ↦ Recorded columns rows t.lookedAt t) hp (fun _ ht h ↦ h.step ht) k h

end Recorded

end Search

namespace Problem

variable {p : Problem C R}

/-- A search that has been set up has logged the size of its problem, and nothing else. -/
theorem recorded_solve (p : Problem C R) :
    Search.Recorded p.columnCount p.rowCount p.solve.lookedAt p.solve where
  tells := ⟨rfl, by simp [solve, kind], by simp [solve, kind], by simp [solve, kind], rfl⟩
  follow_eq := rfl
  found_eq := by simp [solve, kind, Search.lookedAt]
  finished_eq _ := by simp [solve, kind]
  exists_finished := nofun

/-- The search is over when a call has answered nothing, and not before. -/
theorem Built.phase_after (hp : p.Built) (k : Nat) :
    (p.solve.after k).phase = .finished ↔ ∃ j < k, (p.solve.after j).next.1 = none := by
  cases k with
  | zero => exact iff_of_false nofun (by simp)
  | succ k =>
    rw [Search.after_succ, (hp.explores_after k).phase_next hp.consistent.shows]
    constructor
    · intro hphase
      refine ⟨k, Nat.lt_succ_self k, ?_⟩
      cases hanswer : (p.solve.after k).next.1 with
      | none => rfl
      | some rows => rw [hanswer] at hphase; cases hphase
    · rintro ⟨j, hj, hanswer⟩
      have hlast : (p.solve.after k).next.1 = none := by
        rw [hp.answer_after, List.getElem?_eq_none_iff] at hanswer ⊢
        omega
      rw [hlast]
      rfl

/-- After a call the root has been looked at, and every node that was selected. -/
theorem Built.lookedAt_after (hp : p.Built) (k : Nat) :
    (p.solve.after (k + 1)).lookedAt = (p.solve.after (k + 1)).statistics.nodes + 1 := by
  have hready : (p.solve.after (k + 1)).phase ≠ .ready := by
    rw [Search.after_succ, (hp.explores_after k).phase_next hp.consistent.shows]
    cases (p.solve.after k).next.1 <;> nofun
  rw [Search.lookedAt, if_neg hready]

/-- After a call the rows of the solution answered have openings, and there are no others. -/
theorem Built.openIn_after (hp : p.Built) (k : Nat) :
    (∀ rows, (p.solve.after k).next.1 = some rows →
      (openIn (p.solve.after (k + 1)).frames).length = rows.length) ∧
    ((p.solve.after k).next.1 = none → openIn (p.solve.after (k + 1)).frames = []) := by
  have hshows := hp.consistent.shows
  rw [Search.after_succ]
  refine ⟨fun rows hanswer ↦ ?_, fun hanswer ↦ ?_⟩
  · have hsolution := (hp.explores_after k).atSolution_next hshows hanswer
    have hafter := ((hp.explores_after k).next_ahead hshows).1
    rw [length_openIn, ← hafter.chosen_eq, hsolution.chosen_eq]
  · have hrest := (hp.explores_after k).atRest_next hshows hanswer
    rw [hrest.frames_eq, openIn_nil]

/-- **The log is a faithful record of the search**, however often the search has been called.  Its
first line, and no other, gives the size of the problem; the lines about selections and dead ends
are as many as the counters say, and those about solutions are numbered one after another.  Once the
search has been called, every node that was looked at, and these are the root and those that were
selected, has a line about what was found there.

The log can be followed: each retraction repeats the numbers of the latest selection that has not
been retracted, and a depth is always the number of such selections.  After a call these are as many
as the rows of the solution answered; if there is none, there are no such selections.

As long as all calls have answered a solution no line says that the search is over.  From the first
call that does not, this is what the last line says, with the work done by then, and it is said only
once.

All this can be read off the lines, since no other events have the same lines. -/
theorem Built.log_after (hp : p.Built) (k : Nat) :
    let s := p.solve.after k
    Tells p.columnCount p.rowCount s.statistics s.log ∧
      (0 < k → s.statistics.nodes + 1 =
        linesAbout .branching s.log + s.statistics.deadEnds + s.statistics.solutions) ∧
      (∃ opened, s.log.reverse.foldlM follow [] = some opened ∧ (k = 0 → opened = []) ∧
        ∀ j, k = j + 1 →
          (∀ rows, (p.solve.after j).next.1 = some rows → opened.length = rows.length) ∧
          ((p.solve.after j).next.1 = none → opened = [])) ∧
      ((∀ j < k, (p.solve.after j).next.1 ≠ none) → linesAbout .finished s.log = 0) ∧
      (∀ j < k, (p.solve.after j).next.1 = none →
        ∃ earlier, s.log = .finished s.statistics :: earlier ∧ linesAbout .finished earlier = 0) ∧
      ∀ log', log'.map line = s.log.map line → log' = s.log := by
  intro s
  have h : Search.Recorded p.columnCount p.rowCount s.lookedAt s :=
    p.recorded_solve.after hp.consistent.shows k (p.explores_solve _)
  refine ⟨h.tells, fun hk ↦ ?_, ⟨_, h.follow_eq, ?_, ?_⟩, fun hnone ↦ ?_, fun j hj hnone ↦ ?_,
    fun log' hlog ↦ ?_⟩
  · obtain ⟨j, rfl⟩ := Nat.exists_eq_succ_of_ne_zero hk.ne'
    exact (h.found_eq.trans (hp.lookedAt_after j)).symm
  · rintro rfl
    rfl
  · rintro j rfl
    exact hp.openIn_after j
  · refine h.finished_eq fun hphase ↦ ?_
    obtain ⟨j, hj, hanswer⟩ := (hp.phase_after k).1 hphase
    exact hnone j hj hanswer
  · exact h.exists_finished ((hp.phase_after k).2 ⟨j, hj, hnone⟩)
  · exact (List.map_inj_right line_injective).1 hlog

/-- After two calls the search of the triangle has found its only solution and is over.  It has met
one dead end, so it has branched twice, and the last line gives these numbers. -/
theorem log_after_triangle : triangle.Built ∧ (triangle.solve.after 1).next.1 = none ∧
    (triangle.solve.after 2).statistics = ⟨3, 1, 1⟩ ∧
    linesAbout .branching (triangle.solve.after 2).log = 2 ∧
    ∃ earlier, (triangle.solve.after 2).log = .finished ⟨3, 1, 1⟩ :: earlier ∧
      linesAbout .finished earlier = 0 := by
  have hanswer : (triangle.solve.after 1).next.1 = none := by decide +kernel
  have hwork : (triangle.solve.after 2).statistics = ⟨3, 1, 1⟩ := by decide +kernel
  obtain ⟨-, hfound, -, -, hfinished, -⟩ := Built.log_after triangle_built 2
  have hsum := hfound (by decide)
  have hlast := hfinished 1 (by decide) hanswer
  rw [hwork] at hsum hlast
  refine ⟨triangle_built, hanswer, hwork, ?_, hlast⟩
  dsimp only at hsum
  omega

end Problem

end ExactCover
