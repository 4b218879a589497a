import ExactCover.CommandLine.Answer
import ExactCover.Proofs.Board.Drawing
import ExactCover.Proofs.CommandLine.Requests
import Mathlib.Tactic.Choose

/-!
# What the command prints

For a date there is one list of solutions, those that the search finds, and one list of drawings.
Nothing on the way to them can fail: the tray can be set up (`Tray.setUp_eq`), its problem can be
put together, and every solution can be drawn, so the printing is never cut short
(`CommandLine.printDrawings_eq`).  The two kinds of answers are read off these lists.  Asked for the
number of solutions, the command prints how long they are; otherwise it prints as many drawings from
the front as the limit allows (`CommandLine.Request.outcome_eq`).  So a larger limit only adds to the
end of what is printed (`CommandLine.printed_prefix`).
-/

set_option autoImplicit false

namespace ExactCover

/-! ## Setting up the tray -/

namespace Tray

/-- **No cell lies off the board.** -/
theorem setUp_eq (m : Month) (d : Day) : setUp m d = .ok (board m d) := by
  have hbare : (do
      let empty ← Board.ofSize (.ofNat size) (.ofNat size)
      walls.foldlM Board.addWall empty) = .ok bare := rfl
  have hmonth : bare.addMark m.cell = .ok (bare.insertMark m.cell (contains_monthCell m)) :=
    dif_pos (contains_monthCell m)
  have hday : (bare.insertMark m.cell (contains_monthCell m)).addMark d.cell = .ok (board m d) :=
    dif_pos (contains_dayCell d m)
  calc setUp m d = (Except.ok bare : Except BoardError Board) >>= fun bare ↦
        bare.addMark m.cell >>= fun b ↦ b.addMark d.cell := by rw [← hbare]; rfl
    _ = bare.addMark m.cell >>= fun b ↦ b.addMark d.cell := rfl
    _ = .ok (board m d) := by rw [hmonth]; exact hday

end Tray

/-- Joining more lists only adds to the end. -/
theorem intercalate_prefix {α : Type} {sep : List α} {ls ls' : List (List α)} (h : ls <+: ls') :
    sep.intercalate ls <+: sep.intercalate ls' := by
  induction ls generalizing ls' with
  | nil => exact List.nil_prefix
  | cons l ls ih =>
    obtain ⟨rest, rfl⟩ := h
    rw [List.cons_append]
    cases ls with
    | nil =>
      rw [List.intercalate_singleton]
      cases rest with
      | nil => rw [List.nil_append, List.intercalate_singleton]
      | cons l' rest =>
        rw [List.nil_append, List.intercalate_cons_cons, List.append_assoc]
        exact List.prefix_append _ _
    | cons l' ls =>
      rw [List.cons_append, List.intercalate_cons_cons, List.intercalate_cons_cons,
        List.prefix_append_right_inj]
      exact ih (List.prefix_append _ _)

namespace CommandLine

/-! ## Drawings -/

/-- Drawings as they are printed: each ends its last line, and an empty line stands between two. -/
def printed (drawings : List Tiling) : String :=
  "\n".intercalate (drawings.map fun t ↦ t.text ++ "\n")

/-- **More drawings only add to the end.** -/
theorem printed_prefix {drawings drawings' : List Tiling} (h : drawings <+: drawings') :
    (printed drawings).toList <+: (printed drawings').toList := by
  rw [printed, printed, String.toList_intercalate, String.toList_intercalate]
  exact intercalate_prefix ((h.map _).map _)

/-! ## Printing -/

/-- What separates the first list from those that follow stands before the latter. -/
theorem intercalate_cons (s text : String) (texts : List String) :
    s.intercalate (text :: texts) = text ++ s.intercalate ("" :: texts) := by
  cases texts with
  | nil => rw [String.intercalate_singleton, String.intercalate_singleton, String.append_empty]
  | cons text' texts =>
    rw [String.intercalate_cons_cons, String.intercalate_cons_cons, String.empty_append,
      String.append_assoc]

variable {b : Board} {p : Problem Requirement Placement} {drawn : List Placement → Tiling}

/-- **What is printed of the next solutions**, if all of them can be drawn: the printing goes as
far as the search does. -/
theorem printDrawings_eq (n before : Nat) (s : Search Requirement Placement)
    (hdrawn : ∀ rows ∈ (s.take n).1, b.tiling Tray.pieces rows = .ok (drawn rows)) :
    printDrawings b n before s = ⟨"\n".intercalate ((if 0 < before then [""] else []) ++
      (s.take n).1.map fun rows ↦ (drawn rows).text ++ "\n"), none, (s.take n).2⟩ := by
  have hgap (before : Nat) : "\n".intercalate (if 0 < before then [""] else []) = "" := by
    split
    · exact String.intercalate_singleton
    · exact String.intercalate_nil
  induction n generalizing before s with
  | zero =>
    rw [Search.take, List.map_nil, List.append_nil, hgap]
    rfl
  | succ n ih =>
    rw [printDrawings]
    rw [Search.take] at hdrawn ⊢
    generalize s.next = result at hdrawn ⊢
    obtain ⟨answer, s'⟩ := result
    cases answer with
    | none => rw [List.map_nil, List.append_nil, hgap]
    | some rows =>
      have hlater := ih (before + 1) s' fun rows' hrows' ↦
        hdrawn rows' (List.mem_cons_of_mem rows hrows')
      dsimp only
      rw [hdrawn rows List.mem_cons_self]
      dsimp only
      rw [hlater, if_pos (Nat.succ_pos before), List.map_cons]
      refine congrArg (Printing.mk · none _) ?_
      split
      · rw [String.append_assoc, List.singleton_append, ← intercalate_cons, List.singleton_append,
          String.intercalate_cons_cons, String.empty_append]
      · rw [String.empty_append, List.singleton_append, ← intercalate_cons, List.nil_append]

/-! ## The outcome of a request -/

namespace Request

variable {r : Request}

/-- **The outcome of a request**, given the drawings of all solutions. -/
theorem outcome_eq (hp : (Tray.board r.month r.day).problem Tray.pieces = .ok p) (hbuilt : p.Built)
    (hdrawn : ∀ rows ∈ p.solutions,
      (Tray.board r.month r.day).tiling Tray.pieces rows = .ok (drawn rows)) :
    r.outcome.code = 0 ∧ r.outcome.output =
      if r.countOnly then p.solutions.length.repr ++ "\n"
      else printed ((p.solutions.take r.limit).map drawn) := by
  rw [outcome, Tray.setUp_eq]
  dsimp only
  rw [hp]
  dsimp only
  cases r.countOnly with
  | true =>
    rw [if_pos rfl, if_pos rfl, ← hbuilt.countSolutions_fst]
    exact ⟨rfl, rfl⟩
  | false =>
    have htake : (p.solve.take r.limit).1 = p.solutions.take r.limit :=
      ((p.explores_solve p.options.keys).take hbuilt.consistent.shows r.limit).2.1
    have hprinting := printDrawings_eq r.limit 0 p.solve fun rows hrows ↦
      hdrawn rows (List.mem_of_mem_take (htake ▸ hrows))
    rw [if_neg Bool.false_ne_true, if_neg Bool.false_ne_true, hprinting, htake, printed,
      List.map_map]
    exact ⟨rfl, rfl⟩

end Request

/-- **The command answers every request**, and its two kinds of answers agree.  For a date, the tray
can be set up and its problem can be put together; a search of it answers the members of a list one
after another, which are as many as there are tilings, and each of them can be drawn.  Asked for
their number, the command prints it; otherwise it prints the drawings of the first of them, as many
as the limit allows.  The exit code is 0.  What is printed for a smaller limit is the beginning of
what is printed for a larger one.

It does not matter how the request is read from the arguments.  With the reading described in
`ExactCover.CommandLine.Arguments`, all limits below the bound can be asked for. -/
theorem runWith_of_date (m : Month) (d : Day) : Tray.setUp m d = .ok (Tray.board m d) ∧
    ∃ p, (Tray.board m d).problem Tray.pieces = .ok p ∧
    ∃ (solutions : List (List Placement)) (drawn : List Placement → Tiling),
      (∀ k, (p.solve.after k).next.1 = solutions[k]?) ∧
      solutions.length = {f | (Tray.board m d).IsTiling Tray.pieces f}.ncard ∧
      (∀ rows ∈ solutions, (Tray.board m d).tiling Tray.pieces rows = .ok (drawn rows)) ∧
      (∀ (read : List String → Except Stop Request) args r, read args = .ok r →
        r.month = m → r.day = d →
        (runWith read args).code = 0 ∧ (runWith read args).output =
          if r.countOnly then solutions.length.repr ++ "\n"
          else printed ((solutions.take r.limit).map drawn)) ∧
      (∀ limit countOnly verbosity, limit < Arguments.limitBound →
        ∃ args, Request.ofArguments args = .ok ⟨m, d, limit, countOnly, verbosity⟩) ∧
      ∀ (read : List String → Except Stop Request) args args' r r',
        read args = .ok r → read args' = .ok r' →
        r.month = m → r.day = d → r'.month = m → r'.day = d → r.countOnly = false →
        r'.countOnly = false → r.limit ≤ r'.limit →
        (runWith read args).output.toList <+: (runWith read args').output.toList := by
  obtain ⟨p, hp, h⟩ := (Tray.board m d).exists_problem Tray.pieces
  have : Nonempty Tiling := ⟨(Tray.board m d).blank⟩
  have hdrawings (rows : List Placement) (hrows : rows ∈ p.solutions) :
      ∃ t, (Tray.board m d).tiling Tray.pieces rows = .ok t :=
    (h.exists_tiling hrows (.refl rows)).2.imp fun _ ht ↦ ht.1
  choose! drawn hdrawn using hdrawings
  have houtcome (read : List String → Except Stop Request) (args : List String) (r : Request)
      (hargs : read args = .ok r) (hm : r.month = m) (hd : r.day = d) :
      (runWith read args).code = 0 ∧ (runWith read args).output =
        if r.countOnly then p.solutions.length.repr ++ "\n"
        else printed ((p.solutions.take r.limit).map drawn) := by
    subst hm hd
    rw [runWith, hargs]
    exact Request.outcome_eq hp h.built hdrawn
  refine ⟨Tray.setUp_eq m d, p, hp, p.solutions, drawn, h.built.answer_after, h.length_solutions,
    hdrawn, houtcome, fun limit countOnly verbosity hlimit ↦ ?_, ?_⟩
  · exact ⟨_, Request.ofArguments_arguments hlimit⟩
  · intro read args args' r r' hargs hargs' hm hd hm' hd' hcount hcount' hle
    rw [(houtcome read args r hargs hm hd).2, (houtcome read args' r' hargs' hm' hd').2, hcount,
      hcount']
    exact printed_prefix ((List.take_isPrefix_take.2 (.inl hle)).map drawn)

/-- The sixteenth of October, asked for in different ways. -/
theorem runWith_of_date_october :
    (run ["oct", "16", "-l3"]).code = 0 ∧ (run ["oct", "16", "--limit", "0"]).output = "" ∧
      (run ["--count", "--limit=0", "Oct", "16"]).output =
        (run ["october", "+16", "-c"]).output ∧
      (run ["oct", "16", "-l3"]).output.toList <+:
        (run ["--limit=5", "October", "16"]).output.toList := by
  let d : Day := ⟨16, by decide, by decide⟩
  have h3 : Request.ofArguments ["oct", "16", "-l3"] = .ok ⟨.october, d, 3, false, 0⟩ := rfl
  have h5 : Request.ofArguments ["--limit=5", "October", "16"] =
      .ok ⟨.october, d, 5, false, 0⟩ := rfl
  have h0 : Request.ofArguments ["oct", "16", "--limit", "0"] =
      .ok ⟨.october, d, 0, false, 0⟩ := rfl
  have hcount0 : Request.ofArguments ["--count", "--limit=0", "Oct", "16"] =
      .ok ⟨.october, d, 0, true, 0⟩ := rfl
  have hcount : Request.ofArguments ["october", "+16", "-c"] =
      .ok ⟨.october, d, 1, true, 0⟩ := rfl
  obtain ⟨-, p, -, solutions, drawn, -, -, -, hrun, -, hprefix⟩ := runWith_of_date .october d
  simp only [run]
  refine ⟨(hrun _ _ _ h3 rfl rfl).1, ?_, ?_,
    hprefix _ _ _ _ _ h3 h5 rfl rfl rfl rfl rfl rfl (by decide)⟩
  · rw [(hrun _ _ _ h0 rfl rfl).2]
    rfl
  · rw [(hrun _ _ _ hcount0 rfl rfl).2, (hrun _ _ _ hcount rfl rfl).2]
    rfl

end CommandLine

end ExactCover
