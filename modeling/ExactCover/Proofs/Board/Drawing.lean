import ExactCover.Board.Tiling
import ExactCover.Proofs.Board.Tilings
import ExactCover.Proofs.Search.Uses

/-!
# Drawing a solution

A placement is drawn cell by cell, and each cell is first looked at on the drawing as it is then.
Where placements are listed by `Board.placements` and do not overlap, all of these looks find the
cell blank: it is free, so nothing was drawn on it at the start, and neither the other placements
nor the cells drawn before it cover it.  So no such list of placements is refused, in whatever order
it is given, and the drawing depicts it (`Board.Depicts`): a cell that is covered shows the name of
the piece that covers it, and any other shows what it showed on the blank board.

The placements of a solution tile the board, so nothing of it stays blank (`Board.tiling_solution`).
That a name may be one of the characters which stand for walls, marks and blank cells does not
matter to any of this.
-/

set_option autoImplicit false

namespace ExactCover

/-! ## Drawing on cells -/

namespace Tiling

variable {t : Tiling} {c d : Cell} {cs : List Cell} {name : Char}

/-- Draws the same character on several cells. -/
def drawAll (t : Tiling) (cs : List Cell) (name : Char) : Tiling :=
  cs.foldl (fun t c ↦ t.draw c name) t

theorem charAt_draw : (t.draw c name).charAt d = if d = c then name else t.charAt d := by
  show (t.drawn.insert c name).getD d blank = _
  rw [Std.ExtTreeMap.getD_insert, charAt]
  simp only [Key.compare_eq_iff, eq_comm (a := d)]

theorem charAt_drawAll :
    (t.drawAll cs name).charAt d = if d ∈ cs then name else t.charAt d := by
  induction cs generalizing t with
  | nil => simp [drawAll]
  | cons c cs ih =>
    show ((t.draw c name).drawAll cs name).charAt d = _
    rw [ih, charAt_draw]
    by_cases hd : d ∈ cs <;> simp [hd]

@[simp]
theorem width_drawAll : (t.drawAll cs name).width = t.width := by
  induction cs generalizing t with
  | nil => rfl
  | cons c cs ih => exact ih

@[simp]
theorem height_drawAll : (t.drawAll cs name).height = t.height := by
  induction cs generalizing t with
  | nil => rfl
  | cons c cs ih => exact ih

end Tiling

/-- The placements have no cell in common. -/
def Placement.Apart (pieces : List Piece) (q r : Placement) : Prop :=
  ∀ c ∈ q.footprint pieces, c ∉ r.footprint pieces

variable {b : Board} {pieces : List Piece} {r : Placement} {ps qs : List Placement} {t : Tiling}
  {c : Cell}

namespace Board

theorem blank_eq (b : Board) : b.blank =
    ((⟨b.width, b.height, ∅⟩ : Tiling).drawAll b.walls.toList '#').drawAll b.marks.toList '*' :=
  rfl

@[simp]
theorem width_blank (b : Board) : b.blank.width = b.width := by simp [blank_eq]

@[simp]
theorem height_blank (b : Board) : b.blank.height = b.height := by simp [blank_eq]

/-- **What the blank board shows.** -/
theorem charAt_blank (b : Board) (c : Cell) : b.blank.charAt c =
    if c ∈ b.marks then '*' else if c ∈ b.walls then '#' else Tiling.blank := by
  rw [blank_eq, Tiling.charAt_drawAll, Tiling.charAt_drawAll]
  simp [Tiling.charAt]

/-- Nothing is drawn on the free cells of the blank board. -/
theorem charAt_blank_of_isFree (hfree : b.isFree c = true) : b.blank.charAt c = Tiling.blank := by
  obtain ⟨-, hwall, hmark⟩ := isFree_iff.1 hfree
  rw [charAt_blank, if_neg hmark, if_neg hwall]

/-! ## Drawing one placement -/

/-- A cell that is free and blank can be drawn. -/
theorem layCell_eq {name : Char} {d : Cell} (hfree : b.isFree (r.corner.shift d) = true)
    (hblank : t.charAt (r.corner.shift d) = Tiling.blank) :
    b.layCell r name t d = .ok (t.draw (r.corner.shift d) name) := by
  rw [layCell, cellAt_eq_of_isFree hfree]
  show (if _ then _ else _) = _
  rw [if_pos (by simp [hfree, hblank])]

theorem foldlM_layCell {name : Char} {ds : List Cell} (hnodup : (ds.map r.corner.shift).Nodup)
    (hfree : ∀ d ∈ ds, b.isFree (r.corner.shift d) = true)
    (hblank : ∀ d ∈ ds, t.charAt (r.corner.shift d) = Tiling.blank) :
    ds.foldlM (b.layCell r name) t = .ok (t.drawAll (ds.map r.corner.shift) name) := by
  induction ds generalizing t with
  | nil => rfl
  | cons d ds ih =>
    rw [List.map_cons, List.nodup_cons] at hnodup
    rw [List.forall_mem_cons] at hfree hblank
    rw [List.foldlM_cons, layCell_eq hfree.1 hblank.1]
    refine ih hnodup.2 hfree.2 fun e he ↦ ?_
    -- The cell drawn first is not drawn again.
    have hne : r.corner.shift e ≠ r.corner.shift d := fun h ↦
      hnodup.1 (h ▸ List.mem_map_of_mem he)
    rw [Tiling.charAt_draw, if_neg hne]
    exact hblank.2 e he

/-- **A placement on blank cells is drawn, and changes its own cells only.** -/
theorem lay_eq {piece : Piece} (hr : r ∈ b.placements pieces)
    (hpiece : pieces[r.piece]? = some piece)
    (hblank : ∀ c ∈ r.footprint pieces, t.charAt c = Tiling.blank) :
    b.lay pieces t r = .ok (t.drawAll (r.footprint pieces) piece.name) := by
  have hfree (c : Cell) (hc : c ∈ r.footprint pieces) := isFree_of_mem_footprint hr hc
  have hnodup := r.nodup_footprint pieces
  obtain ⟨piece', shape, hlaid, -⟩ := mem_placements_iff.1 hr
  obtain rfl : piece = piece' :=
    Option.some_inj.1 (hpiece.symm.trans (Placement.laid?_eq_some_iff.1 hlaid).1)
  rw [Placement.footprint_eq hlaid] at hfree hnodup hblank ⊢
  rw [lay, hlaid]
  exact foldlM_layCell hnodup (fun d hd ↦ hfree _ (List.mem_map_of_mem hd))
    fun d hd ↦ hblank _ (List.mem_map_of_mem hd)

/-! ## Drawing several placements -/

/-- **The drawing shows the placements** on the board, and nothing else. -/
structure Depicts (b : Board) (pieces : List Piece) (ps : List Placement) (t : Tiling) :
    Prop where
  /-- It is as wide as the board. -/
  width_eq : t.width = b.width
  /-- It is as high as the board. -/
  height_eq : t.height = b.height
  /-- A cell that is covered shows the name of the piece. -/
  covered : ∀ r ∈ ps, ∀ c ∈ r.footprint pieces, ∀ piece, pieces[r.piece]? = some piece →
    t.charAt c = piece.name
  /-- A cell that is not covered shows what the blank board shows. -/
  uncovered : ∀ c, (∀ r ∈ ps, c ∉ r.footprint pieces) → t.charAt c = b.blank.charAt c

theorem depicts_blank (b : Board) (pieces : List Piece) : b.Depicts pieces [] b.blank where
  width_eq := b.width_blank
  height_eq := b.height_blank
  covered := nofun
  uncovered _ _ := rfl

namespace Depicts

/-- **One more placement can be drawn** if it overlaps none of those that are. -/
theorem lay (h : b.Depicts pieces qs t) (hr : r ∈ b.placements pieces)
    (hapart : ∀ q ∈ qs, q.Apart pieces r) :
    ∃ t', b.lay pieces t r = .ok t' ∧ b.Depicts pieces (qs ++ [r]) t' := by
  obtain ⟨piece, hpiece⟩ : ∃ piece, pieces[r.piece]? = some piece :=
    ⟨_, List.getElem?_eq_getElem (piece_lt_of_mem_placements hr)⟩
  have hblank : ∀ c ∈ r.footprint pieces, t.charAt c = Tiling.blank := by
    intro c hc
    rw [h.uncovered c fun q hq hcq ↦ hapart q hq c hcq hc]
    exact charAt_blank_of_isFree (isFree_of_mem_footprint hr hc)
  refine ⟨_, lay_eq hr hpiece hblank, by simpa using h.width_eq, by simpa using h.height_eq, ?_, ?_⟩
  · intro q hq c hc piece' hpiece'
    rw [Tiling.charAt_drawAll]
    rcases List.mem_append.1 hq with hq | hq
    · rw [if_neg (hapart q hq c hc)]
      exact h.covered q hq c hc piece' hpiece'
    · obtain rfl := List.mem_singleton.1 hq
      rw [if_pos hc, Option.some_inj.1 (hpiece.symm.trans hpiece')]
  · intro c hc
    rw [Tiling.charAt_drawAll, if_neg (hc r (by simp))]
    exact h.uncovered c fun q hq ↦ hc q (List.mem_append_left _ hq)

/-- **Placements that do not overlap can be drawn one after another.** -/
theorem foldlM_lay (h : b.Depicts pieces qs t) (hps : ∀ r ∈ ps, r ∈ b.placements pieces)
    (hapart : (qs ++ ps).Pairwise (Placement.Apart pieces)) :
    ∃ t', ps.foldlM (b.lay pieces) t = .ok t' ∧ b.Depicts pieces (qs ++ ps) t' := by
  induction ps generalizing qs t with
  | nil => exact ⟨t, rfl, by simpa using h⟩
  | cons r ps ih =>
    rw [List.forall_mem_cons] at hps
    have hr : ∀ q ∈ qs, q.Apart pieces r := fun q hq ↦
      (List.pairwise_append.1 hapart).2.2 q hq r List.mem_cons_self
    obtain ⟨t₁, ht₁, h₁⟩ := h.lay hps.1 hr
    rw [List.append_cons] at hapart ⊢
    rw [List.foldlM_cons, ht₁]
    exact ih h₁ hps.2 hapart

end Depicts

/-! ## Drawing a solution -/

namespace TiledBy

/-- Where every free cell is covered once, the placements do not overlap. -/
theorem pairwise_apart (h : b.TiledBy pieces {r | r ∈ ps}) (hnodup : ps.Nodup) :
    ps.Pairwise (Placement.Apart pieces) := by
  refine hnodup.imp_of_mem ?_
  intro q r hq hr hne c hcq hcr
  have hfree := isFree_of_mem_footprint (h.mem_placements q hq) hcq
  exact hne ((h.cell c hfree).unique ⟨hq, hcq⟩ ⟨hr, hcr⟩)

/-- **Placements that tile the board can be drawn**, and the drawing shows them. -/
theorem exists_tiling (h : b.TiledBy pieces {r | r ∈ ps}) (hnodup : ps.Nodup) :
    ∃ t, b.tiling pieces ps = .ok t ∧ b.Depicts pieces ps t :=
  (b.depicts_blank pieces).foldlM_lay h.mem_placements (h.pairwise_apart hnodup)

end TiledBy

/-- **The placements of a solution tile the board and can be drawn**, in any order. -/
theorem Poses.exists_tiling {p : Problem Requirement Placement} {rows : List Placement}
    (h : b.Poses pieces p) (hrows : rows ∈ p.solutions) (hperm : ps.Perm rows) :
    b.TiledBy pieces {r | r ∈ ps} ∧ ∃ t, b.tiling pieces ps = .ok t ∧ b.Depicts pieces ps t := by
  have hsame : {r | r ∈ ps} = {r | r ∈ rows} := Set.ext fun _ ↦ hperm.mem_iff
  have htiled : b.TiledBy pieces {r | r ∈ ps} := hsame ▸ h.tiledBy hrows
  have hnodup : ps.Nodup := hperm.nodup_iff.2 (h.built.consistent.mem_solutions hrows).1
  exact ⟨htiled, htiled.exists_tiling hnodup⟩

namespace Depicts

/-- Cells that are not free show what they are. -/
theorem charAt_eq_of_not_isFree (h : b.Depicts pieces ps t)
    (hps : ∀ r ∈ ps, r ∈ b.placements pieces) (hfree : ¬b.isFree c = true) :
    t.charAt c = b.blank.charAt c :=
  h.uncovered c fun r hr hc ↦ hfree (isFree_of_mem_footprint (hps r hr) hc)

theorem charAt_eq_of_mem_marks (h : b.Depicts pieces ps t)
    (hps : ∀ r ∈ ps, r ∈ b.placements pieces) (hc : c ∈ b.marks) : t.charAt c = '*' := by
  have hfree : ¬b.isFree c = true := fun hf ↦ (isFree_iff.1 hf).2.2 hc
  rw [h.charAt_eq_of_not_isFree hps hfree, charAt_blank, if_pos hc]

theorem charAt_eq_of_mem_walls (h : b.Depicts pieces ps t)
    (hps : ∀ r ∈ ps, r ∈ b.placements pieces) (hc : c ∈ b.walls) (hmark : c ∉ b.marks) :
    t.charAt c = '#' := by
  have hfree : ¬b.isFree c = true := fun hf ↦ (isFree_iff.1 hf).2.1 hc
  rw [h.charAt_eq_of_not_isFree hps hfree, charAt_blank, if_neg hmark, if_pos hc]

/-- The cells given to a piece show its name. -/
theorem charAt_eq_of_mem_regions (h : b.Depicts pieces ps t)
    (htiled : b.TiledBy pieces {r | r ∈ ps}) {i : Fin pieces.length}
    (hc : c ∈ Placement.regions pieces {r | r ∈ ps} i) : t.charAt c = (pieces.get i).name := by
  obtain ⟨r, ⟨hr, hi⟩, -⟩ := htiled.piece i i.isLt
  rw [htiled.regions_eq hr hi] at hc
  refine h.covered r hr c hc _ ?_
  rw [hi]
  exact List.getElem?_eq_getElem i.isLt

end Depicts

/-- **Every solution can be drawn, and nothing of the board stays blank.**  Take any answer that a
search for tilings gives, even if the problem was used before, and its placements in any order.
Drawing them does not fail.  The drawing has the size of the board; it shows the marks and the other
walls for what they are, and on every free cell the name of the one piece to which the solution
gives this cell.  Each piece has one placement, and the free cells given to it are as many as its
shape has. -/
theorem tiling_solution (b : Board) (pieces : List Piece) :
    ∃ p, b.problem pieces = .ok p ∧
      ∀ us k rows, ((p.useAll us).2.solve.after k).next.1 = some rows → ∀ ps, ps.Perm rows →
        ∃ t, b.tiling pieces ps = .ok t ∧ t.width = b.width ∧ t.height = b.height ∧
          (∀ c ∈ b.marks, t.charAt c = '*') ∧ (∀ c ∈ b.walls, c ∉ b.marks → t.charAt c = '#') ∧
          (∀ c, b.isFree c = true → ∃ i, c ∈ Placement.regions pieces {r | r ∈ rows} i ∧
            (∀ j, c ∈ Placement.regions pieces {r | r ∈ rows} j → j = i) ∧
            t.charAt c = (pieces.get i).name) ∧
          ∀ i : Fin pieces.length, (∃! r, r ∈ rows ∧ r.piece = i) ∧
            {c | b.isFree c = true ∧ c ∈ Placement.regions pieces {r | r ∈ rows} i}.ncard =
              (pieces.get i).shape.area := by
  obtain ⟨p, hp, h⟩ := b.exists_problem pieces
  refine ⟨p, hp, fun us k rows hanswer ps hperm ↦ ?_⟩
  rw [h.built.useAll_snd, h.built.answer_after] at hanswer
  have hrows := List.mem_of_getElem? hanswer
  have hsame : {r | r ∈ ps} = {r | r ∈ rows} := Set.ext fun _ ↦ hperm.mem_iff
  obtain ⟨htiled, t, ht, hdepicts⟩ := h.exists_tiling hrows hperm
  have hps := htiled.mem_placements
  have hfull := htiled.isTiling
  refine ⟨t, ht, hdepicts.width_eq, hdepicts.height_eq,
    fun c ↦ hdepicts.charAt_eq_of_mem_marks hps, fun c ↦ hdepicts.charAt_eq_of_mem_walls hps,
    fun c hfree ↦ ?_, fun i ↦ ⟨(h.tiledBy hrows).piece i i.isLt, ?_⟩⟩
  · rw [← hsame]
    obtain ⟨i, hc⟩ := Set.mem_iUnion.1 (hfull.iUnion_eq.superset hfree)
    refine ⟨i, hc, fun j hcj ↦ ?_, hdepicts.charAt_eq_of_mem_regions htiled hc⟩
    by_contra hne
    exact hfull.disjoint j i hne c hcj hc
  · rw [← hsame]
    refine Eq.trans (congrArg Set.ncard ?_) (hfull.isCopy i).ncard_eq
    exact Set.ext fun c ↦ and_iff_right_of_imp hfull.isFree

/-- A row of six cells, with a wall at its left end and a mark at its right end. -/
def strip : Board :=
  let row : Board :=
    { width := 6
      height := 1
      walls := ∅
      marks := ∅
      width_pos := by decide
      height_pos := by decide
      width_lt := by decide
      height_lt := by decide
      inside_of_mem_walls := by simp
      inside_of_mem_marks := by simp }
  (row.insertWall ⟨0, 0⟩ (by decide)).insertMark ⟨5, 0⟩ (by decide)

end Board

/-- The piece of two cells. -/
def Piece.domino (name : Char) : Piece :=
  .ofShape name (.normalize [⟨0, 0⟩, ⟨1, 0⟩] (by simp) (by decide))

namespace Board

/-- Two dominoes on the strip are drawn, also if the second is drawn first and both are called like
a blank cell. -/
theorem tiling_solution_strip :
    ∃ t, strip.tiling [.domino '.', .domino '.'] [⟨1, 1, 3, 0⟩, ⟨0, 1, 1, 0⟩] = .ok t ∧
      t.charAt ⟨5, 0⟩ = '*' ∧ t.charAt ⟨0, 0⟩ = '#' ∧ t.charAt ⟨1, 0⟩ = '.' := by
  obtain ⟨p, hp, hdrawn⟩ := tiling_solution strip [.domino '.', .domino '.']
  have hanswer : (strip.problem [.domino '.', .domino '.']).map (fun p ↦
      ((p.useAll [.first]).2.solve.after 0).next.1) =
        .ok (some [⟨0, 1, 1, 0⟩, ⟨1, 1, 3, 0⟩]) := by
    decide +kernel
  rw [hp] at hanswer
  obtain ⟨t, ht, -, -, hmark, hwall, hfree, -⟩ :=
    hdrawn _ _ _ (Except.ok.inj hanswer) _ (List.reverse_perm _)
  obtain ⟨i, -, -, hname⟩ := hfree ⟨1, 0⟩ (by decide)
  have hcalled : ∀ i : Fin 2, ([Piece.domino '.', .domino '.'].get i).name = '.' := by decide
  exact ⟨t, ht, hmark _ (by decide), hwall _ (by decide) (by decide), hname.trans (hcalled i)⟩

end Board

end ExactCover
