import ExactCover.Proofs.Board.Refusals
import ExactCover.Proofs.Search.Lookups

/-!
# Drawing at the limits of the coordinates

The corner of a placement can be any cell that has coordinates.  The cells counted from it may lie
beyond the limit of the coordinates; then they lie off the board as well, and a placement that
covers them is never drawn.  But where such a cell comes first, there is no cell to be named, and
drawing breaks off because a sum is no coordinate.

Drawing looks at each cell before it counts to the next.  So the sum is not met if a cell that comes
before it, in the order of the shape, is off the board (`Board.FirstFault`).  On boards with room
for a shape beyond their edges only the first cell matters: where one cell of a placement is on the
board, all others have coordinates.  It lies in the column of the corner, but not always in its row,
and this is how drawing can break off on such a board (`Board.tiling_at_limits`).

There is no other way.  Drawing is repeated here with looks at the drawing, and changes of it, that
fail outside of it (`Board.tiling?`); they are not made for cells that are not on the board, so none
of them fails.
-/

set_option autoImplicit false

namespace ExactCover

variable {b : Board} {pieces : List Piece} {shape : Shape} {r : Placement} {ps qs : List Placement}
  {c d : Cell} {cs ds : List Cell} {e : BoardError}

/-! ## Drawing with looks that can fail -/

/-- Where each step that begins in `P` does not fail, and leaves in `P` what it gives, no step
fails. -/
theorem foldlM_eq_mk {α β ε : Type} {P : β → Prop} {f : β → α → ExceptT ε Option β}
    {g : β → α → Except ε β} {l : List α}
    (h : ∀ b, ∀ a ∈ l, P b → f b a = .mk (some (g b a)) ∧ ∀ b', g b a = .ok b' → P b') {b : β}
    (hb : P b) :
    l.foldlM f b = .mk (some (l.foldlM g b)) ∧ ∀ b', l.foldlM g b = .ok b' → P b' := by
  induction l generalizing b with
  | nil =>
    refine ⟨rfl, fun b' hb' ↦ ?_⟩
    cases hb'
    exact hb
  | cons a l ih =>
    obtain ⟨hf, hg⟩ := h b a List.mem_cons_self hb
    rw [List.foldlM_cons, hf, List.foldlM_cons]
    cases hstep : g b a with
    | error e => exact ⟨rfl, fun _ h ↦ by cases h⟩
    | ok b₁ => exact ih (fun b a ha ↦ h b a (List.mem_cons_of_mem _ ha)) (hg b₁ hstep)

namespace Tiling

/-- What the cell shows, if the drawing has such a cell. -/
def charAt? (t : Tiling) (c : Cell) : Option Char :=
  if c.x < t.width ∧ c.y < t.height then some (t.charAt c) else none

/-- Draws a character on a cell, if the drawing has such a cell. -/
def draw? (t : Tiling) (c : Cell) (name : Char) : Option Tiling :=
  if c.x < t.width ∧ c.y < t.height then some (t.draw c name) else none

/-- The drawing is as large as the board. -/
structure SameSize (t : Tiling) (b : Board) : Prop where
  /-- It is as wide. -/
  width_eq : t.width = b.width
  /-- It is as high. -/
  height_eq : t.height = b.height

namespace SameSize

variable {t : Tiling} {name : Char}

theorem draw (h : t.SameSize b) : (t.draw c name).SameSize b := ⟨h.width_eq, h.height_eq⟩

theorem charAt?_eq (h : t.SameSize b) (hc : b.Contains c) : t.charAt? c = some (t.charAt c) :=
  if_pos (h.width_eq ▸ h.height_eq ▸ hc)

theorem draw?_eq (h : t.SameSize b) (hc : b.Contains c) :
    t.draw? c name = some (t.draw c name) :=
  if_pos (h.width_eq ▸ h.height_eq ▸ hc)

/-- The cells of a list on the board are all drawn. -/
theorem foldlM_draw? (h : t.SameSize b) (name : Char) (hcs : ∀ c ∈ cs, b.Contains c) :
    cs.foldlM (fun t c ↦ t.draw? c name) t = some (cs.foldl (fun t c ↦ t.draw c name) t) ∧
      (cs.foldl (fun t c ↦ t.draw c name) t).SameSize b :=
  foldlM_eq_some (P := (SameSize · b)) (fun _ c hc h ↦ ⟨h.draw?_eq (hcs c hc), h.draw⟩) h

end SameSize

end Tiling

namespace Board

/-- The drawing of a board on which no piece lies, made on an empty drawing of its size. -/
def blank? (b : Board) : Option Tiling := do
  let walled ← b.walls.toList.foldlM (fun t c ↦ t.draw? c '#') ⟨b.width, b.height, ∅⟩
  b.marks.toList.foldlM (fun t c ↦ t.draw? c '*') walled

/-- Draws one cell of a placement.  The drawing is looked at only if the cell is free. -/
def layCell? (b : Board) (p : Placement) (name : Char) (t : Tiling) (d : Cell) :
    ExceptT BoardError Option Tiling := do
  let c ← ExceptT.mk (some (p.cellAt d))
  if b.isFree c then
    let shown ← t.charAt? c
    if shown == Tiling.blank then t.draw? c name else throw (.notFree name c)
  else throw (.notFree name c)

/-- Draws a placement. -/
def lay? (b : Board) (pieces : List Piece) (t : Tiling) (p : Placement) :
    ExceptT BoardError Option Tiling :=
  match p.laid? pieces with
  | none => throw (.noSuchOrientation p.piece p.orientation)
  | some (piece, shape) => shape.cells.toList.foldlM (b.layCell? p piece.name) t

/-- The drawing of a list of placements, unless a cell that it does not have is looked at or drawn
on for it. -/
def tiling? (b : Board) (pieces : List Piece) (ps : List Placement) :
    ExceptT BoardError Option Tiling := do
  let t ← b.blank?
  ps.foldlM (b.lay? pieces) t

theorem blank?_eq (b : Board) : b.blank? = some b.blank ∧ b.blank.SameSize b := by
  have hempty : (⟨b.width, b.height, ∅⟩ : Tiling).SameSize b := ⟨rfl, rfl⟩
  obtain ⟨hwalls, hwalled⟩ := hempty.foldlM_draw? '#' fun c hc ↦
    b.inside_of_mem_walls c (Std.ExtTreeSet.mem_toList.1 hc)
  obtain ⟨hmarks, hmarked⟩ := hwalled.foldlM_draw? '*' fun c hc ↦
    b.inside_of_mem_marks c (Std.ExtTreeSet.mem_toList.1 hc)
  refine ⟨?_, hmarked⟩
  rw [blank?, hwalls]
  exact hmarks

/-- A cell that is looked at is on the board, so it is on a drawing of the same size. -/
theorem layCell?_eq {t : Tiling} {name : Char} (h : t.SameSize b) :
    b.layCell? r name t d = .mk (some (b.layCell r name t d)) ∧
      ∀ t', b.layCell r name t d = .ok t' → t'.SameSize b := by
  cases hcell : r.cellAt d with
  | error e =>
    rw [layCell?, layCell, hcell]
    exact ⟨rfl, fun _ h ↦ by cases h⟩
  | ok c =>
    have hlay : b.layCell r name t d = if b.isFree c && t.charAt c == Tiling.blank then
        .ok (t.draw c name) else .error (.notFree name c) := by rw [layCell, hcell]; rfl
    rw [layCell?, hcell, hlay]
    show (if b.isFree c = true then _ else _) = _ ∧ _
    cases hfree : b.isFree c with
    | false => exact ⟨rfl, fun _ h ↦ by cases h⟩
    | true =>
      have hc : b.Contains c := (isFree_iff.1 hfree).1
      rw [h.charAt?_eq hc, h.draw?_eq hc]
      show (if (t.charAt c == Tiling.blank) = true then _ else _) = _ ∧ _
      rw [Bool.true_and]
      split
      · exact ⟨rfl, fun t' ht' ↦ Except.ok.inj ht' ▸ h.draw⟩
      · exact ⟨rfl, fun _ h ↦ by cases h⟩

theorem lay?_eq {t : Tiling} (h : t.SameSize b) :
    b.lay? pieces t r = .mk (some (b.lay pieces t r)) ∧
      ∀ t', b.lay pieces t r = .ok t' → t'.SameSize b := by
  rw [lay?, lay]
  rcases r.laid? pieces with _ | ⟨piece, shape⟩
  · exact ⟨rfl, fun _ h ↦ by cases h⟩
  · exact foldlM_eq_mk (fun t d _ ht ↦ layCell?_eq ht) h

/-- **No cell is looked at or drawn on that the drawing does not have.** -/
theorem tiling?_eq (b : Board) (pieces : List Piece) (ps : List Placement) :
    (b.tiling? pieces ps).run = some (b.tiling pieces ps) := by
  obtain ⟨hblank, hsize⟩ := b.blank?_eq
  rw [tiling?, hblank]
  exact (foldlM_eq_mk (fun t r _ ht ↦ lay?_eq ht) hsize).1

end Board

/-! ## The first cell -/

/-- The cell that comes first in the order of a shape lies in its first column. -/
theorem Shape.x_eq_zero_of_toList_eq_cons (h : shape.cells.toList = d :: ds) : d.x = 0 := by
  obtain ⟨e, he, hex⟩ := shape.touches_left
  have hordered : Ascending (d :: ds) := h ▸ Std.ExtTreeSet.ordered_toList
  rw [← Std.ExtTreeSet.mem_toList, h, List.mem_cons] at he
  rcases he with rfl | he
  · exact hex
  · have hlt := Cell.compare_eq_lt_iff.1 ((List.pairwise_cons.1 hordered).1 e he)
    omega

namespace Placement

theorem exists_offset (hc : c ∈ r.footprint pieces) :
    ∃ d, c = r.corner.shift d ∧ d.x < Shape.extentLimit ∧ d.y < Shape.extentLimit := by
  obtain ⟨piece, shape, hlaid⟩ := exists_laid_of_mem_footprint hc
  rw [footprint_eq hlaid] at hc
  obtain ⟨d, hd, rfl⟩ := List.mem_map.1 hc
  exact ⟨d, rfl, shape.lt_extentLimit d (Std.ExtTreeSet.mem_toList.1 hd)⟩

/-- The first cell of a placement lies in the column of its corner. -/
theorem x_eq_of_head? (h : (r.footprint pieces).head? = some c) : c.x = r.x := by
  obtain ⟨piece, shape, hlaid⟩ := exists_laid_of_mem_footprint (List.mem_of_mem_head? h)
  rw [footprint_eq hlaid] at h
  cases hcells : shape.cells.toList with
  | nil => exact absurd hcells shape.toList_ne_nil
  | cons d ds =>
    rw [hcells, List.map_cons, List.head?_cons, Option.some_inj] at h
    rw [← h, Cell.shift, Shape.x_eq_zero_of_toList_eq_cons hcells]
    rfl

end Placement

namespace Board

/-- **Only the first cell can lack coordinates** if the others are looked at, on a board with room
for a shape beyond its edges. -/
theorem eq_nil_of_beyond (hwidth : b.width ≤ Shape.extentLimit)
    (hheight : b.height ≤ Shape.extentLimit) (hcells : r.footprint pieces = cs ++ c :: ds)
    (hbefore : ∀ d ∈ cs, b.Open pieces qs d) (hlimit : ¬(c.x < Cell.limit ∧ c.y < Cell.limit)) :
    cs = [] := by
  have hroom : Shape.extentLimit + Shape.extentLimit = Cell.limit := by decide
  obtain ⟨d, rfl, hdx, hdy⟩ : ∃ d, c = r.corner.shift d ∧ _ :=
    Placement.exists_offset (hcells ▸ List.mem_append_cons_self)
  cases cs with
  | nil => rfl
  | cons a cs =>
    -- A cell on the board keeps the corner below the half of the coordinates.
    have hmem : a ∈ r.footprint pieces := by simp [hcells]
    obtain ⟨d', ha, -⟩ := Placement.exists_offset hmem
    have hinside := (hbefore a List.mem_cons_self).contains
    rw [ha] at hinside
    simp only [Contains, Cell.shift] at hinside hlimit
    omega

/-! ## Drawing -/

/-- **Nothing that reaches over the edge is drawn.** -/
theorem contains_of_tiling {t : Tiling} (ht : b.tiling pieces ps = .ok t) (hr : r ∈ ps)
    (hc : c ∈ r.footprint pieces) : b.Contains c := by
  have haccepted := tiling_eq_ok_iff.1 ⟨t, ht⟩
  have hplaced := (acceptsAll_iff.1 haccepted).1 r hr
  exact (isFree_iff.1 (isFree_of_mem_footprint hplaced hc)).1

/-- The error is that of the first placement that is refused. -/
theorem tiling_eq_error_iff_firstFault : b.tiling pieces ps = .error e ↔ ∃ before r after,
    ps = before ++ r :: after ∧ (∃ t, b.tiling pieces before = .ok t) ∧
      (r.laid? pieces = none ∧ e = .noSuchOrientation r.piece r.orientation ∨
        ∃ name c, r.name? pieces = some name ∧ b.FirstFault pieces before r c ∧
          e = if c.x < Cell.limit ∧ c.y < Cell.limit then .notFree name c else .beyondLimit) := by
  simp only [tiling_eq_error_iff, tiling_eq_ok_iff, refuses_iff]

/-- On a board with room for a shape beyond its edges, drawing breaks off at the first cell of a
placement: it lies so far below the corner that its row has no number. -/
theorem tiling_eq_beyondLimit_iff (hcorners : ∀ r ∈ ps, r.x < Cell.limit ∧ r.y < Cell.limit)
    (hwidth : b.width ≤ Shape.extentLimit) (hheight : b.height ≤ Shape.extentLimit) :
    b.tiling pieces ps = .error .beyondLimit ↔ ∃ before r after c, ps = before ++ r :: after ∧
      (∃ t, b.tiling pieces before = .ok t) ∧ (r.footprint pieces).head? = some c ∧
        Cell.limit ≤ c.y := by
  rw [tiling_eq_error_iff]
  simp only [← tiling_eq_ok_iff]
  constructor
  · rintro ⟨before, r, after, hps, hbefore, hrefused⟩
    cases hrefused with
    | @beyondLimit c cs ds hcells hopen hlimit =>
      obtain rfl := eq_nil_of_beyond hwidth hheight hcells hopen hlimit
      have hhead : (r.footprint pieces).head? = some c := by rw [hcells]; rfl
      have hx := Placement.x_eq_of_head? hhead
      have hcorner := hcorners r (by simp [hps])
      exact ⟨before, r, after, c, hps, hbefore, hhead, by omega⟩
  · rintro ⟨before, r, after, c, hps, hbefore, hhead, hy⟩
    obtain ⟨ds, hcells⟩ : ∃ ds, r.footprint pieces = [] ++ c :: ds :=
      List.head?_eq_some_iff.1 hhead
    exact ⟨before, r, after, hps, hbefore, .beyondLimit hcells nofun (by omega)⟩

/-- **Placements whose corner is anywhere.**  No cell outside of the drawing is looked at or drawn
on.  A list with a placement that reaches over the edge of the board is refused, however far it
reaches.  The error is about the first placement that cannot be drawn after those before it: it is
not known, or the first of its cells at fault is named, unless this cell has no coordinates and
drawing breaks off.  On a board of no more than half as many columns and rows as there are
coordinates, it breaks off just where this placement has its very first cell in a row beyond the
limit. -/
theorem tiling_at_limits (hcorners : ∀ r ∈ ps, r.x < Cell.limit ∧ r.y < Cell.limit) :
    (b.tiling? pieces ps).run = some (b.tiling pieces ps) ∧
    ((∃ r ∈ ps, ∃ c ∈ r.footprint pieces, ¬b.Contains c) → ∃ e, b.tiling pieces ps = .error e) ∧
    (∀ e, b.tiling pieces ps = .error e ↔ ∃ before r after, ps = before ++ r :: after ∧
      (∃ t, b.tiling pieces before = .ok t) ∧
        (r.laid? pieces = none ∧ e = .noSuchOrientation r.piece r.orientation ∨
          ∃ name c, r.name? pieces = some name ∧ b.FirstFault pieces before r c ∧
            e = if c.x < Cell.limit ∧ c.y < Cell.limit then .notFree name c else .beyondLimit)) ∧
    (b.width ≤ Shape.extentLimit → b.height ≤ Shape.extentLimit →
      (b.tiling pieces ps = .error .beyondLimit ↔ ∃ before r after c, ps = before ++ r :: after ∧
        (∃ t, b.tiling pieces before = .ok t) ∧ (r.footprint pieces).head? = some c ∧
          Cell.limit ≤ c.y)) := by
  refine ⟨b.tiling?_eq pieces ps, ?_, fun e ↦ tiling_eq_error_iff_firstFault,
    tiling_eq_beyondLimit_iff hcorners⟩
  rintro ⟨r, hr, c, hc, hout⟩
  cases ht : b.tiling pieces ps with
  | ok t => exact absurd (contains_of_tiling ht hr hc) hout
  | error e => exact ⟨e, rfl⟩

end Board

/-- The piece of three cells around a corner. -/
def Piece.tromino (name : Char) : Piece :=
  .ofShape name (.normalize [⟨0, 0⟩, ⟨1, 0⟩, ⟨0, 1⟩] (by simp) (by decide))

namespace Board

/-- A tromino is laid in the last row that has a number, where the strip has none.  If it covers its
corner, the corner is named; and if it leaves the corner out, drawing breaks off. -/
theorem tiling_at_limits_strip :
    (∀ r ∈ [(⟨0, 1, 1, 0⟩ : Placement), ⟨1, 0, 3, 0xFFFFFFFFFFFFFFFF⟩],
      r.x < Cell.limit ∧ r.y < Cell.limit) ∧
    strip.tiling [.domino 'A', .tromino 'L'] [⟨0, 1, 1, 0⟩, ⟨1, 0, 3, 0xFFFFFFFFFFFFFFFF⟩] =
      .error (.notFree 'L' ⟨3, 0xFFFFFFFFFFFFFFFF⟩) ∧
    strip.tiling [.domino 'A', .tromino 'L'] [⟨0, 1, 1, 0⟩, ⟨1, 3, 3, 0xFFFFFFFFFFFFFFFF⟩] =
      .error .beyondLimit := by
  have hdomino : ∃ t, strip.tiling [.domino 'A', .tromino 'L'] [⟨0, 1, 1, 0⟩] = .ok t := by
    rw [tiling_eq_ok_iff, acceptsAll_iff]
    refine ⟨?_, nofun, List.pairwise_singleton _ _⟩
    decide +kernel
  have hcorners : ∀ r ∈ [(⟨0, 1, 1, 0⟩ : Placement), ⟨1, 0, 3, 0xFFFFFFFFFFFFFFFF⟩],
      r.x < Cell.limit ∧ r.y < Cell.limit := by decide
  have hcorners' : ∀ r ∈ [(⟨0, 1, 1, 0⟩ : Placement), ⟨1, 3, 3, 0xFFFFFFFFFFFFFFFF⟩],
      r.x < Cell.limit ∧ r.y < Cell.limit := by decide
  have hfault : strip.FirstFault [.domino 'A', .tromino 'L'] [⟨0, 1, 1, 0⟩]
      ⟨1, 0, 3, 0xFFFFFFFFFFFFFFFF⟩ ⟨3, 0xFFFFFFFFFFFFFFFF⟩ := by
    refine ⟨[], [⟨3, 0x10000000000000000⟩, ⟨4, 0xFFFFFFFFFFFFFFFF⟩], by decide +kernel, nofun, ?_⟩
    exact fun hopen ↦ absurd hopen.contains (by decide)
  refine ⟨hcorners, ?_, ?_⟩
  · exact ((tiling_at_limits hcorners).2.2.1 _).2 ⟨[⟨0, 1, 1, 0⟩], _, [], rfl, hdomino,
      .inr ⟨'L', _, by decide +kernel, hfault, rfl⟩⟩
  · exact ((tiling_at_limits hcorners').2.2.2 (by decide) (by decide)).2
      ⟨[⟨0, 1, 1, 0⟩], ⟨1, 3, 3, 0xFFFFFFFFFFFFFFFF⟩, [], ⟨3, 0x10000000000000000⟩, rfl, hdomino,
        by decide +kernel, by decide⟩

/-- **Drawing can break off.**  A tromino that leaves its corner out is laid with this corner in the
last row that has a number.  It reaches over the edge of the board, but this is not what drawing
reports. -/
theorem tiling_breaks_off :
    strip.tiling [.tromino 'L'] [⟨0, 3, 0, 0xFFFFFFFFFFFFFFFF⟩] = .error .beyondLimit ∧
      BoardError.beyondLimit.message = "attempt to add with overflow" := by
  have hcells : (⟨0, 3, 0, 0xFFFFFFFFFFFFFFFF⟩ : Placement).footprint [.tromino 'L'] = [] ++
      ⟨0, 0x10000000000000000⟩ :: [⟨1, 0xFFFFFFFFFFFFFFFF⟩, ⟨1, 0x10000000000000000⟩] := by
    decide +kernel
  refine ⟨tiling_eq_error_iff.2 ⟨[], _, [], rfl, trivial, ?_⟩, rfl⟩
  exact .beyondLimit hcells nofun (by decide)

end Board

end ExactCover
