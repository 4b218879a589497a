import ExactCover.Polyomino.Cell

/-!
# Polyomino shapes

A shape is a finite set of cells regardless of where it lies, stored in its normal form: moved to
the top left until it touches both axes.  Equal shapes are therefore equal values, and collecting
the images of a shape under turns and flips into a set is all it takes to find the different ones
(`Shape.orientations`).

A shape extends over at most `Shape.extentLimit` columns and rows.  `Shape.ofPoints` refuses points
that lie further apart; turning and flipping keep within the limit, so they are total.
-/

set_option autoImplicit false

namespace ExactCover

/-- The coordinates of a shape's cells stay below this number, the 63rd power of two. -/
def Shape.extentLimit : Nat := 0x8000000000000000

/-- A polyomino in normal form. -/
structure Shape where
  /-- The cells covered. -/
  cells : Std.ExtTreeSet Cell
  /-- Some cell lies in the first column. -/
  touches_left : ∃ c ∈ cells, c.x = 0
  /-- Some cell lies in the first row. -/
  touches_top : ∃ c ∈ cells, c.y = 0
  /-- All cells lie within the limit. -/
  lt_extentLimit : ∀ c ∈ cells, c.x < Shape.extentLimit ∧ c.y < Shape.extentLimit

/-- Why points do not make a shape. -/
inductive ShapeError where
  /-- There are none. -/
  | noCells
  /-- Two of them are too far apart for their distance to be a coordinate. -/
  | tooFarApart
deriving DecidableEq

/-- The wording of an error. -/
def ShapeError.message : ShapeError → String
  | noCells => "a piece shape needs at least one cell"
  | tooFarApart => "attempt to subtract with overflow"

namespace Shape

@[ext]
theorem ext {s t : Shape} (h : s.cells = t.cells) : s = t := by
  cases s; cases t; cases h; rfl

/-- Shapes are ordered by their lists of cells, lexicographically. -/
instance : Key Shape :=
  Key.ofInjective (fun s ↦ s.cells.toList) (fun _ _ h ↦ ext (Std.ExtTreeSet.toList_inj.1 h))
    (fun s t ↦ compare s.cells.toList t.cells.toList) fun _ _ ↦ rfl

/-! ## Normal form -/

/-- The shape of points that are not too far apart. -/
def normalize (ps : List Point) (hps : ps ≠ [])
    (hlt : ∀ c ∈ Point.cells ps, c.x < extentLimit ∧ c.y < extentLimit) : Shape where
  cells := .ofList (Point.cells ps)
  touches_left := by
    obtain ⟨c, hc, h⟩ := Point.exists_x_eq_zero hps
    exact ⟨c, by simpa using hc, h⟩
  touches_top := by
    obtain ⟨c, hc, h⟩ := Point.exists_y_eq_zero hps
    exact ⟨c, by simpa using hc, h⟩
  lt_extentLimit := fun c hc ↦ hlt c (by simpa using hc)

/-- **The shape of any points**: there has to be at least one, and no two may lie too far apart. -/
def ofPoints (ps : List Point) : Except ShapeError Shape :=
  if hps : ps = [] then .error .noCells
  else if hlt : ∀ c ∈ Point.cells ps, c.x < extentLimit ∧ c.y < extentLimit then
    .ok (normalize ps hps hlt)
  else .error .tooFarApart

/-- Points within a square of the admitted size stay within it when they are normalized. -/
theorem lt_extentLimit_of_mem_cells {ps : List Point} (a b : Int)
    (h : ∀ p ∈ ps, a ≤ p.x ∧ p.x < a + extentLimit ∧ b ≤ p.y ∧ p.y < b + extentLimit) :
    ∀ c ∈ Point.cells ps, c.x < extentLimit ∧ c.y < extentLimit := by
  intro c hc
  obtain ⟨p, hp, rfl⟩ := List.mem_map.1 hc
  have hps : ps ≠ [] := List.ne_nil_of_mem hp
  obtain ⟨q, hq, hqx⟩ := Point.exists_eq_least (f := (·.x)) hps
  obtain ⟨r, hr, hry⟩ := Point.exists_eq_least (f := (·.y)) hps
  have hp' := h p hp
  have hq' := h q hq
  have hr' := h r hr
  have hpos : 0 < extentLimit := by decide
  constructor <;> dsimp only <;> omega

theorem toList_ne_nil (s : Shape) : s.cells.toList ≠ [] := by
  obtain ⟨c, hc, _⟩ := s.touches_left
  exact List.ne_nil_of_mem (Std.ExtTreeSet.mem_toList.2 hc)

/-! ## Size -/

/-- The number of cells. -/
def area (s : Shape) : Nat := s.cells.size

/-- The number of columns that the shape extends over. -/
def width (s : Shape) : Nat := (s.cells.toList.map (·.x + 1)).max?.getD 0

/-- The number of rows that the shape extends over. -/
def height (s : Shape) : Nat := (s.cells.toList.map (·.y + 1)).max?.getD 0

/-! ## Symmetries -/

/-- A quarter turn, which takes `(x, y)` to `(y, -x)`. -/
def turn (s : Shape) : Shape :=
  normalize (s.cells.toList.map fun c ↦ ⟨c.y, -c.x⟩) (by simpa using s.toList_ne_nil) <| by
    refine lt_extentLimit_of_mem_cells 0 (1 - extentLimit) fun p hp ↦ ?_
    obtain ⟨c, hc, rfl⟩ := List.mem_map.1 hp
    have := s.lt_extentLimit c (Std.ExtTreeSet.mem_toList.1 hc)
    dsimp only
    omega

/-- The image seen from behind, which takes `(x, y)` to `(-x, y)`. -/
def flip (s : Shape) : Shape :=
  normalize (s.cells.toList.map fun c ↦ ⟨-c.x, c.y⟩) (by simpa using s.toList_ne_nil) <| by
    refine lt_extentLimit_of_mem_cells (1 - extentLimit) 0 fun p hp ↦ ?_
    obtain ⟨c, hc, rfl⟩ := List.mem_map.1 hp
    have := s.lt_extentLimit c (Std.ExtTreeSet.mem_toList.1 hc)
    dsimp only
    omega

/-- The shape in its four turned positions. -/
def turns (s : Shape) : List Shape := [s, s.turn, s.turn.turn, s.turn.turn.turn]

/-- **The different shapes among all turned and flipped images**, ascending. -/
def orientations (s : Shape) : List Shape :=
  (Std.ExtTreeSet.ofList (s.turns ++ s.turns.map flip)).toList

end Shape

end ExactCover
