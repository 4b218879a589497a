import ExactCover.Proofs.Polyomino.Symmetry

/-!
# Arithmetic of coordinates

The coordinates of cells are zero or more and stay below `Cell.limit`.  Those of points are positive
or negative, and `Shape.extentLimit` bounds them on either side.  So the sum or the difference of
two coordinates need not be a coordinate, nor need the opposite of one; and there are cells that are
not points, too far from the first one, and points that are not cells.  The operations here fail
where there is no result (`Cell.add?`, `Point.sub?` and so on).  With them the geometry of shapes
and boards is worked out again, to show that nothing fails.

The measures of a shape are the first example.  They are found by adding one to each coordinate, and
no coordinate of a shape is the last one (`Shape.width?_eq`, `Shape.height?_eq`).
-/

set_option autoImplicit false

namespace ExactCover

/-! ## Lists -/

section Lists

variable {α β : Type}

/-- If each element is accepted, all of them are. -/
theorem mapM_eq_pure {m : Type → Type} [Monad m] [LawfulMonad m] {f : α → m β} {g : α → β}
    {l : List α} (h : ∀ a ∈ l, f a = pure (g a)) : l.mapM f = pure (l.map g) := by
  induction l with
  | nil => exact List.mapM_nil
  | cons a l ih =>
    rw [List.forall_mem_cons] at h
    rw [List.mapM_cons, h.1, ih h.2, pure_bind, pure_bind, List.map_cons]

/-- If one element is not accepted, the list is not. -/
theorem mapM_eq_none {f : α → Option β} {l : List α} {a : α} (ha : a ∈ l) (h : f a = none) :
    l.mapM f = none := by
  induction l with
  | nil => exact absurd ha List.not_mem_nil
  | cons b l ih =>
    rw [List.mapM_cons]
    rcases List.mem_cons.1 ha with rfl | ha
    · rw [h]
      rfl
    · rw [ih ha]
      cases f b <;> rfl

end Lists

/-! ## Coordinates of cells -/

namespace Cell

variable {m n : Nat}

/-- The sum of two coordinates, if it is one. -/
def add? (m n : Nat) : Option Nat := if m + n < limit then some (m + n) else none

/-- The difference of two coordinates, if it is one. -/
def sub? (m n : Nat) : Option Nat := if n ≤ m then some (m - n) else none

theorem add?_eq_some (h : m + n < limit) : add? m n = some (m + n) := if_pos h

theorem sub?_eq_some (h : n ≤ m) : sub? m n = some (m - n) := if_pos h

end Cell

/-! ## Coordinates of points -/

namespace Point

variable {m n : Int}

/-- **A number that can be a coordinate of a point.**  There is one more below zero than above. -/
def IsCoordinate (n : Int) : Prop := -(Shape.extentLimit : Int) ≤ n ∧ n < Shape.extentLimit

instance (n : Int) : Decidable (IsCoordinate n) := inferInstanceAs (Decidable (_ ∧ _))

/-- The difference of two coordinates, if it is one. -/
def sub? (m n : Int) : Option Int := if IsCoordinate (m - n) then some (m - n) else none

/-- The opposite of a coordinate, if it is one. -/
def neg? (n : Int) : Option Int := if IsCoordinate (-n) then some (-n) else none

/-- The cell at a point, if there is one. -/
def toCell? (p : Point) : Option Cell :=
  if 0 ≤ p.x ∧ 0 ≤ p.y then some ⟨p.x.toNat, p.y.toNat⟩ else none

theorem sub?_eq_some (h : IsCoordinate (m - n)) : sub? m n = some (m - n) := if_pos h

theorem sub?_eq_none (h : ¬IsCoordinate (m - n)) : sub? m n = none := if_neg h

theorem neg?_eq_some (h : IsCoordinate (-n)) : neg? n = some (-n) := if_pos h

theorem toCell?_eq_some {p : Point} (hx : 0 ≤ p.x) (hy : 0 ≤ p.y) :
    p.toCell? = some ⟨p.x.toNat, p.y.toNat⟩ := if_pos ⟨hx, hy⟩

end Point

/-- The point at a cell, if there is one. -/
def Cell.toPoint? (c : Cell) : Option Point :=
  if c.x < Shape.extentLimit ∧ c.y < Shape.extentLimit then some (.ofCell c) else none

theorem Cell.toPoint?_eq_some {c : Cell} (h : c.x < Shape.extentLimit ∧ c.y < Shape.extentLimit) :
    c.toPoint? = some (.ofCell c) := if_pos h

/-! ## The measures of a shape -/

namespace Shape

/-- The width of the shape, found by going through its cells. -/
def width? (s : Shape) : Option Nat :=
  (s.cells.toList.mapM fun c ↦ Cell.add? c.x 1).map fun xs ↦ xs.max?.getD 0

/-- The height of the shape. -/
def height? (s : Shape) : Option Nat :=
  (s.cells.toList.mapM fun c ↦ Cell.add? c.y 1).map fun ys ↦ ys.max?.getD 0

theorem extentLimit_lt_limit : extentLimit < Cell.limit := by decide

/-- Neither coordinate of a cell of a shape is the last one. -/
theorem mapM_add?_one (s : Shape) {f : Cell → Nat} (h : ∀ c ∈ s.cells, f c < extentLimit) :
    (s.cells.toList.mapM fun c ↦ Cell.add? (f c) 1) =
      some (s.cells.toList.map fun c ↦ f c + 1) := by
  refine mapM_eq_pure fun c hc ↦ ?_
  have hlt := h c (Std.ExtTreeSet.mem_toList.1 hc)
  have hlimit := extentLimit_lt_limit
  exact Cell.add?_eq_some (by omega)

theorem width?_eq (s : Shape) : s.width? = some s.width := by
  rw [width?, s.mapM_add?_one fun c hc ↦ (s.lt_extentLimit c hc).1, width]
  rfl

theorem height?_eq (s : Shape) : s.height? = some s.height := by
  rw [height?, s.mapM_add?_one fun c hc ↦ (s.lt_extentLimit c hc).2, height]
  rfl

end Shape

end ExactCover
