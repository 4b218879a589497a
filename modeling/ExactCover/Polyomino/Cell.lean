import ExactCover.Key

/-!
# Cells and points

A `Cell` is a unit square of a board or of a normalized shape: its coordinates count columns from
the left and rows from the top, so they are natural numbers.  A `Point` is a unit square of the
whole plane, which is where a shape is described and where it is turned and flipped before it is
normalized again.

Cells are ordered by `x` and then by `y`.
-/

set_option autoImplicit false

namespace ExactCover

/-- A unit square with its column and its row. -/
structure Cell where
  /-- The column, counted from the left. -/
  x : Nat
  /-- The row, counted from the top. -/
  y : Nat
deriving DecidableEq

namespace Cell

/-- A board's coordinates stay below this number, the 64th power of two. -/
def limit : Nat := 0x10000000000000000

/-- Cells are ordered by `x` and then by `y`. -/
instance : Key Cell :=
  Key.ofInjective (fun c ↦ (c.x, c.y)) (fun ⟨_, _⟩ ⟨_, _⟩ h ↦ by cases h; rfl)
    (fun c d ↦ (compare c.x d.x).then (compare c.y d.y)) fun _ _ ↦ rfl

/-- The cell at the offset `d` from `c`. -/
def shift (c d : Cell) : Cell := ⟨c.x + d.x, c.y + d.y⟩

end Cell

/-- A unit square anywhere in the plane. -/
structure Point where
  /-- The horizontal coordinate. -/
  x : Int
  /-- The vertical coordinate. -/
  y : Int
deriving DecidableEq

namespace Point

/-- The least of the coordinates that `f` takes from the points; zero if there are none. -/
def least (f : Point → Int) (ps : List Point) : Int := (ps.map f).min?.getD 0

theorem least_le {f : Point → Int} {ps : List Point} {p : Point} (hp : p ∈ ps) :
    least f ps ≤ f p := by
  have hmem : f p ∈ ps.map f := List.mem_map_of_mem hp
  obtain ⟨m, hm⟩ := Option.isSome_iff_exists.1 (List.isSome_min?_of_mem hmem)
  rw [least, hm]
  exact (List.min?_eq_some_iff.1 hm).2 _ hmem

theorem exists_eq_least {f : Point → Int} {ps : List Point} (hps : ps ≠ []) :
    ∃ p ∈ ps, f p = least f ps := by
  have hne : ps.map f ≠ [] := by simpa using hps
  obtain ⟨m, hm⟩ := Option.isSome_iff_exists.1 (List.isSome_min?_of_ne_nil hne)
  obtain ⟨p, hp, hpm⟩ := List.mem_map.1 (List.min?_eq_some_iff.1 hm).1
  exact ⟨p, hp, by rw [least, hm]; exact hpm⟩

/-- The points as cells, moved so that the leftmost of them are in the first column and the topmost
in the first row. -/
def cells (ps : List Point) : List Cell :=
  ps.map fun p ↦ ⟨(p.x - least (·.x) ps).toNat, (p.y - least (·.y) ps).toNat⟩

theorem exists_x_eq_zero {ps : List Point} (hps : ps ≠ []) : ∃ c ∈ cells ps, c.x = 0 := by
  obtain ⟨p, hp, h⟩ := exists_eq_least (f := (·.x)) hps
  exact ⟨_, List.mem_map_of_mem hp, by simp [h]⟩

theorem exists_y_eq_zero {ps : List Point} (hps : ps ≠ []) : ∃ c ∈ cells ps, c.y = 0 := by
  obtain ⟨p, hp, h⟩ := exists_eq_least (f := (·.y)) hps
  exact ⟨_, List.mem_map_of_mem hp, by simp [h]⟩

end Point

end ExactCover
