import ExactCover.Proofs.Polyomino.Translation

/-!
# Turning and flipping within the limits

To turn or flip a shape, its cells are read as points, one coordinate of each is negated, and the
least coordinates are subtracted again; to measure it, one is added to its coordinates.  Each of
these steps could fail, and here they are taken with operations that do (`Shape.turn?`,
`Shape.flip?`).  None fails for a shape, as none of its coordinates reaches the limit
(`Shape.turn?_eq`, `Shape.flip?_eq`); and since turns and flips lead from shapes to shapes, none
fails after any number of them (`Shape.moved?_eq`), nor while the orientations are collected
(`Shape.orientations?_eq`).

So the shapes to which any turns and flips lead can be worked out, and the laws of turns and flips
hold of all of them (`Shape.turns_and_flips`).
-/

set_option autoImplicit false

namespace ExactCover.Shape

variable {ps : List Point} {s t : Shape} {cells : List Cell}

/-! ## Turns and flips that can fail -/

/-- The cells after they are moved as points and brought to normal form. -/
def transform? (f : Point → Option Point) (cells : List Cell) : Option (List Cell) := do
  let ps ← cells.mapM fun c ↦ c.toPoint?.bind f
  Point.normalize? ps

/-- The cells after a quarter turn. -/
def turn? : List Cell → Option (List Cell) :=
  transform? fun p ↦ (Point.neg? p.x).map fun x ↦ ⟨p.y, x⟩

/-- The cells seen from behind. -/
def flip? : List Cell → Option (List Cell) :=
  transform? fun p ↦ (Point.neg? p.x).map fun x ↦ ⟨x, p.y⟩

/-- One round of collecting orientations.  The flipped cells and the cells themselves join those
found, and the next round is about the turned ones. -/
def collect? (found : Std.ExtTreeSet (List Cell)) (cells : List Cell) :
    Option (Std.ExtTreeSet (List Cell) × List Cell) := do
  let flipped ← flip? cells
  let turned ← turn? cells
  return ((found.insert flipped).insert cells, turned)

/-- The cells of all orientations, collected in four rounds. -/
def orientations? (cells : List Cell) : Option (List (List Cell)) := do
  let (found, _) ← (List.range 4).foldlM (fun e _ ↦ collect? e.1 e.2) (∅, cells)
  return found.toList

/-- A turn or a flip. -/
inductive Move where
  /-- A quarter turn. -/
  | turn
  /-- A flip. -/
  | flip

/-- The shape after a turn or a flip. -/
def Move.apply : Move → Shape → Shape
  | turn => Shape.turn
  | flip => Shape.flip

/-- The cells after a turn or a flip. -/
def Move.apply? : Move → List Cell → Option (List Cell)
  | turn => turn?
  | flip => flip?

/-- The shape after turns and flips, one after another. -/
def moved (s : Shape) (moves : List Move) : Shape := moves.foldl (fun t m ↦ m.apply t) s

/-- The cells after turns and flips, one after another. -/
def moved? (cells : List Cell) (moves : List Move) : Option (List Cell) :=
  moves.foldlM (fun cells m ↦ m.apply? cells) cells

/-! ## Nothing fails -/

theorem ofPoints_turn (s : Shape) :
    ofPoints (s.cells.toList.map fun c ↦ (Point.ofCell c).turn) = .ok s.turn := by
  rw [ofPoints, dif_neg, dif_pos]
  rfl

theorem ofPoints_flip (s : Shape) :
    ofPoints (s.cells.toList.map fun c ↦ (Point.ofCell c).flip) = .ok s.flip := by
  rw [ofPoints, dif_neg, dif_pos]
  rfl

/-- Where the cells of a shape can be moved one by one, no step fails. -/
theorem transform?_eq {f : Point → Option Point} {g : Point → Point}
    (hf : ∀ c ∈ s.cells, f (.ofCell c) = some (g (.ofCell c)))
    (ht : ofPoints (s.cells.toList.map fun c ↦ g (.ofCell c)) = .ok t) :
    transform? f s.cells.toList = some t.cells.toList := by
  have hcell : ∀ c ∈ s.cells.toList, c.toPoint?.bind f = some (g (.ofCell c)) := by
    intro c hc
    have hc : c ∈ s.cells := Std.ExtTreeSet.mem_toList.1 hc
    rw [Cell.toPoint?_eq_some (s.lt_extentLimit c hc), Option.bind_some, hf c hc]
  rw [transform?, mapM_eq_pure hcell]
  exact normalize?_eq ht

/-- The column of a cell of a shape can be negated. -/
theorem neg?_x {c : Cell} (hc : c ∈ s.cells) :
    Point.neg? (Point.ofCell c).x = some (-(Point.ofCell c).x) := by
  have hlt := (s.lt_extentLimit c hc).1
  refine Point.neg?_eq_some ?_
  rw [Point.IsCoordinate, Point.ofCell]
  dsimp only
  omega

/-- **No step of a turn fails.** -/
theorem turn?_eq (s : Shape) : turn? s.cells.toList = some s.turn.cells.toList :=
  transform?_eq (fun c hc ↦ by rw [neg?_x hc]; rfl) s.ofPoints_turn

/-- **No step of a flip fails.** -/
theorem flip?_eq (s : Shape) : flip? s.cells.toList = some s.flip.cells.toList :=
  transform?_eq (fun c hc ↦ by rw [neg?_x hc]; rfl) s.ofPoints_flip

theorem Move.apply?_eq (m : Move) (s : Shape) :
    m.apply? s.cells.toList = some (m.apply s).cells.toList := by
  cases m with
  | turn => exact s.turn?_eq
  | flip => exact s.flip?_eq

/-- **Nor does any number of turns and flips.** -/
theorem moved?_eq (s : Shape) (moves : List Move) :
    moved? s.cells.toList moves = some (s.moved moves).cells.toList := by
  induction moves generalizing s with
  | nil => rfl
  | cons m moves ih =>
    rw [moved?, List.foldlM_cons, m.apply?_eq]
    exact ih (m.apply s)

/-! ## Collecting orientations -/

theorem collect?_eq (found : Std.ExtTreeSet (List Cell)) (s : Shape) :
    collect? found s.cells.toList = some
      ((found.insert s.flip.cells.toList).insert s.cells.toList, s.turn.cells.toList) := by
  rw [collect?, flip?_eq, turn?_eq]
  rfl

/-- **The orientations can be collected.** -/
theorem orientations?_eq (s : Shape) :
    orientations? s.cells.toList = some (s.orientations.map (·.cells.toList)) := by
  have hrange : List.range 4 = [0, 1, 2, 3] := rfl
  have hascending : Ascending (s.orientations.map (·.cells.toList)) :=
    List.pairwise_map.2 s.ascending_orientations
  rw [orientations?, hrange]
  simp only [List.foldlM_cons, List.foldlM_nil, collect?_eq, Option.bind_eq_bind, Option.bind_some,
    Option.pure_def]
  refine congrArg some (Ascending.ext Std.ExtTreeSet.ordered_toList hascending fun cells ↦ ?_)
  simp only [Std.ExtTreeSet.mem_toList, Std.ExtTreeSet.mem_insert, Key.compare_eq_iff, List.mem_map,
    mem_orientations_iff, mem_turns_iff]
  grind

/-- **All that is worked out for a shape can be**: its turned and flipped images, its measures and
its orientations. -/
structure WithinLimits (s : Shape) : Prop where
  /-- No step of a turn fails. -/
  turn?_eq : turn? s.cells.toList = some s.turn.cells.toList
  /-- No step of a flip fails. -/
  flip?_eq : flip? s.cells.toList = some s.flip.cells.toList
  /-- No step of measuring the width fails. -/
  width?_eq : s.width? = some s.width
  /-- No step of measuring the height fails. -/
  height?_eq : s.height? = some s.height
  /-- No step of collecting the orientations fails. -/
  orientations?_eq : orientations? s.cells.toList = some (s.orientations.map (·.cells.toList))

theorem withinLimits (s : Shape) : s.WithinLimits where
  turn?_eq := s.turn?_eq
  flip?_eq := s.flip?_eq
  width?_eq := s.width?_eq
  height?_eq := s.height?_eq
  orientations?_eq := s.orientations?_eq

/-! ## Laws -/

/-- **Cells in normal form**: ascending, some in the first column and some in the first row. -/
structure InNormalForm (cells : List Cell) : Prop where
  /-- The cells are strictly ascending. -/
  ascending : Ascending cells
  /-- The least column is the first. -/
  least_x : (cells.map (·.x)).min? = some 0
  /-- The least row is the first. -/
  least_y : (cells.map (·.y)).min? = some 0

theorem min?_eq_zero {f : Cell → Nat} (h : ∃ c ∈ s.cells, f c = 0) :
    (s.cells.toList.map f).min? = some 0 := by
  obtain ⟨c, hc, hcf⟩ := h
  refine List.min?_eq_some_iff.2 ⟨?_, fun n _ ↦ n.zero_le⟩
  exact List.mem_map.2 ⟨c, Std.ExtTreeSet.mem_toList.2 hc, hcf⟩

theorem inNormalForm (s : Shape) : InNormalForm s.cells.toList where
  ascending := Std.ExtTreeSet.ordered_toList
  least_x := min?_eq_zero s.touches_left
  least_y := min?_eq_zero s.touches_top

theorem area_turn (s : Shape) : s.turn.area = s.area :=
  (IsImage.id s).turn.area_eq (.turn .id)

theorem area_flip (s : Shape) : s.flip.area = s.area :=
  (IsImage.id s).flip.area_eq (.flip .id)

/-- **Turns and flips keep within the limits, and keep the laws of a square's symmetries.**  No
difference fails that is taken to find the shape of points, no step of any turns and flips of this
shape, and none of working out the images, the measures and the orientations of what they lead to.
This has the same number of cells in all of its images, which are in normal form as it is; a turn
exchanges its width and its height, and a flip keeps them.  Four turns undo each other, and so do
two flips and the two turns before and after a flip. -/
theorem turns_and_flips (hs : ofPoints ps = .ok s) (moves : List Move) :
    ofPoints? ps = some (.ok s.cells.toList) ∧
    ∃ t, moved? s.cells.toList moves = some t.cells.toList ∧ t = s.moved moves ∧
      t.WithinLimits ∧ InNormalForm t.cells.toList ∧
      t.turn.turn.turn.turn = t ∧ t.flip.flip = t ∧ t.turn.flip.turn = t.flip ∧
      (t.turn.area = t.area ∧ InNormalForm t.turn.cells.toList ∧
        t.turn.width = t.height ∧ t.turn.height = t.width) ∧
      (t.flip.area = t.area ∧ InNormalForm t.flip.cells.toList ∧
        t.flip.width = t.width ∧ t.flip.height = t.height) := by
  refine ⟨ofPoints?_eq hs, _, s.moved?_eq moves, rfl, withinLimits _, inNormalForm _,
    turn_turn_turn_turn _, flip_flip _, turn_flip_turn _, ?_, ?_⟩
  · exact ⟨area_turn _, inNormalForm _, width_turn _, height_turn _⟩
  · exact ⟨area_flip _, inNormalForm _, width_flip _, height_flip _⟩

/-- The shape of two points as far apart as can be, both left of and above the origin.  A turn, a
flip and a turn can be worked out, and they are a flip. -/
theorem turns_and_flips_apart :
    ∃ s, ofPoints [⟨-0x8000000000000000, -1⟩, ⟨-1, -0x8000000000000000⟩] = .ok s ∧
      moved? s.cells.toList [.turn, .flip, .turn] = some s.flip.cells.toList ∧
      s.flip.width? = some 0x8000000000000000 := by
  have hps : [(⟨-0x8000000000000000, -1⟩ : Point), ⟨-1, -0x8000000000000000⟩] ≠ [] := by simp
  have hextent : Point.extent (·.x) [⟨-0x8000000000000000, -1⟩, ⟨-1, -0x8000000000000000⟩] =
      0x7fffffffffffffff := by decide
  obtain ⟨s, hs⟩ := (ofPoints_eq_ok_iff hps).2 ⟨by decide, by decide⟩
  obtain ⟨-, t, hmoved, ht, hlimits, -⟩ := turns_and_flips hs [.turn, .flip, .turn]
  obtain rfl : t = s.flip := ht.trans (turn_flip_turn s)
  have hwidth := width_eq_extent hs
  refine ⟨s, hs, hmoved, ?_⟩
  rw [hlimits.width?_eq, width_flip, Option.some_inj]
  omega

end ExactCover.Shape
