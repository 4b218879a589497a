import ExactCover.Proofs.Board.Drawing

/-!
# The enumeration of the placements

To list the placements on a board, `Board.placements` measures each orientation of each piece,
passes over those that are larger than the board, and tries the others on every corner from which
their bounding box keeps within the board.  This takes additions and subtractions of coordinates,
and a coordinate is neither negative nor beyond the limit.  So the enumeration is repeated here with
additions and subtractions that can fail (`Cell.add?`, `Cell.sub?`), one for each that is made and
in the same order.  None of them fails, however large the board (`Board.placements?_eq`): what is
subtracted has been compared before, and a cell of a shape whose bounding box lies on the board lies
there as well.

So much for the way in which the list is made.  It holds, in ascending order, the placements on free
cells (`Board.placements_exact`); and among those of one piece there is exactly one for each copy of
the piece on free cells (`Board.existsUnique_placement`).
-/

set_option autoImplicit false

namespace ExactCover

variable {b : Board} {pieces : List Piece} {shape : Shape} {c d : Cell}

/-! ## The enumeration with arithmetic that can fail -/

namespace Board

/-- Whether the cell at the offset `d` from `c` is free. -/
def isFreeAt? (b : Board) (c d : Cell) : Option Bool := do
  let x ← Cell.add? c.x d.x
  let y ← Cell.add? c.y d.y
  return b.isFree ⟨x, y⟩

/-- Whether the shape covers free cells only, looking at its cells up to the first that is not. -/
def fits? (b : Board) (shape : Shape) (c : Cell) : Option Bool :=
  shape.cells.toList.allM (b.isFreeAt? c)

/-- The corners that the shape is tried on. -/
def corners? (b : Board) (shape : Shape) : Option (List Cell) := do
  let width ← shape.width?
  let height ← shape.height?
  if width ≤ b.width ∧ height ≤ b.height then
    let right ← Cell.sub? b.width width
    let bottom ← Cell.sub? b.height height
    return (List.range (right + 1)).flatMap fun x ↦
      (List.range (bottom + 1)).map fun y ↦ ⟨x, y⟩
  else return []

/-- The placements of one orientation of one piece. -/
def placementsOf? (b : Board) (piece orientation : Nat) (shape : Shape) :
    Option (List Placement) := do
  let corners ← b.corners? shape
  corners.flatMapM fun c ↦ do
    let fits ← b.fits? shape c
    return if fits then [⟨piece, orientation, c.x, c.y⟩] else []

/-- All placements, unless a sum or a difference that is needed for them is no coordinate. -/
def placements? (b : Board) (pieces : List Piece) : Option (List Placement) :=
  pieces.zipIdx.flatMapM fun e ↦
    e.1.orientations.zipIdx.flatMapM fun e' ↦ b.placementsOf? e.2 e'.2 e'.1

end Board

/-! ## Nothing fails -/

section Lists

variable {α β : Type} {l : List α}

theorem flatMapM_eq_some {f : α → Option (List β)} {g : α → List β}
    (h : ∀ a ∈ l, f a = some (g a)) : l.flatMapM f = some (l.flatMap g) := by
  induction l with
  | nil => rfl
  | cons a l ih =>
    rw [List.forall_mem_cons] at h
    rw [List.flatMapM_cons, h.1, ih h.2]
    rfl

theorem allM_eq_some {f : α → Option Bool} {g : α → Bool} (h : ∀ a ∈ l, f a = some (g a)) :
    l.allM f = some (l.all g) := by
  induction l with
  | nil => rfl
  | cons a l ih =>
    rw [List.forall_mem_cons] at h
    rw [List.allM, h.1, List.all_cons]
    cases g a with
    | false => rfl
    | true => exact ih h.2

/-- To collect what is left after a test is to filter first. -/
theorem flatMap_ite_eq_map_filter (p : α → Bool) (f : α → β) (l : List α) :
    (l.flatMap fun a ↦ if p a then [f a] else []) = (l.filter p).map f := by
  induction l with
  | nil => rfl
  | cons a l ih =>
    rw [List.flatMap_cons, ih, List.filter_cons]
    split <;> rfl

end Lists

namespace Board

/-- What is subtracted is no larger than what it is subtracted from. -/
theorem corners?_eq (b : Board) (shape : Shape) : b.corners? shape = some (b.corners shape) := by
  rw [corners?, shape.width?_eq, shape.height?_eq, corners]
  by_cases h : shape.width ≤ b.width ∧ shape.height ≤ b.height
  · show (if _ then _ else _) = _
    rw [if_pos h, if_pos h, Cell.sub?_eq_some h.1, Cell.sub?_eq_some h.2]
    rfl
  · show (if _ then _ else _) = _
    rw [if_neg h, if_neg h]
    rfl

/-- **A shape that is tried on a corner lies on the board.** -/
theorem contains_shift_of_mem_corners (hc : c ∈ b.corners shape) (hd : d ∈ shape.cells) :
    b.Contains (c.shift d) := by
  obtain ⟨hx, hy⟩ := mem_corners.1 hc
  have hdx := Shape.x_lt_width hd
  have hdy := Shape.y_lt_height hd
  simp only [Contains, Cell.shift]
  omega

theorem isFreeAt?_eq (h : b.Contains (c.shift d)) :
    b.isFreeAt? c d = some (b.isFree (c.shift d)) := by
  obtain ⟨hx, hy⟩ := h.lt_limit
  rw [isFreeAt?, Cell.add?_eq_some hx, Cell.add?_eq_some hy]
  rfl

theorem fits?_eq (hc : c ∈ b.corners shape) : b.fits? shape c = some (b.fits shape c) :=
  allM_eq_some fun _ hd ↦
    isFreeAt?_eq (contains_shift_of_mem_corners hc (Std.ExtTreeSet.mem_toList.1 hd))

theorem placementsOf?_eq (b : Board) (piece orientation : Nat) (shape : Shape) :
    b.placementsOf? piece orientation shape =
      some (((b.corners shape).filter (b.fits shape)).map fun c ↦
        ⟨piece, orientation, c.x, c.y⟩) := by
  rw [placementsOf?, corners?_eq, ← flatMap_ite_eq_map_filter]
  exact flatMapM_eq_some fun c hc ↦ by rw [fits?_eq hc]; rfl

/-- **No sum and no difference that the enumeration takes fails.** -/
theorem placements?_eq (b : Board) (pieces : List Piece) :
    b.placements? pieces = some (b.placements pieces) :=
  flatMapM_eq_some fun e _ ↦ flatMapM_eq_some fun e' _ ↦ b.placementsOf?_eq e.2 e'.2 e'.1

/-! ## What is listed -/

/-- **The list of the placements is exact.**  No sum and no difference of coordinates that is taken
to list them fails.  The list is ascending, so it holds nothing twice.  It holds just what names a
piece and an orientation of it, all cells of which, counted from the corner, are free.  And the
cells of what it holds can be had: none of their coordinates reaches the limit. -/
theorem placements_exact (b : Board) (pieces : List Piece) :
    b.placements? pieces = some (b.placements pieces) ∧ Ascending (b.placements pieces) ∧
      (∀ p : Placement, p ∈ b.placements pieces ↔ ∃ piece shape,
        pieces[p.piece]? = some piece ∧ piece.orientations[p.orientation]? = some shape ∧
          ∀ d ∈ shape.cells, b.isFree ⟨p.x + d.x, p.y + d.y⟩ = true) ∧
      ∀ p ∈ b.placements pieces, p.cells pieces = .ok (p.footprint pieces) := by
  refine ⟨b.placements?_eq pieces, b.ascending_placements pieces, fun p ↦ ?_,
    fun p ↦ cells_eq_footprint⟩
  simp only [mem_placements_iff, Placement.laid?_eq_some_iff, fits_iff, and_assoc]
  rfl

/-- The domino, upright or flat, has three places on the strip, and its cells on the last of them
are the last two that are free. -/
theorem placements_exact_strip :
    strip.placements? [.domino 'A'] = some [⟨0, 1, 1, 0⟩, ⟨0, 1, 2, 0⟩, ⟨0, 1, 3, 0⟩] ∧
      (⟨0, 1, 3, 0⟩ : Placement).cells [.domino 'A'] = .ok [⟨3, 0⟩, ⟨4, 0⟩] := by
  obtain ⟨hlisted, -, -, hcells⟩ := placements_exact strip [.domino 'A']
  have hplacements :
      strip.placements [.domino 'A'] = [⟨0, 1, 1, 0⟩, ⟨0, 1, 2, 0⟩, ⟨0, 1, 3, 0⟩] := by
    decide +kernel
  have hfootprint :
      (⟨0, 1, 3, 0⟩ : Placement).footprint [.domino 'A'] = [⟨3, 0⟩, ⟨4, 0⟩] := by
    decide +kernel
  exact ⟨hplacements ▸ hlisted, hfootprint ▸ hcells _ (by simp [hplacements])⟩

end Board

/-! ## One placement for each copy -/

namespace Placement

variable {p q : Placement} {S : Set Cell}

/-- **The cells in `S` are those of the placement.** -/
def Occupies (pieces : List Piece) (p : Placement) (S : Set Cell) : Prop :=
  ∃ cells, p.cells pieces = .ok cells ∧ {c | c ∈ cells} = S

theorem occupies_iff (hp : p ∈ b.placements pieces) :
    p.Occupies pieces S ↔ {c | c ∈ p.footprint pieces} = S := by
  rw [Occupies, Board.cells_eq_footprint hp]
  simp

/-- Two placements of one piece on the same cells are the same. -/
theorem Occupies.unique (hp : p ∈ b.placements pieces) (hq : q ∈ b.placements pieces)
    (hpS : p.Occupies pieces S) (hqS : q.Occupies pieces S) (hpiece : p.piece = q.piece) :
    p = q := by
  obtain ⟨_, _, hlaid, -⟩ := Board.mem_placements_iff.1 hp
  obtain ⟨_, _, hlaid', -⟩ := Board.mem_placements_iff.1 hq
  rw [occupies_iff hp] at hpS
  rw [occupies_iff hq] at hqS
  exact eq_of_footprint_eq hlaid hlaid' hpiece (hpS.trans hqS.symm)

end Placement

namespace Board

/-- **Each copy of a piece is one placement.**  If a set of free cells is what turning, reflecting
and shifting the piece in any way can make of it, then exactly one placement of the piece has these
cells; and otherwise none has.  No placement has a cell twice. -/
theorem existsUnique_placement (b : Board) (pieces : List Piece) (i : Fin pieces.length)
    {S : Set Cell} (hS : ∀ c ∈ S, b.isFree c = true) :
    ((pieces.get i).shape.MovesTo S ↔
      ∃! p, p ∈ b.placements pieces ∧ p.piece = i ∧ p.Occupies pieces S) ∧
    (¬(pieces.get i).shape.MovesTo S →
      ∀ p ∈ b.placements pieces, p.piece = i → ¬p.Occupies pieces S) ∧
    ∀ p ∈ b.placements pieces, ∃ cells, p.cells pieces = .ok cells ∧ cells.Nodup := by
  have hpiece : pieces[i.val]? = some (pieces.get i) := List.getElem?_eq_getElem i.isLt
  have hmoves {p : Placement} (hp : p ∈ b.placements pieces) (hi : p.piece = i)
      (hpS : p.Occupies pieces S) : (pieces.get i).shape.MovesTo S := by
    rw [Placement.occupies_iff hp] at hpS
    rw [Shape.movesTo_iff_isCopy, ← hpS]
    exact isCopy_footprint hp (hi ▸ hpiece)
  refine ⟨⟨fun hcopy ↦ ?_, ?_⟩, fun hn p hp hi hpS ↦ hn (hmoves hp hi hpS),
    fun p hp ↦ ⟨_, cells_eq_footprint hp, p.nodup_footprint pieces⟩⟩
  · obtain ⟨p, hp, hi, hcells⟩ := exists_placement hpiece (Shape.movesTo_iff_isCopy.1 hcopy) hS
    have hpS := (Placement.occupies_iff hp).2 hcells
    exact ⟨p, ⟨hp, hi, hpS⟩, fun q ⟨hq, hi', hqS⟩ ↦ hqS.unique hq hp hpS (hi'.trans hi.symm)⟩
  · rintro ⟨p, ⟨hp, hi, hpS⟩, -⟩
    exact hmoves hp hi hpS

/-- One placement of the domino has the first two free cells of the strip, and none has the first
and the third, to which the domino cannot be moved. -/
theorem existsUnique_placement_strip :
    (∃! p, p ∈ strip.placements [.domino 'A'] ∧ p.piece = 0 ∧
      p.Occupies [.domino 'A'] {⟨1, 0⟩, ⟨2, 0⟩}) ∧
    ¬(Piece.domino 'A').shape.MovesTo {⟨1, 0⟩, ⟨3, 0⟩} := by
  have hcells : {c | c ∈ (Piece.domino 'A').shape.cells} = {⟨0, 0⟩, ⟨1, 0⟩} := by
    have hpoints : Point.cells [⟨0, 0⟩, ⟨1, 0⟩] = [⟨0, 0⟩, ⟨1, 0⟩] := by decide
    ext c
    simp [Piece.domino, Piece.ofShape, Shape.mem_normalize, hpoints]
  have hmoves : (Piece.domino 'A').shape.MovesTo {⟨1, 0⟩, ⟨2, 0⟩} := by
    refine ⟨_, .shift ⟨1, 0⟩ .id, ?_⟩
    rw [hcells, Set.image_pair, Set.image_pair, Set.image_pair]
    rfl
  have hfree : ∀ c ∈ ({⟨1, 0⟩, ⟨2, 0⟩} : Set Cell), strip.isFree c = true := by
    rintro c (rfl | rfl) <;> decide
  have hfree' : ∀ c ∈ ({⟨1, 0⟩, ⟨3, 0⟩} : Set Cell), strip.isFree c = true := by
    rintro c (rfl | rfl) <;> decide
  have happart : ∀ p ∈ strip.placements [.domino 'A'],
      ¬(⟨1, 0⟩ ∈ p.footprint [.domino 'A'] ∧ ⟨3, 0⟩ ∈ p.footprint [.domino 'A']) := by
    decide +kernel
  refine ⟨(existsUnique_placement strip [.domino 'A'] 0 hfree).1.1 hmoves, fun hmoves' ↦ ?_⟩
  obtain ⟨p, ⟨hp, -, hpS⟩, -⟩ :=
    (existsUnique_placement strip [.domino 'A'] 0 hfree').1.1 hmoves'
  rw [Placement.occupies_iff hp] at hpS
  exact happart p hp ⟨hpS.superset (by simp), hpS.superset (by simp)⟩

end Board

end ExactCover
