import ExactCover.Proofs.Board.Drawing
import Mathlib.Logic.Equiv.Fin.Basic

/-!
# Boards that are mirrored and turned

Mirroring a board or turning it by a quarter moves its cells as a symmetry of the plane and a
translation do (`Board.MovedBy`).  Such a map takes free cells to free cells and copies of a shape
to copies of it, so it takes tilings to tilings, and different ones to different ones
(`Board.MovedBy.ncard_tilings_le`).  As two mirrorings are none, and four quarter turns are none, a
board has as many tilings as the board moved.

The pieces may be moved as well.  A shape and its orientations have the same copies, and a tiling
does not mind in which order its pieces are listed (`Board.IsTiling.rearrange`).

Searches for the tilings on both sides have nothing in common: other columns come first, and other
rows are tried for them.  But each counts the tilings (`Poses.countSolutions_fst`), so they agree in
the count (`Board.countSolutions_moved`).
-/

set_option autoImplicit false

namespace ExactCover

/-! ## Moving cells -/

namespace Cell

variable {g g' : Cell → Cell} {cells : Std.ExtTreeSet Cell}

/-- The cells where `g` moves the given ones. -/
def moveAll (g : Cell → Cell) (cells : Std.ExtTreeSet Cell) : Std.ExtTreeSet Cell :=
  .ofList (cells.toList.map g)

theorem mem_moveAll {d : Cell} : d ∈ moveAll g cells ↔ ∃ c ∈ cells, g c = d := by
  rw [moveAll, Std.ExtTreeSet.mem_ofList, List.contains_iff_mem, List.mem_map]
  simp only [Std.ExtTreeSet.mem_toList]

theorem moveAll_moveAll : moveAll g' (moveAll g cells) = moveAll (g' ∘ g) cells := by
  refine Std.ExtTreeSet.ext_mem fun d ↦ ?_
  simp only [mem_moveAll, exists_exists_and_eq_and, Function.comp_apply]

theorem moveAll_eq_self (h : ∀ c ∈ cells, g c = c) : moveAll g cells = cells := by
  refine Std.ExtTreeSet.ext_mem fun d ↦ mem_moveAll.trans ?_
  constructor
  · rintro ⟨c, hc, rfl⟩
    rwa [h c hc]
  · exact fun hd ↦ ⟨d, hd, h d hd⟩

end Cell

namespace Board

variable {b b' b'' : Board} {pieces pieces' : List Piece} {c : Cell} {g : Cell → Cell}

/-! ## Moving boards -/

/-- The board of the given size whose walls and marks are those of `b` after being moved. -/
def move (b : Board) (g : Cell → Cell) (width height : Nat)
    (hwidth : 0 < width ∧ width < Cell.limit) (hheight : 0 < height ∧ height < Cell.limit)
    (hg : ∀ c, b.Contains c → (g c).x < width ∧ (g c).y < height) : Board where
  width := width
  height := height
  walls := Cell.moveAll g b.walls
  marks := Cell.moveAll g b.marks
  width_pos := hwidth.1
  height_pos := hheight.1
  width_lt := hwidth.2
  height_lt := hheight.2
  inside_of_mem_walls := by
    intro d hd
    obtain ⟨c, hc, rfl⟩ := Cell.mem_moveAll.1 hd
    exact hg c (b.inside_of_mem_walls c hc)
  inside_of_mem_marks := by
    intro d hd
    obtain ⟨c, hc, rfl⟩ := Cell.mem_moveAll.1 hd
    exact hg c (b.inside_of_mem_marks c hc)

/-- Where the cell comes to lie when the board is mirrored. -/
def flipCell (b : Board) (c : Cell) : Cell := ⟨b.width - 1 - c.x, c.y⟩

/-- **The mirrored board**: left and right are exchanged. -/
def flip (b : Board) : Board :=
  b.move b.flipCell b.width b.height ⟨b.width_pos, b.width_lt⟩ ⟨b.height_pos, b.height_lt⟩
    fun _ hc ↦ ⟨by have := hc.1; dsimp only [flipCell]; omega, hc.2⟩

/-- Where the cell comes to lie when the board is turned. -/
def turnCell (b : Board) (c : Cell) : Cell := ⟨c.y, b.width - 1 - c.x⟩

/-- **The board turned by a quarter**: its rows become columns, and its columns, from right to left,
become rows. -/
def turn (b : Board) : Board :=
  b.move b.turnCell b.height b.width ⟨b.height_pos, b.height_lt⟩ ⟨b.width_pos, b.width_lt⟩
    fun _ hc ↦ ⟨hc.2, by have := hc.1; dsimp only [turnCell]; omega⟩

@[simp] theorem width_flip (b : Board) : b.flip.width = b.width := rfl
@[simp] theorem walls_flip (b : Board) : b.flip.walls = Cell.moveAll b.flipCell b.walls := rfl
@[simp] theorem marks_flip (b : Board) : b.flip.marks = Cell.moveAll b.flipCell b.marks := rfl
@[simp] theorem width_turn (b : Board) : b.turn.width = b.height := rfl
@[simp] theorem height_turn (b : Board) : b.turn.height = b.width := rfl
@[simp] theorem walls_turn (b : Board) : b.turn.walls = Cell.moveAll b.turnCell b.walls := rfl
@[simp] theorem marks_turn (b : Board) : b.turn.marks = Cell.moveAll b.turnCell b.marks := rfl

/-- **Two mirrorings are none.** -/
@[simp]
theorem flip_flip (b : Board) : b.flip.flip = b := by
  have hback (c : Cell) (hc : b.Contains c) : b.flip.flipCell (b.flipCell c) = c := by
    obtain ⟨x, y⟩ := c
    have hx : x < b.width := hc.1
    simp only [flipCell, width_flip, Cell.mk.injEq, and_true]
    omega
  refine Board.ext rfl rfl ?_ ?_
  · rw [walls_flip, walls_flip, Cell.moveAll_moveAll]
    exact Cell.moveAll_eq_self fun c hc ↦ hback c (b.inside_of_mem_walls c hc)
  · rw [marks_flip, marks_flip, Cell.moveAll_moveAll]
    exact Cell.moveAll_eq_self fun c hc ↦ hback c (b.inside_of_mem_marks c hc)

/-- **Four quarter turns are none.** -/
@[simp]
theorem turn_turn_turn_turn (b : Board) : b.turn.turn.turn.turn = b := by
  have hback (c : Cell) (hc : b.Contains c) : b.turn.turn.turn.turnCell
      (b.turn.turn.turnCell (b.turn.turnCell (b.turnCell c))) = c := by
    obtain ⟨x, y⟩ := c
    have hx : x < b.width := hc.1
    have hy : y < b.height := hc.2
    simp only [turnCell, width_turn, height_turn, Cell.mk.injEq]
    omega
  refine Board.ext rfl rfl ?_ ?_
  · simp only [walls_turn, Cell.moveAll_moveAll]
    exact Cell.moveAll_eq_self fun c hc ↦ hback c (b.inside_of_mem_walls c hc)
  · simp only [marks_turn, Cell.moveAll_moveAll]
    exact Cell.moveAll_eq_self fun c hc ↦ hback c (b.inside_of_mem_marks c hc)

/-- **The board after any number of mirrorings and quarter turns**, one after another. -/
inductive Moved (b : Board) : Board → Prop
  /-- The board itself. -/
  | refl : Moved b b
  /-- One more mirroring. -/
  | flip {b' : Board} (h : Moved b b') : Moved b b'.flip
  /-- One more quarter turn. -/
  | turn {b' : Board} (h : Moved b b') : Moved b b'.turn

theorem Moved.trans (h : b.Moved b') (h' : b'.Moved b'') : b.Moved b'' := by
  induction h' with
  | refl => exact h
  | flip _ ih => exact ih.flip
  | turn _ ih => exact ih.turn

/-- Every way back consists of mirrorings and quarter turns as well. -/
theorem Moved.symm (h : b.Moved b') : b'.Moved b := by
  induction h with
  | refl => exact .refl
  | @flip b' _ ih =>
    have hback : b'.flip.Moved b'.flip.flip := .flip .refl
    rw [flip_flip] at hback
    exact hback.trans ih
  | @turn b' _ ih =>
    have hback : b'.turn.Moved b'.turn.turn.turn.turn := .turn (.turn (.turn .refl))
    rw [turn_turn_turn_turn] at hback
    exact hback.trans ih

/-! ## Moving tilings -/

/-- **The map takes the free cells of `b` to those of `b'`**, and it moves them as a symmetry of the
plane and a translation do. -/
structure MovedBy (b : Board) (g : Cell → Cell) (b' : Board) : Prop where
  /-- Each free cell of `b'` is where one free cell of `b` comes to lie. -/
  bijOn : Set.BijOn g {c | b.isFree c = true} {c | b'.isFree c = true}
  /-- Distances are kept. -/
  symmetry : ∃ f, Point.Symmetry f ∧ ∃ v : Point,
    ∀ c, b.Contains c → Point.ofCell (g c) = v.shift (f (.ofCell c))

/-- A map between the cells of two rectangles takes the free cells along with the walls and
marks. -/
theorem movedBy_move {width height : Nat} {hwidth hheight hg}
    (hbijOn : Set.BijOn g {c | b.Contains c} {c | c.x < width ∧ c.y < height})
    (hsymmetry : ∃ f, Point.Symmetry f ∧ ∃ v : Point,
      ∀ c, b.Contains c → Point.ofCell (g c) = v.shift (f (.ofCell c))) :
    b.MovedBy g (b.move g width height hwidth hheight hg) := by
  have hmem (cells : Std.ExtTreeSet Cell) (hinside : ∀ c ∈ cells, b.Contains c) (c : Cell)
      (hc : b.Contains c) : g c ∈ Cell.moveAll g cells ↔ c ∈ cells := by
    rw [Cell.mem_moveAll]
    constructor
    · rintro ⟨d, hd, hdc⟩
      exact hbijOn.injOn (hinside d hd) hc hdc ▸ hd
    · exact fun hcell ↦ ⟨c, hcell, rfl⟩
  have hfree (c : Cell) (hc : b.Contains c) :
      (b.move g width height hwidth hheight hg).isFree (g c) = true ↔ b.isFree c = true := by
    have hbox := hbijOn.mapsTo hc
    rw [isFree_iff, isFree_iff]
    refine and_congr (iff_of_true hbox hc) (and_congr ?_ ?_)
    · exact not_congr (hmem b.walls b.inside_of_mem_walls c hc)
    · exact not_congr (hmem b.marks b.inside_of_mem_marks c hc)
  refine ⟨⟨fun c hc ↦ (hfree c (isFree_iff.1 hc).1).2 hc, ?_, ?_⟩, hsymmetry⟩
  · exact hbijOn.injOn.mono fun c hc ↦ (isFree_iff.1 hc).1
  · intro d hd
    obtain ⟨c, hc, rfl⟩ := hbijOn.surjOn (isFree_iff.1 hd).1
    exact ⟨c, (hfree c hc).1 hd, rfl⟩

theorem movedBy_flip (b : Board) : b.MovedBy b.flipCell b.flip := by
  refine movedBy_move ⟨?_, ?_, ?_⟩ ⟨_, .flip .id, ⟨b.width - 1, 0⟩, ?_⟩
  · rintro ⟨x, y⟩ ⟨hx, hy⟩
    simp only [flipCell, Set.mem_ofPred_eq] at *
    omega
  · rintro ⟨x, y⟩ ⟨hx, -⟩ ⟨x', y'⟩ ⟨hx', -⟩ h
    simp only [flipCell, Cell.mk.injEq] at *
    omega
  · rintro ⟨x, y⟩ ⟨hx, hy⟩
    refine ⟨⟨b.width - 1 - x, y⟩, ⟨?_, hy⟩, ?_⟩
    · dsimp only at *
      omega
    · simp only [flipCell, Cell.mk.injEq, and_true] at *
      omega
  · rintro ⟨x, y⟩ ⟨hx, -⟩
    simp only [flipCell, Point.ofCell, Point.shift, Point.flip, Function.comp_apply, id_eq,
      Point.mk.injEq] at *
    omega

theorem movedBy_turn (b : Board) : b.MovedBy b.turnCell b.turn := by
  refine movedBy_move ⟨?_, ?_, ?_⟩ ⟨_, .turn .id, ⟨0, b.width - 1⟩, ?_⟩
  · rintro ⟨x, y⟩ ⟨hx, hy⟩
    simp only [turnCell, Set.mem_ofPred_eq] at *
    omega
  · rintro ⟨x, y⟩ ⟨hx, -⟩ ⟨x', y'⟩ ⟨hx', -⟩ h
    simp only [turnCell, Cell.mk.injEq] at *
    omega
  · rintro ⟨x, y⟩ ⟨hx, hy⟩
    refine ⟨⟨b.width - 1 - y, x⟩, ⟨?_, hx⟩, ?_⟩
    · dsimp only at *
      omega
    · simp only [turnCell, Cell.mk.injEq, true_and] at *
      omega
  · rintro ⟨x, y⟩ ⟨hx, -⟩
    simp only [turnCell, Point.ofCell, Point.shift, Point.turn, Function.comp_apply, id_eq,
      Point.mk.injEq] at *
    omega

variable {f : Fin pieces.length → Set Cell}

theorem IsTiling.subset_isFree (h : b.IsTiling pieces f) (i : Fin pieces.length) :
    f i ⊆ {c | b.isFree c = true} := fun _ ↦ h.isFree

/-- **The tiling moved along with the board is a tiling.** -/
theorem IsTiling.move (h : b.IsTiling pieces f) (hg : b.MovedBy g b') :
    b'.IsTiling pieces fun i ↦ g '' f i where
  isCopy i := by
    obtain ⟨f₀, hf₀, v, hv⟩ := hg.symmetry
    exact (h.isCopy i).image hf₀ fun c hc ↦ hv c (isFree_iff.1 (h.isFree hc)).1
  disjoint := by
    rintro i j hij _ ⟨c, hc, rfl⟩ ⟨d, hd, hdc⟩
    obtain rfl := hg.bijOn.injOn (h.isFree hd) (h.isFree hc) hdc
    exact h.disjoint i j hij d hc hd
  iUnion_eq := by rw [← Set.image_iUnion, h.iUnion_eq, hg.bijOn.image_eq]

/-- There are finitely many tilings, as a search finds them all. -/
theorem finite_tilings (b : Board) (pieces : List Piece) : {f | b.IsTiling pieces f}.Finite := by
  obtain ⟨p, -, h⟩ := b.exists_problem pieces
  rw [← h.bijOn_regions.image_eq]
  exact p.solutions.finite_toSet.image _

/-- **A board that is moved has no fewer tilings.** -/
theorem MovedBy.ncard_tilings_le (hg : b.MovedBy g b') (pieces : List Piece) :
    {f | b.IsTiling pieces f}.ncard ≤ {f | b'.IsTiling pieces f}.ncard := by
  refine Set.ncard_le_ncard_of_injOn (fun f i ↦ g '' f i) (fun f hf ↦ hf.move hg) ?_
    (b'.finite_tilings pieces)
  intro f hf f' hf' heq
  funext i
  have himage : g '' f i = g '' f' i := congrFun heq i
  rwa [hg.bijOn.injOn.image_eq_image_iff (hf.subset_isFree i) (hf'.subset_isFree i)] at himage

theorem Moved.ncard_tilings_le (h : b.Moved b') (pieces : List Piece) :
    {f | b.IsTiling pieces f}.ncard ≤ {f | b'.IsTiling pieces f}.ncard := by
  induction h with
  | refl => exact le_rfl
  | @flip b' _ ih => exact ih.trans (b'.movedBy_flip.ncard_tilings_le pieces)
  | @turn b' _ ih => exact ih.trans (b'.movedBy_turn.ncard_tilings_le pieces)

/-- **A board has as many tilings as the board moved.** -/
theorem Moved.ncard_tilings_eq (h : b.Moved b') (pieces : List Piece) :
    {f | b.IsTiling pieces f}.ncard = {f | b'.IsTiling pieces f}.ncard :=
  le_antisymm (h.ncard_tilings_le pieces) (h.symm.ncard_tilings_le pieces)

end Board

/-! ## Rearranging pieces -/

/-- **The pieces have the same shape up to turns and flips.** -/
def Piece.Reoriented (piece piece' : Piece) : Prop := piece'.shape ∈ piece.shape.orientations

/-- A list that is put in another order has its members at other positions. -/
theorem exists_equiv_of_perm {α : Type} {l l' : List α} (h : l.Perm l') :
    ∃ σ : Fin l.length ≃ Fin l'.length, ∀ i, l'.get (σ i) = l.get i := by
  induction h with
  | nil => exact ⟨.refl _, fun _ ↦ rfl⟩
  | cons x _ ih =>
    obtain ⟨σ, hσ⟩ := ih
    refine ⟨(finSuccEquiv _).trans (σ.optionCongr.trans (finSuccEquiv _).symm), fun i ↦ ?_⟩
    cases i using Fin.cases with
    | zero => rfl
    | succ i => exact hσ i
  | swap x y l =>
    refine ⟨Equiv.swap 0 1, fun i ↦ ?_⟩
    cases i using Fin.cases with
    | zero =>
      rw [Equiv.swap_apply_left]
      rfl
    | succ i =>
      cases i using Fin.cases with
      | zero =>
        rw [show (Fin.succ 0 : Fin (l.length + 2)) = 1 from rfl, Equiv.swap_apply_right]
        rfl
      | succ i =>
        rw [Equiv.swap_apply_of_ne_of_ne (Fin.succ_ne_zero _) (by simp [Fin.ext_iff])]
        rfl
  | trans _ _ ih ih' =>
    obtain ⟨σ, hσ⟩ := ih
    obtain ⟨σ', hσ'⟩ := ih'
    exact ⟨σ.trans σ', fun i ↦ (hσ' _).trans (hσ i)⟩

namespace Board

variable {b b' : Board} {pieces pieces' l : List Piece} {f : Fin pieces.length → Set Cell}

/-- **A tiling stays one when the pieces are listed in another order and reoriented.** -/
theorem IsTiling.rearrange (h : b.IsTiling pieces f) (σ : Fin pieces.length ≃ Fin pieces'.length)
    (hσ : ∀ i, (pieces.get i).Reoriented (pieces'.get (σ i))) :
    b.IsTiling pieces' (f ∘ σ.symm) where
  isCopy j := by
    have hj := hσ (σ.symm j)
    rw [σ.apply_symm_apply] at hj
    exact (Shape.isCopy_iff_of_mem_orientations hj).2 (h.isCopy (σ.symm j))
  disjoint i j hij := h.disjoint _ _ (σ.symm.injective.ne hij)
  iUnion_eq := (σ.symm.surjective.iUnion_comp f).trans h.iUnion_eq

/-- There are no fewer tilings then. -/
theorem ncard_tilings_le_of_equiv (b : Board) (σ : Fin pieces.length ≃ Fin pieces'.length)
    (hσ : ∀ i, (pieces.get i).Reoriented (pieces'.get (σ i))) :
    {f | b.IsTiling pieces f}.ncard ≤ {f | b.IsTiling pieces' f}.ncard :=
  Set.ncard_le_ncard_of_injOn (· ∘ σ.symm) (fun _ hf ↦ hf.rearrange σ hσ)
    σ.symm.surjective.injective_comp_right.injOn (b.finite_tilings pieces')

/-- **Neither the order of the pieces nor how they are turned makes a difference** to the number of
tilings. -/
theorem ncard_tilings_eq_of_perm (b : Board) (hperm : pieces.Perm l)
    (hreoriented : List.Forall₂ Piece.Reoriented l pieces') :
    {f | b.IsTiling pieces f}.ncard = {f | b.IsTiling pieces' f}.ncard := by
  obtain ⟨σ, hσ⟩ := exists_equiv_of_perm hperm
  let τ := σ.trans (finCongr hreoriented.length_eq)
  have hτ (i : Fin pieces.length) : (pieces.get i).Reoriented (pieces'.get (τ i)) :=
    hσ i ▸ hreoriented.get _ _
  refine le_antisymm (b.ncard_tilings_le_of_equiv τ hτ) ?_
  refine b.ncard_tilings_le_of_equiv τ.symm fun j ↦ Shape.mem_orientations_symm ?_
  have hj := hτ (τ.symm j)
  rwa [τ.apply_symm_apply] at hj

/-! ## Searching on both sides -/

theorem Poses.countSolutions_fst {p : Problem Requirement Placement} (h : b.Poses pieces p) :
    p.countSolutions.1 = {f | b.IsTiling pieces f}.ncard := by
  rw [h.built.countSolutions_fst, h.length_solutions]

/-- **Counting tilings respects the symmetries of the board and of the pieces.**  On one side is a
board with some pieces.  On the other is the board after any number of mirrorings and quarter turns,
with the pieces in any order and each of them reoriented in any way.  Both problems can be put
together; their searches count the same number of solutions; and a first solution is found either
for both or for none. -/
theorem countSolutions_moved (hb : b.Moved b') (hperm : pieces.Perm l)
    (hreoriented : List.Forall₂ Piece.Reoriented l pieces') :
    ∃ p p', b.problem pieces = .ok p ∧ b'.problem pieces' = .ok p' ∧
      p.countSolutions.1 = p'.countSolutions.1 ∧
      (p.firstSolution.1.isSome ↔ p'.firstSolution.1.isSome) := by
  obtain ⟨p, hp, h⟩ := b.exists_problem pieces
  obtain ⟨p', hp', h'⟩ := b'.exists_problem pieces'
  have hcount : p.countSolutions.1 = p'.countSolutions.1 := by
    rw [h.countSolutions_fst, h'.countSolutions_fst, hb.ncard_tilings_eq,
      b'.ncard_tilings_eq_of_perm hperm hreoriented]
  refine ⟨p, p', hp, hp', hcount, ?_⟩
  rw [h.built.isSome_firstSolution_iff, h'.built.isSome_firstSolution_iff, hcount]

/-- As there are two ways to lay two dominoes on the strip, so there are if the strip is stood on
its end and turned over, and the dominoes are exchanged with one of them upright. -/
theorem countSolutions_moved_strip : ∃ p',
    strip.turn.flip.problem [.domino '.', .ofShape '#' (Piece.domino '#').shape.turn] = .ok p' ∧
      p'.countSolutions.1 = 2 ∧ p'.firstSolution.1.isSome := by
  have hreoriented : List.Forall₂ Piece.Reoriented [.domino '.', .domino '#']
      [.domino '.', .ofShape '#' (Piece.domino '#').shape.turn] :=
    .cons (Shape.self_mem_orientations _)
      (.cons (Shape.turn_mem_orientations (Shape.self_mem_orientations _)) .nil)
  obtain ⟨p, p', hp, hp', hcount, hfirst⟩ :=
    countSolutions_moved (.flip (.turn (.refl (b := strip)))) (.swap _ _ _) hreoriented
  have hanswer : (strip.problem [.domino '#', .domino '.']).map (fun p ↦
      (p.countSolutions.1, p.firstSolution.1.isSome)) = .ok (2, true) := by
    decide +kernel
  rw [hp] at hanswer
  obtain ⟨htwo, hsome⟩ := Prod.mk.inj (Except.ok.inj hanswer)
  exact ⟨p', hp', hcount ▸ htwo, hfirst.1 hsome⟩

end Board

end ExactCover
