import ExactCover.Polyomino.Lemmas
import Mathlib.Data.Set.Image

/-!
# The symmetries of the plane and the orientations of a shape

`Shape.turn` and `Shape.flip` move a shape and bring it back to its normal form, so what they do is
best seen in the plane, where nothing has to be brought back.  A shape with its corner on `v` is the
set of points `Shape.pointsAt v`, and this set determines both the shape and `v`
(`Shape.pointsAt_injective`): that is what normal forms are good for.  A shape is the image of
another under a map of the plane if some set of points of the one is taken to one of the other
(`Shape.IsImage`), and by what was just said it is the only one.  So the laws which hold of turns
and flips in the plane hold of those of shapes as well.

From these laws it follows that `Shape.orientations` is closed under both, and that it consists of
the images of the shape under all `Point.Symmetry` maps (`Shape.mem_orientations_iff_isImage`).
-/

set_option autoImplicit false

namespace ExactCover

/-! ## Maps of the plane -/

namespace Point

/-- The point with the coordinates of a cell. -/
def ofCell (c : Cell) : Point := ⟨c.x, c.y⟩

theorem ofCell_injective : Function.Injective ofCell := by
  rintro ⟨x, y⟩ ⟨x', y'⟩ h
  simpa [ofCell, Int.ofNat_inj] using h

/-- The point at the offset `p` from `v`. -/
def shift (v p : Point) : Point := ⟨v.x + p.x, v.y + p.y⟩

theorem shift_injective (v : Point) : Function.Injective v.shift := by
  rintro ⟨x, y⟩ ⟨x', y'⟩ h
  simpa [shift] using h

theorem ofCell_shift (c d : Cell) : ofCell (c.shift d) = (ofCell c).shift (ofCell d) := by
  simp [ofCell, shift, Cell.shift]

/-- The quarter turn about the origin. -/
def turn (p : Point) : Point := ⟨p.y, -p.x⟩

/-- The reflection that exchanges left and right. -/
def flip (p : Point) : Point := ⟨-p.x, p.y⟩

/-- **Any number of quarter turns and reflections**, one after another. -/
inductive Symmetry : (Point → Point) → Prop
  /-- Doing nothing. -/
  | id : Symmetry id
  /-- A quarter turn more. -/
  | turn {f : Point → Point} (h : Symmetry f) : Symmetry (turn ∘ f)
  /-- A reflection more. -/
  | flip {f : Point → Point} (h : Symmetry f) : Symmetry (flip ∘ f)

theorem Symmetry.injective {f : Point → Point} (hf : Symmetry f) : Function.Injective f := by
  induction hf with
  | id => exact Function.injective_id
  | turn _ ih =>
    refine Function.Injective.comp ?_ ih
    rintro ⟨x, y⟩ ⟨x', y'⟩ h
    simpa [Point.turn, and_comm] using h
  | flip _ ih =>
    refine Function.Injective.comp ?_ ih
    rintro ⟨x, y⟩ ⟨x', y'⟩ h
    simpa [Point.flip] using h

/-- One after the other, symmetries are a symmetry. -/
theorem Symmetry.comp {f g : Point → Point} (hf : Symmetry f) (hg : Symmetry g) :
    Symmetry (f ∘ g) := by
  induction hf with
  | id => exact hg
  | turn _ ih => exact ih.turn
  | flip _ ih => exact ih.flip

/-- They leave the origin where it is, so what was shifted is shifted still. -/
theorem Symmetry.map_shift {f : Point → Point} (hf : Symmetry f) (v p : Point) :
    f (v.shift p) = (f v).shift (f p) := by
  induction hf with
  | id => rfl
  | turn _ ih =>
    rw [Function.comp_apply, Function.comp_apply, ih, Function.comp_apply]
    simp only [Point.turn, shift, Point.mk.injEq, true_and]
    omega
  | flip _ ih =>
    rw [Function.comp_apply, Function.comp_apply, ih, Function.comp_apply]
    simp only [Point.flip, shift, Point.mk.injEq, and_true]
    omega

theorem shift_shift (u v p : Point) : u.shift (v.shift p) = (u.shift v).shift p := by
  simp only [shift, Point.mk.injEq]
  omega

/-- **Any number of quarter turns, reflections and translations**, one after another. -/
inductive Motion : (Point → Point) → Prop
  /-- Doing nothing. -/
  | id : Motion id
  /-- A quarter turn more. -/
  | turn {f : Point → Point} (h : Motion f) : Motion (turn ∘ f)
  /-- A reflection more. -/
  | flip {f : Point → Point} (h : Motion f) : Motion (flip ∘ f)
  /-- A translation more. -/
  | shift (v : Point) {f : Point → Point} (h : Motion f) : Motion (v.shift ∘ f)

theorem Symmetry.motion {f : Point → Point} (hf : Symmetry f) : Motion f := by
  induction hf with
  | id => exact .id
  | turn _ ih => exact ih.turn
  | flip _ ih => exact ih.flip

/-- **One translation at the end does what all translations on the way do.** -/
theorem Motion.exists_symmetry {f : Point → Point} (hf : Motion f) :
    ∃ g, Symmetry g ∧ ∃ v : Point, ∀ p, f p = v.shift (g p) := by
  induction hf with
  | id => exact ⟨_, .id, ⟨0, 0⟩, fun p ↦ by simp [Point.shift]⟩
  | turn _ ih =>
    obtain ⟨g, hg, v, hv⟩ := ih
    refine ⟨_, hg.turn, v.turn, fun p ↦ ?_⟩
    rw [Function.comp_apply, hv]
    exact Symmetry.id.turn.map_shift v (g p)
  | flip _ ih =>
    obtain ⟨g, hg, v, hv⟩ := ih
    refine ⟨_, hg.flip, v.flip, fun p ↦ ?_⟩
    rw [Function.comp_apply, hv]
    exact Symmetry.id.flip.map_shift v (g p)
  | shift u _ ih =>
    obtain ⟨g, hg, v, hv⟩ := ih
    exact ⟨g, hg, u.shift v, fun p ↦ by rw [Function.comp_apply, hv, shift_shift]⟩

end Point

namespace Shape

variable {s t u : Shape} {v w : Point} {f : Point → Point}

/-! ## Shapes in the plane -/

/-- The points that a shape covers if its corner lies on `v`. -/
def pointsAt (s : Shape) (v : Point) : Set Point :=
  (fun c ↦ v.shift (.ofCell c)) '' {c | c ∈ s.cells}

theorem le_of_pointsAt_subset (h : s.pointsAt v ⊆ t.pointsAt w) : w.x ≤ v.x ∧ w.y ≤ v.y := by
  obtain ⟨c, hc, hcx⟩ := s.touches_left
  obtain ⟨d, hd, hdy⟩ := s.touches_top
  obtain ⟨c', -, hc'⟩ := h ⟨c, hc, rfl⟩
  obtain ⟨d', -, hd'⟩ := h ⟨d, hd, rfl⟩
  have hx := congrArg Point.x hc'
  have hy := congrArg Point.y hd'
  simp only [Point.shift, Point.ofCell, hcx, hdy] at hx hy
  omega

/-- **The points covered determine the shape and the place of its corner.** -/
theorem pointsAt_injective (h : s.pointsAt v = t.pointsAt w) : s = t ∧ v = w := by
  have hvw : v = w := by
    have h₁ := le_of_pointsAt_subset h.subset
    have h₂ := le_of_pointsAt_subset h.superset
    rw [Point.mk.injEq]
    omega
  subst hvw
  have hinjective : Function.Injective fun c ↦ v.shift (.ofCell c) :=
    v.shift_injective.comp Point.ofCell_injective
  refine ⟨Shape.ext (Std.ExtTreeSet.ext_mem fun c ↦ ?_), rfl⟩
  exact Set.ext_iff.1 (hinjective.image_injective h) c

/-- Where the points of a shape are taken if it is known where its cells are. -/
theorem image_pointsAt {g : Cell → Cell} (hcells : ∀ d, d ∈ t.cells ↔ ∃ c ∈ s.cells, d = g c)
    (hpoint : ∀ c ∈ s.cells, f (v.shift (.ofCell c)) = w.shift (.ofCell (g c))) :
    f '' s.pointsAt v = t.pointsAt w := by
  ext p
  simp only [pointsAt, Set.image_image, Set.mem_image, Set.mem_ofPred_eq, hcells]
  constructor
  · rintro ⟨c, hc, rfl⟩
    exact ⟨_, ⟨c, hc, rfl⟩, (hpoint c hc).symm⟩
  · rintro ⟨_, ⟨c, hc, rfl⟩, rfl⟩
    exact ⟨c, hc, hpoint c hc⟩

/-- A turn takes the points of a shape to those of the turned shape. -/
theorem turn_image_pointsAt (s : Shape) (v : Point) :
    Point.turn '' s.pointsAt v = s.turn.pointsAt ⟨v.y, -v.x - (s.width - 1)⟩ := by
  refine image_pointsAt (fun _ ↦ mem_turn) fun c hc ↦ ?_
  have hlt := x_lt_width hc
  simp only [Point.turn, Point.shift, Point.ofCell, Point.mk.injEq, true_and]
  omega

/-- A flip takes them to those of the flipped shape. -/
theorem flip_image_pointsAt (s : Shape) (v : Point) :
    Point.flip '' s.pointsAt v = s.flip.pointsAt ⟨-v.x - (s.width - 1), v.y⟩ := by
  refine image_pointsAt (fun _ ↦ mem_flip) fun c hc ↦ ?_
  have hlt := x_lt_width hc
  simp only [Point.flip, Point.shift, Point.ofCell, Point.mk.injEq, and_true]
  omega

theorem shift_image_pointsAt (s : Shape) (v w : Point) :
    v.shift '' s.pointsAt w = s.pointsAt (v.shift w) := by
  refine image_pointsAt (g := id) (fun d ↦ by simp) fun c _ ↦ ?_
  simp only [Point.shift, Point.ofCell, Point.mk.injEq, id_eq]
  omega

/-! ## Images of a shape -/

/-- **The shape `t` is the image of `s`** under a map of the plane, wherever its corner comes to
lie. -/
def IsImage (f : Point → Point) (s t : Shape) : Prop := ∃ v, f '' s.pointsAt ⟨0, 0⟩ = t.pointsAt v

namespace IsImage

theorem id (s : Shape) : IsImage id s s := ⟨⟨0, 0⟩, Set.image_id _⟩

theorem turn (h : IsImage f s t) : IsImage (Point.turn ∘ f) s t.turn := by
  obtain ⟨v, hv⟩ := h
  exact ⟨_, by rw [Set.image_comp, hv, turn_image_pointsAt]⟩

theorem flip (h : IsImage f s t) : IsImage (Point.flip ∘ f) s t.flip := by
  obtain ⟨v, hv⟩ := h
  exact ⟨_, by rw [Set.image_comp, hv, flip_image_pointsAt]⟩

/-- Maps that are the same have the same images. -/
theorem unique {g : Point → Point} (h : IsImage f s t) (hg : IsImage g s u)
    (hfg : ∀ p, f p = g p) : t = u := by
  obtain ⟨v, hv⟩ := h
  obtain ⟨w, hw⟩ := hg
  rw [funext hfg, hw] at hv
  exact (pointsAt_injective hv).1.symm

end IsImage

/-! ## Laws -/

/-- **Four quarter turns are none.** -/
@[simp]
theorem turn_turn_turn_turn (s : Shape) : s.turn.turn.turn.turn = s :=
  (IsImage.id s).turn.turn.turn.turn.unique (.id s) fun p ↦ by simp [Point.turn]

/-- **Two flips are none.** -/
@[simp]
theorem flip_flip (s : Shape) : s.flip.flip = s :=
  (IsImage.id s).flip.flip.unique (.id s) fun p ↦ by simp [Point.flip]

/-- **A turn after a flip is a flip after the opposite turn.** -/
theorem turn_flip (s : Shape) : s.flip.turn = s.turn.turn.turn.flip :=
  (IsImage.id s).flip.turn.unique (IsImage.id s).turn.turn.turn.flip fun p ↦ by
    simp [Point.turn, Point.flip]

/-- **A flip between two turns undoes them.** -/
theorem turn_flip_turn (s : Shape) : s.turn.flip.turn = s.flip := by
  rw [turn_flip, turn_turn_turn_turn]

/-! ## Orientations -/

theorem mem_turns_iff : t ∈ s.turns ↔
    t = s ∨ t = s.turn ∨ t = s.turn.turn ∨ t = s.turn.turn.turn := by
  simp [turns]

theorem mem_orientations_iff : t ∈ s.orientations ↔ t ∈ s.turns ∨ ∃ u ∈ s.turns, u.flip = t := by
  rw [orientations, Std.ExtTreeSet.mem_toList, Std.ExtTreeSet.mem_ofList, List.contains_iff_mem,
    List.mem_append, List.mem_map]

theorem turn_mem_turns (h : t ∈ s.turns) : t.turn ∈ s.turns := by
  rw [mem_turns_iff] at h ⊢
  rcases h with rfl | rfl | rfl | rfl <;> simp

/-- The orientations are closed under turns. -/
theorem turn_mem_orientations (h : t ∈ s.orientations) : t.turn ∈ s.orientations := by
  rw [mem_orientations_iff] at h ⊢
  rcases h with h | ⟨u, hu, rfl⟩
  · exact .inl (turn_mem_turns h)
  · refine .inr ⟨u.turn.turn.turn, ?_, (turn_flip u).symm⟩
    exact turn_mem_turns (turn_mem_turns (turn_mem_turns hu))

/-- They are closed under flips. -/
theorem flip_mem_orientations (h : t ∈ s.orientations) : t.flip ∈ s.orientations := by
  rw [mem_orientations_iff] at h ⊢
  rcases h with h | ⟨u, hu, rfl⟩
  · exact .inr ⟨t, h, rfl⟩
  · exact .inl (by rwa [flip_flip])

theorem self_mem_orientations (s : Shape) : s ∈ s.orientations :=
  mem_orientations_iff.2 (.inl (mem_turns_iff.2 (.inl rfl)))

theorem ascending_orientations (s : Shape) : Ascending s.orientations :=
  Std.ExtTreeSet.ordered_toList

theorem nodup_orientations (s : Shape) : s.orientations.Nodup := s.ascending_orientations.nodup

/-- The orientations of an orientation are no others. -/
theorem mem_orientations_trans (ht : t ∈ s.orientations) (hu : u ∈ t.orientations) :
    u ∈ s.orientations := by
  have hturns {v : Shape} (hv : v ∈ t.turns) : v ∈ s.orientations := by
    rcases mem_turns_iff.1 hv with rfl | rfl | rfl | rfl
    · exact ht
    · exact turn_mem_orientations ht
    · exact turn_mem_orientations (turn_mem_orientations ht)
    · exact turn_mem_orientations (turn_mem_orientations (turn_mem_orientations ht))
  rcases mem_orientations_iff.1 hu with hu | ⟨v, hv, rfl⟩
  · exact hturns hu
  · exact flip_mem_orientations (hturns hv)

/-- A shape is an orientation of each of its orientations. -/
theorem mem_orientations_symm (h : t ∈ s.orientations) : s ∈ t.orientations := by
  have hturns {v : Shape} (hv : v ∈ s.turns) : s ∈ v.orientations := by
    refine mem_orientations_iff.2 (.inl ?_)
    rcases mem_turns_iff.1 hv with rfl | rfl | rfl | rfl <;> simp [mem_turns_iff]
  rcases mem_orientations_iff.1 h with h | ⟨v, hv, rfl⟩
  · exact hturns h
  · have hback : v ∈ v.flip.orientations := by
      simpa using flip_mem_orientations v.flip.self_mem_orientations
    exact mem_orientations_trans hback (hturns hv)

/-- **An orientation of a shape has the same orientations as the shape.** -/
theorem orientations_eq_of_mem (h : t ∈ s.orientations) : t.orientations = s.orientations := by
  refine t.ascending_orientations.ext s.ascending_orientations fun u ↦ ?_
  exact ⟨mem_orientations_trans h, mem_orientations_trans (mem_orientations_symm h)⟩

/-- Every image of the shape is among them. -/
theorem exists_orientation (hf : Point.Symmetry f) : ∃ t ∈ s.orientations, IsImage f s t := by
  induction hf with
  | id => exact ⟨s, s.self_mem_orientations, .id s⟩
  | turn _ ih =>
    obtain ⟨t, ht, himage⟩ := ih
    exact ⟨t.turn, turn_mem_orientations ht, himage.turn⟩
  | flip _ ih =>
    obtain ⟨t, ht, himage⟩ := ih
    exact ⟨t.flip, flip_mem_orientations ht, himage.flip⟩

/-- **The orientations of a shape are its images under turns and reflections.** -/
theorem mem_orientations_iff_isImage :
    t ∈ s.orientations ↔ ∃ f, Point.Symmetry f ∧ IsImage f s t := by
  constructor
  · have hturns {u : Shape} (hu : u ∈ s.turns) : ∃ f, Point.Symmetry f ∧ IsImage f s u := by
      rcases mem_turns_iff.1 hu with rfl | rfl | rfl | rfl
      · exact ⟨_, .id, .id _⟩
      · exact ⟨_, .turn .id, (IsImage.id s).turn⟩
      · exact ⟨_, .turn (.turn .id), (IsImage.id s).turn.turn⟩
      · exact ⟨_, .turn (.turn (.turn .id)), (IsImage.id s).turn.turn.turn⟩
    intro h
    rcases mem_orientations_iff.1 h with h | ⟨u, hu, rfl⟩
    · exact hturns h
    · obtain ⟨f, hf, himage⟩ := hturns hu
      exact ⟨_, hf.flip, himage.flip⟩
  · rintro ⟨f, hf, h⟩
    obtain ⟨u, hu, himage⟩ := exists_orientation (s := s) hf
    exact himage.unique h (fun _ ↦ rfl) ▸ hu

end Shape

end ExactCover
