import ExactCover.Proofs.Polyomino.Arithmetic
import ExactCover.Proofs.Polyomino.Copies

/-!
# Shapes up to translation

A shape stands for points regardless of where they lie.  If points have a shape, they are the shape
with its corner on their least coordinates (`Shape.setOf_mem_eq_pointsAt`), and since points
determine the shape that they are, two lists of points have the same shape just if a translation
takes the points of the one to those of the other (`Shape.eq_iff_translate`).  It need not be a
translation by a vector with coordinates.

Points have a shape if they do not extend too far in either direction (`Point.extent`).  To find it
the least coordinates are subtracted, and the extent is the largest of the differences: so the
subtraction succeeds for all points just if the extent is a coordinate (`Shape.ofPoints?_eq`,
`Shape.ofPoints_too_far`).
-/

set_option autoImplicit false

namespace ExactCover

variable {ps qs : List Point} {s t : Shape}

/-! ## Extent -/

namespace Point

variable {f : Point → Int}

/-- The greatest of the coordinates that `f` takes from the points; zero if there are none. -/
def greatest (f : Point → Int) (ps : List Point) : Int := (ps.map f).max?.getD 0

/-- **How far the points extend** in the direction of `f`. -/
def extent (f : Point → Int) (ps : List Point) : Int := greatest f ps - least f ps

/-- The extent is the largest distance from the least coordinate. -/
theorem extent_eq (hps : ps ≠ []) : ∃ n : Nat, extent f ps = n ∧
    (∀ p ∈ ps, (f p - least f ps).toNat ≤ n) ∧ ∃ p ∈ ps, (f p - least f ps).toNat = n := by
  have hne : ps.map f ≠ [] := by simpa using hps
  obtain ⟨m, hm⟩ := Option.isSome_iff_exists.1 (List.isSome_max?_of_ne_nil hne)
  obtain ⟨hmem, hle⟩ := List.max?_eq_some_iff.1 hm
  obtain ⟨q, hq, rfl⟩ := List.mem_map.1 hmem
  have hleast : least f ps ≤ f q := least_le hq
  have hgreatest : greatest f ps = f q := by rw [greatest, hm, Option.getD_some]
  refine ⟨(f q - least f ps).toNat, by rw [extent, hgreatest]; omega, fun p hp ↦ ?_, q, hq, rfl⟩
  have := hle _ (List.mem_map_of_mem hp)
  omega

theorem extent_lt_iff (hps : ps ≠ []) {n : Nat} :
    extent f ps < n ↔ ∀ p ∈ ps, (f p - least f ps).toNat < n := by
  obtain ⟨m, hm, hle, p, hp, hpm⟩ := extent_eq (f := f) hps
  rw [hm, Int.ofNat_lt]
  exact ⟨fun h q hq ↦ (hle q hq).trans_lt h, fun h ↦ hpm ▸ h p hp⟩

/-- The cells of points keep within the limit if the points do not extend too far. -/
theorem lt_extentLimit_iff (hps : ps ≠ []) :
    (∀ c ∈ cells ps, c.x < Shape.extentLimit ∧ c.y < Shape.extentLimit) ↔
      extent (·.x) ps < Shape.extentLimit ∧ extent (·.y) ps < Shape.extentLimit := by
  rw [extent_lt_iff hps, extent_lt_iff hps, cells, List.forall_mem_map]
  exact forall₂_and

end Point

/-! ## Normalizing with subtractions that can fail -/

namespace Point

/-- The cell of a point, counted from the given coordinates. -/
def cellFrom? (x y : Int) (p : Point) : Option Cell := do
  let x ← sub? p.x x
  let y ← sub? p.y y
  toCell? ⟨x, y⟩

/-- The cells of the points in normal form, ascending and each of them once. -/
def normalize? (ps : List Point) : Option (List Cell) := do
  let cells ← ps.mapM (cellFrom? (least (·.x) ps) (least (·.y) ps))
  return (Std.ExtTreeSet.ofList cells).toList

/-- A difference from the least coordinate is one if it keeps within the limit. -/
theorem isCoordinate_sub_least_iff {f : Point → Int} {p : Point} (hp : p ∈ ps) :
    IsCoordinate (f p - least f ps) ↔ (f p - least f ps).toNat < Shape.extentLimit := by
  have hleast : least f ps ≤ f p := least_le hp
  rw [IsCoordinate]
  omega

theorem normalize?_eq_some (h : ∀ c ∈ cells ps, c.x < Shape.extentLimit ∧ c.y < Shape.extentLimit) :
    normalize? ps = some (Std.ExtTreeSet.ofList (cells ps)).toList := by
  have hcell : ∀ p ∈ ps, cellFrom? (least (·.x) ps) (least (·.y) ps) p =
      some ⟨(p.x - least (·.x) ps).toNat, (p.y - least (·.y) ps).toNat⟩ := by
    intro p hp
    obtain ⟨hx, hy⟩ := h _ (List.mem_map_of_mem hp)
    have hlex : least (·.x) ps ≤ p.x := least_le hp
    have hley : least (·.y) ps ≤ p.y := least_le hp
    rw [cellFrom?, sub?_eq_some ((isCoordinate_sub_least_iff hp).2 hx),
      sub?_eq_some ((isCoordinate_sub_least_iff hp).2 hy)]
    exact toCell?_eq_some (Int.sub_nonneg_of_le hlex) (Int.sub_nonneg_of_le hley)
  rw [normalize?, mapM_eq_pure hcell]
  rfl

theorem normalize?_eq_none
    (h : ¬∀ c ∈ cells ps, c.x < Shape.extentLimit ∧ c.y < Shape.extentLimit) :
    normalize? ps = none := by
  rw [cells, List.forall_mem_map] at h
  push Not at h
  obtain ⟨p, hp, hlt⟩ := h
  have hcell : cellFrom? (least (·.x) ps) (least (·.y) ps) p = none := by
    rw [cellFrom?]
    by_cases hx : (p.x - least (·.x) ps).toNat < Shape.extentLimit
    · have hy : ¬(p.y - least (·.y) ps).toNat < Shape.extentLimit := (hlt hx).not_gt
      rw [sub?_eq_none (mt (isCoordinate_sub_least_iff hp).1 hy)]
      cases sub? p.x (least (·.x) ps) <;> rfl
    · rw [sub?_eq_none (mt (isCoordinate_sub_least_iff hp).1 hx)]
      rfl
  rw [normalize?, mapM_eq_none hp hcell]
  rfl

end Point

namespace Shape

/-- The cells of the shape that the points have, unless a difference that is needed for them is no
coordinate. -/
def ofPoints? (ps : List Point) : Option (Except ShapeError (List Cell)) :=
  if ps = [] then some (.error .noCells) else (Point.normalize? ps).map .ok

/-- **Points have a shape if they do not extend too far.** -/
theorem ofPoints_eq_ok_iff (hps : ps ≠ []) : (∃ s, ofPoints ps = .ok s) ↔
    Point.extent (·.x) ps < extentLimit ∧ Point.extent (·.y) ps < extentLimit := by
  rw [← Point.lt_extentLimit_iff hps, ofPoints, dif_neg hps]
  constructor
  · rintro ⟨s, hs⟩
    by_contra h
    rw [dif_neg h] at hs
    cases hs
  · intro h
    exact ⟨_, dif_pos h⟩

/-- Points that have a shape make it. -/
theorem exists_eq_normalize (hs : ofPoints ps = .ok s) :
    ∃ (hps : ps ≠ []) (h : ∀ c ∈ Point.cells ps, c.x < extentLimit ∧ c.y < extentLimit),
      s = normalize ps hps h := by
  rw [ofPoints] at hs
  split at hs
  · cases hs
  · split at hs
    · cases hs
      exact ⟨_, _, rfl⟩
    · cases hs

/-- **If points have a shape, no difference is amiss.** -/
theorem normalize?_eq (hs : ofPoints ps = .ok s) : Point.normalize? ps = some s.cells.toList := by
  obtain ⟨hps, h, rfl⟩ := exists_eq_normalize hs
  exact Point.normalize?_eq_some h

theorem ofPoints?_eq (hs : ofPoints ps = .ok s) : ofPoints? ps = some (.ok s.cells.toList) := by
  obtain ⟨hps, -, -⟩ := exists_eq_normalize hs
  rw [ofPoints?, if_neg hps, normalize?_eq hs]
  rfl

/-- **If they extend too far, some difference is no coordinate.** -/
theorem ofPoints_too_far (hps : ps ≠ [])
    (h : extentLimit ≤ Point.extent (·.x) ps ∨ extentLimit ≤ Point.extent (·.y) ps) :
    ofPoints? ps = none ∧ ofPoints ps = .error .tooFarApart := by
  have hlt : ¬∀ c ∈ Point.cells ps, c.x < extentLimit ∧ c.y < extentLimit := by
    rw [Point.lt_extentLimit_iff hps]
    omega
  rw [ofPoints?, if_neg hps, Point.normalize?_eq_none hlt, ofPoints, dif_neg hps, dif_neg hlt]
  exact ⟨rfl, rfl⟩

/-! ## The points of a shape -/

/-- **Points that have a shape are this shape**, with its corner on their least coordinates. -/
theorem setOf_mem_eq_pointsAt (hs : ofPoints ps = .ok s) :
    {p | p ∈ ps} = s.pointsAt ⟨Point.least (·.x) ps, Point.least (·.y) ps⟩ := by
  obtain ⟨hps, h, rfl⟩ := exists_eq_normalize hs
  ext p
  simp only [pointsAt, mem_normalize, Point.cells, List.mem_map, Set.mem_image, Set.mem_ofPred_eq,
    exists_exists_and_eq_and]
  have hpoint {q : Point} (hq : q ∈ ps) : Point.shift ⟨Point.least (·.x) ps, Point.least (·.y) ps⟩
      (.ofCell ⟨(q.x - Point.least (·.x) ps).toNat, (q.y - Point.least (·.y) ps).toNat⟩) = q := by
    have hx : Point.least (·.x) ps ≤ q.x := Point.least_le hq
    have hy : Point.least (·.y) ps ≤ q.y := Point.least_le hq
    obtain ⟨x, y⟩ := q
    rw [Point.shift, Point.ofCell, Point.mk.injEq]
    dsimp only at hx hy ⊢
    omega
  constructor
  · intro hp
    exact ⟨p, hp, hpoint hp⟩
  · rintro ⟨q, hq, rfl⟩
    rwa [hpoint hq]

/-- **Two lists of points have the same shape just if one is the other, shifted.** -/
theorem eq_iff_translate (hs : ofPoints ps = .ok s) (ht : ofPoints qs = .ok t) :
    s = t ↔ ∃ v : Point, {q | q ∈ qs} = v.shift '' {p | p ∈ ps} := by
  rw [setOf_mem_eq_pointsAt hs, setOf_mem_eq_pointsAt ht]
  constructor
  · rintro rfl
    refine ⟨⟨Point.least (·.x) qs - Point.least (·.x) ps,
      Point.least (·.y) qs - Point.least (·.y) ps⟩, ?_⟩
    rw [shift_image_pointsAt, Point.shift, Int.sub_add_cancel, Int.sub_add_cancel]
  · rintro ⟨v, hv⟩
    rw [shift_image_pointsAt] at hv
    exact (pointsAt_injective hv).1.symm

/-- **A shape is that of its cells.** -/
theorem ofPoints_ofCell (s : Shape) : ofPoints (s.cells.toList.map Point.ofCell) = .ok s := by
  have hps : s.cells.toList.map Point.ofCell ≠ [] := by simpa using s.toList_ne_nil
  have hlt : ∀ c ∈ Point.cells (s.cells.toList.map Point.ofCell),
      c.x < extentLimit ∧ c.y < extentLimit := by
    refine lt_extentLimit_of_mem_cells 0 0 fun p hp ↦ ?_
    obtain ⟨c, hc, rfl⟩ := List.mem_map.1 hp
    have := s.lt_extentLimit c (Std.ExtTreeSet.mem_toList.1 hc)
    rw [Point.ofCell]
    dsimp only
    omega
  obtain ⟨t, ht⟩ := (ofPoints_eq_ok_iff hps).2 ((Point.lt_extentLimit_iff hps).1 hlt)
  have hpoints : {p | p ∈ s.cells.toList.map Point.ofCell} = s.pointsAt ⟨0, 0⟩ := by
    ext p
    simp [pointsAt, Point.shift]
  rw [ht, (pointsAt_injective ((setOf_mem_eq_pointsAt ht).symm.trans hpoints)).1]

/-! ## Measures -/

/-- **It has as many cells as there are different points.** -/
theorem ncard_points (hs : ofPoints ps = .ok s) : {p | p ∈ ps}.ncard = s.area := by
  rw [setOf_mem_eq_pointsAt hs, ncard_pointsAt]

theorem width_eq_extent (hs : ofPoints ps = .ok s) :
    (s.width : Int) = Point.extent (·.x) ps + 1 := by
  obtain ⟨hps, h, rfl⟩ := exists_eq_normalize hs
  obtain ⟨n, hn, hle, p, hp, hpn⟩ := Point.extent_eq (f := (·.x)) hps
  have hwidth : (normalize ps hps h).width = n + 1 := by
    refine width_eq_of (fun c hc ↦ ?_)
      ⟨_, mem_normalize.2 (List.mem_map_of_mem hp), congrArg (· + 1) hpn⟩
    obtain ⟨q, hq, rfl⟩ := List.mem_map.1 (mem_normalize.1 hc)
    exact Nat.lt_succ_of_le (hle q hq)
  rw [hn, hwidth]
  rfl

theorem height_eq_extent (hs : ofPoints ps = .ok s) :
    (s.height : Int) = Point.extent (·.y) ps + 1 := by
  obtain ⟨hps, h, rfl⟩ := exists_eq_normalize hs
  obtain ⟨n, hn, hle, p, hp, hpn⟩ := Point.extent_eq (f := (·.y)) hps
  have hheight : (normalize ps hps h).height = n + 1 := by
    refine height_eq_of (fun c hc ↦ ?_)
      ⟨_, mem_normalize.2 (List.mem_map_of_mem hp), congrArg (· + 1) hpn⟩
    obtain ⟨q, hq, rfl⟩ := List.mem_map.1 (mem_normalize.1 hc)
    exact Nat.lt_succ_of_le (hle q hq)
  rw [hn, hheight]
  rfl

/-- The points of a shape, shifted by any vector, have the same shape. -/
theorem ofPoints_eq_of_translate (hs : ofPoints ps = .ok s) {v : Point}
    (hv : {q | q ∈ qs} = v.shift '' {p | p ∈ ps}) : ofPoints qs = .ok s := by
  obtain ⟨hps, h, -⟩ := exists_eq_normalize hs
  obtain ⟨p, hp⟩ := List.exists_mem_of_ne_nil ps hps
  have hqs : qs ≠ [] := List.ne_nil_of_mem (hv.superset ⟨p, hp, rfl⟩)
  have hlt : ∀ c ∈ Point.cells qs, c.x < extentLimit ∧ c.y < extentLimit := by
    refine lt_extentLimit_of_mem_cells (v.x + Point.least (·.x) ps) (v.y + Point.least (·.y) ps)
      fun q hq ↦ ?_
    obtain ⟨p, hp, rfl⟩ := hv.subset hq
    have hx : Point.least (·.x) ps ≤ p.x := Point.least_le hp
    have hy : Point.least (·.y) ps ≤ p.y := Point.least_le hp
    have := h _ (List.mem_map_of_mem hp)
    simp only [Point.shift] at this ⊢
    omega
  obtain ⟨t, ht⟩ := (ofPoints_eq_ok_iff hqs).2 ((Point.lt_extentLimit_iff hqs).1 hlt)
  rw [ht, (eq_iff_translate hs ht).2 ⟨v, hv⟩]

/-- **A shape is a set of points up to translation.**  Points that extend over no more columns and
rows than the limit have a shape, and no difference that is taken to find it fails.  Two such lists
have the same shape just if some vector takes the points of the one to those of the other; so order,
repetitions and a common offset do not matter, and the cells of a shape have this shape again.  It
has as many cells as there are different points, and as many columns and rows as they extend over.
For points that extend further a difference fails, and they are refused. -/
theorem ofPoints_up_to_translation (hps : ps ≠ []) :
    (Point.extent (·.x) ps < extentLimit → Point.extent (·.y) ps < extentLimit →
      ∃ s, ofPoints ps = .ok s ∧ ofPoints? ps = some (.ok s.cells.toList) ∧
        (∀ qs, qs ≠ [] → Point.extent (·.x) qs < extentLimit →
          Point.extent (·.y) qs < extentLimit → ∃ t, ofPoints qs = .ok t ∧
            (s = t ↔ ∃ v : Point, {q | q ∈ qs} = v.shift '' {p | p ∈ ps})) ∧
        (∀ qs (v : Point), {q | q ∈ qs} = v.shift '' {p | p ∈ ps} → ofPoints qs = .ok s) ∧
        s.area = {p | p ∈ ps}.ncard ∧ (s.width : Int) = Point.extent (·.x) ps + 1 ∧
        (s.height : Int) = Point.extent (·.y) ps + 1 ∧
        ofPoints (s.cells.toList.map .ofCell) = .ok s) ∧
    (extentLimit ≤ Point.extent (·.x) ps ∨ extentLimit ≤ Point.extent (·.y) ps →
      ofPoints? ps = none ∧ ofPoints ps = .error .tooFarApart) := by
  refine ⟨fun hx hy ↦ ?_, ofPoints_too_far hps⟩
  obtain ⟨s, hs⟩ := (ofPoints_eq_ok_iff hps).2 ⟨hx, hy⟩
  refine ⟨s, hs, ofPoints?_eq hs, fun qs hqs hqx hqy ↦ ?_,
    fun qs v hv ↦ ofPoints_eq_of_translate hs hv, (ncard_points hs).symm, width_eq_extent hs,
    height_eq_extent hs, ofPoints_ofCell s⟩
  obtain ⟨t, ht⟩ := (ofPoints_eq_ok_iff hqs).2 ⟨hqx, hqy⟩
  exact ⟨t, ht, eq_iff_translate hs ht⟩

/-- Two points as far apart as can be, on the left of the origin and on its right: the vector from
the ones to the others has no coordinates.  Two points that are further apart by one have no
shape. -/
theorem ofPoints_up_to_translation_apart :
    (∃ s, ofPoints [⟨-0x8000000000000000, 0⟩, ⟨-1, 2⟩, ⟨-0x8000000000000000, 0⟩] = .ok s ∧
      ofPoints [⟨0x7fffffffffffffff, 7⟩, ⟨0, 5⟩] = .ok s ∧ s.width = 0x8000000000000000) ∧
    ofPoints? [⟨-0x8000000000000000, 0⟩, ⟨0, 2⟩] = none := by
  have hps : [(⟨-0x8000000000000000, 0⟩ : Point), ⟨-1, 2⟩, ⟨-0x8000000000000000, 0⟩] ≠ [] := by simp
  have hfar : [(⟨-0x8000000000000000, 0⟩ : Point), ⟨0, 2⟩] ≠ [] := by simp
  have hshift : ∃ v : Point, {q | q ∈ [(⟨0x7fffffffffffffff, 7⟩ : Point), ⟨0, 5⟩]} =
      v.shift '' {p | p ∈ [(⟨-0x8000000000000000, 0⟩ : Point), ⟨-1, 2⟩,
        ⟨-0x8000000000000000, 0⟩]} := by
    refine ⟨⟨0x8000000000000000, 5⟩, Set.ext fun q ↦ ?_⟩
    simp [Point.shift, or_comm, eq_comm]
  have hextent : Point.extent (·.x) [⟨-0x8000000000000000, 0⟩, ⟨-1, 2⟩,
      ⟨-0x8000000000000000, 0⟩] = 0x7fffffffffffffff := by decide
  obtain ⟨s, hs, -, heq, -, -, hwidth, -⟩ :=
    (ofPoints_up_to_translation hps).1 (by decide) (by decide)
  obtain ⟨t, ht, hst⟩ := heq [⟨0x7fffffffffffffff, 7⟩, ⟨0, 5⟩] (by simp) (by decide) (by decide)
  refine ⟨⟨s, hs, hst.2 hshift ▸ ht, ?_⟩,
    ((ofPoints_up_to_translation hfar).2 (.inl (by decide))).1⟩
  omega

end Shape

end ExactCover
