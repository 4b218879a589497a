import ExactCover.Polyomino.Shape

/-!
# The cells of a turned and of a flipped shape

A shape is turned and flipped in the plane and then moved back to the top left, and it is a fact
about its extent where its cells come to lie: `Shape.mem_turn` and `Shape.mem_flip` say so in terms
of its width alone.  It follows that a turn exchanges width and height, and that a flip keeps both.
-/

set_option autoImplicit false

namespace ExactCover

namespace Point

theorem least_eq {f : Point → Int} {ps : List Point} {m : Int} (hmem : ∃ p ∈ ps, f p = m)
    (hle : ∀ p ∈ ps, m ≤ f p) : least f ps = m := by
  obtain ⟨p, hp, hpm⟩ := hmem
  obtain ⟨q, hq, hqm⟩ := exists_eq_least (f := f) (List.ne_nil_of_mem hp)
  have h₁ := least_le (f := f) hp
  have h₂ := hle q hq
  omega

end Point

namespace Shape

variable {s t : Shape} {c d : Cell}

theorem mem_normalize {ps : List Point} {hps : ps ≠ []}
    {hlt : ∀ c ∈ Point.cells ps, c.x < extentLimit ∧ c.y < extentLimit} :
    c ∈ (normalize ps hps hlt).cells ↔ c ∈ Point.cells ps := by
  simp [normalize]

/-! ## Extent -/

/-- A number is the largest successor of the numbers in a list. -/
theorem max?_getD_eq {l : List Nat} (hl : l ≠ []) :
    (∃ n ∈ l, n + 1 = (l.map (· + 1)).max?.getD 0) ∧
      ∀ n ∈ l, n < (l.map (· + 1)).max?.getD 0 := by
  have hne : l.map (· + 1) ≠ [] := by simpa using hl
  obtain ⟨m, hm⟩ := Option.isSome_iff_exists.1 (List.isSome_max?_of_ne_nil hne)
  obtain ⟨hmem, hle⟩ := List.max?_eq_some_iff.1 hm
  rw [hm, Option.getD_some]
  obtain ⟨n, hn, rfl⟩ := List.mem_map.1 hmem
  exact ⟨⟨n, hn, rfl⟩, fun n' hn' ↦ hle _ (List.mem_map_of_mem hn')⟩

theorem width_eq (s : Shape) :
    s.width = ((s.cells.toList.map (·.x)).map (· + 1)).max?.getD 0 := by
  rw [width, List.map_map]
  rfl

theorem height_eq (s : Shape) :
    s.height = ((s.cells.toList.map (·.y)).map (· + 1)).max?.getD 0 := by
  rw [height, List.map_map]
  rfl

/-- Some cell lies in the last column. -/
theorem exists_x_add_one_eq_width (s : Shape) : ∃ c ∈ s.cells, c.x + 1 = s.width := by
  obtain ⟨⟨n, hn, h⟩, -⟩ := max?_getD_eq (l := s.cells.toList.map (·.x))
    (by simpa using s.toList_ne_nil)
  obtain ⟨c, hc, rfl⟩ := List.mem_map.1 hn
  exact ⟨c, Std.ExtTreeSet.mem_toList.1 hc, by rw [h, width_eq]⟩

/-- Some cell lies in the last row. -/
theorem exists_y_add_one_eq_height (s : Shape) : ∃ c ∈ s.cells, c.y + 1 = s.height := by
  obtain ⟨⟨n, hn, h⟩, -⟩ := max?_getD_eq (l := s.cells.toList.map (·.y))
    (by simpa using s.toList_ne_nil)
  obtain ⟨c, hc, rfl⟩ := List.mem_map.1 hn
  exact ⟨c, Std.ExtTreeSet.mem_toList.1 hc, by rw [h, height_eq]⟩

theorem x_lt_width (hc : c ∈ s.cells) : c.x < s.width := by
  rw [width_eq]
  exact (max?_getD_eq (by simpa using s.toList_ne_nil)).2 _
    (List.mem_map_of_mem (Std.ExtTreeSet.mem_toList.2 hc))

theorem y_lt_height (hc : c ∈ s.cells) : c.y < s.height := by
  rw [height_eq]
  exact (max?_getD_eq (by simpa using s.toList_ne_nil)).2 _
    (List.mem_map_of_mem (Std.ExtTreeSet.mem_toList.2 hc))

/-- The width is the one number that bounds all columns and is attained. -/
theorem width_eq_of {n : Nat} (hlt : ∀ c ∈ s.cells, c.x < n) (hmem : ∃ c ∈ s.cells, c.x + 1 = n) :
    s.width = n := by
  obtain ⟨c, hc, hcn⟩ := hmem
  obtain ⟨d, hd, hdw⟩ := s.exists_x_add_one_eq_width
  have h₁ := x_lt_width hc
  have h₂ := hlt d hd
  omega

/-- The height is the one number that bounds all rows and is attained. -/
theorem height_eq_of {n : Nat} (hlt : ∀ c ∈ s.cells, c.y < n) (hmem : ∃ c ∈ s.cells, c.y + 1 = n) :
    s.height = n := by
  obtain ⟨c, hc, hcn⟩ := hmem
  obtain ⟨d, hd, hdh⟩ := s.exists_y_add_one_eq_height
  have h₁ := y_lt_height hc
  have h₂ := hlt d hd
  omega

/-! ## Symmetries -/

/-- A coordinate that negates the column is least where the column is last. -/
theorem least_of_neg_x {f : Point → Int} {g : Cell → Point} (h : ∀ c, f (g c) = -c.x) :
    Point.least f (s.cells.toList.map g) = 1 - s.width := by
  obtain ⟨d, hd, hdx⟩ := s.exists_x_add_one_eq_width
  refine Point.least_eq ⟨_, List.mem_map_of_mem (Std.ExtTreeSet.mem_toList.2 hd), ?_⟩
    fun p hp ↦ ?_
  · rw [h]
    omega
  · obtain ⟨e, he, rfl⟩ := List.mem_map.1 hp
    have := x_lt_width (Std.ExtTreeSet.mem_toList.1 he)
    rw [h]
    omega

/-- A coordinate that is the row is least in the first row. -/
theorem least_of_y {f : Point → Int} {g : Cell → Point} (h : ∀ c, f (g c) = c.y) :
    Point.least f (s.cells.toList.map g) = 0 := by
  obtain ⟨d, hd, hdy⟩ := s.touches_top
  refine Point.least_eq ⟨_, List.mem_map_of_mem (Std.ExtTreeSet.mem_toList.2 hd), ?_⟩
    fun p hp ↦ ?_
  · rw [h, hdy]
    rfl
  · obtain ⟨e, -, rfl⟩ := List.mem_map.1 hp
    rw [h]
    exact Int.natCast_nonneg _

/-- The negated column, counted from the least one, is the distance from the last column. -/
theorem toNat_neg_x_sub (hd : d ∈ s.cells) :
    ((-(d.x : Int)) - (1 - (s.width : Int))).toNat = s.width - 1 - d.x := by
  have := x_lt_width hd
  omega

/-- **Where a turn takes the cells.** -/
theorem mem_turn : c ∈ s.turn.cells ↔ ∃ d ∈ s.cells, c = ⟨d.y, s.width - 1 - d.x⟩ := by
  rw [turn, mem_normalize, Point.cells, least_of_y fun _ ↦ rfl, least_of_neg_x fun _ ↦ rfl,
    List.map_map, List.mem_map]
  refine exists_congr fun d ↦ ?_
  rw [Std.ExtTreeSet.mem_toList]
  refine and_congr_right fun hd ↦ ?_
  rw [eq_comm, Function.comp_apply]
  dsimp only
  rw [toNat_neg_x_sub hd, Int.sub_zero, Int.toNat_natCast]

/-- **Where a flip takes the cells.** -/
theorem mem_flip : c ∈ s.flip.cells ↔ ∃ d ∈ s.cells, c = ⟨s.width - 1 - d.x, d.y⟩ := by
  rw [flip, mem_normalize, Point.cells, least_of_neg_x fun _ ↦ rfl, least_of_y fun _ ↦ rfl,
    List.map_map, List.mem_map]
  refine exists_congr fun d ↦ ?_
  rw [Std.ExtTreeSet.mem_toList]
  refine and_congr_right fun hd ↦ ?_
  rw [eq_comm, Function.comp_apply]
  dsimp only
  rw [toNat_neg_x_sub hd, Int.sub_zero, Int.toNat_natCast]

theorem width_turn (s : Shape) : s.turn.width = s.height := by
  refine width_eq_of (fun c hc ↦ ?_) ?_
  · obtain ⟨d, hd, rfl⟩ := mem_turn.1 hc
    exact y_lt_height hd
  · obtain ⟨d, hd, h⟩ := s.exists_y_add_one_eq_height
    exact ⟨_, mem_turn.2 ⟨d, hd, rfl⟩, h⟩

theorem height_turn (s : Shape) : s.turn.height = s.width := by
  refine height_eq_of (fun c hc ↦ ?_) ?_
  · obtain ⟨d, hd, rfl⟩ := mem_turn.1 hc
    have := x_lt_width hd
    dsimp only
    omega
  · obtain ⟨d, hd, h⟩ := s.touches_left
    have := x_lt_width hd
    exact ⟨_, mem_turn.2 ⟨d, hd, rfl⟩, by dsimp only; omega⟩

theorem width_flip (s : Shape) : s.flip.width = s.width := by
  refine width_eq_of (fun c hc ↦ ?_) ?_
  · obtain ⟨d, hd, rfl⟩ := mem_flip.1 hc
    have := x_lt_width hd
    dsimp only
    omega
  · obtain ⟨d, hd, h⟩ := s.touches_left
    have := x_lt_width hd
    exact ⟨_, mem_flip.2 ⟨d, hd, rfl⟩, by dsimp only; omega⟩

theorem height_flip (s : Shape) : s.flip.height = s.height := by
  refine height_eq_of (fun c hc ↦ ?_) ?_
  · obtain ⟨d, hd, rfl⟩ := mem_flip.1 hc
    exact (y_lt_height hd : d.y < s.height)
  · obtain ⟨d, hd, h⟩ := s.exists_y_add_one_eq_height
    exact ⟨_, mem_flip.2 ⟨d, hd, rfl⟩, h⟩

end Shape

end ExactCover
