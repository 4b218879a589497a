import ExactCover.Board.Basic

/-!
# The free cells of a board

`Board.mem_freeCells` says that the list of free cells holds each of them, and
`Board.firstFreeCells_eq_take` that the first of them can be found without looking at the whole
board: among the first `n + k` cells in reading order, on a board with at most `k` walls and marks,
at least `n` are free.
-/

set_option autoImplicit false

namespace ExactCover.Board

variable {b : Board}

theorem contains_cellAt {i : Nat} (h : i < b.width * b.height) : b.Contains (b.cellAt i) :=
  ⟨Nat.mod_lt _ b.width_pos, Nat.div_lt_of_lt_mul h⟩

theorem cellAt_eq {c : Cell} (h : b.Contains c) : b.cellAt (b.width * c.y + c.x) = c := by
  rw [cellAt, Nat.mul_add_mod, Nat.mod_eq_of_lt h.1, Nat.mul_add_div b.width_pos,
    Nat.div_eq_of_lt h.1, Nat.add_zero]

theorem cellAt_injective {i j : Nat} (h : b.cellAt i = b.cellAt j) : i = j := by
  have hx : i % b.width = j % b.width := congrArg Cell.x h
  have hy : i / b.width = j / b.width := congrArg Cell.y h
  rw [← Nat.div_add_mod i b.width, ← Nat.div_add_mod j b.width, hx, hy]

/-- **The free cells are listed.** -/
theorem mem_freeCells {c : Cell} : c ∈ b.freeCells ↔ b.isFree c = true := by
  rw [freeCells, List.mem_filter, and_iff_right_iff_imp]
  intro h
  have hc := (isFree_iff.1 h).1
  refine List.mem_map.2 ⟨b.width * c.y + c.x, List.mem_range.2 ?_, cellAt_eq hc⟩
  calc b.width * c.y + c.x < b.width * c.y + b.width := Nat.add_lt_add_left hc.1 _
    _ = b.width * (c.y + 1) := (Nat.mul_succ _ _).symm
    _ ≤ b.width * b.height := Nat.mul_le_mul_left _ hc.2

/-- In reading order no cell comes twice. -/
theorem nodup_map_cellAt (b : Board) (m : Nat) : ((List.range m).map b.cellAt).Nodup :=
  List.Pairwise.map b.cellAt (fun _ _ hne h ↦ hne (cellAt_injective h)) List.nodup_range

/-- Every free cell is listed once. -/
theorem nodup_freeCells (b : Board) : b.freeCells.Nodup := (b.nodup_map_cellAt _).filter _

/-- Of the first cells in reading order, all but the walls and marks are free. -/
theorem le_length_filter_isFree {m : Nat} (h : m ≤ b.width * b.height) :
    m ≤ (((List.range m).map b.cellAt).filter b.isFree).length + (b.walls.size + b.marks.size) := by
  have hnodup : (((List.range m).map b.cellAt).filter fun c ↦ decide ¬b.isFree c = true).Nodup :=
    (b.nodup_map_cellAt m).filter _
  have hsubset : (((List.range m).map b.cellAt).filter fun c ↦ decide ¬b.isFree c = true) ⊆
      b.walls.toList ++ b.marks.toList := by
    intro c hc
    obtain ⟨hmem, hfree⟩ := List.mem_filter.1 hc
    obtain ⟨i, hi, rfl⟩ := List.mem_map.1 hmem
    have hcontains := contains_cellAt (Nat.lt_of_lt_of_le (List.mem_range.1 hi) h)
    rw [List.mem_append, Std.ExtTreeSet.mem_toList, Std.ExtTreeSet.mem_toList]
    by_cases hwall : b.cellAt i ∈ b.walls
    · exact .inl hwall
    · by_cases hmark : b.cellAt i ∈ b.marks
      · exact .inr hmark
      · simp [isFree_iff.2 ⟨hcontains, hwall, hmark⟩] at hfree
  have hle := hnodup.length_le_of_subset hsubset
  rw [List.length_append, Std.ExtTreeSet.length_toList, Std.ExtTreeSet.length_toList] at hle
  have hsplit := List.length_eq_countP_add_countP b.isFree (l := (List.range m).map b.cellAt)
  rw [List.length_map, List.length_range, List.countP_eq_length_filter,
    List.countP_eq_length_filter] at hsplit
  omega

/-- **Looking at no more cells than necessary finds the same free cells.** -/
theorem firstFreeCells_eq_take (b : Board) (n : Nat) :
    b.firstFreeCells n = b.freeCells.take n := by
  rw [firstFreeCells, freeCells]
  rcases Nat.le_total (b.width * b.height) (n + b.walls.size + b.marks.size) with h | h
  · rw [Nat.min_eq_left h]
  · rw [Nat.min_eq_right h]
    obtain ⟨k, hk⟩ := Nat.exists_eq_add_of_le h
    have hlen := le_length_filter_isFree h
    have hn : n ≤ (((List.range (n + b.walls.size + b.marks.size)).map b.cellAt).filter
        b.isFree).length := by
      omega
    generalize n + b.walls.size + b.marks.size = m at hk hn ⊢
    rw [hk, List.range_add, List.map_append, List.filter_append, List.take_append_of_le_length hn]

end ExactCover.Board
