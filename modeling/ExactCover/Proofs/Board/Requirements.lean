import ExactCover.Board.Lemmas
import ExactCover.Board.Problem
import ExactCover.Proofs.Board.Placements
import ExactCover.Proofs.Problem.Declaring
import ExactCover.Proofs.Search.ExactCovers

/-!
# The problem of tiling a board

`Board.problem` declares the free cells and the pieces as columns and the placements as rows.  None
of these declarations is refused (`Board.exists_problem`): no cell, piece or placement comes twice,
a placement covers none of its cells twice, and all of them are free.  So what the problem asks for
can be said without its tables: a set of placements in which every free cell and every piece occurs
exactly once (`Board.TiledBy`, `Board.Poses.covers_iff`).
-/

set_option autoImplicit false

namespace ExactCover

variable {b : Board} {pieces : List Piece} {r : Placement} {c : Cell} {i : Nat}

/-! ## Requirements -/

namespace Placement

@[simp]
theorem cell_mem_requirements :
    .cell c ∈ r.requirements pieces ↔ c ∈ r.footprint pieces := by
  simp [requirements]

@[simp]
theorem piece_mem_requirements : .piece i ∈ r.requirements pieces ↔ r.piece = i := by
  simp [requirements, eq_comm]

theorem nodup_requirements (pieces : List Piece) (r : Placement) :
    (r.requirements pieces).Nodup := by
  have hcells : ((r.footprint pieces).map Requirement.cell).Nodup :=
    (r.nodup_footprint pieces).map fun _ _ ↦ Requirement.cell.inj
  refine List.nodup_append.2 ⟨hcells, List.nodup_singleton _, ?_⟩
  simp

end Placement

namespace Board

@[simp]
theorem cell_mem_requirements : .cell c ∈ b.requirements pieces ↔ b.isFree c = true := by
  simp [requirements, mem_freeCells]

@[simp]
theorem piece_mem_requirements : .piece i ∈ b.requirements pieces ↔ i < pieces.length := by
  simp [requirements]

theorem nodup_requirements (b : Board) (pieces : List Piece) : (b.requirements pieces).Nodup := by
  have hcells : (b.freeCells.map Requirement.cell).Nodup :=
    b.nodup_freeCells.map fun _ _ ↦ Requirement.cell.inj
  have hpieces : ((List.range pieces.length).map Requirement.piece).Nodup :=
    List.nodup_range.map fun _ _ ↦ Requirement.piece.inj
  refine List.nodup_append.2 ⟨hcells, hpieces, ?_⟩
  simp

/-- What a placement on free cells contributes is required. -/
theorem mem_requirements_of_mem_placements {q : Requirement} (hr : r ∈ b.placements pieces)
    (hq : q ∈ r.requirements pieces) : q ∈ b.requirements pieces := by
  cases q with
  | cell c =>
    rw [Placement.cell_mem_requirements] at hq
    exact cell_mem_requirements.2 (isFree_of_mem_footprint hr hq)
  | piece i =>
    rw [Placement.piece_mem_requirements] at hq
    exact piece_mem_requirements.2 (hq ▸ piece_lt_of_mem_placements hr)

/-! ## The problem -/

/-- **The placements in `S` cover every free cell and use every piece exactly once.** -/
structure TiledBy (b : Board) (pieces : List Piece) (S : Set Placement) : Prop where
  /-- They cover free cells only. -/
  mem_placements : ∀ r ∈ S, r ∈ b.placements pieces
  /-- Every free cell is covered by exactly one of them. -/
  cell : ∀ c, b.isFree c = true → ∃! r, r ∈ S ∧ c ∈ r.footprint pieces
  /-- Every piece is used by exactly one of them. -/
  piece : ∀ i, i < pieces.length → ∃! r, r ∈ S ∧ r.piece = i

/-- **The problem `p` has the requirements as its columns and the placements as its rows.** -/
structure Poses (b : Board) (pieces : List Piece) (p : Problem Requirement Placement) : Prop where
  /-- It has been put together by declarations. -/
  built : p.Built
  /-- The columns are the requirements. -/
  mem_table : ∀ q, q ∈ p.table ↔ q ∈ b.requirements pieces
  /-- The rows are placements. -/
  mem_placements : ∀ r ∈ p.options, r ∈ b.placements pieces
  /-- All placements are rows, each with what it contributes. -/
  getElem?_options : ∀ r ∈ b.placements pieces, p.options[r]? = some (r.requirements pieces)

/-- **The problem of tiling a board can always be put together.** -/
theorem exists_problem (b : Board) (pieces : List Piece) :
    ∃ p, b.problem pieces = .ok p ∧ b.Poses pieces p := by
  obtain ⟨p, hp, hbuilt, htable, hoptions⟩ := Problem.Built.empty.foldlM_addColumn
    (R := Placement) (b.nodup_requirements pieces) fun _ _ ↦ Std.ExtTreeMap.not_mem_empty
  have hnew : ∀ r ∈ b.placements pieces, r ∉ p.options := fun r _ ↦ by
    rw [hoptions]
    exact Std.ExtTreeMap.not_mem_empty
  have hrows : ∀ r ∈ b.placements pieces,
      (∀ q ∈ r.requirements pieces, q ∈ p.table) ∧ (r.requirements pieces).Nodup := fun r hr ↦
    ⟨fun q hq ↦ (htable q).2 (.inl (mem_requirements_of_mem_placements hr hq)),
      r.nodup_requirements pieces⟩
  obtain ⟨p', hp', hbuilt', htable', hrows', hrest⟩ :=
    hbuilt.foldlM_addRow (b.ascending_placements pieces).nodup hnew hrows
  refine ⟨p', ?_, hbuilt', ?_, ?_, hrows'⟩
  · rw [problem, hp]
    exact hp'
  · intro q
    rw [htable', htable]
    exact or_iff_left Std.ExtTreeMap.not_mem_empty
  · intro r hr
    by_contra hn
    rw [Std.ExtTreeMap.mem_iff_isSome_getElem?, hrest r hn, hoptions,
      ← Std.ExtTreeMap.mem_iff_isSome_getElem?] at hr
    exact Std.ExtTreeMap.not_mem_empty hr

namespace Poses

variable {p : Problem Requirement Placement} {S : Set Placement}

theorem mem_options_iff (h : b.Poses pieces p) : r ∈ p.options ↔ r ∈ b.placements pieces := by
  refine ⟨h.mem_placements r, fun hr ↦ ?_⟩
  rw [Std.ExtTreeMap.mem_iff_isSome_getElem?, h.getElem?_options r hr, Option.isSome_some]

theorem columns_eq (h : b.Poses pieces p) (hr : r ∈ b.placements pieces) :
    p.options.columns r = r.requirements pieces :=
  Options.columns_eq_of_getElem? (h.getElem?_options r hr)

/-- **The exact covers are the sets of placements that tile the board.** -/
theorem covers_iff (h : b.Poses pieces p) :
    p.options.Covers p.table.keys p.options.keys S ↔ b.TiledBy pieces S := by
  have hmem : (∀ r ∈ S, r ∈ p.options.keys) ↔ ∀ r ∈ S, r ∈ b.placements pieces := by
    simp only [Std.ExtTreeMap.mem_keys, h.mem_options_iff]
  have hcolumn (hS : ∀ r ∈ S, r ∈ b.placements pieces) (q : Requirement) (r : Placement) :
      (r ∈ S ∧ q ∈ p.options.columns r) ↔ r ∈ S ∧ q ∈ r.requirements pieces :=
    and_congr_right fun hr ↦ by rw [h.columns_eq (hS r hr)]
  constructor
  · rintro ⟨hS, -, hunique⟩
    rw [hmem] at hS
    simp only [Std.ExtTreeMap.mem_keys, h.mem_table, hcolumn hS] at hunique
    exact ⟨hS, fun c hc ↦ by simpa using hunique (.cell c) (cell_mem_requirements.2 hc),
      fun i hi ↦ by simpa using hunique (.piece i) (piece_mem_requirements.2 hi)⟩
  · rintro ⟨hS, hcells, hpieces⟩
    refine ⟨hmem.2 hS, ?_, ?_⟩
    · intro r hr
      rw [h.columns_eq (hS r hr)]
      exact List.ne_nil_of_mem (Placement.piece_mem_requirements.2 rfl)
    · intro q hq
      rw [Std.ExtTreeMap.mem_keys, h.mem_table] at hq
      simp only [hcolumn hS]
      cases q with
      | cell c => simpa using hcells c (cell_mem_requirements.1 hq)
      | piece i => simpa using hpieces i (piece_mem_requirements.1 hq)

end Poses

end Board

end ExactCover
