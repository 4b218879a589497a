import ExactCover.Proofs.Board.Requirements
import Mathlib.Data.Set.Card

/-!
# Tilings

A tiling gives each piece a set of cells that is a copy of its shape, so that the sets are disjoint
and make up all free cells (`Board.IsTiling`).  This speaks of sets of cells alone.  A search for
tilings speaks of placements instead: of indices of pieces and orientations, and of corners.

`Placement.regions` leads from the latter to the former, and nothing is lost or counted twice on the
way.  Placements that tile the board give a tiling (`Board.TiledBy.isTiling`); they can be told from
it, since a placement is determined by its piece and its cells (`Board.TiledBy.eq_of_regions_eq`);
and every tiling comes from placements, since every copy of a piece on free cells has one
(`Board.IsTiling.exists_tiledBy`).  So a search finds the tilings, each once
(`Board.solve_bijOn_tilings`).
-/

set_option autoImplicit false

namespace ExactCover

variable {b : Board} {pieces : List Piece} {r : Placement} {c : Cell} {S S' : Set Placement}

/-- The cells that some placements give to each piece. -/
def Placement.regions (pieces : List Piece) (S : Set Placement) (i : Fin pieces.length) :
    Set Cell :=
  {c | ∃ r ∈ S, r.piece = i ∧ ∃ cells, r.cells pieces = .ok cells ∧ c ∈ cells}

namespace Board

/-- **The sets of cells are a tiling of the board** with the given pieces. -/
structure IsTiling (b : Board) (pieces : List Piece) (f : Fin pieces.length → Set Cell) : Prop where
  /-- Each piece has a copy of its shape. -/
  isCopy : ∀ i : Fin pieces.length, pieces[i].shape.IsCopy (f i)
  /-- No cell belongs to two pieces. -/
  disjoint : ∀ i j, i ≠ j → ∀ c ∈ f i, c ∉ f j
  /-- The cells are the free cells of the board. -/
  iUnion_eq : ⋃ i, f i = {c | b.isFree c = true}

variable {f : Fin pieces.length → Set Cell}

/-! ## From placements to tilings -/

namespace TiledBy

/-- What a piece is given are the cells of its placement. -/
theorem regions_eq (h : b.TiledBy pieces S) (hr : r ∈ S) {i : Fin pieces.length}
    (hi : r.piece = i) : Placement.regions pieces S i = {c | c ∈ r.footprint pieces} := by
  ext c
  constructor
  · rintro ⟨r', hr', hi', cells, hcells, hc⟩
    obtain rfl := (h.piece i i.isLt).unique ⟨hr', hi'⟩ ⟨hr, hi⟩
    rw [cells_eq_footprint (h.mem_placements _ hr')] at hcells
    cases hcells
    exact hc
  · exact fun hc ↦ ⟨r, hr, hi, _, cells_eq_footprint (h.mem_placements r hr), hc⟩

/-- **Placements that tile the board give a tiling.** -/
theorem isTiling (h : b.TiledBy pieces S) : b.IsTiling pieces (Placement.regions pieces S) where
  isCopy i := by
    obtain ⟨r, ⟨hr, hi⟩, -⟩ := h.piece i i.isLt
    have hpiece : pieces[r.piece]? = some pieces[i] := by
      rw [hi]
      exact List.getElem?_eq_getElem i.isLt
    rw [h.regions_eq hr hi]
    exact isCopy_footprint (h.mem_placements r hr) hpiece
  disjoint i j hij := by
    obtain ⟨r, ⟨hr, hi⟩, -⟩ := h.piece i i.isLt
    obtain ⟨r', ⟨hr', hj⟩, -⟩ := h.piece j j.isLt
    rw [h.regions_eq hr hi, h.regions_eq hr' hj]
    intro c hc hc'
    have hfree := isFree_of_mem_footprint (h.mem_placements r hr) hc
    obtain rfl := (h.cell c hfree).unique ⟨hr, hc⟩ ⟨hr', hc'⟩
    exact hij (Fin.ext (hi.symm.trans hj))
  iUnion_eq := by
    ext c
    rw [Set.mem_iUnion]
    constructor
    · rintro ⟨i, hc⟩
      obtain ⟨r, ⟨hr, hi⟩, -⟩ := h.piece i i.isLt
      rw [h.regions_eq hr hi] at hc
      exact isFree_of_mem_footprint (h.mem_placements r hr) hc
    · intro hfree
      obtain ⟨r, ⟨hr, hc⟩, -⟩ := h.cell c hfree
      refine ⟨⟨r.piece, piece_lt_of_mem_placements (h.mem_placements r hr)⟩, ?_⟩
      rw [h.regions_eq hr rfl]
      exact hc

/-- A placement can be told from the tiling that it is part of. -/
theorem mem_of_regions_eq (h : b.TiledBy pieces S) (h' : b.TiledBy pieces S')
    (heq : Placement.regions pieces S = Placement.regions pieces S') (hr : r ∈ S) : r ∈ S' := by
  have hmem := h.mem_placements r hr
  have hlt := piece_lt_of_mem_placements hmem
  obtain ⟨r', ⟨hr', hi⟩, -⟩ := h'.piece r.piece hlt
  obtain ⟨_, _, hlaid, -⟩ := mem_placements_iff.1 hmem
  obtain ⟨_, _, hlaid', -⟩ := mem_placements_iff.1 (h'.mem_placements r' hr')
  have hcells := congrFun heq ⟨r.piece, hlt⟩
  rw [h.regions_eq hr rfl, h'.regions_eq hr' hi] at hcells
  exact Placement.eq_of_footprint_eq hlaid hlaid' hi.symm hcells ▸ hr'

/-- **Different placements give different tilings.** -/
theorem eq_of_regions_eq (h : b.TiledBy pieces S) (h' : b.TiledBy pieces S')
    (heq : Placement.regions pieces S = Placement.regions pieces S') : S = S' :=
  Set.Subset.antisymm (fun _ ↦ h.mem_of_regions_eq h' heq)
    (fun _ ↦ h'.mem_of_regions_eq h heq.symm)

end TiledBy

/-! ## From tilings to placements -/

theorem IsTiling.isFree (h : b.IsTiling pieces f) {i : Fin pieces.length} (hc : c ∈ f i) :
    b.isFree c = true := by
  have hmem : c ∈ ⋃ i, f i := Set.mem_iUnion.2 ⟨i, hc⟩
  rw [h.iUnion_eq] at hmem
  exact hmem

/-- **Every tiling comes from placements.** -/
theorem IsTiling.exists_tiledBy (h : b.IsTiling pieces f) :
    ∃ S, b.TiledBy pieces S ∧ Placement.regions pieces S = f := by
  have hplaced (i : Fin pieces.length) : ∃ r ∈ b.placements pieces,
      r.piece = i ∧ {c | c ∈ r.footprint pieces} = f i :=
    exists_placement (List.getElem?_eq_getElem i.isLt) (h.isCopy i) fun _ hc ↦ h.isFree hc
  choose place hmem hpiece hcells using hplaced
  have hmem_iff (i : Fin pieces.length) (c : Cell) : c ∈ (place i).footprint pieces ↔ c ∈ f i :=
    Set.ext_iff.1 (hcells i) c
  have htiled : b.TiledBy pieces (Set.range place) := by
    refine ⟨?_, ?_, ?_⟩
    · rintro _ ⟨i, rfl⟩
      exact hmem i
    · intro c hfree
      have hc : c ∈ ⋃ i, f i := h.iUnion_eq.superset hfree
      obtain ⟨i, hc⟩ := Set.mem_iUnion.1 hc
      refine ⟨place i, ⟨⟨i, rfl⟩, (hmem_iff i c).2 hc⟩, ?_⟩
      rintro _ ⟨⟨j, rfl⟩, hcj⟩
      by_contra hne
      have hij : i ≠ j := fun he ↦ hne (he ▸ rfl)
      exact h.disjoint i j hij c hc ((hmem_iff j c).1 hcj)
    · intro i hi
      refine ⟨place ⟨i, hi⟩, ⟨⟨_, rfl⟩, hpiece _⟩, ?_⟩
      rintro _ ⟨⟨j, rfl⟩, hj⟩
      rw [hpiece] at hj
      exact congrArg place (Fin.ext hj)
  refine ⟨_, htiled, ?_⟩
  funext i
  rw [htiled.regions_eq ⟨i, rfl⟩ (hpiece i), hcells]

/-! ## All tilings -/

namespace Poses

variable {p : Problem Requirement Placement} {rows : List Placement}

theorem tiledBy (h : b.Poses pieces p) (hrows : rows ∈ p.solutions) :
    b.TiledBy pieces {r | r ∈ rows} :=
  h.covers_iff.1 (h.built.consistent.mem_solutions hrows).2

/-- **The solutions are the tilings.** -/
theorem bijOn_regions (h : b.Poses pieces p) :
    Set.BijOn (fun rows ↦ Placement.regions pieces {r | r ∈ rows}) {rows | rows ∈ p.solutions}
      {f | b.IsTiling pieces f} := by
  have hp := h.built.consistent
  refine ⟨fun rows hrows ↦ (h.tiledBy hrows).isTiling, ?_, ?_⟩
  · intro rows hrows rows' hrows' heq
    exact hp.eq_of_mem_solutions hrows hrows' <|
      (h.tiledBy hrows).eq_of_regions_eq (h.tiledBy hrows') heq
  · intro f hf
    obtain ⟨S, hS, rfl⟩ := IsTiling.exists_tiledBy hf
    obtain ⟨rows, hrows, rfl⟩ := hp.exists_mem_solutions (h.covers_iff.2 hS)
    exact ⟨rows, hrows, rfl⟩

theorem length_solutions (h : b.Poses pieces p) :
    p.solutions.length = {f | b.IsTiling pieces f}.ncard := by
  rw [← h.bijOn_regions.ncard_eq, ← List.coe_toFinset, Set.ncard_coe_finset,
    List.toFinset_card_of_nodup h.built.consistent.nodup_solutions]

end Poses

/-- **A search for tilings finds each of them once.**  The problem of tiling a board can be put
together.  A search of it answers the members of a list one after another, and then nothing any
more; these are lists of different placements, which use each piece exactly once and whose cells can
be had; and the cells that they give to the pieces make them correspond one to one to the tilings of
the board.  So counting the solutions counts the tilings. -/
theorem solve_bijOn_tilings (b : Board) (pieces : List Piece) :
    ∃ p, b.problem pieces = .ok p ∧ ∃ solutions : List (List Placement),
      (∀ k, (p.solve.after k).next.1 = solutions[k]?) ∧ solutions.Nodup ∧
        (∀ rows ∈ solutions, rows.Nodup ∧
          (∀ i, i < pieces.length → ∃! r, r ∈ rows ∧ r.piece = i) ∧
          ∀ r ∈ rows, r.piece < pieces.length ∧ r.cells pieces = .ok (r.footprint pieces)) ∧
        Set.BijOn (fun rows ↦ Placement.regions pieces {r | r ∈ rows})
          {rows | rows ∈ solutions} {f | b.IsTiling pieces f} ∧
        p.countSolutions.1 = {f | b.IsTiling pieces f}.ncard := by
  obtain ⟨p, hp, h⟩ := b.exists_problem pieces
  have hconsistent := h.built.consistent
  refine ⟨p, hp, p.solutions, h.built.answer_after, hconsistent.nodup_solutions,
    fun rows hrows ↦ ?_, h.bijOn_regions, ?_⟩
  · have htiled := h.tiledBy hrows
    refine ⟨(hconsistent.mem_solutions hrows).1, htiled.piece, fun r hr ↦ ?_⟩
    have hmem := htiled.mem_placements r hr
    exact ⟨piece_lt_of_mem_placements hmem, cells_eq_footprint hmem⟩
  · rw [h.built.countSolutions_fst, h.length_solutions]

end Board

end ExactCover
