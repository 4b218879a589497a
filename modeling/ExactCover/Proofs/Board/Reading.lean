import ExactCover.Proofs.Board.Drawing

/-!
# Reading a drawing

The text of a drawing has a fixed layout, whatever the characters in it are: one for each cell, with
a single character between neighbours in a row and between two rows.  So the character at a given
cell stands at a place that depends on the width alone, and a text can be read without being taken
apart (`Tiling.shownAt_text`).

If the pieces have different names, the text of a solution gives the solution away.  A placement of
it shows its piece's name on all of its cells, and no other placement does: the cells with this name
are those of one placement, and they are as many as any placement of the piece covers.  So
`Board.placementsShown` finds the placements in the text (`Board.Depicts.mem_placementsShown`), and
two solutions never have the same text.
-/

set_option autoImplicit false

namespace ExactCover

/-! ## The layout of a text -/

/-- Parts of the same length stand at regular distances, also with something between them. -/
theorem getElem?_intercalate_singleton {α : Type} {a : α} {ls : List (List α)} {n i j : Nat}
    (hlength : ∀ l ∈ ls, l.length = n) (hi : i < n) :
    ([a].intercalate ls)[(n + 1) * j + i]? = ls[j]?.bind fun l ↦ l[i]? := by
  induction ls generalizing j with
  | nil => simp
  | cons l ls ih =>
    rw [List.forall_mem_cons] at hlength
    cases j with
    | zero =>
      rw [Nat.mul_zero, Nat.zero_add, List.getElem?_cons_zero, Option.bind_some]
      cases ls with
      | nil => rw [List.intercalate_singleton]
      | cons l' ls =>
        rw [List.intercalate_cons_cons, List.append_assoc,
          List.getElem?_append_left (hlength.1.symm ▸ hi)]
    | succ j =>
      have hindex : (n + 1) * (j + 1) + i = (l ++ [a]).length + ((n + 1) * j + i) := by
        rw [List.length_append, hlength.1, List.length_singleton, Nat.mul_succ]
        omega
      rw [List.getElem?_cons_succ, ← ih hlength.2, hindex]
      cases ls with
      | nil =>
        rw [List.intercalate_singleton, List.getElem?_eq_none (by simp; omega)]
        simp
      | cons l' ls =>
        rw [List.intercalate_cons_cons, List.getElem?_append_right (Nat.le_add_right _ _),
          Nat.add_sub_cancel_left]

namespace Tiling

variable {t : Tiling} {c : Cell}

/-- The character at a cell, in a text that is laid out like a drawing of the given width. -/
def shownAt (text : String) (width : Nat) (c : Cell) : Option Char :=
  text.toList[2 * (width * c.y + c.x)]?

/-- **The text of a drawing shows every cell at its place.** -/
theorem shownAt_text (hx : c.x < t.width) (hy : c.y < t.height) :
    shownAt t.text t.width c = some (t.charAt c) := by
  have hlength : ∀ l ∈ t.rows.map (List.intersperse ' '), l.length = 2 * t.width - 1 := by
    simp [rows, List.length_intersperse]
  have hrow : t.rows[c.y]? = some ((List.range t.width).map fun x ↦ t.charAt ⟨x, c.y⟩) := by
    simp [rows, hy]
  have hindex : 2 * (t.width * c.y + c.x) = (2 * t.width - 1 + 1) * c.y + 2 * c.x := by
    rw [Nat.sub_add_cancel (by omega), Nat.mul_add, Nat.mul_assoc]
  rw [shownAt, text, String.toList_ofList, hindex,
    getElem?_intercalate_singleton hlength (by omega), List.getElem?_map, hrow, Option.map_some,
    Option.bind_some, List.getElem?_intersperse_two_mul, List.getElem?_map,
    List.getElem?_range hx, Option.map_some]

end Tiling

/-! ## Finding the placements -/

namespace Board

variable {b : Board} {pieces : List Piece} {q r : Placement} {ps : List Placement} {t : Tiling}
  {c : Cell}

/-- **The placements that a text shows**: those which have the name of their piece on all of their
cells. -/
def placementsShown (b : Board) (pieces : List Piece) (text : String) : List Placement :=
  (b.placements pieces).filter fun r ↦ (r.footprint pieces).all fun c ↦
    Tiling.shownAt text b.width c == pieces[r.piece]?.map (·.name)

theorem mem_placementsShown {text : String} : r ∈ b.placementsShown pieces text ↔
    r ∈ b.placements pieces ∧ ∀ c ∈ r.footprint pieces,
      Tiling.shownAt text b.width c = pieces[r.piece]?.map (·.name) := by
  simp [placementsShown]

/-- Pieces with the same name are the same if all names are different. -/
theorem index_eq_of_name_eq (hnames : (pieces.map (·.name)).Nodup) {i j : Fin pieces.length}
    (h : (pieces.get i).name = (pieces.get j).name) : i = j := by
  have hi : i < (pieces.map (·.name)).length := by simp
  refine Fin.ext ((List.getElem?_inj hi hnames).1 ?_)
  simpa using h

/-- A placement whose cells are all covered by a placement of the same piece is this placement. -/
theorem eq_of_footprint_subset (hr : r ∈ b.placements pieces) (hq : q ∈ b.placements pieces)
    (hpiece : r.piece = q.piece) (hsubset : ∀ c ∈ r.footprint pieces, c ∈ q.footprint pieces) :
    r = q := by
  obtain ⟨piece, shape, hlaid, -⟩ := mem_placements_iff.1 hr
  obtain ⟨_, _, hlaid', -⟩ := mem_placements_iff.1 hq
  have hindex : pieces[r.piece]? = some piece := (Placement.laid?_eq_some_iff.1 hlaid).1
  have hindex' : pieces[q.piece]? = some piece := hpiece ▸ hindex
  have hle : {c | c ∈ q.footprint pieces}.ncard ≤ {c | c ∈ r.footprint pieces}.ncard := by
    rw [(isCopy_footprint hr hindex).ncard_eq, (isCopy_footprint hq hindex').ncard_eq]
  exact Placement.eq_of_footprint_eq hlaid hlaid' hpiece
    (Set.eq_of_subset_of_ncard_le hsubset hle (List.finite_toSet _))

namespace Depicts

/-- The text shows every cell of the board. -/
theorem shownAt_text (h : b.Depicts pieces ps t) (hc : b.Contains c) :
    Tiling.shownAt t.text b.width c = some (t.charAt c) := by
  rw [← h.width_eq]
  exact Tiling.shownAt_text (h.width_eq ▸ hc.1) (h.height_eq ▸ hc.2)

/-- A free cell that shows the name of a piece is covered by the placement of this piece. -/
theorem mem_footprint_of_charAt_eq (hnames : (pieces.map (·.name)).Nodup)
    (h : b.Depicts pieces ps t) (htiled : b.TiledBy pieces {r | r ∈ ps}) (hq : q ∈ ps)
    {i : Fin pieces.length} (hi : q.piece = i) (hfree : b.isFree c = true)
    (hname : t.charAt c = (pieces.get i).name) : c ∈ q.footprint pieces := by
  obtain ⟨j, hj⟩ := Set.mem_iUnion.1 (htiled.isTiling.iUnion_eq.superset hfree)
  rw [h.charAt_eq_of_mem_regions htiled hj] at hname
  obtain rfl := index_eq_of_name_eq hnames hname
  rwa [htiled.regions_eq hq hi] at hj

/-- **From the text of a drawing of a tiling its placements can be told**, if the pieces have
different names. -/
theorem mem_placementsShown (hnames : (pieces.map (·.name)).Nodup) (h : b.Depicts pieces ps t)
    (htiled : b.TiledBy pieces {r | r ∈ ps}) : r ∈ b.placementsShown pieces t.text ↔ r ∈ ps := by
  rw [Board.mem_placementsShown]
  constructor
  · rintro ⟨hr, hshown⟩
    have hlt := piece_lt_of_mem_placements hr
    obtain ⟨q, ⟨hq, hqr⟩, -⟩ := htiled.piece r.piece hlt
    have hsubset : ∀ c ∈ r.footprint pieces, c ∈ q.footprint pieces := by
      intro c hc
      have hfree := isFree_of_mem_footprint hr hc
      have hname := hshown c hc
      rw [h.shownAt_text (isFree_iff.1 hfree).1, List.getElem?_eq_getElem hlt, Option.map_some,
        Option.some_inj] at hname
      exact h.mem_footprint_of_charAt_eq hnames htiled hq (i := ⟨r.piece, hlt⟩) hqr hfree hname
    exact eq_of_footprint_subset hr (htiled.mem_placements q hq) hqr.symm hsubset ▸ hq
  · intro hr
    have hmem := htiled.mem_placements r hr
    refine ⟨hmem, fun c hc ↦ ?_⟩
    have hpiece := List.getElem?_eq_getElem (piece_lt_of_mem_placements hmem)
    rw [h.shownAt_text (isFree_iff.1 (isFree_of_mem_footprint hmem hc)).1, hpiece,
      h.covered r hr c hc _ hpiece, Option.map_some]

end Depicts

/-! ## Texts of solutions -/

/-- **The text of a solution identifies it**, if the pieces have different names, whatever these
are.  Two answers of the same search are drawn as different texts; and with the board and the pieces
at hand, the placements of an answer can be told from its text. -/
theorem text_solution_injective (b : Board) (pieces : List Piece)
    (hnames : (pieces.map (·.name)).Nodup) :
    ∃ p, b.problem pieces = .ok p ∧
      (∀ j k rows rows', j ≠ k → (p.solve.after j).next.1 = some rows →
        (p.solve.after k).next.1 = some rows' → ∃ t t', b.tiling pieces rows = .ok t ∧
          b.tiling pieces rows' = .ok t' ∧ t.text ≠ t'.text) ∧
      ∀ k rows, (p.solve.after k).next.1 = some rows → ∃ t, b.tiling pieces rows = .ok t ∧
        ∀ r, r ∈ b.placementsShown pieces t.text ↔ r ∈ rows := by
  obtain ⟨p, hp, h⟩ := b.exists_problem pieces
  have hdrawn (rows : List Placement) (hrows : rows ∈ p.solutions) :
      ∃ t, b.tiling pieces rows = .ok t ∧
        ∀ r, r ∈ b.placementsShown pieces t.text ↔ r ∈ rows := by
    obtain ⟨htiled, t, ht, hdepicts⟩ := h.exists_tiling hrows (.refl rows)
    exact ⟨t, ht, fun r ↦ hdepicts.mem_placementsShown hnames htiled⟩
  have hanswer (k : Nat) : (p.solve.after k).next.1 = p.solutions[k]? := h.built.answer_after k
  refine ⟨p, hp, fun j k rows rows' hne hj hk ↦ ?_,
    fun k rows hk ↦ hdrawn rows (List.mem_of_getElem? (hanswer k ▸ hk))⟩
  rw [hanswer] at hj hk
  have hrows := List.mem_of_getElem? hj
  have hrows' := List.mem_of_getElem? hk
  obtain ⟨t, ht, hshown⟩ := hdrawn rows hrows
  obtain ⟨t', ht', hshown'⟩ := hdrawn rows' hrows'
  refine ⟨t, t', ht, ht', fun htext ↦ hne ?_⟩
  -- Texts that are equal show the same placements, and no solution is answered twice.
  have hsame : {r | r ∈ rows} = {r | r ∈ rows'} :=
    Set.ext fun r ↦ (hshown r).symm.trans (htext ▸ hshown' r)
  obtain rfl := h.built.consistent.eq_of_mem_solutions hrows hrows' hsame
  exact (List.getElem?_inj (List.getElem?_eq_some_iff.1 hj).1
    h.built.consistent.nodup_solutions).1 (hj.trans hk.symm)

/-- The two ways to lay two dominoes on the strip are drawn differently, even though one of them is
called like a wall and the other like a blank cell. -/
theorem text_solution_injective_strip :
    ([Piece.domino '#', Piece.domino '.'].map (·.name)).Nodup ∧ ∃ t t',
      strip.tiling [.domino '#', .domino '.'] [⟨0, 1, 1, 0⟩, ⟨1, 1, 3, 0⟩] = .ok t ∧
      strip.tiling [.domino '#', .domino '.'] [⟨1, 1, 1, 0⟩, ⟨0, 1, 3, 0⟩] = .ok t' ∧
      t.text ≠ t'.text := by
  have hnames : ([Piece.domino '#', Piece.domino '.'].map (·.name)).Nodup := by decide
  obtain ⟨p, hp, hdifferent, -⟩ := text_solution_injective strip _ hnames
  have hanswers : (strip.problem [.domino '#', .domino '.']).map (fun p ↦
      ((p.solve.after 0).next.1, (p.solve.after 1).next.1)) =
        .ok (some [⟨0, 1, 1, 0⟩, ⟨1, 1, 3, 0⟩], some [⟨1, 1, 1, 0⟩, ⟨0, 1, 3, 0⟩]) := by
    decide +kernel
  rw [hp] at hanswers
  obtain ⟨hfirst, hsecond⟩ := Prod.mk.inj (Except.ok.inj hanswers)
  exact ⟨hnames, hdifferent 0 1 _ _ (by decide) hfirst hsecond⟩

end Board

end ExactCover
