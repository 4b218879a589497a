import ExactCover.Proofs.Board.Drawing

/-!
# What can be drawn

Whether a placement overlaps those drawn before it is read off the drawing.  That tells which cells
are covered, with one exception: a piece called `.` draws what blank cells show, and nobody can tell
afterwards where it lies (`Placement.SeenOn`).  So a placement is drawn if its piece has the
orientation, and if its cells are free and nothing can be seen on them (`Board.Accepts`); otherwise
it is refused for the first of its cells that is at fault (`Board.Refuses`).  A list is drawn if
each of its placements is accepted after those before it, and otherwise the first that is refused
decides on the error (`Board.tiling_eq_ok_iff`, `Board.tiling_eq_error_iff`).

Where no piece is called `.`, every placement can be seen on all of its cells.  Then the lists that
can be drawn are those of placements on free cells that do not overlap
(`Board.acceptsAll_iff_apart`), which does not depend on their order.  Pieces called `.` may overlap
each other, and may be drawn before other pieces on their cells but not after them.
-/

set_option autoImplicit false

namespace ExactCover

variable {b : Board} {pieces : List Piece} {piece : Piece} {q r : Placement}
  {ps qs : List Placement} {t : Tiling} {c d : Cell} {e : BoardError}

namespace Placement

/-- The piece laid has a name. -/
def name? (pieces : List Piece) (r : Placement) : Option Char := pieces[r.piece]?.map (·.name)

/-- **The placement can be seen on the cell**: it covers the cell, and its piece is not called as
blank cells look. -/
def SeenOn (pieces : List Piece) (r : Placement) (c : Cell) : Prop :=
  c ∈ r.footprint pieces ∧ r.name? pieces ≠ some Tiling.blank

/-- Only what is laid covers cells. -/
theorem exists_laid_of_mem_footprint (hc : c ∈ r.footprint pieces) :
    ∃ piece shape, r.laid? pieces = some (piece, shape) := by
  rcases hlaid : r.laid? pieces with _ | ⟨piece, shape⟩
  · simp [footprint, offsets, hlaid] at hc
  · exact ⟨piece, shape, rfl⟩

theorem name?_eq {shape : Shape} (h : r.laid? pieces = some (piece, shape)) :
    r.name? pieces = some piece.name := by
  rw [name?, (laid?_eq_some_iff.1 h).1, Option.map_some]

/-- The placement `q` cannot be seen on the cells of `r`. -/
def Spares (pieces : List Piece) (q r : Placement) : Prop :=
  ∀ c ∈ r.footprint pieces, ¬q.SeenOn pieces c

/-- Where no piece is called like a blank cell, placements can be seen on all their cells. -/
theorem seenOn_iff_of_names (hnames : ∀ piece ∈ pieces, piece.name ≠ Tiling.blank) :
    r.SeenOn pieces c ↔ c ∈ r.footprint pieces := by
  refine and_iff_left_of_imp fun hc ↦ ?_
  obtain ⟨piece, shape, hlaid⟩ := exists_laid_of_mem_footprint hc
  rw [name?_eq hlaid, ne_eq, Option.some_inj]
  exact hnames piece (List.mem_of_getElem? (laid?_eq_some_iff.1 hlaid).1)

/-- Then the placements that spare each other do not overlap. -/
theorem spares_iff_of_names (hnames : ∀ piece ∈ pieces, piece.name ≠ Tiling.blank) :
    q.Spares pieces r ↔ q.Apart pieces r := by
  simp only [Spares, Apart, seenOn_iff_of_names hnames]
  exact ⟨fun h c hq hr ↦ h c hr hq, fun h c hr hq ↦ h c hq hr⟩

theorem Apart.symm (h : q.Apart pieces r) : r.Apart pieces q := fun c hr hq ↦ h c hq hr

end Placement

namespace Board

/-! ## One placement after others -/

/-- The cell can be drawn on after the placements `qs`. -/
def Open (b : Board) (pieces : List Piece) (qs : List Placement) (c : Cell) : Prop :=
  b.isFree c = true ∧ ∀ q ∈ qs, ¬q.SeenOn pieces c

/-- **The placement can be drawn after the placements `qs`.** -/
structure Accepts (b : Board) (pieces : List Piece) (qs : List Placement) (r : Placement) :
    Prop where
  /-- There is such a piece, and it has such an orientation. -/
  known : (r.laid? pieces).isSome = true
  /-- All cells can be drawn on. -/
  open_of_mem : ∀ c ∈ r.footprint pieces, b.Open pieces qs c

/-- **The placement cannot be drawn after the placements `qs`**, for the given reason.  A cell
beyond the largest coordinate is not even looked at. -/
inductive Refuses (b : Board) (pieces : List Piece) (qs : List Placement) (r : Placement) :
    BoardError → Prop
  /-- There is no such piece or orientation. -/
  | unknown (h : r.laid? pieces = none) :
      Refuses b pieces qs r (.noSuchOrientation r.piece r.orientation)
  /-- The first cell that cannot be drawn on has coordinates. -/
  | notFree {name : Char} {c : Cell} {cs ds : List Cell} (hname : r.name? pieces = some name)
      (hcells : r.footprint pieces = cs ++ c :: ds) (hbefore : ∀ d ∈ cs, b.Open pieces qs d)
      (hlimit : c.x < Cell.limit ∧ c.y < Cell.limit) (hc : ¬b.Open pieces qs c) :
      Refuses b pieces qs r (.notFree name c)
  /-- The first cell that cannot be drawn on has none. -/
  | beyondLimit {c : Cell} {cs ds : List Cell} (hcells : r.footprint pieces = cs ++ c :: ds)
      (hbefore : ∀ d ∈ cs, b.Open pieces qs d) (hlimit : ¬(c.x < Cell.limit ∧ c.y < Cell.limit)) :
      Refuses b pieces qs r .beyondLimit

/-- `c` is the first cell of the placement that cannot be drawn on after the placements `qs`. -/
def FirstFault (b : Board) (pieces : List Piece) (qs : List Placement) (r : Placement) (c : Cell) :
    Prop :=
  ∃ cs ds, r.footprint pieces = cs ++ c :: ds ∧ (∀ d ∈ cs, b.Open pieces qs d) ∧
    ¬b.Open pieces qs c

theorem Open.contains (h : b.Open pieces qs c) : b.Contains c := (isFree_iff.1 h.1).1

/-- **A placement is refused for its first fault**, which is named if it has coordinates. -/
theorem refuses_iff : b.Refuses pieces qs r e ↔
    r.laid? pieces = none ∧ e = .noSuchOrientation r.piece r.orientation ∨
      ∃ name c, r.name? pieces = some name ∧ b.FirstFault pieces qs r c ∧
        e = if c.x < Cell.limit ∧ c.y < Cell.limit then .notFree name c else .beyondLimit := by
  constructor
  · rintro (hlaid | ⟨hname, hcells, hbefore, hlimit, hc⟩ | ⟨hcells, hbefore, hlimit⟩)
    · exact .inl ⟨hlaid, rfl⟩
    · exact .inr ⟨_, _, hname, ⟨_, _, hcells, hbefore, hc⟩, (if_pos hlimit).symm⟩
    · obtain ⟨piece, shape, hlaid⟩ :=
        Placement.exists_laid_of_mem_footprint (hcells ▸ List.mem_append_cons_self)
      exact .inr ⟨_, _, Placement.name?_eq hlaid,
        ⟨_, _, hcells, hbefore, fun hc ↦ hlimit hc.contains.lt_limit⟩, (if_neg hlimit).symm⟩
  · rintro (⟨hlaid, rfl⟩ | ⟨name, c, hname, ⟨cs, ds, hcells, hbefore, hc⟩, rfl⟩)
    · exact .unknown hlaid
    · split
      · exact .notFree hname hcells hbefore ‹_› hc
      · exact .beyondLimit hcells hbefore ‹_›

/-- What is not accepted is refused. -/
theorem accepts_or_refuses (b : Board) (pieces : List Piece) (qs : List Placement)
    (r : Placement) : b.Accepts pieces qs r ∨ ∃ e, b.Refuses pieces qs r e := by
  classical
  rcases hlaid : r.laid? pieces with _ | ⟨piece, shape⟩
  · exact .inr ⟨_, .unknown hlaid⟩
  rcases hfind : (r.footprint pieces).find? fun c ↦ decide ¬b.Open pieces qs c with _ | c
  · refine .inl ⟨by rw [hlaid]; rfl, fun c hc ↦ ?_⟩
    simpa using List.find?_eq_none.1 hfind c hc
  · obtain ⟨hc, cs, ds, hcells, hbefore⟩ := List.find?_eq_some_iff_append.1 hfind
    have hbefore' : ∀ d ∈ cs, b.Open pieces qs d := fun d hd ↦ by simpa using hbefore d hd
    have hfault : b.FirstFault pieces qs r c := ⟨cs, ds, hcells, hbefore', by simpa using hc⟩
    exact .inr ⟨_, refuses_iff.2 (.inr ⟨_, c, Placement.name?_eq hlaid, hfault, rfl⟩)⟩

/-! ## What a drawing shows -/

/-- **The drawing displays the placements**: where one of them can be seen, the name of its piece,
and elsewhere what the blank board shows. -/
structure Displays (b : Board) (pieces : List Piece) (qs : List Placement) (t : Tiling) :
    Prop where
  /-- It is as wide as the board. -/
  width_eq : t.width = b.width
  /-- It is as high as the board. -/
  height_eq : t.height = b.height
  /-- A cell on which a placement can be seen shows the name of the piece. -/
  seen : ∀ q ∈ qs, ∀ c, q.SeenOn pieces c → q.name? pieces = some (t.charAt c)
  /-- A cell on which none can be seen shows what the blank board shows. -/
  unseen : ∀ c, (∀ q ∈ qs, ¬q.SeenOn pieces c) → t.charAt c = b.blank.charAt c

theorem displays_blank (b : Board) (pieces : List Piece) : b.Displays pieces [] b.blank where
  width_eq := b.width_blank
  height_eq := b.height_blank
  seen := nofun
  unseen _ _ := rfl

namespace Displays

/-- **The drawing tells on which cells something can be seen.** -/
theorem open_iff (h : b.Displays pieces qs t) :
    b.Open pieces qs c ↔ b.isFree c = true ∧ t.charAt c = Tiling.blank := by
  refine and_congr_right fun hfree ↦ ⟨fun hc ↦ ?_, fun hblank q hq hseen ↦ ?_⟩
  · rw [h.unseen c hc, charAt_blank_of_isFree hfree]
  · exact hseen.2 (hblank ▸ h.seen q hq c hseen)

/-- Drawing one more placement. -/
theorem drawAll {shape : Shape} (h : b.Displays pieces qs t)
    (hlaid : r.laid? pieces = some (piece, shape))
    (hopen : ∀ c ∈ r.footprint pieces, b.Open pieces qs c) :
    b.Displays pieces (qs ++ [r]) (t.drawAll (r.footprint pieces) piece.name) where
  width_eq := by rw [Tiling.width_drawAll, h.width_eq]
  height_eq := by rw [Tiling.height_drawAll, h.height_eq]
  seen q hq c hc := by
    rw [Tiling.charAt_drawAll]
    rcases List.mem_append.1 hq with hq | hq
    · have hn : c ∉ r.footprint pieces := fun hcr ↦ (hopen c hcr).2 q hq hc
      rw [if_neg hn]
      exact h.seen q hq c hc
    · obtain rfl := List.mem_singleton.1 hq
      rw [if_pos hc.1]
      exact Placement.name?_eq hlaid
  unseen c hc := by
    have hqs : ∀ q ∈ qs, ¬q.SeenOn pieces c := fun q hq ↦ hc q (List.mem_append_left _ hq)
    rw [Tiling.charAt_drawAll]
    by_cases hcr : c ∈ r.footprint pieces
    · -- The piece cannot be seen on the cell, so it is called as the cell looked before.
      have hname : r.name? pieces = some Tiling.blank := by
        by_contra hn
        exact hc r (by simp) ⟨hcr, hn⟩
      rw [Placement.name?_eq hlaid, Option.some_inj] at hname
      rw [if_pos hcr, hname, charAt_blank_of_isFree (hopen c hcr).1]
    · rw [if_neg hcr]
      exact h.unseen c hqs

end Displays

/-! ## Drawing one placement -/

/-- A cell that is not free, or on which something can be seen, is not drawn. -/
theorem layCell_eq_notFree {name : Char}
    (hlimit : (r.corner.shift d).x < Cell.limit ∧ (r.corner.shift d).y < Cell.limit)
    (h : ¬(b.isFree (r.corner.shift d) = true ∧ t.charAt (r.corner.shift d) = Tiling.blank)) :
    b.layCell r name t d = .error (.notFree name (r.corner.shift d)) := by
  have hcell : r.cellAt d = .ok (r.corner.shift d) := if_pos hlimit
  rw [layCell, hcell]
  exact if_neg (by simpa using h)

/-- A cell without coordinates is not drawn. -/
theorem layCell_eq_beyondLimit {name : Char}
    (hlimit : ¬((r.corner.shift d).x < Cell.limit ∧ (r.corner.shift d).y < Cell.limit)) :
    b.layCell r name t d = .error .beyondLimit := by
  have hcell : r.cellAt d = .error .beyondLimit := if_neg hlimit
  rw [layCell, hcell]
  rfl

/-- **Cells are drawn up to the first that is refused.**  Those drawn before it are other cells, so
it looks as it did at first. -/
theorem foldlM_layCell_eq_error {name : Char} {ds ds' : List Cell}
    (hnodup : ((ds ++ d :: ds').map r.corner.shift).Nodup)
    (hbefore : ∀ a ∈ ds, b.isFree (r.corner.shift a) = true ∧
      t.charAt (r.corner.shift a) = Tiling.blank)
    (hd : ∀ t' : Tiling, t'.charAt (r.corner.shift d) = t.charAt (r.corner.shift d) →
      b.layCell r name t' d = .error e) :
    (ds ++ d :: ds').foldlM (b.layCell r name) t = .error e := by
  rw [List.map_append, List.map_cons, List.nodup_append] at hnodup
  obtain ⟨hnodup, -, hdisjoint⟩ := hnodup
  have hnew : r.corner.shift d ∉ ds.map r.corner.shift := fun hmem ↦
    hdisjoint _ hmem _ List.mem_cons_self rfl
  rw [List.foldlM_append, foldlM_layCell hnodup (fun a ha ↦ (hbefore a ha).1)
    fun a ha ↦ (hbefore a ha).2]
  show (d :: ds').foldlM (b.layCell r name) _ = _
  rw [List.foldlM_cons, hd _ (by rw [Tiling.charAt_drawAll, if_neg hnew])]
  rfl

namespace Displays

/-- **What is accepted is drawn.** -/
theorem lay_of_accepts (h : b.Displays pieces qs t) (hr : b.Accepts pieces qs r) :
    ∃ t', b.lay pieces t r = .ok t' ∧ b.Displays pieces (qs ++ [r]) t' := by
  obtain ⟨⟨piece, shape⟩, hlaid⟩ := Option.isSome_iff_exists.1 hr.known
  have hopen := hr.open_of_mem
  have hnodup := r.nodup_footprint pieces
  refine ⟨_, ?_, h.drawAll hlaid hopen⟩
  rw [Placement.footprint_eq hlaid] at hopen hnodup ⊢
  rw [Board.lay, hlaid]
  have hcells (d : Cell) (hd : d ∈ shape.cells.toList) :=
    h.open_iff.1 (hopen _ (List.mem_map_of_mem hd))
  exact foldlM_layCell hnodup (fun d hd ↦ (hcells d hd).1) fun d hd ↦ (hcells d hd).2

/-- Where the first fault of a placement is, there drawing it ends. -/
theorem lay_of_footprint_eq {name : Char} {cs ds : List Cell} (h : b.Displays pieces qs t)
    (hname : r.name? pieces = some name) (hcells : r.footprint pieces = cs ++ c :: ds)
    (hbefore : ∀ d ∈ cs, b.Open pieces qs d)
    (hc : ∀ (d : Cell) (t' : Tiling), r.corner.shift d = c → t'.charAt c = t.charAt c →
      b.layCell r name t' d = .error e) :
    b.lay pieces t r = .error e := by
  have hmem : c ∈ r.footprint pieces := by simp [hcells]
  obtain ⟨piece, shape, hlaid⟩ := Placement.exists_laid_of_mem_footprint hmem
  obtain rfl : piece.name = name := Option.some_inj.1 ((Placement.name?_eq hlaid).symm.trans hname)
  have hnodup := r.nodup_footprint pieces
  rw [Placement.footprint_eq hlaid] at hcells hnodup
  obtain ⟨as, bs, hsplit, rfl, hrest⟩ := List.map_eq_append_iff.1 hcells
  obtain ⟨d, bs, rfl, rfl, rfl⟩ := List.map_eq_cons_iff.1 hrest
  rw [Board.lay, hlaid]
  show shape.cells.toList.foldlM _ t = _
  rw [hsplit] at hnodup ⊢
  exact foldlM_layCell_eq_error hnodup
    (fun a ha ↦ h.open_iff.1 (hbefore _ (List.mem_map_of_mem ha))) fun t' ht' ↦ hc d t' rfl ht'

/-- **What is refused is not drawn**, for the reason given. -/
theorem lay_of_refuses (h : b.Displays pieces qs t) (hr : b.Refuses pieces qs r e) :
    b.lay pieces t r = .error e := by
  cases hr with
  | unknown hlaid => rw [Board.lay, hlaid]
  | notFree hname hcells hbefore hlimit hc =>
    refine h.lay_of_footprint_eq hname hcells hbefore ?_
    rintro d t' rfl hsame
    exact layCell_eq_notFree hlimit (hsame ▸ mt h.open_iff.2 hc)
  | @beyondLimit c cs ds hcells hbefore hlimit =>
    have hmem : c ∈ r.footprint pieces := by simp [hcells]
    obtain ⟨piece, shape, hlaid⟩ := Placement.exists_laid_of_mem_footprint hmem
    refine h.lay_of_footprint_eq (Placement.name?_eq hlaid) hcells hbefore ?_
    rintro d t' rfl -
    exact layCell_eq_beyondLimit hlimit

end Displays

/-! ## Drawing a list of placements -/

/-- Each of the placements can be drawn after `qs` and those before it. -/
def AcceptsAll (b : Board) (pieces : List Piece) (qs : List Placement) : List Placement → Prop
  | [] => True
  | r :: ps => b.Accepts pieces qs r ∧ b.AcceptsAll pieces (qs ++ [r]) ps

/-- The placements on free cells are those of known pieces and orientations that cover free cells
only. -/
theorem mem_placements_iff_isFree : r ∈ b.placements pieces ↔
    (r.laid? pieces).isSome = true ∧ ∀ c ∈ r.footprint pieces, b.isFree c = true := by
  constructor
  · intro hr
    obtain ⟨piece, shape, hlaid, -⟩ := mem_placements_iff.1 hr
    exact ⟨by rw [hlaid]; rfl, fun c ↦ isFree_of_mem_footprint hr⟩
  · rintro ⟨hknown, hfree⟩
    obtain ⟨⟨piece, shape⟩, hlaid⟩ := Option.isSome_iff_exists.1 hknown
    rw [Placement.footprint_eq hlaid] at hfree
    refine mem_placements_iff.2 ⟨piece, shape, hlaid, fits_iff.2 fun d hd ↦ hfree _ ?_⟩
    exact List.mem_map_of_mem (Std.ExtTreeSet.mem_toList.2 hd)

theorem accepts_iff : b.Accepts pieces qs r ↔
    r ∈ b.placements pieces ∧ ∀ q ∈ qs, q.Spares pieces r := by
  rw [mem_placements_iff_isFree]
  constructor
  · intro h
    exact ⟨⟨h.known, fun c hc ↦ (h.open_of_mem c hc).1⟩,
      fun q hq c hc ↦ (h.open_of_mem c hc).2 q hq⟩
  · rintro ⟨⟨hknown, hfree⟩, hspares⟩
    exact ⟨hknown, fun c hc ↦ ⟨hfree c hc, fun q hq ↦ hspares q hq c hc⟩⟩

/-- **What it takes for all to be accepted.** -/
theorem acceptsAll_iff : b.AcceptsAll pieces qs ps ↔ (∀ r ∈ ps, r ∈ b.placements pieces) ∧
    (∀ q ∈ qs, ∀ r ∈ ps, q.Spares pieces r) ∧ ps.Pairwise (Placement.Spares pieces) := by
  induction ps generalizing qs with
  | nil => simp [AcceptsAll]
  | cons r ps ih =>
    rw [AcceptsAll, ih, accepts_iff, List.pairwise_cons]
    simp only [List.forall_mem_cons, List.forall_mem_append, List.not_mem_nil, false_imp_iff,
      implies_true, and_true]
    constructor
    · rintro ⟨⟨hr, hqr⟩, hps, ⟨hqps, hrps⟩, hpairwise⟩
      exact ⟨⟨hr, hps⟩, fun q hq ↦ ⟨hqr q hq, hqps q hq⟩, hrps, hpairwise⟩
    · rintro ⟨⟨hr, hps⟩, hq, hrps, hpairwise⟩
      exact ⟨⟨hr, fun q hmem ↦ (hq q hmem).1⟩, hps, ⟨fun q hmem ↦ (hq q hmem).2, hrps⟩, hpairwise⟩

/-- If not all are accepted, there is a first that is refused. -/
theorem acceptsAll_or_exists_refuses (b : Board) (pieces : List Piece) (qs ps : List Placement) :
    b.AcceptsAll pieces qs ps ∨ ∃ e before r after, ps = before ++ r :: after ∧
      b.AcceptsAll pieces qs before ∧ b.Refuses pieces (qs ++ before) r e := by
  induction ps generalizing qs with
  | nil => exact .inl trivial
  | cons r ps ih =>
    rcases b.accepts_or_refuses pieces qs r with hr | ⟨e, hr⟩
    · rcases ih (qs ++ [r]) with hps | ⟨e, before, r', after, rfl, hbefore, hr'⟩
      · exact .inl ⟨hr, hps⟩
      · rw [← List.append_cons] at hr'
        exact .inr ⟨e, r :: before, r', after, rfl, ⟨hr, hbefore⟩, hr'⟩
    · exact .inr ⟨e, [], r, ps, rfl, trivial, (List.append_nil qs).symm ▸ hr⟩

namespace Displays

/-- **Placements that are all accepted are drawn.** -/
theorem foldlM_lay_of_acceptsAll (h : b.Displays pieces qs t) (hps : b.AcceptsAll pieces qs ps) :
    ∃ t', ps.foldlM (b.lay pieces) t = .ok t' ∧ b.Displays pieces (qs ++ ps) t' := by
  induction ps generalizing qs t with
  | nil => exact ⟨t, rfl, by rwa [List.append_nil]⟩
  | cons r ps ih =>
    obtain ⟨t₁, ht₁, h₁⟩ := h.lay_of_accepts hps.1
    rw [List.foldlM_cons, ht₁, List.append_cons]
    exact ih h₁ hps.2

/-- **The first that is refused decides on the error.** -/
theorem foldlM_lay_of_refuses (h : b.Displays pieces qs t) (hps : b.AcceptsAll pieces qs ps)
    (hr : b.Refuses pieces (qs ++ ps) r e) (after : List Placement) :
    (ps ++ r :: after).foldlM (b.lay pieces) t = .error e := by
  obtain ⟨t', ht', h'⟩ := h.foldlM_lay_of_acceptsAll hps
  rw [List.foldlM_append, ht']
  show (r :: after).foldlM (b.lay pieces) t' = _
  rw [List.foldlM_cons, h'.lay_of_refuses hr]
  rfl

/-- **A drawing depends on the set of placements only.** -/
theorem rows_eq {t' : Tiling} (h : b.Displays pieces ps t) (h' : b.Displays pieces qs t')
    (hsame : ∀ q, q ∈ ps ↔ q ∈ qs) : t.rows = t'.rows := by
  have hchar (c : Cell) : t.charAt c = t'.charAt c := by
    by_cases hseen : ∃ q ∈ ps, q.SeenOn pieces c
    · obtain ⟨q, hq, hc⟩ := hseen
      exact Option.some_inj.1 ((h.seen q hq c hc).symm.trans (h'.seen q ((hsame q).1 hq) c hc))
    · simp only [not_exists, not_and] at hseen
      rw [h.unseen c hseen, h'.unseen c fun q hq ↦ hseen q ((hsame q).2 hq)]
  rw [Tiling.rows, Tiling.rows, h.width_eq, h.height_eq, h'.width_eq, h'.height_eq]
  simp only [hchar]

end Displays

/-- **A list is drawn just if each placement is accepted after those before it**, and the drawing
displays them. -/
theorem tiling_eq_ok_iff :
    (∃ t, b.tiling pieces ps = .ok t) ↔ b.AcceptsAll pieces [] ps := by
  constructor
  · rintro ⟨t, ht⟩
    rcases b.acceptsAll_or_exists_refuses pieces [] ps with h | ⟨e, before, r, after, rfl, hps, hr⟩
    · exact h
    · rw [tiling, (b.displays_blank pieces).foldlM_lay_of_refuses hps hr] at ht
      cases ht
  · intro h
    obtain ⟨t, ht, -⟩ := (b.displays_blank pieces).foldlM_lay_of_acceptsAll h
    exact ⟨t, ht⟩

theorem displays_of_tiling (ht : b.tiling pieces ps = .ok t) : b.Displays pieces ps t := by
  obtain ⟨t', ht', h⟩ := (b.displays_blank pieces).foldlM_lay_of_acceptsAll
    (tiling_eq_ok_iff.1 ⟨t, ht⟩)
  obtain rfl : t = t' := Except.ok.inj (ht.symm.trans ht')
  exact h

/-- **A list is not drawn just if one of its placements is refused**, and the first of these decides
on the error. -/
theorem tiling_eq_error_iff : b.tiling pieces ps = .error e ↔ ∃ before r after,
    ps = before ++ r :: after ∧ b.AcceptsAll pieces [] before ∧ b.Refuses pieces before r e := by
  constructor
  · intro he
    rcases b.acceptsAll_or_exists_refuses pieces [] ps with h | ⟨e', before, r, after, rfl, h, hr⟩
    · obtain ⟨t, ht⟩ := tiling_eq_ok_iff.2 h
      cases he.symm.trans ht
    · have he' := (b.displays_blank pieces).foldlM_lay_of_refuses h hr after
      obtain rfl : e = e' := Except.error.inj (he.symm.trans he')
      exact ⟨before, r, after, rfl, h, hr⟩
  · rintro ⟨before, r, after, rfl, h, hr⟩
    exact (b.displays_blank pieces).foldlM_lay_of_refuses h hr after

/-! ## Pieces that can be seen -/

section Names

variable (hnames : ∀ piece ∈ pieces, piece.name ≠ Tiling.blank)

include hnames

/-- What is drawn are placements on free cells that do not overlap. -/
theorem acceptsAll_iff_apart : b.AcceptsAll pieces [] ps ↔
    (∀ r ∈ ps, r ∈ b.placements pieces) ∧ ps.Pairwise (Placement.Apart pieces) := by
  have hspares : Placement.Spares pieces = Placement.Apart pieces :=
    funext fun q ↦ funext fun r ↦ propext (Placement.spares_iff_of_names hnames)
  rw [acceptsAll_iff, hspares]
  simp

/-- What the drawing shows are all of the placements. -/
theorem Displays.depicts (h : b.Displays pieces ps t) : b.Depicts pieces ps t where
  width_eq := h.width_eq
  height_eq := h.height_eq
  covered r hr c hc piece hpiece := by
    have hname := h.seen r hr c ((Placement.seenOn_iff_of_names hnames).2 hc)
    rw [Placement.name?, hpiece, Option.map_some, Option.some_inj] at hname
    exact hname.symm
  uncovered c hc := h.unseen c fun r hr ↦ mt (Placement.seenOn_iff_of_names hnames).1 (hc r hr)

/-- What is refused is not known, or has a cell that is not free or is covered. -/
theorem refuses_iff_of_names
    (hlimit : ∀ c ∈ r.footprint pieces, c.x < Cell.limit ∧ c.y < Cell.limit) :
    b.Refuses pieces qs r e ↔
      r.laid? pieces = none ∧ e = .noSuchOrientation r.piece r.orientation ∨
        ∃ name cs c ds, r.name? pieces = some name ∧ r.footprint pieces = cs ++ c :: ds ∧
          (∀ d ∈ cs, b.isFree d = true ∧ ∀ q ∈ qs, d ∉ q.footprint pieces) ∧
          ¬(b.isFree c = true ∧ ∀ q ∈ qs, c ∉ q.footprint pieces) ∧ e = .notFree name c := by
  have hopen (c : Cell) : b.Open pieces qs c ↔
      b.isFree c = true ∧ ∀ q ∈ qs, c ∉ q.footprint pieces := by
    simp only [Open, Placement.seenOn_iff_of_names hnames]
  simp only [← hopen]
  rw [refuses_iff]
  refine or_congr_right ⟨?_, ?_⟩
  · rintro ⟨name, c, hname, ⟨cs, ds, hcells, hbefore, hc⟩, rfl⟩
    exact ⟨name, cs, c, ds, hname, hcells, hbefore, hc, if_pos (hlimit c (by simp [hcells]))⟩
  · rintro ⟨name, cs, c, ds, hname, hcells, hbefore, hc, rfl⟩
    exact ⟨name, c, hname, ⟨cs, ds, hcells, hbefore, hc⟩,
      (if_pos (hlimit c (by simp [hcells]))).symm⟩

/-- **Where no piece is called like a blank cell, drawing accepts what does not overlap.**  A list
of placements is drawn just if each of them is of a known piece and orientation and lies on free
cells, and no two have a cell in common.  Then marks and other walls show what they are, and every
free cell the name of the piece that covers it, or that none does; and in any other order the same
is drawn.  Otherwise the error is about the first placement that cannot be drawn after those before
it: it is not known, or the first of its cells that is not free, or covered by one of these, is
named. -/
theorem tiling_of_names
    (hlimit : ∀ r ∈ ps, ∀ c ∈ r.footprint pieces, c.x < Cell.limit ∧ c.y < Cell.limit) :
    ((∃ t, b.tiling pieces ps = .ok t) ↔
      (∀ r ∈ ps, (r.laid? pieces).isSome = true ∧ ∀ c ∈ r.footprint pieces, b.isFree c = true) ∧
        ps.Pairwise (Placement.Apart pieces)) ∧
    (∀ t, b.tiling pieces ps = .ok t → t.width = b.width ∧ t.height = b.height ∧
      (∀ c ∈ b.marks, t.charAt c = '*') ∧ (∀ c ∈ b.walls, c ∉ b.marks → t.charAt c = '#') ∧
      (∀ r ∈ ps, ∀ c ∈ r.footprint pieces, ∀ piece, pieces[r.piece]? = some piece →
        t.charAt c = piece.name) ∧
      (∀ c, b.isFree c = true → (∀ r ∈ ps, c ∉ r.footprint pieces) → t.charAt c = '.') ∧
      ∀ ps', ps'.Perm ps → ∃ t', b.tiling pieces ps' = .ok t' ∧ t'.rows = t.rows) ∧
    ∀ e, b.tiling pieces ps = .error e ↔ ∃ before r after, ps = before ++ r :: after ∧
      (∃ t, b.tiling pieces before = .ok t) ∧
      (r.laid? pieces = none ∧ e = .noSuchOrientation r.piece r.orientation ∨
        ∃ name cs c ds, r.name? pieces = some name ∧ r.footprint pieces = cs ++ c :: ds ∧
          (∀ d ∈ cs, b.isFree d = true ∧ ∀ q ∈ before, d ∉ q.footprint pieces) ∧
          ¬(b.isFree c = true ∧ ∀ q ∈ before, c ∉ q.footprint pieces) ∧ e = .notFree name c) := by
  have hok (ps : List Placement) : (∃ t, b.tiling pieces ps = .ok t) ↔
      (∀ r ∈ ps, r ∈ b.placements pieces) ∧ ps.Pairwise (Placement.Apart pieces) := by
    rw [tiling_eq_ok_iff, acceptsAll_iff_apart hnames]
  refine ⟨?_, fun t ht ↦ ?_, fun e ↦ ?_⟩
  · simp only [hok, mem_placements_iff_isFree]
  · have hdisplays := displays_of_tiling ht
    have h := hdisplays.depicts hnames
    obtain ⟨hps, hapart⟩ := (hok ps).1 ⟨t, ht⟩
    refine ⟨h.width_eq, h.height_eq, fun c ↦ h.charAt_eq_of_mem_marks hps,
      fun c ↦ h.charAt_eq_of_mem_walls hps, h.covered, fun c hfree hc ↦ ?_, fun ps' hperm ↦ ?_⟩
    · exact (h.uncovered c hc).trans (charAt_blank_of_isFree hfree)
    · obtain ⟨t', ht'⟩ := (hok ps').2 ⟨fun r hr ↦ hps r (hperm.mem_iff.1 hr),
        (hperm.pairwise_iff Placement.Apart.symm).2 hapart⟩
      exact ⟨t', ht', (displays_of_tiling ht').rows_eq hdisplays fun q ↦ hperm.mem_iff⟩
  · rw [tiling_eq_error_iff]
    refine exists_congr fun before ↦ exists_congr fun r ↦ exists_congr fun after ↦ ?_
    rw [← tiling_eq_ok_iff]
    refine and_congr_right fun hsplit ↦ and_congr_right fun _ ↦ ?_
    exact refuses_iff_of_names hnames (hlimit r (by simp [hsplit]))

end Names

/-- Two dominoes side by side are drawn, in either order. -/
theorem tiling_of_names_strip :
    (∀ piece ∈ [Piece.domino 'A', .domino 'B'], piece.name ≠ Tiling.blank) ∧
    (∀ r ∈ [(⟨0, 1, 1, 0⟩ : Placement), ⟨1, 1, 3, 0⟩],
      ∀ c ∈ r.footprint [.domino 'A', .domino 'B'], c.x < Cell.limit ∧ c.y < Cell.limit) ∧
    ∃ t t', strip.tiling [.domino 'A', .domino 'B'] [⟨0, 1, 1, 0⟩, ⟨1, 1, 3, 0⟩] = .ok t ∧
      strip.tiling [.domino 'A', .domino 'B'] [⟨1, 1, 3, 0⟩, ⟨0, 1, 1, 0⟩] = .ok t' ∧
      t'.rows = t.rows ∧ t.charAt ⟨3, 0⟩ = 'B' ∧ t.charAt ⟨5, 0⟩ = '*' := by
  have hnames : ∀ piece ∈ [Piece.domino 'A', .domino 'B'], piece.name ≠ Tiling.blank := by decide
  have hlimit : ∀ r ∈ [(⟨0, 1, 1, 0⟩ : Placement), ⟨1, 1, 3, 0⟩],
      ∀ c ∈ r.footprint [.domino 'A', .domino 'B'], c.x < Cell.limit ∧ c.y < Cell.limit := by
    decide +kernel
  have hplaced : ∀ r ∈ [(⟨0, 1, 1, 0⟩ : Placement), ⟨1, 1, 3, 0⟩],
      (r.laid? [.domino 'A', .domino 'B']).isSome = true ∧
        ∀ c ∈ r.footprint [.domino 'A', .domino 'B'], strip.isFree c = true := by
    decide +kernel
  have hapart : [(⟨0, 1, 1, 0⟩ : Placement), ⟨1, 1, 3, 0⟩].Pairwise
      (Placement.Apart [.domino 'A', .domino 'B']) := by
    unfold Placement.Apart
    decide +kernel
  obtain ⟨hok, hshown, -⟩ := tiling_of_names (b := strip) hnames hlimit
  obtain ⟨t, ht⟩ := hok.2 ⟨hplaced, hapart⟩
  obtain ⟨-, -, hmarks, -, hcovered, -, horder⟩ := hshown t ht
  obtain ⟨t', ht', hrows⟩ := horder _ (List.Perm.swap _ _ [])
  exact ⟨hnames, hlimit, t, t', ht, ht', hrows,
    hcovered ⟨1, 1, 3, 0⟩ (by decide) ⟨3, 0⟩ (by decide +kernel) (.domino 'B') rfl,
    hmarks _ (by decide)⟩

/-- **A piece called like a blank cell can be drawn on a cell twice.**  The placements overlap, and
are drawn all the same. -/
theorem tiling_of_overlap :
    (∃ t, strip.tiling [.domino '.'] [⟨0, 1, 1, 0⟩, ⟨0, 1, 1, 0⟩] = .ok t) ∧
      ¬[(⟨0, 1, 1, 0⟩ : Placement), ⟨0, 1, 1, 0⟩].Pairwise (Placement.Apart [.domino '.']) := by
  have hdrawn :
      (strip.tiling [.domino '.'] [⟨0, 1, 1, 0⟩, ⟨0, 1, 1, 0⟩]).toOption.isSome = true := by
    decide +kernel
  refine ⟨?_, by unfold Placement.Apart; decide +kernel⟩
  cases ht : strip.tiling [.domino '.'] [⟨0, 1, 1, 0⟩, ⟨0, 1, 1, 0⟩] with
  | ok t => exact ⟨t, rfl⟩
  | error e =>
    rw [ht] at hdrawn
    cases hdrawn

end Board

end ExactCover
