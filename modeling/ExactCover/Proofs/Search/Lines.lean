import ExactCover.Search.Event
import ExactCover.Text.Numeral
import Mathlib.Logic.Function.Basic

/-!
# What a line of the log says

Each event of a search is a line of its log.  The line begins with words that belong to events of
this kind only (`Event.words_prefix_iff`), and behind them stand the numbers of the event, kept
apart by further words.  So the event can be read off the line (`Event.line_injective`), and
whatever is known of the events of a search is known of the lines.
-/

set_option autoImplicit false

namespace ExactCover

/-! ## Numbers in a text -/

namespace Text

/-- The list does not begin with a digit. -/
def Stops (cs : List Char) : Prop := ∀ c ∈ cs.head?, c.isDigit = false

theorem takeWhile_repr_append (n : Nat) {cs : List Char} (hcs : Stops cs) :
    (n.repr.toList ++ cs).takeWhile Char.isDigit = n.repr.toList := by
  have hdigits : ∀ c ∈ n.repr.toList, c.isDigit = true := fun c hc ↦
    Nat.isDigit_of_mem_toDigits (b := 10) (n := n) (by decide) (by decide)
      (by simpa [Nat.repr] using hc)
  rw [List.takeWhile_append_of_pos hdigits]
  cases cs with
  | nil => exact List.append_nil _
  | cons c cs => rw [List.takeWhile_cons_of_neg (by simp [hcs c rfl]), List.append_nil]

/-- **A number ends where its digits end.** -/
theorem repr_append_inj {m n : Nat} {cs ds : List Char} (hcs : Stops cs) (hds : Stops ds)
    (h : m.repr.toList ++ cs = n.repr.toList ++ ds) : m = n ∧ cs = ds := by
  have hrepr : m.repr.toList = n.repr.toList := by
    rw [← takeWhile_repr_append m hcs, h, takeWhile_repr_append n hds]
  have hread := congrArg natural? hrepr
  rw [Nat.repr, Nat.repr, String.toList_ofList, String.toList_ofList, natural?_toDigits,
    natural?_toDigits] at hread
  exact ⟨Option.some_inj.1 hread, List.append_cancel_left (hrepr ▸ h)⟩

/-- Numbers, each of them followed by words. -/
def spell : List Nat → List String → List Char
  | n :: ns, w :: ws => n.repr.toList ++ (w.toList ++ spell ns ws)
  | _, _ => []

/-- **The words keep the numbers before them apart**: they do not begin with a digit, and none but
the last of them are empty. -/
def Separate : List String → Prop
  | [] => True
  | w :: ws => Stops w.toList ∧ (w.toList = [] → ws = []) ∧ Separate ws

theorem Separate.stops {w : String} {ws : List String} (h : Separate (w :: ws)) (ns : List Nat) :
    Stops (w.toList ++ spell ns ws) := by
  obtain ⟨hstops, hlast, -⟩ := h
  cases hw : w.toList with
  | nil =>
    rw [hlast hw]
    cases ns <;> nofun
  | cons c cs => exact fun d hd ↦ hstops d (hw ▸ hd)

/-- **Numbers that are kept apart can be read off.** -/
theorem spell_inj {ws : List String} (hws : Separate ws) {ms ns : List Nat}
    (hms : ms.length = ws.length) (hns : ns.length = ws.length) (h : spell ms ws = spell ns ws) :
    ms = ns := by
  induction ws generalizing ms ns with
  | nil => rw [List.length_eq_zero_iff.1 hms, List.length_eq_zero_iff.1 hns]
  | cons w ws ih =>
    obtain ⟨m, ms, rfl⟩ := List.exists_cons_of_length_eq_add_one hms
    obtain ⟨n, ns, rfl⟩ := List.exists_cons_of_length_eq_add_one hns
    obtain ⟨hfirst, hrest⟩ := repr_append_inj (hws.stops ms) (hws.stops ns) h
    rw [hfirst, ih hws.2.2 (Nat.succ.inj hms) (Nat.succ.inj hns) (List.append_cancel_left hrest)]

end Text

namespace Event

open Text

/-- What kind of event it is. -/
inductive Kind where
  | solving
  | deadEnd
  | branching
  | selecting
  | retracted
  | solution
  | finished
deriving DecidableEq

/-- The kind of an event. -/
def kind : Event → Kind
  | solving _ _ => .solving
  | deadEnd _ => .deadEnd
  | branching _ _ => .branching
  | selecting _ _ _ => .selecting
  | retracted _ _ _ => .retracted
  | solution _ _ => .solution
  | finished _ => .finished

/-- The numbers of an event. -/
def numbers : Event → List Nat
  | solving columns rows => [columns, rows]
  | deadEnd depth => [depth]
  | branching candidates depth => [candidates, depth]
  | selecting number total depth | retracted number total depth => [number, total, depth]
  | solution number rows => [number, rows]
  | finished total => [total.nodes, total.deadEnds, total.solutions]

namespace Kind

/-- The words with which lines about events of this kind begin. -/
def words : Kind → String
  | solving => "solving "
  | deadEnd => "dead end at depth "
  | branching => "branching on "
  | selecting => "selecting candidate "
  | retracted => "deselected candidate "
  | solution => "solution #"
  | finished => "search finished: Stats \x7b nodes: "

/-- The words that follow the numbers. -/
def gaps : Kind → List String
  | solving => [" columns over ", " rows"]
  | deadEnd => [""]
  | branching => [" candidates at depth ", ""]
  | selecting | retracted => [" of ", " at depth ", ""]
  | solution => [" with ", " rows"]
  | finished => [", dead_ends: ", ", solutions: ", " \x7d"]

theorem eq_of_words_prefix {k k' : Kind} (h : k.words.toList <+: k'.words.toList) : k = k' := by
  cases k <;> cases k' <;> first | rfl | exact absurd h (by decide +kernel)

theorem separate_gaps (k : Kind) : Separate k.gaps := by
  cases k <;> simp [gaps, Separate, Stops]

end Kind

/-- **A line consists of words and numbers in turn.** -/
theorem toList_text_line (e : Event) :
    e.line.text.toList = e.kind.words.toList ++ spell e.numbers e.kind.gaps := by
  have hempty : "".toList = [] := rfl
  cases e with
  | finished total =>
    have htext : (finished total).line.text = "search finished: " ++
        ("Stats \x7b nodes: " ++ total.nodes.repr ++ ", dead_ends: " ++ total.deadEnds.repr ++
          ", solutions: " ++ total.solutions.repr ++ " \x7d") := rfl
    have hwords : Kind.finished.words = "search finished: " ++ "Stats \x7b nodes: " := rfl
    rw [htext, kind, hwords]
    simp only [Kind.gaps, numbers, spell, String.toList_append, List.append_assoc, List.append_nil]
  | _ =>
    simp only [line, kind, Kind.words, Kind.gaps, numbers, spell, String.toList_append, toString,
      List.append_assoc, List.append_nil, hempty]

/-- **The words with which a line begins tell what it is about.** -/
theorem words_prefix_iff {e : Event} {k : Kind} :
    k.words.toList <+: e.line.text.toList ↔ e.kind = k := by
  have hprefix : e.kind.words.toList <+: e.line.text.toList := ⟨_, (toList_text_line e).symm⟩
  constructor
  · intro h
    rcases List.prefix_or_prefix_of_prefix hprefix h with h | h
    · exact Kind.eq_of_words_prefix h
    · exact (Kind.eq_of_words_prefix h).symm
  · rintro rfl
    exact hprefix

theorem length_numbers (e : Event) : e.numbers.length = e.kind.gaps.length := by
  cases e <;> rfl

/-- Events of the same kind differ in a number. -/
theorem eq_of_numbers_eq {e e' : Event} (hkind : e.kind = e'.kind) (h : e.numbers = e'.numbers) :
    e = e' := by
  cases e <;> cases e' <;> cases hkind <;> simp only [numbers, List.cons.injEq, and_true] at h
  case finished.finished σ τ =>
    cases σ
    cases τ
    simp_all
  all_goals simp_all

/-- **Events can be read off their lines.** -/
theorem line_injective : Function.Injective line := by
  intro e e' h
  have hkind : e.kind = e'.kind := by
    rw [eq_comm, ← words_prefix_iff, ← h]
    exact words_prefix_iff.2 rfl
  have htext : e.line.text.toList = e'.line.text.toList := by rw [h]
  rw [toList_text_line, toList_text_line, hkind] at htext
  refine eq_of_numbers_eq hkind ?_
  exact spell_inj e'.kind.separate_gaps (hkind ▸ e.length_numbers) e'.length_numbers
    (List.append_cancel_left htext)

/-! ## Counting lines -/

/-- The number of lines in the log that begin with the words of a kind. -/
def linesAbout (k : Kind) (log : List Event) : Nat :=
  (log.map line).countP fun l ↦ k.words.toList.isPrefixOf l.text.toList

@[simp]
theorem linesAbout_nil (k : Kind) : linesAbout k [] = 0 := rfl

@[simp]
theorem linesAbout_cons (k : Kind) (e : Event) (log : List Event) :
    linesAbout k (e :: log) = linesAbout k log + if e.kind = k then 1 else 0 := by
  simp only [linesAbout, List.map_cons, List.countP_cons, List.isPrefixOf_iff_prefix,
    words_prefix_iff]

end Event

end ExactCover
