import ExactCover.Calendar.Date
import Mathlib.Data.List.Forall2
import Mathlib.Data.List.TakeWhile
import Mathlib.Tactic.IntervalCases

/-!
# Reading months

`Month.ofText` takes the blanks from the ends of a text and tries to read what is left, first as a
number and then as a name.  `Month.Written` is what it ought to accept, said without regard to how
it is read: numerals with or without a plus sign, and names and abbreviations in letters of either
case.  A text is accepted as a month just if the month is written so, and no text is written for two
months (`Month.found?_eq_some_iff`).

Letters are compared in lower case, and outside of ASCII that is a matter of tables.  The reading is
repeated here with any way of lowering the case of texts, with numerals up to a limit only, and with
abbreviations told by their length in bytes (`Month.ofTextUsing`).  All that is needed of the tables
is that what they make of a character outside of ASCII is not a text of letters from the names of
months.  Then it makes no difference (`Month.foundUsing?_eq`).
-/

set_option autoImplicit false

namespace ExactCover

/-! ## Trimming -/

namespace Text

variable {cs ds t : List Char} {c : Char} {n : Nat}

/-- **The text `t` is left of `cs`** if blanks are taken away from its ends, until there is none at
either. -/
def IsTrimmed (cs t : List Char) : Prop :=
  ∃ l r, cs = l ++ t ++ r ∧ (∀ c ∈ l ++ r, isBlank c = true) ∧
    (∀ c ∈ t.head?, isBlank c = false) ∧ ∀ c ∈ t.getLast?, isBlank c = false

/-- What is dropped ends where a character is to be kept. -/
theorem dropWhile_append_eq {p : Char → Bool} (hcs : ∀ c ∈ cs, p c = true)
    (ht : ∀ c ∈ t.head?, p c = false) : (cs ++ t).dropWhile p = t := by
  rw [List.dropWhile_append_of_pos hcs]
  cases t with
  | nil => rfl
  | cons c t => rw [List.dropWhile_cons_of_neg (by simp [ht c rfl])]

theorem eq_false_of_mem_head?_dropWhile {p : Char → Bool} (h : c ∈ (cs.dropWhile p).head?) :
    p c = false := by
  have hnot := List.head?_dropWhile_not p cs
  rwa [Option.mem_def.1 h] at hnot

/-- No other text than `trim cs` is left of `cs`. -/
theorem IsTrimmed.eq_trim (h : IsTrimmed cs t) : t = trim cs := by
  obtain ⟨l, r, rfl, hblank, hhead, hlast⟩ := h
  have hright : (t ++ r).reverse.dropWhile isBlank = t.reverse := by
    rw [List.reverse_append]
    refine dropWhile_append_eq (fun c hc ↦ ?_) (by rwa [List.head?_reverse])
    exact hblank c (List.mem_append_right l (List.mem_reverse.1 hc))
  rw [trim]
  cases t with
  | nil =>
    -- Nothing stops what is dropped from the left, so it takes the blanks of the right with it.
    rw [List.append_nil, List.dropWhile_eq_nil_iff.2 hblank]
    rfl
  | cons c t =>
    have hleft : (l ++ (c :: t) ++ r).dropWhile isBlank = c :: t ++ r := by
      rw [List.append_assoc]
      exact dropWhile_append_eq (fun d hd ↦ hblank d (List.mem_append_left r hd)) hhead
    rw [hleft, hright, List.reverse_reverse]

theorem isTrimmed_trim (cs : List Char) : IsTrimmed cs (trim cs) := by
  have hcs : cs.takeWhile isBlank ++ cs.dropWhile isBlank = cs := List.takeWhile_append_dropWhile
  generalize hu : cs.dropWhile isBlank = u at hcs
  have hkept : trim cs ++ (u.reverse.takeWhile isBlank).reverse = u := by
    rw [trim, hu, ← List.reverse_append, List.takeWhile_append_dropWhile, List.reverse_reverse]
  refine ⟨cs.takeWhile isBlank, (u.reverse.takeWhile isBlank).reverse, ?_, ?_, ?_, ?_⟩
  · rw [List.append_assoc, hkept, hcs]
  · rw [List.forall_mem_append]
    exact ⟨fun c hc ↦ List.mem_takeWhile_imp hc,
      fun c hc ↦ List.mem_takeWhile_imp (List.mem_reverse.1 hc)⟩
  · -- The first character of what is left was also the first when the left end had been trimmed.
    intro c hc
    have hfirst : c ∈ (cs.dropWhile isBlank).head? := by
      rw [hu, ← hkept, List.head?_append, Option.mem_def.1 hc]
      rfl
    exact eq_false_of_mem_head?_dropWhile hfirst
  · intro c hc
    rw [trim, List.getLast?_reverse] at hc
    exact eq_false_of_mem_head?_dropWhile hc

/-- **There is one such text.** -/
theorem isTrimmed_iff : IsTrimmed cs t ↔ t = trim cs :=
  ⟨IsTrimmed.eq_trim, fun h ↦ h ▸ isTrimmed_trim cs⟩

/-! ## Numerals -/

theorem unsigned?_eq_some_iff : unsigned? cs = some n ↔
    ∃ sign ds, (sign = [] ∨ sign = ['+']) ∧ natural? ds = some n ∧ cs = sign ++ ds := by
  constructor
  · intro h
    rw [unsigned?.eq_def] at h
    split at h
    · exact ⟨['+'], _, .inr rfl, h, rfl⟩
    · exact ⟨[], _, .inl rfl, h, rfl⟩
  · rintro ⟨sign, ds, rfl | rfl, h, rfl⟩
    · rw [unsigned?, h]
      rintro ds rfl
      have hplus := (natural?_eq_some_iff.1 h).2.1 '+' List.mem_cons_self
      exact absurd hplus (by decide)
    · exact h

/-- The value of a numeral that may carry a plus sign, if it is below the 64th power of two. -/
def bounded? (cs : List Char) : Option Nat := (unsigned? cs).filter (· < 0x10000000000000000)

/-! ## Letters of either case -/

/-- The character is the letter in upper or in lower case. -/
def EitherCase (c letter : Char) : Prop := c = letter.toUpper ∨ c = letter.toLower

theorem isLower_iff : c.isLower = true ↔ 97 ≤ c.toNat ∧ c.toNat ≤ 122 := by
  -- `simp` would generate the equations of `Char.isLower` once more, for this module.
  delta Char.isLower
  simp only [Bool.and_eq_true, decide_eq_true_eq, ge_iff_le, UInt32.le_iff_toNat_le]
  rfl

/-- In lower case the 26 capital letters stand 32 places later, and no other character moves. -/
theorem toNat_toLower (c : Char) :
    c.toLower.toNat = if 65 ≤ c.toNat ∧ c.toNat ≤ 90 then c.toNat + 32 else c.toNat := by
  have hrange : 'A'.val ≤ c.val ∧ c.val ≤ 'Z'.val ↔ 65 ≤ c.toNat ∧ c.toNat ≤ 90 := by
    simp only [UInt32.le_iff_toNat_le]
    rfl
  delta Char.toLower
  simp only [ge_iff_le, hrange]
  split
  case isTrue h =>
    show (c.val + ('a'.val - 'A'.val)).toNat = _
    rw [UInt32.toNat_add]
    show (c.toNat + 32) % 0x100000000 = _
    omega
  case isFalse => rfl

/-- In upper case the 26 small letters stand 32 places earlier. -/
theorem toNat_toUpper (c : Char) :
    c.toUpper.toNat = if 97 ≤ c.toNat ∧ c.toNat ≤ 122 then c.toNat - 32 else c.toNat := by
  have hrange : 'a'.val ≤ c.val ∧ c.val ≤ 'z'.val ↔ 97 ≤ c.toNat ∧ c.toNat ≤ 122 := by
    simp only [UInt32.le_iff_toNat_le]
    rfl
  delta Char.toUpper
  simp only [hrange]
  split
  case isTrue h =>
    show (c.val + ('A'.val - 'a'.val)).toNat = _
    rw [UInt32.toNat_add]
    -- The difference is taken modulo the word size, and the sum brings it back.
    show (c.toNat + 0xffffffe0) % 0x100000000 = _
    omega
  case isFalse => rfl

theorem toLower_eq_iff {letter : Char} : c.toLower = letter.toLower ↔ EitherCase c letter := by
  simp only [EitherCase, ← Char.toNat_inj, toNat_toLower, toNat_toUpper]
  grind

/-- Only letters of ASCII become small letters of ASCII. -/
theorem toNat_of_isLower_toLower (h : c.toLower.isLower = true) :
    65 ≤ c.toNat ∧ c.toNat < 0x80 := by
  rw [isLower_iff, toNat_toLower] at h
  split at h <;> omega

theorem map_toLower_eq_iff {letters : List Char} :
    cs.map Char.toLower = letters.map Char.toLower ↔ List.Forall₂ EitherCase cs letters := by
  rw [← List.forall₂_eq_eq_eq, List.forall₂_map_left_iff, List.forall₂_map_right_iff]
  simp only [toLower_eq_iff]

end Text

namespace Month

variable {m m' : Month} {cs ds : List Char} {n : Nat} {lower : List Char → List Char}

/-! ## The ways of writing a month -/

/-- **The ways of writing a month.** -/
inductive Written (m : Month) : List Char → Prop
  /-- Its number in ASCII digits, with any number of leading zeros and perhaps a plus sign. -/
  | number {sign digits : List Char} (hsign : sign = [] ∨ sign = ['+']) (hne : digits ≠ [])
      (hdigits : ∀ c ∈ digits, c.isDigit = true)
      (hvalue : Nat.ofDigitChars 10 digits 0 = m.number) : Written m (sign ++ digits)
  /-- Its name, each letter in either case. -/
  | name {cs : List Char} (h : List.Forall₂ Text.EitherCase cs m.name.toList) : Written m cs
  /-- The first three letters of its name, each in either case. -/
  | abbreviation {cs : List Char}
      (h : List.Forall₂ Text.EitherCase cs (m.name.toList.take 3)) : Written m cs

/-- The month that a text without blanks at its ends stands for. -/
def found? (cs : List Char) : Option Month :=
  match Text.unsigned? cs with
  | some n => ofNumber? n
  | none => all.find? fun m ↦ m.isCalled cs

/-- The answer to a text after it has been looked up. -/
def answer (cs : List Char) : Option Month → Except DateError Month
  | some m => .ok m
  | none => .error (.unknownMonth (.ofList cs))

theorem ofText_eq (text : String) :
    ofText text = answer (Text.trim text.toList) (found? (Text.trim text.toList)) := rfl

theorem answer_eq_ok_iff {o : Option Month} : answer cs o = .ok m ↔ o = some m := by
  cases o <;> simp [answer]

/-! ## Names -/

theorem isCalled_iff : m.isCalled cs = true ↔ List.Forall₂ Text.EitherCase cs m.name.toList ∨
    List.Forall₂ Text.EitherCase cs (m.name.toList.take 3) := by
  rw [← Text.map_toLower_eq_iff, ← Text.map_toLower_eq_iff, List.map_take]
  simp [isCalled, letters]

/-- The letters that occur in the names of months, in lower case. -/
def alphabet : List Char := all.flatMap letters

theorem mem_alphabet {c : Char} (hc : c ∈ m.letters) : c ∈ alphabet :=
  List.mem_flatMap.2 ⟨m, mem_all m, hc⟩

theorem toLower_mem_alphabet (h : m.isCalled cs = true) {c : Char} (hc : c ∈ cs) :
    c.toLower ∈ alphabet := by
  have hmem : c.toLower ∈ cs.map Char.toLower := List.mem_map_of_mem hc
  simp only [isCalled, Bool.or_eq_true, beq_iff_eq] at h
  rcases h with h | h
  · exact mem_alphabet (h ▸ hmem)
  · exact mem_alphabet (List.mem_of_mem_take (h ▸ hmem))

/-- **No two months are called the same.**  Their names differ in the first three letters. -/
theorem eq_of_isCalled (h : m.isCalled cs = true) (h' : m'.isCalled cs = true) : m = m' := by
  have htake {m : Month} (h : m.isCalled cs = true) :
      (cs.map Char.toLower).take 3 = m.letters.take 3 := by
    simp only [isCalled, Bool.or_eq_true, beq_iff_eq] at h
    rcases h with h | h
    · rw [h]
    · rw [h, List.take_take, Nat.min_self]
  have hinjective : ∀ m ∈ all, ∀ m' ∈ all, m.letters.take 3 = m'.letters.take 3 → m = m' := by
    decide
  exact hinjective m (mem_all m) m' (mem_all m') ((htake h).symm.trans (htake h'))

theorem find?_isCalled_eq_some_iff :
    (all.find? fun m ↦ m.isCalled cs) = some m ↔ m.isCalled cs = true := by
  refine ⟨List.find?_some, fun h ↦ ?_⟩
  cases hfind : all.find? fun m ↦ m.isCalled cs with
  | none => exact absurd h (List.find?_eq_none.1 hfind m (mem_all m))
  | some m' =>
    have hcalled := List.find?_some hfind
    rw [eq_of_isCalled hcalled h]

theorem isLower_of_mem_alphabet {c : Char} (hc : c ∈ alphabet) : c.isLower = true := by
  have hall : alphabet.all Char.isLower = true := by decide
  exact List.all_eq_true.1 hall c hc

/-- **No numeral is the name of a month.** -/
theorem isCalled_eq_false (h : Text.unsigned? cs = some n) : m.isCalled cs = false := by
  obtain ⟨sign, ds, -, hds, rfl⟩ := Text.unsigned?_eq_some_iff.1 h
  obtain ⟨hne, hdigits, -⟩ := Text.natural?_eq_some_iff.1 hds
  obtain ⟨c, hc⟩ := List.exists_mem_of_ne_nil ds hne
  rw [Bool.eq_false_iff]
  intro hcalled
  have hmem := toLower_mem_alphabet hcalled (List.mem_append_right sign hc)
  have hletter := (Text.toNat_of_isLower_toLower (isLower_of_mem_alphabet hmem)).1
  have hdigit : c.toNat ≤ 57 := (Char.isDigit_iff_toNat.1 (hdigits c hc)).2
  omega

/-! ## Numbers -/

theorem number_mem (m : Month) : 1 ≤ m.number ∧ m.number ≤ 12 := by cases m <;> decide

theorem ofNumber?_eq_some_iff : ofNumber? n = some m ↔ m.number = n := by
  constructor
  · intro h
    simpa using List.find?_some h
  · rintro rfl
    cases m <;> rfl

theorem ofNumber?_eq_none (h : ¬(1 ≤ n ∧ n ≤ 12)) : ofNumber? n = none := by
  cases hfound : ofNumber? n with
  | none => rfl
  | some m => exact absurd (ofNumber?_eq_some_iff.1 hfound ▸ m.number_mem) h

/-! ## What is found -/

/-- **The month is found that is written.** -/
theorem found?_eq_some_iff : found? cs = some m ↔ m.Written cs := by
  constructor
  · intro h
    rw [found?] at h
    split at h
    next n hn =>
      obtain ⟨sign, ds, hsign, hds, rfl⟩ := Text.unsigned?_eq_some_iff.1 hn
      obtain ⟨hne, hdigits, rfl⟩ := Text.natural?_eq_some_iff.1 hds
      exact .number hsign hne hdigits (ofNumber?_eq_some_iff.1 h).symm
    next =>
      rcases isCalled_iff.1 (find?_isCalled_eq_some_iff.1 h) with h | h
      · exact .name h
      · exact .abbreviation h
  · have hcalled (h : m.isCalled cs = true) : found? cs = some m := by
      cases hn : Text.unsigned? cs with
      | some n => rw [isCalled_eq_false hn] at h; cases h
      | none => rw [found?, hn]; exact find?_isCalled_eq_some_iff.2 h
    intro h
    cases h with
    | number hsign hne hdigits hvalue =>
      have hn := Text.unsigned?_eq_some_iff.2
        ⟨_, _, hsign, Text.natural?_eq_some_iff.2 ⟨hne, hdigits, hvalue⟩, rfl⟩
      rw [found?, hn]
      exact ofNumber?_eq_some_iff.2 rfl
    | name h => exact hcalled (isCalled_iff.2 (.inl h))
    | abbreviation h => exact hcalled (isCalled_iff.2 (.inr h))

/-! ## Lower case outside of ASCII -/

/-- **What a character may become in lower case.**  Those of ASCII become what they become there;
of the others it is assumed only that what they become is not a text of letters from the names of
months. -/
inductive Lowers : Char → List Char → Prop
  /-- In ASCII, letters become lower-case letters and nothing else changes. -/
  | ascii {c : Char} (h : c.toNat < 0x80) : Lowers c [c.toLower]
  /-- Outside of ASCII, something stands there that is not one of the letters. -/
  | other {c d : Char} {cs : List Char} (h : 0x80 ≤ c.toNat) (hd : d ∈ cs) (hd' : d ∉ alphabet) :
      Lowers c cs

/-- **A way of writing texts in lower case**, one character after another.  What a character becomes
may depend on those around it. -/
def IsLowerCasing (lower : List Char → List Char) : Prop :=
  ∀ cs, ∃ pieces, List.Forall₂ Lowers cs pieces ∧ lower cs = pieces.flatten

/-- Only characters of ASCII become one of these letters there. -/
theorem toNat_lt_of_toLower_mem {c : Char} (hc : c.toLower ∈ alphabet) : c.toNat < 0x80 :=
  (Text.toNat_of_isLower_toLower (isLower_of_mem_alphabet hc)).2

/-- A text becomes a text of these letters only if it consists of them, in either case. -/
theorem flatten_eq_iff {pieces : List (List Char)} (h : List.Forall₂ Lowers cs pieces)
    (hds : ∀ d ∈ ds, d ∈ alphabet) : pieces.flatten = ds ↔ cs.map Char.toLower = ds := by
  induction h generalizing ds with
  | nil => rfl
  | @cons c piece cs pieces hc _ ih =>
    rw [List.flatten_cons, List.map_cons]
    cases hc with
    | ascii =>
      cases ds with
      | nil => simp
      | cons d ds =>
        rw [List.forall_mem_cons] at hds
        rw [List.singleton_append, List.cons.injEq, List.cons.injEq, ih hds.2]
    | @other d _ hc hd hd' =>
      -- Neither the piece nor the character itself can stand in such a text.
      refine iff_of_false ?_ ?_
      · rintro rfl
        exact hd' (hds d (List.mem_append_left _ hd))
      · rintro rfl
        exact hc.not_gt (toNat_lt_of_toLower_mem (hds _ List.mem_cons_self))

theorem lower_eq_iff (hlower : IsLowerCasing lower)
    (hds : ∀ d ∈ ds, d ∈ alphabet) : lower cs = ds ↔ cs.map Char.toLower = ds := by
  obtain ⟨pieces, hpieces, hflatten⟩ := hlower cs
  rw [hflatten, flatten_eq_iff hpieces hds]

theorem lower_name (hlower : IsLowerCasing lower) (m : Month) :
    lower m.name.toList = m.letters :=
  (lower_eq_iff hlower fun _ hd ↦ mem_alphabet hd).2 rfl

/-! ## Reading with it -/

/-- The text takes so many bytes. -/
def byteLength (cs : List Char) : Nat := (cs.map Char.utf8Size).sum

/-- The text is the name of the month, or three bytes from the beginning of it. -/
def isCalledUsing (lower : List Char → List Char) (m : Month) (cs : List Char) : Bool :=
  lower cs == lower m.name.toList ||
    (byteLength (lower cs) == 3 && (lower cs).isPrefixOf (lower m.name.toList))

/-- The month that a text without blanks at its ends stands for.  Numbers beyond the limit are not
read as such. -/
def foundUsing? (lower : List Char → List Char) (cs : List Char) : Option Month :=
  match Text.bounded? cs with
  | some n => if 1 ≤ n ∧ n ≤ 12 then all[n - 1]? else none
  | none => all.find? fun m ↦ isCalledUsing lower m cs

/-- **The month that a text stands for**, with `lower` to lower the case of texts. -/
def ofTextUsing (lower : List Char → List Char) (text : String) : Except DateError Month :=
  answer (Text.trim text.toList) (foundUsing? lower (Text.trim text.toList))

theorem byteLength_eq (hds : ∀ d ∈ ds, d ∈ alphabet) : byteLength ds = ds.length := by
  have hone : ds.map Char.utf8Size = ds.map fun _ ↦ 1 := by
    refine List.map_congr_left fun d hd ↦ Char.utf8Size_eq_one_iff.2 ?_
    have hle := (Text.isLower_iff.1 (isLower_of_mem_alphabet (hds d hd))).2
    exact UInt32.le_iff_toNat_le.2 (hle.trans (by decide))
  rw [byteLength, hone, List.map_const', List.sum_replicate_nat, Nat.mul_one]

/-- **Three bytes from the beginning of a name are its first three letters.** -/
theorem isCalledUsing_eq (hlower : IsLowerCasing lower) (m : Month) (cs : List Char) :
    isCalledUsing lower m cs = m.isCalled cs := by
  have htake : ∀ d ∈ m.letters.take 3, d ∈ alphabet :=
    fun d hd ↦ mem_alphabet (List.mem_of_mem_take hd)
  have hlength : 3 ≤ m.letters.length := by cases m <;> decide
  rw [Bool.eq_iff_iff, isCalledUsing, isCalled, lower_name hlower]
  simp only [Bool.or_eq_true, Bool.and_eq_true, beq_iff_eq, List.isPrefixOf_iff_prefix]
  rw [← lower_eq_iff hlower fun d hd ↦ mem_alphabet hd, ← lower_eq_iff hlower htake]
  refine or_congr_right ⟨?_, fun h ↦ ?_⟩
  · rintro ⟨hbytes, hbegin⟩
    rw [byteLength_eq fun d hd ↦ mem_alphabet (hbegin.subset hd)] at hbytes
    rw [← hbytes]
    exact List.prefix_iff_eq_take.1 hbegin
  · rw [h, byteLength_eq htake, List.length_take, Nat.min_eq_left hlength]
    exact ⟨rfl, List.take_prefix 3 _⟩

theorem getElem?_all (n : Nat) : (if 1 ≤ n ∧ n ≤ 12 then all[n - 1]? else none) = ofNumber? n := by
  by_cases h : 1 ≤ n ∧ n ≤ 12
  · obtain ⟨hle, hge⟩ := h
    interval_cases n <;> rfl
  · rw [if_neg h, ofNumber?_eq_none h]

/-- **It makes no difference.** -/
theorem foundUsing?_eq (hlower : IsLowerCasing lower) (cs : List Char) :
    foundUsing? lower cs = found? cs := by
  have hnames : (all.find? fun m ↦ isCalledUsing lower m cs) = all.find? fun m ↦ m.isCalled cs := by
    simp only [isCalledUsing_eq hlower]
  rw [foundUsing?, found?, hnames, Text.bounded?]
  cases hn : Text.unsigned? cs with
  | none => rfl
  | some n =>
    by_cases hlt : n < 0x10000000000000000
    · rw [Option.filter_some_pos (by simpa using hlt)]
      exact getElem?_all n
    · -- The numeral is looked up as a name, in vain, and it is not the number of a month either.
      rw [Option.filter_some_neg (by simpa using hlt)]
      dsimp only
      rw [ofNumber?_eq_none (by omega), List.find?_eq_none]
      intro m _
      rw [isCalled_eq_false hn]
      exact Bool.false_ne_true

/-! ## What is read -/

/-- **Months are read just as they are written.**  Blanks at the ends of a text do not matter; what
is left without them is a month just if it is a way of writing this month, and it is not a way of
writing two.  Any other text is refused, and named without the blanks.  All this holds with any way
of lowering the case of texts. -/
theorem ofText_written (hlower : IsLowerCasing lower) (text : String) :
    ∃ t, (∀ t', Text.IsTrimmed text.toList t' ↔ t' = t) ∧
      ofTextUsing lower text = ofText text ∧
      (∀ m, ofText text = .ok m ↔ m.Written t) ∧
      (∀ m m', Written m t → Written m' t → m = m') ∧
      ((∀ m, ¬Written m t) → ofText text = .error (.unknownMonth (.ofList t))) := by
  refine ⟨Text.trim text.toList, fun t' ↦ Text.isTrimmed_iff, ?_, fun m ↦ ?_, fun m m' h h' ↦ ?_,
    fun h ↦ ?_⟩
  · rw [ofTextUsing, foundUsing?_eq hlower, ofText_eq]
  · rw [ofText_eq, answer_eq_ok_iff, found?_eq_some_iff]
  · rw [← found?_eq_some_iff] at h h'
    exact Option.some_inj.1 (h.symm.trans h')
  · have hnone : found? (Text.trim text.toList) = none :=
      Option.eq_none_iff_forall_ne_some.2 fun m hm ↦ h m (found?_eq_some_iff.1 hm)
    rw [ofText_eq, hnone]
    rfl

/-- Lower case of ASCII, of the capital I with a dot above and of the sign of the kelvin.  The
capital I becomes two characters, of which the first is a letter of ASCII; the sign becomes such a
letter. -/
def lowerDotted (cs : List Char) : List Char :=
  cs.flatMap fun c ↦
    if c = '\u0130' then ['i', '\u0307'] else if c = '\u212a' then ['k'] else [c.toLower]

/-- Characters outside of ASCII may stay as they are. -/
theorem lowers_toLower (c : Char) : Lowers c [c.toLower] := by
  by_cases h : c.toNat < 0x80
  · exact .ascii h
  · exact .other (Nat.le_of_not_lt h) List.mem_cons_self fun hmem ↦ h (toNat_lt_of_toLower_mem hmem)

theorem isLowerCasing_lowerDotted : IsLowerCasing lowerDotted := by
  intro cs
  refine ⟨_, List.forall₂_map_right_iff.2 (List.forall₂_same.2 fun c _ ↦ ?_), rfl⟩
  split
  case isTrue h =>
    subst h
    exact .other (by decide) (List.mem_cons_of_mem 'i' List.mem_cons_self) (by decide)
  case isFalse =>
    split
    case isTrue h =>
      subst h
      exact .other (by decide) List.mem_cons_self (by decide)
    case isFalse => exact lowers_toLower c

/-- A number with a plus sign and zeros, between blanks of which one is outside of ASCII; and a name
with a letter that becomes the right one and a dot. -/
theorem ofText_written_dotted : IsLowerCasing lowerDotted ∧
    Written .december ['+', '0', '0', '1', '2'] ∧
    ofTextUsing lowerDotted "\u2003+0012\n" = .ok .december ∧
    ofTextUsing lowerDotted "apr\u0130l " = .error (.unknownMonth "apr\u0130l") := by
  obtain ⟨t, ht, hnumber, hwritten, -⟩ :=
    ofText_written isLowerCasing_lowerDotted "\u2003+0012\n"
  obtain ⟨-, -, hname, -⟩ := ofText_written isLowerCasing_lowerDotted "apr\u0130l "
  have hread : ofText "\u2003+0012\n" = .ok .december := by rfl
  obtain rfl : ['+', '0', '0', '1', '2'] = t := (ht _).1 (Text.isTrimmed_iff.2 (by rfl))
  refine ⟨isLowerCasing_lowerDotted, (hwritten _).1 hread, hnumber.trans hread, hname.trans ?_⟩
  rfl

end Month

end ExactCover
