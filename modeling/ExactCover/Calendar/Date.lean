import ExactCover.Key
import ExactCover.Text.Blank
import ExactCover.Text.Describe
import ExactCover.Text.Numeral

/-!
# Months and days

A date of the calendar puzzle is a month and a day of the month from 1 to 31; the puzzle does not
know how long the months are.

A month is written as its number, as its name, or as the first three letters of its name
(`Month.ofText`).  Blanks around it do not matter, nor does the case of its letters.
-/

set_option autoImplicit false

namespace ExactCover

/-- A month of the year. -/
inductive Month where
  | january | february | march | april | may | june
  | july | august | september | october | november | december
deriving DecidableEq

/-- A day of a month. -/
structure Day where
  /-- The number of the day. -/
  number : Nat
  /-- Days are counted from one. -/
  number_pos : 0 < number
  /-- No month has more than 31 days. -/
  number_le : number ≤ 31

/-- Why something is not a date. -/
inductive DateError where
  /-- The text stands for no month. -/
  | unknownMonth (text : String)
  /-- No month has such a day. -/
  | dayOutOfRange (day : Nat)
deriving DecidableEq

/-- The wording of an error. -/
def DateError.message : DateError → String
  | unknownMonth text => s!"unknown month {describe text}"
  | dayOutOfRange day => s!"day {day} is outside 1..=31"

namespace Month

/-- The months in order. -/
def all : List Month :=
  [january, february, march, april, may, june,
    july, august, september, october, november, december]

/-- The number of the month, from 1 for January to 12 for December. -/
def number : Month → Nat
  | january => 1
  | february => 2
  | march => 3
  | april => 4
  | may => 5
  | june => 6
  | july => 7
  | august => 8
  | september => 9
  | october => 10
  | november => 11
  | december => 12

/-- The English name of the month. -/
def name : Month → String
  | january => "January"
  | february => "February"
  | march => "March"
  | april => "April"
  | may => "May"
  | june => "June"
  | july => "July"
  | august => "August"
  | september => "September"
  | october => "October"
  | november => "November"
  | december => "December"

/-- Months are ordered by their numbers. -/
instance : Key Month :=
  Key.ofInjective number (fun a b ↦ by cases a <;> cases b <;> decide)
    (fun a b ↦ compare a.number b.number) fun _ _ ↦ rfl

/-- A month by its name. -/
instance : Describe Month := ⟨name⟩

/-- The letters of the name in lower case. -/
def letters (m : Month) : List Char := m.name.toList.map Char.toLower

/-- Whether a text, written in upper or lower case, is the name of the month or its first three
letters. -/
def isCalled (m : Month) (cs : List Char) : Bool :=
  let lower := cs.map Char.toLower
  lower == m.letters || lower == m.letters.take 3

/-- The month with the given number. -/
def ofNumber? (n : Nat) : Option Month := all.find? fun m ↦ m.number == n

/-- **The month that a text stands for.** -/
def ofText (text : String) : Except DateError Month :=
  let cs := Text.trim text.toList
  let found := match Text.unsigned? cs with
    | some n => ofNumber? n
    | none => all.find? fun m ↦ m.isCalled cs
  match found with
  | some m => .ok m
  | none => .error (.unknownMonth (.ofList cs))

theorem mem_all (m : Month) : m ∈ all := by cases m <;> decide

end Month

@[ext]
theorem Day.ext {d e : Day} (h : d.number = e.number) : d = e := by
  cases d; cases e; cases h; rfl

/-- Days are told apart by their numbers. -/
instance : DecidableEq Day := fun d e ↦
  decidable_of_iff (d.number = e.number) ⟨Day.ext, fun h ↦ h ▸ rfl⟩

/-- The day with the given number. -/
def Day.ofNumber (n : Nat) : Except DateError Day :=
  if h : 0 < n ∧ n ≤ 31 then .ok ⟨n, h.1, h.2⟩ else .error (.dayOutOfRange n)

end ExactCover
