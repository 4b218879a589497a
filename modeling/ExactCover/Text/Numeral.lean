/-!
# Reading decimal numerals

A numeral is a non-empty run of ASCII digits, leading zeros allowed.  `natural?` reads one,
`unsigned?` allows a plus sign before it, and `integer?` a sign of either kind.  No blanks,
separators or digits of other scripts are accepted, and there is no upper limit: a caller that has
one compares the value.

The printed form of a number is `Nat.repr`, and `natural?_toDigits` says that it reads back.
-/

set_option autoImplicit false

namespace ExactCover.Text

/-- The value of a non-empty run of decimal digits. -/
def natural? (cs : List Char) : Option Nat :=
  if !cs.isEmpty && cs.all Char.isDigit then some (Nat.ofDigitChars 10 cs 0) else none

/-- The value of a numeral that may carry a plus sign. -/
def unsigned? : List Char → Option Nat
  | '+' :: cs => natural? cs
  | cs => natural? cs

/-- The value of a numeral that may carry a plus or a minus sign. -/
def integer? : List Char → Option Int
  | '-' :: cs => (natural? cs).map fun n ↦ -(n : Int)
  | cs => (unsigned? cs).map fun n ↦ (n : Int)

theorem natural?_eq_some_iff {cs : List Char} {n : Nat} :
    natural? cs = some n ↔
      cs ≠ [] ∧ (∀ c ∈ cs, c.isDigit = true) ∧ Nat.ofDigitChars 10 cs 0 = n := by
  simp [natural?, and_assoc]

/-- **The decimal form of a number reads back.** -/
theorem natural?_toDigits (n : Nat) : natural? (Nat.toDigits 10 n) = some n := by
  rw [natural?_eq_some_iff]
  exact ⟨Nat.toDigits_ne_nil, fun _ ↦ Nat.isDigit_of_mem_toDigits (by decide) (by decide),
    Nat.ofDigitChars_ten_toDigits⟩

end ExactCover.Text
