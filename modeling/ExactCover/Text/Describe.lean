import ExactCover.Text.Quoted

/-!
# How a key is shown in a message

Error messages name the columns and rows they are about.  `Describe α` says how: numbers stand in
decimal, texts and characters are quoted, and a pair stands between parentheses.
-/

set_option autoImplicit false

namespace ExactCover

open Text

/-- A type whose values can be named in a message. -/
class Describe (α : Type) where
  /-- The text that stands for the value. -/
  describe : α → String

export Describe (describe)

/-- A number in decimal. -/
instance : Describe Nat := ⟨fun n ↦ n.repr⟩

/-- A number in decimal, with a minus sign if it is negative. -/
instance : Describe Int := ⟨fun n ↦ if n < 0 then "-" ++ n.natAbs.repr else n.natAbs.repr⟩

/-- A text between double quotes. -/
instance : Describe String := ⟨fun s ↦ .ofList (quoted '"' s.toList)⟩

/-- A character between apostrophes. -/
instance : Describe Char := ⟨fun c ↦ .ofList (quoted '\'' [c])⟩

/-- The two components between parentheses. -/
instance {α β : Type} [Describe α] [Describe β] : Describe (α × β) :=
  ⟨fun p ↦ "(" ++ describe p.1 ++ ", " ++ describe p.2 ++ ")"⟩

end ExactCover
