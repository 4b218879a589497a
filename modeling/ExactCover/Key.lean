import Std.Data.ExtTreeMap.Lemmas
import Std.Data.ExtTreeSet.Lemmas

/-!
# Keys

Columns and rows of an exact cover problem can be of any type with a total order: the order is what
makes a search reproducible, since it settles which of two equally constrained columns is branched
on and in which order the rows of a column are tried.  `Key` bundles the comparison with the two
laws that make it such an order — `compare` is transitive and antisymmetric, and keys that compare
equal are equal — so that one instance argument is enough wherever a type of keys is meant.

A bundle also keeps the laws out of the statements about the search: they speak about *any* keys,
and no hypothesis on the comparison has to be carried along.

A list of keys that is strictly ascending is determined by its members (`Ascending.ext`), so that a
set of keys has one list.

Keys of compound types come from two constructions: pairs and lists are ordered lexicographically,
and a type with an injection into a type of keys takes its order from there (`Key.ofInjective`).
-/

set_option autoImplicit false

namespace ExactCover

/-- A type with a decidable total order, given by `compare`. -/
class Key (α : Type) extends Ord α, Std.TransOrd α, Std.LawfulEqOrd α

/-- Two keys are equal exactly when they compare equal. -/
theorem Key.compare_eq_iff {α : Type} [Key α] {a b : α} : compare a b = .eq ↔ a = b :=
  Std.LawfulEqOrd.compare_eq_iff_eq

/-- Equality of keys is decided by comparing them.  The priority is low because the types that come
with a decision of their own should keep it. -/
instance (priority := low) Key.decidableEq {α : Type} [Key α] : DecidableEq α := fun _ _ ↦
  decidable_of_iff _ Key.compare_eq_iff

/-! ## Ascending lists -/

/-- Each key of the list is less than all that follow it. -/
abbrev Ascending {α : Type} [Key α] (l : List α) : Prop := l.Pairwise fun a b ↦ compare a b = .lt

theorem Ascending.nodup {α : Type} [Key α] {l : List α} (h : Ascending l) : l.Nodup :=
  h.imp fun hlt heq ↦ by simp [heq, Std.ReflCmp.compare_self] at hlt

/-- **An ascending list is known by its members.** -/
theorem Ascending.ext {α : Type} [Key α] {l l' : List α} (h : Ascending l) (h' : Ascending l')
    (hmem : ∀ a, a ∈ l ↔ a ∈ l') : l = l' := by
  refine ((List.perm_ext_iff_of_nodup h.nodup h'.nodup).2 hmem).eq_of_pairwise ?_ h h'
  intro a b _ _ hab hba
  simp [Std.OrientedCmp.gt_of_lt hba] at hab

/-! ## Keys of common types -/

instance : Key Nat where
instance : Key Int where
instance : Key Char where
instance : Key String where

/-- Comparing the images under an injection tells different elements apart. -/
theorem Key.lawfulEqCmp_compareOn {α β : Type} [Key β] {f : α → β}
    (hf : ∀ a b, f a = f b → a = b) : Std.LawfulEqCmp (compareOn f) where
  eq_of_compare {a b} h := hf a b (Key.compare_eq_iff.1 (show compare (f a) (f b) = .eq from h))

/-- **The order of an injective key.**  Elements compare as their images under `f` do; `cmp` is the
way in which that comparison is carried out. -/
abbrev Key.ofInjective {α β : Type} [Key β] (f : α → β) (hf : ∀ a b, f a = f b → a = b)
    (cmp : α → α → Ordering) (hcmp : ∀ a b, cmp a b = compare (f a) (f b)) : Key α :=
  have h : compareOn f = cmp := funext fun a ↦ funext fun b ↦ (hcmp a b).symm
  { compare := cmp
    toTransCmp := h ▸ inferInstanceAs (Std.TransCmp (compareOn f))
    toLawfulEqCmp := h ▸ Key.lawfulEqCmp_compareOn hf }

/-- Pairs are ordered by the first component, then by the second. -/
instance {α β : Type} [Key α] [Key β] : Key (α × β) where
  toOrd := lexOrd
  toTransCmp :=
    inferInstanceAs (Std.TransCmp (compareLex (compareOn Prod.fst) (compareOn Prod.snd)))
  toLawfulEqCmp := ⟨fun {_ _} h ↦
    have ⟨hfst, hsnd⟩ := compareLex_eq_eq.1 h
    Prod.ext (Key.compare_eq_iff.1 hfst) (Key.compare_eq_iff.1 hsnd)⟩

/-- Lists are ordered lexicographically, a proper initial part before the whole. -/
instance {α : Type} [Key α] : Key (List α) where

end ExactCover
