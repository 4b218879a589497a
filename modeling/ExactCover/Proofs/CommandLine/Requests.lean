import ExactCover.CommandLine.Arguments

/-!
# Making requests

Every request whose limit is below the bound can be made: `Request.arguments` writes it down with
the name of the month, the numbers in decimal form and the options by their long names, and reading
these arguments gives back the request (`Request.ofArguments_arguments`).

Numerals are the only arguments that are not known in advance.  They start with a digit, so none of
them is taken for an option or as signed, and the value read is the number printed
(`Text.natural?_toDigits`).
-/

set_option autoImplicit false

namespace ExactCover

namespace Text

/-- A numeral starts with a digit, and not with a sign. -/
theorem exists_toDigits_eq_cons (n : Nat) :
    ∃ c cs, Nat.toDigits 10 n = c :: cs ∧ c ≠ '+' ∧ c ≠ '-' := by
  obtain ⟨c, cs, hcs⟩ := List.exists_cons_of_ne_nil (Nat.toDigits_ne_nil (b := 10) (n := n))
  have hdigit : c.isDigit = true :=
    Nat.isDigit_of_mem_toDigits (by decide) (by decide) (hcs ▸ List.mem_cons_self)
  refine ⟨c, cs, hcs, ?_, ?_⟩
  all_goals
    rintro rfl
    exact absurd hdigit (by decide)

theorem unsigned?_toDigits (n : Nat) : unsigned? (Nat.toDigits 10 n) = some n := by
  obtain ⟨c, cs, hcs, hplus, -⟩ := exists_toDigits_eq_cons n
  rw [← natural?_toDigits n, hcs, unsigned?]
  rintro cs' ⟨⟩
  exact hplus rfl

theorem integer?_toDigits (n : Nat) : integer? (Nat.toDigits 10 n) = some (n : Int) := by
  obtain ⟨c, cs, hcs, -, hdash⟩ := exists_toDigits_eq_cons n
  have hunsigned := unsigned?_toDigits n
  rw [hcs] at hunsigned ⊢
  rw [integer?, hunsigned]
  · rfl
  · rintro cs' ⟨⟩
    exact hdash rfl

end Text

namespace CommandLine

namespace Arguments

variable {a : Arguments}

/-- A numeral is not an option. -/
theorem readAny_toDigits (n : Nat) :
    a.readAny (Nat.toDigits 10 n) = a.setOperand (Nat.toDigits 10 n) := by
  obtain ⟨c, cs, hcs, -, hdash⟩ := Text.exists_toDigits_eq_cons n
  rw [hcs, readAny]
  all_goals simp [hdash]

theorem readLimit_toDigits (n : Nat) :
    a.readLimit (Nat.toDigits 10 n) = a.setLimit (Nat.toDigits 10 n) := by
  obtain ⟨c, cs, hcs, -, hdash⟩ := Text.exists_toDigits_eq_cons n
  rw [hcs, readLimit]
  simp [hdash]

/-! ## The arguments one by one -/

theorem step_month (m : Month) : none.step m.name = .ok { none with month := some m } := by
  cases m <;> rfl

theorem step_day {m : Month} (d : Day) (hexpecting : a.expecting = .anything)
    (hmonth : a.month = some m) (hday : a.day = .none) :
    a.step d.number.repr = .ok { a with day := some d } := by
  have hd : Day.ofNumber d.number = .ok d := dif_pos ⟨d.number_pos, d.number_le⟩
  obtain ⟨month, day, limit, count, verbosity, expecting⟩ := a
  subst hexpecting hmonth hday
  rw [step]
  dsimp only
  rw [Nat.toList_repr, readAny_toDigits, setOperand, Text.integer?_toDigits, Option.bind_some,
    Int.toNat_natCast, hd]
  rfl

theorem step_limitOption (hexpecting : a.expecting = .anything) :
    a.step "--limit" = .ok { a with expecting := .limit } := by
  obtain ⟨month, day, limit, count, verbosity, expecting⟩ := a
  subst hexpecting
  rfl

theorem step_limit {n : Nat} (hn : n < limitBound) (hexpecting : a.expecting = .limit)
    (hlimit : a.limit = .none) :
    a.step n.repr = .ok { a with limit := some n, expecting := .anything } := by
  rw [step, hexpecting]
  dsimp only
  rw [Nat.toList_repr, readLimit_toDigits, setLimit, Text.unsigned?_toDigits]
  dsimp only
  rw [if_pos hn, hlimit]
  rfl

theorem step_count (hexpecting : a.expecting = .anything) (hcount : a.count = false) :
    a.step "--count" = .ok { a with count := true } := by
  obtain ⟨month, day, limit, count, verbosity, expecting⟩ := a
  subst hexpecting hcount
  rfl

theorem step_verbose (hexpecting : a.expecting = .anything) :
    a.step "--verbose" = .ok { a with verbosity := a.verbosity + 1 } := by
  obtain ⟨month, day, limit, count, verbosity, expecting⟩ := a
  subst hexpecting
  rfl

theorem foldlM_step_verbose (hexpecting : a.expecting = .anything) (n : Nat) :
    (List.replicate n "--verbose").foldlM step a = .ok { a with verbosity := a.verbosity + n } := by
  induction n generalizing a with
  | zero => rfl
  | succ n ih =>
    rw [List.replicate_succ, List.foldlM_cons, step_verbose hexpecting]
    refine (ih (a := { a with verbosity := a.verbosity + 1 }) hexpecting).trans ?_
    rw [Nat.add_assoc, Nat.add_comm 1 n]

end Arguments

/-! ## All arguments of a request -/

namespace Request

/-- The arguments with which a request is made. -/
def arguments (r : Request) : List String :=
  [r.month.name, r.day.number.repr, "--limit", r.limit.repr] ++
    ((if r.countOnly then ["--count"] else []) ++ List.replicate r.verbosity "--verbose")

/-- **Every request below the bound can be made.** -/
theorem ofArguments_arguments {r : Request} (h : r.limit < Arguments.limitBound) :
    ofArguments r.arguments = .ok r := by
  obtain ⟨month, day, limit, countOnly, verbosity⟩ := r
  -- What has been read before the options that take no value.
  let read : Arguments := ⟨some month, some day, some limit, false, 0, .anything⟩
  have hfirst : [month.name, day.number.repr, "--limit", limit.repr].foldlM Arguments.step .none =
      .ok read := by
    rw [List.foldlM_cons, Arguments.step_month]
    show List.foldlM Arguments.step _ _ = _
    rw [List.foldlM_cons, Arguments.step_day day rfl rfl rfl]
    show List.foldlM Arguments.step _ _ = _
    rw [List.foldlM_cons, Arguments.step_limitOption rfl]
    show List.foldlM Arguments.step _ _ = _
    rw [List.foldlM_cons, Arguments.step_limit h rfl rfl]
    rfl
  have hcount : (if countOnly then ["--count"] else []).foldlM Arguments.step read =
      .ok { read with count := countOnly } := by
    cases countOnly with
    | false => rfl
    | true =>
      rw [if_pos rfl, List.foldlM_cons, Arguments.step_count rfl rfl]
      rfl
  have hread : (arguments ⟨month, day, limit, countOnly, verbosity⟩).foldlM Arguments.step .none =
      .ok { read with count := countOnly, verbosity := 0 + verbosity } := by
    rw [arguments, List.foldlM_append, hfirst]
    show List.foldlM Arguments.step _ _ = _
    rw [List.foldlM_append, hcount]
    exact Arguments.foldlM_step_verbose rfl verbosity
  rw [ofArguments, hread, Nat.zero_add]
  rfl

end Request

end CommandLine

end ExactCover
