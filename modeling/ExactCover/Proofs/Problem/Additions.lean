import ExactCover.Proofs.Problem.Faults

/-!
# Additions in place

A program does not make a new problem with every addition, it changes the one that it has.  Such an
addition goes through its checks first and edits the tables afterwards, one column after the other
(`InPlace.declareColumn`, `InPlace.declareRow`).  It may stop at any check, and what had been
changed by then would stay changed.  Nothing is: a call in place fails just if the addition is
refused, with the same fault, and then the problem is as before (`Problem.call_of_error`,
`Problem.call_of_ok`).

So refused additions leave no trace.  Of any list of calls those that succeed (`Problem.accepted`)
make the same problem by themselves, and all of them are accepted then
(`Problem.foldlM_accepted`).
-/

set_option autoImplicit false

namespace ExactCover.Problem

variable {C R α β : Type} [Key C] [Key R]

/-! ## Changing a problem in place -/

/-- A call on a problem that is changed in place.  If it fails, the problem stays as it is at that
moment. -/
abbrev InPlace (C R : Type) [Key C] [Key R] : Type → Type :=
  ExceptT (TableError C R) (StateM (Problem C R))

namespace InPlace

/-- Declares a column. -/
def declareColumn (c : C) : InPlace C R Unit := do
  if c ∈ (← get).table then throw (.columnDeclaredTwice c)
  modify fun p ↦ { p with table := p.table.insert c ∅ }

/-- Checks a column of a new row, and puts it behind those that the row covers. -/
def checkColumn (r : R) (covered : List C) (c : C) : InPlace C R (List C) := do
  if c ∉ (← get).table then throw (.columnNotDeclared r c)
  if covered.contains c then throw (.columnRepeated r c)
  return covered ++ [c]

/-- Lists a row under a column. -/
def listUnder (r : R) (c : C) : InPlace C R Unit :=
  modify fun p ↦ { p with table := p.table.modify c (·.insert r) }

/-- Declares a row. -/
def declareRow (r : R) (cs : List C) : InPlace C R Unit := do
  if r ∈ (← get).options then throw (.rowDeclaredTwice r)
  let covered ← cs.foldlM (checkColumn r) []
  covered.forM (listUnder r)
  modify fun p ↦ { p with options := p.options.insert r covered }

/-- What a call returns, and the problem that it leaves behind. -/
def call (m : InPlace C R α) (p : Problem C R) : Except (TableError C R) α × Problem C R :=
  m.run.run p

section call

variable {m : InPlace C R α} {f : α → InPlace C R β} {p q : Problem C R} {a : α}
  {fault : TableError C R}

@[simp]
theorem call_pure : (pure a : InPlace C R α).call p = (.ok a, p) := rfl

@[simp]
theorem call_throw : (throw fault : InPlace C R α).call p = (.error fault, p) := rfl

@[simp]
theorem call_modify {g : Problem C R → Problem C R} :
    (modify g : InPlace C R PUnit).call p = (.ok ⟨⟩, g p) := rfl

@[simp]
theorem call_get_bind {f : Problem C R → InPlace C R β} : (get >>= f).call p = (f p).call p := rfl

theorem call_bind_of_ok (h : m.call p = (.ok a, q)) : (m >>= f).call p = (f a).call q := by
  rw [call] at h
  change (ExceptT.bindCont f (m.run.run p).1).run (m.run.run p).2 = _
  rw [h]
  rfl

theorem call_bind_of_error (h : m.call p = (.error fault, q)) :
    (m >>= f).call p = (.error fault, q) := by
  rw [call] at h
  change (ExceptT.bindCont f (m.run.run p).1).run (m.run.run p).2 = _
  rw [h]
  rfl

end call

variable {p : Problem C R} {c : C} {r : R} {cs seen covered : List C}

theorem call_declareColumn : (declareColumn c).call p =
    if c ∈ p.table then (.error (.columnDeclaredTwice c), p)
      else (.ok (), { p with table := p.table.insert c ∅ }) := by
  rw [declareColumn, call_get_bind]
  by_cases hc : c ∈ p.table <;> simp [hc]

theorem call_checkColumn : (checkColumn r covered c).call p =
    if c ∉ p.table then (.error (.columnNotDeclared r c), p)
      else if c ∈ covered then (.error (.columnRepeated r c), p)
      else (.ok (covered ++ [c]), p) := by
  rw [checkColumn, call_get_bind]
  by_cases ht : c ∈ p.table <;> by_cases hc : c ∈ covered <;> simp [ht, hc]

/-- **The columns of a new row are checked without a change.**  Those that the row covers so far
have been `seen`. -/
theorem call_foldlM_checkColumn (hseen : ∀ c, c ∈ seen ↔ c ∈ covered) :
    (cs.foldlM (checkColumn r) covered).call p =
      (columnFault? p.table r seen cs).elim (.ok (covered ++ cs), p) fun fault ↦
        (.error fault, p) := by
  induction cs generalizing seen covered with
  | nil => simp [columnFault?]
  | cons c cs ih =>
    have hcheck : (checkColumn r covered c).call p = _ := call_checkColumn
    rw [List.foldlM_cons, columnFault?]
    by_cases ht : c ∈ p.table
    · rw [if_neg (not_not_intro ht)] at hcheck ⊢
      by_cases hc : c ∈ covered
      · rw [if_pos hc] at hcheck
        rw [if_pos ((hseen c).2 hc)]
        exact call_bind_of_error hcheck
      · rw [if_neg hc] at hcheck
        rw [if_neg (mt (hseen c).1 hc)]
        have hseen' : ∀ d, d ∈ c :: seen ↔ d ∈ covered ++ [c] := by simp [hseen, or_comm]
        rw [call_bind_of_ok hcheck, ih hseen', List.append_assoc, List.singleton_append]
    · rw [if_pos ht] at hcheck ⊢
      exact call_bind_of_error hcheck

theorem call_listUnder : (listUnder r c).call p =
    (.ok (), { p with table := p.table.modify c (·.insert r) }) := rfl

theorem call_forM_listUnder : (cs.forM (listUnder r)).call p =
    (.ok (), { p with table := cs.foldl (fun t c ↦ t.modify c (·.insert r)) p.table }) := by
  induction cs generalizing p with
  | nil => rfl
  | cons c cs ih =>
    change (listUnder r c >>= fun _ ↦ cs.forM (listUnder r)).call p = _
    rw [call_bind_of_ok call_listUnder, ih]
    rfl

theorem call_declareRow : (declareRow r cs).call p =
    if r ∈ p.options then (.error (.rowDeclaredTwice r), p)
    else (columnFault? p.table r [] cs).elim
      (.ok (), { table := cs.foldl (fun t c ↦ t.modify c (·.insert r)) p.table
                 options := p.options.insert r cs }) fun fault ↦ (.error fault, p) := by
  rw [declareRow, call_get_bind]
  by_cases hr : r ∈ p.options
  · simp [hr]
  · have hcheck : (cs.foldlM (checkColumn r) []).call p = _ :=
      call_foldlM_checkColumn fun c ↦ Iff.refl (c ∈ [])
    rw [if_neg hr, if_neg hr]
    cases hfault : columnFault? p.table r [] cs with
    | none =>
      rw [hfault] at hcheck
      rw [call_bind_of_ok hcheck, call_bind_of_ok call_forM_listUnder]
      rfl
    | some fault =>
      rw [hfault] at hcheck
      exact call_bind_of_error hcheck

end InPlace

variable {p q : Problem C R} {e : Edit C R} {c : C} {r : R} {cs : List C} {fault : TableError C R}

/-- The attempt to add something in place. -/
def inPlace : Edit C R → InPlace C R Unit
  | .column c => .declareColumn c
  | .row r cs => .declareRow r cs

/-- What comes of an addition to `p` in place. -/
def outcome (p : Problem C R) :
    Except (TableError C R) (Problem C R) → Except (TableError C R) Unit × Problem C R
  | .error fault => (.error fault, p)
  | .ok q => (.ok (), q)

/-- **A call in place is an addition**: it fails if that is refused, and changes nothing then. -/
theorem call_inPlace : (inPlace e).call p = outcome p (p.add e) := by
  cases e with
  | column c =>
    rw [inPlace, InPlace.call_declareColumn, add, addColumn]
    split <;> rfl
  | row r cs =>
    rw [inPlace, InPlace.call_declareRow, add, addRow]
    split
    · rfl
    · cases columnFault? p.table r [] cs <;> rfl

theorem call_of_error (h : p.add e = .error fault) : (inPlace e).call p = (.error fault, p) := by
  rw [call_inPlace, h, outcome]

theorem call_of_ok (h : p.add e = .ok q) : (inPlace e).call p = (.ok (), q) := by
  rw [call_inPlace, h, outcome]

/-! ## Which additions are refused -/

/-- A column is refused just if it is there already. -/
theorem addColumn_eq_error_iff :
    p.addColumn c = .error fault ↔ c ∈ p.table ∧ fault = .columnDeclaredTwice c := by
  rw [Problem.addColumn]
  by_cases hc : c ∈ p.table <;> simp [hc, eq_comm]

/-- **A row is refused if it is there already, and otherwise for the first of its columns that is
not in the table or was listed before.** -/
theorem addRow_eq_error_iff : p.addRow r cs = .error fault ↔
    (r ∈ p.options ∧ fault = .rowDeclaredTwice r) ∨
      (r ∉ p.options ∧ ∃ i c, FirstAmiss (fun before c ↦ c ∉ p.table ∨ c ∈ before) cs i c ∧
        fault = if c ∉ p.table then .columnNotDeclared r c else .columnRepeated r c) := by
  rw [Problem.addRow, ← columnFault?_eq_some_iff]
  by_cases hr : r ∈ p.options
  · simp [hr, eq_comm]
  · cases columnFault? p.table r [] cs <;> simp [hr]

theorem exists_addRow_eq_error_iff : (∃ fault, p.addRow r cs = .error fault) ↔
    r ∈ p.options ∨ (∃ c ∈ cs, c ∉ p.table) ∨ ∃ c, List.Duplicate c cs := by
  constructor
  · rintro ⟨fault, hfault⟩
    by_contra hnone
    simp only [not_or, not_exists, not_and, not_not, ← List.nodup_iff_forall_not_duplicate] at hnone
    obtain ⟨q, hq, -⟩ := exists_addRow hnone.1 hnone.2.1 hnone.2.2
    rw [hq] at hfault
    cases hfault
  · intro h
    cases hq : p.addRow r cs with
    | error fault => exact ⟨fault, rfl⟩
    | ok q =>
      obtain ⟨hr, hcs, hnodup, -⟩ := addRow_spec hq
      obtain h | ⟨c, hc, ht⟩ | ⟨c, hc⟩ := h
      · exact absurd h hr
      · exact absurd (hcs c hc) ht
      · exact absurd hnodup hc.not_nodup

/-! ## What a row changes -/

theorem getElem?_foldl_insert {t : Table C R} (hnodup : cs.Nodup) :
    (cs.foldl (fun t c ↦ t.modify c (·.insert r)) t)[c]? =
      if c ∈ cs then t[c]?.map (·.insert r) else t[c]? := by
  induction cs generalizing t with
  | nil => simp
  | cons d cs ih =>
    rw [List.nodup_cons] at hnodup
    rw [List.foldl_cons, ih hnodup.2, Std.ExtTreeMap.getElem?_modify]
    by_cases hd : c = d
    · subst hd
      simp [hnodup.1]
    · simp [hd, Ne.symm hd]

/-- **Declaring a row changes nothing but the candidates of its columns**, which gain this row, and
the options, which gain its entry. -/
theorem Consistent.tables_of_addRow (h : p.Consistent) (hq : p.addRow r cs = .ok q) :
    (∀ c ∈ cs, ∃ rs, p.table[c]? = some rs ∧ r ∉ rs ∧ q.table[c]? = some (rs.insert r)) ∧
      (∀ c, c ∉ cs → q.table[c]? = p.table[c]?) ∧
      r ∉ p.options ∧ q.options = p.options.insert r cs := by
  obtain ⟨hr, hcs, hnodup, hoptions, -⟩ := addRow_spec hq
  have htable : q.table = cs.foldl (fun t c ↦ t.modify c (·.insert r)) p.table := by
    rw [Problem.addRow, if_neg hr] at hq
    split at hq
    · cases hq
    · cases hq
      rfl
  rw [htable]
  simp only [getElem?_foldl_insert hnodup]
  refine ⟨fun c hc ↦ ?_, fun c hc ↦ if_neg hc, hr, hoptions⟩
  obtain ⟨rs, hrs⟩ := Option.isSome_iff_exists.1
    (Std.ExtTreeMap.mem_iff_isSome_getElem?.1 (hcs c hc))
  refine ⟨rs, hrs, fun hmem ↦ ?_, by rw [if_pos hc, hrs]; rfl⟩
  -- What a column lists has options.
  exact hr (Options.mem_of_mem_columns ((h.lists_iff c r).1 ⟨rs, hrs, hmem⟩))

/-! ## Lists of calls -/

/-- What a call leaves behind is the problem after the attempt. -/
theorem call_snd : ((inPlace e).call p).2 = p.edit e := by
  rw [call_inPlace]
  cases e with
  | column c =>
    rw [add, Problem.edit]
    cases p.addColumn c <;> rfl
  | row r cs =>
    rw [add, Problem.edit]
    cases p.addRow r cs <;> rfl

/-- **Of the calls on a list those that succeed**, each at its time. -/
def accepted (p : Problem C R) : List (Edit C R) → List (Edit C R)
  | [] => []
  | e :: es =>
    if ((inPlace e).call p).1.isOk then e :: accepted ((inPlace e).call p).2 es
    else accepted ((inPlace e).call p).2 es

/-- **The calls that succeed make the same problem by themselves**, and all of them are accepted
there. -/
theorem foldlM_accepted {es : List (Edit C R)} :
    (accepted p es).foldlM add p = .ok (es.foldl Problem.edit p) := by
  induction es generalizing p with
  | nil => rfl
  | cons e es ih =>
    rw [accepted, List.foldl_cons, ← call_snd]
    cases hq : p.add e with
    | error fault =>
      rw [call_of_error hq]
      exact ih
    | ok q =>
      rw [call_of_ok hq]
      change (e :: accepted q es).foldlM add p = _
      rw [List.foldlM_cons, hq]
      exact ih

/-- **Additions that fail leave no trace.**  Let calls to add columns and rows have been made on the
empty problem, with any success.  What further calls fail, and with which fault, is told by the
tables and by the first column of a row that is amiss.  In place, a call that fails leaves the
problem as it is, and one that succeeds adds what is to be added: a row changes the candidates of
its columns by itself alone and the options by its entry.  And the calls that succeeded would have
made the same problem, all of them accepted. -/
theorem additions_leave_no_trace (es : List (Edit C R)) (p : Problem C R)
    (hp : es.foldl Problem.edit ∅ = p) :
    (∀ c fault, p.addColumn c = .error fault ↔ c ∈ p.table ∧ fault = .columnDeclaredTwice c) ∧
    (∀ r cs, (∃ fault, p.addRow r cs = .error fault) ↔
      r ∈ p.options ∨ (∃ c ∈ cs, c ∉ p.table) ∨ ∃ c, List.Duplicate c cs) ∧
    (∀ r cs fault, p.addRow r cs = .error fault ↔
      (r ∈ p.options ∧ fault = .rowDeclaredTwice r) ∨
        (r ∉ p.options ∧ ∃ i c, FirstAmiss (fun before c ↦ c ∉ p.table ∨ c ∈ before) cs i c ∧
          fault = if c ∉ p.table then .columnNotDeclared r c else .columnRepeated r c)) ∧
    (∀ e fault, p.add e = .error fault → (inPlace e).call p = (.error fault, p)) ∧
    (∀ e q, p.add e = .ok q → (inPlace e).call p = (.ok (), q)) ∧
    (∀ r cs q, p.addRow r cs = .ok q →
      (∀ c ∈ cs, ∃ rs, p.table[c]? = some rs ∧ r ∉ rs ∧ q.table[c]? = some (rs.insert r)) ∧
      (∀ c, c ∉ cs → q.table[c]? = p.table[c]?) ∧
      r ∉ p.options ∧ q.options = p.options.insert r cs) ∧
    (∀ e, ((inPlace e).call p).2 = p.edit e) ∧
    assemble (accepted ∅ es) = .ok p := by
  subst hp
  have hbuilt := Built.empty.foldl_edit es
  exact ⟨fun c fault ↦ addColumn_eq_error_iff, fun r cs ↦ exists_addRow_eq_error_iff,
    fun r cs fault ↦ addRow_eq_error_iff, fun e fault ↦ call_of_error, fun e q ↦ call_of_ok,
    fun r cs q ↦ hbuilt.consistent.tables_of_addRow, fun e ↦ call_snd, foldlM_accepted⟩

/-- Seven calls on the empty problem, four of which fail. -/
def faultyCalls : List (Edit Nat Nat) :=
  [.column 1, .column 1, .row 1 [1, 2], .column 2, .row 1 [2, 1], .row 1 [2], .row 2 [2, 2]]

/-- The three calls that succeed make the problem, and of two rows that might be added to it one is
refused. -/
theorem additions_leave_no_trace_faulty :
    let p := faultyCalls.foldl Problem.edit ∅
    assemble [.column 1, .column 2, .row 1 [2, 1]] = .ok p ∧
      p.add (.row 2 [2, 2]) = .error (.columnRepeated 2 2) ∧
      (inPlace (.row 2 [2, 2])).call p = (.error (.columnRepeated 2 2), p) ∧
      p.addRow 2 [2] = .ok (p.edit (.row 2 [2])) ∧
      (p.edit (.row 2 [2])).table[1]? = p.table[1]? := by
  intro p
  obtain ⟨-, -, -, hfail, -, hrow, -, hassemble⟩ := additions_leave_no_trace faultyCalls p rfl
  have haccepted : accepted ∅ faultyCalls = [.column 1, .column 2, .row 1 [2, 1]] := by
    decide +kernel
  have herror : p.add (.row 2 [2, 2]) = .error (.columnRepeated 2 2) := by decide +kernel
  have hok : p.addRow 2 [2] = .ok (p.edit (.row 2 [2])) := by decide +kernel
  exact ⟨haccepted ▸ hassemble, herror, hfail _ _ herror, hok,
    (hrow 2 [2] _ hok).2.1 1 (by decide)⟩

end ExactCover.Problem
