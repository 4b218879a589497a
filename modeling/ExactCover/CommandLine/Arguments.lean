import ExactCover.Calendar.Date

/-!
# The arguments of the command

The command takes a month and a day, and options anywhere before, between and after them:

* `-l N` or `--limit N`, a number of solutions; the number may also be joined to the option, as in
  `-lN`, `-l=N` and `--limit=N`;
* `-c` or `--count`, and `-v` or `--verbose`, which take no value;
* `-h` or `--help`, and `-V` or `--version`, which end the reading at once.

Single letters can be written together behind one dash; the last of them may be `l`, with its number
joined or following.  After an argument `--` nothing is an option any longer.  Only `-v` can be
repeated, and long names cannot be shortened.

Arguments are read from left to right, so of two faults the first is reported, and a request for
help is granted unless a fault comes before it.  `Arguments.step` reads one argument, and what it
needs to know of those before it is in the state that it works on.
-/

set_option autoImplicit false

namespace ExactCover.CommandLine

/-- What the next argument can be. -/
inductive Expecting where
  /-- An option, or the month or the day. -/
  | anything
  /-- The value of a limit option. -/
  | limit
  /-- The month or the day, for options have ended. -/
  | operand
deriving DecidableEq

/-- Why arguments are refused. -/
inductive ArgumentError where
  /-- There is no such option. -/
  | unknownOption (text : String)
  /-- The option takes no value. -/
  | valueNotAllowed (text : String)
  /-- The option lacks its value. -/
  | valueMissing
  /-- The option was given before. -/
  | optionRepeated (name : String)
  /-- The limit is no number, or too large. -/
  | badLimit (text : String)
  /-- The month is no month. -/
  | badMonth (error : DateError)
  /-- The day is no number, or out of range. -/
  | badDay (text : String)
  /-- A month and a day have been given already. -/
  | unexpected (text : String)
  /-- There is no month. -/
  | monthMissing
  /-- There is no day. -/
  | dayMissing
deriving DecidableEq

/-- The wording of an error. -/
def ArgumentError.message : ArgumentError → String
  | unknownOption text => s!"there is no option {text}"
  | valueNotAllowed text => s!"the option takes no value: {text}"
  | valueMissing => "the option --limit needs a value"
  | optionRepeated name => s!"the option --{name} was given twice"
  | badLimit text => s!"{describe text} is not a limit"
  | badMonth error => error.message
  | badDay text => s!"{describe text} is not a day from 1 to 31"
  | unexpected text => s!"unexpected argument {describe text}"
  | monthMissing => "the month is missing"
  | dayMissing => "the day is missing"

/-- Why the reading of arguments ended early. -/
inductive Stop where
  /-- Help was asked for. -/
  | help
  /-- The version was asked for. -/
  | version
  /-- The arguments are at fault. -/
  | fault (error : ArgumentError)
deriving DecidableEq

/-- What the arguments read so far have said. -/
structure Arguments where
  /-- The month. -/
  month : Option Month
  /-- The day. -/
  day : Option Day
  /-- The most solutions to be printed. -/
  limit : Option Nat
  /-- Only the number of solutions is asked for. -/
  count : Bool
  /-- How often more detail was asked for. -/
  verbosity : Nat
  /-- What can follow. -/
  expecting : Expecting
deriving DecidableEq

namespace Arguments

/-- No arguments. -/
def none : Arguments := ⟨.none, .none, .none, false, 0, .anything⟩

/-- Limits stay below this number, the 64th power of two. -/
def limitBound : Nat := 0x10000000000000000

/-- Takes a text as the limit. -/
def setLimit (a : Arguments) (cs : List Char) : Except Stop Arguments :=
  match Text.unsigned? cs with
  | some n =>
    if n < limitBound then
      if a.limit.isSome then .error (.fault (.optionRepeated "limit"))
      else .ok { a with limit := some n, expecting := .anything }
    else .error (.fault (.badLimit (.ofList cs)))
  | .none => .error (.fault (.badLimit (.ofList cs)))

/-- Asks for the number of solutions only. -/
def setCount (a : Arguments) : Except Stop Arguments :=
  if a.count then .error (.fault (.optionRepeated "count")) else .ok { a with count := true }

/-- Takes a text as the month or, after the month, as the day. -/
def setOperand (a : Arguments) (cs : List Char) : Except Stop Arguments :=
  match a.month, a.day with
  | .none, _ =>
    match Month.ofText (.ofList cs) with
    | .ok m => .ok { a with month := some m }
    | .error e => .error (.fault (.badMonth e))
  | some _, .none =>
    match (Text.integer? cs).bind fun n ↦ (Day.ofNumber n.toNat).toOption with
    | some d => .ok { a with day := some d }
    | .none => .error (.fault (.badDay (.ofList cs)))
  | some _, some _ => .error (.fault (.unexpected (.ofList cs)))

/-- Reads options written as single letters. -/
def readLetters (a : Arguments) : List Char → Except Stop Arguments
  | [] => .ok a
  | 'h' :: _ => .error .help
  | 'V' :: _ => .error .version
  | 'c' :: cs => do (← a.setCount).readLetters cs
  | 'v' :: cs => { a with verbosity := a.verbosity + 1 }.readLetters cs
  | 'l' :: [] => .ok { a with expecting := .limit }
  | 'l' :: '=' :: cs => a.setLimit cs
  | 'l' :: cs => a.setLimit cs
  | c :: _ => .error (.fault (.unknownOption (.ofList ['-', c])))

/-- Reads an option written as a word, which may have a value joined to it. -/
def readWord (a : Arguments) (cs : List Char) : Except Stop Arguments :=
  let word := String.ofList (cs.takeWhile (· != '='))
  let value := cs.dropWhile (· != '=')
  match value with
  | '=' :: value =>
    if word = "limit" then a.setLimit value
    else if word ∈ ["count", "verbose", "help", "version"] then
      .error (.fault (.valueNotAllowed (.ofList cs)))
    else .error (.fault (.unknownOption s!"--{word}"))
  | _ =>
    if word = "limit" then .ok { a with expecting := .limit }
    else if word = "count" then a.setCount
    else if word = "verbose" then .ok { a with verbosity := a.verbosity + 1 }
    else if word = "help" then .error .help
    else if word = "version" then .error .version
    else .error (.fault (.unknownOption s!"--{word}"))

/-- Reads an argument that may be an option.  A dash alone is not one. -/
def readAny (a : Arguments) : List Char → Except Stop Arguments
  | ['-', '-'] => .ok { a with expecting := .operand }
  | '-' :: '-' :: cs => a.readWord cs
  | '-' :: c :: cs => a.readLetters (c :: cs)
  | cs => a.setOperand cs

/-- Reads the value of a limit option.  What looks like an option cannot be a value. -/
def readLimit (a : Arguments) : List Char → Except Stop Arguments
  | '-' :: _ :: _ => .error (.fault .valueMissing)
  | cs => a.setLimit cs

/-- **Reads one argument.** -/
def step (a : Arguments) (text : String) : Except Stop Arguments :=
  match a.expecting with
  | .anything => a.readAny text.toList
  | .limit => a.readLimit text.toList
  | .operand => a.setOperand text.toList

end Arguments

/-- What a date puzzle is to be solved for, and how the answer is to look. -/
structure Request where
  /-- The month left uncovered. -/
  month : Month
  /-- The day left uncovered. -/
  day : Day
  /-- The most solutions to be printed. -/
  limit : Nat
  /-- Only the number of solutions is asked for. -/
  countOnly : Bool
  /-- How often more detail was asked for. -/
  verbosity : Nat
deriving DecidableEq

/-- The request that complete arguments make; without a limit it is for one solution. -/
def Arguments.request (a : Arguments) : Except Stop Request :=
  match a.expecting, a.month, a.day with
  | .limit, _, _ => .error (.fault .valueMissing)
  | _, .none, _ => .error (.fault .monthMissing)
  | _, _, .none => .error (.fault .dayMissing)
  | _, some m, some d => .ok ⟨m, d, a.limit.getD 1, a.count, a.verbosity⟩

/-- **The request that the arguments make.** -/
def Request.ofArguments (args : List String) : Except Stop Request := do
  (← args.foldlM Arguments.step .none).request

end ExactCover.CommandLine
