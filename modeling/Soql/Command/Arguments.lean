/-
  Command lines — from arguments to what the program is asked for.

  Options may stand before and after operands.  A long option takes its value
  as the next argument or after an equals sign; short options may be put
  together, the last of them with its value.

  * `scanArguments`: options and operands of a list of arguments.
  * `Invocation.ofArguments`: what a command line asks for.
-/
import Soql.Command.Basic

namespace Soql

/-! ## Options and operands -/

/-- An option of a command. -/
structure OptionSpec where
  name : Text
  short : Option Char := none
  takesValue : Bool := false
  /-- Whether a text can be its value. -/
  admits : Text → Bool := fun _ => true

/-- What a command may be given. -/
structure CommandForm where
  options : List OptionSpec
  /-- How many operands it has. -/
  operands : Nat := 0

/-- What a command line gives a command. -/
structure Given where
  flags : List Text := []
  values : List (Text × Text) := []
  operands : List Text := []

/-- Why reading arguments ends early. -/
inductive Stop where
  | misuse
  | help

namespace Given

/-- Whether an option has been given. -/
def has (g : Given) (name : Text) : Bool := g.flags.contains name || (g.values.lookup name).isSome

/-- Adds an option without a value; none may be given twice. -/
def addFlag (g : Given) (spec : OptionSpec) : Except Stop Given :=
  if g.has spec.name then .error .misuse else .ok { g with flags := spec.name :: g.flags }

/-- Adds an option with its value; none may be given twice. -/
def addValue (g : Given) (spec : OptionSpec) (value : Text) : Except Stop Given :=
  if g.has spec.name || !spec.admits value then .error .misuse
  else .ok { g with values := (spec.name, value) :: g.values }

/-- Adds operands, of which there may be at most `limit` altogether. -/
def addOperands (g : Given) (limit : Nat) (operands : List Text) : Except Stop Given :=
  if limit < g.operands.length + operands.length then .error .misuse
  else .ok { g with operands := g.operands ++ operands }

end Given

/-- What an argument looks like. -/
inductive ArgumentForm where
  | long (name : Text) (value : Option Text)
  | cluster (letters : Text)
  | endOfOptions
  | operand

/-- The form of an argument: a single minus sign is an operand. -/
def ArgumentForm.of : Text → ArgumentForm
  | ['-', '-'] => .endOfOptions
  | '-' :: '-' :: t =>
    match t.dropWhile (· != '=') with
    | '=' :: value => .long (t.takeWhile (· != '=')) (some value)
    | _ => .long t none
  | '-' :: c :: t => .cluster (c :: t)
  | _ => .operand

/-- Whether an argument can be the value of the option before it. -/
def isValue (t : Text) : Bool :=
  match ArgumentForm.of t with
  | .operand => true
  | _ => false

/-- Reads short options that are put together; the last may wait for its value. -/
def scanCluster (options : List OptionSpec) :
    Text → Given → Except Stop (Given × Option OptionSpec)
  | [], g => .ok (g, none)
  | c :: t, g =>
    match options.find? (·.short == some c) with
    | none => .error (if c = 'h' then .help else .misuse)
    | some spec =>
      if spec.takesValue then
        match t with
        | [] => .ok (g, some spec)
        | '=' :: value => return (← g.addValue spec value, none)
        | value => return (← g.addValue spec value, none)
      else do scanCluster options t (← g.addFlag spec)

/-- Reads a long option; it may wait for its value. -/
def scanLong (options : List OptionSpec) (name : Text) (value : Option Text) (g : Given) :
    Except Stop (Given × Option OptionSpec) :=
  match options.find? (·.name == name) with
  | none => .error (if name = ("help" : Text) ∧ value.isNone then .help else .misuse)
  | some spec =>
    match spec.takesValue, value with
    | true, some value => return (← g.addValue spec value, none)
    | true, none => .ok (g, some spec)
    | false, some _ => .error .misuse
    | false, none => return (← g.addFlag spec, none)

/-- Reads options and operands in their order; the first that is wrong, or asks for help, ends
    it. -/
def scanArguments (form : CommandForm) : List Text → Given → Except Stop Given
  | [], g => .ok g
  | arg :: rest, g => do
    match ArgumentForm.of arg with
    | .operand => scanArguments form rest (← g.addOperands form.operands [arg])
    | .endOfOptions => g.addOperands form.operands rest
    | .long name value =>
      match ← scanLong form.options name value g, rest with
      | (g, none), rest => scanArguments form rest g
      | (g, some spec), value :: rest =>
        if isValue value then scanArguments form rest (← g.addValue spec value)
        else .error .misuse
      | (_, some _), [] => .error .misuse
    | .cluster letters =>
      match ← scanCluster form.options letters g, rest with
      | (g, none), rest => scanArguments form rest g
      | (g, some spec), value :: rest =>
        if isValue value then scanArguments form rest (← g.addValue spec value)
        else .error .misuse
      | (_, some _), [] => .error .misuse

/-! ## Command lines -/

/-- What a command line asks for. -/
inductive Invocation where
  /-- To run a command, possibly with a report of what happens. -/
  | run (command : Command) (logging : Bool)
  /-- To compose what stands on standard input. -/
  | composeInput (spread logging : Bool)
  | version
  | help
  | misuse

namespace Invocation

/-- The option that every command has. -/
def logOption : OptionSpec := { name := "log" }

/-- A natural number of 64 bits, possibly after a plus sign. -/
def sizeOf? (t : Text) : Option Nat := do
  let n ← Text.number? (match t with
    | '+' :: digits => digits
    | digits => digits)
  if n < UInt64.size then some n else none

/-- An option whose value is a natural number of 64 bits. -/
def sizeOption (name : Text) : OptionSpec :=
  { name, takesValue := true, admits := fun t => (sizeOf? t).isSome }

/-- The value of an option as a number: nothing if it is not given. -/
def sizeGiven (g : Given) (name : Text) : Option Nat := (g.values.lookup name).bind sizeOf?

/-- The single operand of a command. -/
def onlyOperand (g : Given) : Except Stop Text :=
  match g.operands with
  | [t] => .ok t
  | _ => .error .misuse

/-- What `format` may be given. -/
def formatForm : CommandForm where
  options := [logOption, sizeOption "indent", sizeOption "max-line-length",
    { name := "indent-where-operators" }]
  operands := 1

/-- What `compose` may be given. -/
def composeForm : CommandForm where
  options := [logOption, { name := "input", short := some 'i', takesValue := true },
    { name := "format", short := some 'f' }]

/-- What `parse` may be given. -/
def parseForm : CommandForm where
  options := [logOption, { name := "pretty", short := some 'p' }]
  operands := 1

/-- The arguments of `format`. -/
def format (logging : Bool) (args : List Text) : Except Stop Invocation := do
  let g ← scanArguments formatForm args {}
  let query ← onlyOperand g
  return .run (.format query (sizeGiven g "indent") (sizeGiven g "max-line-length")
    (g.has "indent-where-operators")) (logging || g.has "log")

/-- The arguments of `compose`. -/
def compose (logging : Bool) (args : List Text) : Except Stop Invocation := do
  let g ← scanArguments composeForm args {}
  let logging := logging || g.has "log"
  match g.values.lookup ("input" : Text) with
  | some input => return .run (.compose (some input) (g.has "format") logging) logging
  | none => return .composeInput (g.has "format") logging

/-- The arguments of `parse`. -/
def parse (logging : Bool) (args : List Text) : Except Stop Invocation := do
  let g ← scanArguments parseForm args {}
  let query ← onlyOperand g
  return .run (.parse query (g.has "pretty")) (logging || g.has "log")

/-- The names of the commands. -/
def commandNames : List Text := ["format", "compose", "parse", "help"]

/-- The arguments of `help`: nothing, or the name of a command. -/
def helpOn : List Text → Stop
  | [] => .help
  | [name] => if commandNames.contains name then .help else .misuse
  | _ => .misuse

/-- The arguments of the command of that name. -/
def ofCommand (logging : Bool) (name : Text) (args : List Text) : Invocation :=
  let parsed := if name = ("format" : Text) then format logging args
    else if name = ("compose" : Text) then compose logging args
    else if name = ("parse" : Text) then parse logging args
    else if name = ("help" : Text) then .error (helpOn args)
    else .error .misuse
  match parsed with
  | .ok invocation => invocation
  | .error .help => .help
  | .error .misuse => .misuse

/-- What the arguments up to the name of a command and after it ask for. -/
def ofArgumentsWith (logging : Bool) : List Text → Invocation
  | [] => .misuse
  | arg :: rest =>
    match ArgumentForm.of arg with
    | .operand => ofCommand logging arg rest
    | .long name none =>
      if name = ("version" : Text) then .version
      else if name = ("help" : Text) then .help
      else if name = ("log" : Text) ∧ !logging then ofArgumentsWith true rest
      else .misuse
    | .cluster ('V' :: _) => .version
    | .cluster ('h' :: _) => .help
    | _ => .misuse

/-- What a command line asks for. -/
def ofArguments (args : List Text) : Invocation := ofArgumentsWith false args

end Invocation

end Soql
