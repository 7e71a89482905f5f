/-
  Outcomes — exit code and output of a command line.

  * `Outcome`: what the program leaves behind.
  * `Invocation.outcome`: the outcome, given what stands on standard input.
  * `Invocation.events`: what is reported on the way.
-/
import Soql.Command.Arguments
import Soql.Compose.Report

namespace Soql

/-- What the program leaves behind. -/
structure Outcome where
  code : Nat
  output : Text := []
  errors : Text := []

namespace Outcome

/-- Success, with a line of output. -/
def success (text : Text) : Outcome := { code := 0, output := text ++ "\n" }

/-- Failure, with a line of errors. -/
def failure (text : Text) : Outcome := { code := 1, errors := text ++ "\n" }

end Outcome

namespace Invocation

/-- Name and version of the program. -/
def versionText : Text := "soql 0.2.0"

/-- How the program is used. -/
def usageText : Text :=
  "Usage: soql [--log] <COMMAND>\n\n" ++
  "Commands:\n" ++
  "  format <QUERY> [--indent N] [--max-line-length N] [--indent-where-operators]\n" ++
  "  compose [-i|--input JSON] [-f|--format]\n" ++
  "  parse <QUERY> [-p|--pretty]"

/-- The command that is run, given what stands on standard input. -/
def command? (input : Text) : Invocation → Option Command
  | run command _ => some command
  | composeInput spread logging => some (.compose (some input) spread logging)
  | _ => none

/-- Exit code and output, given what stands on standard input. -/
def outcome (input : Text) (invocation : Invocation) : Outcome :=
  match invocation.command? input with
  | some command =>
    match command.run with
    | .ok text => .success text
    | .error error => .failure error.message
  | none =>
    match invocation with
    | version => .success versionText
    | help => .success usageText
    | _ => { code := 2, errors := usageText ++ "\n" }

/-- Whether the steps are reported. -/
def logging : Invocation → Bool
  | run _ log => log
  | composeInput _ log => log
  | _ => false

end Invocation

/-- What a command tells an observer. -/
def Command.events : Command → List Event
  | compose (some input) spread logging =>
    match Query.ofJsonText input with
    | .ok q => q.events { spread, logging }
    | .error error => error.events
  | _ => []

end Soql
