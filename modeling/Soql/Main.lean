/-
  The program `soql`.

  Usage: `soql format <query>`, `soql compose [-i <json>]`, `soql parse
  <query>`; without `-i` the JSON stands on standard input.  With `--log` the
  steps of composing are reported on standard error.
-/
import Soql.Command.Outcome

namespace Soql

/-- A line of the report. -/
def Event.line : Event → Text
  | composing source => "DEBUG soql::composer: Composing query sobject=" ++ source.quote
  | clause keyword text =>
    "DEBUG soql::composer: Current SOQL clause=" ++ keyword.quote ++ " soql=" ++ text.quote
  | composed bytes => "DEBUG soql::composer: Composed query len=" ++ Text.decimal bytes
  | unsupportedField tag =>
    "DEBUG soql::json: Unsupported field expression tag=" ++ tag.quote

end Soql

open Soql in
/-- Runs the program. -/
def main (args : List String) : IO UInt32 := do
  let invocation := Invocation.ofArguments (args.map String.toList)
  let input ← match invocation with
    | .composeInput _ _ => (← IO.getStdin).readToEnd
    | _ => pure ""
  if invocation.logging then
    for event in ((invocation.command? input.toList).map Command.events).getD [] do
      IO.eprintln (String.ofList event.line)
  let outcome := invocation.outcome input.toList
  IO.print (String.ofList outcome.output)
  IO.eprint (String.ofList outcome.errors)
  return outcome.code.toUInt32
