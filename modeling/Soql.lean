import Soql.Parse.Query
import Soql.Codec.Form
import Soql.Codec.Config
import Soql.Compose.Report
import Soql.Query.Equality
import Soql.Query.Build
import Soql.Command.Outcome
import Soql.Main
import Soql.Proofs.RoundTrip
import Soql.Proofs.Codec.Texts
import Soql.Proofs.Parse.Shape
import Soql.Proofs.Parse.Where
import Soql.Proofs.Commands
import Soql.Proofs.Layout.Ink
import Soql.Proofs.Codec.Retagged
import Soql.Proofs.Parse.Spellings
import Soql.Proofs.Codec.Decoded
import Soql.Proofs.Parse.Repeated
import Soql.Proofs.Parse.Nested
import Soql.Proofs.Token.Tiles
import Soql.Proofs.Parse.Cited
import Soql.Proofs.Compose.Walk
import Soql.Proofs.Layout.Wrapped
import Soql.Proofs.Literal.Strings
import Soql.Proofs.Literal.Amounts
import Soql.Proofs.Compose.Told
import Soql.Proofs.Parse.Moved
import Soql.Proofs.Parse.Later
import Soql.Proofs.Token.Respelled
import Soql.Proofs.Codec.Values
