import Sexpr.Text.Blank
import Sexpr.Text.Lines
import Sexpr.Text.Utf8
import Sexpr.Text.Quoted
import Sexpr.Text.Inspected
import Sexpr.Text.Upper
import Sexpr.Numeral
import Sexpr.Value.Equal
import Sexpr.Value.Render
import Sexpr.Value.Inspect
import Sexpr.Journal
import Sexpr.Token.Stream
import Sexpr.Source
import Sexpr.Failure
import Sexpr.Bindings
import Sexpr.Evaluation
import Sexpr.Main
import Sexpr.Proofs.RoundTrip
import Sexpr.Proofs.Growth
import Sexpr.Proofs.WriteOnce
import Sexpr.Proofs.Endings
import Sexpr.Proofs.Blame
import Sexpr.Proofs.Recording
import Sexpr.Proofs.Reading
import Sexpr.Proofs.Parsing
import Sexpr.Proofs.Attempts
import Sexpr.Proofs.LineBreaks
import Sexpr.Proofs.Agreement
import Sexpr.Proofs.Wording
import Sexpr.Proofs.Reports
import Sexpr.Proofs.Comparing
import Sexpr.Proofs.Dependence
import Sexpr.Proofs.Hosting
import Sexpr.Proofs.Commuting
import Sexpr.Proofs.Nesting
import Sexpr.Proofs.EnoughRoom
import Sexpr.Proofs.TypingBack
import Sexpr.Proofs.Layout
import Sexpr.Proofs.Culprits
import Sexpr.Proofs.Escapes
import Sexpr.Proofs.Streaming
import Sexpr.Proofs.Showing
import Sexpr.Proofs.LineByLine
import Sexpr.Proofs.ManyFiles
import Sexpr.Proofs.FailedDefinitions
import Sexpr.Proofs.Identity
import Sexpr.Proofs.Arithmetic
import Sexpr.Proofs.Lists
import Sexpr.Proofs.Atoms
import Sexpr.Proofs.Table
