import UnitCheck.Dimension.Build
import UnitCheck.Main
import UnitCheck.Service
import UnitCheck.Proofs.Markup.Complete
import UnitCheck.Proofs.Markup.Offsets
import UnitCheck.Proofs.Units.Reading
import UnitCheck.Proofs.Markup.Lexing
import UnitCheck.Proofs.Markup.Denial
import UnitCheck.Proofs.Equation.InPlace
import UnitCheck.Proofs.Markup.Usage
import UnitCheck.Proofs.Equation.Dependence
import UnitCheck.Proofs.Project.Recheck
import UnitCheck.Proofs.Equation.Extension
import UnitCheck.Proofs.Service.Answers
import UnitCheck.Proofs.Units.AsMarkup
import UnitCheck.Proofs.Binary64.Nearest
import UnitCheck.Proofs.Binary64.Shortest
import UnitCheck.Proofs.Binary64.Literal
import UnitCheck.Proofs.Dimension.Single
import UnitCheck.Proofs.Units.Spelling
import UnitCheck.Proofs.Units.RoundTrip
import UnitCheck.Proofs.Markup.Nesting
import UnitCheck.Proofs.Units.Located
import UnitCheck.Proofs.Units.Stack
import UnitCheck.Proofs.Pointer
import UnitCheck.Proofs.Command.Check
import UnitCheck.Proofs.Markup.Fraction
import UnitCheck.Proofs.Markup.Ranges
import UnitCheck.Proofs.Markup.Juxtaposition
import UnitCheck.Proofs.Markup.Subscripts
import UnitCheck.Proofs.Markup.Rejoin
import UnitCheck.Proofs.Markup.Spans
import UnitCheck.Proofs.Equation.Conclusive
import UnitCheck.Proofs.Equation.Difference
import UnitCheck.Proofs.Dimension.Integers
import UnitCheck.Proofs.Binary64.Error
import UnitCheck.Proofs.Dimension.Arithmetic
import UnitCheck.Proofs.Dimension.Merging
import UnitCheck.Proofs.Dimension.Laws
import UnitCheck.Proofs.Dimension.Restored
import UnitCheck.Proofs.Dimension.Canonical
import UnitCheck.Proofs.Units.Distinct
import UnitCheck.Proofs.Equation.Exchange
import UnitCheck.Proofs.Markup.Refused
import UnitCheck.Proofs.Text.Lines
import UnitCheck.Proofs.Text.Trimmed
import UnitCheck.Proofs.Variable.Declared
import UnitCheck.Proofs.Variable.Rewritten
import UnitCheck.Proofs.Variable.Linewise
import UnitCheck.Proofs.Variable.Room
import UnitCheck.Proofs.Project.Document
import UnitCheck.Proofs.Run.Scopes
import UnitCheck.Proofs.Markup.Matching
import UnitCheck.Proofs.Units.Partition
import UnitCheck.Proofs.Dimension.Construction
