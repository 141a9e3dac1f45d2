import LeftRecursion.Answer
import LeftRecursion.Body
import LeftRecursion.Command.Arguments
import LeftRecursion.Command.Directory
import LeftRecursion.Command.Run
import LeftRecursion.Elimination
import LeftRecursion.Trace
import LeftRecursion.Grammar.Basic
import LeftRecursion.Grammar.Language
import LeftRecursion.Grammar.Lemmas
import LeftRecursion.Json
import LeftRecursion.Main
import LeftRecursion.Reading
import LeftRecursion.Rendering
import LeftRecursion.Text.Characters
import LeftRecursion.Text.Lines
import LeftRecursion.Text.Quoted
import LeftRecursion.Proofs.Elimination.Step
import LeftRecursion.Proofs.Walk
import LeftRecursion.Proofs.Elimination.HelperNames
import LeftRecursion.Proofs.Language.Interpretation
import LeftRecursion.Proofs.Language.Preservation
import LeftRecursion.Proofs.Language.Rewriting
import LeftRecursion.Proofs.Elimination.LeadingGraph
import LeftRecursion.Proofs.Elimination.Stage
import LeftRecursion.Proofs.Elimination.Shape
import LeftRecursion.Proofs.Elimination.LeftRecursionFree
import LeftRecursion.Proofs.Elimination.FixedPoint
import LeftRecursion.Proofs.Reading.Lines
import LeftRecursion.Proofs.Reading.FirstError
import LeftRecursion.Proofs.Reading.Meaning
import LeftRecursion.Proofs.Reading.RoundTrip
import LeftRecursion.Proofs.Trees.Series
import LeftRecursion.Proofs.Trees.Count
import LeftRecursion.Proofs.Trees.Preservation
import LeftRecursion.Proofs.Elimination.HelperUse
import LeftRecursion.Proofs.Elimination.NotLeftRecursive
import LeftRecursion.Proofs.Elimination.ReadBack
import LeftRecursion.Proofs.Elimination.DirectRecursion
import LeftRecursion.Proofs.Elimination.Expansion
import LeftRecursion.Proofs.Elimination.Renaming
import LeftRecursion.Proofs.Elimination.SecondRun
import LeftRecursion.Proofs.Elimination.Events
import LeftRecursion.Proofs.Elimination.Account
import LeftRecursion.Proofs.Elimination.Emptied
import LeftRecursion.Proofs.Grammar.Registry
import LeftRecursion.Proofs.Json.RoundTrip
import LeftRecursion.Proofs.Answer
import LeftRecursion.Proofs.Command.Log
import LeftRecursion.Proofs.Command.Outcome
import LeftRecursion.Proofs.Elimination.Noninterference
import LeftRecursion.Proofs.Reading.Concatenation
import LeftRecursion.Proofs.Rendering.Latex
