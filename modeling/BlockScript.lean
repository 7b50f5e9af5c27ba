import BlockScript.Main
import BlockScript.Proofs.Warp
import BlockScript.Proofs.WarpDepth
import BlockScript.Proofs.Retirement
import BlockScript.Proofs.Ticks
import BlockScript.Proofs.Composition
import BlockScript.Proofs.Isolation
import BlockScript.Proofs.Resolution
import BlockScript.Proofs.Documents
import BlockScript.Proofs.Rounding
import BlockScript.Proofs.Doubles
import BlockScript.Proofs.ShortestDigits
import BlockScript.Proofs.Literals
import BlockScript.Proofs.Scanner
import BlockScript.Proofs.RoundTrip
import BlockScript.Proofs.Arrangement
import BlockScript.Proofs.FiniteNumbers
import BlockScript.Proofs.Accepted
import BlockScript.Proofs.NumberLine
import BlockScript.Proofs.NearestIntegers
import BlockScript.Proofs.MarkedIntegers
import BlockScript.Proofs.Comparison
import BlockScript.Proofs.Indices
import BlockScript.Proofs.Control
import BlockScript.Proofs.Expressions
import BlockScript.Proofs.Brackets
import BlockScript.Proofs.LimitedSteps
import BlockScript.Proofs.Editing
import BlockScript.Proofs.Dirtiness
import BlockScript.Proofs.Slices
import BlockScript.Proofs.Tally
import BlockScript.Proofs.FlooredRemainder
import BlockScript.Proofs.Layering
import BlockScript.Proofs.Quotation
import BlockScript.Proofs.PrintedSettings
