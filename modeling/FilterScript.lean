import FilterScript.Token.Reader
import FilterScript.Tree.Outline
import FilterScript.Diagnostic.Sources
import FilterScript.Main
import FilterScript.Proofs.Outlines
import FilterScript.Proofs.Depth
import FilterScript.Proofs.Completeness.RoundTrip
import FilterScript.Proofs.Spelling.Scripts
import FilterScript.Proofs.Spans.Scripts
import FilterScript.Proofs.Parallel.Sources
import FilterScript.Proofs.Faults
import FilterScript.Proofs.Lookahead
import FilterScript.Proofs.Concatenation
import FilterScript.Proofs.Rendering
import FilterScript.Proofs.Scanning.Longest
import FilterScript.Proofs.Scanning.Spacing
import FilterScript.Proofs.Simulation
import FilterScript.Proofs.Braces.Scripts
import FilterScript.Proofs.Operators.Powers
import FilterScript.Proofs.Operators.Chains
import FilterScript.Proofs.Statements.Leading
import FilterScript.Proofs.Layout.Scripts
import FilterScript.Proofs.Lints.Order
import FilterScript.Proofs.Interning
import FilterScript.Proofs.Expansion
import FilterScript.Proofs.Verdicts
import FilterScript.Proofs.Positions
import FilterScript.Proofs.Traces.Productions
import FilterScript.Proofs.Commas.Sources
import FilterScript.Proofs.Recursion.Endings
