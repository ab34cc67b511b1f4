import LineScript.Cli.Command
import LineScript.Main
import LineScript.Proofs.Engine.Act
import LineScript.Proofs.Engine.Moves
import LineScript.Proofs.Engine.Activity
import LineScript.Proofs.Engine.Attribution
import LineScript.Proofs.Engine.Chunks
import LineScript.Proofs.Engine.HostResults
import LineScript.Proofs.Engine.Refusal
import LineScript.Proofs.Engine.Operations
import LineScript.Proofs.Engine.Registration
import LineScript.Proofs.Engine.Deeds
import LineScript.Proofs.Engine.WriteHistory
import LineScript.Proofs.Script.Cut
import LineScript.Proofs.Script.Words
import LineScript.Proofs.Script.Spaced
import LineScript.Proofs.Script.Layout
import LineScript.Proofs.Engine.Unresolved
import LineScript.Proofs.Script.Nesting
import LineScript.Proofs.Engine.Strictness
import LineScript.Proofs.Cli.Ending
import LineScript.Proofs.Engine.Activations
import LineScript.Proofs.Script.Braces
import LineScript.Proofs.Cli.Submission
import LineScript.Proofs.Script.Parentheses
import LineScript.Proofs.Symbol.Path
import LineScript.Proofs.Symbol.CamelCase
import LineScript.Proofs.Engine.Plain
import LineScript.Proofs.Engine.Failing
import LineScript.Proofs.Engine.TextEvaluation
import LineScript.Proofs.Engine.Calls
import LineScript.Proofs.Value.Comparison
import LineScript.Proofs.Cli.Buffer
import LineScript.Proofs.Script.Slices
import LineScript.Proofs.Number.Grammar
import LineScript.Proofs.Script.Arguments
import LineScript.Proofs.Script.Cursor
