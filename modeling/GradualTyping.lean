import GradualTyping.Settings.Toml
import GradualTyping.Diagnostic.Render
import GradualTyping.Proofs.Rows
import GradualTyping.Proofs.RowCalls
import GradualTyping.Proofs.Narrowing.Discriminants
import GradualTyping.Proofs.Tracking.Clauses
import GradualTyping.Proofs.Units.Workers
import GradualTyping.Proofs.Walks.Stacks
import GradualTyping.Proofs.Program.RoundTrip
import GradualTyping.Proofs.Templates
import GradualTyping.Proofs.Limits.Raising
import GradualTyping.Proofs.Comparison.Shapes
