import LabelHooks.Main
import LabelHooks.Manual.Generate
import LabelHooks.Proofs.Agreement
import LabelHooks.Proofs.Allocation
import LabelHooks.Proofs.Declarations
import LabelHooks.Proofs.Dependencies
import LabelHooks.Proofs.Leftmost
import LabelHooks.Proofs.Nearest
import LabelHooks.Proofs.Nesting
import LabelHooks.Proofs.Outputs
import LabelHooks.Proofs.Scoping
import LabelHooks.Proofs.Sharing
import LabelHooks.Proofs.Snippets
import LabelHooks.Proofs.Spans
import LabelHooks.Proofs.Suspensions
import LabelHooks.Proofs.Templates
import LabelHooks.Proofs.Termination
import LabelHooks.Proofs.Variables
import LabelHooks.Proofs.WatchFunctions
import LabelHooks.Proofs.Wrapping
