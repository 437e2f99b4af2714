import Lisplet.Editor.Workspace
import Lisplet.Main
import Lisplet.Proofs.Grammar
import Lisplet.Value.Equality
import Lisplet.Width
import Lisplet.Proofs.Scanning
import Lisplet.Proofs.Recognition
import Lisplet.Proofs.Acceptance
import Lisplet.Proofs.Stages
import Lisplet.Proofs.RoundTrip
import Lisplet.Proofs.ProperStack
import Lisplet.Proofs.FrameDiscipline
import Lisplet.Proofs.Restoration
import Lisplet.Proofs.Viability
import Lisplet.Proofs.Provenance
import Lisplet.Proofs.Ordinary
import Lisplet.Proofs.History
import Lisplet.Proofs.OwnErrors
import Lisplet.Proofs.Scopes
import Lisplet.Proofs.BigStep
import Lisplet.Proofs.Derivation
import Lisplet.Proofs.Nesting
import Lisplet.Proofs.Levels
import Lisplet.Proofs.Dictionaries
import Lisplet.Proofs.Renaming
import Lisplet.Proofs.Correspondence
import Lisplet.Proofs.Unmentioned
import Lisplet.Proofs.Encoding
import Lisplet.Proofs.Resemblance
import Lisplet.Proofs.Formatting
import Lisplet.Proofs.Equivariance
import Lisplet.Proofs.Tracking
import Lisplet.Proofs.Interning
import Lisplet.Proofs.DefinitionScan
import Lisplet.Proofs.Layout
import Lisplet.Proofs.Indexing
import Lisplet.Proofs.Arithmetic
import Lisplet.Proofs.Division
import Lisplet.Proofs.Documents
import Lisplet.Proofs.Cursor
import Lisplet.Proofs.Hovering
import Lisplet.Proofs.Termination
import Lisplet.Proofs.Overflow
import Lisplet.Proofs.Entries
import Lisplet.Proofs.Splitting
