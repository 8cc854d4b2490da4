import Keel.Main
import Keel.Proofs.RoundTrip
import Keel.Proofs.Retraction
import Keel.Proofs.Growth.Session
import Keel.Proofs.Initialisation.History
import Keel.Proofs.Stream.Access
import Keel.Proofs.Stream.Loop
import Keel.Proofs.Recovery
import Keel.Proofs.Causality.Session
import Keel.Proofs.Effect.Frames
import Keel.Proofs.Limit
import Keel.Proofs.Concatenation.Session
import Keel.Proofs.Bytes.Session
import Keel.Proofs.Unmentioned.Evaluation
import Keel.Proofs.Interaction.Terminal
import Keel.Proofs.LetForms.Application
import Keel.Proofs.LetForms.Nesting
import Keel.Proofs.Conditional
import Keel.Proofs.LetForms.Recursion
import Keel.Proofs.FormShapes
import Keel.Proofs.Scoping.Operations
import Keel.Proofs.Truncation
import Keel.Proofs.PrimitiveShapes
import Keel.Proofs.Parameters
import Keel.Proofs.Equality
import Keel.Proofs.Refusal
import Keel.Proofs.Logging.Session
import Keel.Proofs.Identity.Moments
import Keel.Proofs.Lists
import Keel.Proofs.Copier.Session
