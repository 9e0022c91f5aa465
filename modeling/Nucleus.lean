import Nucleus.Proofs.Activation
import Nucleus.Proofs.Bypass
import Nucleus.Proofs.Circle
import Nucleus.Proofs.Entry
import Nucleus.Proofs.Frames
import Nucleus.Proofs.Lineage
import Nucleus.Proofs.Refusal
import Nucleus.Proofs.Waits
import Nucleus.Proofs.Watchers
import Nucleus.Proofs.Deadlines
import Nucleus.Proofs.Wakeups
import Nucleus.Proofs.Deliveries
import Nucleus.Proofs.Hooks
import Nucleus.Proofs.Answers
import Nucleus.Proofs.Batches
import Nucleus.Proofs.Idling
import Nucleus.Proofs.Nesting
import Nucleus.Proofs.LineNumbers
import Nucleus.Proofs.Slots
import Nucleus.Proofs.Slices
import Nucleus.Proofs.Placement
import Nucleus.Proofs.Delays
import Nucleus.Proofs.Memory
