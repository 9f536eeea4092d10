import Tabletop.Play.Search
import Tabletop.Proofs.Congruence
import Tabletop.Proofs.Clock
import Tabletop.Proofs.Timeline
import Tabletop.Proofs.Reachable
import Tabletop.Proofs.Effect
import Tabletop.Proofs.Occupancy
import Tabletop.Proofs.Coherence
import Tabletop.Proofs.Lineage
import Tabletop.Proofs.Drain
import Tabletop.Proofs.Untimed
import Tabletop.Proofs.Ledger
import Tabletop.Proofs.Register
import Tabletop.Proofs.Schedule
import Tabletop.Proofs.Ageing
import Tabletop.Proofs.Span
import Tabletop.Proofs.Countdown
import Tabletop.Proofs.Punctual
import Tabletop.Proofs.Rollback
import Tabletop.Proofs.Frames
import Tabletop.Proofs.Retrieval
import Tabletop.Proofs.Walk
import Tabletop.Proofs.Frozen
import Tabletop.Proofs.TimedCongruence
import Tabletop.Proofs.Fuel
import Tabletop.Proofs.Entries
import Tabletop.Proofs.WellFormed
import Tabletop.Proofs.Search
import Tabletop.Proofs.Inventory
import Tabletop.Proofs.Memory
import Tabletop.Proofs.Twins
import Tabletop.Proofs.Genuine
import Tabletop.Proofs.Allotment
import Tabletop.Proofs.Binding
import Tabletop.Proofs.Reading
import Tabletop.Proofs.Vocabulary
import Tabletop.Proofs.Evaluation
import Tabletop.Proofs.Arithmetic
import Tabletop.Proofs.Recognition
import Tabletop.Proofs.Trimming
import Tabletop.Proofs.Printed
import Tabletop.Proofs.Spelling
import Tabletop.Proofs.Deferral
import Tabletop.Proofs.Composition
import Tabletop.Proofs.Rendering
import Tabletop.Proofs.Unambiguous
import Tabletop.Proofs.Gates
import Tabletop.Proofs.Log
import Tabletop.Proofs.Locality
import Tabletop.Proofs.Scopes
import Tabletop.Proofs.Asking
import Tabletop.Proofs.Prediction
import Tabletop.Proofs.Arrivals
import Tabletop.Proofs.Recruitment
import Tabletop.Proofs.Settled
import Tabletop.Proofs.Membership
import Tabletop.Proofs.Paths
import Tabletop.Proofs.Combinations
import Tabletop.Proofs.Compact
import Tabletop.Proofs.Negative
import Tabletop.Proofs.Sameness
import Tabletop.Proofs.KeptText
import Tabletop.Proofs.Abreast
import Tabletop.Proofs.Literals
import Tabletop.Proofs.Brackets
import Tabletop.Proofs.Slots
