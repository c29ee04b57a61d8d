import Admission.Config.Document
import Admission.Scenario.Termination
import Admission.Version
import Admission.Proofs.Window.History
import Admission.Proofs.Window.Reentrant
import Admission.Proofs.Recorder.Captures
import Admission.Proofs.Counts.Trailing
import Admission.Proofs.Health
import Admission.Proofs.Gate.Chain
import Admission.Proofs.Rail.Tripping
import Admission.Proofs.Gate.Semaphores
import Admission.Proofs.Gate.Refusals
import Admission.Proofs.Histogram.Snapshot
import Admission.Proofs.Scenario.Steps
import Admission.Proofs.Rail.Conservation
import Admission.Proofs.Scenario.Effects
import Admission.Proofs.Scenario.Runs
import Admission.Proofs.Scenario.Settling
import Admission.Proofs.Gate.Periods
import Admission.Proofs.Gate.Probes
import Admission.Proofs.Scenario.Names
import Admission.Proofs.Scenario.Callbacks
import Admission.Proofs.Scenario.Rounds
import Admission.Proofs.Scenario.Listening
import Admission.Proofs.Scenario.Forwarding
import Admission.Proofs.Handoff.Order
import Admission.Proofs.Config.RoundTrip
import Admission.Proofs.Rail.Holding
import Admission.Proofs.Rail.Ledger
import Admission.Proofs.Rail.Rollback
import Admission.Proofs.Histogram.Merge
import Admission.Proofs.Latency.Intervals
import Admission.Proofs.Scenario.Panics
import Admission.Proofs.Deadline.Queue
import Admission.Proofs.Deadline.Traffic
import Admission.Proofs.Deadline.Firing
import Admission.Proofs.Window.Walks
import Admission.Proofs.Health.Throttle
import Admission.Proofs.Deadline.Order
import Admission.Proofs.Deadline.Refinement
import Admission.Proofs.Deadline.Barrier
import Admission.Proofs.Counts.Ages
import Admission.Proofs.Window.Handles
import Admission.Proofs.Latency.Trailing
import Admission.Proofs.Scenario.Wakers
import Admission.Proofs.Scenario.Waking
import Admission.Proofs.Config.Building
import Admission.Proofs.Histogram.Ranges
import Admission.Proofs.Handoff.Wakeups
import Admission.Proofs.Deadline.Deadlock
