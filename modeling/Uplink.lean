import Uplink.Bench.Manager
import Uplink.Bench.Parts
import Uplink.Bench.Switchboard
import Uplink.Proofs.Ending
import Uplink.Proofs.Producers
import Uplink.Proofs.Modest
import Uplink.Proofs.Drift
import Uplink.Proofs.MailboxHistory
import Uplink.Proofs.Accounts
import Uplink.Proofs.Attempts
import Uplink.Proofs.Handling
import Uplink.Proofs.MainLoop
import Uplink.Proofs.Reconnects
import Uplink.Proofs.Unattended
import Uplink.Proofs.ExactWaits
import Uplink.Proofs.Lives
import Uplink.Proofs.Reconciliation
import Uplink.Proofs.Memory
import Uplink.Proofs.LinkMirror
import Uplink.Proofs.Associating
import Uplink.Proofs.Deliveries
import Uplink.Proofs.FreshReports
import Uplink.Proofs.CyclePhases
import Uplink.Proofs.Rest
import Uplink.Proofs.Quiescence
import Uplink.Proofs.Endless
import Uplink.Proofs.StartupGate
import Uplink.Proofs.Overflow
import Uplink.Proofs.RetryTimers
import Uplink.Proofs.Replay
import Uplink.Proofs.Deeds
import Uplink.Proofs.CycleWork
import Uplink.Proofs.Chronicle
import Uplink.Proofs.Iterations
import Uplink.Proofs.Acquisition
import Uplink.Proofs.StartupOrder
import Uplink.Proofs.Veil
import Uplink.Proofs.Sealing
import Uplink.Proofs.Secrecy
import Uplink.Proofs.StatusLoops
import Uplink.Proofs.StatusWaits
import Uplink.Proofs.ZeroTimeouts
import Uplink.Proofs.Establishment
import Uplink.Proofs.QuerySchedule
import Uplink.Proofs.Transitions
import Uplink.Proofs.TimeBounds
import Uplink.Proofs.CycleTime
import Uplink.Proofs.Utf8
import Uplink.Proofs.CredentialGrammar
import Uplink.Proofs.Backoff
import Uplink.Proofs.Moves
import Uplink.Proofs.Callbacks
import Uplink.Proofs.Plain
import Uplink.Proofs.Heedless
import Uplink.Proofs.Tandem
import Uplink.Proofs.StrayBits
import Uplink.Proofs.Backlog
