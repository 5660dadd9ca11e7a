import Pullbackup.Service
import Pullbackup.View
import Pullbackup.Acceptance
import Pullbackup.Admission
import Pullbackup.Alarms
import Pullbackup.Amortised
import Pullbackup.Backlog
import Pullbackup.Blocked
import Pullbackup.Board
import Pullbackup.Bodies
import Pullbackup.Budget
import Pullbackup.Cancellation
import Pullbackup.Ceiling
import Pullbackup.Commands
import Pullbackup.Concurrency
import Pullbackup.Configuration
import Pullbackup.Cookies
import Pullbackup.Coverage
import Pullbackup.Credentials
import Pullbackup.Datasets
import Pullbackup.Deadline
import Pullbackup.Descriptors
import Pullbackup.Destination
import Pullbackup.Drain
import Pullbackup.Echo
import Pullbackup.Exclusivity
import Pullbackup.Fairness
import Pullbackup.Forwarded
import Pullbackup.Guesses
import Pullbackup.Handover
import Pullbackup.Heartbeat
import Pullbackup.Idempotence
import Pullbackup.Isolation
import Pullbackup.Library.Base64
import Pullbackup.Library.Naming
import Pullbackup.Library.Rounds
import Pullbackup.Lockout
import Pullbackup.Mediation
import Pullbackup.Monitors
import Pullbackup.Owed
import Pullbackup.Pruning
import Pullbackup.Pump
import Pullbackup.Quiescence
import Pullbackup.Rearming
import Pullbackup.Reconcile
import Pullbackup.References
import Pullbackup.RetryBudget
import Pullbackup.Roots
import Pullbackup.RunLogs
import Pullbackup.Scanning
import Pullbackup.Session
import Pullbackup.Streaming
import Pullbackup.Supervision
import Pullbackup.TaskSort
import Pullbackup.Traversal
import Pullbackup.Browse
