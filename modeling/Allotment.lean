import Allotment.Desk.Together
import Allotment.Main
import Allotment.Proofs.Log.Torn
import Allotment.Proofs.Store
import Allotment.Proofs.Interleaving
import Allotment.Proofs.Disk
import Allotment.Proofs.Log.Size
import Allotment.Proofs.Log.Sink
import Allotment.Proofs.Log.Writer
import Allotment.Proofs.Log.Session
import Allotment.Proofs.Log.Course
import Allotment.Proofs.Journal
import Allotment.Proofs.Acknowledged
import Allotment.Proofs.Agreement
import Allotment.Proofs.SellOut
import Allotment.Proofs.Succession
import Allotment.Proofs.NoTrace
import Allotment.Proofs.Tables.Snapshot
import Allotment.Proofs.Durable
import Allotment.Proofs.Tables.Trace
import Allotment.Proofs.Tables.Count
import Allotment.Proofs.Compaction
import Allotment.Proofs.Storable
import Allotment.Proofs.Tenants
import Allotment.Proofs.CleanAudit
import Allotment.Proofs.Interruption
import Allotment.Proofs.EveryLog
import Allotment.Proofs.Unaudited
import Allotment.Proofs.Tables.Lawful
import Allotment.Proofs.Taken
import Allotment.Proofs.Visits
import Allotment.Proofs.Fingerprint
import Allotment.Proofs.AppendOnly
import Allotment.Proofs.Log.Adrift
import Allotment.Proofs.Verdict
import Allotment.Proofs.Mishaps
import Allotment.Proofs.Quarantine
import Allotment.Proofs.Metered
import Allotment.Proofs.Isolation
import Allotment.Proofs.Lifecycle
import Allotment.Proofs.Spared
import Allotment.Proofs.Log.Checksum
import Allotment.Proofs.Log.Damage
import Allotment.Proofs.Log.Extended
import Allotment.Proofs.Log.Allowance
import Allotment.Proofs.Log.Stray
import Allotment.Proofs.Log.Batch
import Allotment.Proofs.LostRace
import Allotment.Proofs.Histories
import Allotment.Proofs.Canonical
import Allotment.Proofs.Shrinking
import Allotment.Proofs.Precedence
import Allotment.Proofs.Ceiling
import Allotment.Proofs.Findings
import Allotment.Proofs.Appended
import Allotment.Proofs.Catalogue
import Allotment.Proofs.Sheltered
import Allotment.Proofs.Checkups
