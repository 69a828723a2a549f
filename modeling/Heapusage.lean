import Heapusage.Client.Refinement
import Heapusage.Client.Tracking
import Heapusage.Client.Attribution
import Heapusage.Client.Routing
import Heapusage.Client.Quarantine
import Heapusage.Client.Releases
import Heapusage.Client.Liveness
import Heapusage.Client.FreedRecords
import Heapusage.Client.Fencing
import Heapusage.Client.FenceFaults
import Heapusage.Client.Balance
import Heapusage.Client.Accounts
import Heapusage.Client.UsableSize
import Heapusage.Malloc.Sizes
import Heapusage.Main.FailedCalls
import Heapusage.Main.Reporting
import Heapusage.Main.Fork
import Heapusage.Main.Control
import Heapusage.Log.Ledger
import Heapusage.Log.Repeats
import Heapusage.Log.Addresses
import Heapusage.Log.Dedup
import Heapusage.Log.Leaks
import Heapusage.Log.LogFileTheorems
import Heapusage.Main.Atomicity
import Heapusage.Main.LauncherTheorems
import Heapusage.Client.Accesses
import Heapusage.Client.LeakReport
import Heapusage.Client.LifeCycle
import Heapusage.Client.CommandLine
import Heapusage.Client.Protection
import Heapusage.Client.Footprint
import Heapusage.Client.ThreadReport
import Heapusage.Client.Detection
import Heapusage.Client.DoubleFrees
