import Switchyard.Buffer.Session
import Switchyard.Failure.Report
import Switchyard.Fiber.Session
import Switchyard.Greenlet.Report
import Switchyard.Lock.Contended
import Switchyard.Lock.Session
import Switchyard.Log.Report
import Switchyard.Main
import Switchyard.Pinned.Session
import Switchyard.Pool.Session
import Switchyard.Proofs.Ancestry
import Switchyard.Proofs.Args.Holding
import Switchyard.Proofs.Buffer.History
import Switchyard.Proofs.Config.Once
import Switchyard.Proofs.Facade.Abroad
import Switchyard.Proofs.Facade.Counts
import Switchyard.Proofs.Facade.Fields
import Switchyard.Proofs.Facade.Pledges
import Switchyard.Proofs.Fiber.Course
import Switchyard.Proofs.Fiber.Lifecycle
import Switchyard.Proofs.Greenlet.Ids
import Switchyard.Proofs.Lock.Exclusion
import Switchyard.Proofs.Log.Settings
import Switchyard.Proofs.Motion.Basic
import Switchyard.Proofs.Motion.Driver
import Switchyard.Proofs.Motion.Lineage
import Switchyard.Proofs.Motion.Owner
import Switchyard.Proofs.Motion.Registry
import Switchyard.Proofs.Motion.Rooted
import Switchyard.Proofs.Motion.Roster
import Switchyard.Proofs.Pending.Channels
import Switchyard.Proofs.Pool.History
import Switchyard.Proofs.Rally.Outcome
import Switchyard.Proofs.Refusals
import Switchyard.Proofs.Relay.Chain
import Switchyard.Proofs.Relay.Crossing
import Switchyard.Proofs.Setting.Flag
import Switchyard.Script.Transcript
import Switchyard.Setting.Report
