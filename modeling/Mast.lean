import Mast.Dispatch
import Mast.Visible
import Mast.Flush
import Mast.Router
import Mast.Structure.Shape
import Mast.Order
import Mast.Roots
import Mast.WslPath.Unc
import Mast.Record
import Mast.WslPath.Reply
import Mast.Cwd
import Mast.Git
import Mast.Capture
import Mast.Diff.Presented
import Mast.Reconcile.Synced
import Mast.SendTarget
import Mast.Audit.Agreement
import Mast.World.Started
import Mast.World.Reporter
import Mast.World.Waiting
import Mast.Terminal.Flow
import Mast.Terminal.Attach
import Mast.Terminal.Modes
import Mast.Terminal.SendText
import Mast.Saver
import Mast.Reset.Deadline
import Mast.Reset.History
import Mast.Remote.Delivery
import Mast.Remote.Framing
import Mast.Remote.Brake
import Mast.Remote.Poller
import Mast.Persist.Accept
import Mast.Persist.RoundTrip
import Mast.Persist.Unknown
import Mast.TextWindow.Paging
import Mast.Store
import Mast.Persist.Published
import Mast.Persist.Crash
import Mast.Boot
import Mast.Terminal.Acked
import Mast.Remote.Exchange
import Mast.Terminal.Replies
import Mast.Git.Reader
import Mast.Changes.Asked
