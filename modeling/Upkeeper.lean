import Upkeeper.Library.Chain
import Upkeeper.Library.Machine
import Upkeeper.Library.CString
import Upkeeper.Library.Wire
import Upkeeper.UpkList.Runs
import Upkeeper.UpkList.Filter
import Upkeeper.UpkDList.Runs
import Upkeeper.Protocol.RoundTrip
import Upkeeper.Protocol.Hostile
import Upkeeper.Network.Handles
import Upkeeper.Network.Write
import Upkeeper.Network.Fragment
import Upkeeper.Buddy.Audit
import Upkeeper.Buddy.Queue
import Upkeeper.Buddy.Rate
import Upkeeper.Buddy.Mask
import Upkeeper.Network.Pending
import Upkeeper.Controller.Signals
import Upkeeper.Controller.Reaping
import Upkeeper.Controller.Actions
import Upkeeper.Controller.Store
import Upkeeper.Config.Load
import Upkeeper.Config.RoundTrip
import Upkeeper.Protocol.Checksum
import Upkeeper.Network.Invalid
import Upkeeper.Network.Bounds
import Upkeeper.Network.Stack
import Upkeeper.Network.Lengths
import Upkeeper.Controller.Preamble
import Upkeeper.Config.Replace
import Upkeeper.Config.LoadFile
import Upkeeper.Network.Timeout
import Upkeeper.Json.Unambiguous
import Upkeeper.Config.Override
import Upkeeper.Buddy.Stop
import Upkeeper.Controller.Insert
import Upkeeper.Controller.Options
import Upkeeper.Controller.Sockets
import Upkeeper.Controller.Spawn
import Upkeeper.Util.MkdirP
import Upkeeper.Util.Remove
import Upkeeper.Util.Values
import Upkeeper.UpkDList.Swap
import Upkeeper.Json.Unescape
import Upkeeper.Util.Strnlen
import Upkeeper.Controller.Session
import Upkeeper.Config.Free
import Upkeeper.Buddy.Nodes
import Upkeeper.Buddy.Desire
import Upkeeper.Controller.EventLoop
import Upkeeper.Controller.Cleanup
import Upkeeper.Controller.StateDir
