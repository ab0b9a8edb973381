import SchedMon.Channel.ExitProtocol
import SchedMon.Channel.Full
import SchedMon.Channel.WakeUp
import SchedMon.Driver.Accepted
import SchedMon.Driver.Account
import SchedMon.Driver.Attach
import SchedMon.Driver.Calls
import SchedMon.Driver.Course
import SchedMon.Driver.Device
import SchedMon.Driver.Holders
import SchedMon.Driver.Punctual
import SchedMon.Driver.Slices
import SchedMon.Driver.Steering
import SchedMon.Driver.Turn
import SchedMon.Lib.Getopt
import SchedMon.RingBuffer.Client
import SchedMon.Tool.Event
import SchedMon.Tool.Evset
import SchedMon.Tool.Input
import SchedMon.Tool.Profile
import SchedMon.Tool.Arguments
import SchedMon.Tool.Stack
import SchedMon.Tool.Accepts
import SchedMon.Driver.Registry
import SchedMon.RingBuffer.Allocate
import SchedMon.Driver.Extra
import SchedMon.Driver.Register
import SchedMon.Driver.Period
import SchedMon.Driver.Energy
import SchedMon.Lib.Tracked
import SchedMon.Script.ParseRoof
import SchedMon.Driver.Intervals
import SchedMon.Driver.Counts
import SchedMon.Driver.Pace
import SchedMon.Driver.Regular
import SchedMon.Driver.Writers
import SchedMon.Driver.Arming
import SchedMon.Driver.Roster
import SchedMon.Driver.Stream
import SchedMon.Driver.Session
import SchedMon.Driver.Progress
import SchedMon.Lib.Dated
import SchedMon.Driver.Chronicle
import SchedMon.Driver.Lineage
import SchedMon.Struct
import SchedMon.System.Wire
import SchedMon.Lib.Text
import SchedMon.System.Print
import SchedMon.System.Pipeline
import SchedMon.System.Roofline
import SchedMon.System.Delivery
import SchedMon.Driver.Ledger
import SchedMon.Driver.Settlement
import SchedMon.Driver.Sole
import SchedMon.System.Duration
import SchedMon.System.Launch
