import Rts2.Block.PollFds
import Rts2.Block.Timers
import Rts2.Camd.Channels
import Rts2.Camd.Postponed
import Rts2.Camd.Window
import Rts2.Centrald.AddressBook
import Rts2.Centrald.BopState
import Rts2.Centrald.CloseTimeout
import Rts2.Centrald.DayCycle
import Rts2.Centrald.StatusGather
import Rts2.Centrald.Weather
import Rts2.Connection.BopGuard
import Rts2.Connection.Completion
import Rts2.Connection.ConnSerial
import Rts2.Connection.DoubleTime
import Rts2.Connection.ForkCommand
import Rts2.Connection.ImageTransfer
import Rts2.Connection.Modbus
import Rts2.Connection.QueEmpty
import Rts2.Connection.SendTurns
import Rts2.Connection.SharedData
import Rts2.Connection.TGDrive
import Rts2.Daemon.Expander
import Rts2.Daemon.IniLines
import Rts2.Daemon.QueueChanges
import Rts2.Db.AltitudeIntervals
import Rts2.Db.CopyConstraints
import Rts2.Db.DurationLaws
import Rts2.Db.MergeIntervals
import Rts2.Db.ReverseIntervals
import Rts2.Device.Authorize
import Rts2.Domed.NotBefore
import Rts2.Domed.Published
import Rts2.Expression.Written
import Rts2.Focusd.Offsets
import Rts2.Plan.AddFirst
import Rts2.Plan.CurrentTarget
import Rts2.Plan.FilterEntries
import Rts2.Plan.HardFlag
import Rts2.Plan.OrderQueue
import Rts2.Plan.PlanEntries
import Rts2.Plan.QueueQids
import Rts2.Plan.RepArrays
import Rts2.Plan.Repetitions
import Rts2.Plan.Reprocessing
import Rts2.Plan.SimulRuns
import Rts2.Rts2json.AsyncDataSent
import Rts2.Rts2json.AsyncPushed
import Rts2.Rts2json.Recovered
import Rts2.Sched.Population
import Rts2.Script.BlockCodes
import Rts2.Script.BlockReturns
import Rts2.Script.Budget
import Rts2.Script.Disabled
import Rts2.Script.Dispatch
import Rts2.Script.EachOnce
import Rts2.Script.IdleTimeout
import Rts2.Script.ReadBack
import Rts2.Script.Replies
import Rts2.Script.TempEntries
import Rts2.Script.Unroll
import Rts2.Teld.BlockMove
import Rts2.Teld.Corrections
import Rts2.Teld.CountsToSky
import Rts2.Teld.HrzToCounts
import Rts2.Teld.Margins
import Rts2.Teld.ResyncMove
import Rts2.Teld.TowardsPole
import Rts2.Utils.Mkpath
import Rts2.Values.ArrayRange
import Rts2.Values.InLimits
import Rts2.Values.RadecParser
import Rts2.Values.Selection
import Rts2.Values.StringArrays
import Rts2.Values.ValueStat
