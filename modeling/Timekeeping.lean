import Timekeeping.Config.Basic
import Timekeeping.Config.Json
import Timekeeping.Config.Variables
import Timekeeping.Error
import Timekeeping.Host
import Timekeeping.Json.Basic
import Timekeeping.Json.Reader
import Timekeeping.Json.Writer
import Timekeeping.Number.Binary64
import Timekeeping.Number.Decimal
import Timekeeping.Number.Shortest
import Timekeeping.Queue
import Timekeeping.Run.Act
import Timekeeping.Run.Journal
import Timekeeping.Run.Operation
import Timekeeping.Run.Pass
import Timekeeping.Run.Poller
import Timekeeping.Run.Program
import Timekeeping.Scheduler.Arming
import Timekeeping.Scheduler.Firing
import Timekeeping.Scheduler.Listing
import Timekeeping.Script.Session
import Timekeeping.Script.Step
import Timekeeping.Table
import Timekeeping.Text.Numerals
import Timekeeping.Text.Quoted
import Timekeeping.Time.Alignment
import Timekeeping.Time.Civil
import Timekeeping.Time.Duration
import Timekeeping.Time.Instant
import Timekeeping.Time.Ticks
import Timekeeping.Timer
import Timekeeping.Timing.Basic
import Timekeeping.Timing.Json
import Timekeeping.Timing.Reading
import Timekeeping.Timing.Words
import Timekeeping.World
import Timekeeping.Proofs.State.Ordered
import Timekeeping.Proofs.State.Waiting
import Timekeeping.Proofs.State.Changes
import Timekeeping.Proofs.State.Removals
import Timekeeping.Proofs.Run.Steps
import Timekeeping.Proofs.Run.Closure
import Timekeeping.Proofs.Run.Reachability
import Timekeeping.Proofs.Laws.Agreement
import Timekeeping.Proofs.Laws.Cancellation
import Timekeeping.Proofs.Run.Snapshots
import Timekeeping.Proofs.Run.Sweeps
import Timekeeping.Proofs.Run.ArmingOrder
import Timekeeping.Proofs.Run.Picks
import Timekeeping.Proofs.Laws.PassOrder
import Timekeeping.Proofs.Run.Reaching
import Timekeeping.Proofs.Laws.Coverage
import Timekeeping.Proofs.State.Frames
import Timekeeping.Proofs.State.Repeats
import Timekeeping.Proofs.Time.Repeats
import Timekeeping.Proofs.Run.Tallies
import Timekeeping.Proofs.Run.Observing
import Timekeeping.Proofs.Run.Tethers
import Timekeeping.Proofs.Run.FireCalls
import Timekeeping.Proofs.Run.Firings
import Timekeeping.Proofs.Run.QuietFiring
import Timekeeping.Proofs.Run.QuietPass
import Timekeeping.Proofs.Run.Driving
import Timekeeping.Proofs.Laws.Conservation
import Timekeeping.Proofs.Laws.Drift
import Timekeeping.Proofs.Laws.IdlePeriods
import Timekeeping.Proofs.Laws.IdleRepeats
import Timekeeping.Proofs.Run.Dormancy
import Timekeeping.Proofs.Laws.IdleDeferrals
import Timekeeping.Proofs.Time.Multiples
import Timekeeping.Proofs.Run.Rounds
import Timekeeping.Proofs.Run.Settings
import Timekeeping.Proofs.Laws.Alignment
import Timekeeping.Proofs.Run.Mirroring
import Timekeeping.Proofs.Run.Likeness
import Timekeeping.Proofs.Laws.Isolation
import Timekeeping.Proofs.Laws.Wakeups
import Timekeeping.Proofs.Laws.Foresight
import Timekeeping.Proofs.Run.Disabling
import Timekeeping.Proofs.Laws.DisabledTimers
import Timekeeping.Proofs.Laws.Exits
import Timekeeping.Proofs.Time.Normality
import Timekeeping.Proofs.Laws.TimeValues
import Timekeeping.Proofs.Laws.NormalKeys
import Timekeeping.Proofs.Run.Validity
import Timekeeping.Proofs.Laws.Validation
import Timekeeping.Proofs.Laws.TriggeredFlags
import Timekeeping.Proofs.State.Refusals
import Timekeeping.Proofs.Laws.Refusals
import Timekeeping.Proofs.Run.Neighbours
import Timekeeping.Proofs.Laws.SharedTimers
import Timekeeping.Proofs.Run.Brackets
import Timekeeping.Proofs.Laws.Courses
import Timekeeping.Proofs.Laws.CompleteTimers
import Timekeeping.Proofs.State.Cancellations
import Timekeeping.Proofs.Run.Constructions
import Timekeeping.Proofs.Laws.CallbackCancellation
import Timekeeping.Proofs.Laws.Histories
import Timekeeping.Proofs.Time.Totals
import Timekeeping.Proofs.Laws.ExactArithmetic
import Timekeeping.Proofs.Laws.Saturation
import Timekeeping.Proofs.Laws.NextMultiples
import Timekeeping.Proofs.Number.Rounding
import Timekeeping.Proofs.Time.Grids
import Timekeeping.Proofs.Laws.RealPeriods
import Timekeeping.Proofs.Laws.Resolutions
import Timekeeping.Proofs.Time.Calendar
import Timekeeping.Proofs.Laws.ClockTimes
import Timekeeping.Proofs.Laws.Resolvability
import Timekeeping.Proofs.Text.Trimming
import Timekeeping.Proofs.Text.Endings
import Timekeeping.Proofs.Laws.TimingTexts
import Timekeeping.Proofs.Text.Digits
import Timekeeping.Proofs.Json.RoundTrip
import Timekeeping.Proofs.Json.Records
import Timekeeping.Proofs.Laws.WrittenTimings
import Timekeeping.Proofs.Laws.Configurations
import Timekeeping.Proofs.Text.Bytes
import Timekeeping.Proofs.Text.CountedUnits
import Timekeeping.Proofs.Number.Numerals
import Timekeeping.Proofs.Laws.WrittenClockTimes
import Timekeeping.Proofs.Laws.WrittenSpans
import Timekeeping.Proofs.State.Sorting
import Timekeeping.Proofs.Laws.QueueContents
import Timekeeping.Proofs.Time.Decimals
import Timekeeping.Proofs.Laws.PrintedTimes
