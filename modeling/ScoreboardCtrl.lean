import ScoreboardCtrl.Board.Conserve
import ScoreboardCtrl.Board.Heartbeat
import ScoreboardCtrl.Board.LastRequest
import ScoreboardCtrl.Board.Latency
import ScoreboardCtrl.Board.Mirror
import ScoreboardCtrl.Board.PressOrder
import ScoreboardCtrl.Board.Presses
import ScoreboardCtrl.Board.Swallowed
import ScoreboardCtrl.Board.UartOnly
import ScoreboardCtrl.Board.WellFormed
import ScoreboardCtrl.Clock.Countdown
import ScoreboardCtrl.Clock.Requests
import ScoreboardCtrl.Events.OneWake
import ScoreboardCtrl.Events.StopDeadline
import ScoreboardCtrl.Events.Streams
import ScoreboardCtrl.Flash.MergeUf2
import ScoreboardCtrl.Flash.Remerge
import ScoreboardCtrl.Http.Captive
import ScoreboardCtrl.Http.Log
import ScoreboardCtrl.Http.Workers
import ScoreboardCtrl.Net.Answered
import ScoreboardCtrl.Net.Compression
import ScoreboardCtrl.Net.Counts
import ScoreboardCtrl.Net.DhcpReply
import ScoreboardCtrl.Net.Hijack
import ScoreboardCtrl.Net.QnameLog
import ScoreboardCtrl.Net.Questions
import ScoreboardCtrl.Net.SkipName
import ScoreboardCtrl.Net.Slots
import ScoreboardCtrl.Net.Tasks
import ScoreboardCtrl.Ota.AllOrNothing
import ScoreboardCtrl.Phone.Clock
import ScoreboardCtrl.Phone.Fallback
import ScoreboardCtrl.Phone.Gesture
import ScoreboardCtrl.Phone.Interleaved
import ScoreboardCtrl.Phone.LostNews
import ScoreboardCtrl.Phone.Sent
import ScoreboardCtrl.Probe.Cdc
import ScoreboardCtrl.Probe.Ledger
import ScoreboardCtrl.Serial.HexDump
import ScoreboardCtrl.Serial.Stream
import ScoreboardCtrl.Usb.BootCmd
