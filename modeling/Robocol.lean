import Robocol.ByteLayout
import Robocol.StdText
import Robocol.Text
import Robocol.Wire
import Robocol.Packets
import Robocol.PacketRoundTrip
import Robocol.PacketTruncation
import Robocol.OversizedFields
import Robocol.Borders
import Robocol.Readers
import Robocol.HeaderLines
import Robocol.Chunked
import Robocol.MjpegStream
import Robocol.Interruptions
import Robocol.MjpegFraming
import Robocol.InterruptedFrames
import Robocol.Base64
import Robocol.Cmd
import Robocol.Pieces
import Robocol.BoundedTable
import Robocol.Frames
import Robocol.Client
import Robocol.Runs
import Robocol.WorkerSteps
import Robocol.Session
import Robocol.RetryQueue
import Robocol.CommandQueue
import Robocol.Restarts
import Robocol.Stops
import Robocol.Acks
import Robocol.FrameFeed
import Robocol.FrameTable
import Robocol.FrameReassembly
import Robocol.FrameReplay
import Robocol.FramePlaces
import Robocol.Notifications
import Robocol.WebcamPacing
import Robocol.Silence
import Robocol.VideoStream
import Robocol.CameraEvents
import Robocol.Datagrams
import Robocol.Pcap
import Robocol.PcapFiles
import Robocol.PcapSections
import Robocol.Overlays
import Robocol.Fragments
import Robocol.Unwrapping
import Robocol.Ipv4Packets
import Robocol.Reassembly
import Robocol.KeyReuse
import Robocol.Report
import Robocol.InferRc
import Robocol.VersionAlarm
import Robocol.ParseLoss
import Robocol.FrameOrder
import Robocol.CannedTexts
import Robocol.FakeRc
import Robocol.DsHold
import Robocol.ConfigStore
import Robocol.ContentType
import Robocol.StallRecovery
import Robocol.Provenance
import Robocol.RcMessages
import Robocol.Deployment
import Robocol.Agreement
import Robocol.OpModes
import Robocol.StageHistory
import Robocol.Obedience
import Robocol.Pictures
import Robocol.Reconnection
import Robocol.Dwindling
import Robocol.Broadcast
import Robocol.CameraServer
import Robocol.Tallies
import Robocol.CaptureRun
import Robocol.Numbering
import Robocol.StreamUrl
import Robocol.Choices
import Robocol.Activation
