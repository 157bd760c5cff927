import EspModemLink.Air780e.Hal
import EspModemLink.Air780e.ModeExclusion
import EspModemLink.Air780e.ModeReservations
import EspModemLink.Air780e.ModeSteps
import EspModemLink.Air780e.State
import EspModemLink.AtChannel.BaudAlignment
import EspModemLink.AtChannel.CommandOutcome
import EspModemLink.AtChannel.LineFraming
import EspModemLink.AtChannel.ResponseParser
import EspModemLink.AtChannel.Uart
import EspModemLink.AtParser
import EspModemLink.Bytes
import EspModemLink.Hal.RouteOwnership
import EspModemLink.Hal.Routing
import EspModemLink.Hal.StreamDelivery
import EspModemLink.Hal.TcpClient
import EspModemLink.Http.Arrivals
import EspModemLink.Http.Authority
import EspModemLink.Http.BodyFraming
import EspModemLink.Http.BodylessResponses
import EspModemLink.Http.ChunkSizes
import EspModemLink.Http.ChunkedDecoding
import EspModemLink.Http.ChunkedUpload
import EspModemLink.Http.Client
import EspModemLink.Http.ClientSteps
import EspModemLink.Http.ClosedReuse
import EspModemLink.Http.Completion
import EspModemLink.Http.ContentLength
import EspModemLink.Http.Credentials
import EspModemLink.Http.DotSegments
import EspModemLink.Http.ExecuteBound
import EspModemLink.Http.Hops
import EspModemLink.Http.KeepAlive
import EspModemLink.Http.LocationBytes
import EspModemLink.Http.Parser
import EspModemLink.Http.ParserCut
import EspModemLink.Http.ParserHistory
import EspModemLink.Http.RedirectChain
import EspModemLink.Http.RefusedRequest
import EspModemLink.Http.Request
import EspModemLink.Http.RequestLine
import EspModemLink.Http.ResponseLines
import EspModemLink.Http.RunHops
import EspModemLink.Http.StreamingReads
import EspModemLink.Http.TransportBinding
import EspModemLink.InboundLimit
import EspModemLink.Library.Backlog
import EspModemLink.Library.Cutting
import EspModemLink.Library.Heartbeat
import EspModemLink.Library.Named
import EspModemLink.Library.Numerals
import EspModemLink.Library.Pieces
import EspModemLink.Library.Rounds
import EspModemLink.Library.Runs
import EspModemLink.Library.Sections
import EspModemLink.Library.Segments
import EspModemLink.Library.Stack
import EspModemLink.Mqtt.Client
import EspModemLink.Mqtt.ClientSteps
import EspModemLink.Mqtt.Encoding
import EspModemLink.Mqtt.InboundLimit
import EspModemLink.Mqtt.KeepAlive
import EspModemLink.Mqtt.Packet
import EspModemLink.Mqtt.PacketStream
import EspModemLink.Mqtt.PartialSend
import EspModemLink.Mqtt.QosTwo
import EspModemLink.Mqtt.Requests
import EspModemLink.Mqtt.SessionGate
import EspModemLink.NetworkError
import EspModemLink.PartialSend
import EspModemLink.PingTimeout
import EspModemLink.WebSocket.Client
import EspModemLink.WebSocket.ClientSteps
import EspModemLink.WebSocket.CloseHandshake
import EspModemLink.WebSocket.Frame
import EspModemLink.WebSocket.FrameCodec
import EspModemLink.WebSocket.FrameCuts
import EspModemLink.WebSocket.Handshake
import EspModemLink.WebSocket.Heartbeat
import EspModemLink.WebSocket.Inbound
import EspModemLink.WebSocket.InboundLimit
import EspModemLink.WebSocket.Messages
import EspModemLink.WebSocket.OpenState
import EspModemLink.WebSocket.PartialSend
import EspModemLink.WebSocket.Reassembly
import EspModemLink.WebSocket.UpgradeGate
import EspModemLink.AtChannel.Replies
import EspModemLink.Hal.AbsorbedEvents
import EspModemLink.Hal.NewestRoute
import EspModemLink.Library.Wrapping
import EspModemLink.Mqtt.PacketIds
import EspModemLink.Mqtt.KeepAliveInterval
import EspModemLink.AtChannel.UrcDispatcher
import EspModemLink.Air780e.KeylessEvents
import EspModemLink.Air780e.ReadReplies
import EspModemLink.Air780e.SendAcknowledged
import EspModemLink.Air780e.Announcements
import EspModemLink.WebSocket.DeadPeer
import EspModemLink.Library.Fragmentation
import EspModemLink.WebSocket.ControlFlow
import EspModemLink.WebSocket.SendFragments
import EspModemLink.Mqtt.MessageOrder
import EspModemLink.Library.Alternation
import EspModemLink.Mqtt.Notifications
import EspModemLink.WebSocket.Notifications
import EspModemLink.Notifications
import EspModemLink.WebSocket.DrainGuard
import EspModemLink.WebSocket.ReconnectBudget
import EspModemLink.AtParser.JoinedFields
import EspModemLink.AtChannel.ListedRates
import EspModemLink.AtChannel.BaudFallback
import EspModemLink.AtChannel.RateSearch
import EspModemLink.AtChannel.Subscriptions
import EspModemLink.Ml307.Hal
import EspModemLink.Ml307.HexPayload
import EspModemLink.OpenCommands
import EspModemLink.Ml307.InboundPayload
import EspModemLink.Ml307.CidSearch
import EspModemLink.AtChannel.PromptedSend
import EspModemLink.AtChannel.ErrorCodes
import EspModemLink.Library.Utf8
import EspModemLink.WebSocket.CloseReasons
import EspModemLink.Library.BitStrings
import EspModemLink.Library.Base64
import EspModemLink.Library.Sha1
import EspModemLink.WebSocket.AcceptDigest
import EspModemLink.Library.Transcript
import EspModemLink.AtChannel.Port
import EspModemLink.AtChannel.RateChange
import EspModemLink.AtChannel.Script
import EspModemLink.Ml307.BringUp
import EspModemLink.Air780e.BringUp
import EspModemLink.Device.Registry
import EspModemLink.Device.BringUp
import EspModemLink.Ml307.SocketSettings
import EspModemLink.Library.MessageHead
import EspModemLink.Http.RequestHead
import EspModemLink.WebSocket.Agreement
import EspModemLink.Hal.UdpClients
import EspModemLink.Http.Replies
import EspModemLink.Http.StreamedReplies
import EspModemLink.Library.Leases
import EspModemLink.Http.TransportLives
