import RtmpTranscoder.Incremental
import RtmpTranscoder.Chunks
import RtmpTranscoder.ChunkWire
import RtmpTranscoder.ChunkDecoder
import RtmpTranscoder.ChunkInvariants
import RtmpTranscoder.ChunkSegments
import RtmpTranscoder.ChunkFraming
import RtmpTranscoder.ChunkMux
import RtmpTranscoder.ChunkEncode
import RtmpTranscoder.OrderedMap
import RtmpTranscoder.Amf0
import RtmpTranscoder.Buffer
import RtmpTranscoder.BufferQueue
import RtmpTranscoder.Amf0Safety
import RtmpTranscoder.Amf0Stack
import RtmpTranscoder.Amf0Truncation
import RtmpTranscoder.Commands
import RtmpTranscoder.Handshake
import RtmpTranscoder.Session
import RtmpTranscoder.SessionChunkSize
import RtmpTranscoder.SessionDelivery
import RtmpTranscoder.ChunkResize
import RtmpTranscoder.ChunkSizeAgreement
import RtmpTranscoder.Client
import RtmpTranscoder.ChunkCompression
import RtmpTranscoder.ClientLoop
import RtmpTranscoder.ClientCallbacks
import RtmpTranscoder.ClientDisconnect
import RtmpTranscoder.ClientTransmit
import RtmpTranscoder.ClientHandshake
import RtmpTranscoder.ClientWire
import RtmpTranscoder.Text
import RtmpTranscoder.Relay
import RtmpTranscoder.RelayQueue
import RtmpTranscoder.RelayBacklog
import RtmpTranscoder.RelayTransparency
import RtmpTranscoder.RelayManager
import RtmpTranscoder.StaleMemory
import RtmpTranscoder.ServerHandshake
import RtmpTranscoder.ServerFragments
import RtmpTranscoder.PartialWrites
import RtmpTranscoder.PublisherReplies
import RtmpTranscoder.RelayMessages
import RtmpTranscoder.PublisherIsolation
import RtmpTranscoder.Codecs
import RtmpTranscoder.Flv
import RtmpTranscoder.Transcoder
import RtmpTranscoder.SequenceHeaders
import RtmpTranscoder.MediaGate
import RtmpTranscoder.TranscoderSteps
import RtmpTranscoder.H264Chain
import RtmpTranscoder.VideoDemux
import RtmpTranscoder.AvcRecord
import RtmpTranscoder.Synchrony
import RtmpTranscoder.AudioFormat
import RtmpTranscoder.KeyframeGate
import RtmpTranscoder.PublishSessions
import RtmpTranscoder.RelayStreamId
import RtmpTranscoder.PushDestination
import RtmpTranscoder.PusherLifetime
import RtmpTranscoder.ScaledPlanes
import RtmpTranscoder.PushTemplate
import RtmpTranscoder.EpollLoop
import RtmpTranscoder.Duplex
import RtmpTranscoder.ClientStream
import RtmpTranscoder.ServerStream
import RtmpTranscoder.Link
import RtmpTranscoder.Cascade
import RtmpTranscoder.CommandLine
import RtmpTranscoder.Program
import RtmpTranscoder.RelayModes
import RtmpTranscoder.Noninterference
import RtmpTranscoder.OutputIsolation
import RtmpTranscoder.ConnectionIsolation
import RtmpTranscoder.Projection
import RtmpTranscoder.PusherRuns
import RtmpTranscoder.Chain
import RtmpTranscoder.Actions
import RtmpTranscoder.Sockets
import RtmpTranscoder.Host
import RtmpTranscoder.Accepting
