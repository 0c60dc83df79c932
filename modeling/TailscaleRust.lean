import TailscaleRust.Lib.Bytes
import TailscaleRust.Lib.Checked
import TailscaleRust.Lib.Table
import TailscaleRust.Lib.Run
import TailscaleRust.Lib.Text
import TailscaleRust.Lib.Numerals
import TailscaleRust.Lib.Base64
import TailscaleRust.Lib.Reader
import TailscaleRust.Lib.Transfer
import TailscaleRust.Lib.OnesComplement
import TailscaleRust.Lib.Hpack
import TailscaleRust.Lib.Noise
import TailscaleRust.Lib.Nonces
import TailscaleRust.Lib.Strikes
import TailscaleRust.Lib.Pairing
import TailscaleRust.Lib.Duplex
import TailscaleRust.Core.Crypto
import TailscaleRust.Core.Net
import TailscaleRust.Core.AddrText
import TailscaleRust.Core.Icmp
import TailscaleRust.Core.Tcp
import TailscaleRust.Core.Disco
import TailscaleRust.Core.Stun
import TailscaleRust.Core.Wg
import TailscaleRust.Core.Peers
import TailscaleRust.Core.Node
import TailscaleRust.Core.Outbound
import TailscaleRust.Core.Noise
import TailscaleRust.Core.Transport
import TailscaleRust.Core.H2
import TailscaleRust.Core.H2Client
import TailscaleRust.Firmware.Keys
import TailscaleRust.Firmware.Magicsock
import TailscaleRust.Firmware.Proxy
import TailscaleRust.Firmware.Control
import TailscaleRust.Firmware.ControlSession
import TailscaleRust.Firmware.Dataplane
import TailscaleRust.Firmware.Periodic
import TailscaleRust.Firmware.Derp
import TailscaleRust.Firmware.DerpConn
import TailscaleRust.Firmware.DerpSession
import TailscaleRust.Firmware.Dualcore
import TailscaleRust.Firmware.NodeRun
import TailscaleRust.Firmware.Loops
import TailscaleRust.Firmware.TwoNodes
import TailscaleRust.Firmware.Mdns
import TailscaleRust.Firmware.Startup
import TailscaleRust.Firmware.Device
import TailscaleRust.Strict.Packets
import TailscaleRust.Strict.Handshake
import TailscaleRust.Strict.Peers
import TailscaleRust.Strict.Stun
import TailscaleRust.Strict.Dataplane
import TailscaleRust.Proofs.Netmap
import TailscaleRust.Proofs.PacketFilter
import TailscaleRust.Proofs.LanTargets
import TailscaleRust.Proofs.KeyStore
import TailscaleRust.Proofs.Checksums
import TailscaleRust.Proofs.Echo
import TailscaleRust.Proofs.WgNoise
import TailscaleRust.Proofs.Handshake
import TailscaleRust.Proofs.Session
import TailscaleRust.Proofs.ControlStream
import TailscaleRust.Proofs.ControlChannel
import TailscaleRust.Proofs.HandshakeHeader
import TailscaleRust.Proofs.DerpFraming
import TailscaleRust.Proofs.DerpLogin
import TailscaleRust.Proofs.DerpSession
import TailscaleRust.Proofs.DiscoCodec
import TailscaleRust.Proofs.Headers
import TailscaleRust.Proofs.FrameLoops
import TailscaleRust.Proofs.H2Response
import TailscaleRust.Proofs.MapStream
import TailscaleRust.Proofs.ControlRequests
import TailscaleRust.Proofs.Frame
import TailscaleRust.Proofs.Isolation
import TailscaleRust.Proofs.FastPath
import TailscaleRust.Proofs.Dualcore
import TailscaleRust.Proofs.Acl
import TailscaleRust.Proofs.Padding
import TailscaleRust.Proofs.RelayTunnels
import TailscaleRust.Proofs.Chatter
import TailscaleRust.Proofs.Sealed
import TailscaleRust.Proofs.NodeSteps
import TailscaleRust.Proofs.PairRefinement
import TailscaleRust.Proofs.Agreement
import TailscaleRust.Proofs.Tables
import TailscaleRust.Proofs.Admission
import TailscaleRust.Proofs.Replacement
import TailscaleRust.Proofs.Timestamps
import TailscaleRust.Proofs.Nonces
import TailscaleRust.Proofs.RelayNonces
import TailscaleRust.Proofs.RelayPeers
import TailscaleRust.Proofs.Targets
import TailscaleRust.Proofs.Spray
import TailscaleRust.Proofs.Tiling
import TailscaleRust.Proofs.Roaming
import TailscaleRust.Proofs.Pacing
import TailscaleRust.Proofs.ShiftedRuns
import TailscaleRust.Proofs.Slots
import TailscaleRust.Proofs.Destinations
import TailscaleRust.Proofs.DeviceSends
import TailscaleRust.Proofs.Strikes
import TailscaleRust.Proofs.DeviceProbes
import TailscaleRust.Proofs.Endpoints
import TailscaleRust.Proofs.Segments
import TailscaleRust.Proofs.Bridge
import TailscaleRust.Proofs.TcpClient
import TailscaleRust.Proofs.TcpServers
import TailscaleRust.Proofs.ShortHeaders
import TailscaleRust.Proofs.TcpExchange
import TailscaleRust.Proofs.Builders
import TailscaleRust.Proofs.TcpStreams
import TailscaleRust.Proofs.TcpAcks
import TailscaleRust.Proofs.UdpEcho
import TailscaleRust.Proofs.SafePackets
import TailscaleRust.Proofs.Rfc1071
import TailscaleRust.Proofs.SafeServices
import TailscaleRust.Proofs.SafeHandshake
import TailscaleRust.Proofs.StunResponse
import TailscaleRust.Proofs.SafeHandlers
import TailscaleRust.Proofs.NoPanic
