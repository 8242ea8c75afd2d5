import Aegis.Lib.SortedMap
import Aegis.Lib.Run
import Aegis.Wire.Bytes
import Aegis.Packet.Header
import Aegis.Lib.ReplayWindow
import Aegis.Session.Delivery
import Aegis.Session.FrameReplay
import Aegis.Session.InitReplay
import Aegis.File.Messages
import Aegis.File.Receiver
import Aegis.File.SendLoop
import Aegis.File.Transfer
import Aegis.Packet.Onion
import Aegis.Tunnel.InitFrame
import Aegis.Session.Agreement
import Aegis.Session.Exchange
import Aegis.Session.Pair
import Aegis.Session.PairRefinement
import Aegis.Session.PairRuns
import Aegis.Net.Address
import Aegis.Peer.MergeSafety
import Aegis.Peer.TableCodec
import Aegis.Packet.Mtu
import Aegis.Tunnel.DataPath
import Aegis.Tunnel.LearnedPaths
import Aegis.Tunnel.Supersession
import Aegis.Tunnel.Remerge
import Aegis.Tunnel.ConfiguredRoutes
import Aegis.Tunnel.Advertise
import Aegis.Tunnel.Gossip
import Aegis.Tunnel.DeadDetection
import Aegis.Tunnel.Keepalive
import Aegis.Routing.Selection
import Aegis.File.PartFiles
import Aegis.Session.NonceUniqueness
import Aegis.Session.GraceWindow
import Aegis.Transport.QueueRuns
import Aegis.Peer.GossipDelta
import Aegis.Tunnel.EndpointExchange
import Aegis.Tunnel.Nomination
import Aegis.Tunnel.LocalCandidates
import Aegis.Identity.Revocation
import Aegis.Tunnel.RevocationGossip
import Aegis.Routing.Operations
import Aegis.Routing.HoldDown
import Aegis.Session.FrameSize
import Aegis.Session.ReplaySpec
import Aegis.Packet.OnionPeel
import Aegis.Tunnel.RelayChain
import Aegis.Tunnel.LeaseChain
import Aegis.Peer.GossipBatches
import Aegis.Tunnel.GossipBudget
import Aegis.Transport.Fairness
import Aegis.File.WindowRuns
import Aegis.File.TrackerRuns
import Aegis.File.Tiling
import Aegis.Packet.RelayQuota
import Aegis.Transport.HandshakeRate
import Aegis.Transport.HandshakeCookie
import Aegis.Tunnel.PathProbes
import Aegis.Identity.RevocationStores
import Aegis.Peer.TableRoundTrip
import Aegis.File.Codecs
import Aegis.Protocol.CandidateCodec
import Aegis.Net.PrefixSets
import Aegis.Packet.Checksum
import Aegis.Stun.Response
import Aegis.Invite.Grant
import Aegis.Net.EndpointText
import Aegis.Config.Export
import Aegis.Discovery.Presence
import Aegis.Tunnel.PacketDelivery
