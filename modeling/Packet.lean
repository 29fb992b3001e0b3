import Packet.Theorems.ChecksumRoundTrip
import Packet.Theorems.UdpExtent
import Packet.Theorems.HeaderWalks
import Packet.Theorems.WalkExtent
import Packet.Theorems.OptionGrammar
import Packet.Theorems.HeaderChains
import Packet.Theorems.ZeroChecksum
import Packet.Theorems.FragmentData
import Packet.Theorems.AuthHeaders
import Packet.Theorems.AccessorBounds
import Packet.Theorems.Corruption
import Packet.Theorems.Defrag
import Packet.Theorems.SetterRuns
import Packet.Theorems.LengthSetters
import Packet.Theorems.TcpFrames
import Packet.Theorems.ChecksumExact
import Packet.Theorems.HeaderBytes
import Packet.Theorems.SerialOrder
import Packet.Theorems.Ipv4Verification
import Packet.Theorems.VerifyCompute
import Packet.Theorems.HeaderCorruption
import Packet.Theorems.OnePass
import Packet.Theorems.SegmentLength
import Packet.Theorems.StableVerdicts
import Packet.Theorems.Ipv4Padding
import Packet.Theorems.HeaderEncoding
import Packet.Theorems.EspHeaders
import Packet.Theorems.CanonicalSum
import Packet.Theorems.MappedAddresses
import Packet.Theorems.IteratorRuns
import Packet.Theorems.Layers
import Packet.Theorems.LayerCorruption
import Packet.Theorems.LayeredEdits
import Packet.Theorems.TypedOptions
import Packet.Theorems.FormatRoundTrips
import Packet.Theorems.TcpFormat
import Packet.Theorems.BuiltPackets
import Packet.Theorems.ChecksumAlgebra
import Packet.Theorems.OverflowBounds
import Packet.Theorems.RecordEdits
import Packet.Theorems.TcpRecords
import Packet.Theorems.ChainSurgery
import Packet.Theorems.Ipv6Messages
import Packet.Theorems.PacketRecords
import Packet.Theorems.CommutingEdits
import Packet.Theorems.RawWrites
import Packet.Theorems.ErrorReports
import Packet.Theorems.FragmentFields
import Packet.Theorems.Ipv6Edits
