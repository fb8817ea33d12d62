import MechanicalResearcher.NetchanV2.Deadlines
import MechanicalResearcher.NetchanV2.Reclaim
import MechanicalResearcher.NetchanV2.SendRing
import MechanicalResearcher.NetchanV2.Buffered
import MechanicalResearcher.NetchanV2.Writing
import MechanicalResearcher.NetchanV2.WebSocket
import MechanicalResearcher.NetchanV2.PlayerInputs
import MechanicalResearcher.NetchanAuth.SecureChannel
import MechanicalResearcher.NetchanAuth.Callbacks
import MechanicalResearcher.NetchanAuth.KnownHosts
import MechanicalResearcher.NetchanIpx.TransmitWindow
import MechanicalResearcher.NetchanIpx.Sessions
import MechanicalResearcher.NetchanIpx.Timers
import MechanicalResearcher.NetchanIpx.StateCodec
import MechanicalResearcher.NetchanIpx.SendBounds
import MechanicalResearcher.PortableCompiler.EmitScratch
import MechanicalResearcher.PortableCompiler.SchemeArith
import MechanicalResearcher.PortableCompiler.SchemeTotal
import MechanicalResearcher.PortableCompiler.SchemeRoundTrip
import MechanicalResearcher.PortableCompiler.TincStmts
import MechanicalResearcher.PortableCompiler.TincScope
import MechanicalResearcher.PortableCompiler.TincRoundTrip
import MechanicalResearcher.Rv32.Alu
import MechanicalResearcher.Rv32.Reservations
import MechanicalResearcher.Rv32.Retired
import MechanicalResearcher.Rv32.Frames
import MechanicalResearcher.Rv32.AmoFaults
import MechanicalResearcher.Rv32.ByteViews
import MechanicalResearcher.Game.Regions
import MechanicalResearcher.Game.Accesses
import MechanicalResearcher.NetchanIpx.PlayerSlots
import MechanicalResearcher.NetchanV2.ParserAccesses
import MechanicalResearcher.NetchanV2.RoundTrip
import MechanicalResearcher.NetchanV2.FragSlots
import MechanicalResearcher.ColdFire.MultiPrecision
import MechanicalResearcher.ColdFire.Division
import MechanicalResearcher.ColdFire.Shifts
import MechanicalResearcher.ColdFire.Accumulators
import MechanicalResearcher.ColdFire.Autoincrement
import MechanicalResearcher.TritonAudio.Chunks
import MechanicalResearcher.TritonAudio.LoopRegion
import MechanicalResearcher.Quaoar.Browser
import MechanicalResearcher.PortableCompiler.FrameLayout
import MechanicalResearcher.NetchanV2.AcceptKey
import MechanicalResearcher.NetchanV2.Credit
