import Horse.Bgp.Client
import Horse.Bgp.Completion
import Horse.Bgp.FibLookup
import Horse.Bgp.Forwarding
import Horse.Bgp.InputRib
import Horse.Bgp.Multipath
import Horse.Bgp.NativeCodec
import Horse.Bgp.SplitHorizon
import Horse.Lib.Checksum
import Horse.Lib.HeapRuns
import Horse.Lib.InstructionCodec
import Horse.Lib.MatchBuilders
import Horse.Lib.OfPack
import Horse.Lib.TagArray
import Horse.Net.ActionOwners
import Horse.Net.ActionSets
import Horse.Net.ArpBuffer
import Horse.Net.FromJson
import Horse.Net.InternalNet
import Horse.Net.Metadata
import Horse.Net.PrefixLength
import Horse.Net.Stats
import Horse.Net.StrictMods
import Horse.Net.Timeouts
import Horse.Net.VlanWire
import Horse.Sim.ArpCache
import Horse.Sim.ClockOrder
import Horse.Sim.EventQueue
import Horse.Sim.EventTime
import Horse.Sim.Executions
import Horse.Sim.LoadBalance
import Horse.Sim.ObjectLife
import Horse.Sim.PacketIn
import Horse.Sim.RealTime
import Horse.Sim.RouterFrames
import Horse.Sim.TxDelay
