import Yanet.Lib.Mem
import Yanet.Lib.TtlMap
import Yanet.Dataplane.Packet
import Yanet.Dataplane.Parse
import Yanet.Dataplane.Dpdk
import Yanet.Nat64.Config
import Yanet.Nat64.V4
import Yanet.Fwstate.Fwmap
import Yanet.Fwstate.FwmapChain
import Yanet.Fwstate.FwmapInv
import Yanet.Fwstate.FwmapRefine
import Yanet.Fwstate.Layermap
import Yanet.Fwstate.LayermapRefine
import Yanet.Fwstate.FwmapShape
import Yanet.Fwstate.Types
import Yanet.Fwstate.Sync
import Yanet.Fwstate.Lookup
import Yanet.Fwstate.SyncHandler
import Yanet.Fwstate.SyncKey
import Yanet.Nat64.V6
import Yanet.Dataplane.IpHdr
import Yanet.Nat64.V4Spec
import Yanet.Nat64.V6Spec
import Yanet.Filter.Registry
import Yanet.Filter.Remap
import Yanet.Filter.Merge
import Yanet.Filter.Btree
import Yanet.Lib.Scan
import Yanet.Filter.BtreeBuild
import Yanet.Filter.BtreeShape
import Yanet.Filter.BtreeSpec
import Yanet.Filter.SegmentsSpec
import Yanet.Filter.Segments
import Yanet.Filter.Compiler
import Yanet.Filter.Port
import Yanet.Filter.Device
import Yanet.Lib.BigEndian
import Yanet.Lpm.Basic
import Yanet.Lpm.Insert
import Yanet.Lpm.Reach
import Yanet.Lib.OnesComplement
import Yanet.Route.Dataplane
import Yanet.Filter.Generations
import Yanet.Fwstate.Trim
import Yanet.Route.Rib
import Yanet.Lpm.Remap
import Yanet.Lib.Runs
import Yanet.Lpm.Walk
import Yanet.Lpm.WalkRun
import Yanet.Lpm.WalkRuns
import Yanet.Route.Backend
import Yanet.Common.DataPipeSafety
import Yanet.Common.RcuSafety
import Yanet.Common.BlockAllocatorSafety
import Yanet.Common.BlockAllocatorArena
import Yanet.Common.RwLock
