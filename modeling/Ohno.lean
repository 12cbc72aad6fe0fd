import Ohno.CommandPrograms
import Ohno.DelimitedLists
import Ohno.AddressText
import Ohno.EtcdClientShell
import Ohno.Subnets
import Ohno.FirstFit
import Ohno.Ipam
import Ohno.IpamHistory
import Ohno.IpamSequential
import Ohno.IpamFaults
import Ohno.InterleavedPrograms
import Ohno.IpamInterleaved
import Ohno.Netlink
import Ohno.Nics
import Ohno.Storage
import Ohno.Backends
import Ohno.KernelTables
import Ohno.HostGwReconciliation
import Ohno.TransientFailures
import Ohno.VxlanEntries
import Ohno.CniPlugin
import Ohno.Records
import Ohno.RecordPrograms
import Ohno.Conducts
import Ohno.RestoredNode
import Ohno.DelRecords
import Ohno.AddRecords
import Ohno.NodeStates
import Ohno.NodeTransitions
import Ohno.NodeHistories
import Ohno.NodeLifecycle
import Ohno.InterfaceNames
import Ohno.NodeInvariants
import Ohno.RegistryHistories
import Ohno.VtepRecord
import Ohno.AddedNodes
import Ohno.NetworkLogs
import Ohno.AddressRelease
import Ohno.RepeatedAdd
import Ohno.PeerEntries
import Ohno.PeerChanges
import Ohno.DataRefinement
import Ohno.ListOperations
import Ohno.ListInterleaved
import Ohno.RouteRecords
import Ohno.NetworkRecords
import Ohno.SubnetAllocation
import Ohno.PeerRollback
import Ohno.NicMirror
import Ohno.IpCommands
import Ohno.DyadicBlocks
import Ohno.SubnetRanges
import Ohno.SingleFaults
import Ohno.NodeRecovery
import Ohno.FailedAdds
import Ohno.CommandTraces
import Ohno.RestoredCommands
import Ohno.RestoredInterfaces
import Ohno.AddressAcceptance
import Ohno.HelperString
import Ohno.KeyedLists
import Ohno.PrefixReads
import Ohno.DerivedNames
import Ohno.ClientEnvironment
import Ohno.AddressRoundTrip
import Ohno.KubeNodes
import Ohno.NodeQueries
import Ohno.TextSearch
import Ohno.Kubeconfig
import Ohno.CutPrograms
import Ohno.SeenNodes
import Ohno.DelCuts
import Ohno.HalfDeletedNodes
import Ohno.RepeatedDel
import Ohno.ClusterHistories
import Ohno.ClusterAddresses
import Ohno.ClusterRoutes
import Ohno.AlikePrograms
import Ohno.OwnRecords
import Ohno.ParallelNodes
import Ohno.LinkTables
import Ohno.EvpnBackend
import Ohno.JsonRecords
import Ohno.CniRecords
import Ohno.PluginMain
import Ohno.ShellWords
import Ohno.CommandLines
import Ohno.CommandPools
import Ohno.PlainPrograms
import Ohno.PlainPlugin
import Ohno.RouteLines
