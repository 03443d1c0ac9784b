import MsgBus.Lib.IntervalList
import MsgBus.Lib.OrderedMap
import MsgBus.Lib.ByteBlock
import MsgBus.Lib.SelfCode
import MsgBus.Lib.StepRun
import MsgBus.Lib.IndexSelect
import MsgBus.Lib.MarkedWords
import MsgBus.Types
import MsgBus.MessageSerialization
import MsgBus.MessageStorage
import MsgBus.Lib.PriorityList
import MsgBus.PriorityQueue
import MsgBus.BlobIo
import MsgBus.PendingBlob
import MsgBus.FragmentMerge
import MsgBus.BlobManipulator
import MsgBus.ManipulatorRules
import MsgBus.StoreLog
import MsgBus.TargetMaps
import MsgBus.SampleSerializer
import MsgBus.BlobStream
import MsgBus.ReceiverRun
import MsgBus.BlobIdentity
import MsgBus.BlobStorage
import MsgBus.BlobTransfer
import MsgBus.BlobIntegrity
import MsgBus.BlobDelivery
import MsgBus.PlainRuns
import MsgBus.RouterNodes
import MsgBus.Router
import MsgBus.RouterHandlers
import MsgBus.RouteHops
import MsgBus.RouterRun
import MsgBus.AllowLists
import MsgBus.DirectDelivery
import MsgBus.SplitHorizon
import MsgBus.BlobOutgoing
import MsgBus.BlobBus
import MsgBus.BlobKeys
import MsgBus.IncomingFetch
import MsgBus.MessagePacking
import MsgBus.OutgoingProgress
import MsgBus.ResourceServer
import MsgBus.Lib.CyclicScan
import MsgBus.PendingRun
import MsgBus.PasswordHandshake
import MsgBus.IdAllocation
import MsgBus.Lib.CopyTree
import MsgBus.Bridge
import MsgBus.HopLimit
import MsgBus.StreamKept
import MsgBus.ResourceConsumer
import MsgBus.SharedTargets
import MsgBus.StreamFailover
import MsgBus.SudokuBoard
import MsgBus.SudokuHelper
import MsgBus.SudokuSolver
import MsgBus.SudokuHoldings
import MsgBus.SudokuCoverage
import MsgBus.SudokuSearch
import MsgBus.Context
import MsgBus.PendingPromises
import MsgBus.DirectConnection
import MsgBus.BridgeStream
import MsgBus.SubscriptionViews
import MsgBus.WorkerRounds
import MsgBus.RouterCertificate
import MsgBus.SolvedKeys
import MsgBus.SudokuBlocks
import MsgBus.SudokuTiling
import MsgBus.TilingSides
import MsgBus.TilingConsistency
import MsgBus.TilingProgress
import MsgBus.MessageAging
import MsgBus.StoreAndSign
import MsgBus.CertificateReplacement
import MsgBus.EndpointIds
import MsgBus.ReceivedParts
import MsgBus.Lib.ChunkedBlock
import MsgBus.ChunkTarget
import MsgBus.Lib.RoundRobin
import MsgBus.ResendRequests
import MsgBus.OutgoingDrain
import MsgBus.DeferredSkeletons
import MsgBus.DeferredAnswers
import MsgBus.Lib.Alternation
import MsgBus.RespondingStates
import MsgBus.PingHistory
import MsgBus.Lib.TopicLevels
import MsgBus.MqttBridge
import MsgBus.PahoMqtt
import MsgBus.Lib.TiledInterval
import MsgBus.TileGeometry
import MsgBus.SudokuSubtree
import MsgBus.Lib.FragmentSource
import MsgBus.SequenceSource
import MsgBus.FileSource
import MsgBus.StreamRelay
import MsgBus.Lib.CountedCells
import MsgBus.SubscriptionCounts
import MsgBus.Lib.TicketLedger
import MsgBus.PingPong
import MsgBus.Lib.CyclicWalk
import MsgBus.DatagramServer
import MsgBus.ResendRange
import MsgBus.Lib.BitCount
import MsgBus.Lib.BlockStream
import MsgBus.AsioConnection
import MsgBus.Lib.ParentTree
import MsgBus.RouterNetwork
import MsgBus.RouterBroadcast
import MsgBus.RemoteCalls
import MsgBus.BlobCompletion
import MsgBus.Lib.LinkList
import MsgBus.NodeConnections
import MsgBus.TopologySearch
