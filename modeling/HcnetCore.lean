import HcnetCore.Library.OverlayStack
import HcnetCore.Library.Binary64
import HcnetCore.Library.AListMap
import HcnetCore.Library.StackMachine
import HcnetCore.Library.LeastBy
import HcnetCore.Library.SortedList
import HcnetCore.Library.SortedMerge
import HcnetCore.Library.Prune
import HcnetCore.Library.ThreeWay
import HcnetCore.Library.Word32
import HcnetCore.Ledger.Entry
import HcnetCore.Ledger.LedgerTxn
import HcnetCore.Ledger.Pointwise
import HcnetCore.Ledger.EntryState
import HcnetCore.Ledger.Overlays
import HcnetCore.Ledger.Refinement
import HcnetCore.Ledger.OfferOrder
import HcnetCore.Ledger.BestOffer
import HcnetCore.Ledger.OfferBook
import HcnetCore.Ledger.BestOfferSpec
import HcnetCore.Ledger.OfferRun
import HcnetCore.Scp.Types
import HcnetCore.Scp.LocalNode
import HcnetCore.Scp.QuorumSetUtils
import HcnetCore.Scp.QuorumSlices
import HcnetCore.Scp.QuorumNormalize
import HcnetCore.Scp.QuorumCanonical
import HcnetCore.Scp.BallotProtocol
import HcnetCore.Scp.BallotTransitions
import HcnetCore.Library.ExceptInvariant
import HcnetCore.Scp.BallotLock
import HcnetCore.Bucket.BucketList
import HcnetCore.Bucket.LevelRanges
import HcnetCore.Bucket.LevelTiling
import HcnetCore.Bucket.BucketMerge
import HcnetCore.Bucket.MergeSemantics
import HcnetCore.Library.CreditFlow
import HcnetCore.Overlay.FlowControlCapacity
import HcnetCore.Overlay.FlowControl
import HcnetCore.Overlay.FlowControlLink
import HcnetCore.Library.Babylonian
import HcnetCore.Util.Numeric
import HcnetCore.Transactions.OfferExchange
import HcnetCore.Transactions.PoolExchange
import HcnetCore.Transactions.ExchangeBounds
import HcnetCore.Transactions.PriceErrorThresholds
import HcnetCore.Library.SmallestSum
import HcnetCore.Scp.ClosestVBlocking
import HcnetCore.Scp.BallotBump
import HcnetCore.Library.ShortestPaths
import HcnetCore.Herder.QuorumTracker
import HcnetCore.Herder.QuorumTrackerRebuild
import HcnetCore.Scp.Nomination
import HcnetCore.Library.StrongComponents
import HcnetCore.Util.TarjanSCC
import HcnetCore.Util.TarjanSCCCorrect
import HcnetCore.Herder.PaymentLoops
import HcnetCore.Library.MultiwayMerge
import HcnetCore.Library.IndexedLists
import HcnetCore.Util.TxResource
import HcnetCore.Herder.SurgePricing
import HcnetCore.Herder.SurgePricingQueue
import HcnetCore.Herder.SurgePricingPop
import HcnetCore.Herder.TxQueueLimiter
import HcnetCore.Herder.TxQueueLimiterInvariant
import HcnetCore.Herder.TransactionQueue
import HcnetCore.Herder.TransactionQueueBooks
import HcnetCore.Herder.TransactionQueueAdd
import HcnetCore.Herder.TransactionQueueRun
