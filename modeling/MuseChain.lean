import MuseChain.Db.Exact
import MuseChain.Protocol.Validate
import MuseChain.Chain.Genesis
import MuseChain.Chain.Reflection
import MuseChain.Chain.SecondaryIndexes
import MuseChain.Db.Agree
import MuseChain.Db.Ids
import MuseChain.Db.Snapshots
import MuseChain.Db.Weights
import MuseChain.Lib.Delegation
import MuseChain.Safety.AccountNames
import MuseChain.Safety.AmountTexts
import MuseChain.Safety.Approvals
import MuseChain.Safety.Authorities
import MuseChain.Safety.Ballots
import MuseChain.Safety.ChainRuns
import MuseChain.Safety.Bandwidth
import MuseChain.Safety.BlockLogs
import MuseChain.Safety.Branches
import MuseChain.Safety.Clocks
import MuseChain.Safety.ContentEdits
import MuseChain.Safety.Elections
import MuseChain.Safety.FailedTransaction
import MuseChain.Safety.Friends
import MuseChain.Safety.Heads
import MuseChain.Safety.History
import MuseChain.Safety.Feeds
import MuseChain.Safety.Irreversibility
import MuseChain.Safety.Listening
import MuseChain.Safety.Lockout
import MuseChain.Safety.Managers
import MuseChain.Safety.Matching
import MuseChain.Safety.Meters
import MuseChain.Safety.MerkleRoots
import MuseChain.Safety.Mirrors
import MuseChain.Safety.Numbers
import MuseChain.Safety.Overplayed
import MuseChain.Safety.PriceOrder
import MuseChain.Safety.Prices
import MuseChain.Safety.ProposalRuns
import MuseChain.Safety.RejectedBlocks
import MuseChain.Safety.Royalties
import MuseChain.Safety.Replays
import MuseChain.Safety.Restart
import MuseChain.Safety.Reviews
import MuseChain.Safety.Selection
import MuseChain.Safety.SignOrder
import MuseChain.Safety.Signers
import MuseChain.Safety.SlotTimes
import MuseChain.Safety.Caps
import MuseChain.Safety.Withdrawals
import MuseChain.Safety.VirtualTime
import MuseChain.Safety.Audits
import MuseChain.Safety.References
import MuseChain.Safety.Reversals
import MuseChain.Safety.Syncs
