import CoralSwap.Lib.Call
import CoralSwap.Lib.Faults
import CoralSwap.Lib.Panics
import CoralSwap.Lib.InPlace
import CoralSwap.Lib.Machine
import CoralSwap.Lib.Journal
import CoralSwap.Lib.Program
import CoralSwap.Lib.Word
import CoralSwap.Lib.Wrapping
import CoralSwap.Lib.Token
import CoralSwap.Lib.Escrow
import CoralSwap.Lib.Shares
import CoralSwap.Lib.NewtonSqrt
import CoralSwap.Lib.Quadratic
import CoralSwap.Lib.Tally
import CoralSwap.Lib.Allowance
import CoralSwap.Lib.Ledger
import CoralSwap.Lib.Encoding
import CoralSwap.Lib.Majority
import CoralSwap.Lib.Exchange
import CoralSwap.Lib.ConstantProduct
import CoralSwap.Lib.Search
import CoralSwap.Lib.RingBuffer
import CoralSwap.Lib.WeightedMean
import CoralSwap.Shared
import CoralSwap.LpToken
import CoralSwap.Pair.Types
import CoralSwap.Pair.Math
import CoralSwap.Pair.DynamicFee
import CoralSwap.Pair.Swap
import CoralSwap.Pair.Panicking
import CoralSwap.Pair.InPlace
import CoralSwap.Pair.Liquidity
import CoralSwap.Pair.SingleSided
import CoralSwap.Pair.FlashLoan
import CoralSwap.Pair.Machine
import CoralSwap.Pair.Oracle
import CoralSwap.Pair.Reentrant
import CoralSwap.Factory.Types
import CoralSwap.Factory.Governance
import CoralSwap.Factory.Registry
import CoralSwap.Factory.Protocol
import CoralSwap.Factory.Machine
import CoralSwap.Router.Types
import CoralSwap.Router.Quotes
import CoralSwap.Router.BestPath
import CoralSwap.Router.Swap
import CoralSwap.Router.Liquidity
import CoralSwap.Router.Commit
import CoralSwap.Router.Machine
import CoralSwap.Router.Network
import CoralSwap.Events.LpToken
import CoralSwap.Events.Factory
import CoralSwap.Proof.LpTokenEffects
import CoralSwap.Proof.LpSupply
import CoralSwap.Proof.LpConservation
import CoralSwap.Proof.Allowances
import CoralSwap.Proof.SwapEffects
import CoralSwap.Proof.LiquidityEffects
import CoralSwap.Proof.SingleSidedEffects
import CoralSwap.Proof.PairEffects
import CoralSwap.Proof.SwapRequests
import CoralSwap.Proof.OutsideCalls
import CoralSwap.Proof.ReentrantRuns
import CoralSwap.Proof.Reentrancy
import CoralSwap.Proof.FactoryFees
import CoralSwap.Proof.Quorum
import CoralSwap.Proof.Invariants
import CoralSwap.Proof.Solvency
import CoralSwap.Proof.ConstantProduct
import CoralSwap.Proof.Dilution
import CoralSwap.Proof.Staging
import CoralSwap.Proof.RoundTrip
import CoralSwap.Proof.OneFee
import CoralSwap.Proof.OneTokenMint
import CoralSwap.Proof.RouterGovernance
import CoralSwap.Proof.RouterCommits
import CoralSwap.Proof.LpHolders
import CoralSwap.Proof.ProtocolEffects
import CoralSwap.Proof.Upgrades
import CoralSwap.Proof.Pools
import CoralSwap.Proof.PairRegistry
import CoralSwap.Proof.Freezing
import CoralSwap.Proof.PauseCoherence
import CoralSwap.Proof.NestedPools
import CoralSwap.Proof.FlashGrowth
import CoralSwap.Proof.FeeDecay
import CoralSwap.Proof.Volatility
import CoralSwap.Proof.FeeBounds
import CoralSwap.Proof.SystemFees
import CoralSwap.Proof.ProtocolFees
import CoralSwap.Proof.Cooldown
import CoralSwap.Proof.SingleSideBurn
import CoralSwap.Proof.StagedExits
import CoralSwap.Proof.SwapFaults
import CoralSwap.Proof.ExactQuotes
import CoralSwap.Proof.QuotedSwaps
import CoralSwap.Proof.LargePools
import CoralSwap.Proof.Exits
import CoralSwap.Proof.SquareRoots
import CoralSwap.Proof.Refills
import CoralSwap.Proof.Floors
import CoralSwap.Proof.RouterSwaps
import CoralSwap.Proof.PathQuotes
import CoralSwap.Proof.BestPaths
import CoralSwap.Proof.IntegerBytes
import CoralSwap.Proof.PermitReplay
import CoralSwap.Proof.Digests
import CoralSwap.Proof.RevealSafety
import CoralSwap.Proof.DepositSplit
import CoralSwap.Proof.SingleSideSafety
import CoralSwap.Proof.SwapArithmetic
import CoralSwap.Proof.RouterExits
import CoralSwap.Proof.RouterDeposits
import CoralSwap.Proof.PermitKeys
import CoralSwap.Proof.Pagination
import CoralSwap.Proof.OracleRing
import CoralSwap.Proof.TwapQueries
import CoralSwap.Proof.OraclePruning
import CoralSwap.Proof.TwapShift
import CoralSwap.Proof.TwapAverage
import CoralSwap.Proof.LpReplay
import CoralSwap.Proof.RecordEffects
import CoralSwap.Proof.FactoryReplay
import CoralSwap.Proof.FactoryEvidence
import CoralSwap.Proof.Authority
import CoralSwap.Events.Pair
import CoralSwap.Proof.PairReplay
import CoralSwap.Proof.Consent
import CoralSwap.Proof.ShareConsent
import CoralSwap.Router.System
import CoralSwap.Proof.SystemRuns
import CoralSwap.Proof.TwapResistance
import CoralSwap.Proof.DepositValue
import CoralSwap.Proof.SwapProgress
import CoralSwap.Proof.PathProgress
import CoralSwap.Proof.FreezeScope
import CoralSwap.Proof.RevealProgress
import CoralSwap.Proof.BestPathProgress
import CoralSwap.Proof.LiquidityProgress
