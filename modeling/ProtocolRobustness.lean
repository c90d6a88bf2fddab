import ProtocolRobustness.Library.ByteOrder
import ProtocolRobustness.Library.SelfDelimiting
import ProtocolRobustness.Library.Table
import ProtocolRobustness.Library.Apportion
import ProtocolRobustness.Library.WaterLevel
import ProtocolRobustness.Canonical.Value
import ProtocolRobustness.Canonical.Encoding
import ProtocolRobustness.Canonical.Injective
import ProtocolRobustness.Contract.Request
import ProtocolRobustness.Contract.Result
import ProtocolRobustness.Contract.Allocate
import ProtocolRobustness.Contract.CapRounds
import ProtocolRobustness.Contract.Level
import ProtocolRobustness.Contract.Outcome
import ProtocolRobustness.Contract.Conservation
import ProtocolRobustness.Contract.Clamp
import ProtocolRobustness.Contract.WaterFilling
import ProtocolRobustness.Contract.RowOrder
import ProtocolRobustness.Lifecycle.Clojure
import ProtocolRobustness.Lifecycle.Rust
import ProtocolRobustness.Lifecycle.Machine
import ProtocolRobustness.Lifecycle.Accounting
import ProtocolRobustness.Lifecycle.Agreement
import ProtocolRobustness.Lifecycle.Parity
import ProtocolRobustness.Library.GroupSum
import ProtocolRobustness.Library.Once
import ProtocolRobustness.Library.CheckedSum
import ProtocolRobustness.Effects.Net
import ProtocolRobustness.Effects.Transact
import ProtocolRobustness.Effects.Refinement
import ProtocolRobustness.Library.Keyed
import ProtocolRobustness.Accounting.Reductions
import ProtocolRobustness.Accounting.Folds
import ProtocolRobustness.Accounting.Ingestion
import ProtocolRobustness.Accounting.Reconcile
import ProtocolRobustness.Allocation.Context
import ProtocolRobustness.Allocation.Proposal
import ProtocolRobustness.Allocation.Roots
import ProtocolRobustness.Allocation.Kernel
import ProtocolRobustness.Allocation.Fairness
import ProtocolRobustness.Library.Quota
import ProtocolRobustness.Yield.ExactMath
import ProtocolRobustness.Yield.PartialFill
import ProtocolRobustness.Yield.Fills
import ProtocolRobustness.Yield.Settlement
import ProtocolRobustness.Yield.Reconstruction
import ProtocolRobustness.Yield.Accrual
import ProtocolRobustness.Yield.AccrualRuns
import ProtocolRobustness.Sew.Held
import ProtocolRobustness.Library.Runs
import ProtocolRobustness.Sew.Accounting
import ProtocolRobustness.Sew.BondOps
import ProtocolRobustness.Sew.SlashRuns
import ProtocolRobustness.Sew.BondLedger
import ProtocolRobustness.Sew.BondRuns
import ProtocolRobustness.Sew.Registry
import ProtocolRobustness.Sew.StateMachine
import ProtocolRobustness.Sew.Lifecycle
import ProtocolRobustness.Sew.Settlement
import ProtocolRobustness.Sew.Resolution
import ProtocolRobustness.Sew.Docket
import ProtocolRobustness.Sew.Protocol
import ProtocolRobustness.Sew.SlashOps
import ProtocolRobustness.Sew.Load
import ProtocolRobustness.Sew.Journal
import ProtocolRobustness.Sew.Judged
import ProtocolRobustness.Sew.SlashRegistry
import ProtocolRobustness.Sew.AppealBonds
import ProtocolRobustness.Sew.AppealRuns
import ProtocolRobustness.Sew.Vindication
import ProtocolRobustness.Sew.GroupSlash
import ProtocolRobustness.Library.Windows
import ProtocolRobustness.Sew.EpochCap
import ProtocolRobustness.Sew.RelatedClaims
import ProtocolRobustness.Canonical.Iteration
import ProtocolRobustness.Library.MerkleTree
import ProtocolRobustness.Library.Links
import ProtocolRobustness.Evidence.Lifecycle
import ProtocolRobustness.Evidence.Supersession
import ProtocolRobustness.Library.Ballot
import ProtocolRobustness.Evidence.Quorum
import ProtocolRobustness.Evidence.OneVote
import ProtocolRobustness.Sew.SeniorCoverage
import ProtocolRobustness.Sew.ReplayDedupe
import ProtocolRobustness.Allocation.Merkle
import ProtocolRobustness.Economics.SlashPolicy
import ProtocolRobustness.Economics.SlashBuild
import ProtocolRobustness.Economics.SlashVerify
import ProtocolRobustness.Economics.SlashSound
import ProtocolRobustness.Economics.SlashBuilt
import ProtocolRobustness.Economics.SlashComplete
import ProtocolRobustness.Resubmission.Disposition
import ProtocolRobustness.Resubmission.Transition
import ProtocolRobustness.Resubmission.Guards
import ProtocolRobustness.Resubmission.Chain
import ProtocolRobustness.Library.HashChain
import ProtocolRobustness.Resubmission.Offline
import ProtocolRobustness.Resubmission.Rust
import ProtocolRobustness.Resubmission.RustAgreement
import ProtocolRobustness.Library.CompareAndSet
import ProtocolRobustness.Resubmission.Ordering
import ProtocolRobustness.Resubmission.Store
import ProtocolRobustness.Economics.BountyEffects
import ProtocolRobustness.Economics.BountyPlan
import ProtocolRobustness.Economics.BountyFunding
import ProtocolRobustness.Library.Hamilton
import ProtocolRobustness.Economics.Proportional
import ProtocolRobustness.Economics.ShortfallDivision
import ProtocolRobustness.Economics.Shortfall
import ProtocolRobustness.Economics.ShortfallLedger
import ProtocolRobustness.Economics.ShortfallChain
import ProtocolRobustness.Economics.ShortfallVerify
import ProtocolRobustness.Economics.Payoffs
import ProtocolRobustness.Library.ActiveSet
import ProtocolRobustness.Economics.PayoffsAgree
import ProtocolRobustness.Economics.PayoffsExits
import ProtocolRobustness.Yield.Lineage
import ProtocolRobustness.Yield.Propagation
import ProtocolRobustness.Yield.WithdrawShared
import ProtocolRobustness.Yield.Crystallize
import ProtocolRobustness.Yield.BatchCap
import ProtocolRobustness.Yield.LargestRemainder
import ProtocolRobustness.Lifecycle.Stranded
import ProtocolRobustness.Economics.PoolAvailability
import ProtocolRobustness.Economics.PoolChain
import ProtocolRobustness.Sew.Rotation
import ProtocolRobustness.Sew.TimeoutSlash
import ProtocolRobustness.Evidence.Reachability
import ProtocolRobustness.Library.GraphSearch
import ProtocolRobustness.Evidence.Paths
import ProtocolRobustness.Library.Callers
import ProtocolRobustness.Resubmission.Admission
import ProtocolRobustness.Resubmission.AdmissionStore
import ProtocolRobustness.Resubmission.Fenced
import ProtocolRobustness.Resubmission.Receipts
import ProtocolRobustness.Resubmission.Discharge
import ProtocolRobustness.Economics.SlashAnswers
import ProtocolRobustness.Conformance.Bytes
import ProtocolRobustness.Conformance.Decides
import ProtocolRobustness.Conformance.Legible
import ProtocolRobustness.Conformance.Written
import ProtocolRobustness.Economics.Awards
import ProtocolRobustness.Economics.AwardsVerify
import ProtocolRobustness.Distributed.Registration
import ProtocolRobustness.Publication.CompletionRuns
import ProtocolRobustness.Publication.HeadStore
import ProtocolRobustness.Composition.Plans
import ProtocolRobustness.Extensions.Resolved
import ProtocolRobustness.Resubmission.Authoritative
import ProtocolRobustness.Resubmission.Published
import ProtocolRobustness.Yield.TieBreaks
import ProtocolRobustness.Yield.Withdraw
import ProtocolRobustness.Yield.WithdrawAccounts
import ProtocolRobustness.Publication.Deliveries
