import Yggdrasil.Consensus.Praos.Leader
import Yggdrasil.Consensus.Nonce.Freeze
import Yggdrasil.Node.NtnServer.Acknowledgement
import Yggdrasil.Ledger.DepositObligations
import Yggdrasil.Ledger.Atomicity
import Yggdrasil.Ledger.Authorization
import Yggdrasil.Node.Sync.RollbackReplay
import Yggdrasil.Node.Sync.NonceTracking
import Yggdrasil.Node.Sync.OverlaySchedule
import Yggdrasil.Ledger.LateVotes
import Yggdrasil.Ledger.GovernanceLineage
import Yggdrasil.Storage.RollbackTarget
import Yggdrasil.Storage.StoreEquivalence
import Yggdrasil.Storage.FaultyRuns
import Yggdrasil.Consensus.Mempool.InFlightBytes
import Yggdrasil.Consensus.Mempool.Reader
import Yggdrasil.Consensus.DiffusionPipelining
import Yggdrasil.Ledger.NativeScripts
import Yggdrasil.Kes.ForwardSecurity
import Yggdrasil.Ledger.Rewards.RewardShares
import Yggdrasil.Ledger.EpochConservation
import Yggdrasil.Consensus.Mempool.Eviction
import Yggdrasil.Node.Sync.FetchPool
import Yggdrasil.Consensus.EpochSchedule
import Yggdrasil.Consensus.GenesisDensity
import Yggdrasil.Network.Egress
import Yggdrasil.Plutus.IntegerBytes
