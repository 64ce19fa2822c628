import BlackBull.Proofs.AccountsLtHash
import BlackBull.Proofs.Agreement
import BlackBull.Proofs.AppendVec
import BlackBull.Proofs.CertVerify
import BlackBull.Proofs.Crds
import BlackBull.Proofs.CrdsShards
import BlackBull.Proofs.CreditsPaid
import BlackBull.Proofs.HardenedUnpack
import BlackBull.Proofs.InvokeContext
import BlackBull.Proofs.MerkleTree
import BlackBull.Proofs.OutgoingMessage
import BlackBull.Proofs.PegDeposits
import BlackBull.Proofs.ProgramCache
import BlackBull.Proofs.RankMap
import BlackBull.Proofs.RecordOrder
import BlackBull.Proofs.RewardEntry
import BlackBull.Proofs.RollingBitField
import BlackBull.Proofs.SchedulerRuns
import BlackBull.Proofs.StatusCache
import BlackBull.Proofs.ThreadAwareAccountLocks
import BlackBull.Proofs.TowerSync
import BlackBull.Proofs.ViewSanitize
import BlackBull.Proofs.VoteAccounts
import BlackBull.Proofs.VoteOrder
