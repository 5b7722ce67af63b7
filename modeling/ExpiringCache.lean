import ExpiringCache.Main
import ExpiringCache.Simulation.FileScript
import ExpiringCache.Simulation.Script
import ExpiringCache.Proofs.EagerCache
import ExpiringCache.Proofs.SavedChanges
import ExpiringCache.Proofs.Shutdown
import ExpiringCache.Proofs.Restart
import ExpiringCache.Proofs.ExpiredFirst
import ExpiringCache.Proofs.History
import ExpiringCache.Proofs.ConsistentCuts
import ExpiringCache.Proofs.LargerCache
import ExpiringCache.Proofs.Retention
import ExpiringCache.Proofs.InterruptedSave
import ExpiringCache.Proofs.Timetable
import ExpiringCache.Proofs.Conservation
import ExpiringCache.Proofs.Listening
import ExpiringCache.Proofs.RepeatedKeys
import ExpiringCache.Proofs.TornSnapshot
import ExpiringCache.Proofs.FileRegister
import ExpiringCache.Proofs.StoreOrder
import ExpiringCache.Proofs.PolicySettings
import ExpiringCache.Proofs.Environment
import ExpiringCache.Proofs.NeighbouringFiles
import ExpiringCache.Proofs.SnapshotSpelling
import ExpiringCache.Proofs.ExactExpiry
