import SnapshotStore.Contention
import SnapshotStore.Dictionary.Updaters
import SnapshotStore.Facade
import SnapshotStore.Host
import SnapshotStore.Lock.Room
import SnapshotStore.Pool.Jobs
import SnapshotStore.Proofs.Batching.Counting
import SnapshotStore.Proofs.Batching.Transparency
import SnapshotStore.Proofs.Concurrency.HandOuts
import SnapshotStore.Proofs.Concurrency.Serializable
import SnapshotStore.Proofs.Database.Atomic
import SnapshotStore.Proofs.Database.Closing
import SnapshotStore.Proofs.Database.Grouping
import SnapshotStore.Proofs.Database.KeyByKey
import SnapshotStore.Proofs.Database.Readers
import SnapshotStore.Proofs.Engine.Compaction
import SnapshotStore.Proofs.Engine.CursorExact
import SnapshotStore.Proofs.Engine.Intervals
import SnapshotStore.Proofs.Engine.Saturation
import SnapshotStore.Proofs.KeyLayout.Tiling
import SnapshotStore.Proofs.Lock.Deadlock
import SnapshotStore.Proofs.Pins.Race
import SnapshotStore.Proofs.Pool.Conservation
import SnapshotStore.Proofs.Pool.Delivery
import SnapshotStore.Proofs.Pool.Polling
import SnapshotStore.Proofs.Pool.Sessions
import SnapshotStore.Proofs.SubMap.Children
import SnapshotStore.Proofs.SubMap.Intake
import SnapshotStore.Proofs.Windows.Greedy
