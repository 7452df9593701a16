import ConsHeap.Cell.Op
import ConsHeap.Collector.Client
import ConsHeap.Heap.Session
import ConsHeap.Options.Json
import ConsHeap.Proofs.Collector.Exactness
import ConsHeap.Proofs.Collector.Sanity
import ConsHeap.Proofs.Collector.Garbage
import ConsHeap.Proofs.Session.Accounting
import ConsHeap.Proofs.Session.Transparency
import ConsHeap.Proofs.Session.Safety
import ConsHeap.Proofs.Collector.Checks
import ConsHeap.Proofs.Heap.Custody
import ConsHeap.Proofs.Session.Lifetimes
import ConsHeap.Proofs.Collector.Economy
import ConsHeap.Proofs.Collector.Shortage
import ConsHeap.Proofs.Collector.DeadEdges
import ConsHeap.Proofs.Store.Order
import ConsHeap.Proofs.Collector.GenerationEnd
import ConsHeap.Proofs.Cell.Interning
import ConsHeap.Proofs.Collector.Progress
import ConsHeap.Proofs.Collector.Statistics
import ConsHeap.Proofs.Session.Reclaim
import ConsHeap.Proofs.Collector.Reuse
import ConsHeap.Proofs.Session.Lists
import ConsHeap.Proofs.Arena.Leases
import ConsHeap.Proofs.Collector.Idempotence
import ConsHeap.Proofs.Collector.Reachability
import ConsHeap.Proofs.Arena.Words
import ConsHeap.Proofs.Store.VoidClass
