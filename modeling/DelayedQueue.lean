import DelayedQueue.Config.Layers
import DelayedQueue.Config.Server
import DelayedQueue.Log.Output
import DelayedQueue.Proofs.Config.Export
import DelayedQueue.Proofs.Config.Fields
import DelayedQueue.Proofs.Config.Loaders
import DelayedQueue.Proofs.Config.Redaction
import DelayedQueue.Proofs.Config.Validity
import DelayedQueue.Proofs.Keys.HashTag
import DelayedQueue.Proofs.Limiter.Bucket
import DelayedQueue.Proofs.Limiter.Window
import DelayedQueue.Proofs.Message.Damage
import DelayedQueue.Proofs.Queue.Backlog
import DelayedQueue.Proofs.Queue.Chain
import DelayedQueue.Proofs.Queue.Corrupt
import DelayedQueue.Proofs.Queue.Deadline
import DelayedQueue.Proofs.Queue.Delay
import DelayedQueue.Proofs.Queue.Doings
import DelayedQueue.Proofs.Queue.Poll
import DelayedQueue.Proofs.Queue.Promotion
import DelayedQueue.Proofs.Queue.Range
import DelayedQueue.Proofs.Queue.Rate
import DelayedQueue.Proofs.Queue.Removal
import DelayedQueue.Proofs.Queue.Shutdown
import DelayedQueue.Proofs.Redis.Agreement
import DelayedQueue.Proofs.Store.Batches
import DelayedQueue.Proofs.Store.Independence
import DelayedQueue.Proofs.Store.Isolation
import DelayedQueue.Proofs.Store.Line
import DelayedQueue.Proofs.Store.Overlap
import DelayedQueue.Proofs.Store.Punctuality
import DelayedQueue.Proofs.Store.Reschedule
import DelayedQueue.Proofs.Store.Take
import DelayedQueue.Proofs.Store.Turn
import DelayedQueue.Redis.Address
import DelayedQueue.Redis.Talk
import DelayedQueue.Rehearsal.Record
import DelayedQueue.Rehearsal.Tokens
