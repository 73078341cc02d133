import Heaven.Absence
import Heaven.Aggregates
import Heaven.Backlog
import Heaven.Batches
import Heaven.Chunking
import Heaven.Collections
import Heaven.Confirmations
import Heaven.Counter
import Heaven.Decoding
import Heaven.Disconnects
import Heaven.Eager
import Heaven.EndToEnd
import Heaven.ExactlyOnce
import Heaven.Failures
import Heaven.HashFields
import Heaven.IndexArithmetic
import Heaven.Integrity
import Heaven.Isolation
import Heaven.Lifecycle
import Heaven.Lifespan
import Heaven.Malformed
import Heaven.Messages
import Heaven.Mirror
import Heaven.Numbers
import Heaven.Queues
import Heaven.Quit
import Heaven.Replies
import Heaven.ReplyOrder
import Heaven.Revival
import Heaven.SerialOrder
import Heaven.Sets
import Heaven.Settling
import Heaven.SharedHashes
import Heaven.Shutdown
import Heaven.Snapshot
import Heaven.Termination
import Heaven.WrongType
