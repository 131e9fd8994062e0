import Vsr.Client
import Vsr.Cluster.Crash
import Vsr.Client.Account
import Vsr.Client.Order
import Vsr.Client.Calls
import Vsr.Client.Lawful
import Vsr.Journal.Model
import Vsr.Journal.Replay
import Vsr.Journal.Host
import Vsr.Accumulator
import Vsr.Replica.Recorded
import Vsr.Simulator.Model
import Vsr.Simulator.Candidates
import Vsr.Simulator.Follows
import Vsr.Replica.Handled
import Vsr.Replica.Driven
import Vsr.Replica.Effects
import Vsr.Durable.Promises
import Vsr.Query.Marks
import Vsr.Query.Order
import Vsr.Query.Rounds
import Vsr.Query.Poll
import Vsr.Replica.Calls
import Vsr.Checkpoint.Staged
import Vsr.Durable.Executed
import Vsr.Kvstore.ClientId
import Vsr.Commit.Counting
import Vsr.Commit.Replies
import Vsr.Commit.Acks
import Vsr.Cursor
import Vsr.Kvstore.Frame
import Vsr.Kvstore.RoundTrip
import Vsr.Kvstore.Lines
import Vsr.Kvstore.Panics
import Vsr.Kvstore.Connection
import Vsr.Batches
import Vsr.Kvstore.Answers
import Vsr.Kvstore.Store
import Vsr.Changes
import Vsr.Pieces
import Vsr.Kvstore.Tables
import Vsr.Kvstore.Chunks
import Vsr.Kvstore.WriteBack
import Vsr.Checkpoint.Served
import Vsr.Checkpoint.Segments
import Vsr.Cluster.Run
import Vsr.Cluster.Agreement
import Vsr.Cluster.Views
import Vsr.Cluster.Counters
import Vsr.Cluster.Durability
import Vsr.Cluster.Replication
