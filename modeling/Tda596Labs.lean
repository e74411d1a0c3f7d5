import Tda596Labs.Lib.Transition
import Tda596Labs.Raft.Server
import Tda596Labs.Raft.Cluster
import Tda596Labs.Raft.Terms
import Tda596Labs.Lib.Pool
import Tda596Labs.Raft.Votes
import Tda596Labs.Raft.ElectionSafety
import Tda596Labs.Lib.Directory
import Tda596Labs.MapReduce.Coordinator
import Tda596Labs.MapReduce.Worker
import Tda596Labs.MapReduce.Grouping
import Tda596Labs.MapReduce.System
import Tda596Labs.MapReduce.Holders
import Tda596Labs.MapReduce.FaultFree
import Tda596Labs.MapReduce.Refinement
import Tda596Labs.Chord.Node
import Tda596Labs.Chord.Ring
import Tda596Labs.Lib.Lap
import Tda596Labs.Chord.Lookup
import Tda596Labs.Chord.Files
import Tda596Labs.Chord.System
import Tda596Labs.Chord.Deadlock
import Tda596Labs.Chord.Replication
import Tda596Labs.Chord.Stabilization
import Tda596Labs.Http.Connections
import Tda596Labs.Http.Proxy
import Tda596Labs.Http.Server
import Tda596Labs.Http.Serving
import Tda596Labs.Lib.Lease
import Tda596Labs.MapReduce.Board
import Tda596Labs.MapReduce.Service
import Tda596Labs.MapReduce.Assignment
import Tda596Labs.MapReduce.Progress
import Tda596Labs.MapReduce.Output
import Tda596Labs.MapReduce.Clients
import Tda596Labs.Chord.HandOff
import Tda596Labs.Chord.FileList
import Tda596Labs.Chord.Join
import Tda596Labs.MapReduce.Locations
import Tda596Labs.Raft.Ballot
import Tda596Labs.Chord.Answers
import Tda596Labs.Chord.SuccessorLists
import Tda596Labs.Chord.CheckPred
import Tda596Labs.Chord.DeadSuccessor
import Tda596Labs.Chord.Fingers
import Tda596Labs.Chord.Arcs
import Tda596Labs.Chord.Input
import Tda596Labs.Chord.Notifications
import Tda596Labs.Http.Paths
import Tda596Labs.Raft.Retry
import Tda596Labs.Chord.Contents
import Tda596Labs.Chord.Encryption
import Tda596Labs.Lib.Linearizability
import Tda596Labs.Lib.LinkedList
import Tda596Labs.Porcupine.Bitset
import Tda596Labs.Porcupine.Checker
import Tda596Labs.Porcupine.History
import Tda596Labs.Porcupine.Kv
import Tda596Labs.Chord.Pointers
import Tda596Labs.Chord.Stability
import Tda596Labs.Chord.Mending
import Tda596Labs.Chord.Repair
import Tda596Labs.Chord.TakeOver
import Tda596Labs.Raft.Campaign
import Tda596Labs.Raft.Leadership
import Tda596Labs.Raft.Overflow
import Tda596Labs.Raft.Simulation
import Tda596Labs.Chord.FileMap
import Tda596Labs.Labrpc.Delivery
import Tda596Labs.Raft.Wired
