import GearmanServer.Basic
import GearmanServer.Links
import GearmanServer.Fifo
import GearmanServer.State
import GearmanServer.Function
import GearmanServer.Job
import GearmanServer.JobAdd
import GearmanServer.Run
import GearmanServer.Footprint
import GearmanServer.Invariant.Tables
import GearmanServer.Invariant.Hash
import GearmanServer.Invariant.Counters
import GearmanServer.Invariant.Queues
import GearmanServer.Invariant.Functions
import GearmanServer.Invariant.Clients
import GearmanServer.Invariant.Broker
import GearmanServer.Invariant.Add
import GearmanServer.Invariant.Reachable
import GearmanServer.Dispatcher
import GearmanServer.Dedup
import GearmanServer.Format
import GearmanServer.Handles
import GearmanServer.Workers
import GearmanServer.FunctionGet
import GearmanServer.Persist
import GearmanServer.Keys
import GearmanServer.Replay
import GearmanServer.JobQueue
import GearmanServer.QueueCap
import GearmanServer.TakeOrder
import GearmanServer.PeekTake
import GearmanServer.Con.State
import GearmanServer.Con.Step
import GearmanServer.Con.RoundRobin
import GearmanServer.Con.Invariant
import GearmanServer.Con.WorkerSteps
import GearmanServer.Con.MainSteps
import GearmanServer.Con.Safety
import GearmanServer.Con.Watch
import GearmanServer.Con.Unthreaded
