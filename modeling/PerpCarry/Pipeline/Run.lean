import PerpCarry.Book.Replayer
import PerpCarry.Queue.Spsc

/-!
# Pipeline.Run

The threaded replay of `cpp/src/pipeline.cpp`: a producer thread pushes the rows of a batch into the
queue, the calling thread pops and applies them, and an abort flag ends either side when the other
has failed.

A step of the run is one step of a queue call, one access to the abort flag, or one `apply`. The
queue's own steps are those of `Queue.Spsc`.
-/

namespace PerpCarry
namespace Pipeline

open Queue

variable {w : Nat}

/-- Where the producer thread stands; `i` is the row of the loop. -/
inductive ProducerAt where
  | loop (i : Nat)
  | pushing (i : Nat)
  | full (i : Nat)
  | failing
  | finished
  deriving DecidableEq

/-- Where the calling thread stands. It waits for the producer once it has `exited` the loop. -/
inductive ConsumerAt where
  | loop
  | popping
  | empty
  | sampling (update : BookUpdate)
  | applying (update : BookUpdate)
  | failing
  | exited
  deriving DecidableEq

structure RunState (w : Nat) where
  queue : Queue.State BookUpdate w
  replayer : BookReplayer
  producer : ProducerAt := .loop 0
  consumer : ConsumerAt := .loop
  aborted : Bool := false
  producerError : Option Error := none
  consumerError : Option Error := none
  consumed : Nat := 0
  peakQueueOccupancy : BitVec w := 0
  producerStalls : Nat := 0
  consumerStalls : Nat := 0

/-- Before the threads start. The queue's constructor may refuse the capacity. -/
def launch (capacity : BitVec w) (initial : BookReplayer) : Except Error (RunState w) :=
  match SPSCQueue.make capacity with
  | .error e => .error e
  | .ok queue => .ok { queue := { queue }, replayer := initial }

/-- The producer's lambda. Its copy of a row is made inside `try_push`, the only place that could
throw; what it throws is not known. -/
inductive ProducerRun (batch : List BookUpdate) : RunState w → RunState w → Prop where
  | done {s i} : s.producer = .loop i → batch[i]? = none →
      ProducerRun batch s { s with producer := .finished }
  | push {s i u r} : s.producer = .loop i → batch[i]? = some u → s.queue.producer = .ready r →
      ProducerRun batch s { s with
        queue := { s.queue with producer := .pushing u }
        producer := .pushing i }
  | inside {s i q} : s.producer = .pushing i → ProducerStep s.queue q →
      ProducerRun batch s { s with queue := q }
  | pushed {s i} : s.producer = .pushing i → s.queue.producer = .ready (.pushed true) →
      ProducerRun batch s { s with producer := .loop (i + 1) }
  | refused {s i} : s.producer = .pushing i → s.queue.producer = .ready (.pushed false) →
      ProducerRun batch s { s with producer := .full i }
  | giveUp {s i} : s.producer = .full i → s.aborted = true →
      ProducerRun batch s { s with producer := .finished }
  | stall {s i} : s.producer = .full i → s.aborted = false →
      ProducerRun batch s { s with
        producer := .loop i
        producerStalls := s.producerStalls + 1 }
  | threw {s i} (e : Error) : s.producer = .pushing i → s.queue.producer = .ready .threw →
      ProducerRun batch s { s with producer := .failing, producerError := some e }
  | raise {s} : s.producer = .failing →
      ProducerRun batch s { s with producer := .finished, aborted := true }

/-- The loop of the calling thread, and its handler. -/
inductive ConsumerRun (batch : List BookUpdate) : RunState w → RunState w → Prop where
  | done {s} : s.consumer = .loop → ¬ s.consumed < batch.length →
      ConsumerRun batch s { s with consumer := .exited }
  | pop {s r} : s.consumer = .loop → s.consumed < batch.length → s.queue.consumer = .ready r →
      ConsumerRun batch s { s with
        queue := { s.queue with consumer := .popping }
        consumer := .popping }
  | insidePop {s q} : s.consumer = .popping → ConsumerStep s.queue q →
      ConsumerRun batch s { s with queue := q }
  | gotNone {s} : s.consumer = .popping → s.queue.consumer = .ready (.popped none) →
      ConsumerRun batch s { s with consumer := .empty }
  | breakOut {s} : s.consumer = .empty → s.aborted = true →
      ConsumerRun batch s { s with consumer := .exited }
  | stall {s} : s.consumer = .empty → s.aborted = false →
      ConsumerRun batch s { s with consumer := .loop, consumerStalls := s.consumerStalls + 1 }
  | got {s u} : s.consumer = .popping → s.queue.consumer = .ready (.popped (some u)) →
      ConsumerRun batch s { s with
        queue := { s.queue with consumer := .sizing }
        consumer := .sampling u }
  | insideSize {s u q} : s.consumer = .sampling u → ConsumerStep s.queue q →
      ConsumerRun batch s { s with queue := q }
  | sampled {s u n} : s.consumer = .sampling u → s.queue.consumer = .ready (.size n) →
      ConsumerRun batch s { s with
        consumer := .applying u
        peakQueueOccupancy := if s.peakQueueOccupancy < n then n else s.peakQueueOccupancy }
  | applied {s u r} : s.consumer = .applying u → s.replayer.apply u = .ok () r →
      ConsumerRun batch s { s with
        replayer := r
        consumed := s.consumed + 1
        consumer := .loop }
  | rejected {s u e r} : s.consumer = .applying u → s.replayer.apply u = .error e r →
      ConsumerRun batch s { s with
        replayer := r
        consumerError := some e
        consumer := .failing }
  | raise {s} : s.consumer = .failing →
      ConsumerRun batch s { s with consumer := .exited, aborted := true }

inductive Step (batch : List BookUpdate) (s s' : RunState w) : Prop where
  | producer : ProducerRun batch s s' → Step batch s s'
  | consumer : ConsumerRun batch s s' → Step batch s s'

/-- The states of a run on `batch`, under every interleaving of the two threads. -/
inductive Reachable (batch : List BookUpdate) (capacity : BitVec w) (initial : BookReplayer) :
    RunState w → Prop where
  | start {s} : launch capacity initial = .ok s → Reachable batch capacity initial s
  | next {s s'} : Reachable batch capacity initial s → Step batch s s' →
      Reachable batch capacity initial s'

structure PipelineResult (w : Nat) where
  replay : Stats
  consumed : Nat
  queueCapacity : BitVec w
  peakQueueOccupancy : BitVec w
  producerStalls : Nat
  consumerStalls : Nat

/-- What `run` returns or throws once both threads have ended, and the replayer it leaves. -/
def outcome (s : RunState w) : Option (PerpCarry.Call BookReplayer (PipelineResult w)) :=
  match s.producer, s.consumer with
  | .finished, .exited =>
    match s.consumerError, s.producerError with
    | some e, _ => some (.error e s.replayer)
    | none, some e => some (.error e s.replayer)
    | none, none => some (.ok {
        replay := s.replayer.stats
        consumed := s.consumed
        queueCapacity := s.queue.queue.capacity
        peakQueueOccupancy := s.peakQueueOccupancy
        producerStalls := s.producerStalls
        consumerStalls := s.consumerStalls } s.replayer)
  | _, _ => none

end Pipeline
end PerpCarry
