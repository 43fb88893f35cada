import Mathlib.Data.Nat.Basic
import PerpCarry.Core.Call

/-!
# Queue.Spsc

The bounded single-producer/single-consumer queue of `cpp/include/perpcarry/spsc_queue.hpp`.

Indices are `w`-bit words. The two owning threads take turns in any order, one access to shared
memory a step: an index load, an index store, or the construction, move or destruction of a slot's
object. Between the calls of a thread its program counter is `ready` with the reply of the last
call. `pushed` and `popped` are the values of the calls that returned true; no step reads them.
-/

namespace PerpCarry
namespace Queue

variable {T : Type} {w : Nat}

/-- A slot's storage: no object, an object with its value, or an object that was moved from. -/
inductive Slot (T : Type) where
  | raw
  | live (value : T)
  | movedFrom
  deriving DecidableEq

/-- The loop of `round_up_to_power_of_two`. A word has `w` bits, so `w` passes are enough. -/
def roundUp (capacity : BitVec w) : Nat → BitVec w → Except Error (BitVec w)
  | 0, rounded => .ok rounded
  | fuel + 1, rounded =>
    if rounded < capacity then
      if BitVec.allOnes w >>> 1 < rounded then
        .error (.invalidArgument ("SPSCQueue capacity too large: " ++ toString capacity.toNat))
      else roundUp capacity fuel (rounded <<< 1)
    else .ok rounded

def roundUpToPowerOfTwo (capacity : BitVec w) : Except Error (BitVec w) :=
  if capacity = 0 then .error (.invalidArgument "SPSCQueue capacity must be at least 1")
  else roundUp capacity w 1

structure SPSCQueue (T : Type) (w : Nat) where
  capacity : BitVec w
  mask : BitVec w
  slots : BitVec w → Slot T
  head : BitVec w
  tail : BitVec w

def SPSCQueue.make (capacity : BitVec w) : Except Error (SPSCQueue T w) :=
  match roundUpToPowerOfTwo capacity with
  | .error e => .error e
  | .ok rounded =>
    .ok { capacity := rounded, mask := rounded - 1, slots := fun _ => .raw, head := 0, tail := 0 }

def SPSCQueue.setSlot (q : SPSCQueue T w) (i : BitVec w) (s : Slot T) : SPSCQueue T w :=
  { q with slots := fun j => if j = i then s else q.slots j }

/-- What a thread's last call came to. -/
inductive Reply (T : Type) (w : Nat) where
  | none
  | pushed (success : Bool)
  | threw
  | popped (out : Option T)
  | size (n : BitVec w)

/-- Where the producer stands in `try_push` or `size_approx`. -/
inductive Producer (T : Type) (w : Nat) where
  | ready (reply : Reply T w)
  | pushing (value : T)
  | tailLoaded (value : T) (tail : BitVec w)
  | room (value : T) (tail : BitVec w)
  | built (value : T) (tail : BitVec w)
  | sizing
  | headSampled (head : BitVec w)

/-- Where the consumer stands in `try_pop` or `size_approx`. -/
inductive Consumer (T : Type) (w : Nat) where
  | ready (reply : Reply T w)
  | popping
  | headLoaded (head : BitVec w)
  | found (head : BitVec w)
  | moved (value : T) (head : BitVec w)
  | destroyed (value : T) (head : BitVec w)
  | sizing
  | headSampled (head : BitVec w)

structure State (T : Type) (w : Nat) where
  queue : SPSCQueue T w
  producer : Producer T w := .ready .none
  consumer : Consumer T w := .ready .none
  pushed : List T := []
  popped : List T := []

/-- A call by one of the two threads. -/
inductive CallStep : State T w → State T w → Prop where
  | push {s r} (value : T) : s.producer = .ready r →
      CallStep s { s with producer := .pushing value }
  | producerSize {s r} : s.producer = .ready r → CallStep s { s with producer := .sizing }
  | pop {s r} : s.consumer = .ready r → CallStep s { s with consumer := .popping }
  | consumerSize {s r} : s.consumer = .ready r → CallStep s { s with consumer := .sizing }

/-- One step inside a call of the producer. Constructing the object may throw: the slot stays raw
and the call ends. -/
inductive ProducerStep : State T w → State T w → Prop where
  | loadTail {s v} : s.producer = .pushing v →
      ProducerStep s { s with producer := .tailLoaded v s.queue.tail }
  | full {s v tail} : s.producer = .tailLoaded v tail →
      tail - s.queue.head = s.queue.capacity →
      ProducerStep s { s with producer := .ready (.pushed false) }
  | notFull {s v tail} : s.producer = .tailLoaded v tail →
      tail - s.queue.head ≠ s.queue.capacity →
      ProducerStep s { s with producer := .room v tail }
  | construct {s v tail} : s.producer = .room v tail →
      ProducerStep s { s with
        queue := s.queue.setSlot (tail &&& s.queue.mask) (.live v)
        producer := .built v tail }
  | constructThrows {s v tail} : s.producer = .room v tail →
      ProducerStep s { s with producer := .ready .threw }
  | storeTail {s v tail} : s.producer = .built v tail →
      ProducerStep s { s with
        queue := { s.queue with tail := tail + 1 }
        producer := .ready (.pushed true)
        pushed := s.pushed ++ [v] }
  | sampleHead {s} : s.producer = .sizing →
      ProducerStep s { s with producer := .headSampled s.queue.head }
  | sampleTail {s head} : s.producer = .headSampled head →
      ProducerStep s { s with producer := .ready (.size (s.queue.tail - head)) }

/-- One step inside a call of the consumer. Only an object can be moved out of a slot. -/
inductive ConsumerStep : State T w → State T w → Prop where
  | loadHead {s} : s.consumer = .popping →
      ConsumerStep s { s with consumer := .headLoaded s.queue.head }
  | empty {s head} : s.consumer = .headLoaded head → head = s.queue.tail →
      ConsumerStep s { s with consumer := .ready (.popped none) }
  | notEmpty {s head} : s.consumer = .headLoaded head → head ≠ s.queue.tail →
      ConsumerStep s { s with consumer := .found head }
  | move {s head v} : s.consumer = .found head →
      s.queue.slots (head &&& s.queue.mask) = .live v →
      ConsumerStep s { s with
        queue := s.queue.setSlot (head &&& s.queue.mask) .movedFrom
        consumer := .moved v head }
  | destroy {s head v} : s.consumer = .moved v head →
      ConsumerStep s { s with
        queue := s.queue.setSlot (head &&& s.queue.mask) .raw
        consumer := .destroyed v head }
  | storeHead {s head v} : s.consumer = .destroyed v head →
      ConsumerStep s { s with
        queue := { s.queue with head := head + 1 }
        consumer := .ready (.popped (some v))
        popped := s.popped ++ [v] }
  | sampleHead {s} : s.consumer = .sizing →
      ConsumerStep s { s with consumer := .headSampled s.queue.head }
  | sampleTail {s head} : s.consumer = .headSampled head →
      ConsumerStep s { s with consumer := .ready (.size (s.queue.tail - head)) }

inductive Step (s s' : State T w) : Prop where
  | call : CallStep s s' → Step s s'
  | producer : ProducerStep s s' → Step s s'
  | consumer : ConsumerStep s s' → Step s s'

/-- States of the queue of requested capacity `capacity` under every interleaving. -/
inductive Reachable (capacity : BitVec w) : State T w → Prop where
  | start {queue} : SPSCQueue.make capacity = .ok queue → Reachable capacity { queue }
  | next {s s'} : Reachable capacity s → Step s s' → Reachable capacity s'

/-- The destructor's loop: the slots it destroys, in order, as it finds them. `none` if `fuel`
passes do not reach the tail. -/
def destroyLoop (mask tail : BitVec w) (slots : BitVec w → Slot T) :
    Nat → BitVec w → Option (List (Slot T) × (BitVec w → Slot T))
  | 0, i => if i = tail then some ([], slots) else none
  | fuel + 1, i =>
    if i = tail then some ([], slots)
    else
      (destroyLoop mask tail (fun j => if j = i &&& mask then .raw else slots j) fuel (i + 1)).map
        fun r => (slots (i &&& mask) :: r.1, r.2)

def SPSCQueue.destroy (q : SPSCQueue T w) (fuel : Nat) :
    Option (List (Slot T) × (BitVec w → Slot T)) :=
  destroyLoop q.mask q.tail q.slots fuel q.head

end Queue
end PerpCarry
