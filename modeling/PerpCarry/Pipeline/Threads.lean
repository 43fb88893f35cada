import PerpCarry.Pipeline.Sequential

/-!
# Pipeline.Threads

`Pipeline` as its caller has it: the class of `cpp/include/perpcarry/pipeline.hpp`. Its `run` comes
back after both threads have ended. Which of the possible interleavings a call takes is a parameter.

* `Pipeline.run_ok`: a call that returns has replayed its batch.
* `take_turns`: a row that is pushed, popped and applied before the next one is pushed.
* `returns_in_turn`: every batch that sequential replay accepts has a run that returns.
-/

namespace PerpCarry

open Queue

/-- The object, its replayer and the batches `run` has been given. The batches are only counted. -/
structure Pipeline (w : Nat) where
  queueCapacity : BitVec w
  replayer : BookReplayer := {}
  batches : List (List BookUpdate) := []

namespace Pipeline

variable {w : Nat} {batch : List BookUpdate} {capacity : BitVec w} {initial r : BookReplayer}
  {result : PipelineResult w}

/-- Some interleaving of the two threads ends with `result` and the replayer at `r`. -/
def Returns (batch : List BookUpdate) (capacity : BitVec w) (initial : BookReplayer)
    (result : PipelineResult w) (r : BookReplayer) : Prop :=
  ∃ s : RunState w, Reachable batch capacity initial s ∧ outcome s = some (.ok result r)

theorem returns_sequential (h : Returns batch capacity initial result r) :
    initial.applyRows batch = .ok () r := by
  obtain ⟨s, hs, ho⟩ := h
  obtain ⟨k, _, hinv⟩ := reachable_inv hs
  obtain ⟨_, hbatch, _⟩ := (inv_sequential hinv).returns result r ho
  unfold BookReplayer.applyBatch at hbatch
  split at hbatch
  · cases hbatch
  · rename_i hrows
    cases hbatch
    exact hrows

/-- What the threads do in the calls of `run`, the `n`-th call at `n`. Nothing is said of a call
that throws; one that does not come back counts as such. -/
structure Threads (w : Nat) where
  run : Nat → BitVec w → BookReplayer → List BookUpdate →
    PerpCarry.Call BookReplayer (PipelineResult w)
  returns : ∀ n capacity initial batch result r,
    run n capacity initial batch = .ok result r → Returns batch capacity initial result r

def run (threads : Threads w) (p : Pipeline w) (batch : List BookUpdate) :
    Except Error (Pipeline w) :=
  match threads.run p.batches.length p.queueCapacity p.replayer batch with
  | .error e _ => .error e
  | .ok _ replayer => .ok { p with replayer, batches := p.batches ++ [batch] }

theorem run_ok {threads : Threads w} {p p' : Pipeline w} (h : run threads p batch = .ok p') :
    p.replayer.applyRows batch = .ok () p'.replayer ∧ p'.batches = p.batches ++ [batch] := by
  unfold run at h
  split at h
  · cases h
  · rename_i hrun
    cases h
    exact ⟨returns_sequential (threads.returns _ _ _ _ _ _ hrun), rfl⟩

/-! ## Threads that take turns -/

/-- Both threads are at the head of their loops and have dealt with the same `n` rows. Neither has
waited. -/
structure Between (batch : List BookUpdate) (capacity : BitVec w) (initial : BookReplayer)
    (rounded : BitVec w) (n : Nat) (r : BookReplayer) (s : RunState w) : Prop where
  reachable : Reachable batch capacity initial s
  producer : s.producer = .loop n
  consumer : s.consumer = .loop
  producerReady : ∃ reply, s.queue.producer = .ready reply
  consumerReady : ∃ reply, s.queue.consumer = .ready reply
  consumed : s.consumed = n
  replayer : s.replayer = r
  noErrors : s.consumerError = none ∧ s.producerError = none
  rounded : s.queue.queue.capacity = rounded
  quiet : s.peakQueueOccupancy = 0 ∧ s.producerStalls = 0 ∧ s.consumerStalls = 0

section Turns

variable {rounded : BitVec w} {n : Nat} {s : RunState w}

/-- The queue is empty and has room. -/
theorem Between.drained (h : Between batch capacity initial rounded n r s) :
    s.queue.queue.head = s.queue.queue.tail ∧
      s.queue.queue.tail - s.queue.queue.head ≠ s.queue.queue.capacity ∧
      s.queue.queue.head ≠ s.queue.queue.tail + 1 := by
  obtain ⟨k, hk, hinv⟩ := reachable_inv h.reachable
  have hprod := hinv.producer
  have hcons := hinv.consumer
  unfold ProducerInv at hprod
  unfold ConsumerInv at hcons
  rw [h.producer] at hprod
  rw [h.consumer] at hcons
  have hpushed := hprod.1
  have hpopped := hcons.2
  rw [h.consumed] at hpopped
  have hempty := (empty_iff hk hinv.queue).mpr (by omega)
  refine ⟨hempty, ?_, ?_⟩
  · rw [Ne, full_iff hk hinv.queue]
    have := Nat.two_pow_pos k
    omega
  · rw [hempty, Ne, BitVec.self_eq_add_right]
    intro hone
    have := (BitVec.one_eq_zero_iff (w := w)).mp hone
    omega

/-- The state once the producer has pushed `u`. -/
def afterPush (s : RunState w) (u : BookUpdate) (n : Nat) : RunState w :=
  { s with
    queue := { s.queue with
      queue := { s.queue.queue.setSlot (s.queue.queue.tail &&& s.queue.queue.mask) (.live u) with
        tail := s.queue.queue.tail + 1 }
      producer := .ready (.pushed true)
      pushed := s.queue.pushed ++ [u] }
    producer := .loop n }

theorem pushes (h : Between batch capacity initial rounded n r s) {u : BookUpdate}
    (hrow : batch[n]? = some u) : Reachable batch capacity initial (afterPush s u (n + 1)) := by
  obtain ⟨_, hroom, _⟩ := h.drained
  obtain ⟨_, hready⟩ := h.producerReady
  have hpush := h.reachable.next (.producer (.push h.producer hrow hready))
  have htail := hpush.next (.producer (.inside rfl (.loadTail rfl)))
  have hnotFull := htail.next (.producer (.inside rfl (.notFull rfl hroom)))
  have hbuilt := hnotFull.next (.producer (.inside rfl (.construct rfl)))
  have hstored := hbuilt.next (.producer (.inside rfl (.storeTail rfl)))
  exact hstored.next (.producer (.pushed rfl rfl))

/-- The producer pushes row `n`, the other thread pops and applies it, and neither waits. -/
theorem take_turns (h : Between batch capacity initial rounded n r s) {u : BookUpdate}
    (hrow : batch[n]? = some u) {r' : BookReplayer} (happly : r.apply u = .ok () r') :
    ∃ s', Between batch capacity initial rounded (n + 1) r' s' := by
  rw [← h.replayer] at happly
  obtain ⟨hempty, _, hnew⟩ := h.drained
  obtain ⟨_, hready⟩ := h.consumerReady
  obtain ⟨hlt, _⟩ := List.getElem?_eq_some_iff.mp hrow
  have hmore : s.consumed < batch.length := by rw [h.consumed]; exact hlt
  have hpushed := pushes h hrow
  have hslot : (afterPush s u (n + 1)).queue.queue.slots
      (s.queue.queue.head &&& s.queue.queue.mask) = .live u := by
    rw [hempty]
    exact if_pos rfl
  have hpop := hpushed.next (.consumer (.pop h.consumer hmore hready))
  have hhead := hpop.next (.consumer (.insidePop rfl (.loadHead rfl)))
  have hfound := hhead.next (.consumer (.insidePop rfl (.notEmpty rfl hnew)))
  have hmoved := hfound.next (.consumer (.insidePop rfl (.move rfl hslot)))
  have hdestroyed := hmoved.next (.consumer (.insidePop rfl (.destroy rfl)))
  have hpopped := hdestroyed.next (.consumer (.insidePop rfl (.storeHead rfl)))
  have hgot := hpopped.next (.consumer (.got rfl rfl))
  have hsized := hgot.next (.consumer (.insideSize rfl (.sampleHead rfl)))
  have hsize := hsized.next (.consumer (.insideSize rfl (.sampleTail rfl)))
  have hsampled := hsize.next (.consumer (.sampled rfl rfl))
  have happlied := hsampled.next (.consumer (.applied rfl happly))
  refine ⟨_, happlied, rfl, rfl, ⟨_, rfl⟩, ⟨_, rfl⟩, ?_, rfl, h.noErrors, h.rounded, ?_, h.quiet.2⟩
  · exact congrArg (· + 1) h.consumed
  · refine (if_neg ?_).trans h.quiet.1
    show ¬ s.peakQueueOccupancy < s.queue.queue.tail + 1 - (s.queue.queue.head + 1)
    rw [hempty, BitVec.sub_self, h.quiet.1]
    exact BitVec.lt_irrefl _

theorem turns_through (h : launch capacity initial = .ok s)
    (hrows : initial.applyRows (batch.take n) = .ok () r) (hn : n ≤ batch.length) :
    ∃ s', Between batch capacity initial s.queue.queue.capacity n r s' := by
  induction n generalizing r with
  | zero =>
    cases hrows
    have hstart : Reachable batch capacity initial s := .start h
    unfold launch at h
    split at h
    · cases h
    · cases h
      exact ⟨_, hstart, rfl, rfl, ⟨_, rfl⟩, ⟨_, rfl⟩, rfl, rfl, ⟨rfl, rfl⟩, rfl, rfl, rfl, rfl⟩
  | succ n ih =>
    obtain ⟨u, hu⟩ : ∃ u, batch[n]? = some u := ⟨_, List.getElem?_eq_getElem (by omega)⟩
    rw [List.take_add_one, hu, BookReplayer.applyRows_append] at hrows
    split at hrows
    · cases hrows
    · rename_i r₀ hbefore
      obtain ⟨s₀, hs₀⟩ := ih hbefore (by omega)
      refine take_turns hs₀ hu ?_
      obtain ⟨r₁, happly, hdone⟩ := BookReplayer.applyRows_cons_ok.mp hrows
      cases hdone
      exact happly

/-- What such a call returns. -/
def inTurn (s : RunState w) (batch : List BookUpdate) (r : BookReplayer) : PipelineResult w where
  replay := r.stats
  consumed := batch.length
  queueCapacity := s.queue.queue.capacity
  peakQueueOccupancy := 0
  producerStalls := 0
  consumerStalls := 0

/-- Every batch that sequential replay accepts has a run that returns. -/
theorem returns_in_turn (h : launch capacity initial = .ok s)
    (hrows : initial.applyRows batch = .ok () r) :
    Returns batch capacity initial (inTurn s batch r) r := by
  obtain ⟨s', hs'⟩ := turns_through (n := batch.length) h (by rw [List.take_length]; exact hrows)
    (Nat.le_refl _)
  have hmore : ¬ s'.consumed < batch.length := by
    rw [hs'.consumed]
    omega
  have hproducer := hs'.reachable.next
    (.producer (.done hs'.producer (List.getElem?_eq_none (Nat.le_refl _))))
  have hconsumer := hproducer.next (.consumer (.done hs'.consumer hmore))
  refine ⟨_, hconsumer, ?_⟩
  obtain ⟨hc, hp⟩ := hs'.noErrors
  obtain ⟨hpeak, hps, hcs⟩ := hs'.quiet
  simp only [outcome, inTurn, hc, hp, hpeak, hps, hcs, hs'.rounded, hs'.consumed, hs'.replayer]

end Turns

/-- Threads that take turns row by row. -/
def Threads.inTurn (w : Nat) : Threads w where
  run _ capacity initial batch :=
    match launch capacity initial, initial.applyRows batch with
    | .error e, _ => .error e initial
    | .ok _, .error e r => .error e r
    | .ok s, .ok () r => .ok (Pipeline.inTurn s batch r) r
  returns := by
    intro n capacity initial batch result r h
    split at h
    · cases h
    · cases h
    · rename_i hlaunch hrows
      cases h
      exact returns_in_turn hlaunch hrows

end Pipeline
end PerpCarry
