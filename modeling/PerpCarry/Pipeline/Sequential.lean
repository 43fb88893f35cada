import PerpCarry.Pipeline.Run
import PerpCarry.Queue.Fifo

/-!
# Pipeline.Sequential

The threaded replay against sequential replay, under every interleaving.

* `Inv`: the queue has carried a prefix of the batch, the replayer is where sequential replay of the
  rows consumed would be, and a side that has ended early has raised the abort flag.
* `producerRun_inv`, `consumerRun_inv`, `reachable_inv`: every step keeps it.
* `pipeline_sequential`: results, errors and the absence of a spin on a peer that has stopped.
-/

namespace PerpCarry
namespace Pipeline

open Queue

variable {w : Nat}

/-- The queue while the producer pushes row `i`. -/
def Pushing (batch : List BookUpdate) (i : Nat) (q : Queue.State BookUpdate w) : Prop :=
  match q.producer with
  | .ready (.pushed true) => q.pushed.length = i + 1
  | .ready (.pushed false) => q.pushed.length = i
  | .ready .threw => q.pushed.length = i
  | .pushing v => q.pushed.length = i ∧ batch[i]? = some v
  | .tailLoaded v _ => q.pushed.length = i ∧ batch[i]? = some v
  | .room v _ => q.pushed.length = i ∧ batch[i]? = some v
  | .built v _ => q.pushed.length = i ∧ batch[i]? = some v
  | _ => False

/-- The queue while the calling thread pops its next row, `n` rows having been applied. -/
def Popping (batch : List BookUpdate) (n : Nat) (q : Queue.State BookUpdate w) : Prop :=
  match q.consumer with
  | .ready (.popped (some u)) => q.popped.length = n + 1 ∧ batch[n]? = some u
  | .ready (.popped none) => q.popped.length = n
  | .popping => q.popped.length = n
  | .headLoaded _ => q.popped.length = n
  | .found _ => q.popped.length = n
  | .moved _ _ => q.popped.length = n
  | .destroyed _ _ => q.popped.length = n
  | _ => False

/-- The queue while the calling thread samples its occupancy. -/
def Sizing (q : Queue.State BookUpdate w) : Prop :=
  match q.consumer with
  | .sizing => True
  | .headSampled _ => True
  | .ready (.size _) => True
  | _ => False

def ProducerInv (batch : List BookUpdate) (s : RunState w) : Prop :=
  match s.producer with
  | .loop i => s.queue.pushed.length = i ∧ i ≤ batch.length
  | .pushing i => i < batch.length ∧ Pushing batch i s.queue
  | .full i => i < batch.length ∧ s.queue.pushed.length = i
  | .failing => s.producerError ≠ none
  | .finished => s.aborted = true ∨ s.queue.pushed.length = batch.length

def ConsumerInv (batch : List BookUpdate) (s : RunState w) : Prop :=
  match s.consumer with
  | .loop => s.consumerError = none ∧ s.queue.popped.length = s.consumed
  | .popping => s.consumerError = none ∧ s.consumed < batch.length ∧
      Popping batch s.consumed s.queue
  | .empty => s.consumerError = none ∧ s.consumed < batch.length ∧
      s.queue.popped.length = s.consumed
  | .sampling u => s.consumerError = none ∧ s.queue.popped.length = s.consumed + 1 ∧
      batch[s.consumed]? = some u ∧ Sizing s.queue
  | .applying u => s.consumerError = none ∧ s.queue.popped.length = s.consumed + 1 ∧
      batch[s.consumed]? = some u
  | .failing => s.consumerError ≠ none
  | .exited => s.aborted = true ∨
      s.consumerError = none ∧ s.consumed = batch.length ∧ s.queue.popped.length = batch.length

structure Inv (batch : List BookUpdate) (initial : BookReplayer) (k : Nat) (s : RunState w) :
    Prop where
  queue : Queue.Inv k s.queue
  carried : s.queue.pushed = batch.take s.queue.pushed.length
  producer : ProducerInv batch s
  consumer : ConsumerInv batch s
  consumed_le : s.consumed ≤ s.queue.popped.length
  replayed : s.consumerError = none →
    initial.applyRows (batch.take s.consumed) = .ok () s.replayer
  rejected : ∀ e, s.consumerError = some e → ∃ r u,
    initial.applyRows (batch.take s.consumed) = .ok () r ∧ batch[s.consumed]? = some u ∧
      r.apply u = .error e s.replayer
  cause : s.aborted = true → s.producerError ≠ none ∨ s.consumerError ≠ none

section Steps

variable {batch : List BookUpdate} {initial : BookReplayer} {k : Nat} {s s' : RunState w}

theorem carried_length {q : Queue.State BookUpdate w} (h : q.pushed = batch.take q.pushed.length) :
    q.pushed.length ≤ batch.length := by
  have := congrArg List.length h
  rw [List.length_take] at this
  omega

theorem popped_mono {q q' : Queue.State BookUpdate w} (hs : ConsumerStep q q') :
    q.popped.length ≤ q'.popped.length := by
  cases hs with
  | storeHead hc =>
    show _ ≤ (q.popped ++ [_]).length
    rw [List.length_append]
    omega
  | _ => exact Nat.le_refl _

/-- A step inside `try_push` of row `i`. -/
theorem pushing_step {i : Nat} {q q' : Queue.State BookUpdate w}
    (hcarried : q.pushed = batch.take q.pushed.length) (h : Pushing batch i q)
    (hs : ProducerStep q q') :
    Pushing batch i q' ∧ q'.pushed = batch.take q'.pushed.length := by
  cases hs with
  | loadTail hp => simp only [Pushing, hp] at h; exact ⟨h, hcarried⟩
  | full hp _ => simp only [Pushing, hp] at h; exact ⟨h.1, hcarried⟩
  | notFull hp _ => simp only [Pushing, hp] at h; exact ⟨h, hcarried⟩
  | construct hp => simp only [Pushing, hp] at h; exact ⟨h, hcarried⟩
  | constructThrows hp => simp only [Pushing, hp] at h; exact ⟨h.1, hcarried⟩
  | storeTail hp =>
    rename_i v tail
    simp only [Pushing, hp] at h
    obtain ⟨rfl, hv⟩ := h
    have hlen : (q.pushed ++ [v]).length = q.pushed.length + 1 := by simp
    refine ⟨hlen, ?_⟩
    show q.pushed ++ [v] = batch.take (q.pushed ++ [v]).length
    rw [hlen, List.take_add_one, hv, ← hcarried]
    rfl
  | sampleHead hp => simp [Pushing, hp] at h
  | sampleTail hp => simp [Pushing, hp] at h

theorem popping_step {n : Nat} {q q' : Queue.State BookUpdate w} (hinv : Queue.Inv k q)
    (hcarried : q.pushed = batch.take q.pushed.length) (h : Popping batch n q)
    (hs : ConsumerStep q q') : Popping batch n q' := by
  cases hs with
  | loadHead hc => simp only [Popping, hc] at h; exact h
  | empty hc _ => simp only [Popping, hc] at h; exact h
  | notEmpty hc _ => simp only [Popping, hc] at h; exact h
  | move hc _ => simp only [Popping, hc] at h; exact h
  | destroy hc => simp only [Popping, hc] at h; exact h
  | storeHead hc =>
    rename_i head v
    simp only [Popping, hc] at h
    subst h
    have hdestroyed := hinv.consumer
    simp only [Queue.ConsumerInv, hc] at hdestroyed
    refine ⟨by simp, ?_⟩
    have hv := hdestroyed.2
    rw [hcarried, List.getElem?_take] at hv
    split at hv
    · exact hv
    · cases hv
  | sampleHead hc => simp [Popping, hc] at h
  | sampleTail hc => simp [Popping, hc] at h

theorem sizing_step {q q' : Queue.State BookUpdate w} (h : Sizing q) (hs : ConsumerStep q q') :
    Sizing q' ∧ q'.popped = q.popped := by
  cases hs with
  | sampleHead hc => exact ⟨trivial, rfl⟩
  | sampleTail hc => exact ⟨trivial, rfl⟩
  | loadHead hc => simp [Sizing, hc] at h
  | empty hc _ => simp [Sizing, hc] at h
  | notEmpty hc _ => simp [Sizing, hc] at h
  | move hc _ => simp [Sizing, hc] at h
  | destroy hc => simp [Sizing, hc] at h
  | storeHead hc => simp [Sizing, hc] at h

theorem consumerInv_frame {q : Queue.State BookUpdate w} (hc : q.consumer = s.queue.consumer)
    (hp : q.popped = s.queue.popped) (h : ConsumerInv batch s) :
    ConsumerInv batch { s with queue := q } := by
  unfold ConsumerInv at h ⊢
  simp only [Popping, Sizing, hc, hp] at h ⊢
  exact h

theorem producerInv_frame {q : Queue.State BookUpdate w} (hp : q.producer = s.queue.producer)
    (hpushed : q.pushed = s.queue.pushed) (h : ProducerInv batch s) :
    ProducerInv batch { s with queue := q } := by
  unfold ProducerInv at h ⊢
  simp only [Pushing, hp, hpushed] at h ⊢
  exact h

/-- Raising the flag excuses a side that has ended; the others do not look at it. -/
theorem consumerInv_raised (h : ConsumerInv batch s) :
    ConsumerInv batch { s with aborted := true } := by
  unfold ConsumerInv at h ⊢
  cases hc : s.consumer with
  | exited => exact .inl rfl
  | _ => rw [hc] at h; exact h

theorem producerInv_raised (h : ProducerInv batch s) :
    ProducerInv batch { s with aborted := true } := by
  unfold ProducerInv at h ⊢
  cases hp : s.producer with
  | finished => exact .inl rfl
  | _ => rw [hp] at h; exact h

/-- A side that goes on to another point of its loop changes its counters and nothing else. -/
theorem Inv.producerAt {position : ProducerAt} {stalls : Nat} (h : Inv batch initial k s)
    (hproducer : ProducerInv batch { s with producer := position, producerStalls := stalls }) :
    Inv batch initial k { s with producer := position, producerStalls := stalls } :=
  ⟨h.queue, h.carried, hproducer, h.consumer, h.consumed_le, h.replayed, h.rejected, h.cause⟩

theorem Inv.consumerAt {position : ConsumerAt} {stalls : Nat} {peak : BitVec w}
    (h : Inv batch initial k s) (hconsumer : ConsumerInv batch { s with
      consumer := position, consumerStalls := stalls, peakQueueOccupancy := peak }) :
    Inv batch initial k { s with
      consumer := position, consumerStalls := stalls, peakQueueOccupancy := peak } :=
  ⟨h.queue, h.carried, h.producer, hconsumer, h.consumed_le, h.replayed, h.rejected, h.cause⟩

theorem producerRun_inv (hk : k < w) (h : Inv batch initial k s)
    (hs : ProducerRun batch s s') : Inv batch initial k s' := by
  have hprod := h.producer
  unfold ProducerInv at hprod
  cases hs with
  | done hp hend =>
    rw [hp] at hprod
    have := List.getElem?_eq_none_iff.mp hend
    have hall : s.queue.pushed.length = batch.length := by omega
    exact h.producerAt (.inr hall)
  | push hp hrow hready =>
    rw [hp] at hprod
    obtain ⟨hlt, _⟩ := List.getElem?_eq_some_iff.mp hrow
    exact ⟨callStep_inv h.queue (.push _ hready), h.carried, ⟨hlt, hprod.1, hrow⟩, h.consumer,
      h.consumed_le, h.replayed, h.rejected, h.cause⟩
  | inside hp hstep =>
    rename_i i q
    rw [hp] at hprod
    obtain ⟨hpushing, hcarried⟩ := pushing_step h.carried hprod.2 hstep
    obtain ⟨hconsumer, hpopped⟩ := producerStep_frame hstep
    have hproducer : ProducerInv batch { s with queue := q } := by
      unfold ProducerInv
      rw [hp]
      exact ⟨hprod.1, hpushing⟩
    have hconsumed : s.consumed ≤ q.popped.length := by
      rw [hpopped]
      exact h.consumed_le
    exact ⟨producerStep_inv hk h.queue hstep, hcarried, hproducer,
      consumerInv_frame hconsumer hpopped h.consumer, hconsumed, h.replayed, h.rejected, h.cause⟩
  | pushed hp hreply =>
    rw [hp] at hprod
    obtain ⟨hlt, hpushing⟩ := hprod
    simp only [Pushing, hreply] at hpushing
    exact h.producerAt ⟨hpushing, hlt⟩
  | refused hp hreply =>
    rw [hp] at hprod
    obtain ⟨hlt, hpushing⟩ := hprod
    simp only [Pushing, hreply] at hpushing
    exact h.producerAt ⟨hlt, hpushing⟩
  | giveUp hp habort => exact h.producerAt (.inl habort)
  | stall hp _ =>
    rw [hp] at hprod
    obtain ⟨hlt, hlen⟩ := hprod
    exact h.producerAt ⟨hlen, hlt.le⟩
  | threw e hp _ =>
    have herror : some e ≠ none := nofun
    exact ⟨h.queue, h.carried, herror, h.consumer, h.consumed_le, h.replayed, h.rejected,
      fun _ => .inl herror⟩
  | raise hp =>
    rw [hp] at hprod
    have hconsumer : ConsumerInv batch { s with aborted := true } := consumerInv_raised h.consumer
    exact ⟨h.queue, h.carried, .inl rfl, hconsumer, h.consumed_le, h.replayed, h.rejected,
      fun _ => .inl hprod⟩

/-- The row that has just been popped joins the rows replayed. -/
theorem replayed_next {n : Nat} {r r' : BookReplayer} {u : BookUpdate}
    (h : initial.applyRows (batch.take n) = .ok () r) (hrow : batch[n]? = some u)
    (ha : r.apply u = .ok () r') : initial.applyRows (batch.take (n + 1)) = .ok () r' := by
  rw [List.take_add_one, hrow, BookReplayer.applyRows_append, h]
  simp only [Option.toList_some, BookReplayer.applyRows, ha]

/-- A step inside a call of the consumer leaves the producer's side alone. -/
theorem insideConsumer_inv (hk : k < w) (h : Inv batch initial k s)
    {q : Queue.State BookUpdate w} (hstep : ConsumerStep s.queue q)
    (hconsumer : ConsumerInv batch { s with queue := q }) :
    Inv batch initial k { s with queue := q } := by
  obtain ⟨hproducer, hsame⟩ := consumerStep_frame hstep
  have hcarried : q.pushed = batch.take q.pushed.length := by
    rw [hsame]
    exact h.carried
  exact ⟨consumerStep_inv hk h.queue hstep, hcarried, producerInv_frame hproducer hsame h.producer,
    hconsumer, h.consumed_le.trans (popped_mono hstep), h.replayed, h.rejected, h.cause⟩

theorem consumerRun_inv (hk : k < w) (h : Inv batch initial k s)
    (hs : ConsumerRun batch s s') : Inv batch initial k s' := by
  have hcons := h.consumer
  unfold ConsumerInv at hcons
  have hpushed := carried_length h.carried
  have hpopped := h.queue.popped_le
  cases hs with
  | done hc hend =>
    rw [hc] at hcons
    obtain ⟨hnone, hlen⟩ := hcons
    have hall : s.consumed = batch.length := by omega
    exact h.consumerAt (.inr ⟨hnone, hall, hlen.trans hall⟩)
  | pop hc hlt hready =>
    rw [hc] at hcons
    obtain ⟨hnone, hlen⟩ := hcons
    exact ⟨callStep_inv h.queue (.pop hready), h.carried, h.producer, ⟨hnone, hlt, hlen⟩,
      h.consumed_le, h.replayed, h.rejected, h.cause⟩
  | insidePop hc hstep =>
    rename_i q
    rw [hc] at hcons
    obtain ⟨hnone, hlt, hpop⟩ := hcons
    have hpop' := popping_step h.queue h.carried hpop hstep
    have hconsumer : ConsumerInv batch { s with queue := q } := by
      unfold ConsumerInv
      rw [hc]
      exact ⟨hnone, hlt, hpop'⟩
    exact insideConsumer_inv hk h hstep hconsumer
  | gotNone hc hreply =>
    rw [hc] at hcons
    obtain ⟨hnone, hlt, hpop⟩ := hcons
    simp only [Popping, hreply] at hpop
    exact h.consumerAt ⟨hnone, hlt, hpop⟩
  | breakOut hc habort => exact h.consumerAt (.inl habort)
  | stall hc _ =>
    rw [hc] at hcons
    obtain ⟨hnone, _, hlen⟩ := hcons
    exact h.consumerAt ⟨hnone, hlen⟩
  | got hc hreply =>
    rw [hc] at hcons
    obtain ⟨hnone, hlt, hpop⟩ := hcons
    simp only [Popping, hreply] at hpop
    exact ⟨callStep_inv h.queue (.consumerSize hreply), h.carried, h.producer,
      ⟨hnone, hpop.1, hpop.2, trivial⟩, h.consumed_le, h.replayed, h.rejected, h.cause⟩
  | insideSize hc hstep =>
    rename_i u q
    rw [hc] at hcons
    obtain ⟨hnone, hlen, hrow, hsize⟩ := hcons
    obtain ⟨hsize', hpop'⟩ := sizing_step hsize hstep
    have hconsumer : ConsumerInv batch { s with queue := q } := by
      unfold ConsumerInv
      rw [hc]
      exact ⟨hnone, by rw [hpop']; exact hlen, hrow, hsize'⟩
    exact insideConsumer_inv hk h hstep hconsumer
  | sampled hc _ =>
    rw [hc] at hcons
    obtain ⟨hnone, hlen, hrow, _⟩ := hcons
    exact h.consumerAt ⟨hnone, hlen, hrow⟩
  | applied hc happly =>
    rw [hc] at hcons
    obtain ⟨hnone, hlen, hrow⟩ := hcons
    refine ⟨h.queue, h.carried, h.producer, ⟨hnone, hlen⟩, hlen.ge,
      fun _ => replayed_next (h.replayed hnone) hrow happly, fun e he => ?_, h.cause⟩
    have he : s.consumerError = some e := he
    rw [hnone] at he
    cases he
  | rejected hc happly =>
    rw [hc] at hcons
    obtain ⟨hnone, hlen, hrow⟩ := hcons
    refine ⟨h.queue, h.carried, h.producer, nofun, h.consumed_le, nofun, fun e he => ?_,
      fun _ => .inr nofun⟩
    cases he
    exact ⟨s.replayer, _, h.replayed hnone, hrow, happly⟩
  | raise hc =>
    rw [hc] at hcons
    have hproducer : ProducerInv batch { s with aborted := true } := producerInv_raised h.producer
    exact ⟨h.queue, h.carried, hproducer, .inl rfl, h.consumed_le, h.replayed, h.rejected,
      fun _ => .inr hcons⟩

theorem step_inv (hk : k < w) (h : Inv batch initial k s) (hs : Step batch s s') :
    Inv batch initial k s' := by
  cases hs with
  | producer hs => exact producerRun_inv hk h hs
  | consumer hs => exact consumerRun_inv hk h hs

theorem launch_inv {capacity : BitVec w} (h : launch capacity initial = .ok s) :
    ∃ k < w, Inv batch initial k s := by
  unfold launch at h
  split at h
  · cases h
  · rename_i queue hmake
    cases h
    obtain ⟨k, hk, hinv⟩ := inv_start hmake
    exact ⟨k, hk.fits, hinv, rfl, ⟨rfl, Nat.zero_le _⟩, ⟨rfl, rfl⟩, Nat.le_refl _, fun _ => rfl,
      nofun, nofun⟩

theorem reachable_inv {capacity : BitVec w} (h : Reachable batch capacity initial s) :
    ∃ k < w, Inv batch initial k s := by
  induction h with
  | start hlaunch => exact launch_inv hlaunch
  | next _ hstep ih =>
    obtain ⟨k, hk, hinv⟩ := ih
    exact ⟨k, hk, step_inv hk hinv hstep⟩

end Steps

/-! ## Against sequential replay -/

/-- The calling thread has rows to come and holds none. -/
def ConsumerWaits (batch : List BookUpdate) (s : RunState w) : Prop :=
  match s.consumer with
  | .loop => s.consumed < batch.length
  | .popping => ∀ u, s.queue.consumer ≠ .ready (.popped (some u))
  | .empty => True
  | _ => False

/-- The producer has a row it has not pushed. -/
def ProducerWaits (batch : List BookUpdate) (s : RunState w) : Prop :=
  match s.producer with
  | .loop i => i < batch.length
  | .pushing _ => s.queue.producer ≠ .ready (.pushed true)
  | .full _ => True
  | _ => False

section Results

variable {batch : List BookUpdate} {initial r : BookReplayer} {k : Nat} {s : RunState w}
  {result : PipelineResult w} {e : Error}

theorem applyBatch_of_prefix (h : initial.applyRows (batch.take batch.length) = .ok () r) :
    initial.applyBatch batch = .ok batch.length r := by
  rw [List.take_length] at h
  rw [BookReplayer.applyBatch, h]

/-- Rows behind the one rejected are not looked at. -/
theorem applyBatch_of_rejected {n : Nat} {r' : BookReplayer} {u : BookUpdate}
    (h : initial.applyRows (batch.take n) = .ok () r) (hrow : batch[n]? = some u)
    (ha : r.apply u = .error e r') : initial.applyBatch batch = .error e r' := by
  obtain ⟨hlt, hget⟩ := List.getElem?_eq_some_iff.mp hrow
  have hsplit : batch = batch.take n ++ u :: batch.drop (n + 1) := by
    rw [← hget, ← List.drop_eq_getElem_cons hlt, List.take_append_drop]
  have hrows : initial.applyRows batch = .error e r' := by
    rw [hsplit, BookReplayer.applyRows_append, h]
    simp only [BookReplayer.applyRows, ha]
  rw [BookReplayer.applyBatch, hrows]

theorem outcome_some {o : PerpCarry.Call BookReplayer (PipelineResult w)} (h : outcome s = some o) :
    s.producer = .finished ∧ s.consumer = .exited := by
  unfold outcome at h
  split at h
  · rename_i hp hc
    exact ⟨hp, hc⟩
  · cases h

theorem outcome_rejected {o : PerpCarry.Call BookReplayer (PipelineResult w)}
    (h : outcome s = some o) (he : s.consumerError = some e) : o = .error e s.replayer := by
  obtain ⟨hp, hc⟩ := outcome_some h
  simp only [outcome, hp, hc, he] at h
  cases h
  rfl

theorem outcome_ok (h : outcome s = some (.ok result r)) :
    s.consumerError = none ∧ s.producerError = none ∧ result.consumed = s.consumed ∧
      result.replay = r.stats ∧ r = s.replayer := by
  obtain ⟨hp, hc⟩ := outcome_some h
  simp only [outcome, hp, hc] at h
  split at h
  · cases h
  · cases h
  · rename_i hconsumer hproducer
    cases h
    exact ⟨hconsumer, hproducer, rfl, rfl, rfl⟩

/-- The calling thread ends with every row applied unless one of the two sides has failed. -/
theorem Inv.all_consumed (h : Inv batch initial k s) (hc : s.consumer = .exited)
    (hconsumer : s.consumerError = none) (hproducer : s.producerError = none) :
    s.consumed = batch.length := by
  have hcons := h.consumer
  simp only [ConsumerInv, hc] at hcons
  rcases hcons with habort | ⟨_, hall, _⟩
  · rcases h.cause habort with hp | hc
    · exact absurd hproducer hp
    · exact absurd hconsumer hc
  · exact hall

theorem Inv.consumer_not_stranded (h : Inv batch initial k s) (hwaits : ConsumerWaits batch s)
    (hempty : contents s.queue = []) (hp : s.producer = .finished) : s.aborted = true := by
  have hprod := h.producer
  simp only [ProducerInv, hp] at hprod
  rcases hprod with habort | hall
  · exact habort
  · -- everything was pushed and nothing is left, so everything was popped
    exfalso
    have hlen := contents_length s.queue
    rw [hempty, List.length_nil] at hlen
    have hpopped := h.queue.popped_le
    have hcons := h.consumer
    unfold ConsumerInv at hcons
    unfold ConsumerWaits at hwaits
    cases hc : s.consumer with
    | loop =>
      rw [hc] at hcons hwaits
      have := hcons.2
      have hwaits : s.consumed < batch.length := hwaits
      omega
    | popping =>
      rw [hc] at hcons hwaits
      obtain ⟨_, hlt, hpop⟩ := hcons
      have : s.queue.popped.length = s.consumed := by
        unfold Popping at hpop
        split at hpop
        · rename_i u hgot
          exact absurd hgot (hwaits u)
        all_goals first | exact hpop | exact hpop.elim
      omega
    | empty =>
      rw [hc] at hcons
      have := hcons.2
      omega
    | _ => rw [hc] at hwaits; exact hwaits

theorem Inv.producer_not_stranded (h : Inv batch initial k s) (hwaits : ProducerWaits batch s)
    (hc : s.consumer = .exited) : s.aborted = true := by
  have hcons := h.consumer
  simp only [ConsumerInv, hc] at hcons
  rcases hcons with habort | ⟨_, _, hall⟩
  · exact habort
  · exfalso
    have hpopped := h.queue.popped_le
    have hprod := h.producer
    unfold ProducerInv at hprod
    unfold ProducerWaits at hwaits
    cases hp : s.producer with
    | loop i =>
      rw [hp] at hprod hwaits
      have := hprod.1
      have hwaits : i < batch.length := hwaits
      omega
    | pushing i =>
      rw [hp] at hprod hwaits
      obtain ⟨hlt, hpush⟩ := hprod
      have : s.queue.pushed.length = i := by
        unfold Pushing at hpush
        split at hpush
        · rename_i hdone
          exact absurd hdone hwaits
        all_goals first | exact hpush | exact hpush.1 | exact hpush.elim
      omega
    | full i =>
      rw [hp] at hprod
      have := hprod.2
      omega
    | _ => rw [hp] at hwaits; exact hwaits

end Results

/-- What a state of a run on `batch` says about sequential replay from `initial`. -/
structure Sequential (batch : List BookUpdate) (initial : BookReplayer) (s : RunState w) :
    Prop where
  /-- The rows applied are the first `consumed` popped, and these are the batch's. -/
  in_order : s.queue.popped <+: batch ∧ s.consumed ≤ s.queue.popped.length
  applied : s.consumerError = none → initial.applyRows (batch.take s.consumed) = .ok () s.replayer
  rejected : ∀ e, s.consumerError = some e → ∃ r u,
    initial.applyRows (batch.take s.consumed) = .ok () r ∧ batch[s.consumed]? = some u ∧
      r.apply u = .error e s.replayer
  returns : ∀ result r, outcome s = some (.ok result r) →
    result.consumed = batch.length ∧ initial.applyBatch batch = .ok batch.length r ∧
      result.replay = r.stats
  rethrows : ∀ e, s.consumerError = some e →
    initial.applyBatch batch = .error e s.replayer ∧
      ∀ o, outcome s = some o → o = .error e s.replayer
  /-- The producer has an error of its own only if copying a row throws. -/
  surfaces : ∀ e r o, initial.applyBatch batch = .error e r → s.producerError = none →
    outcome s = some o → o = .error e r
  consumer_not_stranded : ConsumerWaits batch s → contents s.queue = [] →
    s.producer = .finished → s.aborted = true
  producer_not_stranded : ProducerWaits batch s →
    (contents s.queue).length = s.queue.queue.capacity.toNat → s.consumer = .exited →
    s.aborted = true

theorem inv_sequential {batch : List BookUpdate} {initial : BookReplayer} {k : Nat}
    {s : RunState w} (h : Inv batch initial k s) : Sequential batch initial s := by
  have hrejected : ∀ e, s.consumerError = some e → initial.applyBatch batch = .error e s.replayer :=
    fun e he => by
      obtain ⟨r, u, hbefore, hrow, happly⟩ := h.rejected e he
      exact applyBatch_of_rejected hbefore hrow happly
  have hreturned : s.consumer = .exited → s.consumerError = none → s.producerError = none →
      initial.applyBatch batch = .ok batch.length s.replayer := fun hc hconsumer hproducer => by
    have hreplayed := h.replayed hconsumer
    rw [h.all_consumed hc hconsumer hproducer] at hreplayed
    exact applyBatch_of_prefix hreplayed
  constructor
  · refine ⟨?_, h.consumed_le⟩
    rw [h.queue.inOrder, h.carried, List.take_take]
    exact List.take_prefix _ _
  · exact h.replayed
  · exact h.rejected
  · intro result r ho
    obtain ⟨_, hc⟩ := outcome_some ho
    obtain ⟨hconsumer, hproducer, hconsumed, hstats, rfl⟩ := outcome_ok ho
    rw [hconsumed]
    exact ⟨h.all_consumed hc hconsumer hproducer, hreturned hc hconsumer hproducer, hstats⟩
  · intro e he
    exact ⟨hrejected e he, fun o ho => outcome_rejected ho he⟩
  · intro e r o hbatch hproducer ho
    obtain ⟨_, hc⟩ := outcome_some ho
    cases hconsumer : s.consumerError with
    | none =>
      rw [hreturned hc hconsumer hproducer] at hbatch
      cases hbatch
    | some e' =>
      rw [hrejected e' hconsumer] at hbatch
      cases hbatch
      exact outcome_rejected ho hconsumer
  · exact h.consumer_not_stranded
  · exact fun hwaits _ => h.producer_not_stranded hwaits

/-- Every state of every interleaving, for every batch, capacity and initial state. -/
theorem pipeline_sequential {batch : List BookUpdate} {capacity : BitVec w} {initial : BookReplayer}
    {s : RunState w} (h : Reachable batch capacity initial s) : Sequential batch initial s := by
  obtain ⟨k, _, hinv⟩ := reachable_inv h
  exact inv_sequential hinv

/-- One diff, which no snapshot precedes. The producer has ended by the time the row is popped. -/
theorem pipeline_sequential_rejected :
    ∃ s : RunState 8, outcome s = some (.error BookReplayer.notOpened {}) ∧
      Sequential [.diff 1000 .bid 100 1] {} s := by
  have hlaunch : launch (1 : BitVec 8) {} =
      .ok { queue := ⟨⟨1, 0, fun _ => .raw, 0, 0⟩, .ready .none, .ready .none, [], []⟩,
            replayer := {} } := rfl
  have hstart : Reachable [.diff 1000 .bid 100 1] (1 : BitVec 8) {} _ := .start hlaunch
  have hpush := hstart.next (.producer (.push rfl rfl rfl))
  have htail := hpush.next (.producer (.inside rfl (.loadTail rfl)))
  have hroom := htail.next (.producer (.inside rfl (.notFull rfl (by decide))))
  have hbuilt := hroom.next (.producer (.inside rfl (.construct rfl)))
  have hstored := hbuilt.next (.producer (.inside rfl (.storeTail rfl)))
  have hpushed := hstored.next (.producer (.pushed rfl rfl))
  have hdone := hpushed.next (.producer (.done rfl rfl))
  have hpop := hdone.next (.consumer (.pop rfl (by decide) rfl))
  have hhead := hpop.next (.consumer (.insidePop rfl (.loadHead rfl)))
  have hfound := hhead.next (.consumer (.insidePop rfl (.notEmpty rfl (by decide))))
  have hmoved := hfound.next (.consumer (.insidePop rfl (.move rfl rfl)))
  have hdestroyed := hmoved.next (.consumer (.insidePop rfl (.destroy rfl)))
  have hpopped := hdestroyed.next (.consumer (.insidePop rfl (.storeHead rfl)))
  have hgot := hpopped.next (.consumer (.got rfl rfl))
  have hsized := hgot.next (.consumer (.insideSize rfl (.sampleHead rfl)))
  have hsize := hsized.next (.consumer (.insideSize rfl (.sampleTail rfl)))
  have hsampled := hsize.next (.consumer (.sampled rfl rfl))
  have hrejected := hsampled.next (.consumer (.rejected rfl rfl))
  have hraised := hrejected.next (.consumer (.raise rfl))
  exact ⟨_, rfl, pipeline_sequential hraised⟩

end Pipeline
end PerpCarry
