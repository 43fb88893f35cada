import PerpCarry.Lib.RingIndex
import PerpCarry.Queue.Spsc

/-!
# Queue.Fifo

The queue under every interleaving of its two threads.
-/

namespace PerpCarry
namespace Queue

open Lib

variable {T : Type} {w : Nat}

/-! ## The constructor -/

theorem halfWord (hw : 0 < w) : (BitVec.allOnes w >>> 1).toNat = 2 ^ (w - 1) - 1 := by
  obtain ⟨n, rfl⟩ : ∃ n, w = n + 1 := ⟨w - 1, by omega⟩
  rw [BitVec.toNat_ushiftRight, BitVec.toNat_allOnes, Nat.shiftRight_eq_div_pow]
  simp only [Nat.pow_succ, Nat.add_sub_cancel]
  omega

/-- The loop from `2^j`, all smaller powers having been too small. -/
theorem roundUp_spec (capacity : BitVec w) (fuel : Nat) {j : Nat} (hj : j < w) (hfuel : w ≤ fuel + j)
    (hsmall : ∀ m < j, 2 ^ m < capacity.toNat) :
    (∃ k < w, roundUp capacity fuel (BitVec.ofNat w (2 ^ j)) = .ok (BitVec.ofNat w (2 ^ k)) ∧
        capacity.toNat ≤ 2 ^ k ∧ ∀ m < k, 2 ^ m < capacity.toNat) ∨
      2 ^ (w - 1) < capacity.toNat ∧
        ∃ e, roundUp capacity fuel (BitVec.ofNat w (2 ^ j)) = .error e := by
  induction fuel generalizing j with
  | zero => omega
  | succ fuel ih =>
    have hpow : 2 ^ j < 2 ^ w := Nat.pow_lt_pow_right (by omega) hj
    have hnat : (BitVec.ofNat w (2 ^ j)).toNat = 2 ^ j := by
      rw [BitVec.toNat_ofNat, Nat.mod_eq_of_lt hpow]
    simp only [roundUp, BitVec.lt_def, hnat, halfWord (by omega : 0 < w)]
    by_cases hlt : 2 ^ j < capacity.toNat
    · rw [if_pos hlt]
      by_cases hlast : 2 ^ (w - 1) - 1 < 2 ^ j
      · rw [if_pos hlast]
        have hjw : j = w - 1 := by
          by_contra hne
          have : 2 ^ (j + 1) ≤ 2 ^ (w - 1) := Nat.pow_le_pow_right (by omega) (by omega)
          have := Nat.two_pow_pos j
          rw [Nat.pow_succ] at *
          omega
        rw [← hjw]
        exact .inr ⟨hlt, _, rfl⟩
      · rw [if_neg hlast]
        have hj1 : j + 1 < w := by
          by_contra hge
          have hjw : j = w - 1 := by omega
          rw [hjw] at hlast
          have := Nat.two_pow_pos (w - 1)
          omega
        have hshift : BitVec.ofNat w (2 ^ j) <<< 1 = BitVec.ofNat w (2 ^ (j + 1)) := by
          refine BitVec.eq_of_toNat_eq ?_
          rw [BitVec.toNat_shiftLeft, hnat, Nat.shiftLeft_eq, BitVec.toNat_ofNat, Nat.pow_succ]
          rfl
        rw [hshift]
        refine ih hj1 (by omega) fun m hm => ?_
        rcases Nat.lt_succ_iff_lt_or_eq.mp hm with hm | rfl
        · exact hsmall m hm
        · exact hlt
    · rw [if_neg hlt]
      exact .inl ⟨j, hj, rfl, by omega, hsmall⟩

/-- The capacity the constructor settles on: a power of two, and the least one that is enough. -/
structure LeastPowerOfTwo (capacity : BitVec w) (k : Nat) : Prop where
  fits : k < w
  enough : capacity.toNat ≤ 2 ^ k
  least : ∀ m < k, 2 ^ m < capacity.toNat

theorem width_pos {capacity : BitVec w} (h : ¬ capacity = 0) : 0 < w := by
  by_contra hw
  obtain rfl : w = 0 := by omega
  exact h (BitVec.eq_nil capacity)

theorem make_ok {capacity : BitVec w} {q : SPSCQueue T w} (h : SPSCQueue.make capacity = .ok q) :
    ∃ k, LeastPowerOfTwo capacity k ∧
      q = { capacity := BitVec.ofNat w (2 ^ k), mask := BitVec.ofNat w (2 ^ k) - 1,
            slots := fun _ => .raw, head := 0, tail := 0 } := by
  unfold SPSCQueue.make roundUpToPowerOfTwo at h
  by_cases hzero : capacity = 0
  · rw [if_pos hzero] at h
    cases h
  · rw [if_neg hzero] at h
    have hw := width_pos hzero
    rcases roundUp_spec capacity w hw (by omega) (by omega) with
      ⟨k, hk, hok, henough, hleast⟩ | ⟨_, e, he⟩
    · have hok' : roundUp capacity w 1 = .ok (BitVec.ofNat w (2 ^ k)) := hok
      rw [hok'] at h
      cases h
      exact ⟨k, ⟨hk, henough, hleast⟩, rfl⟩
    · have he' : roundUp capacity w 1 = .error e := he
      rw [he'] at h
      cases h

/-- The constructor accepts the requests that a power of two below `2^w` covers. -/
theorem make_accepts_iff (capacity : BitVec w) :
    (∃ q : SPSCQueue T w, SPSCQueue.make capacity = .ok q) ↔
      1 ≤ capacity.toNat ∧ capacity.toNat ≤ 2 ^ (w - 1) := by
  constructor
  · rintro ⟨q, hq⟩
    obtain ⟨k, hk, _⟩ := make_ok hq
    have hle : 2 ^ k ≤ 2 ^ (w - 1) := Nat.pow_le_pow_right (by omega) (by have := hk.fits; omega)
    refine ⟨?_, hk.enough.trans hle⟩
    by_contra hlt
    have hzero : capacity = 0 := BitVec.eq_of_toNat_eq (by simp; omega)
    unfold SPSCQueue.make roundUpToPowerOfTwo at hq
    rw [if_pos hzero] at hq
    cases hq
  · rintro ⟨hone, hmax⟩
    have hzero : capacity ≠ 0 := by
      rintro rfl
      simp at hone
    have hw := width_pos hzero
    unfold SPSCQueue.make roundUpToPowerOfTwo
    rw [if_neg hzero]
    rcases roundUp_spec capacity w hw (by omega) (by omega) with
      ⟨k, _, hok, _⟩ | ⟨hlarge, _⟩
    · have hok' : roundUp capacity w 1 = .ok (BitVec.ofNat w (2 ^ k)) := hok
      rw [hok']
      exact ⟨_, rfl⟩
    · omega

/-! ## The invariant -/

/-- What the slot of the oldest item holds while the consumer is popping it. -/
def consumerSlot : Consumer T w → T → Slot T
  | .moved _ _, _ => .movedFrom
  | .destroyed _ _, _ => .raw
  | _, v => .live v

/-- What the slot behind the newest item holds. -/
def producerSlot : Producer T w → Slot T
  | .built v _ => .live v
  | _ => .raw

/-- What the slot of counter `j` holds, `n` items having been popped. -/
def expected (pushed : List T) (n : Nat) (atHead : T → Slot T) (atTail : Slot T) (j : Nat) :
    Slot T :=
  match pushed[j]? with
  | some v => if j = n then atHead v else .live v
  | none => if j = pushed.length then atTail else .raw

/-- What the producer knows. Its own index cannot have moved; the consumer's can only have moved
on, so a slot once free stays free. -/
def ProducerInv (k : Nat) (s : State T w) : Prop :=
  match s.producer with
  | .tailLoaded _ tail => tail = s.queue.tail
  | .room _ tail => tail = s.queue.tail ∧ s.pushed.length < s.popped.length + 2 ^ k
  | .built _ tail => tail = s.queue.tail ∧ s.pushed.length < s.popped.length + 2 ^ k
  | .headSampled head =>
    ∃ c ≤ s.popped.length, head = BitVec.ofNat w c ∧ s.pushed.length ≤ c + 2 ^ k
  | .ready (.size n) => n.toNat ≤ 2 ^ k
  | _ => True

def ConsumerInv (k : Nat) (s : State T w) : Prop :=
  match s.consumer with
  | .headLoaded head => head = s.queue.head
  | .found head => head = s.queue.head ∧ s.popped.length < s.pushed.length
  | .moved v head => head = s.queue.head ∧ s.pushed[s.popped.length]? = some v
  | .destroyed v head => head = s.queue.head ∧ s.pushed[s.popped.length]? = some v
  | .headSampled head => head = s.queue.head
  | .ready (.size n) => n.toNat ≤ 2 ^ k
  | _ => True

structure Inv (k : Nat) (s : State T w) : Prop where
  capacity_eq : s.queue.capacity = BitVec.ofNat w (2 ^ k)
  mask_eq : s.queue.mask = BitVec.ofNat w (2 ^ k) - 1
  head_eq : s.queue.head = BitVec.ofNat w s.popped.length
  tail_eq : s.queue.tail = BitVec.ofNat w s.pushed.length
  inOrder : s.popped = s.pushed.take s.popped.length
  bounded : s.pushed.length ≤ s.popped.length + 2 ^ k
  producer : ProducerInv k s
  consumer : ConsumerInv k s
  slots : ∀ j, s.popped.length ≤ j → j < s.popped.length + 2 ^ k →
    s.queue.slots (slot w k j) =
      expected s.pushed s.popped.length (consumerSlot s.consumer) (producerSlot s.producer) j

section Expected

variable {pushed : List T} {n j : Nat} {f g : T → Slot T} {a b : Slot T} {v : T}

theorem expected_tail : expected pushed n f a pushed.length = a := by
  simp [expected]

theorem expected_head (hv : pushed[n]? = some v) : expected pushed n f a n = f v := by
  simp [expected, hv]

theorem expected_of_ne_tail (hj : j ≠ pushed.length) :
    expected pushed n f a j = expected pushed n f b j := by
  simp only [expected, if_neg hj]

theorem expected_of_ne_head (hj : j ≠ n) : expected pushed n f a j = expected pushed n g a j := by
  simp only [expected, if_neg hj]

/-- Storing the tail turns the object behind the newest item into the newest item. -/
theorem expected_push (hf : n = pushed.length → f v = .live v) :
    expected (pushed ++ [v]) n f .raw j = expected pushed n f (.live v) j := by
  unfold expected
  rcases Nat.lt_trichotomy j pushed.length with hj | rfl | hj
  · rw [List.getElem?_append_left hj, List.getElem?_eq_getElem hj]
  · simp only [List.getElem?_append_right (Nat.le_refl _), Nat.sub_self, List.getElem?_cons_zero,
      List.getElem?_eq_none (Nat.le_refl _), if_true]
    split
    · rename_i hlen
      exact hf hlen.symm
    · rfl
  · rw [List.getElem?_eq_none (by simp; omega), List.getElem?_eq_none (by omega)]
    simp only
    split
    · rw [if_neg (by omega)]
    · rw [if_neg (by omega)]

theorem expected_pop (hj : j ≠ n) :
    expected pushed (n + 1) Slot.live a j = expected pushed n f a j := by
  unfold expected
  split
  · rw [if_neg hj]
    split <;> rfl
  · rfl

end Expected

section Preservation

variable {k : Nat} {s s' : State T w}

theorem Inv.popped_le (h : Inv k s) : s.popped.length ≤ s.pushed.length := by
  have := congrArg List.length h.inOrder
  rw [List.length_take] at this
  omega

theorem Inv.slot_tail (h : Inv k s) : s.queue.tail &&& s.queue.mask = slot w k s.pushed.length := by
  rw [h.tail_eq, h.mask_eq, slot]

theorem Inv.slot_head (h : Inv k s) : s.queue.head &&& s.queue.mask = slot w k s.popped.length := by
  rw [h.head_eq, h.mask_eq, slot]

theorem inv_start {capacity : BitVec w} {queue : SPSCQueue T w}
    (h : SPSCQueue.make capacity = .ok queue) :
    ∃ k, LeastPowerOfTwo capacity k ∧ Inv k ({ queue } : State T w) := by
  obtain ⟨k, hk, rfl⟩ := make_ok h
  refine ⟨k, hk, rfl, rfl, rfl, rfl, rfl, Nat.zero_le _, trivial, trivial, fun j _ _ => ?_⟩
  show Slot.raw = expected [] 0 _ Slot.raw j
  unfold expected
  rw [List.getElem?_nil]
  simp

/-- A step that moves only the producer's program counter, and not past a construction. -/
theorem Inv.withProducer (h : Inv k s) {p : Producer T w}
    (hslot : producerSlot p = producerSlot s.producer)
    (hp : ProducerInv k { s with producer := p }) : Inv k { s with producer := p } where
  capacity_eq := h.capacity_eq
  mask_eq := h.mask_eq
  head_eq := h.head_eq
  tail_eq := h.tail_eq
  inOrder := h.inOrder
  bounded := h.bounded
  producer := hp
  consumer := h.consumer
  slots j hlo hhi := by
    rw [hslot]
    exact h.slots j hlo hhi

theorem Inv.withConsumer (h : Inv k s) {c : Consumer T w}
    (hslot : ∀ v, consumerSlot c v = consumerSlot s.consumer v)
    (hc : ConsumerInv k { s with consumer := c }) : Inv k { s with consumer := c } where
  capacity_eq := h.capacity_eq
  mask_eq := h.mask_eq
  head_eq := h.head_eq
  tail_eq := h.tail_eq
  inOrder := h.inOrder
  bounded := h.bounded
  producer := h.producer
  consumer := hc
  slots j hlo hhi := by
    have hfun : consumerSlot c = consumerSlot s.consumer := funext hslot
    rw [hfun]
    exact h.slots j hlo hhi

theorem full_iff (hk : k < w) (h : Inv k s) :
    s.queue.tail - s.queue.head = s.queue.capacity ↔
      s.pushed.length = s.popped.length + 2 ^ k := by
  have hle := h.popped_le
  have hb := h.bounded
  have hpow : 2 ^ k < 2 ^ w := Nat.pow_lt_pow_right (by omega) hk
  rw [h.tail_eq, h.head_eq, h.capacity_eq, ofNat_sub_ofNat hle, ofNat_inj_lt (by omega) hpow]
  omega

theorem empty_iff (hk : k < w) (h : Inv k s) :
    s.queue.head = s.queue.tail ↔ s.pushed.length = s.popped.length := by
  have hle := h.popped_le
  have hb := h.bounded
  have hpow : 2 ^ k < 2 ^ w := Nat.pow_lt_pow_right (by omega) hk
  rw [h.tail_eq, h.head_eq, ofNat_eq_iff hle (by omega)]
  omega

theorem size_le (hk : k < w) {c : Nat} (hc : c ≤ s.pushed.length) (hb : s.pushed.length ≤ c + 2 ^ k) :
    (BitVec.ofNat w s.pushed.length - BitVec.ofNat w c).toNat ≤ 2 ^ k := by
  have hpow : 2 ^ k < 2 ^ w := Nat.pow_lt_pow_right (by omega) hk
  rw [ofNat_sub_ofNat hc, BitVec.toNat_ofNat, Nat.mod_eq_of_lt (by omega)]
  omega

theorem callStep_inv (h : Inv k s) (hs : CallStep s s') : Inv k s' := by
  cases hs with
  | push v hr => exact h.withProducer (by rw [hr]; rfl) trivial
  | producerSize hr => exact h.withProducer (by rw [hr]; rfl) trivial
  | pop hr => exact h.withConsumer (by rw [hr]; exact fun _ => rfl) trivial
  | consumerSize hr => exact h.withConsumer (by rw [hr]; exact fun _ => rfl) trivial

theorem construct_inv (hk : k < w) (h : Inv k s) {v : T} {tail : BitVec w}
    (hp : s.producer = .room v tail) :
    Inv k { s with
      queue := s.queue.setSlot (tail &&& s.queue.mask) (.live v)
      producer := .built v tail } := by
  have hroom := h.producer
  simp only [ProducerInv, hp] at hroom
  obtain ⟨htail, hroom⟩ := hroom
  have hle := h.popped_le
  refine ⟨h.capacity_eq, h.mask_eq, h.head_eq, h.tail_eq, h.inOrder, h.bounded, ⟨htail, hroom⟩,
    h.consumer, fun j hlo hhi => ?_⟩
  show (if slot w k j = tail &&& s.queue.mask then Slot.live v else s.queue.slots (slot w k j)) = _
  rw [htail, h.slot_tail]
  by_cases hj : j = s.pushed.length
  · subst hj
    rw [if_pos rfl]
    exact expected_tail.symm
  · rw [if_neg (fun heq => hj ((slot_eq_iff hk ⟨hlo, hhi⟩ ⟨hle, hroom⟩).mp heq)), h.slots j hlo hhi]
    exact expected_of_ne_tail hj

theorem storeTail_inv (h : Inv k s) {v : T} {tail : BitVec w} (hp : s.producer = .built v tail) :
    Inv k { s with
      queue := { s.queue with tail := tail + 1 }
      producer := .ready (.pushed true)
      pushed := s.pushed ++ [v] } := by
  have hroom := h.producer
  simp only [ProducerInv, hp] at hroom
  obtain ⟨htail, hroom⟩ := hroom
  have hle := h.popped_le
  have hpops : ∀ x, s.pushed[s.popped.length]? = some x →
      (s.pushed ++ [v])[s.popped.length]? = some x := by
    intro x hx
    obtain ⟨hlt, _⟩ := List.getElem?_eq_some_iff.mp hx
    rw [List.getElem?_append_left hlt, hx]
  refine ⟨h.capacity_eq, h.mask_eq, h.head_eq, ?_, ?_, ?_, trivial, ?_, fun j hlo hhi => ?_⟩
  · show tail + 1 = BitVec.ofNat w (s.pushed ++ [v]).length
    rw [htail, h.tail_eq, ofNat_succ, List.length_append, List.length_singleton]
  · show s.popped = (s.pushed ++ [v]).take s.popped.length
    rw [List.take_append_of_le_length hle]
    exact h.inOrder
  · show (s.pushed ++ [v]).length ≤ s.popped.length + 2 ^ k
    rw [List.length_append, List.length_singleton]
    omega
  · have hc := h.consumer
    unfold ConsumerInv at hc ⊢
    dsimp only
    cases hcons : s.consumer with
    | found head =>
      rw [hcons] at hc
      exact ⟨hc.1, by rw [List.length_append]; exact Nat.lt_add_right _ hc.2⟩
    | moved x head => rw [hcons] at hc; exact ⟨hc.1, hpops x hc.2⟩
    | destroyed x head => rw [hcons] at hc; exact ⟨hc.1, hpops x hc.2⟩
    | ready reply =>
      rw [hcons] at hc
      cases reply with
      | size n => exact hc
      | _ => trivial
    | headLoaded head => rw [hcons] at hc; exact hc
    | headSampled head => rw [hcons] at hc; exact hc
    | _ => trivial
  · show s.queue.slots (slot w k j) = _
    rw [h.slots j hlo hhi, hp]
    refine (expected_push fun hn => ?_).symm
    have hc := h.consumer
    unfold ConsumerInv at hc
    cases hcons : s.consumer with
    | moved x head =>
      rw [hcons] at hc
      rw [hn] at hc
      simp at hc
    | destroyed x head =>
      rw [hcons] at hc
      rw [hn] at hc
      simp at hc
    | _ => rfl

theorem producerStep_inv (hk : k < w) (h : Inv k s) (hs : ProducerStep s s') : Inv k s' := by
  cases hs with
  | loadTail hp => exact h.withProducer (by rw [hp]; rfl) rfl
  | full hp _ => exact h.withProducer (by rw [hp]; rfl) trivial
  | notFull hp hne =>
    have htail := h.producer
    simp only [ProducerInv, hp] at htail
    subst htail
    refine h.withProducer (by rw [hp]; rfl) ⟨rfl, ?_⟩
    have := h.bounded
    have := mt (full_iff hk h).mpr hne
    show s.pushed.length < s.popped.length + 2 ^ k
    omega
  | construct hp => exact construct_inv hk h hp
  | constructThrows hp => exact h.withProducer (by rw [hp]; rfl) trivial
  | storeTail hp => exact storeTail_inv h hp
  | sampleHead hp => exact h.withProducer (by rw [hp]; rfl) ⟨_, Nat.le_refl _, h.head_eq, h.bounded⟩
  | sampleTail hp =>
    have hsampled := h.producer
    simp only [ProducerInv, hp] at hsampled
    obtain ⟨c, hc, rfl, hb⟩ := hsampled
    refine h.withProducer (by rw [hp]; rfl) ?_
    show (s.queue.tail - BitVec.ofNat w c).toNat ≤ 2 ^ k
    rw [h.tail_eq]
    exact size_le hk (hc.trans h.popped_le) hb

theorem found_live (h : Inv k s) {head : BitVec w} (hc : s.consumer = .found head) :
    ∃ v, s.pushed[s.popped.length]? = some v ∧
      s.queue.slots (head &&& s.queue.mask) = .live v := by
  have hfound := h.consumer
  simp only [ConsumerInv, hc] at hfound
  obtain ⟨rfl, hlt⟩ := hfound
  refine ⟨_, List.getElem?_eq_getElem hlt, ?_⟩
  have hpow := Nat.two_pow_pos k
  rw [h.slot_head, h.slots _ (Nat.le_refl _) (by omega),
    expected_head (List.getElem?_eq_getElem hlt), hc]
  rfl

theorem setHead_slots (hk : k < w) (h : Inv k s) {c : Consumer T w} {v : T} {x : Slot T}
    (hv : s.pushed[s.popped.length]? = some v) (hx : consumerSlot c v = x) (j : Nat)
    (hlo : s.popped.length ≤ j) (hhi : j < s.popped.length + 2 ^ k) :
    (s.queue.setSlot (slot w k s.popped.length) x).slots (slot w k j) =
      expected s.pushed s.popped.length (consumerSlot c) (producerSlot s.producer) j := by
  have hpow := Nat.two_pow_pos k
  show (if slot w k j = slot w k s.popped.length then x else s.queue.slots (slot w k j)) = _
  by_cases hj : j = s.popped.length
  · subst hj
    rw [if_pos rfl, expected_head hv, hx]
  · rw [if_neg (fun heq => hj ((slot_eq_iff hk ⟨hlo, hhi⟩ ⟨Nat.le_refl _, by omega⟩).mp heq)),
      h.slots j hlo hhi]
    exact expected_of_ne_head hj

/-- A pop changes the slot of the oldest item and where the consumer stands. -/
theorem setHead_inv (hk : k < w) (h : Inv k s) {v : T} {c : Consumer T w} {x : Slot T}
    (hv : s.pushed[s.popped.length]? = some v) (hx : consumerSlot c v = x)
    (hc : ConsumerInv k { s with
      queue := s.queue.setSlot (s.queue.head &&& s.queue.mask) x
      consumer := c }) :
    Inv k { s with
      queue := s.queue.setSlot (s.queue.head &&& s.queue.mask) x
      consumer := c } := by
  refine ⟨h.capacity_eq, h.mask_eq, h.head_eq, h.tail_eq, h.inOrder, h.bounded, h.producer, hc, ?_⟩
  rw [h.slot_head]
  exact setHead_slots hk h hv hx

theorem storeHead_inv (hk : k < w) (h : Inv k s) {v : T} {head : BitVec w}
    (hc : s.consumer = .destroyed v head) :
    Inv k { s with
      queue := { s.queue with head := head + 1 }
      consumer := .ready (.popped (some v))
      popped := s.popped ++ [v] } := by
  have hdestroyed := h.consumer
  simp only [ConsumerInv, hc] at hdestroyed
  obtain ⟨rfl, hv⟩ := hdestroyed
  obtain ⟨hlt, _⟩ := List.getElem?_eq_some_iff.mp hv
  have hlen : (s.popped ++ [v]).length = s.popped.length + 1 := by simp
  have hbounded := h.bounded
  have hpow := Nat.two_pow_pos k
  refine ⟨h.capacity_eq, h.mask_eq, ?_, h.tail_eq, ?_, ?_, ?_, trivial, fun j hlo hhi => ?_⟩
  · show s.queue.head + 1 = BitVec.ofNat w (s.popped ++ [v]).length
    rw [h.head_eq, ofNat_succ, hlen]
  · show s.popped ++ [v] = s.pushed.take (s.popped ++ [v]).length
    rw [hlen, List.take_add_one, hv, ← h.inOrder]
    rfl
  · show s.pushed.length ≤ (s.popped ++ [v]).length + 2 ^ k
    omega
  · have hp := h.producer
    unfold ProducerInv at hp ⊢
    dsimp only
    rw [hlen]
    cases hprod : s.producer with
    | tailLoaded x tail => rw [hprod] at hp; exact hp
    | room x tail => rw [hprod] at hp; exact ⟨hp.1, by omega⟩
    | built x tail => rw [hprod] at hp; exact ⟨hp.1, by omega⟩
    | headSampled head =>
      rw [hprod] at hp
      obtain ⟨c, hcle, heq, hb⟩ := hp
      exact ⟨c, by omega, heq, hb⟩
    | ready reply =>
      rw [hprod] at hp
      cases reply with
      | size n => exact hp
      | _ => trivial
    | _ => trivial
  · have hlo : s.popped.length + 1 ≤ j := hlen ▸ hlo
    have hhi : j < s.popped.length + 1 + 2 ^ k := hlen ▸ hhi
    show s.queue.slots (slot w k j) =
      expected s.pushed (s.popped ++ [v]).length Slot.live (producerSlot s.producer) j
    rw [hlen, expected_pop (f := consumerSlot s.consumer) (by omega)]
    by_cases hj : j < s.popped.length + 2 ^ k
    · exact h.slots j (by omega) hj
    · -- the slot that enters the window is the one just released
      obtain rfl : j = s.popped.length + 2 ^ k := by omega
      rw [slot_add hk, h.slots _ (Nat.le_refl _) (by omega), expected_head hv, hc]
      show Slot.raw = _
      unfold expected
      rw [List.getElem?_eq_none hbounded]
      dsimp only
      split
      · rename_i hfull
        have hp := h.producer
        unfold ProducerInv at hp
        cases hprod : s.producer with
        | built x tail =>
          rw [hprod] at hp
          have := hp.2
          omega
        | _ => rfl
      · rfl

theorem consumerStep_inv (hk : k < w) (h : Inv k s) (hs : ConsumerStep s s') : Inv k s' := by
  cases hs with
  | loadHead hc => exact h.withConsumer (by rw [hc]; exact fun _ => rfl) rfl
  | empty hc _ => exact h.withConsumer (by rw [hc]; exact fun _ => rfl) trivial
  | notEmpty hc hne =>
    have hhead := h.consumer
    simp only [ConsumerInv, hc] at hhead
    subst hhead
    refine h.withConsumer (by rw [hc]; exact fun _ => rfl) ⟨rfl, ?_⟩
    have := h.popped_le
    have := mt (empty_iff hk h).mpr hne
    show s.popped.length < s.pushed.length
    omega
  | move hc hlive =>
    obtain ⟨v, hv, hslot⟩ := found_live h hc
    rw [hslot] at hlive
    cases hlive
    have hfound := h.consumer
    simp only [ConsumerInv, hc] at hfound
    obtain ⟨rfl, _⟩ := hfound
    exact setHead_inv hk h hv rfl ⟨rfl, hv⟩
  | destroy hc =>
    have hmoved := h.consumer
    simp only [ConsumerInv, hc] at hmoved
    obtain ⟨rfl, hv⟩ := hmoved
    exact setHead_inv hk h hv rfl ⟨rfl, hv⟩
  | storeHead hc => exact storeHead_inv hk h hc
  | sampleHead hc => exact h.withConsumer (by rw [hc]; exact fun _ => rfl) rfl
  | sampleTail hc =>
    have hhead := h.consumer
    simp only [ConsumerInv, hc] at hhead
    subst hhead
    refine h.withConsumer (by rw [hc]; exact fun _ => rfl) ?_
    show (s.queue.tail - s.queue.head).toNat ≤ 2 ^ k
    rw [h.tail_eq, h.head_eq]
    exact size_le hk h.popped_le h.bounded

theorem producerStep_frame (hs : ProducerStep s s') :
    s'.consumer = s.consumer ∧ s'.popped = s.popped := by
  cases hs <;> exact ⟨rfl, rfl⟩

theorem consumerStep_frame (hs : ConsumerStep s s') :
    s'.producer = s.producer ∧ s'.pushed = s.pushed := by
  cases hs <;> exact ⟨rfl, rfl⟩

theorem step_inv (hk : k < w) (h : Inv k s) (hs : Step s s') : Inv k s' := by
  cases hs with
  | call hs => exact callStep_inv h hs
  | producer hs => exact producerStep_inv hk h hs
  | consumer hs => exact consumerStep_inv hk h hs

theorem reachable_inv {capacity : BitVec w} (h : Reachable capacity s) :
    ∃ k, LeastPowerOfTwo capacity k ∧ Inv k s := by
  induction h with
  | start hmake => exact inv_start hmake
  | next _ hstep ih =>
    obtain ⟨k, hk, hinv⟩ := ih
    exact ⟨k, hk, step_inv hk.fits hinv hstep⟩

end Preservation

/-! ## The destructor -/

/-- The destructor's loop over the counters from `lo` to `hi`. -/
theorem destroyLoop_spec {k lo hi fuel : Nat} (hk : k < w) (hle : lo ≤ hi) (hb : hi ≤ lo + 2 ^ k)
    (hfuel : hi ≤ lo + fuel) (slots : BitVec w → Slot T) :
    ∃ after, destroyLoop (BitVec.ofNat w (2 ^ k) - 1) (BitVec.ofNat w hi) slots fuel
        (BitVec.ofNat w lo) =
          some ((List.range' lo (hi - lo)).map fun j => slots (slot w k j), after) ∧
      (∀ j, lo ≤ j → j < hi → after (slot w k j) = .raw) ∧
      ∀ i, (∀ j, lo ≤ j → j < hi → i ≠ slot w k j) → after i = slots i := by
  have hpow : 2 ^ k < 2 ^ w := Nat.pow_lt_pow_right (by omega) hk
  induction fuel generalizing lo slots with
  | zero =>
    obtain rfl : lo = hi := by omega
    refine ⟨slots, ?_, fun j _ _ => by omega, fun i _ => rfl⟩
    rw [Nat.sub_self]
    exact if_pos rfl
  | succ fuel ih =>
    rcases hle.eq_or_lt with rfl | hlt
    · refine ⟨slots, ?_, fun j _ _ => by omega, fun i _ => rfl⟩
      rw [Nat.sub_self]
      exact if_pos rfl
    · have hne : BitVec.ofNat w lo ≠ BitVec.ofNat w hi :=
        fun heq => hlt.ne ((ofNat_eq_iff hle (by omega)).mp heq)
      let slots' : BitVec w → Slot T := fun j => if j = slot w k lo then .raw else slots j
      obtain ⟨after, hloop, hraw, hrest⟩ := ih (by omega : lo + 1 ≤ hi) (by omega) (by omega) slots'
      have hother : ∀ j, lo + 1 ≤ j → j < hi → slot w k j ≠ slot w k lo := fun j hlo hhi heq => by
        have hj : lo ≤ j ∧ j < lo + 2 ^ k := ⟨by omega, by omega⟩
        have := (slot_eq_iff hk hj ⟨by omega, by omega⟩).mp heq
        omega
      refine ⟨after, ?_, fun j hlo hhi => ?_, fun i hi => ?_⟩
      · have hmap : (List.range' (lo + 1) (hi - (lo + 1))).map (fun j => slots' (slot w k j)) =
            (List.range' (lo + 1) (hi - (lo + 1))).map fun j => slots (slot w k j) := by
          refine List.map_congr_left fun j hj => ?_
          rw [List.mem_range'_1] at hj
          exact if_neg (hother j (by omega) (by omega))
        have hrange : List.range' lo (hi - lo) = lo :: List.range' (lo + 1) (hi - (lo + 1)) := by
          rw [show hi - lo = hi - (lo + 1) + 1 by omega]
          rfl
        rw [destroyLoop, if_neg hne, ofNat_succ]
        show (destroyLoop _ _ slots' fuel _).map _ = _
        rw [hloop, hmap, hrange]
        rfl
      · rcases hlo.eq_or_lt with rfl | hlo
        · rw [hrest _ fun j hj hhi heq => hother j hj hhi heq.symm]
          exact if_pos rfl
        · exact hraw j hlo hhi
      · rw [hrest i fun j hj hhi => hi j (by omega) hhi]
        exact if_neg (hi lo (Nat.le_refl _) hlt)

section Quiescent

variable {k : Nat} {s : State T w} {r r' : Reply T w}

/-- Once both threads are done the destructor destroys the items still queued and leaves nothing. -/
theorem destroy_spec (hk : k < w) (h : Inv k s) (hp : s.producer = .ready r)
    (hc : s.consumer = .ready r') {fuel : Nat} (hfuel : 2 ^ k ≤ fuel) :
    ∃ after, s.queue.destroy fuel = some ((s.pushed.drop s.popped.length).map Slot.live, after) ∧
      ∀ i, after (i &&& s.queue.mask) = .raw := by
  have hle := h.popped_le
  have hb := h.bounded
  obtain ⟨after, hloop, hraw, hrest⟩ :=
    destroyLoop_spec hk hle hb (by omega : _ ≤ s.popped.length + fuel) s.queue.slots
  refine ⟨after, ?_, fun i => ?_⟩
  · unfold SPSCQueue.destroy
    rw [h.mask_eq, h.tail_eq, h.head_eq, hloop]
    congr 2
    refine List.ext_getElem (by simp) fun j hj _ => ?_
    have hj : j < s.pushed.length - s.popped.length := by simpa using hj
    have hget : s.pushed[s.popped.length + j]? =
        some (s.pushed.get ⟨s.popped.length + j, by omega⟩) :=
      List.getElem?_eq_getElem (by omega)
    rw [List.getElem_map, List.getElem_range', Nat.one_mul,
      h.slots _ (by omega) (by omega), expected, hget, hc]
    show (if _ then Slot.live _ else Slot.live _) = _
    rw [ite_self]
    simp
  · rw [h.mask_eq]
    obtain ⟨j, hlo, hhi, heq⟩ := exists_slot_eq hk s.popped.length i
    rw [heq]
    by_cases hj : j < s.pushed.length
    · exact hraw j hlo hj
    · rw [hrest _ fun j' hlo' hhi' heq' => ?_, h.slots j hlo hhi, expected,
        List.getElem?_eq_none (by omega), hp]
      · show (if j = s.pushed.length then Slot.raw else Slot.raw) = Slot.raw
        rw [ite_self]
      · have := (slot_eq_iff hk ⟨hlo, hhi⟩ ⟨hlo', by omega⟩).mp heq'
        omega

end Quiescent

/-! ## The bounded FIFO -/

/-- A FIFO of at most `bound` items. -/
inductive FifoStep (bound : Nat) : List T → List T → Prop where
  | stay (items : List T) : FifoStep bound items items
  | push {items : List T} (v : T) : items.length < bound → FifoStep bound items (items ++ [v])
  | pop (v : T) (items : List T) : FifoStep bound (v :: items) items

/-- The items pushed and not yet popped, oldest first. -/
def contents (s : State T w) : List T := s.pushed.drop s.popped.length

section Refinement

variable {k : Nat} {s s' : State T w}

theorem contents_length (s : State T w) :
    (contents s).length = s.pushed.length - s.popped.length := List.length_drop

theorem contents_head (s : State T w) : (contents s).head? = s.pushed[s.popped.length]? := by
  rw [contents, List.head?_drop]

theorem step_refines (h : Inv k s) (hs : Step s s') :
    FifoStep (2 ^ k) (contents s) (contents s') := by
  have hle := h.popped_le
  cases hs with
  | call hs => cases hs <;> exact .stay _
  | producer hs =>
    cases hs with
    | storeTail hp =>
      rename_i v tail
      have hroom := h.producer
      simp only [ProducerInv, hp] at hroom
      have : contents { s with
          queue := { s.queue with tail := tail + 1 }
          producer := .ready (.pushed true)
          pushed := s.pushed ++ [v] } = contents s ++ [v] :=
        List.drop_append_of_le_length hle
      rw [this]
      refine .push v ?_
      rw [contents_length]
      omega
    | _ => exact .stay _
  | consumer hs =>
    cases hs with
    | storeHead hc =>
      rename_i head v
      have hdestroyed := h.consumer
      simp only [ConsumerInv, hc] at hdestroyed
      obtain ⟨hlt, hv⟩ := List.getElem?_eq_some_iff.mp hdestroyed.2
      have : contents s = v :: s.pushed.drop (s.popped ++ [v]).length := by
        rw [contents, List.drop_eq_getElem_cons hlt, hv, List.length_append, List.length_singleton]
      rw [this]
      exact .pop v _
    | _ => exact .stay _

end Refinement

/-- What the queue of requested capacity `capacity` is in state `s`. -/
structure BoundedFifo (capacity : BitVec w) (s : State T w) : Prop where
  capacity_least : ∃ k, LeastPowerOfTwo capacity k ∧ s.queue.capacity.toNat = 2 ^ k
  in_order : s.popped <+: s.pushed
  bounded : (contents s).length ≤ s.queue.capacity.toNat
  refines : ∀ s', Step s s' → FifoStep s.queue.capacity.toNat (contents s) (contents s')
  push_fails_iff : ∀ v tail, s.producer = .tailLoaded v tail →
    (tail - s.queue.head = s.queue.capacity ↔ (contents s).length = s.queue.capacity.toNat)
  pop_fails_iff : ∀ head, s.consumer = .headLoaded head →
    (head = s.queue.tail ↔ contents s = [])
  stored : ∀ j v, 0 < j → (contents s)[j]? = some v →
    s.queue.slots ((s.queue.head + BitVec.ofNat w j) &&& s.queue.mask) = .live v
  constructs_on_raw : ∀ v tail, s.producer = .room v tail →
    s.queue.slots (tail &&& s.queue.mask) = .raw
  moves_oldest : ∀ head, s.consumer = .found head →
    ∃ v, (contents s).head? = some v ∧ s.queue.slots (head &&& s.queue.mask) = .live v
  destroys_moved : ∀ v head, s.consumer = .moved v head →
    (contents s).head? = some v ∧ s.queue.slots (head &&& s.queue.mask) = .movedFrom
  destructor : ∀ r r' fuel, s.producer = .ready r → s.consumer = .ready r' →
    s.queue.capacity.toNat ≤ fuel →
    ∃ after, s.queue.destroy fuel = some ((contents s).map .live, after) ∧
      ∀ i, after (i &&& s.queue.mask) = .raw
  size_in_range : ∀ n, s.producer = .ready (.size n) ∨ s.consumer = .ready (.size n) →
    n.toNat ≤ s.queue.capacity.toNat

theorem inv_boundedFifo {capacity : BitVec w} {k : Nat} {s : State T w}
    (hk : LeastPowerOfTwo capacity k) (h : Inv k s) : BoundedFifo capacity s := by
  have hle := h.popped_le
  have hb := h.bounded
  have hpow : 2 ^ k < 2 ^ w := Nat.pow_lt_pow_right (by omega) hk.fits
  have hpos := Nat.two_pow_pos k
  have hcap : s.queue.capacity.toNat = 2 ^ k := by
    rw [h.capacity_eq, BitVec.toNat_ofNat, Nat.mod_eq_of_lt hpow]
  have hlen := contents_length s
  constructor
  · exact ⟨k, hk, hcap⟩
  · rw [h.inOrder]
    exact List.take_prefix _ _
  · omega
  · rw [hcap]
    exact fun s' => step_refines h
  · intro v tail hp
    have htail := h.producer
    simp only [ProducerInv, hp] at htail
    rw [htail, full_iff hk.fits h, hcap]
    omega
  · intro head hc
    have hhead := h.consumer
    simp only [ConsumerInv, hc] at hhead
    rw [hhead, empty_iff hk.fits h, ← List.length_eq_zero_iff]
    omega
  · intro j v hj hv
    have hget : s.pushed[s.popped.length + j]? = some v := by
      rwa [contents, List.getElem?_drop] at hv
    obtain ⟨hlt, _⟩ := List.getElem?_eq_some_iff.mp hget
    rw [h.head_eq, h.mask_eq, ← BitVec.ofNat_add]
    show s.queue.slots (slot w k (s.popped.length + j)) = _
    rw [h.slots _ (by omega) (by omega), expected, hget]
    exact if_neg (by omega)
  · intro v tail hp
    have hroom := h.producer
    simp only [ProducerInv, hp] at hroom
    rw [hroom.1, h.slot_tail, h.slots _ hle hroom.2, expected_tail, hp]
    rfl
  · intro head hc
    rw [contents_head]
    exact found_live h hc
  · intro v head hc
    have hmoved := h.consumer
    simp only [ConsumerInv, hc] at hmoved
    rw [contents_head, hmoved.1, h.slot_head, h.slots _ (Nat.le_refl _) (by omega),
      expected_head hmoved.2, hc]
    exact ⟨hmoved.2, rfl⟩
  · intro r r' fuel hp hc hfuel
    exact destroy_spec hk.fits h hp hc (by omega)
  · intro n hn
    rw [hcap]
    rcases hn with hp | hc
    · have := h.producer
      simpa only [ProducerInv, hp] using this
    · have := h.consumer
      simpa only [ConsumerInv, hc] using this

/-- Every state of every interleaving. -/
theorem spsc_bounded_fifo {capacity : BitVec w} {s : State T w} (h : Reachable capacity s) :
    BoundedFifo capacity s := by
  obtain ⟨k, hk, hinv⟩ := reachable_inv h
  exact inv_boundedFifo hk hinv

/-- Request 3, so capacity 4: one push of 7, and a pop that has reached the object. -/
theorem spsc_bounded_fifo_popping :
    ∃ s : State Nat 8, s.pushed = [7] ∧ s.consumer = .found 0 ∧ BoundedFifo 3 s := by
  have hmake : (SPSCQueue.make 3 : Except Error (SPSCQueue Nat 8)) =
      .ok ⟨4, 3, fun _ => .raw, 0, 0⟩ := rfl
  have hcalled := Reachable.next (.start hmake) (.call (.push 7 rfl))
  have hloaded := Reachable.next hcalled (.producer (.loadTail rfl))
  have hroom := Reachable.next hloaded (.producer (.notFull rfl (by decide)))
  have hbuilt := Reachable.next hroom (.producer (.construct rfl))
  have hpushed := Reachable.next hbuilt (.producer (.storeTail rfl))
  have hpopping := Reachable.next hpushed (.call (.pop rfl))
  have hhead := Reachable.next hpopping (.consumer (.loadHead rfl))
  have hfound := Reachable.next hhead (.consumer (.notEmpty rfl (by decide)))
  exact ⟨_, rfl, rfl, spsc_bounded_fifo hfound⟩

end Queue
end PerpCarry
