import PerpCarry.Impact.Checkpoint
import PerpCarry.Lib.KeyCut
import PerpCarry.Models.SamplerSteps

/-!
# Models.SamplerReference

The streamed sampler against the whole day.

`referenceRows` has all the events at hand. It finds the instants by counting the events before and
through each group, replays from nothing up to each instant, and executes over the complete stream.

* `execute_ahead`: execution on what has been read ahead is execution on the day.
* `Matches`, `take_matches`: the rows so far are those of the reference for the groups taken.
* `sampleRows_reference`: so are all the rows, and every event has been replayed once.
-/

namespace PerpCarry
namespace Models
namespace Calibration

open Impact
open Pipeline (BookRow updatesFromBatch Threads)
open Strategy (bind_ok pure_ok)

/-! ## The reference -/

/-- The end of a group, with the number of events before the group and through it. -/
structure Instant where
  timestamp : Int
  before : Nat
  through : Nat
  deriving DecidableEq

/-- `n` events come before the groups. -/
def instants : Nat → List Group → List Instant
  | _, [] => []
  | n, group :: groups =>
    ⟨group.1, n, n + group.2.length⟩ :: instants (n + group.2.length) groups

/-- The group passes a grid point, and the last slice lies within the day. -/
def Instant.Sampled (args : Arguments) (i : Instant) : Prop :=
  i.before / args.config.sampleEvery < i.through / args.config.sampleEvery ∧
    args.lastSlice i.timestamp < args.endOfDay

instance (args : Arguments) (i : Instant) : Decidable (i.Sampled args) := by
  unfold Instant.Sampled; infer_instance

/-- The replay of events from nothing. -/
def fromScratch (events : List BookUpdate) : Except Error BookReplayer :=
  match ({} : BookReplayer).applyRows events with
  | .ok () r => .ok r
  | .error e _ => .error e

section Reference

variable {w : Nat} (platform : Platform w) (args : Arguments) (events : List BookUpdate)

def referenceAt (i : Instant) : Except Error (List Row) := do
  let replayer ← fromScratch (events.filter (·.timestamp ≤ i.timestamp))
  instantRows platform args replayer.book
    (simulateSlicedExecution platform.rnd events args.config.side) i.timestamp i.through

def referenceOver (is : List Instant) : Except Error (List Row) :=
  ((is.filter (·.Sampled args)).mapM (referenceAt platform args events)).map List.flatten

def referenceRows : Except Error (List Row) :=
  referenceOver platform args events (instants 0 (Lib.groups BookUpdate.timestamp events))

end Reference

theorem instants_append (n : Nat) (groups : List Group) (group : Group) :
    instants n (groups ++ [group]) = instants n groups ++
      [⟨group.1, n + (groups.flatMap Prod.snd).length,
        n + (groups.flatMap Prod.snd).length + group.2.length⟩] := by
  induction groups generalizing n with
  | nil => rfl
  | cons g groups ih =>
    simp only [List.cons_append, instants, ih, List.flatMap_cons, List.length_append,
      Nat.add_assoc]

/-- A grid point lies in `(a, b]` when the next one after `a` is not beyond `b`. -/
theorem passes_iff {a b every : Nat} (h : 1 ≤ every) :
    (a / every + 1) * every ≤ b ↔ a / every < b / every := by
  rw [← Nat.le_div_iff_mul_le (by omega)]
  exact Nat.succ_le_iff

section Matching

variable {w : Nat} {platform : Platform w} {args : Arguments} {events : List BookUpdate}
  {s s' : Sampling w} {group : Group} {all done : List Group}

theorem referenceOver_skip {is : List Instant} {i : Instant} (h : ¬ i.Sampled args) :
    referenceOver platform args events (is ++ [i]) = referenceOver platform args events is := by
  unfold referenceOver
  rw [List.filter_append, List.filter_cons_of_neg (by simpa using h)]
  simp

theorem referenceOver_sampled {is : List Instant} {i : Instant} {rows more : List Row}
    (h : i.Sampled args) (hrows : referenceOver platform args events is = .ok rows)
    (hmore : referenceAt platform args events i = .ok more) :
    referenceOver platform args events (is ++ [i]) = .ok (rows ++ more) := by
  unfold referenceOver at hrows ⊢
  rw [List.filter_append, List.filter_cons_of_pos (by simpa using h), List.filter_nil,
    List.mapM_append]
  cases hblocks : (is.filter (·.Sampled args)).mapM (referenceAt platform args events) with
  | error e =>
    rw [hblocks] at hrows
    cases hrows
  | ok blocks =>
    rw [hblocks] at hrows
    cases hrows
    have hone : [i].mapM (referenceAt platform args events) = .ok [more] := by
      rw [List.mapM_cons, hmore]
      rfl
    rw [hone]
    show Except.ok (blocks ++ [more]).flatten = _
    rw [List.flatten_append, List.flatten_singleton]

/-! ## Execution on what has been read ahead -/

theorem lastSlice_eq (timestamp : Int) :
    sliceTime (args.sliceSchedule timestamp) (args.config.slices - 1) = args.lastSlice timestamp := by
  have hnonneg : 0 ≤ args.config.durationMs * ((args.config.slices - 1 : Nat) : Int) :=
    Int.mul_nonneg args.config.sized.2 (Int.natCast_nonneg _)
  show timestamp + (args.config.durationMs * _).tdiv args.config.slices = _
  rw [Int.tdiv_eq_ediv_of_nonneg hnonneg]
  rfl

/-- What a sequence of groups with increasing timestamps is: the groups of their events. -/
structure Ordered (groups : List Group) : Prop where
  key : ∀ g ∈ groups, ∀ u ∈ g.2, u.timestamp = g.1
  increasing : groups.Pairwise fun g g' => g.1 < g'.1

theorem ordered_groups (h : events.Pairwise fun u v => u.timestamp ≤ v.timestamp) :
    Ordered (Lib.groups BookUpdate.timestamp events) :=
  ⟨fun _ hg => (Lib.groups_key hg).2, Lib.groups_increasing h⟩

variable {ahead : List Group}

/-- The events up to a group's timestamp are those of the groups through it. -/
theorem Ordered.through (h : Ordered (done ++ group :: ahead)) :
    (((done ++ group :: ahead).flatMap Prod.snd).filter (·.timestamp ≤ group.1)) =
      (done ++ [group]).flatMap Prod.snd := by
  have hsplit : done ++ group :: ahead = (done ++ [group]) ++ ahead := by simp
  have hbefore : ∀ g ∈ done ++ [group], g.1 ≤ group.1 := by
    intro g hg
    rcases List.mem_append.mp hg with hg | hg
    · exact ((List.pairwise_append.mp h.increasing).2.2 g hg group (List.mem_cons_self ..)).le
    · rw [List.mem_singleton.mp hg]
  have hafter : ∀ g ∈ ahead, group.1 < g.1 :=
    (List.pairwise_cons.mp (List.pairwise_append.mp h.increasing).2.1).1
  rw [← Lib.flatMap_filter h.key fun t => t ≤ group.1, hsplit, List.filter_append]
  have hkept : (done ++ [group]).filter (fun g => decide (g.1 ≤ group.1)) = done ++ [group] :=
    List.filter_eq_self.mpr fun g hg => decide_eq_true (hbefore g hg)
  have hnone : ahead.filter (fun g => decide (g.1 ≤ group.1)) = [] := by
    refine List.filter_eq_nil_iff.mpr ?_
    intro g hg
    have := hafter g hg
    simpa using this
  rw [hkept, hnone, List.append_nil]

/-- All that an execution can see has been read: the groups left behind lie beyond its end. -/
theorem futureEvents_eq {last : Int} {raised : Option SampleError}
    {pending groups pending' groups' : List Group} (h : Ordered (pending ++ groups))
    (hahead : lookAhead last raised pending groups = .ok (pending', groups')) :
    futureEvents last pending' =
      ((pending ++ groups).flatMap Prod.snd).filter (·.timestamp ≤ last) := by
  obtain ⟨hsame, hbeyond⟩ := lookAhead_ok hahead
  rw [← hsame] at h ⊢
  have hnone : groups'.filter (fun g => decide (g.1 ≤ last)) = [] := by
    refine List.filter_eq_nil_iff.mpr ?_
    intro g' hg'
    rcases hbeyond with rfl | ⟨g, hg, hlast⟩
    · cases hg'
    · have := (List.pairwise_append.mp h.increasing).2.2 g hg g' hg'
      simp only [decide_eq_true_eq]
      omega
  rw [← Lib.flatMap_filter h.key fun t => t ≤ last, List.filter_append, hnone, List.append_nil]
  rfl

/-- Execution from the instant on what has been read ahead is execution on the day. -/
theorem execute_ahead (hordered : Ordered (done ++ group :: ahead))
    (hsorted : ((done ++ group :: ahead).flatMap Prod.snd).Pairwise fun u v =>
      u.timestamp ≤ v.timestamp) {r : BookReplayer}
    (hr : ({} : BookReplayer).applyRows ((done ++ [group]).flatMap Prod.snd) = .ok () r)
    (rnd : Rounding) (side : OrderSide) (quantity : Double) :
    simulateSlicedExecutionFromState rnd r
        ((ahead.flatMap Prod.snd).filter (·.timestamp ≤ args.lastSlice group.1)) side quantity
        (args.sliceSchedule group.1) =
      simulateSlicedExecution rnd ((done ++ group :: ahead).flatMap Prod.snd) side quantity
        (args.sliceSchedule group.1) := by
  have hsplit : (done ++ group :: ahead).flatMap Prod.snd =
      (done ++ [group]).flatMap Prod.snd ++ ahead.flatMap Prod.snd := by simp
  have hthrough : ∀ u ∈ (done ++ [group]).flatMap Prod.snd, u.timestamp ≤ group.1 := by
    intro u hu
    rw [← hordered.through] at hu
    simpa using (List.mem_filter.mp hu).2
  have hlater : Lib.Nondecreasing BookUpdate.timestamp (ahead.flatMap Prod.snd) := by
    rw [hsplit] at hsorted
    exact (List.pairwise_append.mp hsorted).2.1
  have hcut := hlater.upTo_append_after (k := args.lastSlice group.1)
  have hbeyond : BeginsAfter (sliceTime (args.sliceSchedule group.1) (args.config.slices - 1))
      ((ahead.flatMap Prod.snd).filter fun u => args.lastSlice group.1 < u.timestamp) := by
    intro u hu
    rw [lastSlice_eq]
    simpa using (List.mem_filter.mp (List.mem_of_mem_head? hu)).2
  have hslices : 0 < (args.sliceSchedule group.1).slices := args.config.positive.2.1
  rw [hsplit, simulate_resumed hr hthrough]
  nth_rewrite 2 [← hcut]
  exact (simulate_horizon hslices hbeyond).symm

theorem instantRows_congr {book : OrderBook}
    {execute execute' : Double → SliceSchedule → Except Error SlicedFill} {timestamp : Int}
    {applied : Nat}
    (h : ∀ quantity, execute quantity (args.sliceSchedule timestamp) =
      execute' quantity (args.sliceSchedule timestamp)) :
    instantRows platform args book execute timestamp applied =
      instantRows platform args book execute' timestamp applied := by
  unfold instantRows
  have hsame : fractionRows platform args book execute timestamp applied =
      fractionRows platform args book execute' timestamp applied := by
    funext fraction
    unfold fractionRows
    simp only [h]
  rw [hsame]

/-! ## The rows so far -/

/-- For the groups `done` the rows are those of the reference, and the threshold is the next grid
point. -/
structure Matches (platform : Platform w) (args : Arguments) (events : List BookUpdate)
    (done : List Group) (s : Sampling w) : Prop where
  threshold : s.threshold = (s.applied / args.config.sampleEvery + 1) * args.config.sampleEvery
  rows : referenceOver platform args events (instants 0 done) = .ok s.rows

/-- A sampled instant has the rows of the reference. -/
theorem sample_reference (hordered : Ordered all)
    (hsorted : (all.flatMap Prod.snd).Pairwise fun u v => u.timestamp ≤ v.timestamp)
    (hkept : Kept all (done ++ [group]) s)
    (hr : ({} : BookReplayer).applyRows ((done ++ [group]).flatMap Prod.snd) =
      .ok () s.pipeline.replayer)
    (hsample : s.sample platform args group.1 = .ok s') (before : Nat) :
    s'.applied = s.applied ∧ s'.threshold = s.threshold ∧ ∃ rows, s'.rows = s.rows ++ rows ∧
      referenceAt platform args (all.flatMap Prod.snd) ⟨group.1, before, s.applied⟩ = .ok rows := by
  obtain ⟨pending, items, rows, hahead, hrows, rfl⟩ := sample_ok hsample
  refine ⟨rfl, rfl, rows, rfl, ?_⟩
  have hall : all = done ++ group :: s.upcoming := by
    rw [← hkept.upcoming]
    simp
  rw [hall] at hordered hsorted ⊢
  have hupcoming : Ordered (s.pending ++ s.groups.items) :=
    ⟨fun g hg => hordered.key g (List.mem_append_right _ (List.mem_cons_of_mem _ hg)),
      (List.pairwise_cons.mp (List.pairwise_append.mp hordered.increasing).2.1).2⟩
  rw [futureEvents_eq hupcoming hahead] at hrows
  rw [← hrows]
  unfold referenceAt fromScratch
  rw [hordered.through, hr]
  exact instantRows_congr fun quantity => (execute_ahead hordered hsorted hr _ _ quantity).symm

theorem take_matches (hordered : Ordered all)
    (hsorted : (all.flatMap Prod.snd).Pairwise fun u v => u.timestamp ≤ v.timestamp)
    (hkept : Kept all done s) (h : Matches platform args (all.flatMap Prod.snd) done s)
    {t : Sampling w} (hpop : s.pop = .ok (some (group, t)))
    (htake : t.take platform args group = .ok s') :
    Matches platform args (all.flatMap Prod.snd) (done ++ [group]) s' := by
  obtain ⟨_, ht⟩ := pop_some hpop
  have hread := read_kept hkept hpop
  have hevery := args.config.positive.1
  have hthreshold : t.threshold =
      (s.applied / args.config.sampleEvery + 1) * args.config.sampleEvery := by
    rw [ht]
    exact h.threshold
  have hthrough : (t.read group).applied = s.applied + group.2.length := by
    rw [ht]
    rfl
  have hrows : (t.read group).rows = s.rows := by
    rw [ht]
    rfl
  have hinstants : instants 0 (done ++ [group]) =
      instants 0 done ++ [⟨group.1, s.applied, (t.read group).applied⟩] := by
    rw [instants_append, hthrough, hkept.applied, Nat.zero_add]
  rcases take_cases htake with ⟨hbefore, rfl⟩ | ⟨hreached, t₁, hreplay, hrest⟩
  · -- the grid point after `s.applied` has not been reached, so it is the next one still
    rw [hthreshold] at hbefore
    have hnot := mt (passes_iff hevery).mpr (Nat.not_le.mpr hbefore)
    have hle : s.applied / args.config.sampleEvery ≤
        (t.read group).applied / args.config.sampleEvery :=
      Nat.div_le_div_right (by omega)
    refine ⟨?_, ?_⟩
    · show t.threshold = _
      rw [hthreshold, Nat.le_antisymm hle (Nat.le_of_not_lt hnot)]
    · rw [hinstants, referenceOver_skip fun hsampled => hnot hsampled.1, hrows]
      exact h.rows
  · rw [hthreshold, passes_iff hevery] at hreached
    obtain ⟨hkept₁, hr⟩ := replay_kept hread hreplay
    obtain ⟨pipeline, _, ht₁⟩ := replay_ok hreplay
    have hthreshold₁ : t₁.threshold =
        (t₁.applied / args.config.sampleEvery + 1) * args.config.sampleEvery := by
      rw [ht₁]
    have hrows₁ : t₁.rows = s.rows := by
      rw [ht₁]
      exact hrows
    have happlied₁ : t₁.applied = (t.read group).applied := by rw [ht₁]
    rcases hrest with ⟨hlate, rfl⟩ | ⟨hearly, hsample⟩
    · refine ⟨hthreshold₁, ?_⟩
      have hskip : ¬ Instant.Sampled args ⟨group.1, s.applied, (t.read group).applied⟩ := by
        intro hsampled
        have : args.lastSlice group.1 < args.endOfDay := hsampled.2
        omega
      rw [hinstants, referenceOver_skip hskip, hrows₁]
      exact h.rows
    · obtain ⟨happlied, hsame, rows, hs', hreference⟩ :=
        sample_reference hordered hsorted hkept₁ hr hsample s.applied
      refine ⟨?_, ?_⟩
      · rw [hsame, happlied]
        exact hthreshold₁
      · rw [happlied₁] at hreference
        rw [hinstants, hs', hrows₁]
        exact referenceOver_sampled ⟨hreached, hearly⟩ h.rows hreference

/-! ## Reading the rows -/

/-- What a traversal appends comes from an element, and nothing of an element's list is left out. -/
theorem flatten_mapM {α β ε : Type} {f : α → Except ε (List β)} {xs : List α} {ys : List β}
    (h : (xs.mapM f).map List.flatten = .ok ys) :
    (∀ y ∈ ys, ∃ x ∈ xs, ∃ zs, f x = .ok zs ∧ y ∈ zs) ∧
      ∀ x ∈ xs, ∃ zs, f x = .ok zs ∧ ∀ z ∈ zs, z ∈ ys := by
  induction xs generalizing ys with
  | nil =>
    cases h
    exact ⟨(fun _ h => nomatch h), fun _ h => nomatch h⟩
  | cons x xs ih =>
    rw [List.mapM_cons] at h
    cases hx : f x with
    | error e =>
      rw [hx] at h
      cases h
    | ok zs =>
      cases hxs : xs.mapM f with
      | error e =>
        rw [hx, hxs] at h
        cases h
      | ok zss =>
        rw [hx, hxs] at h
        have hrest : (xs.mapM f).map List.flatten = .ok zss.flatten := by
          rw [hxs]
          rfl
        obtain ⟨hfrom, hall⟩ := ih hrest
        have hys : ys = zs ++ zss.flatten := (Except.ok.inj h).symm
        subst hys
        refine ⟨?_, ?_⟩
        · intro y hy
          rcases List.mem_append.mp hy with hy | hy
          · exact ⟨x, List.mem_cons_self .., zs, hx, hy⟩
          · obtain ⟨x', hx', zs', hzs', hy'⟩ := hfrom y hy
            exact ⟨x', List.mem_cons_of_mem _ hx', zs', hzs', hy'⟩
        · intro x' hx'
          rcases List.mem_cons.mp hx' with rfl | hx'
          · exact ⟨zs, hx, fun z hz => List.mem_append_left _ hz⟩
          · obtain ⟨zs', hzs', hsub⟩ := hall x' hx'
            exact ⟨zs', hzs', fun z hz => List.mem_append_right _ (hsub z hz)⟩

/-- The fill of a row, `book` being the book at the instant and `execute` the sliced execution. -/
structure Row.Filled (platform : Platform w) (args : Arguments) (book : OrderBook)
    (execute : Double → SliceSchedule → Except Error SlicedFill) (row : Row) : Prop where
  static : row.schedule = .static →
    simulateMarketOrder platform.rnd book args.config.side
      (row.advFraction.mul platform.rnd args.adv) = .ok row.fill
  sliced : row.schedule = .sliced → ∃ fill : SlicedFill,
    execute (row.advFraction.mul platform.rnd args.adv) (args.sliceSchedule row.timestamp) =
      .ok fill ∧
    row.fill = fill.parent ∧ row.slicesExhausted = fill.slicesExhausted ∧
      row.slicesBeyondValidatedDepth = fill.slicesBeyondValidatedDepth ∧
      row.slicesCrossed = fill.slicesCrossed

theorem instantRows_ok {book : OrderBook}
    {execute : Double → SliceSchedule → Except Error SlicedFill} {timestamp : Int} {applied : Nat}
    {rows : List Row} (h : instantRows platform args book execute timestamp applied = .ok rows) :
    rows ≠ [] ∧ ∀ row ∈ rows, row.timestamp = timestamp ∧ row.eventCount = applied ∧
      row.Filled platform args book execute := by
  obtain ⟨hfrom, hall⟩ := flatten_mapM h
  refine ⟨?_, ?_⟩
  · have hlength : (fractions platform args).length = args.config.sizeCount := by
      simp [fractions, platform.geomspace_length]
    obtain ⟨fraction, hfraction⟩ : ∃ fraction, fraction ∈ fractions platform args := by
      refine List.exists_mem_of_ne_nil _ ?_
      intro hnil
      have := args.config.sized.1
      rw [hnil, List.length_nil] at hlength
      omega
    obtain ⟨zs, hzs, hsub⟩ := hall fraction hfraction
    obtain ⟨static, _, hzs⟩ := bind_ok.mp hzs
    obtain ⟨sliced, _, hzs⟩ := bind_ok.mp hzs
    cases hzs
    exact List.ne_nil_of_mem (hsub _ (List.mem_cons_self ..))
  · intro row hrow
    obtain ⟨fraction, _, zs, hzs, hmem⟩ := hfrom row hrow
    obtain ⟨static, hstatic, hzs⟩ := bind_ok.mp hzs
    obtain ⟨sliced, hsliced, hzs⟩ := bind_ok.mp hzs
    cases hzs
    rcases List.mem_cons.mp hmem with rfl | hmem
    · exact ⟨rfl, rfl, fun _ => hstatic, nofun⟩
    · rw [List.mem_singleton.mp hmem]
      exact ⟨rfl, rfl, nofun, fun _ => ⟨sliced, hsliced, rfl, rfl, rfl, rfl⟩⟩

/-! ## The sampler and the reference -/

/-- What a returned frame, and the variables at that moment, have to do with the day's events. -/
structure EqualsReference (platform : Platform w) (args : Arguments) (events : List BookUpdate)
    (frame : Frame) (s : Sampling w) : Prop where
  rows : referenceRows platform args events = .ok frame.rows
  instants : ∀ t, (∃ row ∈ frame.rows, row.timestamp = t) ↔
    ∃ i ∈ instants 0 (Lib.groups BookUpdate.timestamp events), i.Sampled args ∧ i.timestamp = t
  fills : ∀ row ∈ frame.rows, ∃ r : BookReplayer,
    ({} : BookReplayer).applyRows (events.filter (·.timestamp ≤ row.timestamp)) = .ok () r ∧
      row.Filled platform args r.book
        (simulateSlicedExecution platform.rnd events args.config.side)
  replayed : Replayed events s
  counted : frame.eventsProcessed = events.length

theorem fromScratch_ok {rows : List BookUpdate} {r : BookReplayer} (h : fromScratch rows = .ok r) :
    ({} : BookReplayer).applyRows rows = .ok () r := by
  unfold fromScratch at h
  split at h
  · rename_i hrows
    cases h
    exact hrows
  · cases h

theorem referenceRows_ok {rows : List Row} (h : referenceRows platform args events = .ok rows) :
    (∀ t, (∃ row ∈ rows, row.timestamp = t) ↔
      ∃ i ∈ instants 0 (Lib.groups BookUpdate.timestamp events), i.Sampled args ∧ i.timestamp = t) ∧
    ∀ row ∈ rows, ∃ r : BookReplayer,
      ({} : BookReplayer).applyRows (events.filter (·.timestamp ≤ row.timestamp)) = .ok () r ∧
        row.Filled platform args r.book
          (simulateSlicedExecution platform.rnd events args.config.side) := by
  obtain ⟨hfrom, hall⟩ := flatten_mapM h
  refine ⟨?_, ?_⟩
  · intro t
    constructor
    · rintro ⟨row, hrow, rfl⟩
      obtain ⟨i, hi, block, hblock, hmem⟩ := hfrom row hrow
      obtain ⟨hi, hsampled⟩ := List.mem_filter.mp hi
      obtain ⟨r, _, hblock⟩ := bind_ok.mp hblock
      exact ⟨i, hi, of_decide_eq_true hsampled, ((instantRows_ok hblock).2 row hmem).1.symm⟩
    · rintro ⟨i, hi, hsampled, rfl⟩
      obtain ⟨block, hblock, hsub⟩ := hall i (List.mem_filter.mpr ⟨hi, decide_eq_true hsampled⟩)
      obtain ⟨r, _, hblock⟩ := bind_ok.mp hblock
      obtain ⟨hne, hrows⟩ := instantRows_ok hblock
      obtain ⟨row, hrow⟩ := List.exists_mem_of_ne_nil _ hne
      exact ⟨row, hsub row hrow, (hrows row hrow).1⟩
  · intro row hrow
    obtain ⟨i, _, block, hblock, hmem⟩ := hfrom row hrow
    obtain ⟨r, hr, hblock⟩ := bind_ok.mp hblock
    obtain ⟨htimestamp, _, hfilled⟩ := (instantRows_ok hblock).2 row hmem
    refine ⟨r, ?_, hfilled⟩
    rw [htimestamp]
    exact fromScratch_ok hr

theorem start_matches {groups : Generator Group} {pipeline : Pipeline w} :
    Matches platform args events [] (start args groups pipeline) := by
  refine ⟨?_, rfl⟩
  show args.config.sampleEvery = (0 / args.config.sampleEvery + 1) * args.config.sampleEvery
  rw [Nat.zero_div, Nat.zero_add, Nat.one_mul]

theorem sampled_reference {files : List (List (List BookRow))}
    (h : sampled platform args files = .ok s')
    (hgroups : (groups platform args files).items = Lib.groups BookUpdate.timestamp events)
    (hsorted : events.Pairwise fun u v => u.timestamp ≤ v.timestamp) :
    referenceRows platform args events = .ok s'.rows := by
  obtain ⟨pipeline, s, hnew, hloop, hfinish⟩ := sampled_ok h
  have hflatMap : (groups platform args files).items.flatMap Prod.snd = events := by
    rw [hgroups]
    exact Lib.groups_flatMap _ _
  have hordered : Ordered (groups platform args files).items := by
    rw [hgroups]
    exact ordered_groups hsorted
  subst hflatMap
  obtain ⟨⟨_, hmatches⟩, _⟩ := loop_invariant
    (fun done s => Kept (groups platform args files).items done s ∧
      Matches platform args ((groups platform args files).items.flatMap Prod.snd) done s)
    (fun _ _ _ _ _ hs hpop htake => ⟨take_kept hs.1 hpop htake,
      take_matches hordered hsorted hs.1 hs.2 hpop htake⟩)
    ⟨start_kept hnew, start_matches⟩ (Nat.lt_succ_self _) hloop
  obtain ⟨hrows, _⟩ := finish_ok hfinish
  rw [hrows]
  unfold referenceRows
  rw [← hgroups]
  exact hmatches.rows

/-- A day's files, however they are cut, and a call that returns. -/
theorem sampleRows_reference {files : List (List (List BookRow))} {frame : Frame}
    (h : sampleRows platform args files = .ok frame) :
    ∃ (events : List BookUpdate) (s : Sampling w),
      updatesFromBatch files.flatten.flatten = .ok events ∧
      (events.Pairwise fun u v => u.timestamp ≤ v.timestamp) ∧
      sampled platform args files = .ok s ∧ EqualsReference platform args events frame s := by
  unfold sampleRows at h
  cases hs : sampled platform args files with
  | error e =>
    rw [hs] at h
    cases h
  | ok s =>
    rw [hs] at h
    cases h
    obtain ⟨events, hevents, hgroups, hreplayed⟩ := sampled_kept hs
    have hsorted := (BookReplayer.applyRows_forwards hreplayed.state).1
    have hrows := sampled_reference hs hgroups hsorted
    obtain ⟨hinstants, hfills⟩ := referenceRows_ok hrows
    exact ⟨events, s, hevents, hsorted, rfl, hrows, hinstants, hfills, hreplayed, hreplayed.counted⟩

end Matching

/-! ## Instants whose look-ahead overlaps -/

/-- Exact arithmetic, threads that take turns, batches that cross row groups. -/
def inTurn : Platform 64 where
  rnd := exact
  threads := Threads.inTurn 64
  geomspace lo hi n := (List.range n).map fun k => if k = 0 then lo else hi
  geomspace_length _ _ n := by simp
  iterBatches size file := Lib.chunks size file.flatten
  iterBatches_flatten _ file h := Lib.chunks_flatten h file.flatten

def bookRow (timestamp : Int) (isSnapshot : Bool) (side : String) (price quantity : ℚ) :
    BookRow where
  exchange := "binance-futures"
  timestamp := timestamp
  localTimestamp := timestamp + 1
  latencyUs := 1000
  isSnapshot := isSnapshot
  side := side
  price := .finite price
  quantity := .finite quantity

/-- Groups of three, one, one, two, three and one events. The last but one comes too late. -/
def overlapping : List (List (List BookRow)) := [
  [[bookRow 1000 true "bid" 99 100, bookRow 1000 true "ask" 101 10],
   [bookRow 1000 true "ask" 102 50, bookRow 1004 false "ask" 101 4]],
  [[bookRow 1006 false "ask" 101 2, bookRow 1020 false "bid" 99 90, bookRow 1020 false "ask" 101 8,
    bookRow 86399990 false "bid" 99 70, bookRow 86399990 false "bid" 98 70,
    bookRow 86399990 false "bid" 97 70, bookRow 86399999 false "bid" 96 70]]]

def everyThird : Arguments where
  symbol := "BTCUSDT"
  day := ⟨"1970-01-01", 0⟩
  adv := .finite 100
  config :=
    { sampleEvery := 3, sizeCount := 2, minAdvFraction := .finite (1 / 100),
      maxAdvFraction := .finite (1 / 10), durationMs := 60, slices := 2, batchSize := 2,
      queueCapacity := 1, increasing := by decide +kernel }

/-- The first instant reads past the second, which is then sampled from what is pending. -/
theorem sampleRows_reference_overlapping :
    ∃ (frame : Frame) (events : List BookUpdate) (s : Sampling 64),
      frame.rows.map (fun row => (row.timestamp, row.eventCount)) =
        List.replicate 4 (1000, 3) ++ List.replicate 4 (1020, 7) ∧
      EqualsReference inTurn everyThird events frame s := by
  have hrun : (sampleRows inTurn everyThird overlapping).toOption.any (fun frame =>
      decide (frame.rows.map (fun row => (row.timestamp, row.eventCount)) =
        List.replicate 4 (1000, 3) ++ List.replicate 4 (1020, 7))) = true := by
    decide +kernel
  cases hframe : sampleRows inTurn everyThird overlapping with
  | error e =>
    rw [hframe] at hrun
    cases hrun
  | ok frame =>
    rw [hframe] at hrun
    obtain ⟨events, s, _, _, _, hequals⟩ := sampleRows_reference hframe
    exact ⟨frame, events, s, of_decide_eq_true hrun, hequals⟩

end Calibration
end Models
end PerpCarry
