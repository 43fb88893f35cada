import PerpCarry.Models.CalibrationDataset

/-!
# Models.SamplerSteps

What a pass of the sampling loop does, and what every pass keeps.

* `pop_some`, `lookAhead_ok`, `replay_ok`, `sample_ok`, `take_cases`: each step, inverted.
* `loop_invariant`: a property of the groups taken and of the variables that every pass keeps holds
  when the loop ends, and by then every group has been taken.
* `Kept`, `take_kept`: the batches given to the pipeline and the batch in hand are the events of the
  groups taken, in order. The order of the timestamps does not matter here.
* `sampled_kept`: when `sample_rows` returns, every event has gone through the pipeline once.
-/

namespace PerpCarry
namespace Models
namespace Calibration

open Impact
open Pipeline (BookRow updatesFromBatch updatesFromBatch_ok Threads)
open Strategy (bind_ok pure_ok)

/-! ## Events and groups -/

/-- If the generator just ends, all the batches have been read. -/
theorem updates_ok {batches : List (List BookRow)} (h : (updates batches).raised = none) :
    updatesFromBatch batches.flatten = .ok (updates batches).items := by
  induction batches with
  | nil => rfl
  | cons batch batches ih =>
    unfold updates at h ⊢
    split at h
    · cases h
    · rename_i events hbatch
      obtain ⟨hsided, rfl⟩ := updatesFromBatch_ok.mp hbatch
      obtain ⟨hrest, hitems⟩ := updatesFromBatch_ok.mp (ih h)
      rw [List.flatten_cons]
      refine updatesFromBatch_ok.mpr ⟨?_, ?_⟩
      · intro row hrow
        rcases List.mem_append.mp hrow with hrow | hrow
        · exact hsided row hrow
        · exact hrest row hrow
      · rw [List.map_append, ← hitems]

section Steps

variable {w : Nat} {platform : Platform w} {args : Arguments} {s s' : Sampling w} {group : Group}

/-- However the files are cut into batches, their rows come in order. -/
theorem batches_flatten (files : List (List (List BookRow))) :
    (files.flatMap (platform.iterBatches args.config.batchSize)).flatten = files.flatten.flatten := by
  induction files with
  | nil => rfl
  | cons file files ih =>
    rw [List.flatMap_cons, List.flatten_append, List.flatten_cons, List.flatten_append, ih,
      platform.iterBatches_flatten _ _ args.config.positive.2.2.1]

/-- If the groups just end, all the rows have been read, and the groups are those of the day. -/
theorem groups_ok {files : List (List (List BookRow))}
    (h : (groups platform args files).raised = none) :
    ∃ events, updatesFromBatch files.flatten.flatten = .ok events ∧
      (groups platform args files).items = Lib.groups BookUpdate.timestamp events := by
  unfold groups groupby at h ⊢
  split at h
  · rename_i hraised
    have hevents := updates_ok hraised
    rw [batches_flatten] at hevents
    exact ⟨_, hevents, rfl⟩
  · cases h

/-! ## One pass -/

/-- The groups that the loop has still to take. -/
def Sampling.upcoming (s : Sampling w) : List Group := s.pending ++ s.groups.items

theorem pop_none (h : s.pop = .ok none) : s.upcoming = [] ∧ s.groups.raised = none := by
  unfold Sampling.pop Generator.next at h
  split at h
  · cases h
  · rename_i hpending
    split at h
    · cases h
    · rename_i hnext
      split at hnext
      · cases hnext
      · cases hnext
      · rename_i hgroups
        unfold Sampling.upcoming
        rw [hpending, hgroups]
        exact ⟨rfl, rfl⟩
    · cases h

theorem pop_some (h : s.pop = .ok (some (group, s'))) :
    s.upcoming = group :: s'.upcoming ∧
      s' = { s with pending := s'.pending, groups := { s.groups with items := s'.groups.items } } := by
  unfold Sampling.pop Generator.next at h
  unfold Sampling.upcoming
  split at h
  · rename_i hpending
    cases h
    rw [hpending]
    exact ⟨rfl, rfl⟩
  · rename_i hpending
    split at h
    · cases h
    · cases h
    · rename_i hnext
      cases h
      split at hnext
      · rename_i hgroups
        cases hnext
        rw [hpending, hgroups]
        exact ⟨rfl, rfl⟩
      · cases hnext
      · cases hnext

/-- Groups only move from the generator to `pending`, until one beyond `last` is there or none is
left. -/
theorem lookAhead_ok {last : Int} {raised : Option SampleError}
    {pending groups pending' groups' : List Group}
    (h : lookAhead last raised pending groups = .ok (pending', groups')) :
    pending' ++ groups' = pending ++ groups ∧ (groups' = [] ∨ ∃ g ∈ pending', last < g.1) := by
  induction groups generalizing pending with
  | nil =>
    unfold lookAhead at h
    split at h
    · cases h
      exact ⟨rfl, .inl rfl⟩
    · split at h
      · cases h
      · cases h
        exact ⟨rfl, .inl rfl⟩
  | cons group groups ih =>
    unfold lookAhead at h
    split at h
    · rename_i hbeyond
      cases h
      obtain ⟨g, hg, hlast⟩ := (Option.any_eq_true ..).mp hbeyond
      exact ⟨rfl, .inr ⟨g, List.mem_of_getLast? hg, of_decide_eq_true hlast⟩⟩
    · obtain ⟨hsame, hbeyond⟩ := ih h
      refine ⟨?_, hbeyond⟩
      rw [hsame, List.append_assoc]
      rfl

theorem replay_ok (h : s.replay platform args = .ok s') :
    ∃ pipeline, s.pipeline.run platform.threads s.replayBatch = .ok pipeline ∧
      s' = { s with
        pipeline
        replayBatch := []
        threshold := (s.applied / args.config.sampleEvery + 1) * args.config.sampleEvery } := by
  unfold Sampling.replay at h
  obtain ⟨pipeline, hrun, h⟩ := bind_ok.mp h
  exact ⟨pipeline, lift_ok.mp hrun, (pure_ok.mp h).symm⟩

/-- The events of the groups read ahead that an execution starting now can see. -/
def futureEvents (last : Int) (pending : List Group) : List BookUpdate :=
  (pending.filter (·.1 ≤ last)).flatMap Prod.snd

theorem sample_ok {timestamp : Int} (h : s.sample platform args timestamp = .ok s') :
    ∃ pending items rows,
      lookAhead (args.lastSlice timestamp) s.groups.raised s.pending s.groups.items =
        .ok (pending, items) ∧
      instantRows platform args s.pipeline.replayer.book
        (simulateSlicedExecutionFromState platform.rnd s.pipeline.replayer
          (futureEvents (args.lastSlice timestamp) pending) args.config.side)
        timestamp s.applied = .ok rows ∧
      s' = { s with groups := { s.groups with items }, pending, rows := s.rows ++ rows } := by
  unfold Sampling.sample at h
  obtain ⟨⟨pending, items⟩, hahead, h⟩ := bind_ok.mp h
  obtain ⟨rows, hrows, h⟩ := bind_ok.mp h
  exact ⟨pending, items, rows, hahead, lift_ok.mp hrows, (pure_ok.mp h).symm⟩

/-- Not yet at the grid point; or replayed, and too late in the day; or replayed and sampled. -/
theorem take_cases (h : s.take platform args group = .ok s') :
    ((s.read group).applied < s.threshold ∧ s' = s.read group) ∨
      s.threshold ≤ (s.read group).applied ∧ ∃ t, (s.read group).replay platform args = .ok t ∧
        ((args.endOfDay ≤ args.lastSlice group.1 ∧ s' = t) ∨
          args.lastSlice group.1 < args.endOfDay ∧ t.sample platform args group.1 = .ok s') := by
  unfold Sampling.take at h
  dsimp only at h
  split at h
  · rename_i hbefore
    cases h
    exact .inl ⟨hbefore, rfl⟩
  · rename_i hreached
    have hreached : s.threshold ≤ (s.read group).applied := Nat.le_of_not_lt hreached
    split at h
    · cases h
    · rename_i t hreplay
      refine .inr ⟨hreached, t, hreplay, ?_⟩
      split at h
      · rename_i hlate
        cases h
        exact .inl ⟨hlate, rfl⟩
      · rename_i hearly
        exact .inr ⟨by omega, h⟩

/-- Beyond the group it is given a pass takes none. -/
theorem take_upcoming (h : s.take platform args group = .ok s') :
    s'.upcoming = s.upcoming ∧ s'.groups.raised = s.groups.raised := by
  rcases take_cases h with ⟨_, rfl⟩ | ⟨_, t, hreplay, hrest⟩
  · exact ⟨rfl, rfl⟩
  · obtain ⟨_, _, rfl⟩ := replay_ok hreplay
    rcases hrest with ⟨_, rfl⟩ | ⟨_, hsample⟩
    · exact ⟨rfl, rfl⟩
    · obtain ⟨pending, items, rows, hahead, _, rfl⟩ := sample_ok hsample
      exact ⟨(lookAhead_ok hahead).1, rfl⟩

/-! ## The loop -/

theorem loop_invariant (Holds : List Group → Sampling w → Prop)
    (keep : ∀ done s group t s', Holds done s → s.pop = .ok (some (group, t)) →
      t.take platform args group = .ok s' → Holds (done ++ [group]) s')
    {fuel : Nat} {done : List Group} (hs : Holds done s) (hfuel : s.upcoming.length < fuel)
    (h : loop platform args fuel s = .ok s') :
    Holds (done ++ s.upcoming) s' ∧ s.groups.raised = none := by
  induction fuel generalizing s done with
  | zero => omega
  | succ fuel ih =>
    unfold loop at h
    split at h
    · cases h
    · rename_i hpop
      cases h
      obtain ⟨hupcoming, hraised⟩ := pop_none hpop
      rw [hupcoming, List.append_nil]
      exact ⟨hs, hraised⟩
    · rename_i group t hpop
      split at h
      · cases h
      · rename_i s₁ htake
        obtain ⟨hupcoming, ht⟩ := pop_some hpop
        obtain ⟨hsame, hraised⟩ := take_upcoming htake
        rw [hupcoming, List.length_cons] at hfuel
        obtain ⟨hholds, hnone⟩ := ih (keep _ _ _ _ _ hs hpop htake) (by rw [hsame]; omega) h
        rw [hsame, List.append_assoc] at hholds
        rw [hraised, ht] at hnone
        rw [hupcoming]
        exact ⟨hholds, hnone⟩

/-! ## Nothing lost, nothing twice -/

/-- The groups `done` have been taken. Their events are those of the batches the pipeline has been
given and of the batch in hand, and the replayer is where the former lead. -/
structure Kept (all done : List Group) (s : Sampling w) : Prop where
  upcoming : done ++ s.upcoming = all
  applied : s.applied = (done.flatMap Prod.snd).length
  batch : s.pipeline.batches.flatten ++ s.replayBatch = done.flatMap Prod.snd
  state : ({} : BookReplayer).applyRows s.pipeline.batches.flatten = .ok () s.pipeline.replayer

section Keeping

variable {all done : List Group} {pipeline : Pipeline w}

/-- A batch that the pipeline has replayed. -/
theorem run_state {threads : Threads w} {p p' : Pipeline w} {batch : List BookUpdate}
    (hstate : ({} : BookReplayer).applyRows p.batches.flatten = .ok () p.replayer)
    (h : p.run threads batch = .ok p') :
    p'.batches.flatten = p.batches.flatten ++ batch ∧
      ({} : BookReplayer).applyRows p'.batches.flatten = .ok () p'.replayer := by
  obtain ⟨hrows, hbatches⟩ := Pipeline.run_ok h
  have hflatten : p'.batches.flatten = p.batches.flatten ++ batch := by
    rw [hbatches, List.flatten_append, List.flatten_singleton]
  refine ⟨hflatten, ?_⟩
  rw [hflatten, BookReplayer.applyRows_append, hstate]
  exact hrows

theorem read_kept (h : Kept all done s) (hpop : s.pop = .ok (some (group, s'))) :
    Kept all (done ++ [group]) (s'.read group) := by
  obtain ⟨hupcoming, hs'⟩ := pop_some hpop
  constructor
  · show (done ++ [group]) ++ s'.upcoming = all
    rw [List.append_assoc, List.singleton_append, ← hupcoming]
    exact h.upcoming
  · show s'.applied + group.2.length = _
    rw [hs', List.flatMap_append, List.length_append, ← h.applied]
    simp
  · show s'.pipeline.batches.flatten ++ (s'.replayBatch ++ group.2) = _
    rw [hs', ← List.append_assoc, List.flatMap_append, ← h.batch]
    simp
  · show ({} : BookReplayer).applyRows s'.pipeline.batches.flatten = .ok () s'.pipeline.replayer
    rw [hs']
    exact h.state

/-- The batch in hand moves to those replayed. -/
theorem replay_kept (h : Kept all done s) (hreplay : s.replay platform args = .ok s') :
    Kept all done s' ∧
      ({} : BookReplayer).applyRows (done.flatMap Prod.snd) = .ok () s'.pipeline.replayer := by
  obtain ⟨pipeline, hrun, rfl⟩ := replay_ok hreplay
  obtain ⟨hflatten, hstate⟩ := run_state h.state hrun
  have hbatch : pipeline.batches.flatten = done.flatMap Prod.snd := by
    rw [hflatten]
    exact h.batch
  refine ⟨⟨h.upcoming, h.applied, ?_, hstate⟩, ?_⟩
  · show pipeline.batches.flatten ++ [] = _
    rw [List.append_nil]
    exact hbatch
  · rw [← hbatch]
    exact hstate

/-- Reading ahead takes nothing from the main replay. -/
theorem sample_kept {timestamp : Int} (h : Kept all done s)
    (hsample : s.sample platform args timestamp = .ok s') : Kept all done s' := by
  obtain ⟨pending, items, rows, hahead, _, rfl⟩ := sample_ok hsample
  refine ⟨?_, h.applied, h.batch, h.state⟩
  show done ++ (pending ++ items) = all
  rw [(lookAhead_ok hahead).1]
  exact h.upcoming

theorem take_kept {t : Sampling w} (h : Kept all done s) (hpop : s.pop = .ok (some (group, t)))
    (htake : t.take platform args group = .ok s') : Kept all (done ++ [group]) s' := by
  have hread := read_kept h hpop
  rcases take_cases htake with ⟨_, rfl⟩ | ⟨_, t₁, hreplay, hrest⟩
  · exact hread
  · have hreplayed := (replay_kept hread hreplay).1
    rcases hrest with ⟨_, rfl⟩ | ⟨_, hsample⟩
    · exact hreplayed
    · exact sample_kept hreplayed hsample

end Keeping

/-! ## The end -/

theorem finish_ok (h : s.finish platform = .ok s') :
    s'.rows = s.rows ∧ s'.applied = s.applied ∧
      (s'.pipeline = s.pipeline ∧ s.replayBatch = [] ∨
        s.pipeline.run platform.threads s.replayBatch = .ok s'.pipeline) := by
  unfold Sampling.finish at h
  split at h
  · cases h
  · obtain ⟨pipeline, hpipeline, h⟩ := bind_ok.mp h
    split at h
    · cases h
      refine ⟨rfl, rfl, ?_⟩
      split at hpipeline
      · rename_i hempty
        cases hpipeline
        exact .inl ⟨rfl, List.isEmpty_iff.mp hempty⟩
      · exact .inr (lift_ok.mp hpipeline)
    · cases h

/-- The loop's first state. -/
def start (args : Arguments) (groups : Generator Group) (pipeline : Pipeline w) : Sampling w :=
  { groups, pipeline, threshold := args.config.sampleEvery }

theorem sampled_ok {files : List (List (List BookRow))} (h : sampled platform args files = .ok s') :
    ∃ pipeline s, (pipeline.replayer = {} ∧ pipeline.batches = []) ∧
      loop platform args ((groups platform args files).items.length + 1)
        (start args (groups platform args files) pipeline) = .ok s ∧
      s.finish platform = .ok s' := by
  unfold sampled makePipeline at h
  obtain ⟨pipeline, hmake, h⟩ := bind_ok.mp h
  obtain ⟨s, hloop, hfinish⟩ := bind_ok.mp h
  split at hmake
  · cases hmake
    exact ⟨_, s, ⟨rfl, rfl⟩, hloop, hfinish⟩
  · cases hmake

theorem start_kept {groups : Generator Group} {pipeline : Pipeline w}
    (hnew : pipeline.replayer = {} ∧ pipeline.batches = []) :
    Kept groups.items [] (start args groups pipeline) := by
  obtain ⟨hreplayer, hbatches⟩ := hnew
  refine ⟨rfl, rfl, ?_, ?_⟩
  · show pipeline.batches.flatten ++ [] = []
    rw [hbatches]
    rfl
  · show ({} : BookReplayer).applyRows pipeline.batches.flatten = .ok () pipeline.replayer
    rw [hbatches, hreplayer]
    rfl

/-- When the function returns, every event has been given to the pipeline once and in order. -/
structure Replayed (events : List BookUpdate) (s : Sampling w) : Prop where
  once : s.pipeline.batches.flatten = events
  state : ({} : BookReplayer).applyRows events = .ok () s.pipeline.replayer
  counted : s.applied = events.length

theorem finish_replayed {all : List Group} (h : Kept all all s)
    (hfinish : s.finish platform = .ok s') : Replayed (all.flatMap Prod.snd) s' := by
  obtain ⟨_, hcounted, hended⟩ := finish_ok hfinish
  have happlied : s'.applied = (all.flatMap Prod.snd).length := hcounted.trans h.applied
  rcases hended with ⟨hpipeline, hempty⟩ | hrun
  · have hbatch : s'.pipeline.batches.flatten = all.flatMap Prod.snd := by
      rw [hpipeline, ← h.batch, hempty, List.append_nil]
    refine ⟨hbatch, ?_, happlied⟩
    rw [← hbatch, hpipeline]
    exact h.state
  · obtain ⟨hflatten, hstate⟩ := run_state h.state hrun
    have hbatch : s'.pipeline.batches.flatten = all.flatMap Prod.snd := hflatten.trans h.batch
    refine ⟨hbatch, ?_, happlied⟩
    rw [← hbatch]
    exact hstate

theorem sampled_kept {files : List (List (List BookRow))}
    (h : sampled platform args files = .ok s') :
    ∃ events, updatesFromBatch files.flatten.flatten = .ok events ∧
      (groups platform args files).items = Lib.groups BookUpdate.timestamp events ∧
      Replayed events s' := by
  obtain ⟨pipeline, s, hnew, hloop, hfinish⟩ := sampled_ok h
  obtain ⟨hkept, hraised⟩ := loop_invariant (Kept (groups platform args files).items)
    (fun _ _ _ _ _ hs hpop htake => take_kept hs hpop htake) (start_kept hnew)
    (Nat.lt_succ_self _) hloop
  obtain ⟨events, hevents, hgroups⟩ := groups_ok hraised
  have hreplayed := finish_replayed hkept hfinish
  rw [hgroups, Lib.groups_flatMap] at hreplayed
  exact ⟨events, hevents, hgroups, hreplayed⟩

end Steps

end Calibration
end Models
end PerpCarry
