import PerpCarry.Book.Meaning
import PerpCarry.Tools.MergeLoop

/-!
# Tools.MergeTotals

What the merge loop saw of each image, and what the summary adds up from it.

`visits` is the loop over the images with the sampling left out: it keeps of each pass the image,
the events of its millisecond and the replayer whose book was compared. `tally` is what a pass adds
to a summary.

* `validateImages_visits`: the loop is the fold of `tally` over its visits, whatever is sampled.
* `visits_pairings`: a visited image is paired as the files alone say, and compared with the book of
  the events up to it.
* `validate_totals`: the totals of a summary, and that they do not depend on the samples.
-/

namespace PerpCarry
namespace Tools

open Lib

/-- A pass of the loop over the images: what the comparison was made with. -/
structure Visit where
  image : ReferenceImage
  group : Nat
  replayer : BookReplayer

def visits (rnd : Rounding) : Nat → ReferenceStream → EventStream → BookReplayer →
    Except Fault (List Visit × EventStream × BookReplayer)
  | 0, _, stream, replayer => .ok ([], stream, replayer)
  | fuel + 1, images, stream, replayer =>
    match images.next rnd with
    | .error f => .error f
    | .ok none => .ok ([], stream, replayer)
    | .ok (some (image, images')) =>
      match applyWhile rnd (fun u => u.timestamp < image.timestamp) stream.left stream
          replayer with
      | .error f => .error f
      | .ok (before, earlier, _) =>
        match applyWhile rnd (fun u => u.timestamp = image.timestamp) before.left before
            earlier with
        | .error f => .error f
        | .ok (stream', replayer', group) =>
          (visits rnd fuel images' stream' replayer').map fun r =>
            (⟨image, group, replayer'⟩ :: r.1, r.2)

/-- The visits of a run over the two files. -/
def mergeVisits (rnd : Rounding) (events reference : List Char) :
    Except Fault (List Visit × EventStream × BookReplayer) :=
  match EventStream.make rnd events with
  | .error f => .error f
  | .ok stream =>
    match ReferenceStream.make rnd reference with
    | .error f => .error f
    | .ok images => visits rnd images.left images stream {}

def Visit.diff (depth : Nat) (visit : Visit) : BookDiff :=
  compareTopN visit.replayer.book visit.image.bids visit.image.asks depth

namespace ValidationSummary

/-- A summary without its samples. -/
def core (summary : ValidationSummary) : ValidationSummary :=
  { summary with
    sampleMismatchTimestamps := []
    sampleAmbiguousTimestamps := []
    sampleCleanTimestamps := [] }

def tally (depth : Nat) (summary : ValidationSummary) (visit : Visit) : ValidationSummary :=
  let summary := { summary with
    images := summary.images + 1
    referenceRows := summary.referenceRows + visit.image.rows }
  if visit.group = 0 then { summary with orphanImages := summary.orphanImages + 1 }
  else if 1 < visit.group then
    let summary := { summary with ambiguousImages := summary.ambiguousImages + 1 }
    if (visit.diff depth).isEmpty then summary
    else { summary with ambiguousMismatches := summary.ambiguousMismatches + 1 }
  else
    let summary := { summary with unambiguousImages := summary.unambiguousImages + 1 }
    if (visit.diff depth).isEmpty then summary
    else (visit.diff depth).foldl countKind
      { summary with unambiguousMismatches := summary.unambiguousMismatches + 1 }

theorem countKind_core (summary : ValidationSummary) (level : LevelDiff) :
    summary.core.countKind level = (summary.countKind level).core := by
  unfold countKind
  cases level.kind <;> rfl

theorem foldl_countKind_core (diff : BookDiff) (summary : ValidationSummary) :
    (diff.foldl countKind summary).core = diff.foldl countKind summary.core :=
  (List.foldl_hom core countKind_core).symm

end ValidationSummary

section Sampling

variable {rnd : Rounding} {options : ValidationOptions}

open ValidationSummary

/-- The samples see the counters, and not the other way round. -/
theorem classify_core (options : ValidationOptions) (image : ReferenceImage) (hasMore : Bool)
    (group : Nat) (replayer : BookReplayer) (v : Validation) (summary : ValidationSummary)
    (hv : v.summary = { summary with
      images := summary.images + 1
      referenceRows := summary.referenceRows + image.rows }) :
    (classify options image hasMore group
        (compareTopN replayer.book image.bids image.asks options.depth) v).summary.core =
      tally options.depth summary.core ⟨image, group, replayer⟩ := by
  obtain ⟨samples, hclean, _, _⟩ := sampleClean_eq options image hasMore v
  unfold classify tally
  dsimp only
  split
  · rw [hv]
    rfl
  · split
    · unfold countAmbiguous Visit.diff
      dsimp only
      rw [hclean, hv]
      split
      · rfl
      · rfl
    · unfold countUnambiguous Visit.diff
      dsimp only
      rw [hclean, hv]
      split
      · rfl
      · exact foldl_countKind_core _ _

theorem validateImages_visits (rnd : Rounding) (options : ValidationOptions) (fuel : Nat)
    (images : ReferenceStream) (v : Validation) :
    (validateImages rnd options fuel images v).map
        (fun v' => (v'.summary.core, v'.stream, v'.replayer)) =
      (visits rnd fuel images v.stream v.replayer).map
        fun r => (r.1.foldl (tally options.depth) v.summary.core, r.2) := by
  induction fuel generalizing images v with
  | zero => rfl
  | succ fuel ih =>
    unfold validateImages visits
    cases images.next rnd with
    | error f => rfl
    | ok found =>
      cases found with
      | none => rfl
      | some found =>
        obtain ⟨image, images'⟩ := found
        unfold compareImage
        dsimp only
        cases applyWhile rnd (fun u => u.timestamp < image.timestamp) v.stream.left v.stream
            v.replayer with
        | error f => rfl
        | ok r =>
          obtain ⟨before, earlier, n⟩ := r
          dsimp only
          cases applyWhile rnd (fun u => u.timestamp = image.timestamp) before.left before
              earlier with
          | error f => rfl
          | ok r =>
            obtain ⟨stream', replayer', group⟩ := r
            dsimp only
            rw [ih, classify_stream, classify_replayer, classify_core _ _ _ _ _ _ v.summary]
            · cases visits rnd fuel images' stream' replayer' with
              | error f => rfl
              | ok r => rfl
            · rfl

theorem finish_core (replayer : BookReplayer) (summary : ValidationSummary) :
    (finish replayer summary).core =
      { summary.core with replay := replayer.stats, events := replayer.stats.applied } := by
  unfold finish
  dsimp only
  split
  · rfl
  · rfl

end Sampling

/-! ## The visits -/

section Visits

variable {rnd : Rounding} {us : List BookUpdate} {past : List ReferenceImage} {depth : Nat}

/-- The image was compared, if at all, with the book of the events up to it, and the group is the
number of events of its millisecond. -/
structure Visit.Fair (us : List BookUpdate) (visit : Visit) : Prop where
  group : visit.group ≠ 0 →
    visit.group = us.countP fun u => u.timestamp = visit.image.timestamp
  book : visit.group ≠ 0 → visit.replayer = replayUpTo us visit.image.timestamp

theorem groupOf_counted {image : ReferenceImage} (h : groupOf us past image ≠ 0) :
    groupOf us past image = us.countP fun u => u.timestamp = image.timestamp := by
  unfold groupOf at h ⊢
  split
  · rfl
  · rename_i hnot
    rw [if_neg hnot] at h
    exact absurd rfl h

theorem visits_pairings (hsorted : Nondecreasing BookUpdate.timestamp us) {fuel : Nat}
    {images : ReferenceStream} {stream stream' : EventStream} {replayer replayer' : BookReplayer}
    {list : List Visit} (hcut : ∃ front back, Cut us past front back rnd { stream, replayer })
    (h : visits rnd fuel images stream replayer = .ok (list, stream', replayer')) :
    images.images rnd fuel = .ok (list.map (·.image)) ∧
      list.map (fun visit => (visit.image, visit.group)) =
        pairings us past (list.map (·.image)) ∧
      ∀ visit ∈ list, visit.Fair us := by
  induction fuel generalizing images stream replayer past list with
  | zero =>
    cases h
    exact ⟨rfl, rfl, fun _ => nofun⟩
  | succ fuel ih =>
    unfold visits at h
    split at h
    · cases h
    · rename_i hnext
      cases h
      refine ⟨?_, rfl, fun _ => nofun⟩
      rw [ReferenceStream.images, hnext]
      rfl
    · rename_i image images' hnext
      split at h
      · cases h
      · rename_i before earlier n hbefore
        split at h
        · cases h
        · rename_i stream₁ replayer₁ group hat
          obtain ⟨⟨rest, found⟩, hrest, heq⟩ := map_ok.mp h
          cases heq
          obtain ⟨front, back, hcut⟩ := hcut
          obtain ⟨hgroup, hbook, hcut'⟩ := hcut.pass hsorted hbefore hat
          obtain ⟨himages, hpairs, hfair⟩ := ih (hcut' _ rfl rfl) hrest
          refine ⟨?_, ?_, ?_⟩
          · rw [ReferenceStream.images, hnext]
            show (images'.images rnd fuel).map _ = _
            rw [himages]
            rfl
          · rw [List.map_cons, List.map_cons, pairings, hpairs, hgroup]
          · intro visit hvisit
            rcases List.mem_cons.mp hvisit with rfl | hvisit
            · refine ⟨?_, fun hne => (hbook hne).symm⟩
              intro hne
              exact hgroup.trans (groupOf_counted (hgroup ▸ hne))
            · exact hfair visit hvisit

end Visits

/-! ## The totals -/

def referenceRows (rnd : Rounding) (text : List Char) : Except Fault (List ReferenceRow) :=
  match ReferenceStream.make rnd text with
  | .error f => .error f
  | .ok s => s.rows (readReference rnd)

/-- The totals of a run over the files, from its visits. -/
structure Totals (us : List BookUpdate) (rows : List ReferenceRow) (list : List Visit)
    (depth : Nat) (replayer : BookReplayer) (summary : ValidationSummary) : Prop where
  replay : summary.replay = replayer.stats
  events : summary.events = us.length
  referenceRows : summary.referenceRows = rows.length
  images : summary.images =
    summary.unambiguousImages + summary.ambiguousImages + summary.orphanImages
  orphan : summary.orphanImages = list.countP fun v => v.group = 0
  unambiguous : summary.unambiguousImages = list.countP fun v => v.group = 1
  ambiguous : summary.ambiguousImages = list.countP fun v => 1 < v.group
  unambiguousMismatches : summary.unambiguousMismatches =
    list.countP fun v => v.group = 1 ∧ v.diff depth ≠ []
  ambiguousMismatches : summary.ambiguousMismatches =
    list.countP fun v => 1 < v.group ∧ v.diff depth ≠ []
  levels : summary.priceMismatches + summary.quantityMismatches + summary.missingLevels +
      summary.extraLevels =
    ((list.filter fun v => v.group = 1).map fun v => ((v.diff depth).length : Int)).sum

section Totals

variable {rnd : Rounding} {us : List BookUpdate} {depth : Nat} {list : List Visit}
  {summary : ValidationSummary}

theorem Visit.Fair.diff_eq {visit : Visit} (h : visit.Fair us) (hne : visit.group ≠ 0) :
    visit.diff depth = diffAt us depth visit.image := by
  rw [Visit.diff, h.book hne]
  rfl

/-- An image falls in one of the three classes. -/
theorem countP_classes (list : List Visit) :
    (list.countP fun v => v.group = 1) + (list.countP fun v => 1 < v.group) +
      (list.countP fun v => v.group = 0) = list.length := by
  induction list with
  | nil => rfl
  | cons visit list ih =>
    simp only [List.countP_cons, List.length_cons, decide_eq_true_eq]
    rcases Nat.lt_trichotomy visit.group 1 with h | h | h
    · rw [if_neg (by omega), if_neg (by omega), if_pos (by omega)]
      omega
    · rw [if_pos h, if_neg (by omega), if_neg (by omega)]
      omega
    · rw [if_neg (by omega), if_pos h, if_neg (by omega)]
      omega

theorem levels_fair (hfair : ∀ visit ∈ list, visit.Fair us) :
    (list.map fun v => if v.group = 1 then ((diffAt us depth v.image).length : Int) else 0).sum =
      ((list.filter fun v => v.group = 1).map fun v => ((v.diff depth).length : Int)).sum := by
  induction list with
  | nil => rfl
  | cons visit list ih =>
    have hrest := ih fun v hv => hfair v (List.mem_cons_of_mem _ hv)
    rw [List.map_cons, List.sum_cons, hrest]
    by_cases hone : visit.group = 1
    · have hdiff : visit.diff depth = diffAt us depth visit.image :=
        (hfair visit (List.mem_cons_self ..)).diff_eq (by omega)
      rw [if_pos hone, List.filter_cons_of_pos (by simpa using hone), List.map_cons,
        List.sum_cons, hdiff]
    · rw [if_neg hone, List.filter_cons_of_neg (by simpa using hone), Int.zero_add]

theorem countP_mismatch (hfair : ∀ visit ∈ list, visit.Fair us) {p : Nat → Prop} [DecidablePred p]
    (hp : ¬ p 0) :
    ((list.map fun v => (v.image, v.group)).countP fun q => p q.2 ∧ diffAt us depth q.1 ≠ []) =
      list.countP fun v => p v.group ∧ v.diff depth ≠ [] := by
  rw [List.countP_map]
  apply List.countP_congr
  intro visit hvisit
  show decide (p visit.group ∧ diffAt us depth visit.image ≠ []) = true ↔ _
  rw [decide_eq_true_eq, decide_eq_true_eq]
  apply and_congr_right
  intro hgroup
  rw [(hfair visit hvisit).diff_eq]
  intro hzero
  exact hp (hzero ▸ hgroup)

theorem totals_of_counted {rows : List ReferenceRow} {replayer : BookReplayer}
    (hfair : ∀ visit ∈ list, visit.Fair us)
    (h : Counted us depth (list.map fun v => (v.image, v.group)) summary)
    (hreplay : summary.replay = replayer.stats) (hevents : summary.events = us.length)
    (hrows : (list.map (·.image.rows)).sum = rows.length) :
    Totals us rows list depth replayer summary where
  replay := hreplay
  events := hevents
  referenceRows := by
    rw [h.referenceRows, ← hrows, List.map_map]
    rfl
  images := by
    rw [h.images, h.unambiguous, h.ambiguous, h.orphan]
    simp only [List.countP_map, List.length_map]
    have := countP_classes list
    simp only [Function.comp_def]
    omega
  orphan := by rw [h.orphan, List.countP_map]; rfl
  unambiguous := by rw [h.unambiguous, List.countP_map]; rfl
  ambiguous := by rw [h.ambiguous, List.countP_map]; rfl
  unambiguousMismatches := by
    rw [h.unambiguousMismatches, countP_mismatch (p := fun n => n = 1) hfair (by decide)]
  ambiguousMismatches := by
    rw [h.ambiguousMismatches, countP_mismatch (p := fun n => 1 < n) hfair (by decide)]
  levels := by
    rw [h.levels, ← levels_fair hfair, List.map_map]
    rfl

end Totals

section Files

variable {rnd : Rounding} {events reference : List Char} {options options' : ValidationOptions}
  {summary : ValidationSummary}

theorem validate_samples (hdepth : options'.depth = options.depth)
    (h : validate rnd events reference options = .ok summary) :
    ∃ summary', validate rnd events reference options' = .ok summary' ∧
      summary'.core = summary.core := by
  obtain ⟨stream, images, v, ended, replayer, n, hstream, himages, hloop, hdrain, rfl⟩ :=
    validate_ok h
  have hfirst := validateImages_visits rnd options images.left images { stream }
  have hsecond := validateImages_visits rnd options' images.left images { stream }
  rw [hdepth, ← hfirst, hloop] at hsecond
  obtain ⟨v', hloop', heq⟩ := map_ok.mp hsecond
  obtain ⟨hcore, hrest⟩ := Prod.mk.injEq .. ▸ heq
  obtain ⟨hs, hr⟩ := Prod.mk.injEq .. ▸ hrest
  refine ⟨finish replayer v'.summary, ?_, ?_⟩
  · unfold validate
    rw [hstream, himages]
    dsimp only
    rw [hloop']
    dsimp only
    rw [hs, hr, hdrain]
  · rw [finish_core, finish_core, hcore]

/-- For any two files of which `validate` makes a summary. -/
theorem validate_totals (h : validate rnd events reference options = .ok summary) :
    ∃ us rows list stream replayer last,
      eventRows rnd events = .ok us ∧ referenceRows rnd reference = .ok rows ∧
      mergeVisits rnd events reference = .ok (list, stream, last) ∧
      referenceImages rnd reference = .ok (list.map (·.image)) ∧
      BookReplayer.applyRows {} us = .ok () replayer ∧
      Totals us rows list options.depth replayer summary ∧
      (∀ visit ∈ list, visit.Fair us) ∧
      ∀ options' : ValidationOptions, options'.depth = options.depth →
        ∃ summary', validate rnd events reference options' = .ok summary' ∧
          summary'.core = summary.core := by
  obtain ⟨us, images, replayer, hevents, hpics, happlied, hcounted⟩ := validate_counts h
  have hsorted : Nondecreasing BookUpdate.timestamp us :=
    (BookReplayer.applyRows_forwards happlied).1
  obtain ⟨stream, s, v, ended, replayer', n, hstream, himages, hloop, hdrain, heq⟩ := validate_ok h
  obtain ⟨us', hus, hdrained, _⟩ := merge_reads hloop hdrain
  have hrows : stream.rows (readEvent rnd) = .ok us := by
    rw [eventRows, hstream] at hevents
    exact hevents
  obtain rfl : us = us' := by
    rw [hrows] at hus
    cases hus
    rfl
  obtain rfl : replayer = replayer' := by
    rw [happlied] at hdrained
    cases hdrained
    rfl
  have hvisits := validateImages_visits rnd options s.left s { stream }
  rw [hloop] at hvisits
  obtain ⟨⟨list, end', last⟩, hlist, _⟩ := map_ok.mp hvisits.symm
  obtain ⟨hseen, hpairs, hfair⟩ := visits_pairings hsorted ⟨[], us, cut_start hrows⟩ hlist
  have hmerge : mergeVisits rnd events reference = .ok (list, end', last) := by
    rw [mergeVisits, hstream]
    dsimp only
    rw [himages]
    exact hlist
  have hreference : referenceImages rnd reference = .ok (list.map (·.image)) := by
    rw [referenceImages, himages]
    exact hseen
  obtain rfl : images = list.map (·.image) := by
    rw [hreference] at hpics
    cases hpics
    rfl
  obtain ⟨rows, hread, hsum⟩ := images_complete (Nat.le_refl _) hseen
  have hrefs : referenceRows rnd reference = .ok rows := by
    rw [referenceRows, himages]
    exact hread
  have hreplay : summary.core.replay = replayer.stats ∧
      summary.core.events = replayer.stats.applied := by
    rw [heq, finish_core]
    exact ⟨rfl, rfl⟩
  have hmeaning : Meaning us replayer := applyRows_meaning meaning_initial happlied
  have happ : replayer.stats.applied = us.length := by
    rw [hmeaning.stats]
    rfl
  rw [← hpairs] at hcounted
  rw [List.map_map] at hsum
  refine ⟨us, rows, list, end', replayer, last, hevents, hrefs, hmerge, hreference, happlied,
    totals_of_counted hfair hcounted hreplay.1 (hreplay.2.trans happ) hsum, hfair, ?_⟩
  intro options' hdepth
  exact validate_samples hdepth h

/-- An opening block, then two events of one millisecond. -/
def threeEvents : List Char :=
  ("timestamp,local_timestamp,is_snapshot,side,price,quantity\n" ++
    "1000,1002,true,bid,100,5\n1001,1002,false,bid,99,1\n1001,1003,false,ask,101,1\n").toList

/-- One image of each class; the one in the middle misses the ask. -/
def threeImages : List Char :=
  ("timestamp,side,level,price,quantity\n" ++
    "1000,bid,0,100,5\n1001,bid,0,100,5\n1001,bid,1,99,1\n1002,bid,0,100,5\n").toList

theorem validate_totals_three :
    ∃ summary, summary.ambiguousMismatches = 1 ∧
      ∃ us rows list stream replayer last,
        eventRows exact threeEvents = .ok us ∧ referenceRows exact threeImages = .ok rows ∧
        mergeVisits exact threeEvents threeImages = .ok (list, stream, last) ∧
        referenceImages exact threeImages = .ok (list.map (·.image)) ∧
        BookReplayer.applyRows {} us = .ok () replayer ∧
        Totals us rows list 25 replayer summary ∧
        (∀ visit ∈ list, visit.Fair us) ∧
        ∀ options' : ValidationOptions, options'.depth = 25 →
          ∃ summary', validate exact threeEvents threeImages options' = .ok summary' ∧
            summary'.core = summary.core := by
  have h : validate exact threeEvents threeImages {} = .ok
      { events := 3, referenceRows := 4, images := 3, unambiguousImages := 1,
        ambiguousImages := 1, orphanImages := 1, ambiguousMismatches := 1,
        replay := { applied := 3, snapshotRows := 1, lastTimestamp := 1001 },
        sampleAmbiguousTimestamps := [1001] } := by
    decide +kernel
  exact ⟨_, rfl, validate_totals h⟩

end Files

end Tools
end PerpCarry
