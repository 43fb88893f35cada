import PerpCarry.Lib.EventRun
import PerpCarry.Lib.KeyCut
import PerpCarry.Tools.ReplayValidate

/-!
# Tools.MergeLoop

What the merge loop of the harness does with the rows of the two files.

`eventRows` and `referenceImages` are the files read to their ends. `groupOf` says from these alone
how many events an image is paired with: none when an earlier image of the file is not earlier in
time, since the events were used up there.

* `applyWhile_spec`, `applyWhile_reads`: one of the loops over the events.
* `LoopInv`: the events are cut at the latest image so far, and the counters count `pairings`.
* `compareImage_inv`, `validateImages_inv`: the loop over the images keeps it.
* `validate_counts`: a summary is returned only if both files can be read to the end, the events
  replay, and the counters are those of the pairings.
-/

namespace PerpCarry
namespace Tools

open Lib

variable {rnd : Rounding}

/-! ## The files, read to the end -/

def eventRows (rnd : Rounding) (text : List Char) : Except Fault (List BookUpdate) :=
  match EventStream.make rnd text with
  | .error f => .error f
  | .ok stream => stream.rows (readEvent rnd)

/-- The images `next` returns, call after call. -/
def ReferenceStream.images (rnd : Rounding) :
    Nat → ReferenceStream → Except Fault (List ReferenceImage)
  | 0, _ => .ok []
  | fuel + 1, s =>
    match s.next rnd with
    | .error f => .error f
    | .ok none => .ok []
    | .ok (some (image, s')) => (images rnd fuel s').map (image :: ·)

def referenceImages (rnd : Rounding) (text : List Char) : Except Fault (List ReferenceImage) :=
  match ReferenceStream.make rnd text with
  | .error f => .error f
  | .ok s => s.images rnd s.left

section Reading

variable {s s' : ReferenceStream} {image image' : ReferenceImage} {fuel : Nat}

theorem left_pos {α : Type} {s : Lookahead α} {row : α} (h : s.pending = some row) :
    0 < s.left := by
  rw [Lookahead.left, h]
  exact Nat.succ_pos _

/-- `gather` counts the rows it takes. -/
theorem gather_rows (h : s.gather rnd fuel image = .ok (image', s')) :
    s'.left ≤ s.left ∧ ∀ rest, s'.rows (readReference rnd) = .ok rest →
      ∃ taken, s.rows (readReference rnd) = .ok (taken ++ rest) ∧
        image'.rows = image.rows + taken.length := by
  induction fuel generalizing s image with
  | zero =>
    cases h
    exact ⟨Nat.le_refl _, fun rest hrest => ⟨[], hrest, by simp⟩⟩
  | succ fuel ih =>
    unfold ReferenceStream.gather at h
    split at h
    · cases h
      exact ⟨Nat.le_refl _, fun rest hrest => ⟨[], hrest, by simp⟩⟩
    · rename_i row hrow
      split at h
      · cases h
        exact ⟨Nat.le_refl _, fun rest hrest => ⟨[], hrest, by simp⟩⟩
      · split at h
        · cases h
        · split at h
          · cases h
          · rename_i s₁ hadvance
            obtain ⟨hleft, hrows⟩ := ih h
            have hless := Lookahead.advance_left hrow hadvance
            refine ⟨by omega, ?_⟩
            intro rest hrest
            obtain ⟨taken, htaken, hcount⟩ := hrows rest hrest
            refine ⟨row :: taken, ?_, ?_⟩
            · rw [Lookahead.rows_pending hrow hadvance, htaken]
              rfl
            · rw [hcount, List.length_cons, ReferenceImage.push]
              split <;> push_cast <;> ring

/-- `next` takes a row at least, so the loop over the images ends. -/
theorem next_rows (h : s.next rnd = .ok (some (image, s'))) :
    s'.left < s.left ∧ ∀ rest, s'.rows (readReference rnd) = .ok rest →
      ∃ taken, s.rows (readReference rnd) = .ok (taken ++ rest) ∧ image.rows = taken.length := by
  unfold ReferenceStream.next at h
  split at h
  · cases h
  · rename_i row hrow
    obtain ⟨found, hgather, hfound⟩ := map_ok.mp h
    cases hfound
    have hpos := left_pos hrow
    obtain ⟨fuel, hfuel⟩ : ∃ fuel, s.left = fuel + 1 := ⟨s.left - 1, by omega⟩
    have hfirst := hgather
    rw [hfuel] at hfirst
    unfold ReferenceStream.gather at hfirst
    simp only [hrow] at hfirst
    refine ⟨?_, ?_⟩
    · split at hfirst
      · rename_i hne
        exact absurd rfl hne
      · split at hfirst
        · cases hfirst
        · split at hfirst
          · cases hfirst
          · rename_i s₁ hadvance
            have hless := Lookahead.advance_left hrow hadvance
            have := (gather_rows hfirst).1
            omega
    · intro rest hrest
      obtain ⟨taken, htaken, hcount⟩ := (gather_rows hgather).2 rest hrest
      refine ⟨taken, htaken, ?_⟩
      rw [hcount]
      simp

/-- With a bound of `left`, the images are all there are: every row of the file is in one. -/
theorem images_complete {images : List ReferenceImage} (hfuel : s.left ≤ fuel)
    (h : s.images rnd fuel = .ok images) :
    ∃ rows, s.rows (readReference rnd) = .ok rows ∧
      (images.map (·.rows)).sum = rows.length := by
  induction fuel generalizing s images with
  | zero =>
    cases h
    cases hp : s.pending with
    | none => exact ⟨[], Lookahead.rows_none hp, rfl⟩
    | some row =>
      have := left_pos hp
      omega
  | succ fuel ih =>
    unfold ReferenceStream.images at h
    split at h
    · cases h
    · rename_i hnone
      cases h
      unfold ReferenceStream.next at hnone
      split at hnone
      · rename_i hp
        exact ⟨[], Lookahead.rows_none hp, rfl⟩
      · obtain ⟨found, _, hfound⟩ := map_ok.mp hnone
        cases hfound
    · rename_i image s' hnext
      obtain ⟨images', himages, rfl⟩ := map_ok.mp h
      obtain ⟨hless, hrows⟩ := next_rows hnext
      obtain ⟨rest, hrest, hsum⟩ := ih (by omega) himages
      obtain ⟨taken, htaken, hcount⟩ := hrows rest hrest
      refine ⟨taken ++ rest, htaken, ?_⟩
      rw [List.map_cons, List.sum_cons, hsum, hcount, List.length_append]
      push_cast
      rfl

end Reading

/-! ## A loop over the events -/

section Events

variable {p : BookUpdate → Bool} {fuel n : Nat} {stream stream' : EventStream}
  {replayer replayer' : BookReplayer} {back : List BookUpdate}

theorem applyWhile_pass {update : BookUpdate} (hupdate : stream.pending = some update)
    (hp : p update = true)
    (h : applyWhile rnd p (fuel + 1) stream replayer = .ok (stream', replayer', n)) :
    ∃ r s m, replayer.apply update = .ok () r ∧ EventStream.advance rnd stream = .ok s ∧
      applyWhile rnd p fuel s r = .ok (stream', replayer', m) ∧ n = m + 1 := by
  unfold applyWhile at h
  simp only [hupdate, hp] at h
  split at h
  · rename_i hfalse
    cases hfalse
  · split at h
    · cases h
    · rename_i r hr
      split at h
      · cases h
      · rename_i s hs
        obtain ⟨⟨s', r', m⟩, hrest, heq⟩ := map_ok.mp h
        cases heq
        exact ⟨r, s, m, hr, hs, hrest, rfl⟩

theorem applyWhile_stop (hstop : ∀ u, stream.pending = some u → p u = false)
    (h : applyWhile rnd p fuel stream replayer = .ok (stream', replayer', n)) :
    stream' = stream ∧ replayer' = replayer ∧ n = 0 := by
  cases fuel with
  | zero =>
    cases h
    exact ⟨rfl, rfl, rfl⟩
  | succ fuel =>
    unfold applyWhile at h
    split at h
    · cases h
      exact ⟨rfl, rfl, rfl⟩
    · rename_i u hu
      rw [hstop u hu] at h
      cases h
      exact ⟨rfl, rfl, rfl⟩

theorem applyWhile_spec (hfuel : stream.left ≤ fuel)
    (hrows : stream.rows (readEvent rnd) = .ok back)
    (h : applyWhile rnd p fuel stream replayer = .ok (stream', replayer', n)) :
    stream'.rows (readEvent rnd) = .ok (back.dropWhile p) ∧
      replayer.applyRows (back.takeWhile p) = .ok () replayer' ∧ n = (back.takeWhile p).length := by
  induction fuel generalizing stream replayer back n with
  | zero =>
    cases hpending : stream.pending with
    | none =>
      rw [Lookahead.rows_none hpending] at hrows
      cases hrows
      cases h
      exact ⟨Lookahead.rows_none hpending, rfl, rfl⟩
    | some u =>
      have := left_pos hpending
      omega
  | succ fuel ih =>
    cases hpending : stream.pending with
    | none =>
      obtain ⟨rfl, rfl, rfl⟩ := applyWhile_stop (by rw [hpending]; exact fun _ => nofun) h
      rw [Lookahead.rows_none hpending] at hrows
      cases hrows
      exact ⟨Lookahead.rows_none hpending, rfl, rfl⟩
    | some u =>
      have hback : ∃ rest, back = u :: rest := by
        rw [Lookahead.rows, hpending] at hrows
        obtain ⟨rest, _, rfl⟩ := map_ok.mp hrows
        exact ⟨rest, rfl⟩
      obtain ⟨rest, rfl⟩ := hback
      by_cases hp : p u = true
      · obtain ⟨r, s, m, hr, hs, hloop, rfl⟩ := applyWhile_pass hpending hp h
        rw [Lookahead.rows_pending hpending hs] at hrows
        obtain ⟨rest', hrest, heq⟩ := map_ok.mp hrows
        cases heq
        have hless := Lookahead.advance_left hpending hs
        obtain ⟨hleft, happlied, rfl⟩ := ih (by omega) hrest hloop
        rw [List.dropWhile_cons_of_pos hp, List.takeWhile_cons_of_pos hp]
        refine ⟨hleft, ?_, rfl⟩
        rw [BookReplayer.applyRows, hr]
        exact happlied
      · have hfalse : p u = false := by simpa using hp
        have hstop : ∀ v, stream.pending = some v → p v = false := by
          intro v hv
          rw [hpending] at hv
          cases hv
          exact hfalse
        obtain ⟨rfl, rfl, rfl⟩ := applyWhile_stop hstop h
        rw [List.dropWhile_cons_of_neg hp, List.takeWhile_cons_of_neg hp]
        exact ⟨hrows, rfl, rfl⟩

/-- If the rest can be read, then so can what the loop took, and it was applied. -/
theorem applyWhile_reads (h : applyWhile rnd p fuel stream replayer = .ok (stream', replayer', n))
    (hrows : stream'.rows (readEvent rnd) = .ok back) :
    ∃ front, stream.rows (readEvent rnd) = .ok (front ++ back) ∧
      replayer.applyRows front = .ok () replayer' := by
  induction fuel generalizing stream replayer n with
  | zero =>
    cases h
    exact ⟨[], hrows, rfl⟩
  | succ fuel ih =>
    by_cases hpass : ∃ u, stream.pending = some u ∧ p u = true
    · obtain ⟨u, hpending, hp⟩ := hpass
      obtain ⟨r, s, m, hr, hs, hloop, rfl⟩ := applyWhile_pass hpending hp h
      obtain ⟨front, hfront, happlied⟩ := ih hloop
      refine ⟨u :: front, ?_, ?_⟩
      · rw [Lookahead.rows_pending hpending hs, hfront]
        rfl
      · rw [BookReplayer.applyRows, hr]
        exact happlied
    · have hstop : ∀ u, stream.pending = some u → p u = false := by
        intro u hu
        cases hp : p u with
        | false => rfl
        | true => exact absurd ⟨u, hu, hp⟩ hpass
      obtain ⟨rfl, rfl, rfl⟩ := applyWhile_stop hstop h
      exact ⟨[], hrows, rfl⟩

/-- The loop that drains the stream reaches its end. -/
theorem applyWhile_drains (hfuel : stream.left ≤ fuel)
    (h : applyWhile rnd (fun _ => true) fuel stream replayer = .ok (stream', replayer', n)) :
    stream'.rows (readEvent rnd) = .ok [] := by
  induction fuel generalizing stream replayer n with
  | zero =>
    cases h
    cases hpending : stream'.pending with
    | none => exact Lookahead.rows_none hpending
    | some u =>
      have := left_pos hpending
      omega
  | succ fuel ih =>
    cases hpending : stream.pending with
    | none =>
      obtain ⟨rfl, _, _⟩ := applyWhile_stop (by rw [hpending]; exact fun _ => nofun) h
      exact Lookahead.rows_none hpending
    | some u =>
      obtain ⟨r, s, m, _, hs, hloop, _⟩ := applyWhile_pass hpending rfl h
      have hless := Lookahead.advance_left hpending hs
      exact ih (by omega) hloop

end Events

/-! ## Pairings -/

/-- The book of exactly the events not later than `timestamp`. -/
def replayUpTo (us : List BookUpdate) (timestamp : Int) : BookReplayer :=
  (BookReplayer.applyRows {} (us.filter fun u => u.timestamp ≤ timestamp)).state

def diffAt (us : List BookUpdate) (depth : Nat) (image : ReferenceImage) : BookDiff :=
  compareTopN (replayUpTo us image.timestamp).book image.bids image.asks depth

/-- The events paired with an image that stands behind the images `past`. -/
def groupOf (us : List BookUpdate) (past : List ReferenceImage) (image : ReferenceImage) : Nat :=
  if ∀ other ∈ past, other.timestamp < image.timestamp then
    us.countP fun u => u.timestamp = image.timestamp
  else 0

def pairings (us : List BookUpdate) (past : List ReferenceImage) :
    List ReferenceImage → List (ReferenceImage × Nat)
  | [] => []
  | image :: images => (image, groupOf us past image) :: pairings us (past ++ [image]) images

theorem pairings_snoc (us : List BookUpdate) (past images : List ReferenceImage)
    (image : ReferenceImage) :
    pairings us past (images ++ [image]) =
      pairings us past images ++ [(image, groupOf us (past ++ images) image)] := by
  induction images generalizing past with
  | nil => rw [List.append_nil]; rfl
  | cons first images ih =>
    simp only [List.cons_append, pairings]
    rw [ih, List.append_assoc]
    rfl

/-- The counters, as counts over the images compared so far with their groups. -/
structure Counted (us : List BookUpdate) (depth : Nat) (pairs : List (ReferenceImage × Nat))
    (summary : ValidationSummary) : Prop where
  images : summary.images = pairs.length
  referenceRows : summary.referenceRows = (pairs.map (·.1.rows)).sum
  orphan : summary.orphanImages = pairs.countP fun q => q.2 = 0
  unambiguous : summary.unambiguousImages = pairs.countP fun q => q.2 = 1
  ambiguous : summary.ambiguousImages = pairs.countP fun q => 1 < q.2
  unambiguousMismatches : summary.unambiguousMismatches =
    pairs.countP fun q => q.2 = 1 ∧ diffAt us depth q.1 ≠ []
  ambiguousMismatches : summary.ambiguousMismatches =
    pairs.countP fun q => 1 < q.2 ∧ diffAt us depth q.1 ≠ []
  levels : summary.priceMismatches + summary.quantityMismatches + summary.missingLevels +
      summary.extraLevels =
    (pairs.map fun q => if q.2 = 1 then ((diffAt us depth q.1).length : Int) else 0).sum

section Counting

variable {us : List BookUpdate} {options : ValidationOptions} {pairs : List (ReferenceImage × Nat)}
  {image : ReferenceImage} {hasMore : Bool} {group : Nat} {diff : BookDiff} {v : Validation}
  {summary : ValidationSummary}

/-- Each difference is counted under one kind, and nothing else moves. -/
theorem foldl_countKind (diff : BookDiff) (summary : ValidationSummary) :
    ∃ price quantity missing extra : Int,
      diff.foldl ValidationSummary.countKind summary = { summary with
        priceMismatches := summary.priceMismatches + price
        quantityMismatches := summary.quantityMismatches + quantity
        missingLevels := summary.missingLevels + missing
        extraLevels := summary.extraLevels + extra } ∧
      price + quantity + missing + extra = diff.length := by
  induction diff generalizing summary with
  | nil => exact ⟨0, 0, 0, 0, by simp, rfl⟩
  | cons level diff ih =>
    obtain ⟨price, quantity, missing, extra, heq, hsum⟩ := ih (summary.countKind level)
    rw [List.foldl_cons, heq, List.length_cons]
    unfold ValidationSummary.countKind
    cases level.kind with
    | priceMismatch =>
      exact ⟨price + 1, quantity, missing, extra, by simp; ring, by push_cast; omega⟩
    | quantityMismatch =>
      exact ⟨price, quantity + 1, missing, extra, by simp; ring, by push_cast; omega⟩
    | missingLevel =>
      exact ⟨price, quantity, missing + 1, extra, by simp; ring, by push_cast; omega⟩
    | extraLevel =>
      exact ⟨price, quantity, missing, extra + 1, by simp; ring, by push_cast; omega⟩

theorem sampleClean_eq (options : ValidationOptions) (image : ReferenceImage) (hasMore : Bool)
    (v : Validation) :
    ∃ samples, (sampleClean options image hasMore v).summary =
        { v.summary with sampleCleanTimestamps := samples } ∧
      (sampleClean options image hasMore v).stream = v.stream ∧
      (sampleClean options image hasMore v).replayer = v.replayer := by
  unfold sampleClean
  dsimp only
  split
  · exact ⟨_, rfl, rfl, rfl⟩
  · split
    · exact ⟨_, rfl, rfl, rfl⟩
    · split
      · exact ⟨_, rfl, rfl, rfl⟩
      · split
        · exact ⟨_, rfl, rfl, rfl⟩
        · exact ⟨_, rfl, rfl, rfl⟩

theorem classify_stream (options : ValidationOptions) (image : ReferenceImage) (hasMore : Bool)
    (group : Nat) (diff : BookDiff) (v : Validation) :
    (classify options image hasMore group diff v).stream = v.stream := by
  obtain ⟨_, _, hstream, _⟩ := sampleClean_eq options image hasMore v
  unfold classify
  dsimp only
  split
  · rfl
  · split
    · exact hstream
    · exact hstream

theorem classify_replayer (options : ValidationOptions) (image : ReferenceImage) (hasMore : Bool)
    (group : Nat) (diff : BookDiff) (v : Validation) :
    (classify options image hasMore group diff v).replayer = v.replayer := by
  obtain ⟨_, _, _, hreplayer⟩ := sampleClean_eq options image hasMore v
  unfold classify
  dsimp only
  split
  · rfl
  · split
    · exact hreplayer
    · exact hreplayer

theorem counted_snoc {more : ValidationSummary} (h : Counted us options.depth pairs summary)
    (himages : more.images = summary.images + 1)
    (hrows : more.referenceRows = summary.referenceRows + image.rows)
    (horphan : more.orphanImages = summary.orphanImages + if group = 0 then 1 else 0)
    (hunambiguous : more.unambiguousImages = summary.unambiguousImages + if group = 1 then 1 else 0)
    (hambiguous : more.ambiguousImages = summary.ambiguousImages + if 1 < group then 1 else 0)
    (hmismatch : more.unambiguousMismatches = summary.unambiguousMismatches +
      if group = 1 ∧ diffAt us options.depth image ≠ [] then 1 else 0)
    (hambiguousMismatch : more.ambiguousMismatches = summary.ambiguousMismatches +
      if 1 < group ∧ diffAt us options.depth image ≠ [] then 1 else 0)
    (hlevels : more.priceMismatches + more.quantityMismatches + more.missingLevels +
        more.extraLevels = summary.priceMismatches + summary.quantityMismatches +
          summary.missingLevels + summary.extraLevels +
        if group = 1 then ((diffAt us options.depth image).length : Int) else 0) :
    Counted us options.depth (pairs ++ [(image, group)]) more where
  images := by rw [himages, h.images, List.length_append]; rfl
  referenceRows := by rw [hrows, h.referenceRows, List.map_append, List.sum_append]; simp
  orphan := by rw [horphan, h.orphan, List.countP_append, List.countP_singleton]; simp
  unambiguous := by
    rw [hunambiguous, h.unambiguous, List.countP_append, List.countP_singleton]; simp
  ambiguous := by rw [hambiguous, h.ambiguous, List.countP_append, List.countP_singleton]; simp
  unambiguousMismatches := by
    rw [hmismatch, h.unambiguousMismatches, List.countP_append, List.countP_singleton]; simp
  ambiguousMismatches := by
    rw [hambiguousMismatch, h.ambiguousMismatches, List.countP_append, List.countP_singleton]; simp
  levels := by rw [hlevels, h.levels, List.map_append, List.sum_append]; simp

/-- One more image: the counters of its class move, by its comparison. -/
theorem classify_counted (h : Counted us options.depth pairs summary)
    (hdiff : group ≠ 0 → diff = diffAt us options.depth image)
    (hv : v.summary = { summary with
      images := summary.images + 1
      referenceRows := summary.referenceRows + image.rows }) :
    Counted us options.depth (pairs ++ [(image, group)])
      (classify options image hasMore group diff v).summary := by
  obtain ⟨samples, hclean, _, _⟩ := sampleClean_eq options image hasMore v
  rw [hv] at hclean
  rcases Nat.lt_trichotomy group 1 with hgroup | rfl | hgroup
  · obtain rfl : group = 0 := by omega
    refine counted_snoc h ?_ ?_ ?_ ?_ ?_ ?_ ?_ ?_ <;> simp [classify, hv]
  · obtain rfl := hdiff (by omega)
    cases hempty : diffAt us options.depth image with
    | nil =>
      refine counted_snoc h ?_ ?_ ?_ ?_ ?_ ?_ ?_ ?_ <;>
        simp [classify, hclean, ValidationSummary.countUnambiguous, hempty]
    | cons level rest =>
      obtain ⟨price, quantity, missing, extra, hfold, hsum⟩ := foldl_countKind (level :: rest)
        { summary with
          images := summary.images + 1
          referenceRows := summary.referenceRows + image.rows
          unambiguousImages := summary.unambiguousImages + 1
          unambiguousMismatches := summary.unambiguousMismatches + 1
          sampleCleanTimestamps := samples }
      rw [List.length_cons] at hsum
      refine counted_snoc h ?_ ?_ ?_ ?_ ?_ ?_ ?_ ?_ <;>
        simp [classify, hclean, ValidationSummary.countUnambiguous, hempty, hfold]
      push_cast at hsum
      omega
  · obtain rfl := hdiff (by omega)
    have hzero : group ≠ 0 := by omega
    have hone : group ≠ 1 := by omega
    cases hempty : diffAt us options.depth image with
    | nil =>
      refine counted_snoc h ?_ ?_ ?_ ?_ ?_ ?_ ?_ ?_ <;>
        simp [classify, hclean, ValidationSummary.countAmbiguous, hempty, hzero, hone, hgroup]
    | cons level rest =>
      refine counted_snoc h ?_ ?_ ?_ ?_ ?_ ?_ ?_ ?_ <;>
        simp [classify, hclean, ValidationSummary.countAmbiguous, hempty, hzero, hone, hgroup]

end Counting

/-! ## The loop over the images -/

/-- The events `us`, cut behind the latest image compared so far. -/
structure Cut (us : List BookUpdate) (past : List ReferenceImage) (front back : List BookUpdate)
    (rnd : Rounding) (v : Validation) : Prop where
  events : us = front ++ back
  unread : v.stream.rows (readEvent rnd) = .ok back
  applied : BookReplayer.applyRows {} front = .ok () v.replayer
  front_le : ∀ u ∈ front, ∃ image ∈ past, u.timestamp ≤ image.timestamp
  back_gt : ∀ u ∈ back, ∀ image ∈ past, image.timestamp < u.timestamp

structure LoopInv (us : List BookUpdate) (depth : Nat) (rnd : Rounding)
    (past : List ReferenceImage) (v : Validation) : Prop where
  cut : ∃ front back, Cut us past front back rnd v
  counted : Counted us depth (pairings us [] past) v.summary

section Images

variable {us front back : List BookUpdate} {options : ValidationOptions}
  {past : List ReferenceImage} {image : ReferenceImage} {hasMore : Bool} {v v' : Validation}

/-- The events up to an image later than those before it: what was applied, and what is added. -/
theorem filter_upTo (hfront : ∀ u ∈ front, ∃ other ∈ past, u.timestamp ≤ other.timestamp)
    (hlater : ∀ other ∈ past, other.timestamp < image.timestamp) :
    ((front ++ back).filter fun u => u.timestamp ≤ image.timestamp) =
      front ++ back.filter fun u => u.timestamp ≤ image.timestamp := by
  rw [List.filter_append, List.filter_eq_self.mpr]
  intro u hu
  obtain ⟨other, hother, hle⟩ := hfront u hu
  have := hlater other hother
  rw [decide_eq_true_eq]
  omega

/-- The group that the loop counts is the one of the pairing. -/
theorem group_eq (hcut : Cut us past front back rnd v) (image : ReferenceImage) :
    (back.filter fun u => u.timestamp = image.timestamp).length =
      groupOf us past image := by
  unfold groupOf
  split
  · rename_i hlater
    rw [hcut.events, List.countP_append, List.countP_eq_length_filter (l := back)]
    have hnone : (front.countP fun u => u.timestamp = image.timestamp) = 0 := by
      rw [List.countP_eq_zero]
      intro u hu heq
      obtain ⟨other, hother, hle⟩ := hcut.front_le u hu
      have := hlater other hother
      rw [decide_eq_true_eq] at heq
      omega
    rw [hnone, Nat.zero_add]
  · rename_i hnot
    have hother : ∃ other ∈ past, image.timestamp ≤ other.timestamp := by
      simpa using hnot
    obtain ⟨other, hother, hle⟩ := hother
    rw [List.length_eq_zero_iff, List.filter_eq_nil_iff]
    intro u hu heq
    have := hcut.back_gt u hu other hother
    rw [decide_eq_true_eq] at heq
    omega

/-- An image that is paired is compared with the book of the events up to it. -/
theorem replayUpTo_eq (hcut : Cut us past front back rnd v) {replayer : BookReplayer}
    (happlied : v.replayer.applyRows
      (back.filter fun u => u.timestamp ≤ image.timestamp) = .ok () replayer)
    (hgroup : groupOf us past image ≠ 0) : replayUpTo us image.timestamp = replayer := by
  unfold groupOf at hgroup
  split at hgroup
  · rename_i hlater
    rw [replayUpTo, hcut.events, filter_upTo hcut.front_le hlater, BookReplayer.applyRows_append,
      hcut.applied]
    show (v.replayer.applyRows _).state = replayer
    rw [happlied]
    rfl
  · exact absurd rfl hgroup

theorem compareImage_ok (hs : compareImage rnd options image hasMore v = .ok v') :
    ∃ before earlier n stream replayer group,
      applyWhile rnd (fun u => u.timestamp < image.timestamp) v.stream.left v.stream v.replayer =
        .ok (before, earlier, n) ∧
      applyWhile rnd (fun u => u.timestamp = image.timestamp) before.left before earlier =
        .ok (stream, replayer, group) ∧
      v' = classify options image hasMore group
        (compareTopN replayer.book image.bids image.asks options.depth)
        { v with
          stream
          replayer
          summary := { v.summary with
            images := v.summary.images + 1
            referenceRows := v.summary.referenceRows + image.rows } } := by
  unfold compareImage at hs
  split at hs
  · cases hs
  · rename_i before earlier n hbefore
    split at hs
    · cases hs
    · rename_i stream replayer group hat
      cases hs
      exact ⟨before, earlier, n, stream, replayer, group, hbefore, hat, rfl⟩

/-- The two loops of a pass, from a cut: the group of the pairing, and the cut behind the image. -/
theorem Cut.pass {before stream : EventStream} {earlier replayer : BookReplayer} {n group : Nat}
    (hsorted : Nondecreasing BookUpdate.timestamp us) (hcut : Cut us past front back rnd v)
    (hbefore : applyWhile rnd (fun u => u.timestamp < image.timestamp) v.stream.left v.stream
      v.replayer = .ok (before, earlier, n))
    (hat : applyWhile rnd (fun u => u.timestamp = image.timestamp) before.left before earlier =
      .ok (stream, replayer, group)) :
    group = groupOf us past image ∧
      (group ≠ 0 → replayUpTo us image.timestamp = replayer) ∧
      ∀ v' : Validation, v'.stream = stream → v'.replayer = replayer →
        ∃ front' back', Cut us (past ++ [image]) front' back' rnd v' := by
  have hback : Nondecreasing BookUpdate.timestamp back := by
    have := hcut.events ▸ hsorted
    exact (List.pairwise_append.mp this).2.1
  obtain ⟨hunread, hearlier, _⟩ := applyWhile_spec (Nat.le_refl _) hcut.unread hbefore
  obtain ⟨hunread, hreplayer, hgroup⟩ := applyWhile_spec (Nat.le_refl _) hunread hat
  rw [hback.takeWhile_lt] at hearlier
  rw [hback.dropWhile_lt, hback.dropWhile_at] at hunread
  rw [hback.dropWhile_lt, hback.takeWhile_at] at hreplayer hgroup
  have happlied : v.replayer.applyRows (back.filter fun u => u.timestamp ≤ image.timestamp) =
      .ok () replayer := by
    rw [← hback.before_append_at, BookReplayer.applyRows_append, hearlier]
    exact hreplayer
  rw [group_eq hcut] at hgroup
  refine ⟨hgroup, fun hne => replayUpTo_eq hcut happlied (hgroup ▸ hne), ?_⟩
  intro v' hstream hbook
  refine ⟨front ++ back.filter fun u => u.timestamp ≤ image.timestamp,
    back.filter fun u => image.timestamp < u.timestamp, ?_, ?_, ?_, ?_, ?_⟩
  · rw [List.append_assoc, hback.upTo_append_after]
    exact hcut.events
  · rw [hstream]
    exact hunread
  · rw [hbook, BookReplayer.applyRows_append, hcut.applied]
    exact happlied
  · intro u hu
    rcases List.mem_append.mp hu with hu | hu
    · obtain ⟨other, hother, hle⟩ := hcut.front_le u hu
      exact ⟨other, List.mem_append_left _ hother, hle⟩
    · have hle := (List.mem_filter.mp hu).2
      rw [decide_eq_true_eq] at hle
      exact ⟨image, by simp, hle⟩
  · intro u hu other hother
    obtain ⟨hmem, hgt⟩ := List.mem_filter.mp hu
    rw [decide_eq_true_eq] at hgt
    rcases List.mem_append.mp hother with hother | hother
    · exact hcut.back_gt u hmem other hother
    · rw [List.mem_singleton.mp hother]
      exact hgt

theorem compareImage_inv (hsorted : Nondecreasing BookUpdate.timestamp us)
    (h : LoopInv us options.depth rnd past v)
    (hs : compareImage rnd options image hasMore v = .ok v') :
    LoopInv us options.depth rnd (past ++ [image]) v' := by
  obtain ⟨front, back, hcut⟩ := h.cut
  obtain ⟨before, earlier, n, stream, replayer, group, hbefore, hat, rfl⟩ := compareImage_ok hs
  obtain ⟨rfl, hbook, hnext⟩ := hcut.pass hsorted hbefore hat
  refine ⟨hnext _ (classify_stream ..) (classify_replayer ..), ?_⟩
  rw [pairings_snoc]
  refine classify_counted h.counted ?_ rfl
  intro hgroup
  rw [diffAt, hbook hgroup]

theorem validateImages_inv (hsorted : Nondecreasing BookUpdate.timestamp us) {fuel : Nat}
    {images : ReferenceStream} (h : LoopInv us options.depth rnd past v)
    (hs : validateImages rnd options fuel images v = .ok v') :
    ∃ pics, images.images rnd fuel = .ok pics ∧ LoopInv us options.depth rnd (past ++ pics) v' := by
  induction fuel generalizing images past v with
  | zero =>
    cases hs
    rw [← List.append_nil past] at h
    exact ⟨[], rfl, h⟩
  | succ fuel ih =>
    unfold validateImages at hs
    split at hs
    · cases hs
    · rename_i hnext
      cases hs
      rw [← List.append_nil past] at h
      refine ⟨[], ?_, h⟩
      rw [ReferenceStream.images, hnext]
    · rename_i image images' hnext
      split at hs
      · cases hs
      · rename_i v₁ hcompare
        obtain ⟨pics, hpics, hinv⟩ := ih (compareImage_inv hsorted h hcompare) hs
        refine ⟨image :: pics, ?_, ?_⟩
        · rw [ReferenceStream.images, hnext]
          show (images'.images rnd fuel).map _ = _
          rw [hpics]
          rfl
        · rw [List.append_assoc] at hinv
          exact hinv

theorem compareImage_reads (hs : compareImage rnd options image hasMore v = .ok v')
    (hrows : v'.stream.rows (readEvent rnd) = .ok back) :
    ∃ front, v.stream.rows (readEvent rnd) = .ok (front ++ back) ∧
      v.replayer.applyRows front = .ok () v'.replayer := by
  obtain ⟨before, earlier, n, stream, replayer, group, hbefore, hat, rfl⟩ := compareImage_ok hs
  rw [classify_stream] at hrows
  obtain ⟨middle, hmiddle, happlied⟩ := applyWhile_reads hat hrows
  obtain ⟨front, hfront, hfirst⟩ := applyWhile_reads hbefore hmiddle
  refine ⟨front ++ middle, ?_, ?_⟩
  · rw [hfront, List.append_assoc]
  · rw [classify_replayer, BookReplayer.applyRows_append, hfirst]
    exact happlied

theorem validateImages_reads {fuel : Nat} {images : ReferenceStream}
    (hs : validateImages rnd options fuel images v = .ok v')
    (hrows : v'.stream.rows (readEvent rnd) = .ok back) :
    ∃ front, v.stream.rows (readEvent rnd) = .ok (front ++ back) ∧
      v.replayer.applyRows front = .ok () v'.replayer := by
  induction fuel generalizing images v with
  | zero =>
    cases hs
    exact ⟨[], hrows, rfl⟩
  | succ fuel ih =>
    unfold validateImages at hs
    split at hs
    · cases hs
    · cases hs
      exact ⟨[], hrows, rfl⟩
    · split at hs
      · cases hs
      · rename_i v₁ hcompare
        obtain ⟨middle, hmiddle, happlied⟩ := ih hs
        obtain ⟨front, hfront, hfirst⟩ := compareImage_reads hcompare hmiddle
        refine ⟨front ++ middle, ?_, ?_⟩
        · rw [hfront, List.append_assoc]
        · rw [BookReplayer.applyRows_append, hfirst]
          exact happlied

end Images

/-! ## A summary -/

/-- The end of `validate` changes none of the counters. -/
theorem finish_counted {us : List BookUpdate} {depth : Nat}
    {pairs : List (ReferenceImage × Nat)} {summary : ValidationSummary} (replayer : BookReplayer)
    (h : Counted us depth pairs summary) : Counted us depth pairs (finish replayer summary) := by
  unfold finish
  dsimp only
  split
  · exact ⟨h.images, h.referenceRows, h.orphan, h.unambiguous, h.ambiguous,
      h.unambiguousMismatches, h.ambiguousMismatches, h.levels⟩
  · exact ⟨h.images, h.referenceRows, h.orphan, h.unambiguous, h.ambiguous,
      h.unambiguousMismatches, h.ambiguousMismatches, h.levels⟩

theorem validate_ok {events reference : List Char} {options : ValidationOptions}
    {summary : ValidationSummary} (h : validate rnd events reference options = .ok summary) :
    ∃ stream images v ended replayer n,
      EventStream.make rnd events = .ok stream ∧ ReferenceStream.make rnd reference = .ok images ∧
      validateImages rnd options images.left images { stream } = .ok v ∧
      applyWhile rnd (fun _ => true) v.stream.left v.stream v.replayer =
        .ok (ended, replayer, n) ∧
      summary = finish replayer v.summary := by
  unfold validate at h
  split at h
  · cases h
  · rename_i stream hstream
    split at h
    · cases h
    · rename_i images himages
      split at h
      · cases h
      · rename_i v hloop
        split at h
        · cases h
        · rename_i ended replayer n hdrain
          cases h
          exact ⟨stream, images, v, ended, replayer, n, hstream, himages, hloop, hdrain, rfl⟩

/-- All the rows of the event file are applied, in the order of the file. -/
theorem merge_reads {options : ValidationOptions} {stream ended : EventStream}
    {images : ReferenceStream} {v : Validation} {replayer : BookReplayer} {n : Nat}
    (hloop : validateImages rnd options images.left images { stream } = .ok v)
    (hdrain : applyWhile rnd (fun _ => true) v.stream.left v.stream v.replayer =
      .ok (ended, replayer, n)) :
    ∃ us, stream.rows (readEvent rnd) = .ok us ∧ BookReplayer.applyRows {} us = .ok () replayer ∧
      Nondecreasing BookUpdate.timestamp us := by
  have hended := applyWhile_drains (Nat.le_refl _) hdrain
  obtain ⟨tail, htail, hafter⟩ := applyWhile_reads hdrain hended
  rw [List.append_nil] at htail
  obtain ⟨front, hfront, hbefore⟩ := validateImages_reads hloop htail
  have happlied : BookReplayer.applyRows {} (front ++ tail) = .ok () replayer := by
    rw [BookReplayer.applyRows_append, hbefore]
    exact hafter
  exact ⟨front ++ tail, hfront, happlied, (BookReplayer.applyRows_forwards happlied).1⟩

theorem cut_start {us : List BookUpdate} {stream : EventStream}
    (h : stream.rows (readEvent rnd) = .ok us) : Cut us [] [] us rnd { stream } :=
  ⟨rfl, h, rfl, fun _ => nofun, fun _ _ _ => nofun⟩

theorem validate_counts {events reference : List Char} {options : ValidationOptions}
    {summary : ValidationSummary} (h : validate rnd events reference options = .ok summary) :
    ∃ us images replayer, eventRows rnd events = .ok us ∧
      referenceImages rnd reference = .ok images ∧
      BookReplayer.applyRows {} us = .ok () replayer ∧
      Counted us options.depth (pairings us [] images) summary := by
  obtain ⟨stream, images, v, ended, replayer, n, hstream, himages, hloop, hdrain, rfl⟩ :=
    validate_ok h
  obtain ⟨us, hus, happlied, hsorted⟩ := merge_reads hloop hdrain
  have hstart : LoopInv us options.depth rnd [] { stream } :=
    ⟨⟨[], us, cut_start hus⟩, ⟨rfl, rfl, rfl, rfl, rfl, rfl, rfl, rfl⟩⟩
  obtain ⟨pics, hpics, hinv⟩ := validateImages_inv hsorted hstart hloop
  refine ⟨us, pics, replayer, ?_, ?_, happlied, ?_⟩
  · rw [eventRows, hstream]
    exact hus
  · rw [referenceImages, himages]
    exact hpics
  · exact finish_counted replayer hinv.counted

end Tools
end PerpCarry
