import PerpCarry.Tools.MergeLoop

/-!
# Tools.PassVerdict

What a passing run says about the reference images.

The verdict looks at the mismatch counters and at the number of images. An image without a group is
counted among the images and compared with nothing, so the verdict does not see it.

* `verdict_pass_iff`: a run passes when there is an image and every paired image agrees.
* `pass_sound_iff`: when passing means that every image agrees and one was compared.
-/

namespace PerpCarry
namespace Tools

open Lib

variable {rnd : Rounding} {us : List BookUpdate} {depth : Nat} {images : List ReferenceImage}
  {image : ReferenceImage} {summary : ValidationSummary}

/-- The image and the book of the events up to its time are equal on both sides, to the depth. -/
def Agrees (us : List BookUpdate) (depth : Nat) (image : ReferenceImage) : Prop :=
  ∀ side, ((replayUpTo us image.timestamp).book.levels side).take depth =
    (image.levels side).take depth

/-- What a pass is to mean. -/
def SoundPass (us : List BookUpdate) (depth : Nat) (images : List ReferenceImage)
    (summary : ValidationSummary) : Prop :=
  0 < summary.unambiguousImages + summary.ambiguousImages ∧ ∀ image ∈ images, Agrees us depth image

/-- No image was compared because there is none, or a paired image disagrees, or some image is paired
and those that are not agree all the same. -/
def OrphansHarmless (us : List BookUpdate) (depth : Nat) (images : List ReferenceImage) : Prop :=
  images = [] ∨
    (∃ q ∈ pairings us [] images, 0 < q.2 ∧ ¬ Agrees us depth q.1) ∨
    (∃ q ∈ pairings us [] images, 0 < q.2) ∧
      ∀ q ∈ pairings us [] images, q.2 = 0 → Agrees us depth q.1

theorem replayUpTo_wellFormed {r : BookReplayer} (h : BookReplayer.applyRows {} us = .ok () r)
    (timestamp : Int) : (replayUpTo us timestamp).book.WellFormed := by
  have hsorted : Nondecreasing BookUpdate.timestamp us := (BookReplayer.applyRows_forwards h).1
  have hcut := hsorted.upTo_append_after (k := timestamp)
  rw [← hcut, BookReplayer.applyRows_append] at h
  unfold replayUpTo
  split at h
  · cases h
  · rename_i r' hr
    rw [hr]
    exact BookReplayer.applyRows_wellFormed OrderBook.wellFormed_empty hr

theorem diffAt_nil_iff {r : BookReplayer} (h : BookReplayer.applyRows {} us = .ok () r) :
    diffAt us depth image = [] ↔ Agrees us depth image := by
  rw [diffAt, compareTopN_nil_iff (replayUpTo_wellFormed h image.timestamp)]
  constructor
  · intro hsides side
    cases side with
    | bid => exact hsides.1
    | ask => exact hsides.2
  · intro hagrees
    exact ⟨hagrees .bid, hagrees .ask⟩

theorem pairings_map (us : List BookUpdate) (past images : List ReferenceImage) :
    (pairings us past images).map (·.1) = images := by
  induction images generalizing past with
  | nil => rfl
  | cons image images ih => rw [pairings, List.map_cons, ih]

theorem forall_pairings (us : List BookUpdate) {P : ReferenceImage → Prop} :
    (∀ image ∈ images, P image) ↔ ∀ q ∈ pairings us [] images, P q.1 := by
  nth_rewrite 1 [← pairings_map us [] images]
  rw [List.forall_mem_map]

/-- The images counted as compared are those with a group. -/
theorem compared_iff {pairs : List (ReferenceImage × Nat)} (h : Counted us depth pairs summary) :
    0 < summary.unambiguousImages + summary.ambiguousImages ↔ ∃ q ∈ pairs, 0 < q.2 := by
  rw [h.unambiguous, h.ambiguous]
  constructor
  · intro hpos
    by_cases hone : 0 < pairs.countP fun q => q.2 = 1
    · obtain ⟨q, hq, hgroup⟩ := List.countP_pos_iff.mp hone
      rw [decide_eq_true_eq] at hgroup
      exact ⟨q, hq, by omega⟩
    · have hmany : 0 < pairs.countP fun q => 1 < q.2 := by omega
      obtain ⟨q, hq, hgroup⟩ := List.countP_pos_iff.mp hmany
      rw [decide_eq_true_eq] at hgroup
      exact ⟨q, hq, by omega⟩
  · rintro ⟨q, hq, hgroup⟩
    by_cases hone : q.2 = 1
    · have : 0 < pairs.countP fun q => q.2 = 1 :=
        List.countP_pos_iff.mpr ⟨q, hq, by rw [decide_eq_true_eq]; exact hone⟩
      omega
    · have : 0 < pairs.countP fun q => 1 < q.2 :=
        List.countP_pos_iff.mpr ⟨q, hq, by rw [decide_eq_true_eq]; omega⟩
      omega

/-- The two mismatch counters are zero when no image with a group differs. -/
theorem no_mismatch_iff {pairs : List (ReferenceImage × Nat)} (h : Counted us depth pairs summary) :
    summary.unambiguousMismatches = 0 ∧ summary.ambiguousMismatches = 0 ↔
      ∀ q ∈ pairs, 0 < q.2 → diffAt us depth q.1 = [] := by
  rw [h.unambiguousMismatches, h.ambiguousMismatches, Int.natCast_eq_zero, Int.natCast_eq_zero,
    List.countP_eq_zero, List.countP_eq_zero]
  simp only [decide_eq_true_eq, not_and, not_not]
  constructor
  · rintro ⟨hone, hmany⟩ q hq hpos
    by_cases heq : q.2 = 1
    · exact hone q hq heq
    · exact hmany q hq (by omega)
  · intro hall
    refine ⟨?_, ?_⟩
    · intro q hq hone
      exact hall q hq (by omega)
    · intro q hq hmany
      exact hall q hq (by omega)

theorem verdict_pass_iff {r : BookReplayer} (happlied : BookReplayer.applyRows {} us = .ok () r)
    (h : Counted us depth (pairings us [] images) summary) :
    summary.verdict = .pass ↔
      images ≠ [] ∧ ∀ q ∈ pairings us [] images, 0 < q.2 → Agrees us depth q.1 := by
  have hnone : summary.images = 0 ↔ images = [] := by
    rw [h.images, Int.natCast_eq_zero, List.length_eq_zero_iff]
    nth_rewrite 2 [← pairings_map us [] images]
    rw [List.map_eq_nil_iff]
  have hclean : (∀ q ∈ pairings us [] images, 0 < q.2 → diffAt us depth q.1 = []) ↔
      ∀ q ∈ pairings us [] images, 0 < q.2 → Agrees us depth q.1 := by
    simp only [diffAt_nil_iff happlied]
  rw [← hclean, ← no_mismatch_iff h, ne_eq, ← hnone]
  unfold ValidationSummary.verdict
  by_cases hzero : summary.images = 0
  · rw [if_pos hzero]
    constructor
    · nofun
    · intro hpass
      exact absurd hzero hpass.1
  · rw [if_neg hzero]
    by_cases hmismatch : summary.unambiguousMismatches = 0 ∧ summary.ambiguousMismatches = 0
    · rw [if_pos hmismatch]
      exact ⟨fun _ => ⟨hzero, hmismatch⟩, fun _ => rfl⟩
    · rw [if_neg hmismatch]
      constructor
      · nofun
      · intro hpass
        exact absurd hpass.2 hmismatch

/-- For any two files of which `validate` makes a summary. -/
theorem pass_sound_iff {events reference : List Char} {options : ValidationOptions}
    (h : validate rnd events reference options = .ok summary) :
    ∃ us images, eventRows rnd events = .ok us ∧ referenceImages rnd reference = .ok images ∧
      ((summary.verdict = .pass → SoundPass us options.depth images summary) ↔
        OrphansHarmless us options.depth images) := by
  obtain ⟨us, images, replayer, hevents, himages, happlied, hcounted⟩ := validate_counts h
  refine ⟨us, images, hevents, himages, ?_⟩
  rw [verdict_pass_iff happlied hcounted, SoundPass, compared_iff hcounted,
    forall_pairings us, OrphansHarmless]
  constructor
  · intro hsound
    by_cases hempty : images = []
    · exact .inl hempty
    · by_cases hfailing : ∃ q ∈ pairings us [] images, 0 < q.2 ∧ ¬ Agrees us options.depth q.1
      · exact .inr (.inl hfailing)
      · have hall : ∀ q ∈ pairings us [] images, 0 < q.2 → Agrees us options.depth q.1 := by
          intro q hq hpos
          by_contra hnot
          exact hfailing ⟨q, hq, hpos, hnot⟩
        obtain ⟨hsome, hagrees⟩ := hsound ⟨hempty, hall⟩
        exact .inr (.inr ⟨hsome, fun q hq _ => hagrees q hq⟩)
  · rintro hharmless ⟨hne, hall⟩
    rcases hharmless with hempty | ⟨q, hq, hpos, hnot⟩ | ⟨hsome, horphans⟩
    · exact absurd hempty hne
    · exact absurd (hall q hq hpos) hnot
    · refine ⟨hsome, ?_⟩
      intro q hq
      rcases Nat.eq_zero_or_pos q.2 with hzero | hpos
      · exact horphans q hq hzero
      · exact hall q hq hpos

/-- An opening block of one level. -/
def openingEvents : List Char :=
  ("timestamp,local_timestamp,is_snapshot,side,price,quantity\n" ++
    "1000,1002,true,bid,100,5\n").toList

/-- An image of the block's millisecond, and one of a later millisecond without events. -/
def agreeingReference : List Char :=
  "timestamp,side,level,price,quantity\n1000,bid,0,100,5\n1001,bid,0,100,5\n".toList

theorem pass_sound_iff_agreeing :
    ∃ summary, summary.unambiguousImages = 1 ∧ summary.orphanImages = 1 ∧
      ∃ us images, eventRows exact openingEvents = .ok us ∧
        referenceImages exact agreeingReference = .ok images ∧
        ((summary.verdict = .pass → SoundPass us 25 images summary) ↔
          OrphansHarmless us 25 images) := by
  have h : validate exact openingEvents agreeingReference {} = .ok
      { events := 1, referenceRows := 2, images := 2, unambiguousImages := 1, orphanImages := 1,
        replay := { applied := 1, snapshotRows := 1, lastTimestamp := 1000 } } := by
    decide +kernel
  exact ⟨_, rfl, rfl, pass_sound_iff h⟩

/-- One image, of a millisecond without events; its level is not in the book. -/
def orphanReference : List Char :=
  "timestamp,side,level,price,quantity\n2000,bid,0,50,1\n".toList

/-- The image is compared with nothing, and the run passes. -/
theorem pass_orphan :
    ∃ summary us images, validate exact openingEvents orphanReference {} = .ok summary ∧
      eventRows exact openingEvents = .ok us ∧ referenceImages exact orphanReference = .ok images ∧
      summary.verdict = .pass ∧ ¬ SoundPass us 25 images summary ∧
      ∃ image ∈ images, ¬ Agrees us 25 image := by
  let summary : ValidationSummary :=
    { events := 1, referenceRows := 1, images := 1, orphanImages := 1,
      replay := { applied := 1, snapshotRows := 1, lastTimestamp := 1000 } }
  let us : List BookUpdate := [⟨1000, 1002, true, .bid, .finite 100, .finite 5⟩]
  let image : ReferenceImage := { timestamp := 2000, bids := [⟨.finite 50, .finite 1⟩], rows := 1 }
  refine ⟨summary, us, [image], ?_, ?_, ?_, rfl, ?_, image, List.mem_singleton_self _, ?_⟩
  · decide +kernel
  · decide +kernel
  · decide +kernel
  · intro hsound
    exact absurd hsound.1 (by decide)
  · intro hagrees
    have hbid := hagrees .bid
    revert hbid
    decide +kernel

end Tools
end PerpCarry
