import Mathlib.Data.List.Range
import PerpCarry.Ingestion.FetchSnapshot
import PerpCarry.Tools.MergeTotals

/-!
# Tools.SnapshotImages

The reference of a day, from the wide file to the images of the harness.

What `ReferenceStream` makes of a text depends on its rows alone: they are grouped by their
millisecond, and in a group each row must stand at the next level of its side (`imagesOf`).

* `images_of_rows`: the images of a text, from its rows.
* `takeRows_side`: the rows of one side, in order from the next level on or refused.
* `image_of_wide`: the rows of one wide row give its image, or are refused when it has a hole.
* `snapshot_round_trip`: the melt and the reader, for all the rows of a day.
-/

namespace PerpCarry
namespace Tools

open Lib
open Ingestion

variable {rnd : Rounding}

/-! ## The images of the rows -/

/-- A row that joins an image. -/
def takeRow (image : ReferenceImage) (row : ReferenceRow) : Except Fault ReferenceImage :=
  if row.level ≠ (image.levels row.side).length then .error (ReferenceStream.misplaced image row)
  else .ok (image.push row)

def imageOf (group : Int × List ReferenceRow) : Except Fault ReferenceImage :=
  run takeRow { timestamp := group.1 } group.2

def imagesOf (rows : List ReferenceRow) : Except Fault (List ReferenceImage) :=
  (groups ReferenceRow.timestamp rows).mapM imageOf

section Reading

variable {s s' : ReferenceStream} {image : ReferenceImage} {fuel : Nat}
  {rows : List ReferenceRow}

theorem push_timestamp (image : ReferenceImage) (row : ReferenceRow) :
    (image.push row).timestamp = image.timestamp := by
  unfold ReferenceImage.push
  split <;> rfl

/-- The row in hand is the first of the rows. -/
theorem rows_cons {row : ReferenceRow} (hpending : s.pending = some row)
    (hrows : s.rows (readReference rnd) = .ok rows) :
    ∃ rest s', rows = row :: rest ∧ s.advance rnd = .ok s' ∧
      s'.rows (readReference rnd) = .ok rest := by
  have hline := hrows
  rw [Lookahead.rows, hpending] at hline
  obtain ⟨rest, hrest, rfl⟩ := map_ok.mp hline
  cases hadvance : s.advance rnd with
  | ok s' => exact ⟨rest, s', rfl, rfl, (Lookahead.advance_rows hadvance).trans hrest⟩
  | error f =>
    unfold ReferenceStream.advance Lookahead.advance at hadvance
    rw [Lookahead.lineRows_next] at hrest
    cases hnext : s.csv.next with
    | none => rw [hnext] at hadvance; cases hadvance
    | some found =>
      obtain ⟨fields, csv⟩ := found
      rw [hnext] at hadvance hrest
      simp only at hadvance hrest
      cases hread : readReference rnd fields with
      | error f' => rw [hread] at hrest; cases hrest
      | ok row' => rw [hread] at hadvance; cases hadvance

/-- The loop of `next` takes the rows of the image's millisecond, or refuses one of them. -/
theorem gather_takes (hfuel : s.left ≤ fuel) (hrows : s.rows (readReference rnd) = .ok rows) :
    (∃ f, run takeRow image (rows.takeWhile fun row => row.timestamp = image.timestamp) =
        .error f ∧ s.gather rnd fuel image = .error f) ∨
      ∃ image' s', run takeRow image (rows.takeWhile fun row => row.timestamp = image.timestamp) =
          .ok image' ∧ s.gather rnd fuel image = .ok (image', s') ∧
        s'.rows (readReference rnd) =
          .ok (rows.dropWhile fun row => row.timestamp = image.timestamp) := by
  induction fuel generalizing s image rows with
  | zero =>
    cases hpending : s.pending with
    | some row =>
      have := left_pos hpending
      omega
    | none =>
      rw [Lookahead.rows_none hpending] at hrows
      cases hrows
      exact .inr ⟨image, s, rfl, rfl, Lookahead.rows_none hpending⟩
  | succ fuel ih =>
    unfold ReferenceStream.gather
    cases hpending : s.pending with
    | none =>
      rw [Lookahead.rows_none hpending] at hrows
      cases hrows
      exact .inr ⟨image, s, rfl, rfl, Lookahead.rows_none hpending⟩
    | some row =>
      obtain ⟨rest, s₁, rfl, hadvance, hrest⟩ := rows_cons hpending hrows
      simp only
      by_cases htime : row.timestamp = image.timestamp
      · rw [if_neg (not_not_intro htime), List.takeWhile_cons_of_pos (by simpa using htime),
          List.dropWhile_cons_of_pos (by simpa using htime), hadvance]
        by_cases hlevel : row.level = (image.levels row.side).length
        · have htake : takeRow image row = .ok (image.push row) := if_neg (not_not_intro hlevel)
          have hless := Lookahead.advance_left hpending hadvance
          rw [if_neg (not_not_intro hlevel), run, htake]
          have hnext := @ih _ (image.push row) _ (by omega) hrest
          rwa [push_timestamp] at hnext
        · have htake : takeRow image row = .error (ReferenceStream.misplaced image row) :=
            if_pos hlevel
          rw [if_pos hlevel, run, htake]
          exact .inl ⟨_, rfl, rfl⟩
      · rw [if_pos htime, List.takeWhile_cons_of_neg (by simpa using htime),
          List.dropWhile_cons_of_neg (by simpa using htime)]
        exact .inr ⟨image, s, rfl, rfl, hrows⟩

theorem images_of_rows (hfuel : s.left ≤ fuel) (hrows : s.rows (readReference rnd) = .ok rows) :
    s.images rnd fuel = imagesOf rows := by
  induction fuel generalizing s rows with
  | zero =>
    cases hpending : s.pending with
    | some row =>
      have := left_pos hpending
      omega
    | none =>
      rw [Lookahead.rows_none hpending] at hrows
      cases hrows
      rfl
  | succ fuel ih =>
    unfold ReferenceStream.images
    cases hpending : s.pending with
    | none =>
      rw [Lookahead.rows_none hpending] at hrows
      cases hrows
      rw [ReferenceStream.next, hpending]
      rfl
    | some row =>
      obtain ⟨rest, s₁, rfl, hadvance, hrest⟩ := rows_cons hpending hrows
      have hnext : s.next rnd = (s.gather rnd s.left { timestamp := row.timestamp }).map some := by
        rw [ReferenceStream.next, hpending]
      have htakes := @gather_takes rnd s { timestamp := row.timestamp } _ _ (Nat.le_refl _) hrows
      rw [imagesOf, groups_takeWhile, List.mapM_cons, imageOf]
      rw [List.takeWhile_cons_of_pos (by simp), List.dropWhile_cons_of_pos (by simp)] at htakes
      rcases htakes with ⟨f, hrun, hgather⟩ | ⟨image, s', hrun, hgather, hleft⟩
      · rw [hnext, hgather, hrun]
        rfl
      · have hless := (next_rows (hnext.trans (by rw [hgather]; rfl))).1
        rw [hnext, hgather, hrun]
        show (s'.images rnd fuel).map (image :: ·) = _
        rw [ih (by omega) hleft]
        rfl

end Reading

theorem referenceImages_of_rows {text : List Char} {rows : List ReferenceRow}
    (h : referenceRows rnd text = .ok rows) : referenceImages rnd text = imagesOf rows := by
  unfold referenceRows at h
  unfold referenceImages
  cases hmake : ReferenceStream.make rnd text with
  | error f => rw [hmake] at h; cases h
  | ok s =>
    rw [hmake] at h
    exact images_of_rows (Nat.le_refl _) h

/-! ## The rows of one side -/

/-- The columns of the reference file, of a stored row. -/
def toReference (row : SnapshotRow) : ReferenceRow where
  timestamp := row.timestamp
  side := row.side
  level := row.level
  price := row.price
  quantity := row.quantity

/-- Levels behind those a side of the image has. -/
def extend (image : ReferenceImage) (side : Side) (levels : List Level) : ReferenceImage :=
  match side with
  | .bid => { image with bids := image.bids ++ levels, rows := image.rows + levels.length }
  | .ask => { image with asks := image.asks ++ levels, rows := image.rows + levels.length }

theorem extend_push (image : ReferenceImage) (row : ReferenceRow) (levels : List Level) :
    extend (image.push row) row.side levels =
      extend image row.side (⟨row.price, row.quantity⟩ :: levels) := by
  unfold extend ReferenceImage.push
  cases row.side
  · simp only [List.append_assoc, List.singleton_append, List.length_cons, ReferenceImage.mk.injEq,
      true_and]
    omega
  · simp only [List.append_assoc, List.singleton_append, List.length_cons, ReferenceImage.mk.injEq,
      true_and]
    omega

@[simp] theorem levels_push (image : ReferenceImage) (row : ReferenceRow) :
    (image.push row).levels row.side = image.levels row.side ++ [⟨row.price, row.quantity⟩] := by
  unfold ReferenceImage.push ReferenceImage.levels
  cases row.side <;> rfl

/-- The rows of one side are taken when they stand at the levels that follow, and only then. -/
theorem takeRows_side {side : Side} {rows : List ReferenceRow} (hside : ∀ row ∈ rows, row.side = side)
    (image : ReferenceImage) :
    ((rows.map fun row => row.level) =
        (List.range' (image.levels side).length rows.length).map Int.ofNat ∧
      run takeRow image rows =
        .ok (extend image side (rows.map fun row => ⟨row.price, row.quantity⟩))) ∨
    ((rows.map fun row => row.level) ≠
        (List.range' (image.levels side).length rows.length).map Int.ofNat ∧
      ∃ message, run takeRow image rows = .error (failure message)) := by
  induction rows generalizing image with
  | nil =>
    refine .inl ⟨rfl, ?_⟩
    cases side <;> simp [extend]
  | cons row rows ih =>
    obtain ⟨hrow, hside⟩ := List.forall_mem_cons.mp hside
    subst hrow
    by_cases hlevel : row.level = (image.levels row.side).length
    · have htake : takeRow image row = .ok (image.push row) := if_neg (not_not_intro hlevel)
      have hlength : ((image.push row).levels row.side).length =
          (image.levels row.side).length + 1 := by
        simp
      have hrest := ih hside (image.push row)
      rw [hlength, extend_push] at hrest
      rw [run, htake]
      rcases hrest with ⟨hlevels, hrun⟩ | ⟨hlevels, hrun⟩
      · exact .inl ⟨by simp [List.range'_succ, hlevel, hlevels], hrun⟩
      · refine .inr ⟨?_, hrun⟩
        intro heq
        rw [List.map_cons, List.length_cons, List.range'_succ, List.map_cons] at heq
        exact hlevels (List.cons.inj heq).2
    · have htake : takeRow image row = .error (ReferenceStream.misplaced image row) :=
        if_pos hlevel
      refine .inr ⟨?_, _, by rw [run, htake]; rfl⟩
      intro heq
      rw [List.map_cons, List.length_cons, List.range'_succ, List.map_cons] at heq
      exact hlevel (List.cons.inj heq).1

/-- An increasing list of numbers without a hole below any of them is a range. -/
theorem range_of_closed {n : Nat} {levels : List Nat} (hincreasing : levels.Pairwise (· < ·))
    (hfrom : ∀ level ∈ levels, n ≤ level)
    (hclosed : ∀ level ∈ levels, ∀ j, n ≤ j → j < level → j ∈ levels) :
    levels = List.range' n levels.length := by
  induction levels generalizing n with
  | nil => rfl
  | cons level levels ih =>
    obtain ⟨hfirst, hincreasing⟩ := List.pairwise_cons.mp hincreasing
    have hn : level = n := by
      by_contra hne
      have hlt : n < level := lt_of_le_of_ne (hfrom level List.mem_cons_self) (Ne.symm hne)
      rcases List.mem_cons.mp (hclosed level List.mem_cons_self n le_rfl hlt) with heq | hmem
      · exact hne heq.symm
      · have := hfirst n hmem
        omega
    subst hn
    rw [List.length_cons, List.range'_succ, ← ih hincreasing hfirst]
    intro deeper hdeeper j hj hlt
    rcases List.mem_cons.mp (hclosed deeper (List.mem_cons_of_mem _ hdeeper) j (by omega) hlt) with
      heq | hmem
    · omega
    · exact hmem

/-! ## The rows of one wide row -/

section Wide

variable (columns : List DepthColumn) (row : WideRow)

/-- The row has a price and an amount for the level. -/
def Present (side : Side) (level : Nat) : Prop :=
  row.depth ⟨side, level, .price⟩ ≠ .nan ∧ row.depth ⟨side, level, .amount⟩ ≠ .nan

instance (side : Side) (level : Nat) : Decidable (Present row side level) := by
  unfold Present; infer_instance

def presentLevels (side : Side) : List Nat :=
  (snapshotDepth columns).filter fun level => Present row side level

/-- The present levels are `0` to `k - 1`, for some `k`. -/
def Contiguous (side : Side) : Prop := ∃ k, ∀ level, level ∈ presentLevels columns row side ↔ level < k

/-- A level is missing while a deeper one is present. -/
def Hole (side : Side) : Prop :=
  ∃ level ∈ presentLevels columns row side, ∃ j < level, j ∉ presentLevels columns row side

/-- The ladder of a side, best first. -/
def wideLevels (side : Side) : List Level :=
  (presentLevels columns row side).map fun level =>
    ⟨row.depth ⟨side, level, .price⟩, row.depth ⟨side, level, .amount⟩⟩

/-- The image a wide row is. -/
def wideImage : ReferenceImage where
  timestamp := row.timestampMs
  bids := wideLevels columns row .bid
  asks := wideLevels columns row .ask
  rows := (wideLevels columns row .ask).length + (wideLevels columns row .bid).length

def HasLevel : Prop := ∃ side, presentLevels columns row side ≠ []

variable {columns row}

theorem presentLevels_increasing (side : Side) :
    (presentLevels columns row side).Pairwise (· < ·) :=
  (unique_increasing _).filter _

theorem contiguous_iff {side : Side} : Contiguous columns row side ↔
    presentLevels columns row side =
      List.range' 0 (presentLevels columns row side).length := by
  constructor
  · rintro ⟨k, hk⟩
    refine range_of_closed (presentLevels_increasing side) (fun _ _ => Nat.zero_le _) ?_
    intro level hlevel j _ hlt
    exact (hk j).mpr (hlt.trans ((hk level).mp hlevel))
  · intro heq
    refine ⟨(presentLevels columns row side).length, ?_⟩
    intro level
    nth_rewrite 1 [heq]
    simp

theorem hole_iff {side : Side} : Hole columns row side ↔ ¬ Contiguous columns row side := by
  constructor
  · rintro ⟨level, hlevel, j, hlt, hj⟩ ⟨k, hk⟩
    exact hj ((hk j).mpr (hlt.trans ((hk level).mp hlevel)))
  · intro hnot
    by_contra hhole
    refine hnot (contiguous_iff.mpr (range_of_closed (presentLevels_increasing side)
      (fun _ _ => Nat.zero_le _) ?_))
    intro level hlevel j _ hlt
    by_contra hj
    exact hhole ⟨level, hlevel, j, hlt, hj⟩

variable {text : Text}

/-- The reference row of one level of a wide row. -/
def levelRow (row : WideRow) (side : Side) (level : Nat) : ReferenceRow where
  timestamp := row.timestampMs
  side
  level
  price := row.depth ⟨side, level, .price⟩
  quantity := row.depth ⟨side, level, .amount⟩

def sideRows (columns : List DepthColumn) (row : WideRow) (side : Side) : List ReferenceRow :=
  (presentLevels columns row side).map (levelRow row side)

theorem meltedAt_toReference {side : Side} {level : Nat} (hlevel : level < 2 ^ 15) :
    (row.meltedAt text (side, level)).map toReference =
      if Present row side level then some (levelRow row side level) else none := by
  unfold WideRow.meltedAt WideRow.melted
  dsimp only
  by_cases hpresent : Present row side level
  · have hcell := hpresent
    unfold Present at hcell
    rw [if_pos hpresent, if_pos hcell, Option.map_some, int16_of_lt hlevel]
    rfl
  · have hcell := hpresent
    unfold Present at hcell
    rw [if_neg hpresent, if_neg hcell]
    rfl

theorem longRows_toReference (text : Text) (h : BookSnapshot columns) (row : WideRow) :
    (row.longRows text columns).map toReference =
      sideRows columns row .ask ++ sideRows columns row .bid := by
  have hside : ∀ side : Side, (((snapshotDepth columns).map fun level => (side, level)).filterMap
      fun cell => row.meltedAt text cell).map toReference = sideRows columns row side := by
    intro side
    rw [List.filterMap_map, List.map_filterMap, sideRows, presentLevels, ← List.filterMap_eq_map,
      List.filterMap_filter]
    refine List.filterMap_congr ?_
    intro level hlevel
    exact (meltedAt_toReference (h.narrow level hlevel)).trans (by simp)
  unfold WideRow.longRows cellsOf depthCells
  rw [List.flatMap_cons, List.flatMap_singleton, List.filterMap_append, List.map_append, hside,
    hside]

theorem sideRows_levels (side : Side) :
    ((sideRows columns row side).map fun r => r.level) =
        (List.range' 0 (sideRows columns row side).length).map Int.ofNat ↔
      Contiguous columns row side := by
  rw [contiguous_iff, sideRows, List.map_map, List.length_map]
  exact List.map_inj_right (fun _ _ => Int.ofNat.inj)

/-- The rows of one side, in an image that has none of the side yet. -/
theorem takeRows_wide (columns : List DepthColumn) (row : WideRow) (side : Side)
    {image : ReferenceImage} (hnone : image.levels side = []) :
    (Contiguous columns row side ∧ run takeRow image (sideRows columns row side) =
        .ok (extend image side (wideLevels columns row side))) ∨
      (Hole columns row side ∧
        ∃ message, run takeRow image (sideRows columns row side) = .error (failure message)) := by
  have hside : ∀ r ∈ sideRows columns row side, r.side = side := by
    intro r hr
    obtain ⟨level, -, rfl⟩ := List.mem_map.mp hr
    rfl
  have hlevels : ((sideRows columns row side).map fun r => (⟨r.price, r.quantity⟩ : Level)) =
      wideLevels columns row side := by
    rw [sideRows, List.map_map]
    rfl
  have hrows := takeRows_side hside image
  rw [hnone, List.length_nil, hlevels, ne_eq, sideRows_levels] at hrows
  exact hrows.imp_right fun ⟨hnot, hrun⟩ => ⟨hole_iff.mpr hnot, hrun⟩

/-- The image of one wide row: its ladders, or a refusal when a side has a hole. -/
theorem image_of_wide (text : Text) (h : BookSnapshot columns) (row : WideRow) :
    ((∀ side, Contiguous columns row side) ∧
        imageOf (row.timestampMs, (row.longRows text columns).map toReference) =
          .ok (wideImage columns row)) ∨
      ((∃ side, Hole columns row side) ∧
        ∃ message, imageOf (row.timestampMs, (row.longRows text columns).map toReference) =
          .error (failure message)) := by
  unfold imageOf
  rw [longRows_toReference text h, run_append]
  let image : ReferenceImage := { timestamp := row.timestampMs }
  have hnone : image.levels .ask = [] := rfl
  have hnone' : (extend image .ask (wideLevels columns row .ask)).levels .bid = [] := rfl
  rcases takeRows_wide columns row .ask hnone with ⟨hasks, hrun⟩ | ⟨hhole, message, hrun⟩
  · rw [hrun]
    rcases takeRows_wide columns row .bid hnone' with ⟨hbids, hrun'⟩ | ⟨hhole, message, hrun'⟩
    · refine .inl ⟨fun side => by cases side <;> assumption, hrun'.trans ?_⟩
      simp [extend, image, wideImage]
    · exact .inr ⟨⟨_, hhole⟩, message, hrun'⟩
  · rw [hrun]
    exact .inr ⟨⟨_, hhole⟩, message, rfl⟩

theorem hasLevel_sides : HasLevel columns row ↔
    presentLevels columns row .ask ≠ [] ∨ presentLevels columns row .bid ≠ [] := by
  constructor
  · rintro ⟨side, hside⟩
    cases side
    · exact .inr hside
    · exact .inl hside
  · rintro (hask | hbid)
    · exact ⟨_, hask⟩
    · exact ⟨_, hbid⟩

instance (columns : List DepthColumn) (row : WideRow) : Decidable (HasLevel columns row) :=
  decidable_of_iff _ hasLevel_sides.symm

theorem hasLevel_iff (text : Text) (h : BookSnapshot columns) (row : WideRow) :
    HasLevel columns row ↔ row.longRows text columns ≠ [] := by
  have hlong := longRows_toReference text h row
  have hnil : row.longRows text columns = [] ↔
      sideRows columns row .ask = [] ∧ sideRows columns row .bid = [] := by
    rw [← List.append_eq_nil_iff, ← hlong, List.map_eq_nil_iff]
  rw [hasLevel_sides, ne_eq, ne_eq, ne_eq, hnil, sideRows, sideRows, List.map_eq_nil_iff,
    List.map_eq_nil_iff, not_and_or]

end Wide

/-! ## All the rows -/

section Rows

variable {text : Text} {columns : List DepthColumn} {rows : List WideRow}

/-- The reader's groups are the wide rows that have a level. -/
theorem groups_wide (hrows : Chronological rows) :
    groups ReferenceRow.timestamp
        ((rows.flatMap (WideRow.longRows text columns)).map toReference) =
      (rows.filter fun row => !((row.longRows text columns).map toReference).isEmpty).map
        fun row => (row.timestampMs, (row.longRows text columns).map toReference) := by
  rw [List.map_flatMap]
  refine groups_blocks ?_ (hrows.imp fun hlt => hlt.ne)
  intro row _ r hr
  obtain ⟨long, hlong, rfl⟩ := List.mem_map.mp hr
  exact longRows_timestamp hlong

/-- A list on which a function refuses one element at least, and only ever refuses so. -/
theorem mapM_failure {α β : Type} {f : α → Except Fault β} {xs : List α}
    (h : ∀ x ∈ xs, (∃ y, f x = .ok y) ∨ ∃ message, f x = .error (failure message))
    (hsome : ∃ x ∈ xs, ∃ message, f x = .error (failure message)) :
    ∃ message, xs.mapM f = .error (failure message) := by
  induction xs with
  | nil =>
    obtain ⟨x, hx, -⟩ := hsome
    cases hx
  | cons x xs ih =>
    obtain ⟨hx, hxs⟩ := List.forall_mem_cons.mp h
    rw [List.mapM_cons]
    rcases hx with ⟨y, hy⟩ | ⟨message, hmessage⟩
    · have hrest : ∃ x ∈ xs, ∃ message, f x = .error (failure message) := by
        obtain ⟨x', hx', message, hmessage⟩ := hsome
        rcases List.mem_cons.mp hx' with rfl | hx'
        · rw [hy] at hmessage
          cases hmessage
        · exact ⟨x', hx', message, hmessage⟩
      obtain ⟨message, hmessage⟩ := ih hxs hrest
      exact ⟨message, by rw [hy, hmessage]; rfl⟩
    · exact ⟨message, by rw [hmessage]; rfl⟩

theorem imagesOf_wide (h : BookSnapshot columns) (hrows : Chronological rows) :
    imagesOf ((rows.flatMap (WideRow.longRows text columns)).map toReference) =
      (rows.filter fun row => HasLevel columns row).mapM fun row =>
        imageOf (row.timestampMs, (row.longRows text columns).map toReference) := by
  unfold imagesOf
  rw [groups_wide hrows, List.mapM_map]
  congr 1
  refine List.filter_congr ?_
  intro row _
  rw [Bool.eq_iff_iff, decide_eq_true_eq, hasLevel_iff text h]
  simp

theorem snapshot_round_trip {symbol : String} {day : Day} {chunks : List (List WideRow)}
    (h : BookSnapshot columns) (hrows : Chronological chunks.flatten)
    (haccepted : ∀ row ∈ chunks.flatten, row.Accepted text columns symbol day) :
    ∃ frame, meltChunks text columns symbol day chunks = .ok frame ∧
      ∀ (rnd : Rounding) (csv : List Char),
        referenceRows rnd csv = .ok (frame.map toReference) →
        ((∀ row ∈ chunks.flatten, ∀ side, Contiguous columns row side) →
          referenceImages rnd csv =
            .ok ((chunks.flatten.filter fun row => HasLevel columns row).map
              (wideImage columns))) ∧
        ((∃ row ∈ chunks.flatten, ∃ side, Hole columns row side) →
          ∃ message, referenceImages rnd csv = .error (failure message)) := by
  refine ⟨_, meltChunks_ok h hrows haccepted, ?_⟩
  intro rnd csv hcsv
  have himages := (referenceImages_of_rows hcsv).trans (imagesOf_wide h hrows)
  refine ⟨?_, ?_⟩
  · intro hcontiguous
    rw [himages]
    refine mapM_of_ok ?_
    intro row hrow
    rcases image_of_wide text h row with ⟨-, himage⟩ | ⟨⟨side, hhole⟩, -⟩
    · exact himage
    · exact absurd (hcontiguous row (List.mem_filter.mp hrow).1 side) (hole_iff.mp hhole)
  · rintro ⟨row, hrow, side, hhole⟩
    rw [himages]
    refine mapM_failure ?_ ⟨row, ?_, ?_⟩
    · intro row' _
      rcases image_of_wide text h row' with ⟨-, himage⟩ | ⟨-, hrefused⟩
      · exact .inl ⟨_, himage⟩
      · exact .inr hrefused
    · obtain ⟨level, hlevel, -⟩ := hhole
      exact List.mem_filter.mpr ⟨hrow, by simpa using ⟨side, List.ne_nil_of_mem hlevel⟩⟩
    · rcases image_of_wide text h row with ⟨hcontiguous, -⟩ | ⟨-, hrefused⟩
      · exact absurd (hcontiguous side) (hole_iff.mp hhole)
      · exact hrefused

end Rows

def plainText : Text := ⟨id, id⟩

/-- The columns of a snapshot two levels deep. -/
def wideColumns : List DepthColumn :=
  [Side.ask, Side.bid].flatMap fun side => [0, 1].flatMap fun level =>
    [⟨side, level, .price⟩, ⟨side, level, .amount⟩]

/-- A wide row of 1970-01-01 with the given ladders. -/
def wideRow (timestamp : Int) (asks bids : List Level) : WideRow where
  exchange := "binance-futures"
  symbol := "SOLUSDT"
  timestamp := some timestamp
  localTimestamp := some (timestamp + 370)
  depth column :=
    match (if column.side = .ask then asks else bids)[column.level]?, column.field with
    | none, _ => .nan
    | some level, .price => level.price
    | some level, .amount => level.quantity

/-- Three rows in two chunks, the second row an empty book. -/
def wideChunks : List (List WideRow) :=
  [[wideRow 61000 [⟨.finite 37, .finite 11⟩] [⟨.finite 35, .finite 2⟩, ⟨.finite 34, .finite 6⟩]],
    [wideRow 62000 [] [], wideRow 63999 [] [⟨.finite 36, .finite 8⟩]]]

def wideCsv : List Char :=
  ("timestamp,side,level,price,quantity\n61,ask,0,37,11\n61,bid,0,35,2\n61,bid,1,34,6\n" ++
    "63,bid,0,36,8\n").toList

theorem wideColumns_snapshot : BookSnapshot wideColumns where
  nonempty := by decide
  complete := by
    have hdepth : snapshotDepth wideColumns = [0, 1] := by decide
    rw [hdepth]
    intro level hlevel side field
    rcases List.mem_pair.mp hlevel with rfl | rfl
    · cases side <;> cases field <;> decide
    · cases side <;> cases field <;> decide
  narrow := by decide

theorem wideChunks_accepted : ∀ row ∈ wideChunks.flatten,
    row.Accepted plainText wideColumns "SOLUSDT" ⟨"1970-01-01", 0⟩ := by
  intro row hrow
  simp only [wideChunks, List.flatten_cons, List.flatten_nil, List.mem_cons, List.cons_append,
    List.nil_append, List.not_mem_nil, or_false] at hrow
  rcases hrow with rfl | rfl | rfl
  all_goals exact ⟨rfl, Option.some_ne_none _, Option.some_ne_none _, fun _ => rfl⟩

theorem wideChunks_contiguous : ∀ row ∈ wideChunks.flatten, ∀ side,
    Contiguous wideColumns row side := by
  intro row hrow side
  simp only [wideChunks, List.flatten_cons, List.flatten_nil, List.mem_cons, List.cons_append,
    List.nil_append, List.not_mem_nil, or_false] at hrow
  rcases hrow with rfl | rfl | rfl
  all_goals
    rw [contiguous_iff]
    cases side <;> decide +kernel

theorem snapshot_round_trip_wideChunks :
    referenceImages exact wideCsv =
      .ok ((wideChunks.flatten.filter fun row => HasLevel wideColumns row).map
        (wideImage wideColumns)) := by
  have hrows : Chronological wideChunks.flatten := by
    simp [Chronological, wideChunks, wideRow, WideRow.timestampMs]
  obtain ⟨frame, hframe, hread⟩ :=
    snapshot_round_trip wideColumns_snapshot hrows wideChunks_accepted
  have hmelt := meltChunks_ok wideColumns_snapshot hrows wideChunks_accepted
  have hcsv : referenceRows exact wideCsv =
      .ok ((wideChunks.flatten.flatMap (WideRow.longRows plainText wideColumns)).map
        toReference) := by decide +kernel
  rw [hmelt] at hframe
  cases hframe
  exact (hread exact wideCsv hcsv).1 wideChunks_contiguous

end Tools
end PerpCarry
