import PerpCarry.Ingestion.FetchTrades

/-!
# Ingestion.BackfillGate

What the backfill of the trades accepts, the corpus gate accepts: the checks of
`python/perpcarry/ingestion/fetch_trades.py` against those of
`python/perpcarry/ingestion/validate_data.py`.

The backfill looks at the ids of a month at a time, the gate at those of a day. Both see the same
ids: in date order the days are one strictly ascending list with the members of the months, and such
a list is decided by its members.

* `loaded_chain`: the ids of the months, in order, have no large gap.
* `days_eq`: the ids of the days are those of the months.
* `backfill_gated`: the days of a symbol that was backfilled without a skip pass both checks.
-/

namespace PerpCarry
namespace Ingestion
namespace FetchTrades

open Lib TradeIds

/-- `corpus` lists the stored days of a symbol, and their ids. -/
structure Reads (corpus : TradeCorpus) (symbol : String)
    (stored : Partitions.Store (String × String) TradeRow) : Prop where
  dates : ∀ date, date ∈ corpus.dates symbol ↔ stored (symbol, date) ≠ []
  ids : ∀ date, corpus.tradeIds symbol date = (stored (symbol, date)).map (·.tradeId)

/-- No id of the symbol is negative, and the ids do not go back from a date to a later one. -/
structure Ascending (stored : Partitions.Store (String × String) TradeRow) (symbol : String) :
    Prop where
  nonneg : ∀ date, ∀ row ∈ stored (symbol, date), 0 ≤ row.tradeId
  dates : ∀ date date', date < date' → ∀ row ∈ stored (symbol, date),
    ∀ row' ∈ stored (symbol, date'), row.tradeId < row'.tradeId

/-- Neighbours without a large gap. -/
def Close (a b : Int) : Prop := b - a - 1 ≤ TradeIds.MAX_ID_SKIP

/-- A chain that goes on after a block, from the last element of the block if it has one. -/
theorem chain_carry {α : Type} {r : α → α → Prop} {c : Option α} {block rest : List α}
    (hblock : block.IsChain r) (hfirst : ∀ last ∈ c, ∀ first ∈ block.head?, r last first)
    (hrest : ((block.getLast?.or c).toList ++ rest).IsChain r) :
    (c.toList ++ (block ++ rest)).IsChain r := by
  cases block with
  | nil => exact hrest
  | cons first block =>
    rw [List.getLast?_cons, Option.some_or, Option.toList_some, List.singleton_append] at hrest
    obtain ⟨hnext, hchain⟩ := List.isChain_cons.mp hrest
    have hwhole : (first :: block ++ rest).IsChain r := by
      refine List.isChain_append.mpr ⟨hblock, hchain, ?_⟩
      rw [List.getLast?_cons]
      rintro _ ⟨⟩
      exact hnext
    cases c with
    | none => exact hwhole
    | some last => exact List.isChain_cons.mpr ⟨fun y hy => hfirst last rfl y hy, hwhole⟩

/-! ## The months -/

section Months

variable {casts : Casts} {archive : Archive} {symbol : String} {allowMissing : Bool}
  {months : List Month} {c : Option Int}

/-- The ids of some months. -/
def idsOf (loaded : List (Month × List TradeRow)) : List Int :=
  loaded.flatMap fun found => found.2.map (·.tradeId)

/-- The ids of a checked month ascend, and are close to each other. -/
theorem checked_close {month : Month} {raw : RawFrame} {frame : List TradeRow}
    {previousLastId lastId : Option Int} (hframe : normalise casts raw symbol = .ok frame)
    (hchecked : MonthChecked month previousLastId frame lastId)
    (hpos : ∀ row ∈ frame, 0 ≤ row.tradeId) :
    (frame.map (·.tradeId)).IsChain Close := by
  obtain ⟨hsorted, _⟩ := normalise_ok hframe
  have hids : (frame.map (·.tradeId)).Pairwise (· ≤ ·) := List.pairwise_map.mpr hsorted
  have hrange : ∀ id ∈ frame.map (·.tradeId), 0 ≤ id ∧ id < 2 ^ 63 := by
    intro id hid
    obtain ⟨row, hrow, rfl⟩ := List.mem_map.mp hid
    obtain ⟨found, _, hstored⟩ := frame_stored hframe hrow
    exact ⟨hpos row hrow, (casts.int64_range _ _ hstored.tradeId).2⟩
  refine (isChain_and.mpr ⟨hchecked.steps, hids.isChain⟩).imp_of_mem_imp ?_
  intro a b ha hb ⟨htolerated, hle⟩
  obtain ⟨hzero, _⟩ := hrange a ha
  obtain ⟨_, hlt⟩ := hrange b hb
  by_cases hnext : b - a ≤ 1
  · unfold Close TradeIds.MAX_ID_SKIP
    omega
  · refine htolerated ?_
    rw [difference_small hle (by omega)]
    omega

/-- The ids of the months that are loaded without a skip, after the last id before them. -/
theorem loaded_chain
    (houtcome : Partitions.outcome (loadMonth casts archive symbol allowMissing) months c = .ok [])
    (hpos : ∀ found ∈ Partitions.loaded (loadMonth casts archive symbol allowMissing) months c,
      ∀ row ∈ found.2, 0 ≤ row.tradeId) :
    (c.toList ++ idsOf (Partitions.loaded (loadMonth casts archive symbol allowMissing) months
      c)).IsChain Close := by
  induction months generalizing c with
  | nil =>
    cases c with
    | none => exact List.IsChain.nil
    | some last => exact List.IsChain.singleton last
  | cons month months ih =>
    unfold Partitions.outcome at houtcome
    unfold Partitions.loaded at hpos ⊢
    cases hload : loadMonth casts archive symbol allowMissing c month with
    | error e =>
      rw [hload] at houtcome
      cases houtcome
    | ok result =>
      obtain ⟨found, after⟩ := result
      cases found with
      | none =>
        -- a skip would be reported
        rw [hload] at houtcome
        obtain ⟨_, _, hnil⟩ := map_ok.mp houtcome
        cases hnil
      | some frame =>
        rw [hload] at houtcome hpos
        obtain ⟨raw, hraw, hframe, hchecked⟩ := loadMonth_ok hload
        have hrest := ih houtcome fun found hfound =>
          hpos found (List.mem_cons_of_mem _ hfound)
        have hclose := checked_close hframe hchecked
          (hpos (month, frame) List.mem_cons_self)
        rw [hchecked.lastId_eq] at hrest ⊢
        exact chain_carry hclose hchecked.boundary hrest

/-- In the order of the months, the ids that do not go back from date to date ascend. -/
theorem loaded_ascending (hmonths : months.Pairwise fun a b => a.index < b.index)
    (hyears : ∀ month ∈ months, 1000 ≤ month.year)
    (hdates : ∀ found ∈ Partitions.loaded (loadMonth casts archive symbol allowMissing) months c,
      ∀ found' ∈ Partitions.loaded (loadMonth casts archive symbol allowMissing) months c,
      ∀ row ∈ found.2, ∀ row' ∈ found'.2, row.date < row'.date → row.tradeId < row'.tradeId) :
    (idsOf (Partitions.loaded (loadMonth casts archive symbol allowMissing) months c)).Pairwise
      (· < ·) := by
  unfold idsOf
  rw [List.pairwise_flatMap]
  constructor
  · intro found hfound
    obtain ⟨_, _, hload⟩ := Partitions.loaded_load hfound
    obtain ⟨_, _, hframe, hchecked⟩ := loadMonth_ok hload
    have hsorted := List.pairwise_map.mpr (normalise_ok hframe).1
    exact (hsorted.and hchecked.distinct).imp fun hab => lt_of_le_of_ne hab.1 hab.2
  · have hordered : ((Partitions.loaded (loadMonth casts archive symbol allowMissing) months
        c).map (·.1)).Pairwise fun a b => a.index < b.index :=
      hmonths.sublist Partitions.loaded_sublist
    refine (List.pairwise_map.mp hordered).imp_of_mem ?_
    intro a b ha hb hlt id hid id' hid'
    obtain ⟨row, hrow, rfl⟩ := List.mem_map.mp hid
    obtain ⟨row', hrow', rfl⟩ := List.mem_map.mp hid'
    obtain ⟨_, _, _, hdated⟩ := loaded_months ha
    obtain ⟨_, _, _, hdated'⟩ := loaded_months hb
    have hmonth := Partitions.loaded_sublist.subset (List.mem_map_of_mem ha)
    refine hdates a ha b hb row hrow row' hrow' (String.lt_iff.mpr ?_)
    exact Month.dated_lt (hyears a.1 hmonth) hlt (hdated row hrow).2 (hdated' row' hrow').2

end Months

/-! ## The days -/

section Days

variable {corpus : TradeCorpus} {symbol : String}
  {stored : Partitions.Store (String × String) TradeRow}

theorem mem_days (hreads : Reads corpus symbol stored) {id : Int} :
    id ∈ (corpus.days symbol).flatten ↔
      ∃ date, ∃ row ∈ stored (symbol, date), row.tradeId = id := by
  unfold TradeCorpus.days TradeCorpus.daysOf
  rw [List.mem_flatten]
  constructor
  · rintro ⟨day, hday, hid⟩
    obtain ⟨date, hdate, rfl⟩ := List.mem_map.mp (List.mem_filter.mp hday).1
    unfold TradeCorpus.sortedIds at hid
    rw [List.mem_insertionSort, hreads.ids] at hid
    obtain ⟨row, hrow, hrowId⟩ := List.mem_map.mp hid
    exact ⟨date, row, hrow, hrowId⟩
  · rintro ⟨date, row, hrow, rfl⟩
    have hid : row.tradeId ∈ corpus.sortedIds symbol date := by
      unfold TradeCorpus.sortedIds
      rw [List.mem_insertionSort, hreads.ids]
      exact List.mem_map_of_mem hrow
    refine ⟨corpus.sortedIds symbol date, ?_, hid⟩
    refine List.mem_filter.mpr ⟨List.mem_map_of_mem ?_, decide_eq_true (List.ne_nil_of_mem hid)⟩
    exact (hreads.dates date).mpr (List.ne_nil_of_mem hrow)

/-- In date order the ids of the days ascend. -/
theorem days_ascending (hreads : Reads corpus symbol stored) (hascending : Ascending stored symbol)
    (hdistinct : ∀ date, ((stored (symbol, date)).map (·.tradeId)).Nodup) :
    (corpus.days symbol).flatten.Pairwise (· < ·) := by
  unfold TradeCorpus.days TradeCorpus.daysOf
  rw [List.pairwise_flatten]
  constructor
  · intro day hday
    obtain ⟨date, _, rfl⟩ := List.mem_map.mp (List.mem_filter.mp hday).1
    have hnodup : (corpus.tradeIds symbol date).Nodup := hreads.ids date ▸ hdistinct date
    exact List.isChain_iff_pairwise.mp (TradeCorpus.sortedIds_increasing hnodup)
  · refine List.Pairwise.filter _ (List.pairwise_map.mpr ?_)
    refine (corpus.sorted symbol).imp ?_
    intro date date' hlt id hid id' hid'
    unfold TradeCorpus.sortedIds at hid hid'
    rw [List.mem_insertionSort, hreads.ids] at hid hid'
    obtain ⟨row, hrow, rfl⟩ := List.mem_map.mp hid
    obtain ⟨row', hrow', rfl⟩ := List.mem_map.mp hid'
    exact hascending.dates date date' hlt row hrow row' hrow'

/-- Nothing is reported of days whose ids, one after the other, are close to each other. -/
theorem continuityFrom_close {dates : List String} {previous : Option (Int × String)}
    (h : ((previous.map (·.1)).toList ++ (corpus.daysOf symbol dates).flatten).IsChain Close) :
    ∀ result ∈ corpus.continuityFrom symbol previous dates, result.passed = true := by
  induction dates generalizing previous with
  | nil => exact List.forall_mem_nil _
  | cons date rest ih =>
    unfold TradeCorpus.continuityFrom
    cases hids : corpus.sortedIds symbol date with
    | nil =>
      have hdays : corpus.daysOf symbol (date :: rest) = corpus.daysOf symbol rest := by
        simp [TradeCorpus.daysOf, hids]
      rw [hdays] at h
      exact ih h
    | cons firstId more =>
      have hdays : corpus.daysOf symbol (date :: rest) =
          (firstId :: more) :: corpus.daysOf symbol rest := by
        simp [TradeCorpus.daysOf, hids]
      rw [hdays, List.flatten_cons] at h
      obtain ⟨_, hchain, hfirst⟩ := List.isChain_append.mp h
      obtain ⟨hday, hrest, hnext⟩ := List.isChain_append.mp hchain
      simp only [List.forall_mem_cons, List.forall_mem_append]
      refine ⟨?_, ?_, ih ?_⟩
      · exact dayResult_passed.mpr (hday.imp fun a b hclose _ => hclose)
      · cases previous with
        | none => exact List.forall_mem_nil _
        | some last =>
          have hclose : ¬ TradeIds.MAX_ID_SKIP < firstId - last.1 - 1 :=
            not_lt.mpr (hfirst last.1 rfl firstId rfl)
          rw [boundaryResult, if_neg hclose]
          exact List.forall_mem_nil _
      · refine List.isChain_cons.mpr ⟨?_, hrest⟩
        rw [List.getLast?_cons, ← List.getLastD_eq_getLast?] at hnext
        exact hnext _ rfl

theorem collide_new {date : String} {seen : Int → Option String} {ids : List Int}
    (hnew : ∀ id ∈ ids, seen id = none) (hdistinct : ids.Nodup) :
    (collide date seen ids).1 = [] ∧
      ∀ id, id ∉ ids → (collide date seen ids).2 id = seen id := by
  induction ids generalizing seen with
  | nil => exact ⟨rfl, fun _ _ => rfl⟩
  | cons id ids ih =>
    obtain ⟨hid, hrest⟩ := List.nodup_cons.mp hdistinct
    have hnew' : ∀ other ∈ ids, Function.update seen id (some date) other = none := by
      intro other hother
      rw [Function.update_of_ne (ne_of_mem_of_not_mem hother hid)]
      exact hnew other (List.mem_cons_of_mem _ hother)
    obtain ⟨hfound, hsame⟩ := ih hnew' hrest
    unfold collide
    rw [hnew id List.mem_cons_self]
    refine ⟨hfound, ?_⟩
    intro other hother
    obtain ⟨hne, hnot⟩ := not_or.mp (List.mem_cons.not.mp hother)
    show (collide date (Function.update seen id (some date)) ids).2 other = seen other
    rw [hsame other hnot, Function.update_of_ne hne]

theorem duplicateTradeIds_distinct {ids : List Int} (h : ids.Nodup) : duplicateTradeIds ids = [] := by
  have hnone : (ids.filter fun id => 1 < ids.count id) = [] := by
    refine List.filter_eq_nil_iff.mpr fun id _ hmany => ?_
    have := List.nodup_iff_count_le_one.mp h id
    exact absurd (of_decide_eq_true hmany) (by omega)
  unfold duplicateTradeIds
  rw [hnone]
  rfl

theorem collisionsFrom_distinct {dates : List String} {seen : Int → Option String}
    (hnew : ∀ date ∈ dates, ∀ id ∈ corpus.tradeIds symbol date, seen id = none)
    (hdays : ∀ date ∈ dates, (corpus.tradeIds symbol date).Nodup)
    (happart : dates.Pairwise fun date date' =>
      ∀ id ∈ corpus.tradeIds symbol date, id ∉ corpus.tradeIds symbol date') :
    corpus.collisionsFrom symbol seen dates = [] := by
  induction dates generalizing seen with
  | nil => rfl
  | cons date rest ih =>
    obtain ⟨hfirst, hrest⟩ := List.pairwise_cons.mp happart
    obtain ⟨hfound, hsame⟩ := collide_new (hnew date List.mem_cons_self)
      (hdays date List.mem_cons_self)
    have hwithin := duplicateTradeIds_distinct (hdays date List.mem_cons_self)
    unfold TradeCorpus.collisionsFrom
    dsimp only
    rw [hwithin, if_pos rfl, List.nil_append, hfound, List.nil_append]
    refine ih ?_ (fun d hd => hdays d (List.mem_cons_of_mem _ hd)) hrest
    intro later hlater id hid
    rw [hsame id fun hmem => hfirst later hlater id hmem hid]
    exact hnew later (List.mem_cons_of_mem _ hlater) id hid

end Days

/-! ## Both -/

section Gate

variable {casts : Casts} {archive : Archive} {symbol : String} {allowMissing : Bool}
  {before stored : Partitions.Store (String × String) TradeRow} {start last : Month}

/-- The rows stored of a symbol that had none are those of the months loaded. -/
theorem stored_rows (hempty : ∀ date, before (symbol, date) = [])
    (h : backfill casts archive symbol allowMissing start last before = (.ok [], stored))
    {date : String} {row : TradeRow} :
    row ∈ stored (symbol, date) ↔ row.date = date ∧ ∃ found ∈ Partitions.loaded
      (loadMonth casts archive symbol allowMissing) (Month.monthsBetween start last) none,
      row ∈ found.2 := by
  unfold backfill at h
  rw [Partitions.fill_eq] at h
  obtain ⟨_, rfl⟩ := Prod.mk.inj h
  have hnodup := monthsBetween_nodup start last
  constructor
  · intro hrow
    by_cases hnone : ∀ found ∈ Partitions.loaded (loadMonth casts archive symbol allowMissing)
        (Month.monthsBetween start last) none, ∀ other ∈ found.2, other.date ≠ date
    · rw [Partitions.writeAll_of_not_mem, hempty] at hrow
      · cases hrow
      · rintro _ hrows other hother hkey
        obtain ⟨found, hfound, rfl⟩ := List.mem_map.mp hrows
        exact hnone found hfound other hother (Prod.mk.inj hkey).2
    · push Not at hnone
      obtain ⟨found, hfound, other, hother, hdate⟩ := hnone
      obtain ⟨_, _, hmonth⟩ := month_stored hnodup before hfound
      rw [hmonth.traded date ⟨other, hother, hdate⟩] at hrow
      obtain ⟨hmem, hsame⟩ := List.mem_filter.mp hrow
      exact ⟨of_decide_eq_true hsame, found, hfound, hmem⟩
  · rintro ⟨rfl, found, hfound, hmem⟩
    obtain ⟨_, _, hmonth⟩ := month_stored hnodup before hfound
    rw [hmonth.traded row.date ⟨row, hmem, rfl⟩]
    exact List.mem_filter.mpr ⟨hmem, decide_eq_true rfl⟩

theorem stored_distinct (hempty : ∀ date, before (symbol, date) = [])
    (h : backfill casts archive symbol allowMissing start last before = (.ok [], stored))
    (date : String) : ((stored (symbol, date)).map (·.tradeId)).Nodup := by
  by_cases hnil : stored (symbol, date) = []
  · rw [hnil]
    exact List.nodup_nil
  · obtain ⟨row, hrow⟩ := List.exists_mem_of_ne_nil _ hnil
    obtain ⟨hdate, found, hfound, hmem⟩ := (stored_rows hempty h).mp hrow
    unfold backfill at h
    rw [Partitions.fill_eq] at h
    obtain ⟨_, rfl⟩ := Prod.mk.inj h
    obtain ⟨_, _, hmonth⟩ := month_stored (monthsBetween_nodup start last) before hfound
    rw [hmonth.traded date ⟨row, hmem, hdate⟩]
    exact List.pairwise_map.mpr ((hmonth.ascending.filter _).imp ne_of_lt)

/-- The ids of the days, in date order, are those of the months, in theirs. -/
theorem days_eq {corpus : TradeCorpus} (hyear : 1000 ≤ start.year)
    (hempty : ∀ date, before (symbol, date) = [])
    (h : backfill casts archive symbol allowMissing start last before = (.ok [], stored))
    (hreads : Reads corpus symbol stored) (hascending : Ascending stored symbol) :
    (corpus.days symbol).flatten.Pairwise (· < ·) ∧
      (corpus.days symbol).flatten = idsOf (Partitions.loaded
        (loadMonth casts archive symbol allowMissing) (Month.monthsBetween start last) none) := by
  have hmonths : (idsOf (Partitions.loaded (loadMonth casts archive symbol allowMissing)
      (Month.monthsBetween start last) none)).Pairwise (· < ·) := by
    refine loaded_ascending (Month.monthsBetween_sorted start last) ?_ ?_
    · intro month hmonth
      have := (Month.mem_monthsBetween.mp hmonth).1
      have := month.valid
      have := start.valid
      simp only [Month.index] at *
      omega
    · intro found hfound found' hfound' row hrow row' hrow' hlt
      exact hascending.dates _ _ hlt row ((stored_rows hempty h).mpr ⟨rfl, found, hfound, hrow⟩)
        row' ((stored_rows hempty h).mpr ⟨rfl, found', hfound', hrow'⟩)
  have hdays := days_ascending hreads hascending (stored_distinct hempty h)
  refine ⟨hdays, ?_⟩
  have hperm : (corpus.days symbol).flatten.Perm (idsOf (Partitions.loaded
      (loadMonth casts archive symbol allowMissing) (Month.monthsBetween start last) none)) := by
    refine (List.perm_ext_iff_of_nodup (hdays.imp ne_of_lt) (hmonths.imp ne_of_lt)).mpr ?_
    intro id
    unfold idsOf
    rw [mem_days hreads, List.mem_flatMap]
    constructor
    · rintro ⟨date, row, hrow, rfl⟩
      obtain ⟨_, found, hfound, hmem⟩ := (stored_rows hempty h).mp hrow
      exact ⟨found, hfound, List.mem_map_of_mem hmem⟩
    · rintro ⟨found, hfound, hid⟩
      obtain ⟨row, hrow, rfl⟩ := List.mem_map.mp hid
      exact ⟨row.date, row, (stored_rows hempty h).mpr ⟨rfl, found, hfound, hrow⟩, rfl⟩
  exact hperm.eq_of_pairwise (fun a b _ _ hlt hgt => absurd hgt (lt_asymm hlt)) hdays hmonths

/-- A symbol that is backfilled from nothing and without a skip passes both checks of the gate, and
its ids form one ascending sequence, if its archives' ids do not go back from date to date. -/
theorem backfill_gated {corpus : TradeCorpus} (hyear : 1000 ≤ start.year)
    (hempty : ∀ date, before (symbol, date) = [])
    (h : backfill casts archive symbol allowMissing start last before = (.ok [], stored))
    (hreads : Reads corpus symbol stored) (hascending : Ascending stored symbol) :
    (∀ result ∈ corpus.continuityFrom symbol none (corpus.dates symbol), result.passed = true) ∧
      corpus.collisionsFrom symbol (fun _ => none) (corpus.dates symbol) = [] ∧
      corpus.Continuous symbol := by
  obtain ⟨hdays, heq⟩ := days_eq hyear hempty h hreads hascending
  have hchain : (corpus.days symbol).flatten.IsChain Close := by
    have houtcome := h
    unfold backfill at houtcome
    rw [Partitions.fill_eq] at houtcome
    rw [heq]
    refine loaded_chain (Prod.mk.inj houtcome).1 fun found hfound row hrow => ?_
    exact hascending.nonneg row.date row ((stored_rows hempty h).mpr ⟨rfl, found, hfound, hrow⟩)
  refine ⟨continuityFrom_close hchain, ?_, ?_⟩
  · refine collisionsFrom_distinct (fun _ _ _ _ => rfl) ?_ ?_
    · intro date _
      rw [hreads.ids]
      exact stored_distinct hempty h date
    · refine (corpus.sorted symbol).imp ?_
      intro date date' hlt id hid hid'
      rw [hreads.ids] at hid hid'
      obtain ⟨row, hrow, rfl⟩ := List.mem_map.mp hid
      obtain ⟨row', hrow', heq'⟩ := List.mem_map.mp hid'
      have := hascending.dates date date' hlt row hrow row' hrow'
      omega
  · exact isChain_and.mpr ⟨hdays.isChain, hchain⟩

end Gate

theorem juneIds_int64 (date : String) :
    ∀ id ∈ (if date = "2026-06-01" then [5, 6] else [] : List Int), -2 ^ 63 ≤ id ∧ id < 2 ^ 63 := by
  split
  · decide
  · exact List.forall_mem_nil _

/-- The days of June, read from what its backfill stores. -/
def juneCorpus : TradeCorpus where
  symbols := ["BTCUSDT"]
  dates _ := ["2026-06-01"]
  tradeIds _ date := if date = "2026-06-01" then [5, 6] else []
  sorted _ := List.pairwise_singleton _ _
  int64 _ := juneIds_int64

def juneRows : List TradeRow := [
  ⟨1780272000000, 5, "BTCUSDT", .finite 101, .finite 2, .sell, "2026-06-01"⟩,
  ⟨1780272000007, 6, "BTCUSDT", .finite 101, .finite 2, .sell, "2026-06-01"⟩]

theorem june_backfill : ∃ stored, backfill wholeCasts (twoMonths (.error (.other ""))) "BTCUSDT"
      false june2026 june2026 (fun _ => []) = (.ok [], stored) ∧
    ∀ date, stored ("BTCUSDT", date) = juneRows.filter fun row => row.date = date := by
  have houtcome : Partitions.outcome (loadMonth wholeCasts (twoMonths (.error (.other "")))
      "BTCUSDT" false) (Month.monthsBetween june2026 june2026) none = .ok [] := by decide +kernel
  have hloaded : Partitions.loaded (loadMonth wholeCasts (twoMonths (.error (.other "")))
      "BTCUSDT" false) (Month.monthsBetween june2026 june2026) none = [(june2026, juneRows)] := by
    decide +kernel
  refine ⟨Partitions.write partition juneRows fun _ => [], ?_, ?_⟩
  · unfold backfill
    rw [Partitions.fill_eq, houtcome, hloaded]
    rfl
  · intro date
    have hpart : Partitions.part partition juneRows ("BTCUSDT", date) =
        juneRows.filter fun row => row.date = date := by
      have hsymbol : ∀ row ∈ juneRows, row.symbol = "BTCUSDT" := by decide
      refine List.filter_congr fun row hrow => ?_
      simp [partition, hsymbol row hrow]
    unfold Partitions.write
    rw [hpart]
    split
    · rename_i hnil
      exact hnil.symm
    · rfl

theorem backfill_gated_june :
    (∀ result ∈ juneCorpus.continuityFrom "BTCUSDT" none (juneCorpus.dates "BTCUSDT"),
      result.passed = true) ∧
    juneCorpus.collisionsFrom "BTCUSDT" (fun _ => none) (juneCorpus.dates "BTCUSDT") = [] ∧
    juneCorpus.Continuous "BTCUSDT" := by
  obtain ⟨stored, hdone, hstored⟩ := june_backfill
  refine backfill_gated (by decide) (fun _ => rfl) hdone ⟨?_, ?_⟩ ⟨?_, ?_⟩
  · intro date
    rw [hstored]
    by_cases hdate : date = "2026-06-01"
    · simp [juneRows, juneCorpus, hdate]
    · simp [juneRows, juneCorpus, hdate, Ne.symm hdate]
  · intro date
    rw [hstored]
    by_cases hdate : date = "2026-06-01"
    · simp [juneRows, juneCorpus, hdate]
    · simp [juneRows, juneCorpus, hdate, Ne.symm hdate]
  · intro date row hrow
    rw [hstored] at hrow
    rcases List.mem_pair.mp (List.mem_filter.mp hrow).1 with rfl | rfl
    · decide
    · decide
  · intro date date' hlt row hrow row' hrow'
    rw [hstored] at hrow hrow'
    have hfirst : ∀ row ∈ juneRows, row.date = "2026-06-01" := by decide
    obtain ⟨hmem, hdate⟩ := List.mem_filter.mp hrow
    obtain ⟨hmem', hdate'⟩ := List.mem_filter.mp hrow'
    have hsame : date = date' := by
      rw [← of_decide_eq_true hdate, ← of_decide_eq_true hdate', hfirst row hmem,
        hfirst row' hmem']
    exact absurd hlt (hsame ▸ String.lt_irrefl _)

end FetchTrades
end Ingestion
end PerpCarry
