import Mathlib.Data.List.Chain
import Mathlib.Data.List.Dedup
import Mathlib.Data.List.Sort
import PerpCarry.Ingestion.CorpusGate
import PerpCarry.Lib.Drift

/-!
# Ingestion.TradeIds

The two checks of the corpus gate on trade ids: `python/perpcarry/ingestion/validate_data.py`, with
the gap functions of `python/perpcarry/ingestion/fetch_trades.py`.

A day's ids are sorted before its gaps are looked for. Between two days only a jump forward is
looked for; a day that starts below the end of the day before makes the number of absent ids
negative, and a negative number is never above the limit.

* `continuityFrom_passed`: what the results of some days say when none is a failure.
* `collisionsFrom_nil`: the days of a symbol without collisions hold no id twice.
* `gated_iff`: the ids of a gated symbol form one increasing sequence if and only if its days do not
  go backwards.
-/

namespace PerpCarry
namespace Ingestion
namespace TradeIds

open Lib

def MAX_ID_SKIP : Int := 8

/-! ## Gaps of one day -/

/-- The difference of two `int64` numbers. -/
def difference (a b : Int) : Int := Int.bmod (b - a) (2 ^ 64)

/-- The neighbours of sorted ids whose difference is above one. -/
def tradeIdGaps (ids : List Int) : List (Int × Int) :=
  (ids.zip ids.tail).filter fun pair => 1 < difference pair.1 pair.2

/-- Venue id-skips and suspected losses. -/
def classifyGaps (gaps : List (Int × Int)) : List (Int × Int) × List (Int × Int) :=
  gaps.partition fun pair => pair.2 - pair.1 - 1 ≤ MAX_ID_SKIP

/-- The ids that appear more than once. -/
def duplicateTradeIds (ids : List Int) : List Int :=
  (ids.filter fun id => 1 < ids.count id).dedup.insertionSort (· ≤ ·)

/-! ## The checks -/

/-- The stored `trades` partitions: `Corpus.symbols`, `Corpus.dates` and the column `trade_id` of
`Corpus.read`. The dates are the names of directories, in order. -/
structure TradeCorpus where
  symbols : List String
  dates : String → List String
  tradeIds : String → String → List Int
  sorted : ∀ symbol, (dates symbol).Pairwise (· < ·)
  int64 : ∀ symbol date, ∀ id ∈ tradeIds symbol date, -2 ^ 63 ≤ id ∧ id < 2 ^ 63

/-- A result whose scope is a whole symbol: it has no date. -/
structure SymbolResult where
  check : String
  dataset : String
  symbol : String
  passed : Bool
  detail : String
  deriving DecidableEq

/-- `str((a, b))`. -/
def pairText (pair : Int × Int) : String := "(" ++ toString pair.1 ++ ", " ++ toString pair.2 ++ ")"

/-- The result of the sorted ids of a day. -/
def dayResult (symbol date : String) (ids : List Int) : CheckResult :=
  let (skips, losses) := classifyGaps (tradeIdGaps ids)
  let detail :=
    match losses, skips with
    | first :: _, _ => toString losses.length ++ " gap(s) larger than " ++ toString MAX_ID_SKIP ++
        " ids, first " ++ pairText first
    | [], _ :: _ => toString skips.length ++ " venue id-skip(s), " ++
        toString (skips.map fun pair => pair.2 - pair.1 - 1).sum ++ " absent id(s)"
    | [], [] => "ok"
  ⟨"trade_id_continuity", "trades", symbol, date, losses.isEmpty, detail⟩

/-- The result of the boundary before a day, if too many ids are absent there. -/
def boundaryResult (symbol date : String) (firstId : Int) :
    Option (Int × String) → Option CheckResult
  | none => none
  | some (previousLast, previousDate) =>
    let absent := firstId - previousLast - 1
    if MAX_ID_SKIP < absent then
      some ⟨"trade_id_continuity", "trades", symbol, date, false,
        "boundary gap from " ++ previousDate ++ ": " ++ toString previousLast ++ " -> " ++
          toString firstId ++ " (" ++ toString absent ++ " trade(s) missing)"⟩
    else none

namespace TradeCorpus

/-- `frame.sort_values("trade_id")["trade_id"]`. -/
def sortedIds (self : TradeCorpus) (symbol date : String) : List Int :=
  (self.tradeIds symbol date).insertionSort (· ≤ ·)

/-- The rest of the dates of a symbol, after the last id and the date of the last nonempty day. -/
def continuityFrom (self : TradeCorpus) (symbol : String) (previous : Option (Int × String)) :
    List String → List CheckResult
  | [] => []
  | date :: rest =>
    match self.sortedIds symbol date with
    | [] => self.continuityFrom symbol previous rest
    | firstId :: more =>
      dayResult symbol date (firstId :: more) ::
        ((boundaryResult symbol date firstId previous).toList ++
          self.continuityFrom symbol (some (more.getLastD firstId, date)) rest)

def checkTradeIdContinuity (self : TradeCorpus) : List CheckResult :=
  self.symbols.flatMap fun symbol => self.continuityFrom symbol none (self.dates symbol)

end TradeCorpus

/-- The ids of a day against those seen so far, each with the date it was last seen on. -/
def collide (date : String) (seen : Int → Option String) :
    List Int → List String × (Int → Option String)
  | [] => ([], seen)
  | key :: rest =>
    let (found, after) := collide date (Function.update seen key (some date)) rest
    match seen key with
    | none => (found, after)
    | some other =>
      if other ≠ date then
        (("trade_id " ++ toString key ++ " in both " ++ other ++ " and " ++ date) :: found, after)
      else (found, after)

namespace TradeCorpus

def collisionsFrom (self : TradeCorpus) (symbol : String) (seen : Int → Option String) :
    List String → List String
  | [] => []
  | date :: rest =>
    let ids := self.tradeIds symbol date
    let within := duplicateTradeIds ids
    let (across, seen) := collide date seen ids
    (if within = [] then []
      else [date ++ ": " ++ toString within.length ++ " within-day duplicate(s)"]) ++
      across ++ self.collisionsFrom symbol seen rest

def checkDuplicateTradeIds (self : TradeCorpus) : List SymbolResult :=
  self.symbols.map fun symbol =>
    let collisions := self.collisionsFrom symbol (fun _ => none) (self.dates symbol)
    ⟨"duplicate_trade_ids", "trades", symbol, collisions.isEmpty,
      if collisions = [] then "ok" else "; ".intercalate (collisions.take 3)⟩

/-- Neither check reports a failure. -/
structure Gated (corpus : TradeCorpus) : Prop where
  continuity : ∀ result ∈ corpus.checkTradeIdContinuity, result.passed = true
  duplicates : ∀ result ∈ corpus.checkDuplicateTradeIds, result.passed = true

/-- The nonempty ones of some days, each with its ids ascending. -/
def daysOf (self : TradeCorpus) (symbol : String) (dates : List String) : List (List Int) :=
  (dates.map (self.sortedIds symbol)).filter (· ≠ [])

/-- The nonempty days of a symbol. -/
def days (self : TradeCorpus) (symbol : String) : List (List Int) :=
  self.daysOf symbol (self.dates symbol)

/-- The ids of a symbol in date order form one sequence, strictly increasing and without a longer
run of absent ids. -/
def Continuous (self : TradeCorpus) (symbol : String) : Prop :=
  (self.days symbol).flatten.IsChain fun a b => a < b ∧ b - a - 1 ≤ MAX_ID_SKIP

/-- Each day starts above the end of the day before it, and no two neighbours in a day are so far
apart that their difference is no `int64`. -/
structure Forward (corpus : TradeCorpus) (symbol : String) : Prop where
  days : (corpus.days symbol).IsChain fun before after =>
    ∀ last ∈ before.getLast?, ∀ first ∈ after.head?, last < first
  steps : ∀ day ∈ corpus.days symbol, day.IsChain fun a b => b - a < 2 ^ 63

end TradeCorpus

/-! ## What the checks let through -/

theorem difference_small {a b : Int} (hle : a ≤ b) (hlt : b - a < 2 ^ 63) :
    difference a b = b - a :=
  Int.bmod_eq_of_le (by omega) (by omega)

/-- A pair that is no suspected loss. -/
def Tolerated (a b : Int) : Prop := 1 < difference a b → b - a - 1 ≤ MAX_ID_SKIP

theorem dayResult_passed {symbol date : String} {ids : List Int} :
    (dayResult symbol date ids).passed = true ↔ ids.IsChain Tolerated := by
  have hlosses : (dayResult symbol date ids).passed =
      (classifyGaps (tradeIdGaps ids)).2.isEmpty := rfl
  rw [hlosses, List.isEmpty_iff, isChain_iff_zip]
  unfold classifyGaps tradeIdGaps Tolerated
  rw [List.partition_eq_filter_filter, List.filter_eq_nil_iff]
  constructor
  · intro h pair hpair hgap
    have := h pair (List.mem_filter.mpr ⟨hpair, decide_eq_true hgap⟩)
    simpa using this
  · intro h pair hpair
    obtain ⟨hmem, hgap⟩ := List.mem_filter.mp hpair
    simpa using h pair hmem (of_decide_eq_true hgap)

theorem boundaryResult_passed {symbol date previousDate : String} {firstId previousLast : Int}
    (h : ∀ result ∈ (boundaryResult symbol date firstId (some (previousLast, previousDate))).toList,
      result.passed = true) : firstId - previousLast - 1 ≤ MAX_ID_SKIP := by
  by_contra hgap
  rw [boundaryResult, if_pos (not_le.mp hgap)] at h
  exact Bool.false_ne_true (h _ (List.mem_singleton_self _))

namespace TradeCorpus

variable {corpus : TradeCorpus} {symbol : String}

/-- What the results of some dates say when none of them is a failure. -/
structure Tolerable (days : List (List Int)) (previous : Option Int) : Prop where
  steps : ∀ day ∈ days, day.IsChain Tolerated
  opening : ∀ last ∈ previous, ∀ day ∈ days.head?, ∀ first ∈ day.head?,
    first - last - 1 ≤ MAX_ID_SKIP
  boundaries : days.IsChain fun before after =>
    ∀ last ∈ before.getLast?, ∀ first ∈ after.head?, first - last - 1 ≤ MAX_ID_SKIP

theorem continuityFrom_passed {dates : List String} {previous : Option (Int × String)}
    (h : ∀ result ∈ corpus.continuityFrom symbol previous dates, result.passed = true) :
    Tolerable (corpus.daysOf symbol dates) (previous.map (·.1)) := by
  induction dates generalizing previous with
  | nil => exact ⟨nofun, fun _ _ => nofun, List.IsChain.nil⟩
  | cons date rest ih =>
    unfold continuityFrom at h
    cases hids : corpus.sortedIds symbol date with
    | nil =>
      rw [hids] at h
      have hdays : corpus.daysOf symbol (date :: rest) = corpus.daysOf symbol rest := by
        simp [daysOf, hids]
      rw [hdays]
      exact ih h
    | cons firstId more =>
      rw [hids] at h
      simp only [List.forall_mem_cons, List.forall_mem_append] at h
      obtain ⟨hday, hboundary, hrest⟩ := h
      have hdays : corpus.daysOf symbol (date :: rest) =
          (firstId :: more) :: corpus.daysOf symbol rest := by
        simp [daysOf, hids]
      obtain ⟨hsteps, hopening, hboundaries⟩ := ih hrest
      rw [hdays]
      refine ⟨List.forall_mem_cons.mpr ⟨dayResult_passed.mp hday, hsteps⟩, ?_,
        List.isChain_cons.mpr ⟨?_, hboundaries⟩⟩
      · intro last hlast
        obtain ⟨⟨_, previousDate⟩, rfl, rfl⟩ := Option.mem_map.mp hlast
        rintro _ ⟨⟩ _ ⟨⟩
        exact boundaryResult_passed hboundary
      · intro after hafter
        exact forall_last_cons.mpr fun first hfirst => hopening _ rfl after hafter first hfirst

theorem duplicateTradeIds_nil {ids : List Int} (h : duplicateTradeIds ids = []) : ids.Nodup := by
  refine List.nodup_iff_count_le_one.mpr fun id => ?_
  by_contra hmany
  have hmem : id ∈ duplicateTradeIds ids := by
    unfold duplicateTradeIds
    rw [List.mem_insertionSort, List.mem_dedup, List.mem_filter]
    exact ⟨List.count_pos_iff.mp (by omega), decide_eq_true (not_le.mp hmany)⟩
  rw [h] at hmem
  cases hmem

theorem collisionsFrom_nil {dates : List String} {seen : Int → Option String}
    (h : corpus.collisionsFrom symbol seen dates = []) :
    ∀ date ∈ dates, (corpus.tradeIds symbol date).Nodup := by
  induction dates generalizing seen with
  | nil => exact nofun
  | cons date rest ih =>
    simp only [collisionsFrom, List.append_eq_nil_iff, ite_eq_left_iff, List.cons_ne_nil,
      imp_false, not_not] at h
    obtain ⟨⟨hwithin, -⟩, hrest⟩ := h
    exact List.forall_mem_cons.mpr ⟨duplicateTradeIds_nil hwithin, ih hrest⟩

theorem sortedIds_increasing {date : String} (h : (corpus.tradeIds symbol date).Nodup) :
    (corpus.sortedIds symbol date).IsChain (· < ·) := by
  have hperm := List.perm_insertionSort (· ≤ ·) (corpus.tradeIds symbol date)
  have hnodup := hperm.nodup_iff.mpr h
  have hsorted := List.pairwise_insertionSort (· ≤ ·) (corpus.tradeIds symbol date)
  exact ((hsorted.and hnodup).imp fun hab => lt_of_le_of_ne hab.1 hab.2).isChain

/-- What both checks say of the days of a symbol. -/
theorem Gated.days (h : corpus.Gated) (hsymbol : symbol ∈ corpus.symbols) :
    Tolerable (corpus.days symbol) none ∧
      ∀ day ∈ corpus.days symbol, day ≠ [] ∧ day.IsChain (· < ·) := by
  constructor
  · refine @continuityFrom_passed corpus symbol (corpus.dates symbol) none fun result hresult => ?_
    exact h.continuity result (List.mem_flatMap.mpr ⟨symbol, hsymbol, hresult⟩)
  · have hpassed := h.duplicates _ (List.mem_map_of_mem hsymbol)
    have hnodup := collisionsFrom_nil (List.isEmpty_iff.mp hpassed)
    intro day hday
    obtain ⟨hmem, hne⟩ := List.mem_filter.mp hday
    obtain ⟨date, hdate, rfl⟩ := List.mem_map.mp hmem
    exact ⟨of_decide_eq_true hne, sortedIds_increasing (hnodup date hdate)⟩

theorem day_iff {day : List Int} (hincreasing : day.IsChain (· < ·))
    (htolerated : day.IsChain Tolerated) :
    day.IsChain (fun a b => a < b ∧ b - a - 1 ≤ MAX_ID_SKIP) ↔
      day.IsChain fun a b => b - a < 2 ^ 63 := by
  unfold MAX_ID_SKIP
  constructor
  · exact fun h => h.imp fun a b hab => by omega
  · intro h
    refine (isChain_and.mpr ⟨isChain_and.mpr ⟨hincreasing, htolerated⟩, h⟩).imp ?_
    rintro a b ⟨⟨hlt, hskip⟩, hclose⟩
    refine ⟨hlt, ?_⟩
    by_cases hnext : b - a ≤ 1
    · omega
    · refine hskip ?_
      rw [difference_small hlt.le hclose]
      exact not_le.mp hnext

theorem gated_iff (h : corpus.Gated) (hsymbol : symbol ∈ corpus.symbols) :
    corpus.Continuous symbol ↔ corpus.Forward symbol := by
  obtain ⟨⟨hsteps, -, hboundaries⟩, hdays⟩ := h.days hsymbol
  have hnonempty : [] ∉ corpus.days symbol := fun hnil => (hdays [] hnil).1 rfl
  have hday := fun day hday => day_iff (hdays day hday).2 (hsteps day hday)
  unfold Continuous
  rw [List.isChain_flatten hnonempty]
  constructor
  · rintro ⟨hchains, hacross⟩
    refine ⟨hacross.imp fun before after hlt last hlast first hfirst => ?_, fun day hmem => ?_⟩
    · exact (hlt last hlast first hfirst).1
    · exact (hday day hmem).mp (hchains day hmem)
  · rintro ⟨hforward, hclose⟩
    refine ⟨fun day hmem => (hday day hmem).mpr (hclose day hmem), ?_⟩
    refine (isChain_and.mpr ⟨hforward, hboundaries⟩).imp ?_
    rintro before after ⟨hlt, hskip⟩ last hlast first hfirst
    exact ⟨hlt last hlast first hfirst, hskip last hlast first hfirst⟩

end TradeCorpus

/-! ## Days that go backwards -/

/-- Two days of one symbol, the second of which holds the older ids. -/
def swappedCorpus : TradeCorpus where
  symbols := ["BTCUSDT"]
  dates _ := ["2026-06-01", "2026-06-02"]
  tradeIds _ date := if date = "2026-06-01" then [100, 101, 102] else [90, 91, 92]
  sorted _ := by decide
  int64 _ date id hid := by
    split at hid
    all_goals
      simp only [List.mem_cons, List.not_mem_nil, or_false] at hid
      omega

theorem swapped_gated : swappedCorpus.Gated where
  continuity := by decide
  duplicates := by decide

theorem gated_backwards : swappedCorpus.Gated ∧ "BTCUSDT" ∈ swappedCorpus.symbols ∧
    ¬ swappedCorpus.Continuous "BTCUSDT" := by
  refine ⟨swapped_gated, List.mem_singleton_self _, ?_⟩
  unfold TradeCorpus.Continuous
  decide

theorem gated_iff_swapped :
    swappedCorpus.Continuous "BTCUSDT" ↔ swappedCorpus.Forward "BTCUSDT" :=
  TradeCorpus.gated_iff swapped_gated (List.mem_singleton_self _)

end TradeIds
end Ingestion
end PerpCarry
