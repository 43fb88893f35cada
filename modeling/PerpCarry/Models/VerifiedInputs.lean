import PerpCarry.Core.Dates
import PerpCarry.Ingestion.ValidateData
import PerpCarry.Models.BarVolume
import PerpCarry.Tools.ValidateBook

/-!
# Models.VerifiedInputs

The admission of a day to the calibration: `verified_inputs` of
`python/perpcarry/models/calibration_dataset.py`. It compares the digests of what is stored now with
those in the reports of two tools, `validate_book` and `corpus_inventory`.

* `verifiedInputs_ok`: what holds of a day that is admitted.
* `admitted_agrees`: its book, as it is stored now, agrees with its reference images.
-/

namespace PerpCarry
namespace Models
namespace VerifiedInputs

open BarVolume (Disk Evidence VolumeError VolumeInputs verifiedVolumeInputs)
open Ingestion.FetchTrades (Casts)
open Ingestion.ValidateData (CheckResult)
open Lib (mapError_ok refuse refuse_ok)
open Pipeline (BookRow)
open Strategy (bind_ok pure_ok)
open Tools (ExportCorpus stored)
open Tools.ValidateBook

/-- The names of the files of a partition, each with its digest. -/
abbrev Fingerprint := List (String × String)

/-- `OrderSizeError`, `BookPartitionError`, what the bars raise, or an error of the language. -/
inductive VerifyError where
  | orderSize (message : String)
  | partition (message : String)
  | volume (e : VolumeError)
  | key (name : String)
  | overflow
  deriving DecidableEq

/-- A partition, as the inventory has it. -/
structure Partition where
  dataset : String
  symbol : String
  date : String
  rows : Int
  bytes : Int
  sha256 : Fingerprint
  deriving DecidableEq

structure CorpusReport where
  partitions : List Partition
  results : List CheckResult

inductive AdvSource where
  | trades
  | futuresBars
  deriving DecidableEq

/-- The settings that decide which days of trades are looked at. -/
structure Config where
  advDays : Nat := 30
  advSource : AdvSource := .trades
  positive : 1 ≤ advDays := by decide

/-- What is below the root; a directory without parquet files has no digests. -/
structure Root where
  bookReport : String → String → Option DayReport
  corpusReport : Option CorpusReport
  fingerprint : String → String → String → Fingerprint
  directory : String → String → String → String

structure Inputs where
  verified : List Partition
  bookReplay : DayReport
  volume : Option VolumeInputs

/-- The datasets of the archive, each with its directory. -/
def DATASET_DIRS : List (String × String) :=
  [("incremental_book_L2", "book"), ("book_snapshot_25", "book_snapshot")]

/-- An item of a dictionary or the return of an optional file. -/
def found {α : Type} (e : VerifyError) : Option α → Except VerifyError α
  | none => .error e
  | some a => .ok a

@[simp] theorem found_ok {α : Type} {e : VerifyError} {x : Option α} {a : α} :
    found e x = .ok a ↔ x = some a := by
  cases x with
  | none => simp [found]
  | some b => simp [found]

section Verify

variable (root : Root) (symbol : String) (day : Date)

/-- The pass of the first loop for one dataset. -/
def checkReplay (replay : DayReport) (dataset : String × String) : Except VerifyError Unit := do
  let current := root.fingerprint dataset.2 symbol day.text
  refuse (current = [])
    (.partition ("no " ++ dataset.1 ++ " partition for " ++ symbol ++ " " ++ day.text ++ " at " ++
      root.directory dataset.2 symbol day.text))
  let recorded ← found (.key dataset.1) (replay.inputSha256.lookup dataset.1)
  refuse (current ≠ recorded)
    (.orderSize ("stale book replay report: " ++ symbol ++ " " ++ day.text))

/-- The partitions that must be clean: the trades of the window, and the book. -/
def required (config : Config) : Except VerifyError (List (String × String)) := do
  let trades ← match config.advSource with
    | .futuresBars => .ok []
    | .trades => (List.range (config.advDays + 1)).mapM fun (i : Nat) => do
      let past ← found .overflow (Date.ofOrdinal (day.ordinal - i))
      return ("trades", past.text)
  return trades ++ [("book", day.text)]

/-- The results that are about this partition. -/
def checks (report : CorpusReport) (dataset date : String) : List CheckResult :=
  report.results.filter fun result => result.dataset = dataset ∧
    result.symbol ∈ [none, some symbol] ∧ result.date ∈ [none, some date]

/-- The pass of the second loop for one partition. -/
def verifyPartition (report : CorpusReport) (partition : String × String) :
    Except VerifyError Partition :=
  let (dataset, date) := partition
  match report.partitions.filter fun entry =>
      (entry.dataset, entry.symbol, entry.date) = (dataset, symbol, date) with
  | [entry] => do
    refuse (entry.sha256 = [])
      (.orderSize ("unverified " ++ dataset ++ " partition: " ++ symbol ++ " " ++ date))
    refuse (root.fingerprint dataset symbol date ≠ entry.sha256)
      (.orderSize ("stale quality report: " ++ symbol ++ " " ++ dataset ++ " " ++ date))
    let found := checks symbol report dataset date
    refuse (∃ result ∈ found, result.passed = false ∧ result.skipped = false)
      (.orderSize ("quality-rejected " ++ dataset ++ ": " ++ symbol ++ " " ++ date))
    refuse (dataset = "trades" ∧ ¬ ∃ result ∈ found, result.check = "volume_reconciliation" ∧
        result.date = some date ∧ result.symbol = some symbol ∧ result.passed = true ∧
        result.skipped = false)
      (.orderSize ("volume not reconciled: " ++ symbol ++ " " ++ date))
    return entry
  | _ => .error (.orderSize ("unverified " ++ dataset ++ " partition: " ++ symbol ++ " " ++ date))

variable (casts : Casts) (parse : String → Option PyDecimal) (digest : Evidence → String)

/-- The bars behind the volume, where it is taken from bars. -/
def volumeInputs (disk : Disk) (config : Config) : Except VerifyError (Option VolumeInputs) :=
  match config.advSource with
  | .trades => .ok none
  | .futuresBars =>
    ((verifiedVolumeInputs casts parse digest disk symbol day).mapError .volume).map some

def verifiedInputs (disk : Disk) (config : Config) (report : Option CorpusReport) :
    Except VerifyError Inputs := do
  let replay ← found (.orderSize "no independent book replay report; run validate_book first")
    (root.bookReport symbol day.text)
  refuse (replay.passed = false ∨ replay.coverage ≠ "full day")
    (.orderSize ("book replay rejected: " ++ symbol ++ " " ++ day.text))
  let _ ← DATASET_DIRS.mapM (checkReplay root symbol day replay)
  let report ← found (.orderSize "no corpus quality report; run corpus_inventory first")
    (report.or root.corpusReport)
  let partitions ← required day config
  let verified ← partitions.mapM (verifyPartition root symbol report)
  let volume ← volumeInputs symbol day casts parse digest disk config
  return ⟨verified, replay, volume⟩

end Verify

/-! ## What is admitted -/

section Admitted

variable {root : Root} {symbol : String} {day : Date} {report : CorpusReport} {config : Config}
  {casts : Casts} {parse : String → Option PyDecimal} {digest : Evidence → String} {disk : Disk}
  {given : Option CorpusReport} {inputs : Inputs}

/-- The inventory has one entry for the partition, with the digests of today, and no check of it
has failed; for trades the traded volume was compared and found right. -/
structure Clean (root : Root) (symbol : String) (report : CorpusReport)
    (partition : String × String) (entry : Partition) : Prop where
  unique : (report.partitions.filter fun entry =>
    (entry.dataset, entry.symbol, entry.date) = (partition.1, symbol, partition.2)) = [entry]
  current : root.fingerprint partition.1 symbol partition.2 = entry.sha256
  present : entry.sha256 ≠ []
  checked : ∀ result ∈ checks symbol report partition.1 partition.2,
    result.passed = true ∨ result.skipped = true
  reconciled : partition.1 = "trades" → ∃ result ∈ checks symbol report partition.1 partition.2,
    result.check = "volume_reconciliation" ∧ result.date = some partition.2 ∧
      result.symbol = some symbol ∧ result.passed = true ∧ result.skipped = false

theorem verifyPartition_ok {partition : String × String} {entry : Partition}
    (h : verifyPartition root symbol report partition = .ok entry) :
    Clean root symbol report partition entry := by
  obtain ⟨dataset, date⟩ := partition
  unfold verifyPartition at h
  dsimp only at h
  split at h
  · rename_i entry' hunique
    simp only [bind_ok, refuse_ok, pure_ok, exists_const] at h
    obtain ⟨hpresent, hcurrent, hchecked, hreconciled, rfl⟩ := h
    refine ⟨hunique, not_not.mp hcurrent, hpresent, ?_, ?_⟩
    · intro result hresult
      by_contra hnot
      rw [not_or, Bool.not_eq_true, Bool.not_eq_true] at hnot
      exact hchecked ⟨result, hresult, hnot⟩
    · intro htrades
      by_contra hnot
      exact hreconciled ⟨htrades, hnot⟩
  · cases h

/-- What holds of a day that is admitted. -/
structure Admitted (root : Root) (symbol : String) (day : Date) (config : Config)
    (given : Option CorpusReport) (inputs : Inputs) : Prop where
  replay : root.bookReport symbol day.text = some inputs.bookReplay
  passed : inputs.bookReplay.passed = true ∧ inputs.bookReplay.coverage = "full day"
  current : ∀ dataset ∈ DATASET_DIRS, root.fingerprint dataset.2 symbol day.text ≠ [] ∧
    inputs.bookReplay.inputSha256.lookup dataset.1 =
      some (root.fingerprint dataset.2 symbol day.text)
  clean : ∃ report partitions, given.or root.corpusReport = some report ∧
    required day config = .ok partitions ∧
    List.Forall₂ (Clean root symbol report) partitions inputs.verified

theorem checkReplay_ok {replay : DayReport} {dataset : String × String} {x : Unit}
    (h : checkReplay root symbol day replay dataset = .ok x) :
    root.fingerprint dataset.2 symbol day.text ≠ [] ∧
      replay.inputSha256.lookup dataset.1 = some (root.fingerprint dataset.2 symbol day.text) := by
  unfold checkReplay at h
  simp only [bind_ok, refuse_ok, found_ok, exists_const] at h
  obtain ⟨hpresent, recorded, hrecorded, hsame⟩ := h
  rw [not_not.mp hsame]
  exact ⟨not_not.mp hsame ▸ hpresent, hrecorded⟩

theorem verifiedInputs_ok
    (h : verifiedInputs root symbol day casts parse digest disk config given = .ok inputs) :
    Admitted root symbol day config given inputs := by
  unfold verifiedInputs at h
  simp only [bind_ok, refuse_ok, found_ok, exists_const, pure_ok] at h
  obtain ⟨replay, hreplay, haccepted, _, hchecked, report, hreport, partitions, hpartitions,
    verified, hverified, volume, _, rfl⟩ := h
  rw [not_or, Bool.not_eq_false, not_not] at haccepted
  refine ⟨hreplay, haccepted, ?_, report, partitions, hreport, hpartitions, ?_⟩
  · intro dataset hdataset
    obtain ⟨x, hx⟩ := Lib.ok_of_mapM hchecked dataset hdataset
    exact checkReplay_ok hx
  · exact (Lib.mapM_ok_iff.mp hverified).imp fun _ _ => verifyPartition_ok

end Admitted

/-! ## Behind a run of the other tool -/

section Chain

variable {host : Host} {symbol : String} {days : List Day}

theorem main_mem {report : DayReport} (h : report ∈ (main host symbol days).1) :
    ∃ day ∈ days, validateDay host symbol day = .ok report := by
  induction days with
  | nil => cases h
  | cons day days ih =>
    unfold main at h
    cases hday : validateDay host symbol day with
    | error e =>
      rw [hday] at h
      cases h
    | ok found =>
      rw [hday] at h
      dsimp only at h
      split at h
      · rw [List.mem_singleton.mp h]
        exact ⟨day, List.mem_cons_self, hday⟩
      · rcases List.mem_cons.mp h with rfl | h
        · exact ⟨day, List.mem_cons_self, hday⟩
        · obtain ⟨other, hother, hreport⟩ := ih h
          exact ⟨other, List.mem_cons_of_mem _ hother, hreport⟩

theorem validateDay_digests {day : Day} {report : DayReport}
    (h : validateDay host symbol day = .ok report) : report.inputSha256 = day.after := by
  unfold validateDay at h
  simp only [bind_ok, pure_ok] at h
  obtain ⟨exported, _, rfl⟩ := h
  rfl

/-- The digests of a corpus, under the names of its datasets. -/
def recorded (digestsOf : ExportCorpus → String → Fingerprint) (corpus : ExportCorpus) :
    Fingerprints :=
  DATASET_DIRS.map fun dataset => (dataset.1, digestsOf corpus dataset.1)

theorem lookup_recorded {digestsOf : ExportCorpus → String → Fingerprint} {corpus : ExportCorpus}
    {dataset : String × String} (h : dataset ∈ DATASET_DIRS) :
    (recorded digestsOf corpus).lookup dataset.1 = some (digestsOf corpus dataset.1) := by
  unfold DATASET_DIRS at h
  rcases List.mem_cons.mp h with rfl | h
  · rfl
  · rw [List.mem_singleton.mp h]
    rfl

/-- The report was written by a run of `validate_book`, and two corpora with the same digests have
the same files. Then the book of a day that is admitted agrees with its images, as it is stored
now, whatever was changed and changed back since that run. -/
theorem admitted_agrees {root : Root} {day : Date} {config : Config} {casts : Casts}
    {parse : String → Option PyDecimal} {digest : Evidence → String} {disk : Disk}
    {given : Option CorpusReport} {inputs : Inputs} {corpus : ExportCorpus}
    {digestsOf : ExportCorpus → String → Fingerprint}
    (hwriter : host.writer.Documented)
    (hstorable : ∀ d ∈ days, ∀ replay, root.bookReport symbol day.text = some replay →
      validateDay host symbol d = .ok replay → Storable host symbol d)
    (hdigests : ∀ d ∈ days, d.before = recorded digestsOf d.corpus)
    (hwritten : ∀ replay, root.bookReport symbol day.text = some replay →
      replay ∈ (main host symbol days).1)
    (hnow : ∀ dataset ∈ DATASET_DIRS,
      root.fingerprint dataset.2 symbol day.text = digestsOf corpus dataset.1)
    (hcollision : ∀ d ∈ days,
      (∀ dataset ∈ DATASET_DIRS, digestsOf d.corpus dataset.1 = digestsOf corpus dataset.1) →
        d.corpus.eventFiles = corpus.eventFiles ∧ d.corpus.referenceFiles = corpus.referenceFiles)
    (h : verifiedInputs root symbol day casts parse digest disk config given = .ok inputs) :
    Admitted root symbol day config given inputs ∧
      ∃ d ∈ days, d.corpus.referenceFiles = corpus.referenceFiles ∧
        ∃ exported, exportWhole host symbol d = .ok exported ∧
          Agreeing ((stored corpus.eventFiles).map BookRow.read) exported.referenceCsv := by
  have hadmitted := verifiedInputs_ok h
  obtain ⟨d, hd, hreport⟩ := main_mem (hwritten _ hadmitted.replay)
  obtain ⟨hsame, exported, hexported, hagreeing⟩ :=
    (validateDay_passed hwriter (hstorable d hd _ hadmitted.replay hreport)).mp
      ⟨_, hreport, hadmitted.passed.1⟩
  have hrecorded : inputs.bookReplay.inputSha256 = recorded digestsOf d.corpus := by
    rw [validateDay_digests hreport, ← hsame, hdigests d hd]
  obtain ⟨hevents, hreference⟩ := hcollision d hd fun dataset hdataset => by
    have hlookup := (hadmitted.current dataset hdataset).2
    rw [hrecorded, lookup_recorded hdataset, hnow dataset hdataset] at hlookup
    exact Option.some.inj hlookup
  rw [hevents] at hagreeing
  exact ⟨hadmitted, d, hd, hreference, exported, hexported, hagreeing⟩

/-! ### A day behind two days of trades -/

theorem firstOfJune_valid : 1 ≤ 1 ∧ ((1 : Nat) : Int) ≤ Ingestion.FetchTrades.june2026.days := by
  decide

def firstOfJune : Date := ⟨Ingestion.FetchTrades.june2026, 1, firstOfJune_valid⟩

def reconciliation (date : String) : CheckResult :=
  ⟨"volume_reconciliation", "trades", some "0GUSDT", some date, true, "ok", false, false⟩

def twoDays : CorpusReport where
  partitions := [⟨"book", "0GUSDT", "2026-06-01", 3, 901, [("part-0.parquet", "3f7a")]⟩,
    ⟨"trades", "0GUSDT", "2026-05-31", 2, 411, [("part-0.parquet", "5b0e")]⟩,
    ⟨"trades", "0GUSDT", "2026-06-01", 5, 577, [("part-0.parquet", "c6d8")]⟩]
  results := [reconciliation "2026-05-31", reconciliation "2026-06-01"]

def openingReport : DayReport where
  symbol := "0GUSDT"
  date := "2026-06-01"
  passed := true
  replay := ⟨some true, some 3⟩
  inputSha256 := openingDigests

def digestsAt (dataset date : String) : Fingerprint :=
  match dataset, date with
  | "book", "2026-06-01" => [("part-0.parquet", "3f7a")]
  | "book_snapshot", "2026-06-01" => [("part-0.parquet", "91c2")]
  | "trades", "2026-05-31" => [("part-0.parquet", "5b0e")]
  | "trades", "2026-06-01" => [("part-0.parquet", "c6d8")]
  | _, _ => []

def openingRoot : Root where
  bookReport symbol date :=
    if symbol = "0GUSDT" ∧ date = "2026-06-01" then some openingReport else none
  corpusReport := some twoDays
  fingerprint dataset _ date := digestsAt dataset date
  directory dataset symbol date := dataset ++ "/symbol=" ++ symbol ++ "/date=" ++ date

theorem admitted_agrees_openingDate : ∃ inputs exported,
    verifiedInputs openingRoot "0GUSDT" firstOfJune Ingestion.FetchTrades.wholeCasts (fun _ => none)
      (fun _ => "") (fun _ _ => .error (.reading "no bars")) { advDays := 1 } none = .ok inputs ∧
    exportWhole wholeHost "0GUSDT" openingDate = .ok exported ∧
      Agreeing ((stored openingDay).map BookRow.read) exported.referenceCsv := by
  have hok : (verifiedInputs openingRoot "0GUSDT" firstOfJune Ingestion.FetchTrades.wholeCasts
      (fun _ => none) (fun _ => "") (fun _ _ => .error (.reading "no bars")) { advDays := 1 }
      none).isOk = true := by decide +kernel
  have hwritten : openingReport ∈ (main wholeHost "0GUSDT" [openingDate]).1 := by decide +kernel
  cases hinputs : verifiedInputs openingRoot "0GUSDT" firstOfJune Ingestion.FetchTrades.wholeCasts
      (fun _ => none) (fun _ => "") (fun _ _ => .error (.reading "no bars")) { advDays := 1 }
      none with
  | error e =>
    rw [hinputs] at hok
    cases hok
  | ok inputs =>
    obtain ⟨_, d, hd, _, exported, hexported, hagreeing⟩ := @admitted_agrees wholeHost "0GUSDT"
      [openingDate] openingRoot firstOfJune _ _ _ _ _ _ inputs openingCorpus
      (fun _ dataset => if dataset = "incremental_book_L2" then [("part-0.parquet", "3f7a")]
        else [("part-0.parquet", "91c2")])
      Tools.wholeWriter_documented
      (List.forall_mem_singleton.mpr fun _ _ _ => openingDate_storable)
      (List.forall_mem_singleton.mpr (by decide))
      (by
        intro replay hreplay
        have hdate : openingRoot.bookReport "0GUSDT" firstOfJune.text = some openingReport := by
          decide +kernel
        rw [hdate] at hreplay
        rw [← Option.some.inj hreplay]
        exact hwritten)
      (by decide +kernel)
      (List.forall_mem_singleton.mpr fun _ => ⟨rfl, rfl⟩) hinputs
    obtain rfl : d = openingDate := List.mem_singleton.mp hd
    exact ⟨inputs, exported, rfl, hexported, hagreeing⟩

end Chain

end VerifiedInputs
end Models
end PerpCarry
