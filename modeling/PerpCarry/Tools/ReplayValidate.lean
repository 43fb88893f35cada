import PerpCarry.Book.Compare
import PerpCarry.Tools.EventCsv

/-!
# Tools.ReplayValidate

The validation harness of `cpp/tools/replay_validate.cpp`: reference images are read one by one,
the events up to an image's millisecond are replayed, and the book is compared with the image. How
many events share the millisecond decides which counters the comparison reaches.

A loop is given the number of lines left as its bound. What is written to `diagnostics` is left
out; the flag says whether it is set, since the clean samples depend on it.
-/

namespace PerpCarry
namespace Tools

/-! ## Reference images -/

structure ReferenceRow where
  timestamp : Int
  side : Side
  level : Int
  price : Double
  quantity : Double
  deriving DecidableEq

structure ReferenceImage where
  timestamp : Int
  bids : List Level := []
  asks : List Level := []
  rows : Int := 0
  deriving DecidableEq

namespace ReferenceImage

def levels (image : ReferenceImage) : Side → List Level
  | .bid => image.bids
  | .ask => image.asks

def push (image : ReferenceImage) (row : ReferenceRow) : ReferenceImage :=
  match row.side with
  | .bid => { image with bids := image.bids ++ [⟨row.price, row.quantity⟩], rows := image.rows + 1 }
  | .ask => { image with asks := image.asks ++ [⟨row.price, row.quantity⟩], rows := image.rows + 1 }

end ReferenceImage

def readReference (rnd : Rounding) (fields : List Field) : Except Fault ReferenceRow := do
  let timestamp ← parseInt (← fieldAt fields 0) "reference timestamp"
  let side ← parseSide (← fieldAt fields 1)
  let level ← parseInt (← fieldAt fields 2) "reference level"
  let price ← parseDouble rnd (← fieldAt fields 3) "reference price"
  let quantity ← parseDouble rnd (← fieldAt fields 4) "reference quantity"
  return { timestamp, side, level, price, quantity }

abbrev ReferenceStream := Lookahead ReferenceRow

namespace ReferenceStream

def advance (rnd : Rounding) (s : ReferenceStream) : Except Fault ReferenceStream :=
  Lookahead.advance (readReference rnd) s

def make (rnd : Rounding) (text : List Char) : Except Fault ReferenceStream :=
  match CsvReader.make text kReferenceColumns "reference" with
  | .error f => .error f
  | .ok csv => advance rnd { csv }

def hasMore (s : ReferenceStream) : Bool := s.pending.isSome

def misplaced (image : ReferenceImage) (row : ReferenceRow) : Fault :=
  failure ("reference image at " ++ toString image.timestamp ++ " has level " ++
    toString row.level ++ " where " ++ toString (image.levels row.side).length ++
    " was expected: rows must be ordered by (timestamp, side, level)")

/-- The loop of `next`: rows of the image's timestamp, each at the next level of its side. -/
def gather (rnd : Rounding) :
    Nat → ReferenceStream → ReferenceImage → Except Fault (ReferenceImage × ReferenceStream)
  | 0, s, image => .ok (image, s)
  | fuel + 1, s, image =>
    match s.pending with
    | none => .ok (image, s)
    | some row =>
      if row.timestamp ≠ image.timestamp then .ok (image, s)
      else if row.level ≠ (image.levels row.side).length then .error (misplaced image row)
      else
        match advance rnd s with
        | .error f => .error f
        | .ok s' => gather rnd fuel s' (image.push row)

def next (rnd : Rounding) (s : ReferenceStream) :
    Except Fault (Option (ReferenceImage × ReferenceStream)) :=
  match s.pending with
  | none => .ok none
  | some row => (gather rnd s.left s { timestamp := row.timestamp }).map some

end ReferenceStream

/-! ## Summary and verdict -/

inductive Verdict where
  | pass
  | fail
  | inconclusive
  deriving DecidableEq

structure ValidationSummary where
  events : Int := 0
  referenceRows : Int := 0
  images : Int := 0
  unambiguousImages : Int := 0
  ambiguousImages : Int := 0
  orphanImages : Int := 0
  unambiguousMismatches : Int := 0
  ambiguousMismatches : Int := 0
  priceMismatches : Int := 0
  quantityMismatches : Int := 0
  missingLevels : Int := 0
  extraLevels : Int := 0
  replay : Stats := {}
  sampleMismatchTimestamps : List Int := []
  sampleAmbiguousTimestamps : List Int := []
  sampleCleanTimestamps : List Int := []
  deriving DecidableEq

structure ValidationOptions where
  depth : Nat := 25
  maxSampleMismatches : Nat := 5
  diagnostics : Bool := false

namespace ValidationSummary

def verdict (summary : ValidationSummary) : Verdict :=
  if summary.images = 0 then .inconclusive
  else if summary.unambiguousMismatches = 0 ∧ summary.ambiguousMismatches = 0 then .pass
  else .fail

/-- A timestamp joins a sample while there is room. -/
def sampled (options : ValidationOptions) (samples : List Int) (timestamp : Int) : List Int :=
  if samples.length < options.maxSampleMismatches then samples ++ [timestamp] else samples

def countKind (summary : ValidationSummary) (level : LevelDiff) : ValidationSummary :=
  match level.kind with
  | .priceMismatch => { summary with priceMismatches := summary.priceMismatches + 1 }
  | .quantityMismatch => { summary with quantityMismatches := summary.quantityMismatches + 1 }
  | .missingLevel => { summary with missingLevels := summary.missingLevels + 1 }
  | .extraLevel => { summary with extraLevels := summary.extraLevels + 1 }

/-- The branch of an image whose millisecond holds several events. -/
def countAmbiguous (options : ValidationOptions) (image : ReferenceImage) (diff : BookDiff)
    (summary : ValidationSummary) : ValidationSummary :=
  let summary := { summary with ambiguousImages := summary.ambiguousImages + 1 }
  if diff.isEmpty then summary
  else { summary with
    ambiguousMismatches := summary.ambiguousMismatches + 1
    sampleAmbiguousTimestamps :=
      sampled options summary.sampleAmbiguousTimestamps image.timestamp }

/-- The branch of an image whose millisecond holds one event. -/
def countUnambiguous (options : ValidationOptions) (image : ReferenceImage) (diff : BookDiff)
    (summary : ValidationSummary) : ValidationSummary :=
  let summary := { summary with unambiguousImages := summary.unambiguousImages + 1 }
  if diff.isEmpty then summary
  else
    let summary := { summary with unambiguousMismatches := summary.unambiguousMismatches + 1 }
    let summary := diff.foldl countKind summary
    { summary with
      sampleMismatchTimestamps :=
        sampled options summary.sampleMismatchTimestamps image.timestamp }

end ValidationSummary

/-! ## The merge loop -/

def kMsPerDay : Int := 86400000

/-- The double modulo floors, where one `%` would truncate. -/
def utcDayStart (timestamp : Int) : Int :=
  timestamp - ((timestamp.tmod kMsPerDay) + kMsPerDay).tmod kMsPerDay

/-- What the loop over the images carries. -/
structure Validation where
  stream : EventStream
  replayer : BookReplayer := {}
  summary : ValidationSummary := {}
  middayTarget : Int := 0
  sampledOpen : Bool := false
  sampledMidday : Bool := false

/-- The loops over the event stream: apply while the event in hand satisfies `p`, and count. -/
def applyWhile (rnd : Rounding) (p : BookUpdate → Bool) :
    Nat → EventStream → BookReplayer → Except Fault (EventStream × BookReplayer × Nat)
  | 0, stream, replayer => .ok (stream, replayer, 0)
  | fuel + 1, stream, replayer =>
    match stream.pending with
    | none => .ok (stream, replayer, 0)
    | some update =>
      if !p update then .ok (stream, replayer, 0)
      else
        match replayer.apply update with
        | .error e _ => .error (.threw e)
        | .ok () replayer' =>
          match EventStream.advance rnd stream with
          | .error f => .error f
          | .ok stream' =>
            (applyWhile rnd p fuel stream' replayer').map fun r => (r.1, r.2.1, r.2.2 + 1)

/-- Open, midday and close, of the images that were compared. -/
def sampleClean (options : ValidationOptions) (image : ReferenceImage) (hasMore : Bool)
    (v : Validation) : Validation :=
  let summary := { v.summary with
    sampleCleanTimestamps := v.summary.sampleCleanTimestamps ++ [image.timestamp] }
  if !options.diagnostics then v
  else if !v.sampledOpen then
    { v with
      summary
      middayTarget := utcDayStart image.timestamp + kMsPerDay / 2
      sampledOpen := true }
  else if !v.sampledMidday && decide (v.middayTarget ≤ image.timestamp) then
    { v with summary, sampledMidday := true }
  else if !hasMore then { v with summary }
  else v

/-- Where a compared image is counted, `group` events sharing its millisecond. -/
def classify (options : ValidationOptions) (image : ReferenceImage) (hasMore : Bool) (group : Nat)
    (diff : BookDiff) (v : Validation) : Validation :=
  if group = 0 then
    { v with summary := { v.summary with orphanImages := v.summary.orphanImages + 1 } }
  else
    let v := sampleClean options image hasMore v
    if 1 < group then { v with summary := v.summary.countAmbiguous options image diff }
    else { v with summary := v.summary.countUnambiguous options image diff }

/-- The body of the loop over the images. -/
def compareImage (rnd : Rounding) (options : ValidationOptions) (image : ReferenceImage)
    (hasMore : Bool) (v : Validation) : Except Fault Validation :=
  let summary := { v.summary with
    images := v.summary.images + 1
    referenceRows := v.summary.referenceRows + image.rows }
  -- nothing later than the image is applied before the comparison
  match applyWhile rnd (fun u => u.timestamp < image.timestamp) v.stream.left v.stream
      v.replayer with
  | .error f => .error f
  | .ok (before, earlier, _) =>
    match applyWhile rnd (fun u => u.timestamp = image.timestamp) before.left before
        earlier with
    | .error f => .error f
    | .ok (stream, replayer, group) =>
      let diff := compareTopN replayer.book image.bids image.asks options.depth
      .ok (classify options image hasMore group diff { v with stream, replayer, summary })

def validateImages (rnd : Rounding) (options : ValidationOptions) :
    Nat → ReferenceStream → Validation → Except Fault Validation
  | 0, _, v => .ok v
  | fuel + 1, images, v =>
    match images.next rnd with
    | .error f => .error f
    | .ok none => .ok v
    | .ok (some (image, images')) =>
      match compareImage rnd options image images'.hasMore v with
      | .error f => .error f
      | .ok v' => validateImages rnd options fuel images' v'

/-- The end of `validate`, all events having been replayed. -/
def finish (replayer : BookReplayer) (summary : ValidationSummary) : ValidationSummary :=
  let summary := { summary with replay := replayer.stats, events := replayer.stats.applied }
  if summary.verdict = .pass then summary else { summary with sampleCleanTimestamps := [] }

def validate (rnd : Rounding) (events reference : List Char) (options : ValidationOptions) :
    Except Fault ValidationSummary :=
  match EventStream.make rnd events with
  | .error f => .error f
  | .ok stream =>
    match ReferenceStream.make rnd reference with
    | .error f => .error f
    | .ok images =>
      match validateImages rnd options images.left images { stream } with
      | .error f => .error f
      | .ok v =>
        match applyWhile rnd (fun _ => true) v.stream.left v.stream v.replayer with
        | .error f => .error f
        | .ok (_, replayer, _) => .ok (finish replayer v.summary)

end Tools
end PerpCarry
