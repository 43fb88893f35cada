import PerpCarry.Tools.MergeLoop

/-!
# Tools.CsvRows

What the two streams accept of a text, line after line.

The header's fields are counted; those of a row are not. A row with too few fields is indexed
outside, unless a field it does have cannot be parsed; a row with too many is accepted, its surplus
fields unread. A reference is read by `next`, image by image, and a row out of place ends that.

* `readEvent_cases`, `readReference_cases`: what becomes of one line.
* `deliver_body`, `deliver_images`: a stream, read to its end, is its lines read one after the other.
* `readsSoundly_iff`, `readsSoundly_images`: when every accepted row has the fields it should have.
* `csv_rows_exact`: both streams, for every text.
-/

namespace PerpCarry
namespace Tools

/-! ## One field -/

/-- A parser that can only refuse with a `ValidationError`. -/
def Refuses {β : Type} (parse : Field → Except Fault β) : Prop :=
  ∀ field, (∃ value, parse field = .ok value) ∨ ∃ message, parse field = .error (failure message)

theorem parseInt_refuses (what : String) : Refuses fun field => parseInt field what := by
  intro field
  simp only [parseInt]
  split
  · exact .inl ⟨_, rfl⟩
  · exact .inr ⟨_, rfl⟩

theorem parseDouble_refuses (rnd : Rounding) (what : String) :
    Refuses fun field => parseDouble rnd field what := by
  intro field
  simp only [parseDouble]
  split
  · exact .inl ⟨_, rfl⟩
  · exact .inr ⟨_, rfl⟩

theorem parseSide_refuses : Refuses parseSide := by
  intro field
  unfold parseSide
  split
  · exact .inl ⟨_, rfl⟩
  · split
    · exact .inl ⟨_, rfl⟩
    · exact .inr ⟨_, rfl⟩

theorem parseBool_refuses : Refuses parseBool := by
  intro field
  unfold parseBool
  split
  · exact .inl ⟨_, rfl⟩
  · split
    · exact .inl ⟨_, rfl⟩
    · exact .inr ⟨_, rfl⟩

/-- The field of a column parses, if the line has it. -/
def columnParses {β : Type} (parse : Field → Except Fault β) (fields : List Field) (i : Nat) :
    Bool :=
  match fields[i]? with
  | none => true
  | some field => (parse field).isOk

/-- The value is parsed from the field of column `i`. -/
def FromColumn {β : Type} (parse : Field → Except Fault β) (fields : List Field) (i : Nat)
    (value : β) : Prop :=
  ∃ field, fields[i]? = some field ∧ parse field = .ok value

theorem columnParses_past {β : Type} {parse : Field → Except Fault β} {fields : List Field}
    {i : Nat} (h : fields.length ≤ i) : columnParses parse fields i = true := by
  rw [columnParses, List.getElem?_eq_none h]

theorem FromColumn.lt {β : Type} {parse : Field → Except Fault β} {fields : List Field} {i : Nat}
    {value : β} (h : FromColumn parse fields i value) : i < fields.length := by
  obtain ⟨field, hfield, -⟩ := h
  exact (List.getElem?_eq_some_iff.mp hfield).1

/-! ## One line -/

/-- What can become of a line whose first `columns` fields are read: all of them parse and a row is
built, all that are there parse and one is missing, or one is refused. -/
def LineCases {α : Type} (columns : Nat) (fields : List Field) (parses : Bool) (Parsed : α → Prop)
    (x : Except Fault α) : Prop :=
  (parses = true ∧ columns ≤ fields.length ∧ ∃ row, x = .ok row ∧ Parsed row) ∨
    (parses = true ∧ fields.length < columns ∧
      ∃ i, fields.length ≤ i ∧ x = .error (.outOfRange i fields.length)) ∨
    (parses = false ∧ ∃ message, x = .error (failure message))

/-- One column read, and then the rest of the line. -/
theorem lineCases_column {α β : Type} {columns : Nat} {fields : List Field} {rest : Bool}
    {Parsed : α → Prop} {parse : Field → Except Fault β} {k : β → Except Fault α} {i : Nat}
    (hrefuses : Refuses parse) (hi : i < columns) (hpast : fields.length ≤ i → rest = true)
    (hk : ∀ value, FromColumn parse fields i value →
      LineCases columns fields rest Parsed (k value)) :
    LineCases columns fields (columnParses parse fields i && rest) Parsed
      (do let value ← parse (← fieldAt fields i); k value) := by
  cases hfield : fields[i]? with
  | none =>
    have hlength : fields.length ≤ i := List.getElem?_eq_none_iff.mp hfield
    refine .inr (.inl ⟨?_, by omega, i, hlength, ?_⟩)
    · rw [columnParses_past hlength, hpast hlength, Bool.and_self]
    · simp only [fieldAt, hfield, bind, Except.bind]
  | some field =>
    have hat : fieldAt fields i = .ok field := by rw [fieldAt, hfield]
    rcases hrefuses field with ⟨value, hvalue⟩ | ⟨message, hmessage⟩
    · have hparses : columnParses parse fields i = true := by
        rw [columnParses, hfield]
        simp only [hvalue, Except.isOk, Except.toBool]
      rw [hparses, Bool.true_and]
      simpa only [hat, hvalue, bind, Except.bind] using hk value ⟨field, hfield, hvalue⟩
    · have hparses : columnParses parse fields i = false := by
        rw [columnParses, hfield]
        simp only [hmessage, Except.isOk, Except.toBool]
      rw [hparses, Bool.false_and]
      exact .inr (.inr ⟨rfl, message, by simp only [hat, hmessage, bind, Except.bind]⟩)

/-- The fields of an event's line that are there parse, each as its column. -/
def eventParses (rnd : Rounding) (fields : List Field) : Bool :=
  columnParses (parseInt · "event timestamp") fields 0 &&
    (columnParses (parseInt · "event local_timestamp") fields 1 &&
    (columnParses parseBool fields 2 &&
    (columnParses parseSide fields 3 &&
    (columnParses (parseDouble rnd · "event price") fields 4 &&
    (columnParses (parseDouble rnd · "event quantity") fields 5 && true)))))

def referenceParses (rnd : Rounding) (fields : List Field) : Bool :=
  columnParses (parseInt · "reference timestamp") fields 0 &&
    (columnParses parseSide fields 1 &&
    (columnParses (parseInt · "reference level") fields 2 &&
    (columnParses (parseDouble rnd · "reference price") fields 3 &&
    (columnParses (parseDouble rnd · "reference quantity") fields 4 && true))))

structure EventParsed (rnd : Rounding) (fields : List Field) (row : BookUpdate) : Prop where
  timestamp : FromColumn (parseInt · "event timestamp") fields 0 row.timestamp
  localTimestamp : FromColumn (parseInt · "event local_timestamp") fields 1 row.localTimestamp
  isSnapshot : FromColumn parseBool fields 2 row.isSnapshot
  side : FromColumn parseSide fields 3 row.side
  price : FromColumn (parseDouble rnd · "event price") fields 4 row.price
  quantity : FromColumn (parseDouble rnd · "event quantity") fields 5 row.quantity

structure ReferenceParsed (rnd : Rounding) (fields : List Field) (row : ReferenceRow) : Prop where
  timestamp : FromColumn (parseInt · "reference timestamp") fields 0 row.timestamp
  side : FromColumn parseSide fields 1 row.side
  level : FromColumn (parseInt · "reference level") fields 2 row.level
  price : FromColumn (parseDouble rnd · "reference price") fields 3 row.price
  quantity : FromColumn (parseDouble rnd · "reference quantity") fields 4 row.quantity

theorem readEvent_cases (rnd : Rounding) (fields : List Field) :
    LineCases 6 fields (eventParses rnd fields) (EventParsed rnd fields)
      (readEvent rnd fields) := by
  refine lineCases_column (parseInt_refuses _) (by omega) ?_ fun timestamp h₀ => ?_
  · intro h; simp (disch := omega) [columnParses_past]
  refine lineCases_column (parseInt_refuses _) (by omega) ?_ fun localTimestamp h₁ => ?_
  · intro h; simp (disch := omega) [columnParses_past]
  refine lineCases_column parseBool_refuses (by omega) ?_ fun isSnapshot h₂ => ?_
  · intro h; simp (disch := omega) [columnParses_past]
  refine lineCases_column parseSide_refuses (by omega) ?_ fun side h₃ => ?_
  · intro h; simp (disch := omega) [columnParses_past]
  refine lineCases_column (parseDouble_refuses _ _) (by omega) ?_ fun price h₄ => ?_
  · intro h; simp (disch := omega) [columnParses_past]
  refine lineCases_column (parseDouble_refuses _ _) (by omega) (fun _ => rfl) fun quantity h₅ => ?_
  exact .inl ⟨rfl, h₅.lt, _, rfl, ⟨h₀, h₁, h₂, h₃, h₄, h₅⟩⟩

theorem readReference_cases (rnd : Rounding) (fields : List Field) :
    LineCases 5 fields (referenceParses rnd fields) (ReferenceParsed rnd fields)
      (readReference rnd fields) := by
  refine lineCases_column (parseInt_refuses _) (by omega) ?_ fun timestamp h₀ => ?_
  · intro h; simp (disch := omega) [columnParses_past]
  refine lineCases_column parseSide_refuses (by omega) ?_ fun side h₁ => ?_
  · intro h; simp (disch := omega) [columnParses_past]
  refine lineCases_column (parseInt_refuses _) (by omega) ?_ fun level h₂ => ?_
  · intro h; simp (disch := omega) [columnParses_past]
  refine lineCases_column (parseDouble_refuses _ _) (by omega) ?_ fun price h₃ => ?_
  · intro h; simp (disch := omega) [columnParses_past]
  refine lineCases_column (parseDouble_refuses _ _) (by omega) (fun _ => rfl) fun quantity h₄ => ?_
  exact .inl ⟨rfl, h₄.lt, _, rfl, ⟨h₀, h₁, h₂, h₃, h₄⟩⟩

/-! ## A stream read to its end -/

/-- The rows a stream shows, one `advance` after another, and the fault it stops with. -/
def Lookahead.drain {α : Type} (read : List Field → Except Fault α) :
    Nat → Lookahead α → List α × Option Fault
  | 0, _ => ([], none)
  | fuel + 1, s =>
    match s.pending with
    | none => ([], none)
    | some row =>
      match s.advance read with
      | .error f => ([row], some f)
      | .ok s' =>
        let (rows, stop) := drain read fuel s'
        (row :: rows, stop)

/-- A stream read to its end, from its constructor on. -/
def Lookahead.deliver {α : Type} (read : List Field → Except Fault α) :
    Except Fault (Lookahead α) → List α × Option Fault
  | .error f => ([], some f)
  | .ok s => s.drain read s.left

def EventStream.deliver (rnd : Rounding) (text : List Char) : List BookUpdate × Option Fault :=
  Lookahead.deliver (readEvent rnd) (EventStream.make rnd text)

/-- The first rows that a stream shows. -/
def Lookahead.firstRows {α : Type} (read : List Field → Except Fault α) : Nat → Lookahead α → List α
  | 0, _ => []
  | n + 1, s =>
    match s.pending with
    | none => []
    | some row =>
      match s.advance read with
      | .error _ => [row]
      | .ok s' => row :: firstRows read n s'

/-- The rows of the images that `next` returns, one call after another, and the fault it stops
with. -/
def ReferenceStream.drain (rnd : Rounding) :
    Nat → ReferenceStream → List ReferenceRow × Option Fault
  | 0, _ => ([], none)
  | fuel + 1, s =>
    match s.next rnd with
    | .error f => ([], some f)
    | .ok none => ([], none)
    | .ok (some (image, s')) =>
      let (rows, stop) := drain rnd fuel s'
      (s.firstRows (readReference rnd) image.rows.toNat ++ rows, stop)

def ReferenceStream.deliver (rnd : Rounding) (text : List Char) :
    List ReferenceRow × Option Fault :=
  match ReferenceStream.make rnd text with
  | .error f => ([], some f)
  | .ok s => s.drain rnd s.left

/-- The lines that are not blank, without their carriage return. -/
def bodyLines (csv : CsvReader) : List (List Char) := (csv.map chomp).filter fun line => !line.isEmpty

/-- The body lines of a text, behind its header. -/
def textLines (text : List Char) : List (List Char) := bodyLines (getlines text).tail

/-- The lines read one after the other. -/
def deliverLines {α : Type} (read : List Field → Except Fault α) :
    List (List Char) → List α × Option Fault
  | [] => ([], none)
  | line :: lines =>
    match read (split line) with
    | .error f => ([], some f)
    | .ok row =>
      let (rows, stop) := deliverLines read lines
      (row :: rows, stop)

section Drain

variable {α : Type} {read : List Field → Except Fault α}

theorem next_body (csv : CsvReader) :
    (csv.next = none ∧ bodyLines csv = []) ∨
      ∃ line csv', csv.next = some (split line, csv') ∧ bodyLines csv = line :: bodyLines csv' := by
  induction csv with
  | nil => exact .inl ⟨rfl, rfl⟩
  | cons line lines ih =>
    by_cases hblank : (chomp line).isEmpty = true
    · have hbody : bodyLines (line :: lines) = bodyLines lines := by
        simp [bodyLines, hblank]
      have hnext : CsvReader.next (line :: lines) = CsvReader.next lines := by
        rw [CsvReader.next, if_pos hblank]
      rw [hbody, hnext]
      exact ih
    · refine .inr ⟨chomp line, lines, ?_, ?_⟩
      · rw [CsvReader.next, if_neg hblank]
      · simp only [bodyLines, List.map_cons, List.filter_cons]
        rw [if_pos (by simpa using hblank)]

/-- One `advance`, in terms of the lines that are left. -/
theorem advance_body (read : List Field → Except Fault α) (s : Lookahead α) :
    (bodyLines s.csv = [] ∧ s.advance read = .ok { csv := [] }) ∨
      ∃ line lines, bodyLines s.csv = line :: lines ∧
        ((∃ f, read (split line) = .error f ∧ s.advance read = .error f) ∨
          ∃ row csv, read (split line) = .ok row ∧ csv.length < s.csv.length ∧
            bodyLines csv = lines ∧ s.advance read = .ok { csv, pending := some row }) := by
  unfold Lookahead.advance
  rcases next_body s.csv with ⟨hnext, hbody⟩ | ⟨line, csv, hnext, hbody⟩
  · exact .inl ⟨hbody, by rw [hnext]⟩
  · refine .inr ⟨line, bodyLines csv, hbody, ?_⟩
    rw [hnext]
    cases hread : read (split line) with
    | error f => exact .inl ⟨f, rfl, by simp only [hread]⟩
    | ok row =>
      exact .inr ⟨row, csv, rfl, Lookahead.next_length hnext, rfl, by simp only [hread]⟩

theorem drain_lines {fuel : Nat} {s : Lookahead α} {row : α} (hrow : s.pending = some row)
    (hfuel : s.left ≤ fuel) :
    s.drain read fuel =
      (row :: (deliverLines read (bodyLines s.csv)).1,
        (deliverLines read (bodyLines s.csv)).2) := by
  have hleft : s.left = s.csv.length + 1 := by rw [Lookahead.left, hrow]
  induction fuel generalizing s row with
  | zero => omega
  | succ fuel ih =>
    simp only [Lookahead.drain, hrow]
    rcases advance_body read s with ⟨hbody, hadvance⟩ | ⟨line, lines, hbody, hcases⟩
    · rw [hadvance, hbody]
      cases fuel <;> rfl
    · rw [hbody]
      rcases hcases with ⟨f, hread, hadvance⟩ | ⟨row', csv, hread, hless, hlines, hadvance⟩
      · rw [hadvance, deliverLines, hread]
      · rw [hadvance, deliverLines, hread]
        have hleft' : Lookahead.left { csv, pending := some row' } = csv.length + 1 := rfl
        simp only [ih rfl (by omega) hleft', hlines]

theorem deliver_body (csv : CsvReader) :
    Lookahead.deliver read (Lookahead.advance read { csv }) =
      deliverLines read (bodyLines csv) := by
  rcases advance_body read { csv } with ⟨hbody, hadvance⟩ | ⟨line, lines, hbody, hcases⟩
  · rw [hadvance, hbody]
    rfl
  · rw [hbody, deliverLines]
    rcases hcases with ⟨f, hread, hadvance⟩ | ⟨row, csv', hread, -, hlines, hadvance⟩
    · rw [hadvance, hread]
      rfl
    · rw [hadvance, hread]
      have hpending : (Lookahead.mk csv' (some row)).pending = some row := rfl
      rw [Lookahead.deliver, drain_lines hpending (Nat.le_refl _), hlines]

end Drain

/-! ## The images of the lines -/

/-- The row is of the millisecond of the open image. -/
def joins (image : Option ReferenceImage) (row : ReferenceRow) : Bool :=
  image.any fun image => row.timestamp = image.timestamp

/-- The image that takes the row, if it is at the next level of its side. -/
def imageFor (image : Option ReferenceImage) (row : ReferenceRow) : ReferenceImage :=
  match image with
  | some image =>
    if row.timestamp = image.timestamp then image else { timestamp := row.timestamp }
  | none => { timestamp := row.timestamp }

/-- A row behind the rows `held` of the open image, which is returned when the row opens another. -/
def placed (image : Option ReferenceImage) (held : List ReferenceRow) (row : ReferenceRow)
    (rest : ReferenceImage → List ReferenceRow → List ReferenceRow × Option Fault) :
    List ReferenceRow × Option Fault :=
  let target := imageFor image row
  let done := if joins image row then [] else held
  if row.level ≠ (target.levels row.side).length then
    (done, some (ReferenceStream.misplaced target row))
  else
    let (rows, stop) := rest (target.push row) (if joins image row then held ++ [row] else [row])
    (done ++ rows, stop)

/-- The lines read one after the other, an image returned when it is complete. -/
def deliverImages (rnd : Rounding) :
    Option ReferenceImage → List ReferenceRow → List (List Char) → List ReferenceRow × Option Fault
  | _, held, [] => (held, none)
  | image, held, line :: lines =>
    match readReference rnd (split line) with
    | .error f => ([], some f)
    | .ok row => placed image held row fun image held => deliverImages rnd (some image) held lines

section Images

variable {rnd : Rounding} {s : ReferenceStream} {image : ReferenceImage} {row : ReferenceRow}
  {held : List ReferenceRow} {fuel : Nat}

/-- The row in hand, and the lines behind it. -/
def resumed (rnd : Rounding) (s : ReferenceStream) (image : Option ReferenceImage)
    (held : List ReferenceRow) : List ReferenceRow × Option Fault :=
  match s.pending with
  | none => (held, none)
  | some row =>
    placed image held row fun image held => deliverImages rnd (some image) held (bodyLines s.csv)

theorem placed_joins {rest : ReferenceImage → List ReferenceRow → List ReferenceRow × Option Fault}
    (htime : row.timestamp = image.timestamp) : placed (some image) held row rest =
      if row.level ≠ (image.levels row.side).length then
        ([], some (ReferenceStream.misplaced image row))
      else rest (image.push row) (held ++ [row]) := by
  simp [placed, joins, imageFor, htime]

theorem placed_opens {rest : ReferenceImage → List ReferenceRow → List ReferenceRow × Option Fault}
    (htime : row.timestamp ≠ image.timestamp) : placed (some image) held row rest =
      (held ++ (placed none [] row rest).1, (placed none [] row rest).2) := by
  simp only [placed, joins, imageFor, Option.any_some, Option.any_none, decide_eq_true_eq, htime,
    if_false, Bool.false_eq_true, List.nil_append]
  split <;> simp

/-- One `advance` from an open image. -/
theorem deliver_advance (image : Option ReferenceImage) (held : List ReferenceRow) :
    deliverImages rnd image held (bodyLines s.csv) =
      match s.advance rnd with
      | .error f => ([], some f)
      | .ok s' => resumed rnd s' image held := by
  unfold ReferenceStream.advance
  rcases advance_body (readReference rnd) s with ⟨hbody, hadvance⟩ | ⟨line, lines, hbody, hcases⟩
  · rw [hadvance, hbody]
    rfl
  · rw [hbody, deliverImages]
    rcases hcases with ⟨f, hread, hadvance⟩ | ⟨row, csv, hread, -, hlines, hadvance⟩
    · rw [hadvance, hread]
    · rw [hadvance, hread, ← hlines]
      rfl

/-- `gather` stops with a fault, or with an image of the rows that were next. -/
theorem gather_images (hfuel : s.left ≤ fuel) :
    (∃ f, s.gather rnd fuel image = .error f ∧
        resumed rnd s (some image) held = ([], some f)) ∨
      ∃ image' s' n, s.gather rnd fuel image = .ok (image', s') ∧
        image'.rows = image.rows + (n : Nat) ∧
        resumed rnd s (some image) held =
          (held ++ s.firstRows (readReference rnd) n ++ (resumed rnd s' none []).1,
            (resumed rnd s' none []).2) := by
  induction fuel generalizing s image held with
  | zero =>
    cases hpending : s.pending with
    | some row =>
      have := left_pos hpending
      omega
    | none => exact .inr ⟨image, s, 0, rfl, by simp, by simp [resumed, hpending, Lookahead.firstRows]⟩
  | succ fuel ih =>
    unfold ReferenceStream.gather
    cases hpending : s.pending with
    | none => exact .inr ⟨image, s, 0, rfl, by simp, by simp [resumed, hpending, Lookahead.firstRows]⟩
    | some row =>
      simp only
      by_cases htime : row.timestamp = image.timestamp
      · have hresumed : resumed rnd s (some image) held =
            if row.level ≠ (image.levels row.side).length then
              ([], some (ReferenceStream.misplaced image row))
            else deliverImages rnd (some (image.push row)) (held ++ [row]) (bodyLines s.csv) := by
          rw [resumed, hpending]
          exact placed_joins htime
        rw [hresumed, if_neg (not_not_intro htime)]
        by_cases hlevel : row.level = (image.levels row.side).length
        · rw [if_neg (not_not_intro hlevel), if_neg (not_not_intro hlevel), deliver_advance]
          cases hadvance : s.advance rnd with
          | error f => exact .inl ⟨f, rfl, rfl⟩
          | ok s₁ =>
            have hless := Lookahead.advance_left hpending hadvance
            have hfirst : ∀ n, s.firstRows (readReference rnd) (n + 1) =
                row :: s₁.firstRows (readReference rnd) n := by
              intro n
              unfold ReferenceStream.advance at hadvance
              simp only [Lookahead.firstRows, hpending, hadvance]
            rcases @ih s₁ (image.push row) (held ++ [row]) (by omega) with
              hfault | ⟨image', s', n, hgather, hcount, hrest⟩
            · exact .inl hfault
            · refine .inr ⟨image', s', n + 1, hgather, ?_, ?_⟩
              · have hpush : (image.push row).rows = image.rows + 1 := by
                  unfold ReferenceImage.push
                  split <;> rfl
                rw [hcount, hpush]
                push_cast
                ring
              · rw [hfirst]
                simpa using hrest
        · rw [if_pos hlevel, if_pos hlevel]
          exact .inl ⟨_, rfl, rfl⟩
      · refine .inr ⟨image, s, 0, by rw [if_pos htime], by simp, ?_⟩
        simp only [resumed, hpending, Lookahead.firstRows, List.append_nil]
        exact placed_opens htime

theorem drain_images (hfuel : s.left ≤ fuel) : s.drain rnd fuel = resumed rnd s none [] := by
  induction fuel generalizing s with
  | zero =>
    cases hpending : s.pending with
    | some row =>
      have := left_pos hpending
      omega
    | none => simp [ReferenceStream.drain, resumed, hpending]
  | succ fuel ih =>
    unfold ReferenceStream.drain
    cases hpending : s.pending with
    | none => simp [ReferenceStream.next, resumed, hpending]
    | some row =>
      let opened : ReferenceImage := { timestamp := row.timestamp }
      have hnext : s.next rnd = (s.gather rnd s.left opened).map some := by
        rw [ReferenceStream.next, hpending]
      have hopened : resumed rnd s none [] = resumed rnd s (some opened) [] := by
        simp [resumed, hpending, placed, imageFor, joins, opened]
      rw [hnext, hopened]
      rcases @gather_images rnd s opened [] _ (Nat.le_refl _) with
        ⟨f, hgather, hfault⟩ | ⟨image, s', n, hgather, hcount, hrest⟩
      · rw [hgather, hfault]
        rfl
      · have hless := (next_rows (hnext.trans (by rw [hgather]; rfl))).1
        have hrows : image.rows.toNat = n := by
          rw [hcount]
          simp [opened]
        rw [hgather, hrest]
        simp only [Except.map, hrows, ih (by omega : s'.left ≤ fuel), List.nil_append]

theorem deliver_images (csv : CsvReader) :
    (match ReferenceStream.advance rnd { csv } with
      | .error f => ([], some f)
      | .ok s => s.drain rnd s.left) = deliverImages rnd none [] (bodyLines csv) := by
  have hstart := @deliver_advance rnd { csv } none []
  rw [hstart]
  cases ReferenceStream.advance rnd { csv } with
  | error f => rfl
  | ok s => exact drain_images (Nat.le_refl _)

end Images

/-- A header that is refused is refused with a `ValidationError`. -/
theorem make_error {text : List Char} {expected : List String} {what : String} {f : Fault}
    (h : CsvReader.make text expected what = .error f) : ∃ message, f = failure message := by
  have hcolumns : ∀ (i : Nat) (fields : List Field) (names : List String) (f : Fault),
      CsvReader.checkColumns what i fields names = .error f → ∃ message, f = failure message := by
    intro i fields names
    induction fields generalizing i names with
    | nil => rintro f ⟨⟩
    | cons field fields ih =>
      cases names with
      | nil => rintro f ⟨⟩
      | cons name names =>
        intro f hf
        unfold CsvReader.checkColumns at hf
        split at hf
        · cases hf
          exact ⟨_, rfl⟩
        · exact ih _ _ f hf
  unfold CsvReader.make at h
  split at h
  · cases h
    exact ⟨_, rfl⟩
  · dsimp only at h
    split at h
    · cases h
      exact ⟨_, rfl⟩
    · split at h
      · rename_i hf
        cases h
        exact hcolumns _ _ _ _ hf
      · cases h

theorem make_lines {text : List Char} {expected : List String} {what : String} {csv : CsvReader}
    (h : CsvReader.make text expected what = .ok csv) : csv = (getlines text).tail := by
  unfold CsvReader.make at h
  split at h
  · cases h
  · rename_i line lines hlines
    dsimp only at h
    split at h
    · cases h
    · split at h
      · cases h
      · cases h
        rw [hlines, List.tail_cons]

/-! ## Rows with the fields they should have -/

/-- The rows delivered are those of the first lines, each line with as many fields as the header and
each value from its own column; with no fault they are those of all the lines; and a fault is a
`ValidationError`. -/
structure ReadsSoundly {α : Type} (columns : Nat) (Parsed : List Field → α → Prop)
    (lines : List (List Char)) (delivered : List α × Option Fault) : Prop where
  rows : List.Forall₂ (fun line row => (split line).length = columns ∧ Parsed (split line) row)
    (lines.take delivered.1.length) delivered.1
  all : delivered.2 = none → delivered.1.length = lines.length
  fault : ∀ f, delivered.2 = some f → ∃ message, f = .threw (.validationError message)

section Sound

variable {α : Type} {columns : Nat} {Parsed : List Field → α → Prop} {line : List Char}
  {lines : List (List Char)} {row : α} {rows : List α} {stop : Option Fault}

theorem readsSoundly_cons : ReadsSoundly columns Parsed (line :: lines) (row :: rows, stop) ↔
    ((split line).length = columns ∧ Parsed (split line) row) ∧
      ReadsSoundly columns Parsed lines (rows, stop) := by
  constructor
  · intro h
    have hrows := h.rows
    simp only [List.length_cons, List.take_succ_cons, List.forall₂_cons] at hrows
    refine ⟨hrows.1, ⟨hrows.2, ?_, h.fault⟩⟩
    intro hstop
    exact Nat.succ.inj (h.all hstop)
  · rintro ⟨hrow, h⟩
    refine ⟨?_, ?_, h.fault⟩
    · simp only [List.length_cons, List.take_succ_cons, List.forall₂_cons]
      exact ⟨hrow, h.rows⟩
    · intro hstop
      exact congrArg (· + 1) (h.all hstop)

theorem readsSoundly_stop (f : Fault) : ReadsSoundly columns Parsed lines ([], some f) ↔
    ∃ message, f = .threw (.validationError message) := by
  constructor
  · intro h
    exact h.fault f rfl
  · intro h
    exact ⟨.nil, by rintro ⟨⟩, by rintro _ ⟨⟩; exact h⟩

variable {read : List Field → Except Fault α} {parses : List Field → Bool}

/-- The lines before the first one refused decide. -/
theorem readsSoundly_iff
    (hread : ∀ fields, LineCases columns fields (parses fields) (Parsed fields) (read fields)) :
    ReadsSoundly columns Parsed lines (deliverLines read lines) ↔
      ∀ line ∈ lines.takeWhile fun line => parses (split line), (split line).length = columns := by
  induction lines with
  | nil =>
    constructor
    · intro _ line hmem
      cases hmem
    · intro _
      exact ⟨.nil, fun _ => rfl, by rintro f ⟨⟩⟩
  | cons line lines ih =>
    rw [deliverLines]
    rcases hread (split line) with ⟨hparses, hlength, row, hrow, hparsed⟩ |
      ⟨hparses, hshort, i, -, hfault⟩ | ⟨hparses, message, hfault⟩
    · rw [hrow, List.takeWhile_cons_of_pos (p := fun line => parses (split line)) hparses,
        List.forall_mem_cons, ← ih]
      simp only [readsSoundly_cons, hparsed, and_true, Prod.mk.eta]
    · rw [hfault, List.takeWhile_cons_of_pos (p := fun line => parses (split line)) hparses,
        List.forall_mem_cons]
      simp only [readsSoundly_stop]
      constructor
      · rintro ⟨message, ⟨⟩⟩
      · rintro ⟨hlength, -⟩
        omega
    · rw [hfault, List.takeWhile_cons_of_neg (p := fun line => parses (split line))
        (by simp [hparses])]
      simp only [readsSoundly_stop]
      exact ⟨fun _ _ hmem => (List.not_mem_nil hmem).elim, fun _ => ⟨message, rfl⟩⟩

theorem readsSoundly_append {first : List (List Char)} {taken : List α}
    (h : List.Forall₂ (fun line row => Parsed (split line) row) first taken) :
    ReadsSoundly columns Parsed (first ++ lines) (taken ++ rows, stop) ↔
      (∀ line ∈ first, (split line).length = columns) ∧
        ReadsSoundly columns Parsed lines (rows, stop) := by
  induction h with
  | nil => simp
  | cons hparsed _ ih =>
    rw [List.cons_append, List.cons_append, readsSoundly_cons, ih, List.forall_mem_cons]
    simp only [hparsed, and_true, and_assoc]

end Sound

/-! ## The images of the fitting lines -/

/-- The lines of every image that is returned have as many fields as the header, and no line that is
read lacks one. `held` are the lines of the open image; a row out of place ends the reading. -/
def ImagesFit (rnd : Rounding) :
    Option ReferenceImage → List (List Char) → List (List Char) → Prop
  | _, held, [] => ∀ line ∈ held, (split line).length = kReferenceColumns.length
  | image, held, line :: lines =>
    match readReference rnd (split line) with
    | .error _ => referenceParses rnd (split line) = false
    | .ok row =>
      (joins image row = false →
        ∀ line ∈ held, (split line).length = kReferenceColumns.length) ∧
      (row.level = ((imageFor image row).levels row.side).length →
        ImagesFit rnd (some ((imageFor image row).push row))
          (if joins image row then held ++ [line] else [line]) lines)

theorem readsSoundly_images {rnd : Rounding} {image : Option ReferenceImage}
    {first lines : List (List Char)} {held : List ReferenceRow}
    (h : List.Forall₂ (fun line row => ReferenceParsed rnd (split line) row) first held) :
    ReadsSoundly kReferenceColumns.length (ReferenceParsed rnd) (first ++ lines)
        (deliverImages rnd image held lines) ↔ ImagesFit rnd image first lines := by
  induction lines generalizing image first held with
  | nil =>
    have hnone : ReadsSoundly kReferenceColumns.length (ReferenceParsed rnd) [] ([], none) :=
      ⟨.nil, fun _ => rfl, by rintro f ⟨⟩⟩
    have happend := @readsSoundly_append _ kReferenceColumns.length _ [] [] none _ _ h
    rw [List.append_nil, List.append_nil] at happend
    simp only [deliverImages, ImagesFit, List.append_nil]
    rw [happend]
    exact and_iff_left hnone
  | cons line lines ih =>
    unfold deliverImages ImagesFit
    rcases readReference_cases rnd (split line) with ⟨-, -, row, hrow, hparsed⟩ |
      ⟨hparses, -, i, -, hfault⟩ | ⟨hparses, message, hfault⟩
    · simp only [hrow, placed]
      cases hjoins : joins image row with
      | true =>
        simp only [if_true, List.nil_append, Bool.true_eq_false, false_implies, true_and]
        by_cases hlevel : row.level = ((imageFor image row).levels row.side).length
        · have hheld := List.rel_append h (.cons hparsed .nil : List.Forall₂ _ [line] [row])
          rw [if_neg (not_not_intro hlevel), List.append_cons]
          simp only [hlevel, true_implies]
          exact ih hheld
        · rw [if_pos hlevel, readsSoundly_stop]
          exact ⟨fun _ heq => absurd heq hlevel, fun _ => ⟨_, rfl⟩⟩
      | false =>
        simp only [Bool.false_eq_true, if_false, true_implies]
        by_cases hlevel : row.level = ((imageFor image row).levels row.side).length
        · have hopened : List.Forall₂ (fun line row => ReferenceParsed rnd (split line) row) [line]
            [row] := .cons hparsed .nil
          rw [if_neg (not_not_intro hlevel), readsSoundly_append h]
          simp only [hlevel, true_implies, Prod.mk.eta, ← ih hopened, List.singleton_append]
        · have hstop := @readsSoundly_append _ kReferenceColumns.length _ (line :: lines) []
            (some (ReferenceStream.misplaced (imageFor image row) row)) _ _ h
          rw [List.append_nil, readsSoundly_stop] at hstop
          rw [if_pos hlevel, hstop]
          exact ⟨fun hfit => ⟨hfit.1, fun heq => absurd heq hlevel⟩, fun hfit => ⟨hfit.1, _, rfl⟩⟩
    · simp only [hfault, readsSoundly_stop, hparses, Bool.true_eq_false, iff_false]
      rintro ⟨message, ⟨⟩⟩
    · simp only [hfault, readsSoundly_stop, hparses, iff_true]
      exact ⟨message, rfl⟩

/-! ## Every text -/

/-- Behind a good header, every line up to the first one refused has as many fields as the header. -/
def RowsFit (text : List Char) (expected : List String) (what : String)
    (parses : List Field → Bool) : Prop :=
  (∃ csv, CsvReader.make text expected what = .ok csv) →
    ∀ line ∈ (textLines text).takeWhile fun line => parses (split line),
      (split line).length = expected.length

/-- Behind a good header, the lines of the images fit. -/
def ReferenceFits (rnd : Rounding) (text : List Char) : Prop :=
  (∃ csv, CsvReader.make text kReferenceColumns "reference" = .ok csv) →
    ImagesFit rnd none [] (textLines text)

theorem deliver_exact {α : Type} {Parsed : List Field → α → Prop} {expected : List String}
    {what : String} {text : List Char} {delivered : List α × Option Fault} {Fit : Prop}
    (herror : ∀ f, CsvReader.make text expected what = .error f → delivered = ([], some f))
    (hok : ∀ csv, CsvReader.make text expected what = .ok csv →
      (ReadsSoundly expected.length Parsed (bodyLines csv) delivered ↔ Fit)) :
    ReadsSoundly expected.length Parsed (textLines text) delivered ↔
      ((∃ csv, CsvReader.make text expected what = .ok csv) → Fit) := by
  cases hmake : CsvReader.make text expected what with
  | error f =>
    obtain ⟨message, rfl⟩ := make_error hmake
    rw [herror _ hmake]
    simp only [readsSoundly_stop, reduceCtorEq, exists_false, false_implies, iff_true]
    exact ⟨message, rfl⟩
  | ok csv =>
    simp only [Except.ok.injEq, exists_eq', true_implies]
    rw [textLines, ← make_lines hmake]
    exact hok csv hmake

theorem csv_rows_exact (rnd : Rounding) (text : List Char) :
    (ReadsSoundly kEventColumns.length (EventParsed rnd) (textLines text)
        (EventStream.deliver rnd text) ↔
      RowsFit text kEventColumns "events" (eventParses rnd)) ∧
    (ReadsSoundly kReferenceColumns.length (ReferenceParsed rnd) (textLines text)
        (ReferenceStream.deliver rnd text) ↔ ReferenceFits rnd text) := by
  refine ⟨deliver_exact ?_ ?_, deliver_exact ?_ ?_⟩
  · intro f hmake
    simp only [EventStream.deliver, EventStream.make, hmake, Lookahead.deliver]
  · intro csv hmake
    rw [textLines, ← make_lines hmake]
    simp only [EventStream.deliver, EventStream.make, hmake, EventStream.advance, deliver_body]
    exact readsSoundly_iff (readEvent_cases rnd)
  · intro f hmake
    simp only [ReferenceStream.deliver, ReferenceStream.make, hmake]
  · intro csv hmake
    rw [textLines, ← make_lines hmake]
    simp only [ReferenceStream.deliver, ReferenceStream.make, hmake, deliver_images]
    exact readsSoundly_images .nil

/-- A reference whose only row stops after its side. -/
def shortRow : List Char := "timestamp,side,level,price,quantity\n17,bid".toList

/-- A reference whose only row has a field more than the header. -/
def longRow : List Char := "timestamp,side,level,price,quantity\n17,bid,0,23,29,31\n".toList

theorem csv_rows_unchecked :
    ReferenceStream.deliver exact shortRow = ([], some (.outOfRange 2 2)) ∧
      ReferenceStream.deliver exact longRow =
        ([⟨17, .bid, 0, .finite 23, .finite 29⟩], none) ∧
      ¬ ∀ text, ReadsSoundly kReferenceColumns.length (ReferenceParsed exact) (textLines text)
        (ReferenceStream.deliver exact text) := by
  have hshort : ReferenceStream.deliver exact shortRow = ([], some (.outOfRange 2 2)) := by
    decide +kernel
  refine ⟨hshort, by decide +kernel, ?_⟩
  intro h
  obtain ⟨message, hmessage⟩ := (h shortRow).fault (.outOfRange 2 2) (by rw [hshort])
  cases hmessage

end Tools
end PerpCarry
