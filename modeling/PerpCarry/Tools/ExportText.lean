import PerpCarry.Book.DumpCsv
import PerpCarry.Tools.ExportBook
import PerpCarry.Tools.MergeLoop

/-!
# Tools.ExportText

The two files of an export as texts, and their way through the harness: `CSVWriter` under
`python/perpcarry/tools/export_book.py`, then `cpp/tools/event_csv.cpp`.

One language writes what the other reads, and no code is common to both. The writer is a library:
`CsvWriter.Documented` is what its cells are taken to be. It may put names and texts in quotes, the
reader takes quotes off and never looks for a comma inside them.

* `parseInt_formatInt`: an `int64` is read back.
* `make_written`, `rows_of_lines`: a header and lines of fields are found again.
* `export_text_exact`: each file is read back as the rows that were written.
-/

namespace PerpCarry
namespace Tools

open Lib
open Pipeline (BookRow)
open Strategy (bind_ok pure_ok)

abbrev Text := List Char

/-! ## Writing -/

/-- `pa_csv.CSVWriter`: what it writes for a name of the header, and for a cell of each type. -/
structure CsvWriter where
  name : String → Text
  text : String → Text
  int : Int → Text
  bool : Bool → Text
  double : Double → Text

/-- A quote inside a quoted cell is doubled. -/
def quoted (on : Bool) (text : Text) : Text :=
  if on then
    quotes :: (text.flatMap fun c => if c = quotes then [quotes, quotes] else [c]) ++ [quotes]
  else text

def formatInt (n : Int) : Text :=
  if n < 0 then '-' :: Nat.toDigits 10 n.natAbs else Nat.toDigits 10 n.natAbs

def formatBool (b : Bool) : Text := if b then "true".toList else "false".toList

/-- An integer of a column of `int64`. -/
def Int64 (n : Int) : Prop := -2 ^ 63 ≤ n ∧ n < 2 ^ 63

/-- The format that the library documents. It leaves the text of a double open, and the versions
differ in what they put in quotes. -/
structure CsvWriter.Documented (writer : CsvWriter) : Prop where
  name_quoted : ∀ name, ∃ on, writer.name name = quoted on name.toList
  text_quoted : ∀ text, ∃ on, writer.text text = quoted on text.toList
  int_digits : ∀ n, Int64 n → writer.int n = formatInt n
  bool_word : ∀ b, writer.bool b = formatBool b

def joined (fields : List Text) : Text := [','].intercalate fields

section Writing

variable (writer : CsvWriter)

def headerLine (names : List String) : Text := joined (names.map writer.name)

def eventLine (row : EventRow) : Text :=
  joined [writer.int row.timestamp, writer.int row.localTimestamp, writer.bool row.isSnapshot,
    writer.text row.side, writer.double row.price, writer.double row.quantity]

def sideText : Side → String
  | .bid => "bid"
  | .ask => "ask"

def referenceLine (row : ReferenceRow) : Text :=
  joined [writer.int row.timestamp, writer.text (sideText row.side), writer.int row.level,
    writer.double row.price, writer.double row.quantity]

/-- `events.csv`. -/
def eventsText (rows : List EventRow) : Text :=
  terminated '\n' (headerLine writer kEventColumns :: rows.map (eventLine writer))

/-- `reference.csv`. -/
def referenceText (rows : List ReferenceRow) : Text :=
  terminated '\n' (headerLine writer kReferenceColumns :: rows.map (referenceLine writer))

end Writing

/-! ## A cell -/

/-- Without a character that the reader cuts at or takes off. -/
def Plain (text : Text) : Prop := ∀ c ∈ text, c ∉ [',', '\n', '\r', quotes]

theorem Plain.append {text text' : Text} (h : Plain text) (h' : Plain text') :
    Plain (text ++ text') := by
  intro c hc
  rcases List.mem_append.mp hc with hc | hc
  · exact h c hc
  · exact h' c hc

theorem plain_digits (n : Nat) : Plain (Nat.toDigits 10 n) := by
  intro c hc hmem
  have hdigit := Nat.isDigit_of_mem_toDigits (by decide) (by decide) hc
  simp only [List.mem_cons, List.not_mem_nil, or_false] at hmem
  rcases hmem with rfl | rfl | rfl | rfl
  · cases hdigit
  · cases hdigit
  · cases hdigit
  · cases hdigit

theorem plain_formatInt (n : Int) : Plain (formatInt n) := by
  unfold formatInt
  split
  · have hminus : Plain ['-'] := by
      intro c hc
      rw [List.mem_singleton.mp hc]
      decide
    exact hminus.append (plain_digits _)
  · exact plain_digits _

/-- A word of the schema. -/
def isWord (text : Text) : Bool := !text.isEmpty && text.all fun c => c.isAlpha || c == '_'

theorem plain_word {text : Text} (h : isWord text = true) : Plain text ∧ text ≠ [] := by
  rw [isWord, Bool.and_eq_true, Bool.not_eq_true', List.isEmpty_eq_false_iff, List.all_eq_true] at h
  refine ⟨fun c hc hmem => ?_, h.1⟩
  have hletter := h.2 c hc
  simp only [List.mem_cons, List.not_mem_nil, or_false] at hmem
  rcases hmem with rfl | rfl | rfl | rfl
  · cases hletter
  · cases hletter
  · cases hletter
  · cases hletter

theorem word_formatBool (b : Bool) : isWord (formatBool b) = true := by
  cases b with
  | false => rfl
  | true => rfl

theorem unquote_plain {text : Text} (h : Plain text) : unquote text = text := by
  unfold unquote
  refine if_neg fun hquoted => ?_
  obtain ⟨c, rest, rfl⟩ : ∃ c rest, text = c :: rest := List.exists_cons_of_ne_nil fun hnil => by
    rw [hnil] at hquoted
    exact absurd hquoted.1 (by decide)
  have hhead := hquoted.2.1
  rw [List.head?_cons, Option.some.injEq] at hhead
  exact h c List.mem_cons_self (by rw [hhead]; decide)

/-- Plain texts come out of the quotes as they were. -/
theorem unquote_quoted {text : Text} (on : Bool) (h : Plain text) :
    unquote (quoted on text) = text := by
  unfold quoted
  split
  · have hdoubled : (text.flatMap fun c => if c = quotes then [quotes, quotes] else [c]) = text := by
      induction text with
      | nil => rfl
      | cons c text ih =>
        have hc : c ≠ quotes := fun hc => h c List.mem_cons_self (by rw [hc]; decide)
        rw [List.flatMap_cons, if_neg hc, ih fun c hc => h c (List.mem_cons_of_mem _ hc)]
        rfl
    rw [hdoubled]
    unfold unquote
    rw [if_pos]
    · simp
    · refine ⟨by simp, rfl, ?_⟩
      rw [List.getLast?_append_of_ne_nil _ (List.cons_ne_nil _ _)]
      rfl
  · exact unquote_plain h

/-- In quotes or not, a plain text has no comma and no line end. -/
theorem quoted_cut {text : Text} (on : Bool) (h : Plain text) :
    ∀ c ∈ quoted on text, c ∉ [',', '\n', '\r'] := by
  intro c hc hmem
  have hplain : ∀ c ∈ text, c ∉ [',', '\n', '\r'] := fun c hc hmem =>
    h c hc (List.mem_append_left [quotes] hmem)
  unfold quoted at hc
  split at hc
  · rw [List.cons_append, List.mem_cons, List.mem_append, List.mem_flatMap, List.mem_singleton] at hc
    have hquotes : quotes ∉ [',', '\n', '\r'] := by decide
    rcases hc with rfl | ⟨d, hd, hc⟩ | rfl
    · exact hquotes hmem
    · split at hc
      · simp only [List.mem_cons, List.not_mem_nil, or_false, or_self] at hc
        exact hquotes (hc ▸ hmem)
      · rw [List.mem_singleton.mp hc] at hmem
        exact hplain d hd hmem
    · exact hquotes hmem
  · exact hplain c hc hmem

/-! ## Numbers -/

theorem signed_of_head {text : Text} (h : text.head? ≠ some '-') : signed text = (false, text) := by
  cases text with
  | nil => rfl
  | cons c rest =>
    rw [List.head?_cons, Ne, Option.some.injEq] at h
    unfold signed
    split
    · rename_i heq
      exact absurd (List.cons.inj heq).1 h
    · rfl

theorem span_digits (n : Nat) :
    (Nat.toDigits 10 n).span Char.isDigit = (Nat.toDigits 10 n, []) := by
  have hall : ∀ c ∈ Nat.toDigits 10 n, c.isDigit = true := fun c hc =>
    Nat.isDigit_of_mem_toDigits (by decide) (by decide) hc
  rw [List.span_eq_takeWhile_dropWhile, List.takeWhile_eq_self_iff.mpr hall,
    List.dropWhile_eq_nil_iff.mpr hall]

theorem digitsValue_digits (n : Nat) : digitsValue (Nat.toDigits 10 n) = n :=
  Nat.ofDigitChars_ten_toDigits

theorem parseInt_formatInt {n : Int} (what : String) (h : Int64 n) :
    parseInt (formatInt n) what = .ok n := by
  have hempty : (Nat.toDigits 10 n.natAbs).isEmpty = false := by
    rw [List.isEmpty_eq_false_iff]
    exact Nat.toDigits_ne_nil
  have hsigned : signed (formatInt n) = (decide (n < 0), Nat.toDigits 10 n.natAbs) := by
    unfold formatInt
    by_cases hneg : n < 0
    · rw [if_pos hneg, decide_eq_true hneg]
      rfl
    · rw [if_neg hneg, decide_eq_false hneg]
      refine signed_of_head fun hhead => ?_
      have hmem := List.mem_of_mem_head? hhead
      cases Nat.isDigit_of_mem_toDigits (by decide) (by decide) hmem
  have hvalue : (if decide (n < 0) = true then -(n.natAbs : Int) else n.natAbs) = n := by
    by_cases hneg : n < 0
    · rw [if_pos (decide_eq_true hneg)]
      omega
    · rw [decide_eq_false hneg, if_neg Bool.false_ne_true]
      omega
  unfold parseInt fromCharsInt
  simp only [hsigned, span_digits, digitsValue_digits, hempty, hvalue, Bool.false_eq_true, if_false]
  have hrange : -2 ^ 63 ≤ n ∧ n < 2 ^ 63 := h
  rw [if_pos hrange]

/-- A number whose text has nothing to cut at and reads as the number. -/
structure ReadsBack (rnd : Rounding) (toChars : Double → Text) (x : Double) : Prop where
  plain : Plain (toChars x)
  parses : fromCharsDouble rnd (toChars x) = some (x, [])

theorem ReadsBack.parseDouble {rnd : Rounding} {toChars : Double → Text} {x : Double}
    (h : ReadsBack rnd toChars x) (what : String) :
    parseDouble rnd (toChars x) what = .ok x := by
  unfold Tools.parseDouble
  rw [h.parses]

theorem parseBool_formatBool (b : Bool) : parseBool (formatBool b) = .ok b := by
  cases b with
  | false => rfl
  | true => rfl

/-! ## A line -/

/-- Cells that the reader gives back, once it has taken their quotes off. -/
structure Cells (cells values : List Text) : Prop where
  cut : ∀ cell ∈ cells, ∀ c ∈ cell, c ∉ [',', '\n', '\r']
  unquoted : cells.map unquote = values
  some_value : ∀ cell ∈ cells, cell ≠ []

theorem joined_cut {cells : List Text} {d : Char} (hd : d ≠ ',') (h : ∀ cell ∈ cells, d ∉ cell) :
    d ∉ joined cells := by
  unfold joined
  intro hmem
  induction cells with
  | nil => simp at hmem
  | cons cell cells ih =>
    obtain ⟨hcell, hcells⟩ := List.forall_mem_cons.mp h
    cases cells with
    | nil =>
      rw [List.intercalate_singleton] at hmem
      exact hcell hmem
    | cons next cells =>
      rw [List.intercalate_cons_cons, List.mem_append, List.mem_append, List.mem_singleton] at hmem
      rcases hmem with (hmem | hmem) | hmem
      · exact hcell hmem
      · exact hd hmem
      · exact ih hcells hmem

theorem chomp_of_not_mem {line : Text} (h : '\r' ∉ line) : chomp line = line := by
  unfold chomp
  exact if_neg fun hlast => h (List.mem_of_getLast? hlast)

/-- A written line is one line, not blank, and is cut into its values. -/
theorem Cells.line {cells values : List Text} (h : Cells cells values) (hne : cells ≠ []) :
    '\n' ∉ joined cells ∧ (chomp (joined cells)).isEmpty = false ∧
      split (chomp (joined cells)) = values := by
  have hcut : ∀ d ∈ ['\n', '\r'], d ∉ joined cells := by
    intro d hd
    refine joined_cut (by rintro rfl; simp at hd) fun cell hcell hmem => h.cut cell hcell d hmem ?_
    exact List.mem_cons_of_mem _ hd
  rw [chomp_of_not_mem (hcut '\r' (by simp))]
  refine ⟨hcut '\n' (by simp), ?_, ?_⟩
  · rw [List.isEmpty_eq_false_iff]
    obtain ⟨cell, rest, rfl⟩ := List.exists_cons_of_ne_nil hne
    have hcell := h.some_value cell List.mem_cons_self
    unfold joined
    cases rest with
    | nil => rwa [List.intercalate_singleton]
    | cons next rest => simp [List.intercalate_cons_cons]
  · unfold split joined
    rw [List.splitOn_intercalate _ (fun cell hcell hcomma =>
      h.cut cell hcell ',' hcomma List.mem_cons_self) hne]
    exact h.unquoted

/-! ## The lines of a text -/

theorem terminated_intercalate (lines : List Text) :
    terminated '\n' lines = ['\n'].intercalate (lines ++ [[]]) := by
  induction lines with
  | nil => rfl
  | cons line lines ih =>
    obtain ⟨next, rest, hrest⟩ := List.exists_cons_of_ne_nil
      (List.append_ne_nil_of_right_ne_nil lines (List.cons_ne_nil ([] : Text) []))
    rw [terminated_cons, ih, List.cons_append, hrest, List.intercalate_cons_cons]
    simp

theorem getlines_terminated {lines : List Text} (h : ∀ line ∈ lines, '\n' ∉ line) :
    getlines (terminated '\n' lines) = lines := by
  have hsplit : (terminated '\n' lines).splitOn '\n' = lines ++ [[]] := by
    rw [terminated_intercalate, List.splitOn_intercalate]
    · intro line hline
      rcases List.mem_append.mp hline with hline | hline
      · exact h line hline
      · rw [List.mem_singleton.mp hline]
        exact List.not_mem_nil
    · simp
  unfold getlines
  rw [hsplit]
  simp

theorem checkColumns_names (what : String) (i : Nat) (names : List String) :
    CsvReader.checkColumns what i (names.map String.toList) names = .ok () := by
  induction names generalizing i with
  | nil => rfl
  | cons name names ih =>
    rw [List.map_cons, CsvReader.checkColumns, if_neg (not_not.mpr rfl)]
    exact ih (i + 1)

theorem quoted_ne_nil {text : Text} (on : Bool) (h : text ≠ []) : quoted on text ≠ [] := by
  unfold quoted
  split
  · simp
  · exact h

theorem cells_names {writer : CsvWriter} (hwriter : writer.Documented) {names : List String}
    (hplain : ∀ name ∈ names, Plain name.toList ∧ name.toList ≠ []) :
    Cells (names.map writer.name) (names.map String.toList) where
  cut := by
    rw [List.forall_mem_map]
    intro name hname
    obtain ⟨on, hon⟩ := hwriter.name_quoted name
    rw [hon]
    exact quoted_cut on (hplain name hname).1
  unquoted := by
    rw [List.map_map]
    refine List.map_congr_left fun name hname => ?_
    obtain ⟨on, hon⟩ := hwriter.name_quoted name
    rw [Function.comp_apply, hon]
    exact unquote_quoted on (hplain name hname).1
  some_value := by
    rw [List.forall_mem_map]
    intro name hname
    obtain ⟨on, hon⟩ := hwriter.name_quoted name
    rw [hon]
    exact quoted_ne_nil on (hplain name hname).2

/-- The header passes, and the lines behind it are those that were written. -/
theorem make_written {writer : CsvWriter} (hwriter : writer.Documented) {names : List String}
    {lines : List Text} (what : String)
    (hplain : ∀ name ∈ names, Plain name.toList ∧ name.toList ≠ []) (hnames : names ≠ [])
    (hlines : ∀ line ∈ lines, '\n' ∉ line) :
    CsvReader.make (terminated '\n' (headerLine writer names :: lines)) names what = .ok lines := by
  obtain ⟨hline, _, hsplit⟩ := (cells_names hwriter hplain).line (by simpa using hnames)
  unfold CsvReader.make headerLine
  rw [getlines_terminated (List.forall_mem_cons.mpr ⟨hline, hlines⟩)]
  dsimp only
  rw [hsplit, checkColumns_names, if_neg (by simp)]

section Rows

variable {α : Type} {read : List Field → Except Fault α}

/-- Lines that are all read are delivered row by row. -/
theorem rows_of_lines {csv : CsvReader} {rows : List α}
    (h : Lookahead.lineRows read csv = .ok rows) :
    ∃ s : Lookahead α, Lookahead.advance read { csv } = .ok s ∧ s.rows read = .ok rows := by
  cases hadvance : Lookahead.advance read { csv } with
  | ok s => exact ⟨s, rfl, (Lookahead.advance_rows hadvance).trans h⟩
  | error f =>
    exfalso
    rw [Lookahead.lineRows_next] at h
    unfold Lookahead.advance at hadvance
    dsimp only at hadvance
    split at hadvance
    · cases hadvance
    · rename_i hnext
      rw [hnext] at h
      dsimp only at h
      split at hadvance
      · rename_i hread
        rw [hread] at h
        cases h
      · cases hadvance

theorem lineRows_written {β : Type} {line : β → Text} {value : β → α} {written : List β}
    (h : ∀ row ∈ written, (chomp (line row)).isEmpty = false ∧
      read (split (chomp (line row))) = .ok (value row)) :
    Lookahead.lineRows read (written.map line) = .ok (written.map value) := by
  induction written with
  | nil => rfl
  | cons row written ih =>
    obtain ⟨⟨hblank, hread⟩, hrest⟩ := List.forall_mem_cons.mp h
    rw [List.map_cons, Lookahead.lineRows, if_neg (by rw [hblank]; exact Bool.false_ne_true), hread,
      ih hrest]
    rfl

end Rows

/-! ## The rows -/

theorem Cells.nil : Cells [] [] :=
  ⟨List.forall_mem_nil _, rfl, List.forall_mem_nil _⟩

theorem Cells.plain {cell : Text} {cells values : List Text} (hplain : Plain cell)
    (hne : cell ≠ []) (h : Cells cells values) : Cells (cell :: cells) (cell :: values) where
  cut := List.forall_mem_cons.mpr ⟨quoted_cut false hplain, h.cut⟩
  unquoted := by rw [List.map_cons, unquote_plain hplain, h.unquoted]
  some_value := List.forall_mem_cons.mpr ⟨hne, h.some_value⟩

theorem Cells.quoted {text : Text} {cells values : List Text} (on : Bool) (hplain : Plain text)
    (hne : text ≠ []) (h : Cells cells values) :
    Cells (quoted on text :: cells) (text :: values) where
  cut := List.forall_mem_cons.mpr ⟨quoted_cut on hplain, h.cut⟩
  unquoted := by rw [List.map_cons, unquote_quoted on hplain, h.unquoted]
  some_value := List.forall_mem_cons.mpr ⟨quoted_ne_nil on hne, h.some_value⟩

theorem formatInt_ne_nil (n : Int) : formatInt n ≠ [] := by
  unfold formatInt
  split
  · simp
  · exact Nat.toDigits_ne_nil

theorem ReadsBack.ne_nil {rnd : Rounding} {toChars : Double → Text} {x : Double}
    (h : ReadsBack rnd toChars x) : toChars x ≠ [] := by
  intro hnil
  have hparses := h.parses
  rw [hnil] at hparses
  cases hparses

variable {rnd : Rounding} {toChars : Double → Text} {writer : CsvWriter}

/-- A row of a stored book partition, which a text keeps. -/
structure EventRow.Storable (rnd : Rounding) (toChars : Double → Text) (row : EventRow) : Prop where
  timestamp : Int64 row.timestamp
  localTimestamp : Int64 row.localTimestamp
  sided : row.side = "bid" ∨ row.side = "ask"
  price : ReadsBack rnd toChars row.price
  quantity : ReadsBack rnd toChars row.quantity

structure ReferenceRow.Storable (rnd : Rounding) (toChars : Double → Text) (row : ReferenceRow) :
    Prop where
  timestamp : Int64 row.timestamp
  level : Int64 row.level
  price : ReadsBack rnd toChars row.price
  quantity : ReadsBack rnd toChars row.quantity

/-- The update that a row is. -/
def EventRow.read (row : EventRow) : BookUpdate where
  timestamp := row.timestamp
  localTimestamp := row.localTimestamp
  isSnapshot := row.isSnapshot
  side := if row.side = "bid" then .bid else .ask
  price := row.price
  quantity := row.quantity

theorem read_toEvent (row : BookRow) : (toEvent row).read = row.read := rfl

theorem word_side (side : Side) : isWord (sideText side).toList = true := by
  cases side with
  | bid => rfl
  | ask => rfl

theorem parseSide_sideText (side : Side) : parseSide (sideText side).toList = .ok side := by
  cases side with
  | bid => rfl
  | ask => rfl

theorem EventRow.Storable.side_text {row : EventRow} (h : row.Storable rnd toChars) :
    row.side = sideText row.read.side := by
  unfold EventRow.read
  rcases h.sided with hside | hside
  · simp [hside, sideText]
  · simp [hside, sideText]

theorem eventLine_read (hwriter : writer.Documented) {row : EventRow}
    (h : row.Storable rnd writer.double) :
    '\n' ∉ eventLine writer row ∧ (chomp (eventLine writer row)).isEmpty = false ∧
      readEvent rnd (split (chomp (eventLine writer row))) = .ok row.read := by
  obtain ⟨hplain, hne⟩ := plain_word (word_side row.read.side)
  obtain ⟨on, hside⟩ := hwriter.text_quoted row.side
  have hcells : Cells _ _ := .plain (plain_formatInt row.timestamp) (formatInt_ne_nil _)
    (.plain (plain_formatInt row.localTimestamp) (formatInt_ne_nil _)
      (.plain (plain_word (word_formatBool row.isSnapshot)).1
        (plain_word (word_formatBool row.isSnapshot)).2
        (.quoted on hplain hne (.plain h.price.plain h.price.ne_nil
          (.plain h.quantity.plain h.quantity.ne_nil .nil)))))
  obtain ⟨hend, hblank, hsplit⟩ := hcells.line (List.cons_ne_nil _ _)
  have hline : eventLine writer row = joined [formatInt row.timestamp, formatInt row.localTimestamp,
      formatBool row.isSnapshot, quoted on (sideText row.read.side).toList,
      writer.double row.price, writer.double row.quantity] := by
    unfold eventLine
    rw [hwriter.int_digits _ h.timestamp, hwriter.int_digits _ h.localTimestamp, hwriter.bool_word,
      hside, h.side_text]
  rw [hline]
  refine ⟨hend, hblank, ?_⟩
  rw [hsplit]
  unfold readEvent
  simp only [fieldAt, List.getElem?_cons_zero, List.getElem?_cons_succ, bind_ok, pure_ok,
    Except.ok.injEq, exists_eq_left', parseInt_formatInt _ h.timestamp,
    parseInt_formatInt _ h.localTimestamp, parseBool_formatBool, parseSide_sideText,
    h.price.parseDouble, h.quantity.parseDouble]
  rfl

theorem referenceLine_read (hwriter : writer.Documented) {row : ReferenceRow}
    (h : row.Storable rnd writer.double) :
    '\n' ∉ referenceLine writer row ∧ (chomp (referenceLine writer row)).isEmpty = false ∧
      readReference rnd (split (chomp (referenceLine writer row))) = .ok row := by
  obtain ⟨hplain, hne⟩ := plain_word (word_side row.side)
  obtain ⟨on, hside⟩ := hwriter.text_quoted (sideText row.side)
  have hcells : Cells _ _ := .plain (plain_formatInt row.timestamp) (formatInt_ne_nil _)
    (.quoted on hplain hne (.plain (plain_formatInt row.level) (formatInt_ne_nil _)
      (.plain h.price.plain h.price.ne_nil (.plain h.quantity.plain h.quantity.ne_nil .nil))))
  obtain ⟨hend, hblank, hsplit⟩ := hcells.line (List.cons_ne_nil _ _)
  have hline : referenceLine writer row = joined [formatInt row.timestamp,
      quoted on (sideText row.side).toList, formatInt row.level, writer.double row.price,
      writer.double row.quantity] := by
    unfold referenceLine
    rw [hwriter.int_digits _ h.timestamp, hwriter.int_digits _ h.level, hside]
  rw [hline]
  refine ⟨hend, hblank, ?_⟩
  rw [hsplit]
  unfold readReference
  simp only [fieldAt, List.getElem?_cons_zero, List.getElem?_cons_succ, bind_ok, pure_ok,
    Except.ok.injEq, exists_eq_left', parseInt_formatInt _ h.timestamp,
    parseInt_formatInt _ h.level, parseSide_sideText, h.price.parseDouble, h.quantity.parseDouble]

theorem word_columns : (kEventColumns.all fun name => isWord name.toList) = true ∧
    (kReferenceColumns.all fun name => isWord name.toList) = true :=
  ⟨rfl, rfl⟩

theorem plain_names {names : List String} (h : (names.all fun name => isWord name.toList) = true) :
    ∀ name ∈ names, Plain name.toList ∧ name.toList ≠ [] := by
  rw [List.all_eq_true] at h
  exact fun name hname => plain_word (h name hname)

theorem eventsText_read (hwriter : writer.Documented) {rows : List EventRow}
    (hrows : ∀ row ∈ rows, row.Storable rnd writer.double) :
    eventRows rnd (eventsText writer rows) = .ok (rows.map EventRow.read) := by
  have hmake := @make_written writer hwriter kEventColumns (rows.map (eventLine writer)) "events"
    (plain_names word_columns.1) (by decide)
    (List.forall_mem_map.mpr fun row hrow => (eventLine_read hwriter (hrows row hrow)).1)
  obtain ⟨s, hadvance, hs⟩ := rows_of_lines
    (lineRows_written fun row hrow => (eventLine_read hwriter (hrows row hrow)).2)
  unfold eventRows EventStream.make eventsText
  rw [hmake]
  unfold EventStream.advance
  dsimp only
  rw [hadvance]
  exact hs

theorem referenceText_read (hwriter : writer.Documented) {reference : List ReferenceRow}
    (hreference : ∀ row ∈ reference, row.Storable rnd writer.double) :
    referenceRows rnd (referenceText writer reference) = .ok reference := by
  have hmake := @make_written writer hwriter kReferenceColumns
    (reference.map (referenceLine writer)) "reference" (plain_names word_columns.2) (by decide)
    (List.forall_mem_map.mpr fun row hrow => (referenceLine_read hwriter (hreference row hrow)).1)
  have hread : ∀ row ∈ reference, (chomp (referenceLine writer row)).isEmpty = false ∧
      readReference rnd (split (chomp (referenceLine writer row))) = .ok (id row) :=
    fun row hrow => (referenceLine_read hwriter (hreference row hrow)).2
  obtain ⟨s, hadvance, hs⟩ := rows_of_lines (lineRows_written hread)
  rw [List.map_id] at hs
  unfold referenceRows ReferenceStream.make referenceText
  rw [hmake]
  unfold ReferenceStream.advance
  dsimp only
  rw [hadvance]
  exact hs

/-- The harness reads each file as the rows that the export has written. -/
theorem export_text_exact (hwriter : writer.Documented) {rows : List EventRow}
    {reference : List ReferenceRow} (hrows : ∀ row ∈ rows, row.Storable rnd writer.double)
    (hreference : ∀ row ∈ reference, row.Storable rnd writer.double) :
    eventRows rnd (eventsText writer rows) = .ok (rows.map EventRow.read) ∧
      referenceRows rnd (referenceText writer reference) = .ok reference :=
  ⟨eventsText_read hwriter hrows, referenceText_read hwriter hreference⟩

/-! ### A day of two rows -/

/-- Whole numbers in digits. -/
def wholeText : Double → Text
  | .finite q => Nat.toDigits 10 q.num.toNat
  | .infinity _ => "inf".toList
  | .nan => "nan".toList

/-- Names and texts in quotes. -/
def wholeWriter : CsvWriter where
  name name := quoted true name.toList
  text text := quoted true text.toList
  int := formatInt
  bool := formatBool
  double := wholeText

theorem wholeWriter_documented : wholeWriter.Documented where
  name_quoted _ := ⟨true, rfl⟩
  text_quoted _ := ⟨true, rfl⟩
  int_digits _ _ := rfl
  bool_word _ := rfl

theorem wholeText_readsBack {n : Nat}
    (h : fromCharsDouble exact (wholeText (.finite n)) = some (.finite n, [])) :
    ReadsBack exact wholeText (.finite n) :=
  ⟨plain_digits _, h⟩

theorem small_int64 {n : Int} (h : n.natAbs < 1000) : Int64 n := by
  unfold Int64
  omega

def twoEvents : List EventRow :=
  [⟨-3, 5, true, "bid", .finite 101, .finite 2⟩, ⟨17, 19, false, "ask", .finite 103, .finite 0⟩]

def oneLevel : List ReferenceRow := [⟨17, .bid, 0, .finite 101, .finite 2⟩]

theorem twoEvents_storable : ∀ row ∈ twoEvents, row.Storable exact wholeText := by
  have hread : ∀ n ∈ [101, 2, 103, 0], ReadsBack exact wholeText (.finite (n : Nat)) := by
    have hparses : ∀ n ∈ [101, 2, 103, 0],
        fromCharsDouble exact (wholeText (.finite (n : Nat))) = some (.finite (n : Nat), []) := by
      decide +kernel
    exact fun n hn => wholeText_readsBack (hparses n hn)
  refine List.forall_mem_cons.mpr ⟨?_, List.forall_mem_cons.mpr ⟨?_, List.forall_mem_nil _⟩⟩
  · exact ⟨small_int64 (by decide), small_int64 (by decide), .inl rfl, hread 101 (by simp),
      hread 2 (by simp)⟩
  · exact ⟨small_int64 (by decide), small_int64 (by decide), .inr rfl, hread 103 (by simp),
      hread 0 (by simp)⟩

theorem oneLevel_storable : ∀ row ∈ oneLevel, row.Storable exact wholeText := by
  have hread : ∀ n ∈ [101, 2], ReadsBack exact wholeText (.finite (n : Nat)) := by
    have hparses : ∀ n ∈ [101, 2],
        fromCharsDouble exact (wholeText (.finite (n : Nat))) = some (.finite (n : Nat), []) := by
      decide +kernel
    exact fun n hn => wholeText_readsBack (hparses n hn)
  refine List.forall_mem_cons.mpr ⟨?_, List.forall_mem_nil _⟩
  exact ⟨small_int64 (by decide), small_int64 (by decide), hread 101 (by simp), hread 2 (by simp)⟩

theorem export_text_exact_twoEvents :
    eventRows exact (eventsText wholeWriter twoEvents) =
        .ok [⟨-3, 5, true, .bid, .finite 101, .finite 2⟩,
          ⟨17, 19, false, .ask, .finite 103, .finite 0⟩] ∧
      referenceRows exact (referenceText wholeWriter oneLevel) = .ok oneLevel :=
  export_text_exact wholeWriter_documented twoEvents_storable oneLevel_storable

end Tools
end PerpCarry
