import Mathlib.Data.Rat.Encodable
import Mathlib.Tactic.NormNum
import PerpCarry.Book.WellFormed
import PerpCarry.Lib.Delimited

/-!
# Book.DumpCsv

The dump of a book: `dump_csv` of `cpp/src/book_debug.cpp`.

A text is a list of characters. `std::to_chars` is a parameter; `ShortestTexts` is what is assumed
of it.

* `formatPrice_injective`: the `.0` of integral texts makes no two numbers read alike.
* `dumpSide_injective`: the levels of a side are found again between commas and line ends.
* `dumpCsv_identifies`: a dump says which levels it shows, and nothing else.
-/

namespace PerpCarry
namespace Book

open Lib

abbrev Text := List Char

/-- Distinct finite doubles have distinct texts, without comma or line end and not ending in `.0`. -/
structure ShortestTexts (toChars : Double → Text) : Prop where
  distinct : ∀ a b : Double, a.isFinite = true → b.isFinite = true → toChars a = toChars b → a = b
  no_comma : ∀ a : Double, a.isFinite = true → ',' ∉ toChars a
  no_newline : ∀ a : Double, a.isFinite = true → '\n' ∉ toChars a
  no_suffix : ∀ a : Double, a.isFinite = true → ¬ ['.', '0'] <:+ toChars a

section Dump

variable (toChars : Double → Text)

def sideName : Side → Text
  | .bid => ['b', 'i', 'd']
  | .ask => ['a', 's', 'k']

/-- No character of `.eEnia`. -/
def looksIntegral (text : Text) : Bool := text.all fun c => c ∉ ['.', 'e', 'E', 'n', 'i', 'a']

def formatPrice (value : Double) : Text :=
  let text := toChars value
  if looksIntegral text then text ++ ['.', '0'] else text

/-- Levels actually rendered for one side. -/
def renderedCount (book : OrderBook) (side : Side) (depth : Nat) : Nat :=
  min depth (book.levelCount side)

/-- `std::to_string(rank)`. -/
def rankText (rank : Nat) : Text := Nat.toDigits 10 rank

/-- A row, without its line end. -/
def dumpRow (side : Side) (row : Level × Nat) : Text :=
  sideName side ++ ',' :: (rankText row.2 ++ ',' :: (formatPrice toChars row.1.price ++ ',' ::
    formatPrice toChars row.1.quantity))

def dumpRows (book : OrderBook) (depth : Nat) (side : Side) : List Text :=
  ((book.levels side).take (renderedCount book side depth)).zipIdx.map (dumpRow toChars side)

def header : Text := "side,level,price,quantity".toList

def dumpCsv (book : OrderBook) (depth : Nat) : Text :=
  terminated '\n' (header :: ([.bid, .ask].flatMap (dumpRows toChars book depth)))

end Dump

variable {toChars : Double → Text} {a b : Double}

theorem formatPrice_injective (h : ShortestTexts toChars) (ha : a.isFinite = true)
    (hb : b.isFinite = true) (heq : formatPrice toChars a = formatPrice toChars b) : a = b := by
  unfold formatPrice at heq
  dsimp only at heq
  split at heq
  · split at heq
    · exact h.distinct a b ha hb (List.append_cancel_right heq)
    · exact absurd ⟨_, heq⟩ (h.no_suffix b hb)
  · split at heq
    · exact absurd ⟨_, heq.symm⟩ (h.no_suffix a ha)
    · exact h.distinct a b ha hb heq

/-- A character that no text of a number has is not in its column. -/
theorem notMem_formatPrice {c : Char} (hc : c ∉ ['.', '0']) (h : c ∉ toChars a) :
    c ∉ formatPrice toChars a := by
  unfold formatPrice
  dsimp only
  split
  · rw [List.mem_append]
    exact not_or.mpr ⟨h, hc⟩
  · exact h

theorem notMem_rankText {c : Char} (hc : c.isDigit = false) (rank : Nat) : c ∉ rankText rank := by
  intro hmem
  have hdigit := Nat.isDigit_of_mem_toDigits (by decide) (by decide) hmem
  rw [hc] at hdigit
  cases hdigit

section Rows

variable {side : Side} {rank depth : Nat} {l l' : Level} {ls ls' : List Level}

theorem dumpRow_injective (h : ShortestTexts toChars) (hl : l.Valid) (hl' : l'.Valid)
    (heq : dumpRow toChars side (l, rank) = dumpRow toChars side (l', rank)) : l = l' := by
  have hfields := List.append_cancel_left (List.cons.inj (List.append_cancel_left heq)).2
  have hcomma : ∀ d : Double, d.isFinite = true → ',' ∉ formatPrice toChars d :=
    fun d hd => notMem_formatPrice (by decide) (h.no_comma d hd)
  obtain ⟨hprice, hquantity⟩ := delimited_inj (hcomma _ hl.price_finite)
    (hcomma _ hl'.price_finite) (List.cons.inj hfields).2
  have hsamePrice := formatPrice_injective h hl.price_finite hl'.price_finite hprice
  have hsameQuantity := formatPrice_injective h hl.quantity_finite hl'.quantity_finite hquantity
  cases l
  cases l'
  exact congrArg₂ Level.mk hsamePrice hsameQuantity

theorem newline_notMem_dumpRow (h : ShortestTexts toChars) (hl : l.Valid) :
    '\n' ∉ dumpRow toChars side (l, rank) := by
  have hname : '\n' ∉ sideName side := by cases side <;> decide
  have hrank : '\n' ∉ rankText rank := notMem_rankText (by decide) rank
  have hprice : '\n' ∉ formatPrice toChars l.price :=
    notMem_formatPrice (by decide) (h.no_newline _ hl.price_finite)
  have hquantity : '\n' ∉ formatPrice toChars l.quantity :=
    notMem_formatPrice (by decide) (h.no_newline _ hl.quantity_finite)
  simp [dumpRow, hname, hrank, hprice, hquantity]

theorem dumpSide_injective (h : ShortestTexts toChars) (hls : ∀ l ∈ ls, l.Valid)
    (hls' : ∀ l ∈ ls', l.Valid)
    (heq : (ls.zipIdx rank).map (dumpRow toChars side) =
      (ls'.zipIdx rank).map (dumpRow toChars side)) : ls = ls' := by
  induction ls generalizing ls' rank with
  | nil =>
    cases ls' with
    | nil => rfl
    | cons l' ls' => simp at heq
  | cons l ls ih =>
    cases ls' with
    | nil => simp at heq
    | cons l' ls' =>
      obtain ⟨hl, hrest⟩ := List.forall_mem_cons.mp hls
      obtain ⟨hl', hrest'⟩ := List.forall_mem_cons.mp hls'
      simp only [List.zipIdx_cons, List.map_cons, List.cons.injEq] at heq
      rw [dumpRow_injective h hl hl' heq.1, ih hrest hrest' heq.2]

theorem dumpRows_side {book : OrderBook} {row : Text}
    (hrow : row ∈ dumpRows toChars book depth side) :
    row.head? = (sideName side).head? := by
  obtain ⟨entry, _, rfl⟩ := List.mem_map.mp hrow
  cases side <;> rfl

end Rows

/-! ## A whole dump -/

section Whole

variable {book book' : OrderBook} {depth : Nat} {side : Side}

theorem take_renderedCount : (book.levels side).take (renderedCount book side depth) =
    (book.levels side).take depth := by
  unfold renderedCount OrderBook.levelCount
  rw [List.take_eq_take_min, List.take_eq_take_min (i := depth)]
  congr 1
  omega

theorem dumpRows_injective (h : ShortestTexts toChars) (hbook : book.WellFormed)
    (hbook' : book'.WellFormed)
    (heq : dumpRows toChars book depth side = dumpRows toChars book' depth side) :
    (book.levels side).take depth = (book'.levels side).take depth := by
  unfold dumpRows at heq
  rw [take_renderedCount, take_renderedCount] at heq
  refine dumpSide_injective h ?_ ?_ heq
  · exact fun l hl => hbook.valid side l (List.mem_of_mem_take hl)
  · exact fun l hl => hbook'.valid side l (List.mem_of_mem_take hl)

theorem newline_notMem_rows (h : ShortestTexts toChars) (hbook : book.WellFormed) :
    ∀ row ∈ header :: [.bid, .ask].flatMap (dumpRows toChars book depth), '\n' ∉ row := by
  intro row hrow
  rcases List.mem_cons.mp hrow with rfl | hrow
  · decide
  · obtain ⟨side, _, hrow⟩ := List.mem_flatMap.mp hrow
    obtain ⟨⟨l, rank⟩, hentry, rfl⟩ := List.mem_map.mp hrow
    have hl := List.mem_of_mem_take (List.mem_zipIdx_iff_getElem?.mp hentry |> List.mem_of_getElem?)
    exact newline_notMem_dumpRow h (hbook.valid side l hl)

theorem filter_rows : ([.bid, .ask].flatMap (dumpRows toChars book depth)).filter
    (fun row => row.head? = some 'b') = dumpRows toChars book depth .bid := by
  have hbids : ∀ row ∈ dumpRows toChars book depth .bid, row.head? = some 'b' :=
    fun row hrow => dumpRows_side hrow
  have hasks : ∀ row ∈ dumpRows toChars book depth .ask, row.head? ≠ some 'b' := by
    intro row hrow
    rw [dumpRows_side hrow]
    decide
  simp only [List.flatMap_cons, List.flatMap_nil, List.append_nil, List.filter_append]
  rw [List.filter_eq_self.mpr (by simpa using hbids),
    List.filter_eq_nil_iff.mpr (by simpa using hasks), List.append_nil]

/-- A dump determines the rows of each side. -/
theorem dumpCsv_rows (h : ShortestTexts toChars) (hbook : book.WellFormed)
    (hbook' : book'.WellFormed)
    (heq : dumpCsv toChars book depth = dumpCsv toChars book' depth) :
    dumpRows toChars book depth side = dumpRows toChars book' depth side := by
  have hlines := terminated_injective (newline_notMem_rows h hbook)
    (newline_notMem_rows h hbook') heq
  have hrows := (List.cons.inj hlines).2
  have hbids : dumpRows toChars book depth .bid = dumpRows toChars book' depth .bid := by
    rw [← filter_rows, hrows, filter_rows]
  cases side with
  | bid => exact hbids
  | ask =>
    simp only [List.flatMap_cons, List.flatMap_nil, List.append_nil, hbids] at hrows
    exact List.append_cancel_left hrows

theorem dumpCsv_eq_iff (h : ShortestTexts toChars) (hbook : book.WellFormed)
    (hbook' : book'.WellFormed) (depth : Nat) :
    dumpCsv toChars book depth = dumpCsv toChars book' depth ↔
      ∀ side, (book.levels side).take depth = (book'.levels side).take depth := by
  constructor
  · intro heq side
    exact dumpRows_injective h hbook hbook' (dumpCsv_rows h hbook hbook' heq)
  · intro heq
    have hrows : dumpRows toChars book depth = dumpRows toChars book' depth := by
      funext side
      unfold dumpRows
      rw [take_renderedCount, take_renderedCount, heq side]
    unfold dumpCsv
    rw [hrows]

/-- Two dumps are one text, and have one digest, exactly when the books show the same levels. -/
theorem dumpCsv_identifies (h : ShortestTexts toChars) (hbook : book.WellFormed)
    (hbook' : book'.WellFormed) (depth : Nat) {Digest : Type} (digest : Text → Digest)
    (hdigest : digest (dumpCsv toChars book depth) = digest (dumpCsv toChars book' depth) →
      dumpCsv toChars book depth = dumpCsv toChars book' depth) :
    (dumpCsv toChars book depth = dumpCsv toChars book' depth ↔
      ∀ side, (book.levels side).take depth = (book'.levels side).take depth) ∧
    (digest (dumpCsv toChars book depth) = digest (dumpCsv toChars book' depth) →
      ∀ side, (book.levels side).take depth = (book'.levels side).take depth) ∧
    ∀ a b : Double, a.isFinite = true → b.isFinite = true →
      formatPrice toChars a = formatPrice toChars b → a = b := by
  have hiff := dumpCsv_eq_iff h hbook hbook' depth
  refine ⟨hiff, ?_, ?_⟩
  · intro hsame
    exact hiff.mp (hdigest hsame)
  · intro a b ha hb heq
    exact formatPrice_injective h ha hb heq

end Whole

/-! ## Two small books -/

/-- The shortest texts of three doubles, and some text for the others. -/
def sampleText : Double → Text
  | .finite q =>
    if q = 100 then ['1', '0', '0']
    else if q = 199 / 2 then ['9', '9', '.', '5']
    else if q = 4 then ['4']
    else List.replicate (Encodable.encode q + 1) 'q'
  | _ => []

/-- The double that such a text is of. -/
def readSample (text : Text) : ℚ :=
  if text = ['1', '0', '0'] then 100
  else if text = ['9', '9', '.', '5'] then 199 / 2
  else if text = ['4'] then 4
  else (Encodable.decode (text.length - 1)).getD 0

theorem readSample_sampleText (q : ℚ) : readSample (sampleText (.finite q)) = q := by
  by_cases h100 : q = 100
  · simp [sampleText, readSample, h100]
  · by_cases h99 : q = 199 / 2
    · have htext : sampleText (.finite (199 / 2)) = ['9', '9', '.', '5'] := by
        norm_num [sampleText]
      rw [h99, htext]
      rfl
    · by_cases h4 : q = 4
      · have htext : sampleText (.finite 4) = ['4'] := by
          norm_num [sampleText]
        rw [h4, htext]
        rfl
      · simp [sampleText, readSample, h100, h99, h4, List.replicate_succ]

theorem notMem_sampleText {c : Char} (hc : c ∉ ['1', '0', '9', '.', '5', '4', 'q']) (q : ℚ) :
    c ∉ sampleText (.finite q) := by
  simp only [List.mem_cons, List.not_mem_nil, or_false, not_or] at hc
  unfold sampleText
  dsimp only
  split
  · simp [hc]
  · split
    · simp [hc]
    · split
      · simp [hc]
      · simp [List.mem_replicate, hc]

theorem sampleText_last (q : ℚ) : ¬ ['.', '0'] <:+ sampleText (.finite q) := by
  unfold sampleText
  dsimp only
  split
  · decide
  · split
    · decide
    · split
      · decide
      · intro hsuffix
        have hmem := List.eq_of_mem_replicate (hsuffix.subset (by simp : '.' ∈ ['.', '0']))
        exact absurd hmem (by decide)

theorem shortest_sampleText : ShortestTexts sampleText := by
  have hfinite : ∀ d : Double, d.isFinite = true → ∃ q, d = .finite q :=
    fun d hd => Double.isFinite_iff.mp hd
  refine ⟨?_, ?_, ?_, ?_⟩
  · intro a b ha hb heq
    obtain ⟨q, rfl⟩ := hfinite a ha
    obtain ⟨r, rfl⟩ := hfinite b hb
    have hread := congrArg readSample heq
    rw [readSample_sampleText, readSample_sampleText] at hread
    rw [hread]
  · intro a ha hmem
    obtain ⟨q, rfl⟩ := hfinite a ha
    exact notMem_sampleText (by simp) q hmem
  · intro a ha hmem
    obtain ⟨q, rfl⟩ := hfinite a ha
    exact notMem_sampleText (by simp) q hmem
  · intro a ha
    obtain ⟨q, rfl⟩ := hfinite a ha
    exact sampleText_last q

def twoBids : OrderBook where
  bids := [⟨.finite 100, .finite 4⟩, ⟨.finite (199 / 2), .finite 4⟩]

def oneBid : OrderBook where
  bids := [⟨.finite 100, .finite 4⟩]

theorem wellFormed_bids {bids : List Level} (hvalid : ∀ l ∈ bids, l.Valid)
    (hsorted : SortedBy (Better .bid) OrderBook.priceKey bids) :
    ({ bids := bids } : OrderBook).WellFormed where
  valid := by
    intro side l hl
    cases side with
    | bid => exact hvalid l hl
    | ask => cases hl
  sorted := by
    intro side
    cases side with
    | bid => exact hsorted
    | ask => exact SortedBy.nil

/-- To depth one the two books are one text, to depth two they are not. -/
theorem dumpCsv_identifies_bids :
    dumpCsv sampleText twoBids 1 = dumpCsv sampleText oneBid 1 ∧
      dumpCsv sampleText twoBids 2 ≠ dumpCsv sampleText oneBid 2 := by
  have hvalid : ∀ p : ℚ, 0 < p → Level.Valid ⟨.finite p, .finite 4⟩ := by
    intro p hp
    exact ⟨rfl, hp, rfl, by norm_num⟩
  have htwo : twoBids.WellFormed := by
    refine wellFormed_bids ?_ ?_
    · intro l hl
      simp only [List.mem_cons, List.not_mem_nil, or_false] at hl
      rcases hl with rfl | rfl
      · exact hvalid _ (by norm_num)
      · exact hvalid _ (by norm_num)
    · refine List.pairwise_pair.mpr ?_
      show (199 / 2 : ℚ) < 100
      norm_num
  have hone : oneBid.WellFormed := by
    refine wellFormed_bids ?_ ?_
    · intro l hl
      rw [List.mem_singleton.mp hl]
      exact hvalid _ (by norm_num)
    · exact List.pairwise_singleton _ _
  constructor
  · refine (dumpCsv_identifies shortest_sampleText htwo hone 1 id id).1.mpr ?_
    intro side
    cases side <;> rfl
  · intro heq
    have hsame := (dumpCsv_identifies shortest_sampleText htwo hone 2 id id).1.mp heq .bid
    exact absurd hsame (by decide)

example : String.ofList (dumpCsv sampleText twoBids 25) =
    "side,level,price,quantity\nbid,0,100.0,4.0\nbid,1,99.5,4.0\n" := by
  decide +kernel

end Book
end PerpCarry
