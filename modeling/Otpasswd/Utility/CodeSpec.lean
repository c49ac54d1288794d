import Otpasswd.Utility.Cards

/-!
# Otpasswd.Utility.CodeSpec — passcodes and cards by name

`ah_parse_code_spec` turns the argument of a print or skip action into the
number of a passcode or of a card.

Main result: `ahParseCodeSpec_parsed`, what can come of an argument;
`ahParseCodeSpec_card` and `ahParseCodeSpec_position` go the other way.
-/

namespace Otpasswd

open CText

/-! ## The parser -/

/-- `PRINT_CODE` and `PRINT_CARD`, the return values of success. -/
def printCode : ℤ := 1
def printCard : ℤ := 2

/-- The numbers that the parser asks the agent for. -/
structure SpecNums where
  currentCard : Num
  unsaltedCounter : Num
  latestCard : Num
  maxCard : Num
  maxCode : Num

def Getters.specNums (a : Getters) : Except ℕ SpecNums := do
  let currentCard ← a.getNum .currentCard
  let unsaltedCounter ← a.getNum .unsaltedCounter
  let latestCard ← a.getNum .latestCard
  let maxCard ← a.getNum .maxCard
  let maxCode ← a.getNum .maxCode
  return ⟨currentCard, unsaltedCounter, latestCard, maxCard, maxCode⟩

/-- `"[%40[^]s]"`: the scan set ends before the `s` as well. -/
def scanCardFormat : List Char → Option (List Char)
  | '[' :: s => (scanSet 40 (fun c => c ≠ ']' ∧ c ≠ 's') s).map Prod.fst
  | _ => none

/-- `"[%40[^]]s]"`, the end of the formats of a passcode; whether `"s]"`
follows is not reported. -/
def scanNumberFormat : List Char → Option (List Char)
  | '[' :: s => (scanSet 40 (fun c => c ≠ ']') s).map Prod.fst
  | _ => none

/-- `"%c%d[%40[^]]s]"`. -/
def scanColumnRow : List Char → Option (Char × ℤ × List Char)
  | [] => none
  | column :: s => do
    let (row, s) ← scanInt s
    let number ← scanNumberFormat s
    return (column, row, number)

/-- `"%d%c[%40[^]]s]"`. -/
def scanRowColumn (s : List Char) : Option (Char × ℤ × List Char) := do
  let (row, s) ← scanInt s
  match s with
  | [] => none
  | column :: s => do
    let number ← scanNumberFormat s
    return (column, row, number)

/-- An `int` handed over as a `char`. -/
def charOfInt (i : ℤ) : ℤ := (BitVec.ofInt 8 i).toInt

/-- A passcode by column, row and card. The error of `ah_get_passcode_number`
is returned as it is. -/
def parsePosition (a : Getters) (spec : List Char) (item : Num) : ℤ × Num :=
  let scanned :=
    if spec.head?.any Char.isAlpha then scanColumnRow spec
    else if spec.head?.any (isDigitOf 10) then scanRowColumn spec
    else none
  match scanned with
  | none => (-1, item)
  | some (column, row, number) =>
    let column := column.toUpper
    if column < 'A' ∨ 'J' < column then (-1, item)
    else
      match numImportDec number with
      | (0, card) =>
        if 0 < numCmp (numI 1) card then (-1, item)
        else
          match ahGetPasscodeNumber a card column (charOfInt row) with
          | .error ret => (ret, item)
          | .ok passcode => (printCode, passcode)
      | _ => (-1, item)

/-- `ah_parse_code_spec`, with the number that `item` points to: the return
value and what `item` points to then. -/
def ahParseCodeSpec (a : Getters) (spec : List Char) (item : Num) : ℤ × Num :=
  match a.specNums with
  | .error _ => (5, item)
  | .ok nums =>
    let hasPasscardMark := spec.any fun c => c = '[' || c = ']'
    let hasRowMark := (spec.filter Char.isAlpha).length = 1
    if sameWord spec "current".toList then (printCode, nums.unsaltedCounter)
    else if sameWord spec "[current]".toList then (printCard, nums.currentCard)
    else if sameWord spec "next".toList ∨ sameWord spec "[next]".toList then
      (printCard, if 0 < numCmp nums.currentCard nums.latestCard then nums.currentCard
        else numAddI nums.latestCard 1)
    else if ¬ hasRowMark ∧ spec.head?.any (isDigitOf 10) then
      if spec.all (isDigitOf 10) then
        match numImportDec spec with
        | (0, number) =>
          if 0 < numCmp (numI 1) number then (-1, number) else (printCode, numSubI number 1)
        | (_, number) => (-1, number)
      else (-1, item)
    else if spec.head? = some '[' ∧ spec.getLast? = some ']' then
      match scanCardFormat spec with
      | none => (-1, item)
      | some number =>
        match numImportDec number with
        | (0, card) => if 0 < numCmp (numI 1) card then (-1, card) else (printCard, card)
        | (_, card) => (-1, card)
    else if hasPasscardMark then parsePosition a spec item
    else (-1, item)

/-! ## What is read -/

/-- A card number that `num_import` accepts, counted from one. -/
def CardNumber (number : List Char) (card : Num) : Prop :=
  numImportDec number = (0, card) ∧ 1 ≤ card.toNat

/-- The letter of column `k`, of either case. -/
def ColumnLetter (letter : Char) (k : ℕ) : Prop := k < 26 ∧ letter.toUpper = columnChar k

/-- The parts of a position: what stands in front of the digits of the row, and
what is left behind the card number. -/
@[ext] structure Reading where
  column : ℕ
  neg : Bool
  pad : List Char
  row : List Char
  card : Num
  rest : List Char

/-- The string is read as a position. -/
inductive Reading.Of : List Char → Reading → Prop
  | columnRow {letter : Char} {number : List Char} {r : Reading}
      (hletter : ColumnLetter letter r.column) (hpad : Pad r.neg r.pad) (hrow : Digits r.row)
      (hnumber : CardNumber number r.card) (hrest : Stops (fun c => c ≠ ']') r.rest) :
      Of (letter :: (r.pad ++ (r.row ++ '[' :: (number ++ r.rest)))) r
  | rowColumn {letter : Char} {number : List Char} {r : Reading}
      (hletter : ColumnLetter letter r.column) (hneg : r.neg = false) (hpad : r.pad = [])
      (hrow : Digits r.row) (hnumber : CardNumber number r.card)
      (hrest : Stops (fun c => c ≠ ']') r.rest) (hletters : ∀ c ∈ r.rest, c.isAlpha = false) :
      Of (r.row ++ letter :: '[' :: (number ++ r.rest)) r

/-- The number that the digits of the row denote. -/
def Reading.rowNumber (r : Reading) : ℕ := digitsVal 10 r.row 0

/-- The row that reaches `ah_get_passcode_number`. -/
def Reading.rowArg (r : Reading) : ℤ := charOfInt (intOfDigits r.neg r.row)

/-- The string is read as a card; `rest` is what is left behind the number. -/
structure ReadsCard (spec : List Char) (card : Num) (rest : List Char) : Prop where
  number : ∃ number, spec = '[' :: (number ++ rest) ∧ CardNumber number card
  stops : Stops (fun c => c ≠ ']' ∧ c ≠ 's') rest
  last : rest.getLast? = some ']'

section

variable {a : Getters} {spec number rest : List Char} {item card : Num} {r : Reading} {c k : ℕ}
  {letter : Char} {row : ℤ}

theorem one_le_iff (card : Num) : ¬ 0 < numCmp (numI 1) card ↔ 1 ≤ card.toNat := by
  have hone : (numI 1).toNat = 1 := rfl
  rw [numCmp_pos_iff, hone, Nat.not_lt]

theorem digit_range {d : Char} (h : isDigitOf 10 d = true) : 48 ≤ d.toNat ∧ d.toNat ≤ 57 := by
  rw [isDigitOf, digitVal] at h
  by_cases h09 : '0' ≤ d ∧ d ≤ '9'
  · exact h09
  rw [if_neg h09] at h
  split_ifs at h with hAF haf
  · exact absurd (of_decide_eq_true h) (by omega)
  · exact absurd (of_decide_eq_true h) (by omega)

theorem isUpper_iff (c : Char) : c.isUpper = true ↔ 65 ≤ c.toNat ∧ c.toNat ≤ 90 := by
  change decide (c.val ≥ 'A'.val ∧ c.val ≤ 'Z'.val) = true ↔ _
  rw [decide_eq_true_iff]
  exact Iff.rfl

theorem isLower_iff (c : Char) : c.isLower = true ↔ 97 ≤ c.toNat ∧ c.toNat ≤ 122 := by
  change (decide (c.val ≥ 'a'.val) && decide (c.val ≤ 'z'.val)) = true ↔ _
  rw [Bool.and_eq_true, decide_eq_true_iff, decide_eq_true_iff]
  exact Iff.rfl

/-- A letter is an upper or a lower case one. -/
theorem isAlpha_iff (c : Char) : c.isAlpha = true ↔ c.isUpper = true ∨ c.isLower = true := by
  change (c.isUpper || c.isLower) = true ↔ _
  exact Bool.or_eq_true_iff

theorem not_isAlpha_of_digit {d : Char} (h : isDigitOf 10 d = true) : d.isAlpha = false := by
  obtain ⟨h48, h57⟩ := digit_range h
  by_contra halpha
  rw [Bool.not_eq_false, isAlpha_iff, isUpper_iff, isLower_iff] at halpha
  omega

theorem toNat_columnChar' {k : ℕ} (h : k < 26) : (columnChar k).toNat = 65 + k := by
  interval_cases k <;> rfl

theorem isUpper_columnChar (h : k < 26) : (columnChar k).isUpper = true := by
  rw [isUpper_iff, toNat_columnChar' h]
  omega

theorem ColumnLetter.isAlpha (h : ColumnLetter letter k) : letter.isAlpha = true := by
  rw [isAlpha_iff]
  by_cases hlower : letter.isLower = true
  · exact .inr hlower
  · have hsame : letter.toUpper = letter := by
      exact dif_neg fun h => hlower ((isLower_iff letter).mpr h)
    rw [← hsame, h.2]
    exact .inl (isUpper_columnChar h.1)

theorem ColumnLetter.not_digit (h : ColumnLetter letter k) : isDigitOf 10 letter = false := by
  by_contra hdigit
  rw [Bool.not_eq_false] at hdigit
  have := not_isAlpha_of_digit hdigit
  rw [h.isAlpha] at this
  cases this

/-- The letters from `A` to `J` in upper case are the first ten columns. -/
theorem column_of_range (h : ¬ (letter.toUpper < 'A' ∨ 'J' < letter.toUpper)) :
    ∃ k < 10, ColumnLetter letter k := by
  have hA : ¬ letter.toUpper.toNat < 65 := fun h' => h (.inl h')
  have hJ : ¬ 74 < letter.toUpper.toNat := fun h' => h (.inr h')
  refine ⟨letter.toUpper.toNat - 65, by omega, by omega, ?_⟩
  have hsum : 'A'.toNat + (letter.toUpper.toNat - 65) = letter.toUpper.toNat := by
    have : 'A'.toNat = 65 := rfl
    omega
  rw [columnChar, hsum, Char.ofNat_toNat]

theorem range_of_column (h : ColumnLetter letter k) :
    (letter.toUpper < 'A' ∨ 'J' < letter.toUpper) ↔ 10 ≤ k := by
  have hval := toNat_columnChar' h.1
  have hA : columnChar k < 'A' ↔ (columnChar k).toNat < 65 := Iff.rfl
  have hJ : 'J' < columnChar k ↔ 74 < (columnChar k).toNat := Iff.rfl
  rw [h.2, hA, hJ]
  omega

theorem CardNumber.plain (h : CardNumber number card) :
    (∀ d ∈ number, isDigitOf 10 d = true) ∧ number ≠ [] ∧ number.length < 40 := by
  obtain ⟨⟨hne, hall⟩, hlen⟩ := numImportDec_digits h.1
  exact ⟨hall, hne, by omega⟩

theorem digit_ne {d : Char} (h : isDigitOf 10 d = true) {x : Char} (hx : isDigitOf 10 x = false) :
    d ≠ x := by
  rintro rfl
  rw [hx] at h
  cases h

theorem scanNumberFormat_number (h : CardNumber number card)
    (hrest : Stops (fun c => c ≠ ']') rest) :
    scanNumberFormat ('[' :: (number ++ rest)) = some number := by
  obtain ⟨hall, hne, hlen⟩ := h.plain
  rw [scanNumberFormat, scanSet_run (fun d hd => decide_eq_true (digit_ne (hall d hd) (by decide)))
    hne (by omega) fun _ => hrest]
  rfl

theorem scanNumberFormat_eq_some {s : List Char} (hscan : scanNumberFormat s = some number)
    (h : CardNumber number card) :
    ∃ rest, s = '[' :: (number ++ rest) ∧ Stops (fun c => c ≠ ']') rest := by
  rw [scanNumberFormat.eq_def] at hscan
  split at hscan
  · obtain ⟨⟨run, rest⟩, hset, hrun⟩ := Option.map_eq_some_iff.mp hscan
    obtain rfl : run = number := hrun
    obtain ⟨rfl, -, -, -, hstop⟩ := scanSet_eq_some hset
    exact ⟨rest, rfl, hstop h.plain.2.2⟩
  · cases hscan

theorem scanCardFormat_number (h : CardNumber number card)
    (hrest : Stops (fun c => c ≠ ']' ∧ c ≠ 's') rest) :
    scanCardFormat ('[' :: (number ++ rest)) = some number := by
  obtain ⟨hall, hne, hlen⟩ := h.plain
  rw [scanCardFormat, scanSet_run (fun d hd => decide_eq_true ⟨digit_ne (hall d hd) (by decide),
    digit_ne (hall d hd) (by decide)⟩) hne (by omega) fun _ => hrest]
  rfl

theorem scanCardFormat_eq_some (hscan : scanCardFormat spec = some number)
    (h : CardNumber number card) :
    ∃ rest, spec = '[' :: (number ++ rest) ∧ Stops (fun c => c ≠ ']' ∧ c ≠ 's') rest := by
  rw [scanCardFormat.eq_def] at hscan
  split at hscan
  · obtain ⟨⟨run, rest⟩, hset, hrun⟩ := Option.map_eq_some_iff.mp hscan
    obtain rfl : run = number := hrun
    obtain ⟨rfl, -, -, -, hstop⟩ := scanSet_eq_some hset
    exact ⟨rest, rfl, hstop h.plain.2.2⟩
  · cases hscan

/-! ## Positions -/

/-- What becomes of a reading whose column the parser knows. -/
def Reading.result (a : Getters) (item : Num) (r : Reading) : ℤ × Num :=
  if 10 ≤ r.column then (-1, item)
  else
    match ahGetPasscodeNumber a r.card (columnChar r.column) r.rowArg with
    | .error ret => (ret, item)
    | .ok passcode => (printCode, passcode)

theorem parsePosition_scanned {number : List Char}
    (hscan : (if spec.head?.any Char.isAlpha then scanColumnRow spec
      else if spec.head?.any (isDigitOf 10) then scanRowColumn spec else none) =
        some (letter, intOfDigits r.neg r.row, number))
    (hletter : ColumnLetter letter r.column) (hnumber : CardNumber number r.card) :
    parsePosition a spec item = r.result a item := by
  have hone := (one_le_iff r.card).mpr hnumber.2
  rw [parsePosition]
  simp only [hscan, Reading.result, Reading.rowArg]
  by_cases hcol : 10 ≤ r.column
  · rw [if_pos ((range_of_column hletter).mpr hcol), if_pos hcol]
  · rw [if_neg (mt (range_of_column hletter).mp hcol), if_neg hcol, hnumber.1]
    simp only [if_neg hone, hletter.2]

theorem parsePosition_reading (h : Reading.Of spec r) :
    parsePosition a spec item = r.result a item := by
  have hbracket : isDigitOf 10 '[' = false := by decide
  cases h with
  | @columnRow letter number r hletter hpad hrow hnumber hrest =>
    refine @parsePosition_scanned a _ item r letter number ?_ hletter hnumber
    have halpha : (letter :: (r.pad ++ (r.row ++ '[' :: (number ++ r.rest)))).head?.any
        Char.isAlpha = true := hletter.isAlpha
    rw [if_pos halpha, scanColumnRow, scanInt_digits hpad hrow (stops_cons hbracket)]
    simp only [Option.bind_eq_bind, Option.bind_some, scanNumberFormat_number hnumber hrest]
    rfl
  | @rowColumn letter number r hletter hneg hpad hrow hnumber hrest hletters =>
    refine @parsePosition_scanned a _ item r letter number ?_ hletter hnumber
    have hplain : Pad r.neg r.pad := by
      rw [hneg, hpad]
      exact .plain [] (List.forall_mem_nil _)
    have hscan := scanInt_digits hplain hrow
      (stops_cons (s := '[' :: (number ++ r.rest)) hletter.not_digit)
    rw [hpad, List.nil_append] at hscan
    obtain ⟨d, ds, hds⟩ := List.exists_cons_of_ne_nil hrow.1
    have hdigit : isDigitOf 10 d = true := hrow.2 d (hds ▸ List.mem_cons_self ..)
    have hhead : (r.row ++ letter :: '[' :: (number ++ r.rest)).head? = some d := by
      rw [hds]
      rfl
    rw [hhead, Option.any_some, not_isAlpha_of_digit hdigit, Option.any_some, hdigit,
      if_neg Bool.false_ne_true, if_pos rfl, scanRowColumn, hscan]
    simp only [Option.bind_eq_bind, Option.bind_some, scanNumberFormat_number hnumber hrest]
    rfl

theorem scanColumnRow_eq_some (hscan : scanColumnRow spec = some (letter, row, number))
    (h : CardNumber number card) :
    ∃ neg pad ds rest, spec = letter :: (pad ++ (ds ++ '[' :: (number ++ rest))) ∧ Pad neg pad ∧
      Digits ds ∧ Stops (fun c => c ≠ ']') rest := by
  cases spec with
  | nil => cases hscan
  | cons letter' s =>
    rw [scanColumnRow] at hscan
    obtain ⟨⟨v, s'⟩, hint, hscan⟩ := Option.bind_eq_some_iff.mp hscan
    obtain ⟨number', hnumber, hscan⟩ := Option.bind_eq_some_iff.mp hscan
    cases hscan
    obtain ⟨neg, pad, ds, rfl, hpad, hds, -, -⟩ := scanInt_eq_some hint
    obtain ⟨rest, rfl, hrest⟩ := scanNumberFormat_eq_some hnumber h
    exact ⟨neg, pad, ds, rest, rfl, hpad, hds, hrest⟩

theorem scanRowColumn_eq_some (hscan : scanRowColumn spec = some (letter, row, number))
    (h : CardNumber number card) :
    ∃ neg pad ds rest, spec = pad ++ (ds ++ letter :: '[' :: (number ++ rest)) ∧ Pad neg pad ∧
      Digits ds ∧ Stops (fun c => c ≠ ']') rest := by
  rw [scanRowColumn] at hscan
  obtain ⟨⟨v, s⟩, hint, hread⟩ := Option.bind_eq_some_iff.mp hscan
  obtain ⟨neg, pad, ds, rfl, hpad, hds, -, -⟩ := scanInt_eq_some hint
  cases s with
  | nil =>
    simp only at hread
    cases hread
  | cons letter' s =>
    simp only at hread
    obtain ⟨number', hnumber, hparts⟩ := Option.bind_eq_some_iff.mp hread
    cases hparts
    obtain ⟨rest, rfl, hrest⟩ := scanNumberFormat_eq_some hnumber h
    exact ⟨neg, pad, ds, rest, rfl, hpad, hds, hrest⟩

/-- Nothing in front of the row is a digit. -/
theorem pad_not_digit {neg : Bool} {pad : List Char} (h : Pad neg pad) :
    ∀ d ∈ pad, isDigitOf 10 d = false := by
  have hblank : ∀ d, isSpace d = true → isDigitOf 10 d = false := by
    intro d hd
    by_contra hdigit
    rw [Bool.not_eq_false] at hdigit
    rw [(digit_plain hdigit).1] at hd
    cases hd
  intro d hd
  cases h with
  | plain _ h => exact hblank d (h d hd)
  | plus blanks h =>
    rcases List.mem_append.mp hd with hd | hd
    · exact hblank d (h d hd)
    · obtain rfl := List.mem_singleton.mp hd
      decide
  | minus blanks h =>
    rcases List.mem_append.mp hd with hd | hd
    · exact hblank d (h d hd)
    · obtain rfl := List.mem_singleton.mp hd
      decide

theorem pad_nil_of_digit {neg : Bool} {pad s : List Char} (h : Pad neg pad)
    (hs : (pad ++ s).head?.any (isDigitOf 10) = true) : pad = [] := by
  cases pad with
  | nil => rfl
  | cons d pad =>
    have hd : isDigitOf 10 d = true := hs
    rw [pad_not_digit h d (List.mem_cons_self ..)] at hd
    cases hd

/-- Only a reading gets past the error of the parser. -/
theorem parsePosition_read
    (hletters : spec.head?.any (isDigitOf 10) = true → (spec.filter Char.isAlpha).length = 1)
    (h : (parsePosition a spec item).1 ≠ -1) : ∃ r, Reading.Of spec r ∧ r.column < 10 := by
  rw [parsePosition] at h
  simp only at h
  split at h
  · exact absurd rfl h
  · rename_i letter row number hscan
    by_cases hrange : letter.toUpper < 'A' ∨ 'J' < letter.toUpper
    · rw [if_pos hrange] at h
      exact absurd rfl h
    rw [if_neg hrange] at h
    obtain ⟨k, hk, hletter⟩ := column_of_range hrange
    split at h
    · rename_i card himport
      by_cases hzero : 0 < numCmp (numI 1) card
      · rw [if_pos hzero] at h
        exact absurd rfl h
      have hnumber : CardNumber number card := ⟨himport, (one_le_iff card).mp hzero⟩
      by_cases halpha : spec.head?.any Char.isAlpha = true
      · -- the letter comes first
        rw [if_pos halpha] at hscan
        obtain ⟨neg, pad, ds, rest, rfl, hpad, hds, hrest⟩ := scanColumnRow_eq_some hscan hnumber
        exact ⟨⟨k, neg, pad, ds, card, rest⟩, @Reading.Of.columnRow letter number
          ⟨k, neg, pad, ds, card, rest⟩ hletter hpad hds hnumber hrest, hk⟩
      · rw [if_neg halpha] at hscan
        by_cases hdigit : spec.head?.any (isDigitOf 10) = true
        · rw [if_pos hdigit] at hscan
          obtain ⟨neg, pad, ds, rest, rfl, hpad, hds, hrest⟩ :=
            scanRowColumn_eq_some hscan hnumber
          obtain rfl := pad_nil_of_digit hpad hdigit
          rw [List.nil_append] at hdigit hletters ⊢
          refine ⟨⟨k, false, [], ds, card, rest⟩, @Reading.Of.rowColumn letter number
            ⟨k, false, [], ds, card, rest⟩ hletter rfl rfl hds hnumber hrest fun d hd => ?_, hk⟩
          -- the letter of the column is the only one
          have hone := hletters hdigit
          have hdigits : ds.filter Char.isAlpha = [] := List.filter_eq_nil_iff.mpr fun d hd => by
            rw [not_isAlpha_of_digit (hds.2 d hd)]
            exact Bool.false_ne_true
          have hbracket : ('[' : Char).isAlpha ≠ true := by decide
          rw [List.filter_append, hdigits, List.nil_append, List.filter_cons_of_pos hletter.isAlpha,
            List.filter_cons_of_neg hbracket, List.filter_append, List.length_cons,
            List.length_append] at hone
          have hrestNil : rest.filter Char.isAlpha = [] := List.length_eq_zero_iff.mp (by omega)
          exact Bool.eq_false_iff.mpr (List.filter_eq_nil_iff.mp hrestNil d hd)
        · rw [if_neg hdigit] at hscan
          cases hscan
    · exact absurd rfl h

/-! ## What comes of an argument -/

theorem getLast_number (h : CardNumber number card) :
    ('[' :: (number ++ rest)).getLast? = some ']' ↔ rest.getLast? = some ']' := by
  obtain ⟨hall, hne, -⟩ := h.plain
  rw [← List.cons_append, List.getLast?_append]
  cases hlast : rest.getLast? with
  | some d => rfl
  | none =>
    refine ⟨fun heq => ?_, fun heq => by cases heq⟩
    have hmem : ']' ∈ '[' :: number := List.mem_of_getLast? heq
    rcases List.mem_cons.mp hmem with heq | hmem
    · cases heq
    · exact absurd rfl (digit_ne (hall _ hmem) (by decide))

/-- What `ah_parse_code_spec` makes of an argument. -/
inductive Parsed (a : Getters) (nums : SpecNums) (spec : List Char) (item : Num) :
    ℤ × Num → Prop
  | current (h : sameWord spec "current".toList) :
      Parsed a nums spec item (printCode, nums.unsaltedCounter)
  | currentCard (h : sameWord spec "[current]".toList) :
      Parsed a nums spec item (printCard, nums.currentCard)
  | next (h : sameWord spec "next".toList ∨ sameWord spec "[next]".toList) :
      Parsed a nums spec item (printCard,
        if 0 < numCmp nums.currentCard nums.latestCard then nums.currentCard
        else numAddI nums.latestCard 1)
  | number {n : Num} (h : CardNumber spec n) : Parsed a nums spec item (printCode, numSubI n 1)
  | card {card : Num} {rest : List Char} (h : ReadsCard spec card rest) :
      Parsed a nums spec item (printCard, card)
  | position {r : Reading} (h : Reading.Of spec r) (hcol : r.column < 10) :
      Parsed a nums spec item (r.result a item)
  | illegal (n : Num) : Parsed a nums spec item (-1, n)

theorem ahParseCodeSpec_parsed {nums : SpecNums} (hnums : a.specNums = .ok nums) :
    Parsed a nums spec item (ahParseCodeSpec a spec item) := by
  rw [ahParseCodeSpec, hnums]
  simp only
  -- the words
  by_cases h1 : sameWord spec "current".toList
  · rw [if_pos h1]
    exact .current h1
  rw [if_neg h1]
  by_cases h2 : sameWord spec "[current]".toList
  · rw [if_pos h2]
    exact .currentCard h2
  rw [if_neg h2]
  by_cases h3 : sameWord spec "next".toList ∨ sameWord spec "[next]".toList
  · rw [if_pos h3]
    exact .next h3
  rw [if_neg h3]
  -- digits only: a passcode by its number
  by_cases h4 : ¬ (spec.filter Char.isAlpha).length = 1 ∧ spec.head?.any (isDigitOf 10) = true
  · rw [if_pos h4]
    by_cases hall : spec.all (isDigitOf 10) = true
    · rw [if_pos hall]
      split
      · rename_i n himport
        by_cases hzero : 0 < numCmp (numI 1) n
        · rw [if_pos hzero]
          exact .illegal n
        · rw [if_neg hzero]
          exact .number ⟨himport, (one_le_iff n).mp hzero⟩
      · exact .illegal _
    · rw [if_neg hall]
      exact .illegal item
  rw [if_neg h4]
  -- brackets: a card by its number
  by_cases h5 : spec.head? = some '[' ∧ spec.getLast? = some ']'
  · rw [if_pos h5]
    split
    · exact .illegal item
    · rename_i number hscan
      split
      · rename_i card himport
        by_cases hzero : 0 < numCmp (numI 1) card
        · rw [if_pos hzero]
          exact .illegal card
        · rw [if_neg hzero]
          have hnumber : CardNumber number card := ⟨himport, (one_le_iff card).mp hzero⟩
          obtain ⟨rest, hspec, hrest⟩ := scanCardFormat_eq_some hscan hnumber
          refine .card ⟨⟨number, hspec, hnumber⟩, hrest, ?_⟩
          rw [hspec] at h5
          exact (getLast_number hnumber).mp h5.2
      · exact .illegal _
  rw [if_neg h5]
  split_ifs
  · -- what is left is a position on a card
    by_cases hread : (parsePosition a spec item).1 = -1
    · rw [← Prod.mk.eta (p := parsePosition a spec item), hread]
      exact .illegal _
    · have hletters : spec.head?.any (isDigitOf 10) = true →
          (spec.filter Char.isAlpha).length = 1 := by
        intro hdigit
        by_contra hne
        exact h4 ⟨hne, hdigit⟩
      obtain ⟨r, hr, hcol⟩ := parsePosition_read hletters hread
      rw [parsePosition_reading hr]
      exact .position hr hcol
  · exact .illegal item

theorem toLower_digit {d : Char} (h : isDigitOf 10 d = true) : d.toLower = d := by
  obtain ⟨h48, h57⟩ := digit_range h
  refine dif_neg fun hupper => ?_
  have h65 : 65 ≤ d.toNat := hupper.1
  omega

theorem toLower_bracket {d : Char} (h : d.toLower = '[') : d = '[' := by
  unfold Char.toLower at h
  split at h
  · rename_i hupper
    have hval : d.val + ('a'.val - 'A'.val) = '['.val := congrArg Char.val h
    have h1 : 65 ≤ d.val.toNat := hupper.1
    have h2 : d.val.toNat ≤ 90 := hupper.2
    have hnat := congrArg UInt32.toNat hval
    have hdiff : ('a'.val - 'A'.val).toNat = 32 := rfl
    have hbracket : '['.val.toNat = 91 := rfl
    rw [UInt32.toNat_add, hdiff, hbracket] at hnat
    omega
  · exact h

/-- A string with a bracket is no word without brackets. -/
theorem not_sameWord_of_mem {word : List Char} (h : '[' ∈ spec ∨ ']' ∈ spec)
    (hword : '[' ∉ word.map Char.toLower ∧ ']' ∉ word.map Char.toLower) :
    ¬ sameWord spec word := by
  intro heq
  rw [← heq] at hword
  rcases h with h | h
  · exact hword.1 (List.mem_map_of_mem (f := Char.toLower) h)
  · exact hword.2 (List.mem_map_of_mem (f := Char.toLower) h)

theorem Reading.Of.mem (h : Reading.Of spec r) : '[' ∈ spec := by
  cases h <;> simp

theorem Reading.Of.head (h : Reading.Of spec r) :
    ∃ d s, spec = d :: s ∧ (d.isAlpha = true ∧ isDigitOf 10 d = false ∨
      isDigitOf 10 d = true ∧ (spec.filter Char.isAlpha).length = 1) := by
  cases h with
  | @columnRow letter number r hletter hpad hrow hnumber hrest =>
    exact ⟨letter, _, rfl, .inl ⟨hletter.isAlpha, hletter.not_digit⟩⟩
  | @rowColumn letter number r hletter hneg hpad hrow hnumber hrest hletters =>
    obtain ⟨d, ds, hds⟩ := List.exists_cons_of_ne_nil hrow.1
    refine ⟨d, ds ++ letter :: '[' :: (number ++ r.rest), by rw [hds]; rfl,
      .inr ⟨hrow.2 d (hds ▸ List.mem_cons_self ..), ?_⟩⟩
    have hdigits : ∀ ds : List Char, (∀ d ∈ ds, isDigitOf 10 d = true) →
        ds.filter Char.isAlpha = [] := by
      intro ds hall
      refine List.filter_eq_nil_iff.mpr fun d hd => ?_
      rw [not_isAlpha_of_digit (hall d hd)]
      exact Bool.false_ne_true
    have hrestNil : r.rest.filter Char.isAlpha = [] :=
      List.filter_eq_nil_iff.mpr fun d hd => by
        rw [hletters d hd]
        exact Bool.false_ne_true
    have hbracket : ('[' : Char).isAlpha ≠ true := by decide
    rw [List.filter_append, hdigits _ hrow.2, List.nil_append,
      List.filter_cons_of_pos hletter.isAlpha, List.filter_cons_of_neg hbracket,
      List.filter_append, hdigits _ hnumber.plain.1, hrestNil]
    rfl

theorem ahParseCodeSpec_card {nums : SpecNums} (hnums : a.specNums = .ok nums)
    (h : ReadsCard spec card rest) : ahParseCodeSpec a spec item = (printCard, card) := by
  obtain ⟨⟨number, rfl, hnumber⟩, hstop, hlast⟩ := h
  have hscan := scanCardFormat_number hnumber hstop
  have hends : ('[' :: (number ++ rest)).getLast? = some ']' :=
    (getLast_number hnumber).mpr hlast
  have hmem : '[' ∈ '[' :: (number ++ rest) := List.mem_cons_self ..
  have hword : ∀ x word, isDigitOf 10 x.toLower = false →
      ¬ sameWord ('[' :: (number ++ rest)) ('[' :: x :: word) := by
    intro x word hx heq
    obtain ⟨hall, hne, -⟩ := hnumber.plain
    obtain ⟨d, ds, rfl⟩ := List.exists_cons_of_ne_nil hne
    have hd := hall d (List.mem_cons_self ..)
    have hsame : d.toLower = x.toLower := (List.cons.inj (List.cons.inj heq).2).1
    rw [toLower_digit hd] at hsame
    rw [← hsame, hd] at hx
    cases hx
  have hone := (one_le_iff card).mpr hnumber.2
  have hhead : ('[' :: (number ++ rest)).head?.any (isDigitOf 10) = false := by
    rw [List.head?_cons, Option.any_some]
    decide
  have hcurrent : ¬ sameWord ('[' :: (number ++ rest)) "[current]".toList :=
    hword 'c' "urrent]".toList (by decide)
  have hnext : ¬ sameWord ('[' :: (number ++ rest)) "[next]".toList :=
    hword 'n' "ext]".toList (by decide)
  rw [ahParseCodeSpec, hnums]
  simp only
  rw [if_neg (not_sameWord_of_mem (.inl hmem) (by decide)), if_neg hcurrent,
    if_neg (not_or.mpr ⟨not_sameWord_of_mem (.inl hmem) (by decide), hnext⟩),
    if_neg (fun h => by rw [hhead] at h; exact Bool.false_ne_true h.2),
    if_pos ⟨rfl, hends⟩]
  simp only [hscan, hnumber.1, if_neg hone]

theorem ahParseCodeSpec_position {nums : SpecNums} (hnums : a.specNums = .ok nums)
    (h : Reading.Of spec r) : ahParseCodeSpec a spec item = r.result a item := by
  have hmem := h.mem
  obtain ⟨d, s, hspec, hd⟩ := h.head
  have hhead : spec.head? = some d := by rw [hspec]; rfl
  have hne : d ≠ '[' := by
    rintro rfl
    rcases hd with ⟨halpha, -⟩ | ⟨hdigit, -⟩
    · exact absurd halpha (by decide)
    · exact absurd hdigit (by decide)
  have hword : ∀ word, ¬ sameWord spec ('[' :: word) := by
    intro word heq
    rw [hspec] at heq
    exact hne (toLower_bracket (List.cons.inj heq).1)
  have hrow : ¬ (¬ (spec.filter Char.isAlpha).length = 1 ∧
      spec.head?.any (isDigitOf 10) = true) := by
    rintro ⟨hcount, hdigit⟩
    rcases hd with ⟨-, hnot⟩ | ⟨-, hone⟩
    · rw [hhead, Option.any_some, hnot] at hdigit
      cases hdigit
    · exact hcount hone
  have hmark : spec.any (fun c => c = '[' || c = ']') = true :=
    List.any_eq_true.mpr ⟨'[', hmem, rfl⟩
  have hcurrent : ¬ sameWord spec "[current]".toList := hword "current]".toList
  have hnext : ¬ sameWord spec "[next]".toList := hword "next]".toList
  rw [ahParseCodeSpec, hnums]
  simp only
  rw [if_neg (not_sameWord_of_mem (.inl hmem) (by decide)), if_neg hcurrent,
    if_neg (not_or.mpr ⟨not_sameWord_of_mem (.inl hmem) (by decide), hnext⟩), if_neg hrow,
    if_neg (fun hcard => hne (Option.some.inj (hhead ▸ hcard.1))), if_pos hmark,
    parsePosition_reading h]

theorem Reading.Of.card_pos (h : Reading.Of spec r) : 1 ≤ r.card.toNat := by
  cases h with
  | columnRow _ _ _ hnumber _ => exact hnumber.2
  | rowColumn _ _ _ _ hnumber _ _ => exact hnumber.2

/-- A reading is taken for a passcode even where there is none: the error of
`ah_get_passcode_number` has the same value. -/
theorem Reading.result_code (ha : a.Rows c) (hcol : r.column < 10) :
    (r.result a item).1 = printCode := by
  have herror : ahGetPasscodeNumber a r.card (columnChar r.column) r.rowArg = .error 1 ∨
      ∃ m, ahGetPasscodeNumber a r.card (columnChar r.column) r.rowArg = .ok m := by
    rw [ahGetPasscodeNumber, ha.codesOnCard, ha.codesInRow]
    simp only [bind, Except.bind]
    split_ifs
    · exact .inl rfl
    · exact .inl rfl
    · exact .inr ⟨_, rfl⟩
  rw [Reading.result, if_neg (Nat.not_le.mpr hcol)]
  rcases herror with h | ⟨m, h⟩
  · rw [h]
    rfl
  · rw [h]

end

theorem Getters.Of.specNums {a : Getters} {s : State} (ha : a.Of s) :
    a.specNums =
      .ok ⟨s.currentCard, s.justCounter, s.latestCard, s.maxCard, s.maxCode⟩ := by
  rw [Getters.specNums, ha.getNum _ s.currentCard rfl, ha.getNum _ s.justCounter rfl,
    ha.getNum _ s.latestCard rfl, ha.getNum _ s.maxCard rfl, ha.getNum _ s.maxCode rfl]
  rfl

end Otpasswd
