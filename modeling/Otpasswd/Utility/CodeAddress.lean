import Otpasswd.Utility.CodeSpec

/-!
# Otpasswd.Utility.CodeAddress — addresses that are parsed exactly

The parser takes more strings for addresses of passcodes than there are, and
not all that there are.

Main result: `parsed_exactly_iff`.
-/

namespace Otpasswd

open CText

section

variable {a : Getters} {spec number rest : List Char} {item card : Num} {r : Reading} {c k : ℕ}
  {letter : Char}

/-! ## Exact positions -/

/-- `C RR [N]` or `RR C [N]` without blanks, on cards of `c` columns. -/
inductive IsPosition (c : ℕ) : List Char → Num → ℕ → ℕ → Prop
  | columnRow {letter : Char} {ds number : List Char} {card : Num} {k : ℕ}
      (hletter : ColumnLetter letter k) (hk : k < c) (hds : Digits ds)
      (hrow : 1 ≤ digitsVal 10 ds 0 ∧ digitsVal 10 ds 0 ≤ 10) (hnumber : CardNumber number card) :
      IsPosition c (letter :: (ds ++ '[' :: (number ++ [']']))) card (digitsVal 10 ds 0) k
  | rowColumn {letter : Char} {ds number : List Char} {card : Num} {k : ℕ}
      (hletter : ColumnLetter letter k) (hk : k < c) (hds : Digits ds)
      (hrow : 1 ≤ digitsVal 10 ds 0 ∧ digitsVal 10 ds 0 ≤ 10) (hnumber : CardNumber number card) :
      IsPosition c (ds ++ letter :: '[' :: (number ++ [']'])) card (digitsVal 10 ds 0) k

/-- `[N]`. -/
def IsCard (spec : List Char) (card : Num) : Prop :=
  ∃ number, spec = '[' :: (number ++ [']']) ∧ CardNumber number card

/-- Nothing but the position was read. -/
structure Reading.Exact (c : ℕ) (r : Reading) : Prop where
  pad : r.pad = []
  row : 1 ≤ r.rowNumber ∧ r.rowNumber ≤ 10
  column : r.column < c
  rest : r.rest = [']']

theorem IsPosition.reading {row : ℕ} (h : IsPosition c spec card row k) :
    ∃ r, Reading.Of spec r ∧ r.Exact c ∧ r.card = card ∧ r.rowNumber = row ∧ r.column = k := by
  have hstop : Stops (fun c => c ≠ ']') [']'] := stops_cons (by decide)
  cases h with
  | @columnRow letter ds number card k hletter hk hds hrow hnumber =>
    exact ⟨⟨k, false, [], ds, card, [']']⟩,
      @Reading.Of.columnRow letter number ⟨k, false, [], ds, card, [']']⟩ hletter
        (.plain [] (List.forall_mem_nil _)) hds hnumber hstop,
      ⟨rfl, hrow, hk, rfl⟩, rfl, rfl, rfl⟩
  | @rowColumn letter ds number card k hletter hk hds hrow hnumber =>
    exact ⟨⟨k, false, [], ds, card, [']']⟩,
      @Reading.Of.rowColumn letter number ⟨k, false, [], ds, card, [']']⟩ hletter rfl rfl hds
        hnumber hstop (List.forall_mem_singleton.mpr rfl),
      ⟨rfl, hrow, hk, rfl⟩, rfl, rfl, rfl⟩

theorem Reading.Of.isPosition (h : Reading.Of spec r) (hexact : r.Exact c) :
    IsPosition c spec r.card r.rowNumber r.column := by
  obtain ⟨hpad, hrow, hcol, hrest⟩ := hexact
  cases h with
  | @columnRow letter number r hletter _ hds hnumber _ =>
    rw [hpad, hrest]
    exact .columnRow hletter hcol hds hrow hnumber
  | @rowColumn letter number r hletter _ _ hds hnumber _ _ =>
    rw [hrest]
    exact .rowColumn hletter hcol hds hrow hnumber

theorem ColumnLetter.unique {k' : ℕ} (h : ColumnLetter letter k) (h' : ColumnLetter letter k') :
    k = k' := by
  have hval := toNat_columnChar' h.1
  rw [← h.2, h'.2, toNat_columnChar' h'.1] at hval
  omega

theorem CardNumber.unique {card' : Num} (h : CardNumber number card)
    (h' : CardNumber number card') : card = card' :=
  (Prod.mk.inj (h.1.symm.trans h'.1)).2

theorem pad_neg_iff {neg : Bool} {pad : List Char} (h : Pad neg pad) : neg = true ↔ '-' ∈ pad := by
  have hblank : ∀ blanks : List Char, (∀ d ∈ blanks, isSpace d = true) → '-' ∉ blanks :=
    fun blanks hall hmem => absurd (hall _ hmem) (by decide)
  cases h with
  | plain blanks h => simp [hblank pad h]
  | plus blanks h => simp [hblank blanks h]
  | minus blanks h => simp

/-- The reading of a string is determined by it. -/
theorem Reading.Of.unique {r' : Reading} (h : Reading.Of spec r) (h' : Reading.Of spec r') :
    r = r' := by
  have hbracket : ∀ s, Stops (isDigitOf 10) ('[' :: s) := fun s => stops_cons (by decide)
  have hnumber : ∀ {number number' rest rest' : List Char} {card card' : Num},
      CardNumber number card → CardNumber number' card' → Stops (fun c => c ≠ ']') rest →
      Stops (fun c => c ≠ ']') rest' → '[' :: (number ++ rest) = '[' :: (number' ++ rest') →
      card = card' ∧ rest = rest' := by
    intro number number' rest rest' card card' hn hn' hr hr' heq
    have hne : ∀ {number : List Char} {card : Num}, CardNumber number card →
        ∀ d ∈ number, decide (d ≠ ']') = true :=
      fun hn d hd => decide_eq_true (digit_ne (hn.plain.1 d hd) (by decide))
    obtain ⟨rfl, rfl⟩ := run_unique (hne hn) hr (hne hn') hr' (List.cons.inj heq).2
    exact ⟨hn.unique hn', rfl⟩
  generalize hspec : spec = spec' at h'
  cases h with
  | @columnRow letter number r hletter hpad hds hnum hrest =>
    cases h' with
    | @columnRow letter' number' r' hletter' hpad' hds' hnum' hrest' =>
      obtain ⟨rfl, htail⟩ := List.cons.inj hspec
      -- nothing in front of the row is a digit, and the row starts with one
      have hstop : ∀ {ds : List Char} (s : List Char), Digits ds →
          Stops (fun d => !isDigitOf 10 d) (ds ++ s) := by
        intro ds s hds
        obtain ⟨d, ds, rfl⟩ := List.exists_cons_of_ne_nil hds.1
        exact stops_cons (by rw [hds.2 d (List.mem_cons_self ..)]; rfl)
      obtain ⟨hpads, htail⟩ := run_unique
        (fun d hd => by rw [pad_not_digit hpad d hd]; rfl) (hstop _ hds)
        (fun d hd => by rw [pad_not_digit hpad' d hd]; rfl) (hstop _ hds') htail
      obtain ⟨hrows, htail⟩ := run_unique hds.2 (hbracket _) hds'.2 (hbracket _) htail
      obtain ⟨hcards, hrests⟩ := hnumber hnum hnum' hrest hrest' htail
      have hnegs : r.neg = r'.neg := Bool.eq_iff_iff.mpr (by
        rw [pad_neg_iff hpad, pad_neg_iff hpad', hpads])
      exact Reading.ext (hletter.unique hletter') hnegs hpads hrows hcards hrests
    | @rowColumn letter' number' r' hletter' hneg' hpad' hds' hnum' hrest' _ =>
      obtain ⟨d, ds, hd⟩ := List.exists_cons_of_ne_nil hds'.1
      rw [hd] at hspec
      have hdigit := hds'.2 d (hd ▸ List.mem_cons_self ..)
      rw [← (List.cons.inj hspec).1, hletter.not_digit] at hdigit
      cases hdigit
  | @rowColumn letter number r hletter hneg hpad hds hnum hrest _ =>
    cases h' with
    | @columnRow letter' number' r' hletter' hpad' hds' hnum' hrest' =>
      obtain ⟨d, ds, hd⟩ := List.exists_cons_of_ne_nil hds.1
      rw [hd] at hspec
      have hdigit := hds.2 d (hd ▸ List.mem_cons_self ..)
      rw [(List.cons.inj hspec).1, hletter'.not_digit] at hdigit
      cases hdigit
    | @rowColumn letter' number' r' hletter' hneg' hpad' hds' hnum' hrest' _ =>
      obtain ⟨hrows, htail⟩ := run_unique hds.2 (stops_cons hletter.not_digit) hds'.2
        (stops_cons hletter'.not_digit) hspec
      obtain ⟨rfl, hafter⟩ := List.cons.inj htail
      obtain ⟨hcards, hrests⟩ := hnumber hnum hnum' hrest hrest' hafter
      exact Reading.ext (hletter.unique hletter') (hneg.trans hneg'.symm)
        (hpad.trans hpad'.symm) hrows hcards hrests

/-! ## Addresses that are parsed exactly -/

/-- A passcode or a card is returned for exactly the strings that name it. -/
structure ParsedExactly (c : ℕ) (spec : List Char) (result : ℤ × Num) : Prop where
  code : result.1 = printCode ↔ ∃ card row k, IsPosition c spec card row k
  number : ∀ card row k, IsPosition c spec card row k →
    result.2.toNat = numberAt c (card.toNat - 1) (row - 1) k
  card : result.1 = printCard ↔ ∃ card, IsCard spec card
  cardNumber : ∀ card, IsCard spec card → result.2 = card

/-- The strings that are taken for something else than they say. -/
inductive Slip (c : ℕ) (spec : List Char) : Prop
  /-- Blanks or a sign in front of the row. -/
  | padded (r : Reading) (h : Reading.Of spec r) (hcol : r.column < 10) (hpad : r.pad ≠ [])
  /-- The digits of the row denote none. -/
  | row (r : Reading) (h : Reading.Of spec r) (hcol : r.column < 10)
      (hrow : ¬ (1 ≤ r.rowNumber ∧ r.rowNumber ≤ 10))
  /-- A letter up to `J` that no column has. -/
  | column (r : Reading) (h : Reading.Of spec r) (hcol : r.column < 10) (hc : c ≤ r.column)
  /-- The bracket behind the number is missing, or something follows it. -/
  | tail (r : Reading) (h : Reading.Of spec r) (hcol : r.column < 10) (hrest : r.rest ≠ [']'])
  /-- A column behind `J`. -/
  | lastColumn (r : Reading) (h : Reading.Of spec r) (hexact : r.Exact c) (hcol : 10 ≤ r.column)
  /-- A position whose number has more than 128 bits. -/
  | wraps (r : Reading) (h : Reading.Of spec r) (hexact : r.Exact c)
      (hlt : 2 ^ 128 ≤ numberAt c (r.card.toNat - 1) (r.rowNumber - 1) r.column)
  /-- An `s` or a bracket behind the number of a card, and more. -/
  | card (card : Num) (rest : List Char) (h : ReadsCard spec card rest) (hrest : rest ≠ [']'])

/-- A row from one to ten goes through the narrowing unchanged. -/
theorem charOfInt_row {ds : List Char} (h : 1 ≤ digitsVal 10 ds 0 ∧ digitsVal 10 ds 0 ≤ 10) :
    charOfInt (intOfDigits false ds) = digitsVal 10 ds 0 := by
  rw [intOfDigits]
  generalize digitsVal 10 ds 0 = v at *
  obtain ⟨h1, h10⟩ := h
  interval_cases v <;> rfl

theorem Reading.Exact.rowArg (h : r.Exact c) (hr : Reading.Of spec r) :
    r.rowArg = r.rowNumber := by
  have hneg : r.neg = false := by
    cases hr with
    | columnRow _ hpad _ _ _ =>
      rw [h.pad] at hpad
      exact Bool.eq_false_iff.mpr fun hneg => List.not_mem_nil ((pad_neg_iff hpad).mp hneg)
    | rowColumn _ hneg _ _ _ _ _ => exact hneg
  rw [Reading.rowArg, hneg]
  exact charOfInt_row h.row

theorem Reading.Exact.result (ha : a.Rows c) (hc : c ≤ 11) (hr : Reading.Of spec r)
    (h : r.Exact c) (hcard : 1 ≤ r.card.toNat) (hcol : r.column < 10) :
    (r.result a item).2.toNat =
      numberAt c (r.card.toNat - 1) (r.rowNumber - 1) r.column % 2 ^ 128 := by
  obtain ⟨m, hm, hval⟩ := ahGetPasscodeNumber_ok ha hc hcard h.column h.row
  rw [Reading.result, if_neg (Nat.not_le.mpr hcol), h.rowArg hr, hm]
  exact hval

theorem IsCard.reads (h : IsCard spec card) : ReadsCard spec card [']'] := by
  obtain ⟨number, hspec, hnumber⟩ := h
  exact ⟨⟨number, hspec, hnumber⟩, stops_cons (by decide), rfl⟩

theorem ReadsCard.isCard (h : ReadsCard spec card [']']) : IsCard spec card := h.number

theorem ReadsCard.unique {card' : Num} {rest' : List Char} (h : ReadsCard spec card rest)
    (h' : ReadsCard spec card' rest') : card = card' ∧ rest = rest' := by
  obtain ⟨⟨number, rfl, hnumber⟩, hstop, -⟩ := h
  obtain ⟨⟨number', hspec, hnumber'⟩, hstop', -⟩ := h'
  have hne : ∀ {number : List Char} {card : Num}, CardNumber number card →
      ∀ d ∈ number, decide (d ≠ ']' ∧ d ≠ 's') = true :=
    fun hn d hd => decide_eq_true ⟨digit_ne (hn.plain.1 d hd) (by decide),
      digit_ne (hn.plain.1 d hd) (by decide)⟩
  obtain ⟨rfl, rfl⟩ := run_unique (hne hnumber) hstop (hne hnumber') hstop' (List.cons.inj hspec).2
  exact ⟨hnumber.unique hnumber', rfl⟩

/-- A slip that is made shows in the result. -/
theorem Slip.not_parsed {nums : SpecNums} (hnums : a.specNums = .ok nums) (ha : a.Rows c)
    (h : Slip c spec) : ¬ ParsedExactly c spec (ahParseCodeSpec a spec item) := by
  intro hparsed
  -- a reading that is accepted is exact
  have hexact : ∀ r, Reading.Of spec r → r.column < 10 → r.Exact c := by
    intro r hr hcol
    have hcode : (ahParseCodeSpec a spec item).1 = printCode := by
      rw [ahParseCodeSpec_position hnums hr]
      exact Reading.result_code ha hcol
    obtain ⟨card, row, k, hpos⟩ := hparsed.code.mp hcode
    obtain ⟨r', hr', hexact, -⟩ := hpos.reading
    rw [hr.unique hr']
    exact hexact
  cases h with
  | padded r hr hcol hpad => exact hpad (hexact r hr hcol).pad
  | row r hr hcol hrow => exact hrow (hexact r hr hcol).row
  | column r hr hcol hc => exact absurd (hexact r hr hcol).column (Nat.not_lt.mpr hc)
  | tail r hr hcol hrest => exact hrest (hexact r hr hcol).rest
  | lastColumn r hr hexact hcol =>
    have hcode := hparsed.code.mpr ⟨_, _, _, hr.isPosition hexact⟩
    rw [ahParseCodeSpec_position hnums hr, Reading.result, if_pos hcol] at hcode
    have hne : (-1 : ℤ) ≠ printCode := by decide
    exact hne hcode
  | wraps r hr hexact hlt =>
    have hnumber := hparsed.number _ _ _ (hr.isPosition hexact)
    have := (ahParseCodeSpec a spec item).2.toNat_lt
    omega
  | card card rest hreads hrest =>
    have hcard : (ahParseCodeSpec a spec item).1 = printCard := by
      rw [ahParseCodeSpec_card hnums hreads]
    obtain ⟨card', hcard'⟩ := hparsed.card.mp hcard
    exact hrest (hreads.unique hcard'.reads).2

/-- Without a slip the parser returns what the string says. -/
theorem parsed_of_not_slip {nums : SpecNums} (hnums : a.specNums = .ok nums) (ha : a.Rows c)
    (hc : c ≤ 11) (hmark : '[' ∈ spec ∨ ']' ∈ spec) (hcurrent : ¬ sameWord spec "[current]".toList)
    (hnext : ¬ sameWord spec "[next]".toList) (h : ¬ Slip c spec) :
    ParsedExactly c spec (ahParseCodeSpec a spec item) := by
  have hcodeCard : printCode ≠ printCard := by decide
  have hcolumn : ∀ r, Reading.Of spec r → r.Exact c → r.column < 10 := fun r hr hexact =>
    Nat.lt_of_not_le fun hcol => h (.lastColumn r hr hexact hcol)
  have hexact : ∀ r, Reading.Of spec r → r.column < 10 → r.Exact c := fun r hr hcol =>
    ⟨by_contra fun hpad => h (.padded r hr hcol hpad),
      by_contra fun hrow => h (.row r hr hcol hrow),
      Nat.lt_of_not_le fun hc => h (.column r hr hcol hc),
      by_contra fun hrest => h (.tail r hr hcol hrest)⟩
  have hparsed := @ahParseCodeSpec_parsed a spec item nums hnums
  refine ⟨⟨fun hcode => ?_, ?_⟩, ?_, ⟨fun hcard => ?_, ?_⟩, fun card hcard => ?_⟩
  · generalize ahParseCodeSpec a spec item = result at *
    cases hparsed with
    | current hword => exact absurd hword (not_sameWord_of_mem hmark (by decide))
    | currentCard _ => exact absurd hcode.symm hcodeCard
    | next _ => exact absurd hcode.symm hcodeCard
    | number hn =>
      -- a number has no bracket
      rcases hmark with hmark | hmark
      · exact absurd (hn.plain.1 _ hmark) (by decide)
      · exact absurd (hn.plain.1 _ hmark) (by decide)
    | card _ => exact absurd hcode.symm hcodeCard
    | @position r hr hcol => exact ⟨_, _, _, hr.isPosition (hexact r hr hcol)⟩
    | illegal n =>
      have hne : (-1 : ℤ) ≠ printCode := by decide
      exact absurd hcode hne
  · rintro ⟨card, row, k, hpos⟩
    obtain ⟨r, hr, hex, -⟩ := hpos.reading
    rw [ahParseCodeSpec_position hnums hr]
    exact Reading.result_code ha (hcolumn r hr hex)
  · intro card row k hpos
    obtain ⟨r, hr, hex, rfl, rfl, rfl⟩ := hpos.reading
    have hlt : numberAt c (r.card.toNat - 1) (r.rowNumber - 1) r.column < 2 ^ 128 :=
      Nat.lt_of_not_le fun hle => h (.wraps r hr hex hle)
    rw [ahParseCodeSpec_position hnums hr,
      hex.result ha hc hr hr.card_pos (hcolumn r hr hex), Nat.mod_eq_of_lt hlt]
  · generalize ahParseCodeSpec a spec item = result at *
    cases hparsed with
    | current _ => exact absurd hcard hcodeCard
    | currentCard hword => exact absurd hword hcurrent
    | next hword =>
      rcases hword with hword | hword
      · exact absurd hword (not_sameWord_of_mem hmark (by decide))
      · exact absurd hword hnext
    | number _ => exact absurd hcard hcodeCard
    | @card card rest hreads =>
      have hrest : rest = [']'] := by_contra fun hne => h (.card card rest hreads hne)
      subst hrest
      exact ⟨card, hreads.isCard⟩
    | @position r hr hcol =>
      rw [Reading.result_code ha hcol] at hcard
      exact absurd hcard hcodeCard
    | illegal n =>
      have hne : (-1 : ℤ) ≠ printCard := by decide
      exact absurd hcard hne
  · rintro ⟨card, hcard⟩
    rw [ahParseCodeSpec_card hnums hcard.reads]
  · rw [ahParseCodeSpec_card hnums hcard.reads]

end

/-- A string with brackets that is not one of the two keywords is parsed exactly
if and only if none of the slips is in it. -/
theorem parsed_exactly_iff (a : Getters) (nums : SpecNums) (len : ℕ) (spec : List Char) (item : Num)
    (hnums : a.specNums = .ok nums) (hlen : 2 ≤ len ∧ len ≤ 16) (ha : a.Rows (codesPerRow len))
    (hmark : '[' ∈ spec ∨ ']' ∈ spec) (hcurrent : ¬ sameWord spec "[current]".toList)
    (hnext : ¬ sameWord spec "[next]".toList) :
    ParsedExactly (codesPerRow len) spec (ahParseCodeSpec a spec item) ↔
      ¬ Slip (codesPerRow len) spec :=
  ⟨fun hparsed hslip => hslip.not_parsed hnums ha hparsed, fun h =>
    parsed_of_not_slip hnums ha (codesPerRow_bounds hlen.1 hlen.2).2 hmark hcurrent hnext h⟩

theorem alice_rows : (starGetters (calculate aliceState)).Rows (codesPerRow 4) :=
  ((starGetters_of (calculate aliceState)).rows (by decide +kernel)).1

theorem parsed_exactly_iff_alice :
    ParsedExactly (codesPerRow 4) "A5[3]".toList
        (ahParseCodeSpec (starGetters (calculate aliceState)) "A5[3]".toList (numI 0)) ↔
      ¬ Slip (codesPerRow 4) "A5[3]".toList :=
  parsed_exactly_iff _ _ 4 _ _ (starGetters_of (calculate aliceState)).specNums (by decide)
    alice_rows (by decide) (by decide) (by decide)

/-- `[5s]` is taken for card 5. -/
theorem letter_in_card_accepted :
    ¬ ParsedExactly (codesPerRow 4) "[5s]".toList
      (ahParseCodeSpec (starGetters (calculate aliceState)) "[5s]".toList (numI 0)) := by
  have hreads : ReadsCard "[5s]".toList (numI 5) ['s', ']'] :=
    ⟨⟨['5'], rfl, by decide +kernel, by decide⟩, stops_cons (by decide), rfl⟩
  exact (Slip.card _ _ hreads (by decide)).not_parsed
    (starGetters_of (calculate aliceState)).specNums alice_rows

end Otpasswd
