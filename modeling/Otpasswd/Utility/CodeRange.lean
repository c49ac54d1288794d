import Otpasswd.Libotp.Cards
import Otpasswd.Utility.CodeSpec

/-!
# Otpasswd.Utility.CodeRange — arguments that name what there is

`ah_parse_code_spec` asks for the largest card and the largest number and
compares nothing with them.

Main result: `existing_iff`.
-/

namespace Otpasswd

open CText

/-! ## Bounds -/

section

variable {s : State} {a : Getters} {spec rest : List Char} {item card n : Num} {r : Reading}
  {c : ℕ}

/-- The largest card has the last numbers. -/
theorem State.Derived.maxCode (hs : s.Derived)
    (hlen : 2 ≤ s.codeLength.toNat ∧ s.codeLength.toNat ≤ 16) (hcode : s.codeMask = Otpasswd.codeMask) :
    1 ≤ s.maxCard.toNat ∧
      s.maxCode.toNat = s.maxCard.toNat * (codesPerRow s.codeLength.toNat * rowsPerCard) := by
  obtain ⟨h2, h11⟩ := codesPerRow_bounds hlen.1 hlen.2
  have hcodes : codesPerRow s.codeLength.toNat * rowsPerCard ≤ 110 :=
    Nat.mul_le_mul_right rowsPerCard h11
  have hpos : 0 < codesPerRow s.codeLength.toNat * rowsPerCard :=
    Nat.mul_pos (by omega) (by decide)
  -- both bounds of the number space have room for two cards
  have hbound : ∀ n : Num, 220 ≤ n.toNat →
      1 ≤ (numSubI (numDivI n
        (BitVec.ofNat 64 (codesPerRow s.codeLength.toNat * rowsPerCard))).1 1).toNat ∧
      (numMulI (numSubI (numDivI n
        (BitVec.ofNat 64 (codesPerRow s.codeLength.toNat * rowsPerCard))).1 1)
        (BitVec.ofNat 64 (codesPerRow s.codeLength.toNat * rowsPerCard))).toNat =
      (numSubI (numDivI n
        (BitVec.ofNat 64 (codesPerRow s.codeLength.toNat * rowsPerCard))).1 1).toNat *
        (codesPerRow s.codeLength.toNat * rowsPerCard) := by
    intro n hn
    rw [toNat_maxCode n hpos hcodes (by omega), toNat_maxCard n hpos hcodes (by omega)]
    have htwo : 2 ≤ n.toNat / (codesPerRow s.codeLength.toNat * rowsPerCard) := by
      rw [Nat.le_div_iff_mul_le hpos]
      omega
    exact ⟨by omega, rfl⟩
  have hcard : s.maxCard = (calculate s).maxCard := congrArg State.maxCard hs.symm
  have hmax : s.maxCode = (calculate s).maxCode := congrArg State.maxCode hs.symm
  rw [hcard, hmax]
  by_cases hsalt : s.flags &&& flagSalted = 0
  · simp only [calculate, hsalt, ne_eq, not_true_eq_false, if_false]
    exact hbound maxCardUnsalted (by decide)
  · simp only [calculate, hsalt, ne_eq, not_false_eq_true, if_true, hcode]
    exact hbound Otpasswd.codeMask (by rw [codeMask_eq]; decide)

/-! ## Arguments in range -/

/-- A number or a card that is returned exists, and the number of a position is
that of its parts. -/
structure Existing (s : State) (spec : List Char) (result : ℤ × Num) : Prop where
  code : result.1 = printCode → result.2.toNat < s.maxCode.toNat
  card : result.1 = printCard → 1 ≤ result.2.toNat ∧ result.2.toNat ≤ s.maxCard.toNat
  position : ∀ r : Reading, Reading.Of spec r → r.column < 10 →
    r.column < codesPerRow s.codeLength.toNat → ∀ row : ℕ, 1 ≤ row ∧ row ≤ 10 → r.rowArg = row →
    result.2.toNat =
      numberAt (codesPerRow s.codeLength.toNat) (r.card.toNat - 1) (row - 1) r.column

/-- What an argument of each form has to keep to. -/
structure InRange (s : State) (spec : List Char) : Prop where
  current : sameWord spec "current".toList → s.justCounter.toNat < s.maxCode.toNat
  currentCard : sameWord spec "[current]".toList → s.currentCard.toNat ≤ s.maxCard.toNat
  next : sameWord spec "next".toList ∨ sameWord spec "[next]".toList →
    (s.latestCard.toNat < s.currentCard.toNat → s.currentCard.toNat ≤ s.maxCard.toNat) ∧
      (s.currentCard.toNat ≤ s.latestCard.toNat → s.latestCard.toNat + 1 ≤ s.maxCard.toNat)
  number : ∀ n, CardNumber spec n → n.toNat ≤ s.maxCode.toNat
  card : ∀ card rest, ReadsCard spec card rest → card.toNat ≤ s.maxCard.toNat
  position : ∀ r : Reading, Reading.Of spec r → r.column < 10 →
    r.column < codesPerRow s.codeLength.toNat → ∀ row : ℕ, 1 ≤ row ∧ row ≤ 10 → r.rowArg = row →
    numberAt (codesPerRow s.codeLength.toNat) (r.card.toNat - 1) (row - 1) r.column <
      s.maxCode.toNat

section

variable {nums : SpecNums}

theorem sameWord_unique {word word' : List Char} (h : sameWord spec word)
    (h' : sameWord spec word') : word.map Char.toLower = word'.map Char.toLower :=
  h.symm.trans h'

theorem ahParseCodeSpec_current (hnums : a.specNums = .ok nums)
    (h : sameWord spec "current".toList) :
    ahParseCodeSpec a spec item = (printCode, nums.unsaltedCounter) := by
  rw [ahParseCodeSpec, hnums]
  simp only
  rw [if_pos h]

theorem ahParseCodeSpec_currentCard (hnums : a.specNums = .ok nums)
    (h : sameWord spec "[current]".toList) :
    ahParseCodeSpec a spec item = (printCard, nums.currentCard) := by
  have h1 : ¬ sameWord spec "current".toList :=
    fun h' => absurd (sameWord_unique h h') (by decide)
  rw [ahParseCodeSpec, hnums]
  simp only
  rw [if_neg h1, if_pos h]

theorem ahParseCodeSpec_next (hnums : a.specNums = .ok nums)
    (h : sameWord spec "next".toList ∨ sameWord spec "[next]".toList) :
    ahParseCodeSpec a spec item = (printCard,
      if 0 < numCmp nums.currentCard nums.latestCard then nums.currentCard
      else numAddI nums.latestCard 1) := by
  have hother : ∀ word, word.map Char.toLower ≠ "next".toList.map Char.toLower →
      word.map Char.toLower ≠ "[next]".toList.map Char.toLower → ¬ sameWord spec word := by
    intro word h1 h2 h'
    rcases h with h | h
    · exact h1 (sameWord_unique h' h)
    · exact h2 (sameWord_unique h' h)
  have h1 := hother "current".toList (by decide) (by decide)
  have h2 := hother "[current]".toList (by decide) (by decide)
  rw [ahParseCodeSpec, hnums]
  simp only
  rw [if_neg h1, if_neg h2, if_pos h]

/-- A passcode given as a number. -/
theorem ahParseCodeSpec_number (hnums : a.specNums = .ok nums) (h : CardNumber spec n) :
    ahParseCodeSpec a spec item = (printCode, numSubI n 1) := by
  obtain ⟨hall, hne, -⟩ := h.plain
  obtain ⟨d, ds, hspec⟩ := List.exists_cons_of_ne_nil hne
  have hd := hall d (hspec ▸ List.mem_cons_self ..)
  have hword : ∀ x word, isDigitOf 10 x.toLower = false → ¬ sameWord spec (x :: word) := by
    intro x word hx heq
    rw [hspec] at heq
    have hsame : d.toLower = x.toLower := (List.cons.inj heq).1
    rw [toLower_digit hd] at hsame
    rw [← hsame, hd] at hx
    cases hx
  have h1 : ¬ sameWord spec "current".toList := hword 'c' "urrent".toList (by decide)
  have h2 : ¬ sameWord spec "[current]".toList := hword '[' "current]".toList (by decide)
  have h3 : ¬ sameWord spec "next".toList := hword 'n' "ext".toList (by decide)
  have h4 : ¬ sameWord spec "[next]".toList := hword '[' "next]".toList (by decide)
  have hletters : spec.filter Char.isAlpha = [] := List.filter_eq_nil_iff.mpr fun x hx => by
    rw [not_isAlpha_of_digit (hall x hx)]
    exact Bool.false_ne_true
  have hrow : ¬ (spec.filter Char.isAlpha).length = 1 ∧
      spec.head?.any (isDigitOf 10) = true := by
    rw [hletters, hspec]
    exact ⟨by decide, hd⟩
  rw [ahParseCodeSpec, hnums]
  simp only
  rw [if_neg h1, if_neg h2, if_neg (not_or.mpr ⟨h3, h4⟩), if_pos hrow,
    if_pos (List.all_eq_true.mpr hall)]
  simp only [h.1, if_neg ((one_le_iff n).mpr h.2)]

end

theorem State.Derived.currentCard_pos (hs : s.Derived)
    (hlen : 2 ≤ s.codeLength.toNat ∧ s.codeLength.toNat ≤ 16) : 1 ≤ s.currentCard.toNat := by
  have hcard : s.currentCard = (calculate s).currentCard := congrArg State.currentCard hs.symm
  rw [hcard, (calculate_position hlen rfl).1]
  exact Nat.le_add_left 1 _

theorem State.Derived.getters (hs : s.Derived) (ha : a.Of s)
    (hlen : 2 ≤ s.codeLength.toNat ∧ s.codeLength.toNat ≤ 16) :
    a.Rows (codesPerRow s.codeLength.toNat) := by
  have ha' : a.Of (calculate s) := by
    rw [hs]
    exact ha
  exact (ha'.rows hlen).1

theorem toNat_pred (h : 1 ≤ n.toNat) : (numSubI n 1).toNat = n.toNat - 1 := by
  have hone : (1 : Word64).toNat = 1 := rfl
  rw [Num.toNat_numSubI, hone, card_pred n h]

theorem toNat_succ (n : Num) : (numAddI n 1).toNat = (n.toNat + 1) % 2 ^ 128 := by
  have hone : (1 : Word64).toNat = 1 := rfl
  rw [Num.toNat_numAddI, hone]

/-- What a position comes to: the number of its parts, or nothing at all where
the column or the row is none. -/
theorem Reading.result_cases (ha : a.Rows c) (hc : c ≤ 11) (hr : Reading.Of spec r)
    (hcol : r.column < 10) :
    (∃ row : ℕ, (1 ≤ row ∧ row ≤ 10) ∧ r.rowArg = row ∧ r.column < c ∧
      (r.result a item).2.toNat = numberAt c (r.card.toNat - 1) (row - 1) r.column % 2 ^ 128) ∨
    (r.result a item).2 = item ∧
      ∀ row : ℕ, 1 ≤ row ∧ row ≤ 10 → r.rowArg = row → ¬ r.column < c := by
  have hnot : ¬ 10 ≤ r.column := Nat.not_le.mpr hcol
  have herror : ahGetPasscodeNumber a r.card (columnChar r.column) r.rowArg = .error 1 →
      (r.result a item).2 = item := by
    intro h
    rw [Reading.result, if_neg hnot, h]
  by_cases hrow : 1 ≤ r.rowArg ∧ r.rowArg ≤ 10
  · by_cases hc' : r.column < c
    · -- a position
      obtain ⟨row, hrowArg⟩ := Int.eq_ofNat_of_zero_le (show 0 ≤ r.rowArg by omega)
      have hrange : 1 ≤ row ∧ row ≤ 10 := by omega
      obtain ⟨m, hm, hval⟩ := ahGetPasscodeNumber_ok ha hc hr.card_pos hc' hrange
      refine .inl ⟨row, hrange, hrowArg, hc', ?_⟩
      rw [Reading.result, if_neg hnot, hrowArg, hm]
      exact hval
    · -- no column
      refine .inr ⟨herror ?_, fun _ _ _ => hc'⟩
      have hcolumn : (columnChar r.column).toNat = 65 + r.column :=
        toNat_columnChar' (show r.column < 26 by omega)
      have hInt : (BitVec.ofNat 32 c).toInt = c := toInt_ofNat_small (by omega)
      have hA : ('A'.toNat : ℤ) = 65 := rfl
      rw [ahGetPasscodeNumber, ha.codesOnCard, ha.codesInRow]
      simp only [bind, Except.bind, hInt]
      rw [if_pos (.inr (by rw [hcolumn, hA]; omega))]
      rfl
  · -- no row
    refine .inr ⟨herror ?_, fun row hrange hrowArg => absurd (by omega) hrow⟩
    rw [ahGetPasscodeNumber, ha.codesOnCard, ha.codesInRow]
    simp only [bind, Except.bind]
    split_ifs
    · rfl
    · rfl
    · omega

/-- An argument in range names what exists. -/
theorem InRange.existing (hs : s.Derived) (ha : a.Of s)
    (hlen : 2 ≤ s.codeLength.toNat ∧ s.codeLength.toNat ≤ 16) (hcode : s.codeMask = Otpasswd.codeMask)
    (h : InRange s spec) : Existing s spec (ahParseCodeSpec a spec (numI 0)) := by
  have hcodeCard : printCode ≠ printCard := by decide
  have hrows := hs.getters ha hlen
  have h11 := (codesPerRow_bounds hlen.1 hlen.2).2
  obtain ⟨hcard, hmax⟩ := hs.maxCode hlen hcode
  have hnums := ha.specNums
  have hmaxPos : 0 < s.maxCode.toNat := by
    rw [hmax]
    have := (codesPerRow_bounds hlen.1 hlen.2).1
    exact Nat.mul_pos hcard (Nat.mul_pos (by omega) (by decide))
  have hlt := s.maxCode.toNat_lt
  have hparsed := @ahParseCodeSpec_parsed a spec (numI 0) _ hnums
  -- a number of a passcode, a number of a card, and the number of a position
  refine ⟨fun hresult => ?_, fun hresult => ?_, fun r hr hcol hcolumn row hrow hrowArg => ?_⟩
  · -- a passcode: the words for cards do not give one
    generalize ahParseCodeSpec a spec (numI 0) = result at *
    cases hparsed with
    | current hword => exact h.current hword
    | currentCard _ => exact absurd hresult.symm hcodeCard
    | next _ => exact absurd hresult.symm hcodeCard
    | number hn =>
      rw [toNat_pred hn.2]
      have := h.number _ hn
      have := hn.2
      omega
    | card _ => exact absurd hresult.symm hcodeCard
    | @position r hr hcol =>
      rcases Reading.result_cases hrows h11 hr hcol with ⟨row, hrow, harg, hc, hval⟩ | ⟨hval, -⟩
      · have hin := h.position r hr hcol hc row hrow harg
        rw [hval, Nat.mod_eq_of_lt (hin.trans hlt)]
        exact hin
      · rw [hval]
        exact hmaxPos
    | illegal n =>
      have hne : (-1 : ℤ) ≠ printCode := by decide
      exact absurd hresult hne
  · -- a card: a word, a number in brackets, or the one after the latest
    generalize ahParseCodeSpec a spec (numI 0) = result at *
    cases hparsed with
    | current _ => exact absurd hresult hcodeCard
    | currentCard hword => exact ⟨hs.currentCard_pos hlen, h.currentCard hword⟩
    | next hword =>
      obtain ⟨h1, h2⟩ := h.next hword
      simp only
      by_cases hcmp : 0 < numCmp s.currentCard s.latestCard
      · rw [if_pos hcmp]
        exact ⟨hs.currentCard_pos hlen, h1 ((numCmp_pos_iff _ _).mp hcmp)⟩
      · rw [if_neg hcmp, toNat_succ]
        have hle := h2 (Nat.le_of_not_lt (mt (numCmp_pos_iff _ _).mpr hcmp))
        have := s.maxCard.toNat_lt
        omega
    | number _ => exact absurd hresult hcodeCard
    | @card card rest hreads =>
      obtain ⟨number, -, hnumber⟩ := hreads.number
      exact ⟨hnumber.2, h.card card rest hreads⟩
    | @position r hr hcol =>
      rw [Reading.result_code hrows hcol] at hresult
      exact absurd hresult hcodeCard
    | illegal n =>
      have hne : (-1 : ℤ) ≠ printCard := by decide
      exact absurd hresult hne
  · -- a position is a number below the last passcode, so nothing wraps
    have hin := h.position r hr hcol hcolumn row hrow hrowArg
    rw [ahParseCodeSpec_position hnums hr]
    rcases Reading.result_cases hrows h11 hr hcol with ⟨row', hrow', harg, -, hval⟩ | ⟨-, hnone⟩
    · obtain rfl : row = row' := by omega
      rw [hval, Nat.mod_eq_of_lt (hin.trans hlt)]
    · exact absurd hcolumn (hnone row hrow hrowArg)

/-- What exists is named by an argument in range. -/
theorem Existing.inRange (hs : s.Derived) (ha : a.Of s)
    (hlen : 2 ≤ s.codeLength.toNat ∧ s.codeLength.toNat ≤ 16)
    (h : Existing s spec (ahParseCodeSpec a spec (numI 0))) : InRange s spec := by
  have hrows := hs.getters ha hlen
  have hnums := ha.specNums
  refine ⟨fun hword => ?_, fun hword => ?_, fun hword => ?_, fun n hn => ?_,
    fun card rest hreads => ?_, fun r hr hcol hcolumn row hrow hrowArg => ?_⟩
  · rw [ahParseCodeSpec_current hnums hword] at h
    exact h.code rfl
  · rw [ahParseCodeSpec_currentCard hnums hword] at h
    exact (h.card rfl).2
  · rw [ahParseCodeSpec_next hnums hword] at h
    have hcard := h.card rfl
    simp only at hcard
    refine ⟨fun hlt => ?_, fun hle => ?_⟩
    · rw [if_pos ((numCmp_pos_iff _ _).mpr hlt)] at hcard
      exact hcard.2
    · rw [if_neg (mt (numCmp_pos_iff _ _).mp (Nat.not_lt.mpr hle)), toNat_succ] at hcard
      have := s.latestCard.toNat_lt
      omega
  · rw [ahParseCodeSpec_number hnums hn] at h
    have hlt := h.code rfl
    have hone := hn.2
    rw [toNat_pred hone] at hlt
    omega
  · rw [ahParseCodeSpec_card hnums hreads] at h
    exact (h.card rfl).2
  · have hexact := h.position r hr hcol hcolumn row hrow hrowArg
    rw [← hexact]
    refine h.code ?_
    rw [ahParseCodeSpec_position hnums hr]
    exact Reading.result_code hrows hcol

/-- The numbers of a card that there is stay below the bound, and with them the
number behind the last one. -/
theorem State.Derived.card_numbers (hs : s.Derived)
    (hlen : 2 ≤ s.codeLength.toNat ∧ s.codeLength.toNat ≤ 16) (hcode : s.codeMask = Otpasswd.codeMask)
    (hcard : 1 ≤ card.toNat ∧ card.toNat ≤ s.maxCard.toNat) :
    card.toNat * (codesPerRow s.codeLength.toNat * rowsPerCard) ≤ s.maxCode.toNat := by
  rw [(hs.maxCode hlen hcode).2]
  exact Nat.mul_le_mul_right _ hcard.2

/-- Two numbers below the bound get two counters. -/
theorem State.Derived.addSalt_inj (hs : s.Derived)
    (hlen : 2 ≤ s.codeLength.toNat ∧ s.codeLength.toNat ≤ 16) (hcode : s.codeMask = Otpasswd.codeMask)
    {m : Num} (hn : n.toNat < s.maxCode.toNat) (hm : m.toNat < s.maxCode.toNat)
    (h : pppAddSalt s n = pppAddSalt s m) : n = m := by
  rw [pppAddSalt, pppAddSalt] at h
  by_cases hsalt : s.flags &&& flagSalted = 0
  · rw [if_neg (not_not.mpr hsalt), if_neg (not_not.mpr hsalt)] at h
    exact h
  · rw [if_pos hsalt, if_pos hsalt, hcode] at h
    have hmax : s.maxCode.toNat < 2 ^ 32 := by
      have hcalc := calculate_maxCode hlen.1 hlen.2 hcode
      rw [hs, decide_eq_true hsalt] at hcalc
      rw [hcalc]
      exact numberSpace_salted_lt
    have hval := congrArg Num.toNat h
    rw [Num.toNat_numAdd, Num.toNat_numAdd, toNat_and_codeMask, toNat_and_codeMask] at hval
    have hnlt := (numAnd s.counter s.saltMask).toNat_lt
    refine Num.ext_toNat ?_
    omega

end

/-- An argument names an existing number or card if and only if what it says is in
range. Then no arithmetic on it wraps, and two numbers are two counters. -/
theorem existing_iff (s : State) (a : Getters) (spec : List Char) (hs : s.Derived) (ha : a.Of s)
    (hlen : 2 ≤ s.codeLength.toNat ∧ s.codeLength.toNat ≤ 16)
    (hcode : s.codeMask = Otpasswd.codeMask) :
    (Existing s spec (ahParseCodeSpec a spec (numI 0)) ↔ InRange s spec) ∧
      (∀ card : Num, 1 ≤ card.toNat ∧ card.toNat ≤ s.maxCard.toNat →
        card.toNat * (codesPerRow s.codeLength.toNat * rowsPerCard) ≤ s.maxCode.toNat) ∧
      ∀ n m : Num, n.toNat < s.maxCode.toNat → m.toNat < s.maxCode.toNat →
        pppAddSalt s n = pppAddSalt s m → n = m :=
  ⟨⟨fun h => h.inRange hs ha hlen, fun h => h.existing hs ha hlen hcode⟩,
    fun _ hcard => hs.card_numbers hlen hcode hcard,
    fun _ _ hn hm h => hs.addSalt_inj hlen hcode hn hm h⟩

theorem existing_iff_alice :
    Existing (calculate aliceState) "5".toList
      (ahParseCodeSpec (starGetters (calculate aliceState)) "5".toList (numI 0)) ↔
    InRange (calculate aliceState) "5".toList :=
  (existing_iff (calculate aliceState) _ _ (derived_calculate aliceState) (starGetters_of _)
    (by decide +kernel) (by decide +kernel)).1

/-- The largest card number that can be written is accepted. -/
theorem largest_card_accepted :
    ¬ Existing (calculate aliceState) "[340282366920938463463374607431768211455]".toList
      (ahParseCodeSpec (starGetters (calculate aliceState))
        "[340282366920938463463374607431768211455]".toList (numI 0)) := by
  have hcard : (ahParseCodeSpec (starGetters (calculate aliceState))
      "[340282366920938463463374607431768211455]".toList (numI 0)).1 = printCard := by
    decide +kernel
  have hlarge : (calculate aliceState).maxCard.toNat < (ahParseCodeSpec
      (starGetters (calculate aliceState))
        "[340282366920938463463374607431768211455]".toList (numI 0)).2.toNat := by
    decide +kernel
  intro h
  exact absurd (h.card hcard).2 (Nat.not_le.mpr hlarge)

end Otpasswd
