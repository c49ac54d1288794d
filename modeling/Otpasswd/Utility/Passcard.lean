import Otpasswd.Common.NumDec
import Otpasswd.Libotp.Fields
import Otpasswd.Libotp.PppSpec
import Mathlib.Tactic.IntervalCases

/-!
# Otpasswd.Utility.Passcard — positions on passcards

The utility numbers cards and rows from one and passcodes from zero:
`ah_get_passcode_number` turns a position into a number, `card_ascii` prints
the passcodes of a card in the order of their numbers. Both learn what they
need about the state from the agent.
-/

namespace Otpasswd

open CText

/-! ## What the agent answers -/

/-- What the getters answer, as long as nothing changes in between. -/
structure Getters where
  getInt : PppField → Except ℕ Word32
  getNum : PppField → Except ℕ Num
  getStr : PppField → Except ℕ (List Char)
  getPasscode : Num → Except ℕ (List Char)

/-- The getters of numbers answer what the state held has. -/
structure Getters.Of (r : Getters) (s : State) : Prop where
  getInt : ∀ field v, pppGetInt s field = .ret v → r.getInt field = .ok v
  getNum : ∀ field v, pppGetNum s field = .ret v → r.getNum field = .ok v

/-! ## From positions to numbers -/

/-- `int` as an argument of type `uint64_t`. -/
def word64OfInt (i : ℤ) : Word64 := BitVec.ofInt 64 i

/-- `ah_get_passcode_number`. -/
def ahGetPasscodeNumber (a : Getters) (passcard : Num) (column : Char) (row : ℤ) :
    Except ℕ Num := do
  let codesOnCard ← a.getInt .codesOnCard
  let codesInRow ← a.getInt .codesInRow
  if column < 'A' ∨ 'A'.toNat + codesInRow.toInt ≤ column.toNat then throw 1
  else if row < 1 ∨ 10 < row then throw 1
  else
    let passcode := numSubI passcard 1
    let passcode := numMulI passcode (word64OfInt codesOnCard.toInt)
    let passcode := numAddI passcode (word64OfInt ((row - 1) * codesInRow.toInt))
    return numAddI passcode (word64OfInt (column.toNat - 'A'.toNat))

/-! ## Printing a card -/

/-- Why no card is returned. -/
inductive CardFault where
  /-- `NULL` is returned. -/
  | null
  /-- A write behind the buffer. -/
  | overrun
deriving DecidableEq

/-- The buffer of a card and the pointer into it. -/
structure Pen where
  buf : List Char
  card : ℕ

/-- `memcpy` to the pointer, which is moved behind the copy. -/
def Pen.put (text : List Char) (p : Pen) : Except CardFault Pen :=
  if p.card + text.length ≤ p.buf.length then
    .ok ⟨p.buf.take p.card ++ text ++ p.buf.drop (p.card + text.length), p.card + text.length⟩
  else .error .overrun

/-- The pointer moves without a write. -/
def Pen.skip (n : ℕ) (p : Pen) : Pen := ⟨p.buf, p.card + n⟩

def Pen.back (n : ℕ) (p : Pen) : Pen := ⟨p.buf, p.card - n⟩

/-- A passcode as it is copied to the card: behind a shorter reply `strncpy`
has left NULs. -/
def cardCode (codeLength : ℕ) (passcode : List Char) : List Char :=
  (passcode ++ List.replicate 17 '\x00').take codeLength

/-- The cells of a row, of which `n` are to go. -/
def cardCells (a : Getters) (codeLength : ℕ) : ℕ → Num → Pen → Except CardFault (Num × Pen)
  | 0, codeNum, p => .ok (codeNum, p)
  | n + 1, codeNum, p =>
    match a.getPasscode codeNum with
    | .error _ => .error .null
    | .ok passcode => do
      let p ← p.put (cardCode codeLength passcode)
      let p ← if n ≠ 0 then .ok (p.skip 1) else p.put ['\n']
      cardCells a codeLength n (numAddI codeNum 1) p

/-- `"%2d: "`. -/
def rowLabel (i : ℕ) : List Char :=
  let digits := Nat.toDigits 10 i
  List.replicate (2 - digits.length) ' ' ++ digits ++ [':', ' ']

/-- The rows from `i` on, of which `n` are to go. -/
def cardRows (a : Getters) (codeLength codesInRow : ℕ) : ℕ → ℕ → Num → Pen → Except CardFault Pen
  | 0, _, _, p => .ok p
  | n + 1, i, codeNum, p => do
    -- `sprintf` puts a NUL behind the label
    let p ← p.put (rowLabel i ++ ['\x00'])
    let (codeNum, p) ← cardCells a codeLength codesInRow codeNum (p.back 1)
    cardRows a codeLength codesInRow n (i + 1) codeNum p

/-- The letters of the columns, of which `n` are to go. -/
def cardColumns (codeLength : ℕ) : ℕ → ℕ → Pen → Except CardFault Pen
  | 0, _, p => .ok p
  | n + 1, i, p => do
    let p ← p.put ["ABCDEFGHIJKLMNOP".toList.getD i '\x00']
    cardColumns codeLength n (i + 1) (p.skip codeLength)

/-- The label, cut to what leaves room for a number. -/
def cardLabel (width : ℕ) (label : List Char) : List Char :=
  if width - 8 < label.length then label.take (width - 8 - 3) ++ ['.', '.', '.'] else label

/-- The number of the card, cut from the left to what the label leaves. -/
def cardNumber (width labelLen : ℕ) (number : List Char) : List Char :=
  if width < number.length + 3 + labelLen then
    '*' :: (number.drop (number.length - (width - 3 - labelLen))).drop 1
  else number

/-- The width of a card. -/
def cardWidth (codeLength : ℕ) : ℕ := (1 + codeLength) * codesPerRow codeLength + 3

/-- The two lines above the rows: the label with the number, and the columns. -/
def cardHead (codeLength codesInRow width size : ℕ) (label number : List Char) :
    Except CardFault Pen := do
  let p : Pen := ⟨List.replicate size ' ', 0⟩
  let p ← p.put label
  let p := (p.back label.length).skip (width - number.length - 2)
  let p ← p.put (['['] ++ number ++ [']', '\n'])
  let p ← cardColumns codeLength codesInRow 0 (p.skip 4)
  -- the blank behind the last column becomes the end of the line
  (p.back 1).put ['\n']

/-- The text of a card from a label and the digits of its number on. -/
def cardText (a : Getters) (codeLength : ℕ) (label number : List Char) (passcard : Num) :
    Except CardFault (List Char) := do
  let codesInRow := codesPerRow codeLength
  let width := cardWidth codeLength
  let size := (width + 1) * (rowsPerCard + 2) + 1
  let label := cardLabel width label
  let number := cardNumber width label.length number
  let p ← cardHead codeLength codesInRow width size label number
  let codeNum := numMulI (numSubI passcard 1) (BitVec.ofNat 64 (codesInRow * rowsPerCard))
  let p ← cardRows a codeLength codesInRow rowsPerCard 1 codeNum p
  return cstr (p.buf.set (size - 1) '\x00')

/-- `card_ascii`, past its assertions, on a host of the name `host`. -/
def cardAscii (a : Getters) (host : List Char) (passcard : Num) : Except CardFault (List Char) :=
  match a.getInt .codeLength with
  | .error _ => .error .null
  | .ok codeLength =>
    match a.getStr .label with
    | .error _ => .error .null
    | .ok label =>
      let label := if label = [] then host.take stateLabelSize else label
      match numExportDec passcard with
      | none => .error .overrun
      | some number => cardText a codeLength.toNat label number passcard

/-! ## Positions and numbers -/

/-- The letter of a column. -/
def columnChar (k : ℕ) : Char := Char.ofNat ('A'.toNat + k)

/-- The number of a position on a card, all counted from zero. -/
def numberAt (c q r k : ℕ) : ℕ := q * (c * rowsPerCard) + r * c + k

theorem numberAt_div_mod (c n : ℕ) :
    numberAt c (n / (c * rowsPerCard)) (n % (c * rowsPerCard) / c) (n % (c * rowsPerCard) % c) =
      n := by
  rw [numberAt, Nat.add_assoc, Nat.mul_comm (_ / c) c, Nat.div_add_mod,
    Nat.mul_comm _ (c * rowsPerCard), Nat.div_add_mod]

/-- The position can be read off its number. -/
theorem numberAt_position {c q r k : ℕ} (hk : k < c) (hr : r < rowsPerCard) :
    numberAt c q r k / (c * rowsPerCard) = q ∧
      numberAt c q r k % (c * rowsPerCard) / c = r ∧
      numberAt c q r k % (c * rowsPerCard) % c = k := by
  have hc : 0 < c := by omega
  have hlt : r * c + k < c * rowsPerCard := by
    have hle : (r + 1) * c ≤ rowsPerCard * c := Nat.mul_le_mul_right c hr
    rw [Nat.mul_comm c rowsPerCard]
    rw [Nat.add_mul, Nat.one_mul] at hle
    omega
  have hsum : numberAt c q r k = r * c + k + c * rowsPerCard * q := by
    rw [numberAt]
    ring
  have hmod : numberAt c q r k % (c * rowsPerCard) = r * c + k := by
    rw [hsum, Nat.add_mul_mod_self_left, Nat.mod_eq_of_lt hlt]
  refine ⟨?_, ?_, ?_⟩
  · rw [hsum, Nat.add_mul_div_left _ _ (Nat.mul_pos hc (by decide)), Nat.div_eq_of_lt hlt,
      Nat.zero_add]
  · rw [hmod, Nat.add_comm, Nat.add_mul_div_right _ _ hc, Nat.div_eq_of_lt hk, Nat.zero_add]
  · rw [hmod, Nat.add_comm, Nat.add_mul_mod_self_right, Nat.mod_eq_of_lt hk]

theorem getD_columns {k : ℕ} (h : k < 12) :
    "ABCDEFGHIJKL".toList.getD k '\x00' = columnChar k := by
  interval_cases k <;> rfl

section

variable {s : State} {a : Getters} {c k : ℕ} {card : Num} {row : ℕ}

/-- What `ppp_calculate` makes of the counter without its salt. -/
theorem calculate_position (hlen : 2 ≤ s.codeLength.toNat ∧ s.codeLength.toNat ≤ 16)
    (hc : codesPerRow s.codeLength.toNat = c) :
    (calculate s).currentCard.toNat = s.justCounter.toNat / (c * rowsPerCard) + 1 ∧
      (calculate s).currentRow = s.justCounter.toNat % (c * rowsPerCard) / c + 1 ∧
      (calculate s).currentColumn = columnChar (s.justCounter.toNat % (c * rowsPerCard) % c) ∧
      (calculate s).codesOnCard = BitVec.ofNat 32 (c * rowsPerCard) ∧
      (calculate s).codesInRow = BitVec.ofNat 32 c := by
  have hrange := codesPerRow_bounds hlen.1 hlen.2
  rw [hc] at hrange
  have hsmall : c * rowsPerCard < 2 ^ 64 := by
    simp only [rowsPerCard]
    omega
  have hword : (BitVec.ofNat 64 (c * rowsPerCard)).toNat = c * rowsPerCard := by
    rw [BitVec.toNat_ofNat, Nat.mod_eq_of_lt hsmall]
  have hne : BitVec.ofNat 64 (c * rowsPerCard) ≠ 0 := by
    intro h
    have := congrArg BitVec.toNat h
    rw [hword] at this
    simp only [rowsPerCard, BitVec.ofNat_eq_ofNat, BitVec.toNat_ofNat, Nat.zero_mod] at this
    omega
  obtain ⟨hquot, hrest⟩ := numDivI_spec s.justCounter (BitVec.ofNat 64 (c * rowsPerCard)) hne
  rw [hword] at hquot hrest
  have hlt := s.justCounter.toNat_lt
  have hdiv : s.justCounter.toNat / (c * rowsPerCard) + 1 < 2 ^ 128 := by
    have := Nat.div_le_self s.justCounter.toNat 20
    have hle : s.justCounter.toNat / (c * rowsPerCard) ≤ s.justCounter.toNat / 20 :=
      Nat.div_le_div_left (by simp only [rowsPerCard]; omega) (by decide)
    omega
  have hone : (1 : Word64).toNat = 1 := rfl
  have hmod : s.justCounter.toNat % (c * rowsPerCard) % c < 12 := by
    have := Nat.mod_lt (s.justCounter.toNat % (c * rowsPerCard)) (show 0 < c by omega)
    omega
  simp only [calculate, hc]
  refine ⟨?_, ?_, ?_, trivial, trivial⟩
  · rw [Num.toNat_numAddI, hquot, hone, Nat.mod_eq_of_lt hdiv]
  · rw [hrest, ← Nat.div_eq_sub_mod_div, Nat.add_comm]
  · rw [hrest]
    exact getD_columns hmod

theorem toNat_columnChar (hk : k < 12) : (columnChar k).toNat = 'A'.toNat + k := by
  interval_cases k <;> rfl

/-- The getters say how many passcodes there are in a row and on a card. -/
structure Getters.Rows (a : Getters) (c : ℕ) : Prop where
  codesOnCard : a.getInt .codesOnCard = .ok (BitVec.ofNat 32 (c * rowsPerCard))
  codesInRow : a.getInt .codesInRow = .ok (BitVec.ofNat 32 c)

theorem toInt_ofNat_small {n : ℕ} (h : n < 2 ^ 31) : (BitVec.ofNat 32 n).toInt = n := by
  have hnat : (BitVec.ofNat 32 n).toNat = n := by
    rw [BitVec.toNat_ofNat, Nat.mod_eq_of_lt (by omega)]
  rw [BitVec.toInt_eq_toNat_of_lt (by omega), hnat]

theorem toNat_word64OfInt {n : ℕ} (h : n < 2 ^ 64) : (word64OfInt n).toNat = n := by
  rw [word64OfInt, BitVec.ofInt_natCast, BitVec.toNat_ofNat, Nat.mod_eq_of_lt h]

/-- `num_sub_i(passcard, 1)` of a card number. -/
theorem card_pred (card : Num) (h : 1 ≤ card.toNat) :
    (2 ^ 128 + card.toNat - 1) % 2 ^ 128 = card.toNat - 1 := by
  have hlt := card.toNat_lt
  omega

/-- A position in range has a number; the arithmetic may wrap. -/
theorem ahGetPasscodeNumber_ok (ha : a.Rows c) (hc : c ≤ 11) (hcard : 1 ≤ card.toNat) (hk : k < c)
    (hrow : 1 ≤ row ∧ row ≤ 10) :
    ∃ m, ahGetPasscodeNumber a card (columnChar k) row = .ok m ∧
      m.toNat = numberAt c (card.toNat - 1) (row - 1) k % 2 ^ 128 := by
  have hrows : rowsPerCard = 10 := rfl
  have hcol := @toNat_columnChar k (by omega)
  have hrowInt : (BitVec.ofNat 32 c).toInt = c := toInt_ofNat_small (by omega)
  have hcardInt : (BitVec.ofNat 32 (c * rowsPerCard)).toInt = (c * rowsPerCard : ℕ) :=
    toInt_ofNat_small (by rw [hrows]; omega)
  have hcolumn : ¬ (columnChar k < 'A' ∨ ('A'.toNat : ℤ) + c ≤ (columnChar k).toNat) := by
    rw [hcol]
    rintro (h | h)
    · have : (columnChar k).toNat < 'A'.toNat := h
      omega
    · omega
  have hrowRange : ¬ ((row : ℤ) < 1 ∨ 10 < (row : ℤ)) := by omega
  have hprod : ((row : ℤ) - 1) * c = ((row - 1) * c : ℕ) := by
    rw [Nat.cast_mul, Nat.cast_sub hrow.1]
    rfl
  have hk' : ((columnChar k).toNat : ℤ) - 'A'.toNat = k := by
    rw [hcol]
    omega
  have hlt : (row - 1) * c < 2 ^ 64 := by
    have : (row - 1) * c ≤ 9 * 11 := Nat.mul_le_mul (by omega) hc
    omega
  refine ⟨numAddI (numAddI (numMulI (numSubI card 1) (word64OfInt (c * rowsPerCard : ℕ)))
    (word64OfInt ((row - 1) * c : ℕ))) (word64OfInt k), ?_, ?_⟩
  · rw [ahGetPasscodeNumber, ha.codesOnCard, ha.codesInRow]
    simp only [bind, Except.bind, hrowInt, hcardInt]
    rw [if_neg hcolumn, if_neg hrowRange, hprod, hk']
    rfl
  · have hone : (1 : Word64).toNat = 1 := rfl
    rw [Num.toNat_numAddI, Num.toNat_numAddI, Num.toNat_numMulI, Num.toNat_numSubI, hone,
      card_pred card hcard,
      toNat_word64OfInt hlt, toNat_word64OfInt (by rw [hrows]; omega),
      toNat_word64OfInt (by omega), numberAt,
      Nat.mod_add_mod, Nat.add_assoc, Nat.mod_add_mod, ← Nat.add_assoc]

/-- The position that `ppp_calculate` computes has the number it was computed
from. -/
theorem ahGetPasscodeNumber_calculate (hlen : 2 ≤ s.codeLength.toNat ∧ s.codeLength.toNat ≤ 16)
    (ha : a.Rows (codesPerRow s.codeLength.toNat)) :
    ahGetPasscodeNumber a (calculate s).currentCard (calculate s).currentColumn
      (calculate s).currentRow = .ok s.justCounter := by
  obtain ⟨h2, h11⟩ := codesPerRow_bounds hlen.1 hlen.2
  obtain ⟨hcard, hrow, hcol, -⟩ := calculate_position hlen rfl
  set c := codesPerRow s.codeLength.toNat
  set n := s.justCounter.toNat
  have hpos : 0 < c := by omega
  have hk : n % (c * rowsPerCard) % c < c := Nat.mod_lt _ hpos
  have hr : n % (c * rowsPerCard) / c < rowsPerCard := by
    rw [Nat.div_lt_iff_lt_mul hpos, Nat.mul_comm rowsPerCard]
    exact Nat.mod_lt _ (Nat.mul_pos hpos (by decide))
  have hrow' : 1 ≤ (calculate s).currentRow ∧ (calculate s).currentRow ≤ 10 := by
    rw [hrow]
    exact ⟨Nat.le_add_left 1 _, hr⟩
  have hcard' : 1 ≤ (calculate s).currentCard.toNat := by
    rw [hcard]
    exact Nat.le_add_left 1 _
  obtain ⟨m, hm, hval⟩ := ahGetPasscodeNumber_ok ha h11 hcard' hk hrow'
  rw [hcol, hm]
  refine congrArg _ (Num.ext_toNat ?_)
  have hq : (calculate s).currentCard.toNat - 1 = n / (c * rowsPerCard) := by omega
  have hr' : (calculate s).currentRow - 1 = n % (c * rowsPerCard) / c := by omega
  rw [hval, hq, hr', numberAt_div_mod, Nat.mod_eq_of_lt s.justCounter.toNat_lt]

/-- A counter at the number of a position is where `ppp_calculate` says it is. -/
theorem calculate_numberAt (hlen : 2 ≤ s.codeLength.toNat ∧ s.codeLength.toNat ≤ 16)
    (hc : codesPerRow s.codeLength.toNat = c) (hk : k < c) (hcard : 1 ≤ card.toNat)
    (hrow : 1 ≤ row ∧ row ≤ 10)
    (hn : s.justCounter.toNat = numberAt c (card.toNat - 1) (row - 1) k) :
    (calculate s).currentCard = card ∧ (calculate s).currentRow = row ∧
      (calculate s).currentColumn = columnChar k := by
  obtain ⟨h1, h2, h3, -⟩ := calculate_position hlen hc
  obtain ⟨hq, hr, hcol⟩ := @numberAt_position c (card.toNat - 1) (row - 1) k hk
    (by simp only [rowsPerCard]; omega)
  rw [hn, hq] at h1
  rw [hn, hr] at h2
  rw [hn, hcol] at h3
  exact ⟨Num.ext_toNat (by omega), by omega, h3⟩

end

end Otpasswd
