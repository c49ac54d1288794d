import Otpasswd.Common.NumDec
import Otpasswd.Common.NumOverflow

/-!
# Otpasswd.Common.NumFormat — numbers as text and bytes

`num_export` and `num_import` in their four formats. A decimal number is read
with the static overflow flag in hand, which the import clears first. Of the
two hexadecimal formats the import knows one: what `NUM_FORMAT_PPP_HEX` prints
is read with its bytes in the other order.

Main results: `num_decimal_exact` and `num_inverse_iff`.
-/

namespace Otpasswd

open CText

/-! ## Formats -/

/-- `enum num_str_type`. -/
inductive NumStrType where
  | dec
  | hex
  | pppHex
  | bin
deriving DecidableEq

/-- What a buffer holds: a string, or 16 bytes. -/
def NumStrType.Buff : NumStrType → Type
  | .bin => Bytes 16
  | _ => List Char

/-- `num_export(num, buff, NUM_FORMAT_PPP_HEX)`: `%02hhX` of `bin[0]` to `bin[15]`. -/
def numExportPppHex (num : Num) : List Char := hexBytes (numExportBin num).val

/-- `num_export`: the return value and the buffer. `none` is a write in front
of the temporary buffer. -/
def numExport (num : Num) : (t : NumStrType) → Option (ℕ × t.Buff)
  | .dec => (numExportDec num).map fun buff => (0, buff)
  | .pppHex => some (0, numExportPppHex num)
  | .hex => some (0, numExportHex num)
  | .bin => some (0, numExportBin num)

/-- `num_clear_overflow`, of the flag as earlier calls have left it. -/
def numClearOverflow (_ : Bool) : Bool := false

/-- `_num_set_str` in base 10, with the overflow flag before the call. -/
def numSetDec (ov : Bool) (str : List Char) : ℕ × Num :=
  if str = [] then (1, numZero) else numSetDecLoop 39 (numClearOverflow ov) numZero str

/-- `num_import`: the return value and the number. -/
def numImport (ov : Bool) : (t : NumStrType) → t.Buff → ℕ × Num
  | .dec, buff => numSetDec ov buff
  | .pppHex, buff => numImportHex buff
  | .hex, buff => numImportHex buff
  | .bin, buff => (0, numImportBin buff.val)

/-! ## Decimal numbers -/

/-- Multiply by ten and add a digit. -/
def numAddDigit (arg : Num) (d : ℕ) : Num × Bool :=
  numAddO (numMulIo false arg 10).2 (numMulIo false arg 10).1 (numI (BitVec.ofNat 64 d))

/-- The flag tells whether that is too much: it comes from the multiplication
or from the addition. -/
theorem numAddDigit_spec (arg : Num) {d : ℕ} (hd : d < 10) :
    ((numAddDigit arg d).2 = true ↔ 2 ^ 128 ≤ 10 * arg.toNat + d) ∧
      ((numAddDigit arg d).2 = false → (numAddDigit arg d).1.toNat = 10 * arg.toNat + d) := by
  obtain ⟨hmul, hmulFlag⟩ := numMulIo_inv false arg 10
  have hten : (10 : Word64).toNat = 10 := rfl
  have hdigit : (numI (BitVec.ofNat 64 d)).toNat = d := by
    rw [Num.toNat_numI, BitVec.toNat_ofNat, Nat.mod_eq_of_lt (by omega)]
  simp only [Bool.false_eq_true, false_or] at hmulFlag
  rw [hten] at hmul hmulFlag
  have hflag : (numAddDigit arg d).2 = true ↔ 2 ^ 128 ≤ 10 * arg.toNat + d := by
    rw [numAddDigit, numAddO_snd, hmulFlag, hmul, hdigit]
    omega
  refine ⟨hflag, fun hov => ?_⟩
  have hlt : 10 * arg.toNat + d < 2 ^ 128 := by
    by_contra hge
    exact absurd (hov.symm.trans (hflag.mpr (Nat.not_lt.mp hge))) Bool.false_ne_true
  rw [numAddDigit, numAddO_fst, Num.toNat_numAdd, hmul, hdigit]
  omega

/-- A character that the loop lets pass is a digit, with this value. -/
theorem digitVal_ten {c : Char} (h : ¬ (c < '0' ∨ '9' < c)) :
    digitVal c = some (c.toNat - '0'.toNat) ∧ c.toNat - '0'.toNat < 10 := by
  have hrange : '0' ≤ c ∧ c ≤ '9' := ⟨Char.not_lt.mp fun h' => h (.inl h'),
    Char.not_lt.mp fun h' => h (.inr h')⟩
  have h9 : c.toNat ≤ 57 := hrange.2
  have hzero : '0'.toNat = 48 := rfl
  refine ⟨?_, by omega⟩
  rw [digitVal, if_pos hrange]

/-- No other character is. -/
theorem not_isDigitOf_ten {c : Char} (h : c < '0' ∨ '9' < c) : ¬ isDigitOf 10 c = true := by
  have hrange : ¬ ('0' ≤ c ∧ c ≤ '9') := fun ⟨h0, h9⟩ =>
    h.elim (Char.not_lt.mpr h0) (Char.not_lt.mpr h9)
  rw [isDigitOf, digitVal, if_neg hrange]
  split_ifs
  · simp
  · simp
  · simp

/-- What the loop returns for `str`, with `room` characters to go. -/
structure DecRead (room : ℕ) (arg : Num) (str : List Char) (r : ℕ × Num) : Prop where
  accepted : r.1 = 0 ↔ (∀ c ∈ str, isDigitOf 10 c = true) ∧ str.length ≤ room ∧
    digitsVal 10 str arg.toNat < 2 ^ 128
  value : r.1 = 0 → r.2.toNat = digitsVal 10 str arg.toNat

theorem DecRead.refused {room : ℕ} {arg arg' : Num} {str : List Char}
    (h : ¬ ((∀ c ∈ str, isDigitOf 10 c = true) ∧ str.length ≤ room ∧
      digitsVal 10 str arg.toNat < 2 ^ 128)) : DecRead room arg str (1, arg') := by
  constructor
  · exact ⟨fun hone => absurd hone one_ne_zero, fun hread => absurd hread h⟩
  · exact fun hone => absurd hone one_ne_zero

/-- The loop reads digits up to the bounds on their number and on their value. -/
theorem numSetDecLoop_read (room : ℕ) (arg : Num) (str : List Char) :
    DecRead room arg str (numSetDecLoop room false arg str) := by
  induction str generalizing room arg with
  | nil =>
    have hnil : numSetDecLoop room false arg [] = (0, arg) := by
      cases room with
      | zero => rfl
      | succ room => rfl
    rw [hnil]
    constructor
    · exact ⟨fun _ => ⟨List.forall_mem_nil _, Nat.zero_le room, arg.toNat_lt⟩, fun _ => rfl⟩
    · exact fun _ => rfl
  | cons c str ih =>
    cases room with
    | zero => exact .refused fun h => Nat.not_succ_le_zero _ h.2.1
    | succ room =>
      rw [numSetDecLoop]
      by_cases hc : c < '0' ∨ '9' < c
      · rw [if_pos hc]
        exact .refused fun h => not_isDigitOf_ten hc (h.1 c List.mem_cons_self)
      rw [if_neg hc]
      obtain ⟨hdigit, hd⟩ := digitVal_ten hc
      obtain ⟨hflag, hvalue⟩ := numAddDigit_spec arg hd
      have hcons : digitsVal 10 (c :: str) arg.toNat =
          digitsVal 10 str (10 * arg.toNat + (c.toNat - '0'.toNat)) := by
        rw [digitsVal_cons, hdigit, Option.getD_some]
      change DecRead _ _ _ (if (numAddDigit arg (c.toNat - '0'.toNat)).2 = true then _ else
        numSetDecLoop room (numAddDigit arg (c.toNat - '0'.toNat)).2
          (numAddDigit arg (c.toNat - '0'.toNat)).1 str)
      split_ifs with hov
      · -- the digits to come make the number no smaller
        refine .refused fun h => ?_
        have hge := hflag.mp hov
        have hpow := Nat.le_mul_of_pos_right (10 * arg.toNat + (c.toNat - '0'.toNat))
          (pow_pos (by decide : 0 < 10) str.length)
        rw [hcons, digitsVal_acc] at h
        omega
      · have hov' := Bool.eq_false_iff.mpr hov
        have hstep := hvalue hov'
        rw [hov']
        obtain ⟨haccepted, hval⟩ := ih room (numAddDigit arg (c.toNat - '0'.toNat)).1
        rw [hstep, ← hcons] at haccepted hval
        constructor
        · rw [haccepted, List.forall_mem_cons, List.length_cons, Nat.succ_le_succ_iff]
          rw [and_iff_right (isDigitOf_ten hc)]
        · exact hval

/-- A decimal number of 128 bits, in 1 to 39 digits. -/
structure DecText (s : List Char) : Prop where
  length_pos : 1 ≤ s.length
  length_le : s.length ≤ 39
  digits : ∀ c ∈ s, isDigitOf 10 c = true
  value_lt : digitsVal 10 s 0 < 2 ^ 128

/-- The digits of `v`, without leading zeros. -/
structure DigitsOf (v : ℕ) (s : List Char) : Prop where
  ne_nil : s ≠ []
  digits : ∀ c ∈ s, isDigitOf 10 c = true
  value : digitsVal 10 s 0 = v
  leading : s.head? = some '0' → s = ['0']

theorem digitsOf_toDigits (n : ℕ) : DigitsOf n (Nat.toDigits 10 n) where
  ne_nil := Nat.toDigits_ne_nil
  digits c hc := isDigitOf_of_mem_toDigits (by decide) (by decide) hc
  value := digitsVal_toDigits (by decide) (by decide) n
  leading hzero := by
    by_cases hn : n = 0
    · rw [hn]
      rfl
    · exact absurd hzero (head?_toDigits (by decide) (by decide) hn)

theorem numSetDec_ok_iff (ov : Bool) (s : List Char) : (numSetDec ov s).1 = 0 ↔ DecText s := by
  rw [numSetDec]
  by_cases hs : s = []
  · rw [if_pos hs]
    constructor
    · exact fun h => absurd h one_ne_zero
    · intro h
      have hpos := h.length_pos
      rw [hs] at hpos
      exact absurd hpos (by decide)
  · rw [if_neg hs, numClearOverflow, (numSetDecLoop_read 39 numZero s).accepted, Num.toNat_numZero]
    constructor
    · exact fun ⟨hall, hlen, hlt⟩ => ⟨List.length_pos_iff.mpr hs, hlen, hall, hlt⟩
    · exact fun h => ⟨h.digits, h.length_le, h.value_lt⟩

theorem numSetDec_value {ov : Bool} {s : List Char} (h : (numSetDec ov s).1 = 0) :
    (numSetDec ov s).2.toNat = digitsVal 10 s 0 := by
  rw [numSetDec] at h ⊢
  by_cases hs : s = []
  · rw [if_pos hs] at h
    exact absurd h one_ne_zero
  · rw [if_neg hs] at h ⊢
    have hvalue := (numSetDecLoop_read 39 numZero s).value h
    rwa [Num.toNat_numZero] at hvalue

theorem numDigits_length_le (n : Num) : (Nat.toDigits 10 n.toNat).length ≤ 39 := by
  refine (Nat.length_toDigits_le_iff (by decide) (by decide)).mpr ?_
  exact n.toNat_lt.trans (by decide)

/-- What is exported in base 10 is imported. -/
theorem numSetDec_toDigits (ov : Bool) (n : Num) :
    numSetDec ov (Nat.toDigits 10 n.toNat) = (0, n) := by
  have hdigits := digitsOf_toDigits n.toNat
  have hok : (numSetDec ov (Nat.toDigits 10 n.toNat)).1 = 0 := by
    refine (numSetDec_ok_iff ov _).mpr ⟨Nat.length_toDigits_pos, numDigits_length_le n,
      hdigits.digits, ?_⟩
    rw [hdigits.value]
    exact n.toNat_lt
  refine Prod.ext hok (Num.ext_toNat ?_)
  rw [numSetDec_value hok, hdigits.value]

theorem numExport_dec (n : Num) : numExport n .dec = some (0, Nat.toDigits 10 n.toNat) := by
  rw [numExport, numExportDec_eq]
  rfl

/-- Decimal conversion is exact. -/
theorem num_decimal_exact (ov : Bool) (s : CString) (n : Num) :
    ((numImport ov .dec s.val).1 = 0 ↔ DecText s.val) ∧
      ((numImport ov .dec s.val).1 = 0 →
        (numImport ov .dec s.val).2.toNat = digitsVal 10 s.val 0) ∧
      ∃ text : List Char, numExport n .dec = some (0, text) ∧ text.length ≤ 39 ∧
        DigitsOf n.toNat text ∧ numImport ov .dec text = (0, n) := by
  refine ⟨numSetDec_ok_iff ov s.val, fun h => numSetDec_value h, Nat.toDigits 10 n.toNat, ?_⟩
  exact ⟨numExport_dec n, numDigits_length_le n, digitsOf_toDigits n.toNat,
    numSetDec_toDigits ov n⟩

/-! ## Hexadecimal numbers and bytes -/

/-- A hexadecimal number of 1 to 32 digits, of either case. -/
structure HexText (s : List Char) : Prop where
  length_pos : 1 ≤ s.length
  length_le : s.length ≤ 32
  digits : ∀ c ∈ s, isDigitOf 16 c = true

theorem numImportHex_hexText (s : List Char) : (numImportHex s).1 = 0 ↔ HexText s := by
  rw [numImportHex_ok_iff]
  constructor
  · exact fun ⟨hne, hlen, hall⟩ => ⟨List.length_pos_iff.mpr hne, hlen, hall⟩
  · exact fun h => ⟨List.length_pos_iff.mp h.length_pos, h.length_le, h.digits⟩

/-- Thirty-two digits are 128 bits. -/
theorem HexText.value {s : List Char} (h : HexText s) :
    (numImportHex s).2.toNat = digitsVal 16 s 0 := by
  have hne : s ≠ [] := List.length_pos_iff.mp h.length_pos
  have hvalue := (numSetHexLoop_digits le_rfl h.length_le (fun _ => hne) h.digits numZero).2
  have hlt : digitsVal 16 s 0 < 2 ^ 128 := by
    calc digitsVal 16 s 0 < 16 ^ s.length := digitsVal_lt h.digits
      _ ≤ 16 ^ 32 := Nat.pow_le_pow_right (by decide) h.length_le
      _ = 2 ^ 128 := by decide
  rw [Num.toNat_numZero, Nat.mod_eq_of_lt hlt] at hvalue
  exact hvalue

theorem numExportPppHex_hexText (n : Num) : HexText (numExportPppHex n) := by
  have hlen : (numExportPppHex n).length = 32 := by
    rw [numExportPppHex, length_hexBytes, (numExportBin n).length_val]
  exact ⟨by omega, by omega, fun c hc => isDigitOf_of_mem_hexBytes hc⟩

/-- The digits of the other format denote the bytes from the other end. -/
theorem toNat_numImportHex_pppHex (n : Num) :
    (numImportHex (numExportPppHex n)).2.toNat = leVal (numExportBin n).val.reverse := by
  have hreverse := digitsVal_hexBytes_reverse (numExportBin n).val.reverse
  rw [List.reverse_reverse] at hreverse
  rw [(numExportPppHex_hexText n).value]
  exact hreverse

/-! ## Import after export -/

/-- `num_import` takes back what `num_export` has made of the number. -/
def Inverts (ov : Bool) (n : Num) (t : NumStrType) : Prop :=
  ∃ buff, numExport n t = some (0, buff) ∧ numImport ov t buff = (0, n)

/-- The bytes of the number are the same from both ends. -/
def Num.Palindrome (n : Num) : Prop := (leBytes 16 n.toNat).reverse = leBytes 16 n.toNat

instance (n : Num) : Decidable n.Palindrome := inferInstanceAs (Decidable (_ = _))

theorem inverts_pppHex_iff (ov : Bool) (n : Num) : Inverts ov n .pppHex ↔ n.Palindrome := by
  have hbytes : (numExportBin n).val = leBytes 16 n.toNat :=
    congrArg Subtype.val (numExportBin_eq n)
  have hread : Inverts ov n .pppHex ↔ numImportHex (numExportPppHex n) = (0, n) := by
    constructor
    · rintro ⟨buff, hexport, himport⟩
      obtain ⟨-, rfl⟩ := Prod.mk.inj (Option.some.inj hexport)
      exact himport
    · exact fun h => ⟨_, rfl, h⟩
  have hvalue := toNat_numImportHex_pppHex n
  rw [hread, Num.Palindrome, ← hbytes]
  constructor
  · intro h
    rw [h, ← leVal_numExportBin n] at hvalue
    have hrev := leBytes_leVal (numExportBin n).val.reverse
    rw [List.length_reverse, ← hvalue, leBytes_leVal] at hrev
    exact hrev.symm
  · intro h
    refine Prod.ext ((numImportHex_hexText _).mpr (numExportPppHex_hexText n)) ?_
    refine Num.ext_toNat ?_
    rw [hvalue, h, leVal_numExportBin]

/-- Import inverts export in every format but one, and in that one for the
numbers whose bytes are a palindrome. -/
theorem num_inverse_iff (ov : Bool) (n : Num) (t : NumStrType) (s : CString) :
    (Inverts ov n t ↔ (t = .pppHex → n.Palindrome)) ∧
      ((numImport ov .hex s.val).1 = 0 ↔ HexText s.val) ∧
      ((numImport ov .hex s.val).1 = 0 →
        (numImport ov .hex s.val).2.toNat = digitsVal 16 s.val 0) := by
  refine ⟨?_, numImportHex_hexText s.val, fun h => ((numImportHex_hexText s.val).mp h).value⟩
  cases t with
  | dec =>
    refine ⟨fun _ h => (nomatch h), fun _ => ⟨_, numExport_dec n, numSetDec_toDigits ov n⟩⟩
  | hex => exact ⟨fun _ h => (nomatch h), fun _ => ⟨_, rfl, numImportHex_numExportHex n⟩⟩
  | pppHex => exact (inverts_pppHex_iff ov n).trans ⟨fun h _ => h, fun h => h rfl⟩
  | bin =>
    refine ⟨fun _ h => (nomatch h), fun _ => ⟨_, rfl, ?_⟩⟩
    exact Prod.ext rfl (numImportBin_numExportBin n)

/-- One, with its bytes printed from the low end, is read as `2 ^ 120`. -/
theorem pppHex_not_inverted :
    ¬ ∀ (ov : Bool) (n : Num) (t : NumStrType), t ≠ .dec → Inverts ov n t := by
  intro h
  have hone := (inverts_pppHex_iff false (numI 1)).mp (h false (numI 1) .pppHex (by decide))
  exact absurd hone (by decide)

end Otpasswd
