import Otpasswd.Common.NumText
import Otpasswd.Lib.Scan

/-!
# Otpasswd.Common.NumDec — decimal numbers

`num_export` and `num_import` in the decimal format: the digits are written
from the end of a small buffer, and read with the static overflow flag in
hand.

Main results: `numExportDec_eq` and `numImportDec_digits`.
-/

namespace Otpasswd

open CText

/-! ## Export -/

/-- The loop of `_num_get_str` in base 10 with `room` bytes left in front of
the digits `acc`; `none` is a write in front of the buffer. -/
def numGetDecLoop : ℕ → Num → List Char → Option (List Char)
  | 0, value, acc => if numCmpI value 0 = 0 then some acc else none
  | room + 1, value, acc =>
    if numCmpI value 0 = 0 then some acc
    else
      let (value, rest) := numDivI value 10
      numGetDecLoop room value (Nat.digitChar rest.toNat :: acc)

/-- `num_export(num, buff, NUM_FORMAT_DEC)`, by way of a buffer with room for 53
digits. -/
def numExportDec (num : Num) : Option (List Char) :=
  if numCmpI num 0 = 0 then some ['0'] else numGetDecLoop 53 num []

theorem numCmpI_zero_iff (n : Num) : numCmpI n 0 = 0 ↔ n.toNat = 0 := by
  have hzero : (0 : Word64).toNat = 0 := rfl
  simp only [numCmpI, Num.toNat, BitVec.lt_def, ne_eq, ← BitVec.toNat_inj, hzero]
  split_ifs with h1 h2
  · simp only [one_ne_zero, false_iff]
    omega
  · simp only [true_iff]
    omega
  · simp only [false_iff]
    omega

section

-- the division would be unfolded otherwise
attribute [local irreducible] numDivI

theorem numGetDecLoop_step (room : ℕ) (value : Num) (acc : List Char) :
    numGetDecLoop (room + 1) value acc = if numCmpI value 0 = 0 then some acc
      else numGetDecLoop room (numDivI value 10).1
        (Nat.digitChar (numDivI value 10).2.toNat :: acc) :=
  rfl

theorem numGetDecLoop_none (value : Num) (acc : List Char) :
    numGetDecLoop 0 value acc = if numCmpI value 0 = 0 then some acc else none :=
  rfl

end

theorem numGetDecLoop_zero {room : ℕ} {value : Num} (h : value.toNat = 0) (acc : List Char) :
    numGetDecLoop room value acc = some acc := by
  cases room with
  | zero => rw [numGetDecLoop_none, if_pos ((numCmpI_zero_iff value).mpr h)]
  | succ room => rw [numGetDecLoop_step, if_pos ((numCmpI_zero_iff value).mpr h)]

theorem numGetDecLoop_succ {room : ℕ} {value : Num} (h : value.toNat ≠ 0) (acc : List Char) :
    numGetDecLoop (room + 1) value acc = numGetDecLoop room (numDivI value 10).1
      (Nat.digitChar (numDivI value 10).2.toNat :: acc) := by
  rw [numGetDecLoop_step, if_neg (mt (numCmpI_zero_iff value).mp h)]

/-- The digits are put in front of what is there, as long as there is room. -/
theorem numGetDecLoop_eq {room : ℕ} {value : Num} (acc : List Char) (hpos : value.toNat ≠ 0)
    (hroom : value.toNat < 10 ^ room) :
    numGetDecLoop room value acc = some (Nat.toDigits 10 value.toNat ++ acc) := by
  induction room generalizing value acc with
  | zero =>
    rw [pow_zero] at hroom
    omega
  | succ room ih =>
    obtain ⟨hquot, hrest⟩ := numDivI_spec value 10 (by decide)
    have hten : (10 : Word64).toNat = 10 := rfl
    rw [hten] at hquot hrest
    rw [numGetDecLoop_succ hpos, hrest]
    by_cases hsmall : value.toNat < 10
    · have hzero : (numDivI value 10).1.toNat = 0 := by rw [hquot, Nat.div_eq_of_lt hsmall]
      rw [numGetDecLoop_zero hzero, Nat.toDigits_of_lt_base hsmall, Nat.mod_eq_of_lt hsmall]
      rfl
    · have hdiv : (numDivI value 10).1.toNat ≠ 0 := by
        rw [hquot]
        omega
      have hlt : (numDivI value 10).1.toNat < 10 ^ room := by
        rw [hquot, Nat.div_lt_iff_lt_mul (by decide), ← pow_succ]
        exact hroom
      rw [ih _ hdiv hlt, hquot, Nat.toDigits_of_base_le (n := value.toNat) (by decide) (by omega)]
      simp

/-- A number is exported as its decimal digits. -/
theorem numExportDec_eq (n : Num) : numExportDec n = some (Nat.toDigits 10 n.toNat) := by
  unfold numExportDec
  by_cases h : n.toNat = 0
  · rw [if_pos ((numCmpI_zero_iff n).mpr h), h]
    rfl
  · have hlt : n.toNat < 10 ^ 53 := n.toNat_lt.trans (by decide)
    rw [if_neg (mt (numCmpI_zero_iff n).mp h), numGetDecLoop_eq [] h hlt, List.append_nil]

/-! ## Import -/

/-- The loop of `_num_set_str` in base 10 with `room` characters to go and the
overflow flag `ov`: the return value and the number. -/
def numSetDecLoop : ℕ → Bool → Num → List Char → ℕ × Num
  | _, _, arg, [] => (0, arg)
  | 0, _, arg, _ :: _ => (1, arg)
  | room + 1, ov, arg, c :: str =>
    if c < '0' ∨ '9' < c then (1, arg)
    else
      let (arg, ov) := numMulIo ov arg 10
      let (arg, ov) := numAddO ov arg (numI (BitVec.ofNat 64 (c.toNat - '0'.toNat)))
      if ov then (1, arg) else numSetDecLoop room ov arg str

/-- `num_import(num, buff, NUM_FORMAT_DEC)`. -/
def numImportDec (buff : List Char) : ℕ × Num :=
  if buff = [] then (1, numZero) else numSetDecLoop 39 false numZero buff

theorem isDigitOf_ten {c : Char} (h : ¬ (c < '0' ∨ '9' < c)) : isDigitOf 10 c = true := by
  have hrange : '0' ≤ c ∧ c ≤ '9' := ⟨Char.not_lt.mp fun h' => h (.inl h'),
    Char.not_lt.mp fun h' => h (.inr h')⟩
  have h0 : 48 ≤ c.toNat := hrange.1
  have h9 : c.toNat ≤ 57 := hrange.2
  have hzero : '0'.toNat = 48 := rfl
  rw [isDigitOf, digitVal, if_pos hrange, hzero]
  exact decide_eq_true (by omega)

theorem numSetDecLoop_digits (room : ℕ) (ov : Bool) (arg : Num) (str : List Char)
    (h : (numSetDecLoop room ov arg str).1 = 0) :
    (∀ c ∈ str, isDigitOf 10 c = true) ∧ str.length ≤ room := by
  induction str generalizing room ov arg with
  | nil => exact ⟨List.forall_mem_nil _, Nat.zero_le room⟩
  | cons c str ih =>
    cases room with
    | zero => cases h
    | succ room =>
      rw [numSetDecLoop] at h
      by_cases hc : c < '0' ∨ '9' < c
      · rw [if_pos hc] at h
        cases h
      rw [if_neg hc] at h
      simp only at h
      split_ifs at h with hov
      · obtain ⟨hall, hlen⟩ := ih _ _ _ h
        exact ⟨List.forall_mem_cons.mpr ⟨isDigitOf_ten hc, hall⟩, Nat.succ_le_succ hlen⟩

/-- A number that is accepted is made of digits, 39 at most. -/
theorem numImportDec_digits {buff : List Char} {num : Num} (h : numImportDec buff = (0, num)) :
    Digits buff ∧ buff.length ≤ 39 := by
  rw [numImportDec] at h
  by_cases hempty : buff = []
  · rw [if_pos hempty] at h
    cases h
  rw [if_neg hempty] at h
  obtain ⟨hall, hlen⟩ := numSetDecLoop_digits 39 false numZero buff (congrArg Prod.fst h)
  exact ⟨⟨hempty, hall⟩, hlen⟩

end Otpasswd
