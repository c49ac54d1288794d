import Otpasswd.Common.Num
import Otpasswd.Lib.Bytes

/-!
# Otpasswd.Common.NumText — the stored forms of a number

`num_export` and `num_import` in the two formats the state file and the
cipher use: 32 hexadecimal digits, most significant first, and 16
little-endian bytes. Both are read back exactly.
-/

namespace Otpasswd

open CText

/-- `num_export(num, buff, NUM_FORMAT_BIN)`: the low half, then the high half,
as a little-endian machine stores them. -/
def numExportBin (num : Num) : Bytes 16 :=
  ⟨leBytes 8 num.lo.toNat ++ leBytes 8 num.hi.toNat, by simp⟩

/-- `num_import(num, buff, NUM_FORMAT_BIN)`. -/
def numImportBin (buff : List Byte) : Num :=
  { lo := BitVec.ofNat 64 (leVal (buff.take 8))
    hi := BitVec.ofNat 64 (leVal ((buff.drop 8).take 8)) }

/-- `num_export(num, buff, NUM_FORMAT_HEX)`: `%02hhX` of `bin[15]` to `bin[0]`. -/
def numExportHex (num : Num) : List Char := hexBytes (numExportBin num).val.reverse

/-- The loop of `_num_set_str` in base 16, with `i` counting down from 32: the
return code and the number, which is shifted before a digit is looked at. -/
def numSetHexLoop : ℕ → Num → List Char → ℕ × Num
  | 0, arg, str => (if str = [] then 0 else 1, arg)
  | i + 1, arg, [] => (if i + 1 = 32 then 1 else 0, arg)
  | i + 1, arg, c :: str =>
    let arg := numLshift (numLshift (numLshift (numLshift arg)))
    match digitVal c with
    | none => (1, arg)
    | some byte => numSetHexLoop i (numAdd arg (numI (BitVec.ofNat 64 byte))) str

/-- `num_import(num, buff, NUM_FORMAT_HEX)`. -/
def numImportHex (buff : List Char) : ℕ × Num := numSetHexLoop 32 numZero buff

theorem leVal_numExportBin (n : Num) : leVal (numExportBin n).val = n.toNat := by
  have h1 := n.lo.isLt
  have h2 := n.hi.isLt
  simp only [numExportBin, leVal_append, leVal_leBytes, length_leBytes, Num.toNat]
  omega

@[simp] theorem length_numExportHex (n : Num) : (numExportHex n).length = 32 := by
  simp [numExportHex]

theorem isDigitOf_of_mem_numExportHex {n : Num} {c : Char} (h : c ∈ numExportHex n) :
    isDigitOf 16 c = true :=
  isDigitOf_of_mem_hexBytes h

theorem digitsVal_numExportHex (n : Num) : digitsVal 16 (numExportHex n) 0 = n.toNat := by
  rw [numExportHex, digitsVal_hexBytes_reverse, leVal_numExportBin]

/-- The import loop on digits: four shifts and an addition multiply by 16 and
add the digit, modulo `2 ^ 128`. -/
theorem numSetHexLoop_digits {i : ℕ} {ds : List Char} (hi : i ≤ 32) (hlen : ds.length ≤ i)
    (hpos : i = 32 → ds ≠ []) (hds : ∀ c ∈ ds, isDigitOf 16 c = true) (arg : Num) :
    (numSetHexLoop i arg ds).1 = 0 ∧
      (numSetHexLoop i arg ds).2.toNat = digitsVal 16 ds arg.toNat % 2 ^ 128 := by
  induction ds generalizing i arg with
  | nil =>
    have hmod : arg.toNat % 2 ^ 128 = arg.toNat := Nat.mod_eq_of_lt arg.toNat_lt
    cases i with
    | zero => exact ⟨rfl, hmod.symm⟩
    | succ i =>
      have hi : ¬ i + 1 = 32 := fun h => hpos h rfl
      exact ⟨if_neg hi, hmod.symm⟩
  | cons c ds ih =>
    obtain ⟨i, rfl⟩ := Nat.exists_eq_succ_of_ne_zero (n := i) (by simp at hlen; omega)
    have hc := hds c (by simp)
    cases hd : digitVal c with
    | none => simp [isDigitOf, hd] at hc
    | some d =>
      have hd16 := digitVal_lt hd
      have hstep : (numAdd (numLshift (numLshift (numLshift (numLshift arg))))
          (numI (BitVec.ofNat 64 d))).toNat = (16 * arg.toNat + d) % 2 ^ 128 := by
        have hd64 : d % 2 ^ 64 = d := Nat.mod_eq_of_lt (by omega)
        simp only [Num.toNat_numAdd, Num.toNat_numLshift, Num.toNat_numI, BitVec.toNat_ofNat, hd64]
        omega
      obtain ⟨h1, h2⟩ := ih (i := i) (by omega) (by simpa using hlen) (by omega)
        (fun c h => hds c (by simp [h]))
        (numAdd (numLshift (numLshift (numLshift (numLshift arg)))) (numI (BitVec.ofNat 64 d)))
      simp only [numSetHexLoop, hd]
      refine ⟨h1, ?_⟩
      rw [h2, hstep, digitsVal_mod]
      simp [digitsVal, hd]

/-- `num_import` in base 16 accepts one to 32 digits. -/
theorem numSetHexLoop_ok {i : ℕ} {arg : Num} {s : List Char} (hi : i ≤ 32)
    (h : (numSetHexLoop i arg s).1 = 0) :
    s.length ≤ i ∧ (i = 32 → s ≠ []) ∧ ∀ c ∈ s, isDigitOf 16 c = true := by
  induction i generalizing arg s with
  | zero =>
    have hnil : s = [] := by
      by_contra hne
      rw [numSetHexLoop, if_neg hne] at h
      cases h
    subst hnil
    exact ⟨le_rfl, by simp, List.forall_mem_nil _⟩
  | succ i ih =>
    rcases s with _ | ⟨c, s⟩
    · rw [numSetHexLoop] at h
      refine ⟨Nat.zero_le _, fun h32 => ?_, List.forall_mem_nil _⟩
      rw [if_pos h32] at h
      cases h
    · rw [numSetHexLoop] at h
      rcases hd : digitVal c with _ | d
      · rw [hd] at h
        cases h
      · rw [hd] at h
        obtain ⟨hlen, -, hall⟩ := ih (by omega) h
        refine ⟨Nat.succ_le_succ hlen, by simp, List.forall_mem_cons.mpr ⟨?_, hall⟩⟩
        simp [isDigitOf, hd, digitVal_lt hd]

theorem numImportHex_ok_iff (s : List Char) :
    (numImportHex s).1 = 0 ↔ s ≠ [] ∧ s.length ≤ 32 ∧ ∀ c ∈ s, isDigitOf 16 c = true := by
  constructor
  · intro h
    obtain ⟨hlen, hne, hall⟩ := numSetHexLoop_ok le_rfl h
    exact ⟨hne rfl, hlen, hall⟩
  · rintro ⟨hne, hlen, hall⟩
    exact (numSetHexLoop_digits le_rfl hlen (fun _ => hne) hall numZero).1

/-- What `num_export` prints in base 16, `num_import` reads back. -/
theorem numImportHex_numExportHex (n : Num) : numImportHex (numExportHex n) = (0, n) := by
  have hne : numExportHex n ≠ [] := by
    intro h
    have := congrArg List.length h
    simp at this
  obtain ⟨h1, h2⟩ := numSetHexLoop_digits (i := 32) le_rfl (by simp) (fun _ => hne)
    (fun c hc => isDigitOf_of_mem_numExportHex hc) numZero
  apply Prod.ext
  · exact h1
  · apply Num.ext_toNat
    rw [numImportHex, h2, Num.toNat_numZero, digitsVal_numExportHex, Nat.mod_eq_of_lt n.toNat_lt]

theorem numImportBin_numExportBin (n : Num) : numImportBin (numExportBin n).val = n := by
  have h1 := n.lo.isLt
  have h2 := n.hi.isLt
  have hlo : (leBytes 8 n.lo.toNat).length = 8 := length_leBytes _ _
  simp only [numImportBin, numExportBin]
  rw [List.take_left' hlo, List.drop_left' hlo, List.take_of_length_le (by simp)]
  simp only [leVal_leBytes]
  rw [Nat.mod_eq_of_lt (by omega), Nat.mod_eq_of_lt (by omega)]
  simp

/-- `num_export` writes the little-endian bytes. -/
theorem numExportBin_eq (n : Num) : numExportBin n = ⟨leBytes 16 n.toNat, length_leBytes _ _⟩ := by
  apply Subtype.ext
  have h := leBytes_leVal (numExportBin n).val
  rw [leVal_numExportBin, (numExportBin n).length_val] at h
  exact h.symm

/-- `num_import` reads a little-endian value. -/
theorem toNat_numImportBin (b : Bytes 16) : (numImportBin b.val).toNat = leVal b.val := by
  have hlow : (b.val.take 8).length = 8 := by simp
  have hhigh : (b.val.drop 8).length = 8 := by simp
  have hlow' := leVal_lt (b.val.take 8)
  have hhigh' := leVal_lt (b.val.drop 8)
  have hsplit := leVal_append (b.val.take 8) (b.val.drop 8)
  rw [List.take_append_drop] at hsplit
  rw [hlow] at hlow' hsplit
  rw [hhigh] at hhigh'
  unfold numImportBin Num.toNat
  rw [List.take_of_length_le (le_of_eq hhigh), BitVec.toNat_ofNat, BitVec.toNat_ofNat, hsplit,
    Nat.mod_eq_of_lt (by omega), Nat.mod_eq_of_lt (by omega)]
  ring

end Otpasswd
