import Otpasswd.Lib.CText

/-!
# Otpasswd.Lib.Bytes — byte arrays

Arrays of a fixed number of bytes carry their length (`Bytes n`), so that a
key or a hash of the wrong size cannot be built. The file has the two codecs
programs store numbers and binary data with: little-endian words (`leBytes`,
`leVal`) and strings of two hexadecimal digits a byte (`hexBytes`, `unhex`).
-/

abbrev Byte := BitVec 8

/-- `unsigned char a[n]`. -/
def Bytes (n : ℕ) := { l : List Byte // l.length = n }

namespace Bytes

variable {n : ℕ}

instance : DecidableEq (Bytes n) := inferInstanceAs (DecidableEq { l : List Byte // l.length = n })

instance : Repr (Bytes n) := ⟨fun b p => reprPrec b.val p⟩

/-- `memset(a, 0, n)`. -/
def zero (n : ℕ) : Bytes n := ⟨List.replicate n 0, List.length_replicate⟩

instance : Inhabited (Bytes n) := ⟨zero n⟩

@[simp] theorem length_val (b : Bytes n) : b.val.length = n := b.property

/-- The array a list fills, cut or padded with zeros to `n` bytes. -/
def ofList (n : ℕ) (l : List Byte) : Bytes n :=
  ⟨(l ++ List.replicate n 0).take n, by simp⟩

theorem val_ofList {bytes : List Byte} (h : bytes.length = n) : (ofList n bytes).val = bytes :=
  List.take_left' h

theorem ofList_val (b : Bytes n) : ofList n b.val = b := by
  apply Subtype.ext
  exact List.take_left' b.property

/-- An array with its bytes replaced by as many others. -/
def update (b : Bytes n) (f : List Byte → Bool × List Byte)
    (hf : ∀ l, (f l).2.length = l.length) : Bytes n :=
  ⟨(f b.val).2, by rw [hf, b.length_val]⟩

end Bytes

/-! ## Little-endian words -/

/-- The `k` low bytes of `x`, least significant first. -/
def leBytes : ℕ → ℕ → List Byte
  | 0, _ => []
  | k + 1, x => BitVec.ofNat 8 x :: leBytes k (x / 256)

/-- The number a little-endian string of bytes stands for. -/
def leVal : List Byte → ℕ
  | [] => 0
  | b :: bs => b.toNat + 256 * leVal bs

@[simp] theorem length_leBytes (k x : ℕ) : (leBytes k x).length = k := by
  induction k generalizing x with
  | zero => rfl
  | succ k ih => simp [leBytes, ih]

theorem leVal_lt (bs : List Byte) : leVal bs < 256 ^ bs.length := by
  induction bs with
  | nil => simp [leVal]
  | cons b bs ih =>
    have hb := b.isLt
    simp only [leVal, List.length_cons, pow_succ]
    omega

theorem leVal_leBytes (k x : ℕ) : leVal (leBytes k x) = x % 256 ^ k := by
  induction k generalizing x with
  | zero => simp [leBytes, leVal, Nat.mod_one]
  | succ k ih =>
    rw [leBytes, leVal, ih, pow_succ', Nat.mod_mul]
    simp

theorem leVal_append (xs ys : List Byte) :
    leVal (xs ++ ys) = leVal xs + 256 ^ xs.length * leVal ys := by
  induction xs with
  | nil => simp [leVal]
  | cons x xs ih =>
    simp only [List.cons_append, leVal, ih, List.length_cons, pow_succ]
    ring

theorem leBytes_leVal (bs : List Byte) : leBytes bs.length (leVal bs) = bs := by
  induction bs with
  | nil => rfl
  | cons b bs ih =>
    have hb := b.isLt
    have hdiv : (b.toNat + 256 * leVal bs) / 256 = leVal bs := by omega
    have hlow : BitVec.ofNat 8 (b.toNat + 256 * leVal bs) = b := by
      apply BitVec.eq_of_toNat_eq
      simp only [BitVec.toNat_ofNat]
      omega
    rw [List.length_cons, leVal, leBytes, hdiv, ih, hlow]

/-! ## Hexadecimal strings -/

open CText

/-- `%02X` of every byte. -/
def hexBytes (bs : List Byte) : List Char := bs.flatMap hexByte

@[simp] theorem hexBytes_nil : hexBytes [] = [] := rfl

@[simp] theorem hexBytes_cons (b : Byte) (bs : List Byte) :
    hexBytes (b :: bs) = hexByte b ++ hexBytes bs := rfl

@[simp] theorem length_hexBytes (bs : List Byte) : (hexBytes bs).length = 2 * bs.length := by
  induction bs with
  | nil => rfl
  | cons b bs ih =>
    simp [ih]
    omega

theorem isDigitOf_of_mem_hexBytes {bs : List Byte} {c : Char} (h : c ∈ hexBytes bs) :
    isDigitOf 16 c = true := by
  obtain ⟨b, -, hc⟩ := List.mem_flatMap.mp h
  exact isDigitOf_of_mem_hexByte hc

/-- Bytes printed most significant first denote their little-endian value. -/
theorem digitsVal_hexBytes_reverse (bs : List Byte) :
    digitsVal 16 (hexBytes bs.reverse) 0 = leVal bs := by
  induction bs with
  | nil => rfl
  | cons b bs ih =>
    have happ : hexBytes (bs.reverse ++ [b]) = hexBytes bs.reverse ++ hexByte b := by
      simp [hexBytes]
    have hb := b.isLt
    rw [List.reverse_cons, happ, digitsVal_append, ih]
    simp only [digitsVal, hexByte, List.foldl_cons, List.foldl_nil,
      digitVal_upperDigit (show b.toNat / 16 < 16 by omega),
      digitVal_upperDigit (show b.toNat % 16 < 16 by omega), Option.getD_some, leVal]
    omega

/-- Fill an array from a string of hexadecimal digits; on a character that is
no digit, or a string that is too short, the rest of the array keeps its old
bytes and the result is `false`. -/
def unhex : List Byte → List Char → Bool × List Byte
  | [], _ => (true, [])
  | b :: bs, c1 :: c2 :: s =>
    match digitVal c1, digitVal c2 with
    | some d1, some d2 => ((unhex bs s).1, BitVec.ofNat 8 (16 * d1 + d2) :: (unhex bs s).2)
    | _, _ => (false, b :: bs)
  | bs, _ => (false, bs)

theorem unhex_bad {c1 c2 : Char}
    (h : ∀ d1 d2, digitVal c1 = some d1 → digitVal c2 = some d2 → False) {b : Byte}
    {bs : List Byte} {s : List Char} : unhex (b :: bs) (c1 :: c2 :: s) = (false, b :: bs) := by
  rcases h1 : digitVal c1 with _ | d1
  · simp [unhex, h1]
  rcases h2 : digitVal c2 with _ | d2
  · simp [unhex, h1, h2]
  · exact (h d1 d2 h1 h2).elim

@[simp] theorem length_unhex (old : List Byte) (s : List Char) :
    (unhex old s).2.length = old.length := by
  induction old, s using unhex.induct with
  | case1 s => rfl
  | case2 b bs c1 c2 s d1 d2 h1 h2 ih => simp [unhex, h1, h2, ih]
  | case3 b bs c1 c2 s h => rw [unhex_bad h]
  | case4 bs s h1 h2 =>
    unfold unhex
    split
    · rfl
    · exact (h2 _ _ _ _ _ rfl rfl).elim
    · rfl

theorem unhex_hexBytes (old bs : List Byte) (h : old.length = bs.length) :
    unhex old (hexBytes bs) = (true, bs) := by
  induction bs generalizing old with
  | nil =>
    rw [List.length_nil, List.length_eq_zero_iff] at h
    simp [h, unhex]
  | cons b bs ih =>
    obtain ⟨o, old, rfl⟩ := List.exists_cons_of_length_eq_add_one h
    have hb := b.isLt
    have hbyte : BitVec.ofNat 8 (16 * (b.toNat / 16) + b.toNat % 16) = b := by
      apply BitVec.eq_of_toNat_eq
      simp only [BitVec.toNat_ofNat]
      omega
    simp only [List.length_cons, Nat.add_right_cancel_iff] at h
    simp only [hexBytes_cons, hexByte, List.cons_append, List.nil_append, unhex,
      digitVal_upperDigit (show b.toNat / 16 < 16 by omega),
      digitVal_upperDigit (show b.toNat % 16 < 16 by omega), ih old h, hbyte]
