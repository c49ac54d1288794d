import Mathlib.Data.List.TakeWhile
import Mathlib.Tactic

/-!
# Otpasswd.Lib.CText — C strings, digits and buffered lines

The parts of the C library that programs working on text files rest on:
`strsep`-style splitting, the `%u`, `%x` and `%02X` conversions of `printf`,
the unsigned conversions of `sscanf` (with sign, blanks and field width, as
the C locale has them), and `fgets`/`fputs` on a file whose calls can fail.
A C string is the list of its characters before the terminating NUL.

Main results: `scanUnsigned_toDigits` (what `%u` and `%x` write, `sscanf`
reads back), `scanHexByte_hexByte` (the same for one `%02X` byte) and
`fgets_line` (a line that fits the buffer is read whole).
-/

namespace CText

/-- The part of a buffer before its first NUL: what `strlen` measures. -/
def cstr (buff : List Char) : List Char := buff.takeWhile (· ≠ '\x00')

theorem cstr_eq_self {s : List Char} (h : '\x00' ∉ s) : cstr s = s := by
  apply List.takeWhile_eq_self_iff.mpr
  intro c hc
  exact decide_eq_true (fun h0 => h (h0 ▸ hc))

theorem nul_not_mem_cstr (buff : List Char) : '\x00' ∉ cstr buff := by
  intro h
  have := List.mem_takeWhile_imp h
  simp at this

theorem cstr_append_nul (s rest : List Char) : cstr (s ++ '\x00' :: rest) = cstr s := by
  induction s with
  | nil => rfl
  | cons c s ih =>
    unfold cstr at ih ⊢
    rw [List.cons_append, List.takeWhile_cons, List.takeWhile_cons, ih]

/-- A string is split at the first of a character. -/
theorem eq_takeWhile_append {c : Char} {s : List Char} (h : c ∈ s) :
    ∃ rest, s = s.takeWhile (· ≠ c) ++ c :: rest := by
  have happ := List.takeWhile_append_dropWhile (p := fun d => decide (d ≠ c)) (l := s)
  cases hd : s.dropWhile fun d => decide (d ≠ c) with
  | nil =>
    rw [hd, List.append_nil] at happ
    exact absurd (List.mem_takeWhile_imp (happ.symm ▸ h)) (by simp)
  | cons d rest =>
    have hhead := List.head_dropWhile_not (fun d => decide (d ≠ c)) (l := s) (by rw [hd]; simp)
    simp only [hd, List.head_cons, decide_eq_false_iff_not, not_not] at hhead
    exact ⟨rest, by rw [hd, hhead] at happ; exact happ.symm⟩

theorem nul_not_mem_nil : '\x00' ∉ ([] : List Char) := by
  simp

/-- A `char *` that is not NULL: its characters, none of which is the NUL. -/
def CString := { s : List Char // '\x00' ∉ s }

namespace CString

instance : DecidableEq CString := inferInstanceAs (DecidableEq { s : List Char // '\x00' ∉ s })

/-- The string a buffer holds. -/
def ofBuffer (buff : List Char) : CString := ⟨cstr buff, nul_not_mem_cstr buff⟩

instance : Inhabited CString := ⟨ofBuffer []⟩

@[simp] theorem nul_not_mem (s : CString) : '\x00' ∉ s.val := s.property

@[simp] theorem ofBuffer_val (buff : List Char) : (ofBuffer buff).val = cstr buff := rfl

@[simp] theorem cstr_val (s : CString) : cstr s.val = s.val := cstr_eq_self s.property

end CString

/-- A string in a `char[n]` together with its terminator. -/
def CBuf (n : ℕ) := { s : List Char // '\x00' ∉ s ∧ s.length < n }

namespace CBuf

variable {n : ℕ}

instance : DecidableEq (CBuf n) :=
  inferInstanceAs (DecidableEq { s : List Char // '\x00' ∉ s ∧ s.length < n })

@[simp] theorem nul_not_mem (s : CBuf n) : '\x00' ∉ s.val := s.property.1

theorem length_lt (s : CBuf n) : s.val.length < n := s.property.2

/-- An array of zeros. -/
def zero (n : ℕ) [NeZero n] : CBuf n := ⟨[], by simp, NeZero.pos n⟩

instance [NeZero n] : Inhabited (CBuf n) := ⟨zero n⟩

/-- `strncpy(dst, src, n - 1)` into a `char[n]` whose last byte is zero. -/
def strncpy (n : ℕ) [NeZero n] (src : List Char) : CBuf n :=
  ⟨cstr (src.take (n - 1)), nul_not_mem_cstr _, by
    have h1 : (cstr (src.take (n - 1))).length ≤ (src.take (n - 1)).length :=
      List.IsPrefix.length_le ( List.takeWhile_prefix _)
    have h2 : (src.take (n - 1)).length ≤ n - 1 := List.length_take_le _ _
    have := NeZero.pos n
    omega⟩

theorem strncpy_self [NeZero n] (s : CBuf n) : strncpy n s.val = s := by
  apply Subtype.ext
  have hlen := s.length_lt
  simp only [strncpy]
  rw [List.take_of_length_le (by omega), cstr_eq_self s.nul_not_mem]

/-- The string, when it fits. -/
def ofCString (n : ℕ) (s : CString) (h : s.val.length < n) : CBuf n := ⟨s.val, s.property, h⟩

end CBuf

/-! ## Digits -/

/-- `isspace` in the C locale. -/
def isSpace (c : Char) : Bool :=
  c = ' ' || c = '\t' || c = '\n' || c = '\x0b' || c = '\x0c' || c = '\x0d'

/-- `isascii`. -/
def isAscii (c : Char) : Bool := c.toNat < 128

/-- `isgraph` in the C locale. -/
def isGraph (c : Char) : Bool := '!' ≤ c ∧ c ≤ '~'

/-- The value of a digit, letters of either case counting from ten. -/
def digitVal (c : Char) : Option ℕ :=
  if '0' ≤ c ∧ c ≤ '9' then some (c.toNat - '0'.toNat)
  else if 'A' ≤ c ∧ c ≤ 'F' then some (10 + (c.toNat - 'A'.toNat))
  else if 'a' ≤ c ∧ c ≤ 'f' then some (10 + (c.toNat - 'a'.toNat))
  else none

def isDigitOf (base : ℕ) (c : Char) : Bool :=
  match digitVal c with
  | some v => decide (v < base)
  | none => false

/-- The number a string of digits denotes, on top of `acc`. -/
def digitsVal (base : ℕ) (ds : List Char) (acc : ℕ) : ℕ :=
  ds.foldl (fun a c => base * a + (digitVal c).getD 0) acc

theorem digitVal_digitChar {n : ℕ} (h : n < 16) : digitVal n.digitChar = some n := by
  interval_cases n <;> decide

theorem digitsVal_append (base : ℕ) (xs ys : List Char) (acc : ℕ) :
    digitsVal base (xs ++ ys) acc = digitsVal base ys (digitsVal base xs acc) := by
  simp [digitsVal]

/-- The digits of `n` denote `n`. -/
theorem digitsVal_toDigits {base : ℕ} (h1 : 1 < base) (h2 : base ≤ 16) (n : ℕ) :
    digitsVal base (Nat.toDigits base n) 0 = n := by
  induction n using Nat.strongRecOn with
  | _ n ih =>
    rcases Nat.lt_or_ge n base with hlt | hge
    · rw [Nat.toDigits_of_lt_base hlt]
      simp [digitsVal, digitVal_digitChar (hlt.trans_le h2)]
    · have hpos : 0 < n := by omega
      have hmod : n % base < 16 := (Nat.mod_lt _ (by omega)).trans_le h2
      rw [Nat.toDigits_of_base_le h1 hge, digitsVal_append, ih _ (Nat.div_lt_self hpos h1)]
      simp [digitsVal, digitVal_digitChar hmod, Nat.div_add_mod]

theorem mem_toDigits {base : ℕ} (h1 : 1 < base) (n : ℕ) :
    ∀ c ∈ Nat.toDigits base n, ∃ d < base, c = Nat.digitChar d := by
  induction n using Nat.strongRecOn with
  | _ n ih =>
    intro c hc
    rcases Nat.lt_or_ge n base with hlt | hge
    · rw [Nat.toDigits_of_lt_base hlt, List.mem_singleton] at hc
      exact ⟨n, hlt, hc⟩
    · rw [Nat.toDigits_of_base_le h1 hge, List.mem_append, List.mem_singleton] at hc
      rcases hc with hc | hc
      · exact ih _ (Nat.div_lt_self (by omega) h1) c hc
      · exact ⟨n % base, Nat.mod_lt _ (by omega), hc⟩

theorem isDigitOf_of_mem_toDigits {base : ℕ} (h1 : 1 < base) (h2 : base ≤ 16) {n : ℕ} {c : Char}
    (hc : c ∈ Nat.toDigits base n) : isDigitOf base c = true := by
  obtain ⟨d, hd, rfl⟩ := mem_toDigits h1 n c hc
  simp [isDigitOf, digitVal_digitChar (hd.trans_le h2), hd]

theorem digitVal_lt {c : Char} {d : ℕ} (h : digitVal c = some d) : d < 16 := by
  unfold digitVal at h
  simp only [Char.le_def] at h
  split_ifs at h with h1 h2 h3
  · have := h1.2
    simp only [Option.some.injEq] at h
    rw [← h]
    simp only [UInt32.le_iff_toNat_le] at this
    change c.toNat ≤ 57 at this
    change c.toNat - 48 < 16
    omega
  · have := h2.2
    simp only [Option.some.injEq] at h
    rw [← h]
    simp only [UInt32.le_iff_toNat_le] at this
    change c.toNat ≤ 70 at this
    change 10 + (c.toNat - 65) < 16
    omega
  · have := h3.2
    simp only [Option.some.injEq] at h
    rw [← h]
    simp only [UInt32.le_iff_toNat_le] at this
    change c.toNat ≤ 102 at this
    change 10 + (c.toNat - 97) < 16
    omega

theorem isDigitOf_of_digitVal {c : Char} {d : ℕ} (h : digitVal c = some d) :
    isDigitOf 16 c = true := by
  simp [isDigitOf, h, digitVal_lt h]

theorem digitsVal_cons (base : ℕ) (c : Char) (ds : List Char) (acc : ℕ) :
    digitsVal base (c :: ds) acc = digitsVal base ds (base * acc + (digitVal c).getD 0) := rfl

theorem digitsVal_acc (base : ℕ) (ds : List Char) (acc : ℕ) :
    digitsVal base ds acc = acc * base ^ ds.length + digitsVal base ds 0 := by
  induction ds generalizing acc with
  | nil => simp [digitsVal]
  | cons c ds ih =>
    rw [digitsVal_cons, digitsVal_cons, ih, ih (base * 0 + _), List.length_cons]
    ring

theorem digitsVal_lt {base : ℕ} {ds : List Char} (h : ∀ c ∈ ds, isDigitOf base c = true) :
    digitsVal base ds 0 < base ^ ds.length := by
  induction ds with
  | nil => simp [digitsVal]
  | cons c ds ih =>
    obtain ⟨hc, hds⟩ := List.forall_mem_cons.mp h
    have hlt : (digitVal c).getD 0 < base := by
      unfold isDigitOf at hc
      cases hd : digitVal c with
      | none => simp [hd] at hc
      | some d => simpa [hd] using hc
    have hih := ih hds
    rw [digitsVal_cons, digitsVal_acc, Nat.mul_zero, Nat.zero_add, List.length_cons, pow_succ']
    calc (digitVal c).getD 0 * base ^ ds.length + digitsVal base ds 0
        < (digitVal c).getD 0 * base ^ ds.length + base ^ ds.length := by omega
      _ = ((digitVal c).getD 0 + 1) * base ^ ds.length := by ring
      _ ≤ base * base ^ ds.length := Nat.mul_le_mul_right _ hlt

/-- A digit string denotes the same residue from congruent starting values. -/
theorem digitsVal_mod (base m : ℕ) (ds : List Char) (a : ℕ) :
    digitsVal base ds (a % m) % m = digitsVal base ds a % m := by
  induction ds generalizing a with
  | nil => simp [digitsVal]
  | cons c ds ih =>
    simp only [digitsVal, List.foldl_cons] at ih ⊢
    have hstep (d : ℕ) : (base * (a % m) + d) % m = (base * a + d) % m := by
      rw [Nat.add_mod, Nat.mul_mod_mod, ← Nat.add_mod]
    rw [← ih, hstep, ih]

/-- A number that is not zero has no leading zero. -/
theorem head?_toDigits {base : ℕ} (h1 : 1 < base) (h2 : base ≤ 16) {n : ℕ} (hn : n ≠ 0) :
    (Nat.toDigits base n).head? ≠ some '0' := by
  induction n using Nat.strongRecOn with
  | _ n ih =>
    rcases Nat.lt_or_ge n base with hlt | hge
    · rw [Nat.toDigits_of_lt_base hlt, List.head?_cons]
      intro hzero
      have hval := digitVal_digitChar (hlt.trans_le h2)
      rw [Option.some.inj hzero] at hval
      exact hn (Option.some.inj hval).symm
    · have hdiv : n / base ≠ 0 := (Nat.div_pos hge (by omega)).ne'
      rw [Nat.toDigits_of_base_le h1 hge, List.head?_append_of_ne_nil _ Nat.toDigits_ne_nil]
      exact ih _ (Nat.div_lt_self (by omega) h1) hdiv

/-- Digits are neither blanks, signs, separators, line ends nor NULs. -/
theorem digit_plain {base : ℕ} {c : Char} (h : isDigitOf base c = true) :
    isSpace c = false ∧ c ≠ '-' ∧ c ≠ '+' ∧ c ≠ ':' ∧ c ≠ '\n' ∧ c ≠ '\x00' ∧ c ≠ 'x' ∧ c ≠ 'X' := by
  have hv : (digitVal c).isSome := by
    unfold isDigitOf at h
    cases hd : digitVal c <;> simp_all
  have hne : ∀ b : Char, digitVal b = none → c ≠ b := by
    rintro b hb rfl
    simp [hb] at hv
  refine ⟨?_, hne _ (by decide), hne _ (by decide), hne _ (by decide), hne _ (by decide),
    hne _ (by decide), hne _ (by decide), hne _ (by decide)⟩
  simp [isSpace, hne ' ' (by decide), hne '\t' (by decide), hne '\n' (by decide),
    hne '\x0b' (by decide), hne '\x0c' (by decide), hne '\x0d' (by decide)]

/-! ## Unsigned conversions of `sscanf` -/

/-- An optional sign, and what is left of the field width after it. -/
def scanSign (width : ℕ) (s : List Char) : Bool × ℕ × List Char :=
  match s with
  | '-' :: r => (true, width - 1, r)
  | '+' :: r => (false, width - 1, r)
  | _ => (false, width, s)

/-- An optional `0x` in front of a base-16 number. -/
def scanPrefix (base width : ℕ) (s : List Char) : Bool × ℕ × List Char :=
  match s with
  | '0' :: x :: r =>
    if base = 16 ∧ 2 ≤ width ∧ (x = 'x' ∨ x = 'X') then (true, width - 2, r)
    else (false, width, s)
  | _ => (false, width, s)

/-- `sscanf(s, "%<width>u")` and `"%<width>X"` with `strtoul`'s arithmetic:
leading blanks are skipped, a sign and a `0x` count towards the width, a value
that does not fit becomes all ones. `none` is a failed conversion. -/
def scanUnsigned (base width : ℕ) (s : List Char) : Option (BitVec 64) :=
  let (neg, width, s) := scanSign width (s.dropWhile isSpace)
  let (zero, width, s) := scanPrefix base width s
  let ds := (s.take width).takeWhile (isDigitOf base)
  if ds = [] ∧ zero = false then none
  else
    let v := digitsVal base ds 0
    if 2 ^ 64 ≤ v then some (BitVec.allOnes 64)
    else if neg then some (-(BitVec.ofNat 64 v))
    else some (BitVec.ofNat 64 v)

/-- `%u` and `%x` into an `unsigned int`: the low 32 bits are stored. -/
def scanU32 (base : ℕ) (s : List Char) : Option (BitVec 32) :=
  (scanUnsigned base s.length s).map (·.setWidth 32)

theorem scanSign_digit {base width : ℕ} {d : Char} (s : List Char)
    (hd : isDigitOf base d = true) : scanSign width (d :: s) = (false, width, d :: s) := by
  obtain ⟨-, hminus, hplus, -⟩ := digit_plain hd
  unfold scanSign
  split
  · rename_i heq
    exact absurd (List.cons.inj heq).1 hminus
  · rename_i heq
    exact absurd (List.cons.inj heq).1 hplus
  · rfl

/-- No `0x` is read where the second character is a digit or past the width. -/
theorem scanPrefix_digits {base width : ℕ} {s : List Char}
    (hs : ∀ c x r, s = c :: x :: r → 2 ≤ width → isDigitOf base x = true) :
    scanPrefix base width s = (false, width, s) := by
  unfold scanPrefix
  split
  · rename_i x r
    rw [if_neg]
    rintro ⟨-, hw, hx⟩
    obtain ⟨-, -, -, -, -, -, h1, h2⟩ := digit_plain (hs '0' x r rfl hw)
    exact hx.elim h1 h2
  · rfl

/-- Digits that fill the field width, or are all there is to read, are read. -/
theorem scanUnsigned_digits {base width : ℕ} {ds rest : List Char} (hne : ds ≠ [])
    (hds : ∀ c ∈ ds, isDigitOf base c = true)
    (hw : width = ds.length ∨ rest = [] ∧ ds.length ≤ width)
    (hv : digitsVal base ds 0 < 2 ^ 64) :
    scanUnsigned base width (ds ++ rest) = some (BitVec.ofNat 64 (digitsVal base ds 0)) := by
  obtain ⟨d, ds', rfl⟩ := List.exists_cons_of_ne_nil hne
  have hd := hds d (by simp)
  obtain ⟨hsp, -⟩ := digit_plain hd
  have hdrop : (d :: ds' ++ rest).dropWhile isSpace = d :: (ds' ++ rest) := by simp [hsp]
  have htake : ((d :: (ds' ++ rest)).take width).takeWhile (isDigitOf base) = d :: ds' := by
    have hcut : (d :: (ds' ++ rest)).take width = d :: ds' := by
      rcases hw with rfl | ⟨rfl, hle⟩
      · exact @List.take_left' _ (d :: ds') _ _ rfl
      · rw [List.append_nil, List.take_of_length_le hle]
    rw [hcut]
    exact List.takeWhile_eq_self_iff.mpr hds
  have hprefix : scanPrefix base width (d :: (ds' ++ rest)) = (false, width, d :: (ds' ++ rest)) := by
    apply scanPrefix_digits
    intro c x r heq hwidth
    obtain ⟨-, htail⟩ := List.cons.inj heq
    cases ds' with
    | nil =>
      rcases hw with rfl | ⟨rfl, -⟩
      · simp at hwidth
      · simp at htail
    | cons y ys =>
      obtain ⟨rfl, -⟩ := List.cons.inj htail
      exact hds _ (by simp)
  simp only [scanUnsigned, hdrop, scanSign_digit _ hd, hprefix, htake]
  have hsmall : ¬ 2 ^ 64 ≤ digitsVal base (d :: ds') 0 := Nat.not_le.mpr hv
  simp only [List.cons_ne_nil, false_and, if_false, hsmall, Bool.false_eq_true]

/-- What `%u` (base 10) and `%x` (base 16) print is read back. -/
theorem scanUnsigned_toDigits {base : ℕ} (h1 : 1 < base) (h2 : base ≤ 16) {n : ℕ}
    (hn : n < 2 ^ 64) :
    scanUnsigned base (Nat.toDigits base n).length (Nat.toDigits base n) =
      some (BitVec.ofNat 64 n) := by
  have hval := digitsVal_toDigits h1 h2 n
  have h := @scanUnsigned_digits base _ (Nat.toDigits base n) [] Nat.toDigits_ne_nil
    (fun c hc => isDigitOf_of_mem_toDigits h1 h2 hc) (.inl rfl) (by omega)
  rwa [List.append_nil, hval] at h

theorem scanU32_toDigits {base : ℕ} (h1 : 1 < base) (h2 : base ≤ 16) (x : BitVec 32) :
    scanU32 base (Nat.toDigits base x.toNat) = some x := by
  have hx := x.isLt
  rw [scanU32, scanUnsigned_toDigits h1 h2 (by omega)]
  simp only [Option.map_some, Option.some.injEq]
  apply BitVec.eq_of_toNat_eq
  simp

/-! ## Bytes in hexadecimal -/

/-- The upper-case hexadecimal digit of `n < 16`. -/
def upperDigit (n : ℕ) : Char := Char.ofNat (if n < 10 then 48 + n else 55 + n)

/-- `%02X` of a byte. -/
def hexByte (b : BitVec 8) : List Char := [upperDigit (b.toNat / 16), upperDigit (b.toNat % 16)]

theorem digitVal_upperDigit {n : ℕ} (h : n < 16) : digitVal (upperDigit n) = some n := by
  interval_cases n <;> decide

theorem isDigitOf_upperDigit {n : ℕ} (h : n < 16) : isDigitOf 16 (upperDigit n) = true := by
  simp [isDigitOf, digitVal_upperDigit h, h]

theorem isDigitOf_of_mem_hexByte {b : BitVec 8} {c : Char} (h : c ∈ hexByte b) :
    isDigitOf 16 c = true := by
  have hb := b.isLt
  simp only [hexByte, List.mem_cons, List.not_mem_nil, or_false] at h
  rcases h with rfl | rfl
  · exact isDigitOf_upperDigit (by omega)
  · exact isDigitOf_upperDigit (by omega)

@[simp] theorem length_hexByte (b : BitVec 8) : (hexByte b).length = 2 := rfl

theorem digitsVal_hexByte (b : BitVec 8) : digitsVal 16 (hexByte b) 0 = b.toNat := by
  have hb := b.isLt
  simp only [digitsVal, hexByte, List.foldl_cons, List.foldl_nil,
    digitVal_upperDigit (show b.toNat / 16 < 16 by omega),
    digitVal_upperDigit (show b.toNat % 16 < 16 by omega), Option.getD_some]
  omega

/-- `sscanf(s, "%02X", &tmp)` into a byte. -/
def scanHexByte (s : List Char) : Option (BitVec 8) :=
  (scanUnsigned 16 2 s).map (·.setWidth 8)

/-- One `%02X` byte is read back, whatever follows it. -/
theorem scanHexByte_hexByte (b : BitVec 8) (s : List Char) :
    scanHexByte (hexByte b ++ s) = some b := by
  have hb := b.isLt
  rw [scanHexByte, scanUnsigned_digits (by simp [hexByte]) (fun c => isDigitOf_of_mem_hexByte)
    (.inl (length_hexByte b).symm) (by rw [digitsVal_hexByte]; omega), digitsVal_hexByte]
  simp

/-! ## Splitting at a separator -/

/-- `strsep(&position, delim)` for a one-character delimiter: the token and
the new position, both NULL once the string is used up. -/
def strsep (delim : Char) (position : Option (List Char)) :
    Option (List Char) × Option (List Char) :=
  match position with
  | none => (none, none)
  | some s =>
    if delim ∈ s then (some (s.takeWhile (· ≠ delim)), some ((s.dropWhile (· ≠ delim)).tail))
    else (some s, none)

theorem takeWhile_sep {delim : Char} {tok : List Char} (h : delim ∉ tok) (rest : List Char) :
    (tok ++ delim :: rest).takeWhile (· ≠ delim) = tok := by
  have hall : ∀ c ∈ tok, decide (c ≠ delim) = true :=
    fun c hc => decide_eq_true (fun h0 => h (h0 ▸ hc))
  rw [List.takeWhile_append_of_pos hall]
  simp

theorem dropWhile_sep {delim : Char} {tok : List Char} (h : delim ∉ tok) (rest : List Char) :
    (tok ++ delim :: rest).dropWhile (· ≠ delim) = delim :: rest := by
  have hall : ∀ c ∈ tok, decide (c ≠ delim) = true :=
    fun c hc => decide_eq_true (fun h0 => h (h0 ▸ hc))
  rw [List.dropWhile_append_of_pos hall]
  simp

theorem strsep_cons {delim : Char} {tok : List Char} (h : delim ∉ tok) (rest : List Char) :
    strsep delim (some (tok ++ delim :: rest)) = (some tok, some rest) := by
  simp only [strsep, takeWhile_sep h, dropWhile_sep h]
  simp

theorem strsep_last {delim : Char} {tok : List Char} (h : delim ∉ tok) :
    strsep delim (some tok) = (some tok, none) := by
  simp [strsep, h]

/-- Tokens with a separator between them. -/
def joinSep (delim : Char) : List (List Char) → List Char
  | [] => []
  | [tok] => tok
  | tok :: toks => tok ++ delim :: joinSep delim toks

theorem joinSep_cons_cons (delim : Char) (t1 t2 : List Char) (ts : List (List Char)) :
    joinSep delim (t1 :: t2 :: ts) = t1 ++ delim :: joinSep delim (t2 :: ts) := rfl

/-- Joining adds one separator between any two tokens. -/
theorem length_joinSep (delim : Char) (toks : List (List Char)) :
    (joinSep delim toks).length = (toks.map List.length).sum + (toks.length - 1) := by
  induction toks with
  | nil => rfl
  | cons t ts ih =>
    cases ts with
    | nil => simp [joinSep]
    | cons t2 ts =>
      rw [joinSep_cons_cons, List.length_append, List.length_cons, ih]
      simp
      omega

theorem mem_joinSep {delim c : Char} {toks : List (List Char)} (h : c ∈ joinSep delim toks) :
    c = delim ∨ ∃ t ∈ toks, c ∈ t := by
  induction toks with
  | nil => simp [joinSep] at h
  | cons t ts ih =>
    cases ts with
    | nil => exact .inr ⟨t, by simp, by simpa [joinSep] using h⟩
    | cons t2 ts =>
      rw [joinSep_cons_cons, List.mem_append, List.mem_cons] at h
      rcases h with h | rfl | h
      · exact .inr ⟨t, by simp, h⟩
      · exact .inl rfl
      · rcases ih h with rfl | ⟨t', ht', hc⟩
        · exact .inl rfl
        · exact .inr ⟨t', by simp only [List.mem_cons] at ht' ⊢; tauto, hc⟩

theorem joinSep_cons_concat (delim : Char) (t : List Char) (toks : List (List Char)) (x : List Char) :
    joinSep delim (t :: (toks ++ [x])) = t ++ delim :: joinSep delim (toks ++ [x]) := by
  cases toks with
  | nil => rfl
  | cons t2 toks => rfl

theorem joinSep_concat_append (delim : Char) (toks : List (List Char)) (tok rest : List Char) :
    joinSep delim (toks ++ [tok ++ rest]) = joinSep delim (toks ++ [tok]) ++ rest := by
  induction toks with
  | nil => rfl
  | cons t toks ih =>
    rw [List.cons_append, List.cons_append, joinSep_cons_concat, joinSep_cons_concat, ih,
      List.append_assoc, List.cons_append]

theorem joinSep_concat_two (delim : Char) (toks : List (List Char)) (a b : List Char) :
    joinSep delim (toks ++ [a, b]) = joinSep delim (toks ++ [a ++ delim :: b]) := by
  induction toks with
  | nil => rfl
  | cons t toks ih =>
    have hab : toks ++ [a, b] = toks ++ [a] ++ [b] := by simp
    rw [List.cons_append, List.cons_append, joinSep_cons_concat, hab, joinSep_cons_concat, ← hab, ih]

theorem mem_joinSep_of_mem {delim c : Char} {toks : List (List Char)} {t : List Char}
    (ht : t ∈ toks) (hc : c ∈ t) : c ∈ joinSep delim toks := by
  induction toks with
  | nil => cases ht
  | cons t1 toks ih =>
    cases toks with
    | nil =>
      obtain rfl := List.mem_singleton.mp ht
      exact hc
    | cons t2 toks =>
      rw [joinSep_cons_cons]
      rcases List.mem_cons.mp ht with rfl | ht
      · exact List.mem_append_left _ hc
      · exact List.mem_append_right _ (List.mem_cons_of_mem _ (ih ht))

/-- Tokens without the separator are determined by their text. -/
theorem joinSep_inj {delim : Char} {toks toks' : List (List Char)} (hlen : toks.length = toks'.length)
    (h : ∀ t ∈ toks, delim ∉ t) (h' : ∀ t ∈ toks', delim ∉ t)
    (heq : joinSep delim toks = joinSep delim toks') : toks = toks' := by
  induction toks generalizing toks' with
  | nil => exact (List.length_eq_zero_iff.mp hlen.symm).symm
  | cons t toks ih =>
    rcases toks' with _ | ⟨t', toks'⟩
    · cases hlen
    obtain ⟨ht, htoks⟩ := List.forall_mem_cons.mp h
    obtain ⟨ht', htoks'⟩ := List.forall_mem_cons.mp h'
    have hlen' : toks.length = toks'.length := Nat.succ.inj hlen
    rcases toks with _ | ⟨t2, toks⟩
    · obtain rfl := List.length_eq_zero_iff.mp hlen'.symm
      exact congrArg (fun tok => [tok]) heq
    · rcases toks' with _ | ⟨t2', toks'⟩
      · cases hlen'
      rw [joinSep_cons_cons, joinSep_cons_cons] at heq
      have htok := congrArg (List.takeWhile fun c => decide (c ≠ delim)) heq
      rw [takeWhile_sep ht, takeWhile_sep ht'] at htok
      obtain rfl := htok
      rw [ih hlen' htoks htoks' (List.cons.inj (List.append_cancel_left heq)).2]

/-! ## Buffered files -/

/-- An open input file: what is still to be read, the end-of-file flag, and
after how many further `fgets` calls a read error occurs, if one does. -/
structure InFile where
  rest : List Char
  eof : Bool
  fault : Option ℕ
deriving DecidableEq, Repr

/-- The longest prefix that ends with a newline or has `n` characters. -/
def lineSplit : ℕ → List Char → List Char × List Char
  | 0, s => ([], s)
  | _ + 1, [] => ([], [])
  | n + 1, c :: s =>
    if c = '\n' then ([c], s)
    else ((c :: (lineSplit n s).1), (lineSplit n s).2)

/-- `fgets` into a buffer of `size` bytes. `none` is NULL: a read error, or
the end of the file with nothing read. -/
def fgets (size : ℕ) (f : InFile) : Option (List Char) × InFile :=
  if f.fault = some 0 then (none, f)
  else
    let (line, rest) := lineSplit (size - 1) f.rest
    if line = [] then (none, { f with eof := true })
    else
      (some line,
        { rest := rest
          -- the end is noticed only by reading past the last character
          eof := f.eof || decide (line.getLast? ≠ some '\n' ∧ line.length < size - 1)
          fault := f.fault.map (· - 1) })

theorem lineSplit_append (n : ℕ) (s : List Char) : (lineSplit n s).1 ++ (lineSplit n s).2 = s := by
  induction n, s using lineSplit.induct with
  | case1 s => rfl
  | case2 n => rfl
  | case3 n s => simp [lineSplit]
  | case4 n c s hc ih => simp [lineSplit, hc, ih]

theorem lineSplit_length_le (n : ℕ) (s : List Char) : (lineSplit n s).1.length ≤ n := by
  induction n, s using lineSplit.induct with
  | case1 s => simp [lineSplit]
  | case2 n => simp [lineSplit]
  | case3 n s => simp [lineSplit]
  | case4 n c s hc ih => simpa [lineSplit, hc] using ih

/-- A line that fits is split off whole. -/
theorem lineSplit_line {n : ℕ} {l : List Char} (hl : '\n' ∉ l) (hn : l.length < n)
    (s : List Char) : lineSplit n (l ++ '\n' :: s) = (l ++ ['\n'], s) := by
  induction l generalizing n with
  | nil =>
    obtain ⟨n, rfl⟩ := Nat.exists_eq_succ_of_ne_zero (by omega : n ≠ 0)
    simp [lineSplit]
  | cons c l ih =>
    obtain ⟨n, rfl⟩ := Nat.exists_eq_succ_of_ne_zero (by omega : n ≠ 0)
    simp only [List.mem_cons, not_or] at hl
    simp only [List.length_cons, Nat.succ_eq_add_one, Nat.add_lt_add_iff_right] at hn
    simp [lineSplit, Ne.symm hl.1, ih hl.2 hn]

/-- What does not end in a newline holds none. -/
theorem lineSplit_no_newline (n : ℕ) (s : List Char)
    (h : (lineSplit n s).1.getLast? ≠ some '\n') : '\n' ∉ (lineSplit n s).1 := by
  induction n, s using lineSplit.induct with
  | case1 s => simp [lineSplit]
  | case2 n => simp [lineSplit]
  | case3 n s => simp [lineSplit] at h
  | case4 n c s hc ih =>
    simp only [lineSplit, hc, if_false] at h ⊢
    simp only [List.mem_cons, not_or]
    refine ⟨Ne.symm hc, ?_⟩
    rcases hl : (lineSplit n s).1 with _ | ⟨d, l⟩
    · simp
    · rw [hl] at ih h
      exact ih (by simpa using h)

/-- What does end in a newline is a line and its newline. -/
theorem lineSplit_newline (n : ℕ) (s : List Char)
    (h : (lineSplit n s).1.getLast? = some '\n') :
    ∃ l, '\n' ∉ l ∧ (lineSplit n s).1 = l ++ ['\n'] := by
  induction n, s using lineSplit.induct with
  | case1 s => simp [lineSplit] at h
  | case2 n => simp [lineSplit] at h
  | case3 n s => exact ⟨[], by simp, by simp [lineSplit]⟩
  | case4 n c s hc ih =>
    simp only [lineSplit, hc, if_false] at h ⊢
    rcases hl : (lineSplit n s).1 with _ | ⟨d, l⟩
    · rw [hl] at h
      simp [hc] at h
    · rw [hl] at ih h
      obtain ⟨l', hn, hl'⟩ := ih (by simpa using h)
      refine ⟨c :: l', ?_, by simp [hl']⟩
      simp [hn, Ne.symm hc]

/-- A whole line is read by one call. -/
theorem fgets_line {size : ℕ} {f : InFile} {l s : List Char} (hf : f.fault ≠ some 0)
    (hl : '\n' ∉ l) (hn : l.length + 1 < size) (hrest : f.rest = l ++ '\n' :: s) :
    fgets size f = (some (l ++ ['\n']), ⟨s, f.eof, f.fault.map (· - 1)⟩) := by
  simp [fgets, hf, hrest, lineSplit_line hl (show l.length < size - 1 by omega)]

/-- An open output file: what has been written, and after how many further
`fputs` calls a write error occurs, if one does. -/
structure OutFile where
  text : List Char
  fault : Option ℕ
deriving DecidableEq, Repr

/-- `fputs`: whether it succeeded, and the file after it. -/
def fputs (s : List Char) (f : OutFile) : Bool × OutFile :=
  if f.fault = some 0 then (false, f)
  else (true, { text := f.text ++ s, fault := f.fault.map (· - 1) })

end CText
