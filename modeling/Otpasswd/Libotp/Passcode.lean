import Otpasswd.Libotp.Lookup
import Otpasswd.Libotp.Ppp

/-!
# Otpasswd.Libotp.Passcode — the buffer of a passcode

`ppp_get_passcode` writes the passcode into a buffer of its caller, who looks
at the return value only. The cleanup at its end is shared by the error exits,
and one of them leaves the return value of the cipher, zero.

Main results: `pppGetPasscodeInto_eq` and `getPasscode_writes_iff`.
-/

namespace Otpasswd

open CText Prog

/-- `crypto_aes_encrypt`: the return value and the block it leaves. -/
abbrev AesEncrypt := Bytes 32 → Bytes 16 → ℕ × Bytes 16

/-- The loop of `ppp_get_passcode` with `n` characters to go, from index `i`,
and the terminating NUL. -/
def passcodeWrite (alphabet : List Char) : ℕ → ℕ → Num → List Char → List Char
  | 0, i, _, buf => buf.set i '\x00'
  | n + 1, i, cipher, buf =>
    let (quotient, r) := numDivI cipher (BitVec.ofNat 64 alphabet.length)
    passcodeWrite alphabet n (i + 1) quotient (buf.set i (alphabet.getD r.toNat '\x00'))

/-- `ppp_get_passcode` with the buffer it is given. -/
def pppGetPasscodeInto (aes : AesEncrypt) (cfg : Cfg) (s : State) (counter : Num)
    (passcode : Option (List Char)) : SysM (ℕ × Option (List Char)) := do
  Prog.assert (2 ≤ s.codeLength.toNat ∧ s.codeLength.toNat ≤ 16)
  match passcode with
  | none => return (2, none)
  | some buf =>
    let (retval, cipher) := aes s.sequenceKey (numExportBin (pppAddSalt s counter))
    if retval ≠ 0 then return (retval, some buf)
    -- the return value is still that of the cipher
    else if pppVerifyAlphabet cfg s.alphabet.toInt ≠ 0 then return (retval, some buf)
    else
      return (retval, some (passcodeWrite (pppAlphabet cfg s.alphabet.toNat) s.codeLength.toNat 0
        (numImportBin cipher.val) buf))

/-- `ppp_get_current`. -/
def pppGetCurrentInto (aes : AesEncrypt) (cfg : Cfg) (s : State) (passcode : Option (List Char)) :
    SysM (ℕ × Option (List Char)) :=
  match passcode with
  | none => return (1, none)
  | some buf => do
    let (retval, passcode) ← pppGetPasscodeInto aes cfg s s.counter (some buf)
    if retval ≠ 0 then return (2, passcode) else return (0, passcode)

/-- A call that returns zero leaves a passcode of `s` in the buffer, the same
for all that was in it before. -/
def Writes (cfg : Cfg) (s : State)
    (call : Option (List Char) → SysM (ℕ × Option (List Char))) : Prop :=
  ∀ buf buf', s.codeLength.toNat < buf.length → call (some buf) = .ret (0, some buf') →
    ∃ str rest, str.length = s.codeLength.toNat ∧
      (∀ c ∈ str, c ∈ pppAlphabet cfg s.alphabet.toNat) ∧ buf' = str ++ '\x00' :: rest ∧
      ∀ other other', s.codeLength.toNat < other.length →
        call (some other) = .ret (0, some other') → ∃ rest', other' = str ++ '\x00' :: rest'

section

variable {aes : AesEncrypt} {cfg : Cfg} {s : State} {alphabet buf : List Char} {counter : Num}

section

-- the division would be unfolded otherwise
attribute [local irreducible] numDivI

theorem passcodeChars_succ (alphabet : List Char) (n : ℕ) (cipher : Num) :
    passcodeChars alphabet (n + 1) cipher =
      alphabet.getD (numDivI cipher (BitVec.ofNat 64 alphabet.length)).2.toNat '\x00' ::
        passcodeChars alphabet n (numDivI cipher (BitVec.ofNat 64 alphabet.length)).1 :=
  rfl

theorem passcodeWrite_zero (alphabet : List Char) (i : ℕ) (cipher : Num) (buf : List Char) :
    passcodeWrite alphabet 0 i cipher buf = buf.set i '\x00' :=
  rfl

theorem passcodeWrite_succ (alphabet : List Char) (n i : ℕ) (cipher : Num) (buf : List Char) :
    passcodeWrite alphabet (n + 1) i cipher buf =
      passcodeWrite alphabet n (i + 1) (numDivI cipher (BitVec.ofNat 64 alphabet.length)).1
        (buf.set i
          (alphabet.getD (numDivI cipher (BitVec.ofNat 64 alphabet.length)).2.toNat '\x00')) :=
  rfl

end

theorem length_passcodeChars (alphabet : List Char) (n : ℕ) (cipher : Num) :
    (passcodeChars alphabet n cipher).length = n := by
  induction n generalizing cipher with
  | zero => exact congrArg List.length (rfl : passcodeChars alphabet 0 cipher = [])
  | succ n ih => rw [passcodeChars_succ, List.length_cons, ih]

/-- What the loop leaves: the part before `i`, the characters, a NUL, and the
part behind. -/
theorem passcodeWrite_eq (alphabet : List Char) (n i : ℕ) (cipher : Num) (buf : List Char)
    (h : i + n < buf.length) :
    passcodeWrite alphabet n i cipher buf =
      buf.take i ++ passcodeChars alphabet n cipher ++ '\x00' :: buf.drop (i + n + 1) := by
  induction n generalizing i cipher buf with
  | zero =>
    have hchars : passcodeChars alphabet 0 cipher = [] := rfl
    rw [Nat.add_zero] at h ⊢
    rw [passcodeWrite_zero, hchars, List.append_nil, List.set_eq_take_append_cons_drop, if_pos h]
  | succ n ih =>
    rw [passcodeWrite_succ, ih _ _ _ (by rw [List.length_set]; omega), passcodeChars_succ]
    generalize alphabet.getD _ '\x00' = c
    have htake : (buf.set i c).take (i + 1) = buf.take i ++ [c] := by
      rw [List.set_eq_take_append_cons_drop, if_pos (by omega), List.take_append,
        List.length_take_of_le (by omega), List.take_take]
      simp
    have hdrop : (buf.set i c).drop (i + 1 + n + 1) = buf.drop (i + (n + 1) + 1) := by
      rw [List.drop_set_of_lt (by omega)]
      congr 1
      omega
    rw [htake, hdrop]
    simp

/-- The characters of a passcode are of the alphabet. -/
theorem passcodeChars_mem (hne : alphabet ≠ []) {n : ℕ} {cipher : Num} {c : Char}
    (hc : c ∈ passcodeChars alphabet n cipher) : c ∈ alphabet := by
  induction n generalizing cipher with
  | zero => cases hc
  | succ n ih =>
    rw [passcodeChars_succ] at hc
    rcases List.mem_cons.mp hc with rfl | hc
    · have hpos : 0 < alphabet.length := List.length_pos_of_ne_nil hne
      have hlt : (numDivI cipher (BitVec.ofNat 64 alphabet.length)).2.toNat < alphabet.length := by
        by_cases hzero : BitVec.ofNat 64 alphabet.length = 0
        · -- the divisor wraps to zero only for an alphabet longer than any remainder
          have hmod : alphabet.length % 2 ^ 64 = 0 := by
            simpa using congrArg BitVec.toNat hzero
          have hge : 2 ^ 64 ≤ alphabet.length := Nat.le_of_dvd hpos (Nat.dvd_of_mod_eq_zero hmod)
          exact lt_of_lt_of_le (BitVec.isLt _) hge
        · rw [(numDivI_spec cipher _ hzero).2]
          refine lt_of_lt_of_le (Nat.mod_lt _ ?_) ?_
          · exact Nat.pos_of_ne_zero fun h => hzero (BitVec.eq_of_toNat_eq (by simpa using h))
          · rw [BitVec.toNat_ofNat]
            exact Nat.mod_le _ _
      rw [List.getD_eq_getElem _ _ hlt]
      exact List.getElem_mem hlt
    · exact ih hc

/-! ## The value it returns -/

/-- The cipher `ppp_get_passcode` makes of the counter. -/
def passcodeCipher (aes : AesEncrypt) (s : State) (counter : Num) : ℕ × Bytes 16 :=
  aes s.sequenceKey (numExportBin (pppAddSalt s counter))

theorem pppGetPasscodeInto_some (hlen : 2 ≤ s.codeLength.toNat ∧ s.codeLength.toNat ≤ 16)
    (hbuf : s.codeLength.toNat < buf.length) :
    pppGetPasscodeInto aes cfg s counter (some buf) =
      .ret (if (passcodeCipher aes s counter).1 ≠ 0 then
          ((passcodeCipher aes s counter).1, some buf)
        else if pppVerifyAlphabet cfg s.alphabet.toInt ≠ 0 then (0, some buf)
        else (0, some (passcodeChars (pppAlphabet cfg s.alphabet.toNat) s.codeLength.toNat
          (numImportBin (passcodeCipher aes s counter).2.val) ++
            '\x00' :: buf.drop (s.codeLength.toNat + 1)))) := by
  have hwrite := passcodeWrite_eq (pppAlphabet cfg s.alphabet.toNat) s.codeLength.toNat 0
    (numImportBin (passcodeCipher aes s counter).2.val) buf (by omega)
  rw [Nat.zero_add, List.take_zero, List.nil_append] at hwrite
  rw [pppGetPasscodeInto, assert, if_pos hlen, ret_bind]
  simp only [pure_eq_ret]
  have hcipher : aes s.sequenceKey (numExportBin (pppAddSalt s counter)) =
      passcodeCipher aes s counter := rfl
  rw [hcipher, hwrite]
  by_cases hret : (passcodeCipher aes s counter).1 = 0
  · rw [if_neg (not_not.mpr hret), if_neg (not_not.mpr hret), hret]
    split_ifs <;> rfl
  · rw [if_pos hret, if_pos hret]

/-- With a cipher that succeeds, the buffer holds what `ppp_get_passcode`
returns, where the alphabet is allowed. -/
theorem pppGetPasscodeInto_eq (crypto : Crypto)
    (hlen : 2 ≤ s.codeLength.toNat ∧ s.codeLength.toNat ≤ 16)
    (hbuf : s.codeLength.toNat < buf.length) :
    pppGetPasscodeInto (fun key block => (0, crypto.aesEncrypt key block)) cfg s counter (some buf) =
      (pppGetPasscode crypto cfg s counter >>= fun r =>
        return (r.1, some (if pppVerifyAlphabet cfg s.alphabet.toInt ≠ 0 then buf
          else r.2 ++ '\x00' :: buf.drop (s.codeLength.toNat + 1)))) := by
  rw [pppGetPasscodeInto_some hlen hbuf, pppGetPasscode, assert, if_pos hlen, ret_bind]
  rw [if_neg (by simp [passcodeCipher])]
  split_ifs
  · rfl
  · rfl

/-- When a call leaves a passcode behind each zero. -/
theorem getPasscode_writes (hlen : 2 ≤ s.codeLength.toNat ∧ s.codeLength.toNat ≤ 16)
    (call : Option (List Char) → SysM (ℕ × Option (List Char)))
    (hcall : ∀ buf buf', s.codeLength.toNat < buf.length → (call (some buf) = .ret (0, some buf') ↔
      pppGetPasscodeInto aes cfg s counter (some buf) = .ret (0, some buf'))) :
    Writes cfg s call ↔ (passcodeCipher aes s counter).1 ≠ 0 ∨
      pppVerifyAlphabet cfg s.alphabet.toInt = 0 ∧ pppAlphabet cfg s.alphabet.toNat ≠ [] := by
  set chars := passcodeChars (pppAlphabet cfg s.alphabet.toNat) s.codeLength.toNat
    (numImportBin (passcodeCipher aes s counter).2.val) with hchars
  constructor
  · intro h
    by_contra hnot
    obtain ⟨hret, hbad⟩ := not_or.mp hnot
    -- a buffer without a NUL in it
    have hlong : s.codeLength.toNat < (List.replicate (s.codeLength.toNat + 1) 'x').length := by simp
    have hsome := @pppGetPasscodeInto_some aes cfg s _ counter hlen hlong
    rw [if_neg hret] at hsome
    by_cases halph : pppVerifyAlphabet cfg s.alphabet.toInt = 0
    · rw [if_neg (not_not.mpr halph)] at hsome
      obtain ⟨str, rest, hstr, hmem, -, -⟩ := h _ _ hlong ((hcall _ _ hlong).mpr hsome)
      have hempty : pppAlphabet cfg s.alphabet.toNat = [] :=
        not_not.mp fun hne => hbad ⟨halph, hne⟩
      rcases str with _ | ⟨c, str⟩
      · simp at hstr
        omega
      · have := hmem c (by simp)
        simp [hempty] at this
    · rw [if_pos halph] at hsome
      obtain ⟨str, rest, -, -, hbuf, -⟩ := h _ _ hlong ((hcall _ _ hlong).mpr hsome)
      have hnul : '\x00' ∈ List.replicate (s.codeLength.toNat + 1) 'x' := by
        rw [hbuf]
        simp
      exact absurd (List.eq_of_mem_replicate hnul) (by decide)
  · intro h buf buf' hbuf hret
    rw [hcall _ _ hbuf, pppGetPasscodeInto_some hlen hbuf] at hret
    rcases h with hfail | ⟨halph, hne⟩
    · rw [if_pos hfail] at hret
      exact absurd (ret_pair hret).1 hfail
    have hsome {other other' : List Char} (hother : s.codeLength.toNat < other.length)
        (hret : pppGetPasscodeInto aes cfg s counter (some other) = .ret (0, some other')) :
        other' = chars ++ '\x00' :: other.drop (s.codeLength.toNat + 1) := by
      rw [pppGetPasscodeInto_some hlen hother, if_neg (not_not.mpr halph)] at hret
      split_ifs at hret with hzero
      · exact absurd (ret_pair hret).1 hzero
      · exact (Option.some.inj (ret_pair hret).2).symm
    refine ⟨chars, _, length_passcodeChars _ _ _, fun c hc => passcodeChars_mem hne hc,
      hsome hbuf ?_, fun other other' hother hret => ⟨_, hsome hother ?_⟩⟩
    · rw [pppGetPasscodeInto_some hlen hbuf]
      exact hret
    · exact (hcall _ _ hother).mp hret

/-- `ppp_get_passcode` and `ppp_get_current` leave a passcode behind each zero
they return exactly when the alphabet is allowed, or the cipher fails. -/
theorem getPasscode_writes_iff (aes : AesEncrypt) (cfg : Cfg) (s : State) (counter : Num)
    (hlen : 2 ≤ s.codeLength.toNat ∧ s.codeLength.toNat ≤ 16) :
    (Writes cfg s (pppGetPasscodeInto aes cfg s counter) ↔
      (passcodeCipher aes s counter).1 ≠ 0 ∨
        pppVerifyAlphabet cfg s.alphabet.toInt = 0 ∧ pppAlphabet cfg s.alphabet.toNat ≠ []) ∧
    (Writes cfg s (pppGetCurrentInto aes cfg s) ↔
      (passcodeCipher aes s s.counter).1 ≠ 0 ∨
        pppVerifyAlphabet cfg s.alphabet.toInt = 0 ∧ pppAlphabet cfg s.alphabet.toNat ≠ []) := by
  refine ⟨getPasscode_writes hlen _ fun _ _ _ => Iff.rfl, getPasscode_writes hlen _ fun buf buf' hbuf => ?_⟩
  simp only [pppGetCurrentInto]
  rw [pppGetPasscodeInto_some hlen hbuf, ret_bind]
  generalize (if (passcodeCipher aes s s.counter).1 ≠ 0 then
    ((passcodeCipher aes s s.counter).1, some buf) else _) = r
  obtain ⟨retval, out⟩ := r
  simp only [pure_eq_ret]
  by_cases hret : retval = 0
  · rw [if_neg (not_not.mpr hret), hret]
  · rw [if_pos hret]
    constructor
    · intro h
      cases (ret_pair h).1
    · intro h
      exact absurd (ret_pair h).1 hret

end

/-! ## An alphabet that is not allowed -/

/-- A cipher that always works. -/
def aesPlain : AesEncrypt := fun _ block => (0, block)

theorem getPasscode_writes_iff_alice :
    (Writes configRoot aliceState (pppGetPasscodeInto aesPlain configRoot aliceState (numI 3)) ↔
      (passcodeCipher aesPlain aliceState (numI 3)).1 ≠ 0 ∨
        pppVerifyAlphabet configRoot aliceState.alphabet.toInt = 0 ∧
          pppAlphabet configRoot aliceState.alphabet.toNat ≠ []) ∧
    (Writes configRoot aliceState (pppGetCurrentInto aesPlain configRoot aliceState) ↔
      (passcodeCipher aesPlain aliceState aliceState.counter).1 ≠ 0 ∨
        pppVerifyAlphabet configRoot aliceState.alphabet.toInt = 0 ∧
          pppAlphabet configRoot aliceState.alphabet.toNat ≠ []) :=
  getPasscode_writes_iff aesPlain configRoot aliceState (numI 3) (by decide +kernel)

/-- A state with an alphabet the policy does not allow any more. -/
theorem forbidden_alphabet_unwritten :
    ¬ ∀ (aes : AesEncrypt) (cfg : Cfg) (s : State) (counter : Num),
      2 ≤ s.codeLength.toNat ∧ s.codeLength.toNat ≤ 16 →
      Writes cfg s (pppGetPasscodeInto aes cfg s counter) ∧
        Writes cfg s (pppGetCurrentInto aes cfg s) := by
  intro h
  have hlen : 2 ≤ (aliceState.setAlphabet 2).codeLength.toNat ∧
      (aliceState.setAlphabet 2).codeLength.toNat ≤ 16 := by decide +kernel
  have hcall : ∃ buf', pppGetPasscodeInto aesPlain
      { configRoot with alphabetChange := configDisallow } (aliceState.setAlphabet 2) (numI 3)
        (some (List.replicate 17 'x')) = .ret (0, some buf') ∧ buf' = List.replicate 17 'x' :=
    ⟨_, rfl, rfl⟩
  obtain ⟨buf', hret, rfl⟩ := hcall
  obtain ⟨str, rest, -, -, hbuf, -⟩ :=
    (h aesPlain _ (aliceState.setAlphabet 2) (numI 3) hlen).1 _ _ (by decide +kernel) hret
  have hnul : '\x00' ∈ List.replicate 17 'x' := by
    rw [hbuf]
    simp
  exact absurd (List.eq_of_mem_replicate hnul) (by decide)

end Otpasswd
