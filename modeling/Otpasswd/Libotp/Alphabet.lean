import Otpasswd.Libotp.Passcode
import Mathlib.Data.Nat.ModEq

/-!
# Otpasswd.Libotp.Alphabet — passcodes as numbers in the base of an alphabet

A passcode lists the digits of the encrypted counter, lowest first, in the
base of the alphabet's length. No alphabet that is accepted has a character
twice, so the passcode determines the digits.

Main results: `alphabetCheck_eq_zero` and `pppGetPasscode_digits`.
-/

namespace Otpasswd

open CText Prog

/-! ## Alphabets without duplicates -/

/-- The loop of `_alphabet_check`, with the characters counted before. -/
def alphabetCheckLoop (count : List Char) : List Char → ℕ
  | [] => 0
  | c :: alphabet =>
    if isAscii c = false then 1
    else if isGraph c = false then 1
    else if c ∈ count then 1
    else alphabetCheckLoop (c :: count) alphabet

/-- `_alphabet_check`. -/
def alphabetCheck (alphabet : List Char) : ℕ := alphabetCheckLoop [] alphabet

theorem alphabetCheckLoop_eq_zero (count alphabet : List Char) :
    alphabetCheckLoop count alphabet = 0 ↔
      (∀ c ∈ alphabet, isAscii c = true ∧ isGraph c = true ∧ c ∉ count) ∧ alphabet.Nodup := by
  induction alphabet generalizing count with
  | nil => simp [alphabetCheckLoop]
  | cons c alphabet ih =>
    unfold alphabetCheckLoop
    by_cases hascii : isAscii c = true
    · by_cases hgraph : isGraph c = true
      · by_cases hcount : c ∈ count
        · simp [hascii, hgraph, hcount]
        · rw [if_neg (by simp [hascii]), if_neg (by simp [hgraph]), if_neg hcount, ih]
          simp only [List.mem_cons, List.nodup_cons, forall_eq_or_imp]
          constructor
          · rintro ⟨h, hnodup⟩
            refine ⟨⟨⟨hascii, hgraph, hcount⟩, fun d hd => ?_⟩, ?_, hnodup⟩
            · obtain ⟨h1, h2, h3⟩ := h d hd
              exact ⟨h1, h2, fun hmem => h3 (Or.inr hmem)⟩
            · intro hmem
              exact (h c hmem).2.2 (Or.inl rfl)
          · rintro ⟨⟨-, h⟩, hc, hnodup⟩
            refine ⟨fun d hd => ?_, hnodup⟩
            obtain ⟨h1, h2, h3⟩ := h d hd
            refine ⟨h1, h2, ?_⟩
            rintro (rfl | hmem)
            · exact hc hd
            · exact h3 hmem
      · simp [hascii, hgraph]
    · simp [hascii]

/-- What `_alphabet_check` accepts. -/
theorem alphabetCheck_eq_zero (alphabet : List Char) :
    alphabetCheck alphabet = 0 ↔
      (∀ c ∈ alphabet, isAscii c = true ∧ isGraph c = true) ∧ alphabet.Nodup := by
  rw [alphabetCheck, alphabetCheckLoop_eq_zero]
  simp

/-- An alphabet that is accepted is short. -/
theorem length_of_alphabetCheck {alphabet : List Char} (h : alphabetCheck alphabet = 0) :
    alphabet.length ≤ 128 := by
  obtain ⟨hchars, hnodup⟩ := (alphabetCheck_eq_zero alphabet).mp h
  have hinj : Function.Injective Char.toNat := fun a b hab =>
    Char.ext (UInt32.toNat_inj.mp hab)
  have hsub : alphabet.map Char.toNat ⊆ List.range 128 := by
    intro n hn
    obtain ⟨c, hc, rfl⟩ := List.mem_map.mp hn
    exact List.mem_range.mpr (by simpa [isAscii] using (hchars c hc).1)
  have hle := ((hnodup.map hinj).subperm hsub).length_le
  rwa [List.length_map, List.length_range] at hle

/-- The alphabets pass `_alphabet_check`. -/
theorem alphabetCheck_pppAlphabet {cfg : Cfg} {id : ℕ}
    (hcustom : id = 0 → alphabetCheck cfg.alphabetCustom = 0) :
    alphabetCheck (pppAlphabet cfg id) = 0 := by
  unfold pppAlphabet
  split
  · exact hcustom rfl
  all_goals decide +kernel

/-- What `ppp_verify_alphabet` accepts: an alphabet that exists, of an allowed
length. -/
theorem pppVerifyAlphabet_eq_zero {cfg : Cfg} {id : ℤ} (h : pppVerifyAlphabet cfg id = 0) :
    (0 ≤ id ∧ id < pppAlphabetCount) ∧
      cfg.alphabetMinLength ≤ (pppAlphabet cfg id.toNat).length ∧
      (pppAlphabet cfg id.toNat).length ≤ cfg.alphabetMaxLength := by
  unfold pppVerifyAlphabet at h
  split_ifs at h with hrange hdeny
  simp only [ite_eq_right_iff, not_or, not_lt, not_le] at h hrange
  have hlen := not_or.mp fun hlen => absurd (h hlen) (by decide)
  exact ⟨hrange, not_lt.mp hlen.1, not_lt.mp hlen.2⟩

/-! ## Digits -/

/-- Numbers agree on their first digits exactly when they are congruent. -/
theorem digits_eq_iff_modEq (base k a b : ℕ) :
    (∀ i < k, a / base ^ i % base = b / base ^ i % base) ↔ a ≡ b [MOD base ^ k] := by
  induction k with
  | zero => simp [Nat.ModEq, Nat.mod_one]
  | succ k ih =>
    have hsplit : (∀ i < k + 1, a / base ^ i % base = b / base ^ i % base) ↔
        (∀ i < k, a / base ^ i % base = b / base ^ i % base) ∧
          a / base ^ k % base = b / base ^ k % base := by
      constructor
      · intro h
        exact ⟨fun i hi => h i (by omega), h k (by omega)⟩
      · rintro ⟨h, hk⟩ i hi
        rcases Nat.lt_succ_iff_lt_or_eq.mp hi with hi | rfl
        · exact h i hi
        · exact hk
    rw [hsplit, ih]
    unfold Nat.ModEq
    rw [Nat.mod_pow_succ, Nat.mod_pow_succ]
    constructor
    · rintro ⟨hlow, hdigit⟩
      rw [hlow, hdigit]
    · intro h
      rcases Nat.eq_zero_or_pos (base ^ k) with hzero | hpos
      · rw [hzero] at h ⊢
        simp_all
      · have hlow : a % base ^ k = b % base ^ k := by
          have := congrArg (· % base ^ k) h
          simpa [Nat.add_mul_mod_self_left] using this
        rw [hlow] at h
        exact ⟨hlow, Nat.eq_of_mul_eq_mul_left hpos (Nat.add_left_cancel h)⟩

/-! ## Passcodes -/

section

variable {crypto : Crypto} {cfg : Cfg} {s : State} {alphabet : List Char} {counter : Num}

/-- The little-endian value of the encryption of a salted counter, which is
encrypted as sixteen little-endian bytes. -/
def cipherValue (crypto : Crypto) (s : State) (counter : Num) : ℕ :=
  leVal (crypto.aesEncrypt s.sequenceKey
    ⟨leBytes 16 (pppAddSalt s counter).toNat, length_leBytes _ _⟩).val

/-- The division selects the digits in the base of the alphabet's length. -/
theorem passcodeChars_get (hne : alphabet ≠ []) (hsmall : alphabet.length < 2 ^ 64) (n : ℕ)
    (cipher : Num) {i : ℕ} (hi : i < n) :
    (passcodeChars alphabet n cipher)[i]? =
      alphabet[cipher.toNat / alphabet.length ^ i % alphabet.length]? := by
  have hpos : 0 < alphabet.length := List.length_pos_of_ne_nil hne
  have hd : (BitVec.ofNat 64 alphabet.length).toNat = alphabet.length := by
    rw [BitVec.toNat_ofNat, Nat.mod_eq_of_lt hsmall]
  have hd0 : BitVec.ofNat 64 alphabet.length ≠ 0 := by
    intro hzero
    rw [hzero] at hd
    exact absurd hd (ne_of_lt hpos)
  induction n generalizing cipher i with
  | zero => exact absurd hi (Nat.not_lt_zero i)
  | succ n ih =>
    obtain ⟨hq, hr⟩ := numDivI_spec cipher _ hd0
    rw [hd] at hq hr
    rw [passcodeChars_succ]
    cases i with
    | zero =>
      have hlt : cipher.toNat % alphabet.length < alphabet.length := Nat.mod_lt _ hpos
      rw [hr, List.getElem?_cons_zero, List.getD_eq_getElem _ _ hlt, pow_zero, Nat.div_one,
        List.getElem?_eq_getElem hlt]
    | succ i =>
      rw [List.getElem?_cons_succ, ih _ (by omega), hq, Nat.div_div_eq_div_mul, pow_succ']

/-- The digits of a passcode without duplicates in the alphabet are determined. -/
theorem passcodeChars_inj (hne : alphabet ≠ []) (hsmall : alphabet.length < 2 ^ 64)
    (hnodup : alphabet.Nodup) (n : ℕ) (cipher cipher' : Num) :
    passcodeChars alphabet n cipher = passcodeChars alphabet n cipher' ↔
      cipher.toNat ≡ cipher'.toNat [MOD alphabet.length ^ n] := by
  have hpos : 0 < alphabet.length := List.length_pos_of_ne_nil hne
  rw [← digits_eq_iff_modEq]
  constructor
  · intro h i hi
    have hget := passcodeChars_get hne hsmall n cipher hi
    rw [h, passcodeChars_get hne hsmall n cipher' hi] at hget
    exact (List.getElem?_inj (Nat.mod_lt _ hpos) hnodup).mp hget.symm
  · intro h
    apply List.ext_getElem?
    intro i
    by_cases hi : i < n
    · rw [passcodeChars_get hne hsmall n cipher hi, passcodeChars_get hne hsmall n cipher' hi,
        h i hi]
    · rw [List.getElem?_eq_none (by rw [length_passcodeChars]; omega),
        List.getElem?_eq_none (by rw [length_passcodeChars]; omega)]

/-- A passcode is the expansion of the encrypted counter in the base of the
alphabet's length, and nothing of it modulo its power is lost. -/
theorem pppGetPasscode_digits (crypto : Crypto) (cfg : Cfg) (s : State)
    (hmin : 5 ≤ cfg.alphabetMinLength)
    (hcustom : s.alphabet = 0 → alphabetCheck cfg.alphabetCustom = 0)
    (halphabet : pppVerifyAlphabet cfg s.alphabet.toInt = 0)
    (hlen : 2 ≤ s.codeLength.toNat ∧ s.codeLength.toNat ≤ 16) :
    ∃ passcode : Num → List Char,
      (∀ counter, pppGetPasscode crypto cfg s counter = .ret (0, passcode counter)) ∧
      (∀ counter, (passcode counter).length = s.codeLength.toNat ∧
        ∀ i < s.codeLength.toNat, (passcode counter)[i]? =
          let alphabet := pppAlphabet cfg s.alphabet.toNat
          alphabet[cipherValue crypto s counter / alphabet.length ^ i % alphabet.length]?) ∧
      ∀ counter counter', passcode counter = passcode counter' ↔
        cipherValue crypto s counter ≡ cipherValue crypto s counter'
          [MOD (pppAlphabet cfg s.alphabet.toNat).length ^ s.codeLength.toNat] := by
  have hcheck : alphabetCheck (pppAlphabet cfg s.alphabet.toNat) = 0 :=
    alphabetCheck_pppAlphabet fun hid => hcustom (BitVec.eq_of_toNat_eq (by simpa using hid))
  obtain ⟨⟨hid, -⟩, hlow, -⟩ := pppVerifyAlphabet_eq_zero halphabet
  have hne : pppAlphabet cfg s.alphabet.toNat ≠ [] := by
    intro hempty
    have hnat : s.alphabet.toInt.toNat = s.alphabet.toNat := by
      have hint := BitVec.toInt_eq_toNat_cond s.alphabet
      split_ifs at hint <;> omega
    rw [hnat, hempty] at hlow
    exact absurd (hmin.trans hlow) (by decide)
  have hsmall : (pppAlphabet cfg s.alphabet.toNat).length < 2 ^ 64 :=
    lt_of_le_of_lt (length_of_alphabetCheck hcheck) (by decide)
  have hvalue : ∀ counter, cipherValue crypto s counter =
      (numImportBin (crypto.aesEncrypt s.sequenceKey
        (numExportBin (pppAddSalt s counter))).val).toNat := by
    intro counter
    rw [toNat_numImportBin, numExportBin_eq]
    rfl
  refine ⟨fun counter => passcodeOf crypto cfg s (pppAddSalt s counter), ?_, ?_, ?_⟩
  · intro counter
    rw [pppGetPasscode, assert, if_pos hlen, ret_bind, if_neg (not_not.mpr halphabet)]
    rfl
  · intro counter
    refine ⟨length_passcodeChars _ _ _, fun i hi => ?_⟩
    rw [hvalue]
    exact passcodeChars_get hne hsmall _ _ hi
  · intro counter counter'
    rw [hvalue, hvalue]
    exact passcodeChars_inj hne hsmall ((alphabetCheck_eq_zero _).mp hcheck).2 _ _ _

/-- An unsalted and a salted counter of a user, in the extended alphabet. -/
theorem pppGetPasscode_digits_alice :
    ∃ passcode : Num → List Char,
      (∀ counter, pppGetPasscode plainCrypto configRoot (aliceState.setAlphabet 2) counter =
        .ret (0, passcode counter)) ∧
      (∀ counter, (passcode counter).length = (aliceState.setAlphabet 2).codeLength.toNat ∧
        ∀ i < (aliceState.setAlphabet 2).codeLength.toNat, (passcode counter)[i]? =
          let alphabet := pppAlphabet configRoot (aliceState.setAlphabet 2).alphabet.toNat
          alphabet[cipherValue plainCrypto (aliceState.setAlphabet 2) counter /
            alphabet.length ^ i % alphabet.length]?) ∧
      ∀ counter counter', passcode counter = passcode counter' ↔
        cipherValue plainCrypto (aliceState.setAlphabet 2) counter ≡
          cipherValue plainCrypto (aliceState.setAlphabet 2) counter'
          [MOD (pppAlphabet configRoot (aliceState.setAlphabet 2).alphabet.toNat).length ^
            (aliceState.setAlphabet 2).codeLength.toNat] :=
  pppGetPasscode_digits plainCrypto configRoot (aliceState.setAlphabet 2) (by decide)
    (by decide +kernel) (by decide +kernel) (by decide +kernel)

end

end Otpasswd
