import Otpasswd.Libotp.ConfigRange
import Otpasswd.Libotp.PppFree

/-!
# Otpasswd.Libotp.FreshKey — the entry of a new key

A key that is generated on the defaults of an accepted configuration passes
the checks of `ppp_state_verify` under the conditions of `Fits`: the checks of
the configuration leave out the size of the default alphabet, and without
`show_def` the flags are what the memory held.

Main result: `freshEntry_iff`.
-/

namespace Otpasswd

open CText

/-- The entry of a key that is generated on the defaults: in the memory that
`malloc` returned, of the random bytes of `pool`. -/
def freshEntry (crypto : Crypto) (cfg : Cfg) (memory : Junk) (u : CString) (pool : List Byte) :
    Entry :=
  ((State.initial cfg memory u).generated crypto pool).entry

/-- What the memory must hold, where the flags are not set. -/
structure FlagsFit (cfg : Cfg) (flags : Word32) : Prop where
  le : flags.toNat ≤ 7
  enabled : flags &&& flagDisabled = 0
  show_disallow : cfg.show = configDisallow → flags &&& flagShow = 0
  salt_disallow : cfg.saltDef = configDisabled → cfg.salt = configDisallow →
    flags &&& flagSalted = 0

/-- The new key is salted. -/
def NewSalted (cfg : Cfg) (memory : Junk) : Prop :=
  cfg.saltDef = configEnabled ∨ cfg.showDef ≠ configEnabled ∧ memory.flags &&& flagSalted ≠ 0

instance (cfg : Cfg) (memory : Junk) : Decidable (NewSalted cfg memory) :=
  inferInstanceAs (Decidable (_ ∨ _))

/-- What a new key needs to be usable. -/
structure Fits (crypto : Crypto) (cfg : Cfg) (memory : Junk) (pool : List Byte) : Prop where
  flags : cfg.showDef = configEnabled ∨ FlagsFit cfg memory.flags
  alphabet_ge : cfg.alphabetMinLength ≤ (pppAlphabet cfg cfg.alphabetDef.toNat).length
  alphabet_le : ((pppAlphabet cfg cfg.alphabetDef.toNat).length : ℤ) ≤ cfg.alphabetMaxLength
  salt : NewSalted cfg memory →
    (numAnd (numImportBin (crypto.sha256 (pool.drop 512)).val) saltMask).toNat ≤ maxCounter.toNat

/-! ## Flags -/

/-- The flags of `state_init`. -/
def newFlags (cfg : Cfg) (memory : Junk) : Word32 :=
  let flags := if cfg.showDef = configEnabled then flagShow else memory.flags
  if cfg.saltDef = configEnabled then flags ||| flagSalted else flags

section

variable {crypto : Crypto} {memory : Junk} {u : CString} {pool : List Byte}

theorem flagSalted_ne_zero_iff (flags : Word32) :
    flags &&& flagSalted ≠ 0 ↔ flags.getLsbD 2 = true := by
  have hbit : flagSalted = BitVec.twoPow 32 2 := by decide
  rw [hbit, BitVec.and_twoPow]
  cases flags.getLsbD 2 with
  | false => simp
  | true => simpa using (by decide : BitVec.twoPow 32 2 ≠ 0#32)

theorem or_flagSalted_of_salted {flags : Word32} (h : flags &&& flagSalted ≠ 0) :
    flags ||| flagSalted = flags := by
  have hbit : flagSalted = BitVec.twoPow 32 2 := by decide
  have htwo := (flagSalted_ne_zero_iff flags).mp h
  ext i hi
  rw [hbit, BitVec.getElem_or, BitVec.getElem_twoPow]
  by_cases hi2 : i = 2
  · subst hi2
    rw [← BitVec.getLsbD_eq_getElem hi, htwo]
    rfl
  · rw [decide_eq_false hi2, Bool.or_false]

theorem and_not_flagSalted {flags : Word32} (h : flags &&& flagSalted = 0) :
    flags &&& ~~~flagSalted = flags := by
  have hbit : flagSalted = BitVec.twoPow 32 2 := by decide
  have htwo : flags.getLsbD 2 = false := by
    by_contra hset
    exact (flagSalted_ne_zero_iff flags).mpr (by simpa using hset) h
  ext i hi
  rw [hbit, BitVec.getElem_and, BitVec.getElem_not, BitVec.getElem_twoPow]
  by_cases hi2 : i = 2
  · subst hi2
    rw [← BitVec.getLsbD_eq_getElem hi, htwo]
    rfl
  · rw [decide_eq_false hi2, Bool.not_false, Bool.and_true]

/-- Generating a key leaves the flags: that of the salt decides, and stays. -/
theorem State.generated_setNamed (s : State) (v : Bool) :
    (s.setNamed v).generated crypto pool = (s.generated crypto pool).setNamed v := by
  have hflags : (s.setNamed v).flags = s.flags := rfl
  unfold State.generated
  rw [hflags]
  by_cases h : s.flags &&& flagSalted = 0
  · rw [if_pos h, if_pos h]
    rfl
  · rw [if_neg h, if_neg h]
    rfl

theorem generated_flags (s : State) : (s.generated crypto pool).flags = s.flags := by
  unfold State.generated
  by_cases h : s.flags &&& flagSalted = 0
  · rw [if_pos h]
    exact and_not_flagSalted h
  · rw [if_neg h]
    exact or_flagSalted_of_salted h

theorem or_flagSalted_toNat_le (flags : Word32) :
    (flags ||| flagSalted).toNat ≤ 7 ↔ flags.toNat ≤ 7 := by
  have hfour : flagSalted.toNat = 4 := rfl
  rw [BitVec.toNat_or, hfour]
  constructor
  · exact Nat.left_le_or.trans
  · intro h
    have hlt := Nat.or_lt_two_pow (n := 3) (x := flags.toNat) (y := 4) (by omega) (by omega)
    omega

/-- The flag of the salt does not show in the others. -/
theorem or_flagSalted_and (flags other : Word32) (h : flagSalted &&& other = 0) :
    (flags ||| flagSalted) &&& other = flags &&& other := by
  rw [BitVec.and_or_distrib_right, h]
  exact BitVec.or_zero

theorem or_flagSalted_salted (flags : Word32) : (flags ||| flagSalted) &&& flagSalted ≠ 0 := by
  rw [flagSalted_ne_zero_iff, BitVec.getLsbD_or]
  have htwo : flagSalted.getLsbD 2 = true := rfl
  rw [htwo, Bool.or_true]

theorem pppVerifyFlags_iff (cfg : Cfg) (flags : Word32) : pppVerifyFlags cfg flags = 0 ↔
    (cfg.show = configDisallow → flags &&& flagShow = 0) ∧
      (cfg.show = configEnforce → flags &&& flagShow ≠ 0) ∧
      (cfg.salt = configDisallow → flags &&& flagSalted = 0) ∧
      (cfg.salt = configEnforce → flags &&& flagSalted ≠ 0) := by
  unfold pppVerifyFlags
  split_ifs with h1 h2 h3 h4
  · exact ⟨fun h => absurd h (by decide), fun h => absurd (h.1 h1.2) h1.1⟩
  · exact ⟨fun h => absurd h (by decide), fun h => absurd h2.1 (h.2.1 h2.2)⟩
  · exact ⟨fun h => absurd h (by decide), fun h => absurd (h.2.2.1 h3.2) h3.1⟩
  · exact ⟨fun h => absurd h (by decide), fun h => absurd h4.1 (h.2.2.2 h4.2)⟩
  · refine ⟨fun _ => ⟨fun hp => ?_, fun hp hf => h2 ⟨hf, hp⟩, fun hp => ?_,
      fun hp hf => h4 ⟨hf, hp⟩⟩, fun _ => rfl⟩
    · by_contra hf
      exact h1 ⟨hf, hp⟩
    · by_contra hf
      exact h3 ⟨hf, hp⟩

/-- The flags of a new state pass their checks. -/
structure NewFlagsOk (cfg : Cfg) (flags : Word32) : Prop where
  le : flags.toNat ≤ 7
  verified : pppVerifyFlags cfg flags = 0
  enabled : flags &&& flagDisabled = 0

theorem newFlags_iff {cfg : Config} (hcfg : cfg.Accepted) :
    NewFlagsOk cfg.toCfg (newFlags cfg.toCfg memory) ↔
      cfg.showDef = configEnabled ∨ FlagsFit cfg.toCfg memory.flags := by
  have hshow := hcfg.showDef
  have hsalt := hcfg.saltDef
  have hsd := hcfg.show_disallow
  have hse := hcfg.show_enforce
  have htd := hcfg.salt_disallow
  have hte := hcfg.salt_enforce
  rcases hshow with hshow | hshow
  · -- the flags are set
    refine ⟨fun _ => .inl hshow, fun _ => ?_⟩
    rcases hsalt with hsalt | hsalt
    · -- with the salt
      have hflags : newFlags cfg.toCfg memory = flagShow ||| flagSalted := by
        simp only [newFlags, hshow, hsalt, if_true]
      rw [hflags]
      refine ⟨by decide, (pppVerifyFlags_iff _ _).mpr ⟨fun h => absurd hshow (hsd h), ?_,
        fun h => absurd hsalt (htd h), ?_⟩, by decide⟩
      · exact fun _ => by decide
      · exact fun _ => by decide
    · -- without it
      have hne : ¬ (configDisabled = configEnabled) := by decide
      have hflags : newFlags cfg.toCfg memory = flagShow := by
        simp only [newFlags, hshow, hsalt, if_true, if_neg hne]
      rw [hflags]
      refine ⟨by decide, (pppVerifyFlags_iff _ _).mpr ⟨fun h => absurd hshow (hsd h), ?_, ?_,
        fun h => absurd hsalt (hte h)⟩, by decide⟩
      · exact fun _ => by decide
      · exact fun _ => by decide
  · -- they are those of the memory
    have hne : ¬ (configDisabled = configEnabled) := by decide
    have hor : (cfg.showDef = configEnabled ∨ FlagsFit cfg.toCfg memory.flags) ↔
        FlagsFit cfg.toCfg memory.flags := by
      rw [hshow]
      exact ⟨fun h => h.resolve_left hne, .inr⟩
    rw [hor]
    -- the bit of the salt is set or left, the others are what the memory had
    rcases hsalt with hsalt | hsalt
    · have hflags : newFlags cfg.toCfg memory = memory.flags ||| flagSalted := by
        simp only [newFlags, hshow, hsalt, if_true, if_neg hne]
      have hshowBit := or_flagSalted_and memory.flags flagShow rfl
      have hdisabledBit := or_flagSalted_and memory.flags flagDisabled rfl
      rw [hflags]
      constructor
      · rintro ⟨hle, hverified, henabled⟩
        obtain ⟨h1, -, -, -⟩ := (pppVerifyFlags_iff _ _).mp hverified
        rw [or_flagSalted_toNat_le] at hle
        rw [hdisabledBit] at henabled
        rw [hshowBit] at h1
        exact ⟨hle, henabled, h1, fun h => absurd (hsalt.symm.trans h) (by decide)⟩
      · intro h
        refine ⟨(or_flagSalted_toNat_le _).mpr h.le, (pppVerifyFlags_iff _ _).mpr ⟨?_,
          fun hp => absurd hshow (hse hp), fun hp => absurd hsalt (htd hp), ?_⟩, ?_⟩
        · rw [hshowBit]
          exact h.show_disallow
        · exact fun _ => or_flagSalted_salted _
        · rw [hdisabledBit]
          exact h.enabled
    · have hflags : newFlags cfg.toCfg memory = memory.flags := by
        simp only [newFlags, hshow, hsalt, if_neg hne]
      rw [hflags]
      constructor
      · rintro ⟨hle, hverified, henabled⟩
        obtain ⟨h1, -, h3, -⟩ := (pppVerifyFlags_iff _ _).mp hverified
        exact ⟨hle, henabled, h1, fun _ => h3⟩
      · intro h
        exact ⟨h.le, (pppVerifyFlags_iff _ _).mpr ⟨h.show_disallow,
          fun hp => absurd hshow (hse hp), h.salt_disallow hsalt,
          fun hp => absurd hsalt (hte hp)⟩, h.enabled⟩

/-! ## The entry -/

theorem newFlags_salted (cfg : Cfg) (memory : Junk) :
    newFlags cfg memory &&& flagSalted ≠ 0 ↔ NewSalted cfg memory := by
  unfold newFlags NewSalted
  by_cases hsalt : cfg.saltDef = configEnabled
  · simp only [if_pos hsalt]
    exact ⟨fun _ => .inl hsalt, fun _ => or_flagSalted_salted _⟩
  · simp only [if_neg hsalt]
    by_cases hshow : cfg.showDef = configEnabled
    · rw [if_pos hshow]
      constructor
      · exact fun h => absurd (by decide) h
      · rintro (h | h)
        · exact absurd h hsalt
        · exact absurd hshow h.1
    · rw [if_neg hshow]
      exact ⟨fun h => .inr ⟨hshow, h⟩, fun h => (h.resolve_left hsalt).2⟩

theorem numberSpace_pos (salted : Bool) {codes : ℕ} (hpos : 0 < codes) (hle : codes ≤ 110) :
    0 < numberSpace salted codes := by
  have hcards : 2 * 110 ≤ if salted then 2 ^ 32 - 1 else maxCardUnsalted.toNat := by
    cases salted with
    | false => decide
    | true => decide
  have htwo : 2 ≤ (if salted then 2 ^ 32 - 1 else maxCardUnsalted.toNat) / codes := by
    rw [Nat.le_div_iff_mul_le hpos]
    omega
  exact Nat.mul_pos (by omega) hpos

/-- The fields that the checks look at. -/
theorem freshEntry_fields (crypto : Crypto) (cfg : Cfg) (memory : Junk) (u : CString)
    (pool : List Byte) :
    (freshEntry crypto cfg memory u pool).flags = newFlags cfg memory ∧
      (freshEntry crypto cfg memory u pool).codeLength = BitVec.ofInt 32 cfg.passcodeDefLength ∧
      (freshEntry crypto cfg memory u pool).alphabet = BitVec.ofInt 32 cfg.alphabetDef ∧
      (freshEntry crypto cfg memory u pool).label = .zero _ ∧
      (freshEntry crypto cfg memory u pool).contact = .zero _ := by
  refine ⟨generated_flags _, ?_⟩
  unfold freshEntry State.generated
  split_ifs
  · exact ⟨rfl, rfl, rfl, rfl⟩
  · exact ⟨rfl, rfl, rfl, rfl⟩

/-- The counter starts at the salt. -/
theorem freshEntry_counter (crypto : Crypto) (cfg : Cfg) (memory : Junk) (u : CString)
    (pool : List Byte) :
    (freshEntry crypto cfg memory u pool).counter =
      if NewSalted cfg memory then numAnd (numImportBin (crypto.sha256 (pool.drop 512)).val) saltMask
      else numI 0 := by
  have hflags : (State.initial cfg memory u).flags = newFlags cfg memory := rfl
  have hmask : (State.initial cfg memory u).saltMask = saltMask :=
    (State.initial_fresh cfg memory u).saltMask
  unfold freshEntry State.generated
  rw [hflags, hmask]
  by_cases h : NewSalted cfg memory
  · rw [if_neg ((newFlags_salted cfg memory).mpr h), if_pos h]
    rfl
  · have hzero : newFlags cfg memory &&& flagSalted = 0 := by
      by_contra hset
      exact h ((newFlags_salted cfg memory).mp hset)
    rw [if_pos hzero, if_neg h]
    rfl

/-- Without a salt nothing is used of the number space, and with one neither. -/
theorem freshEntry_justCounter (crypto : Crypto) (cfg : Cfg) (memory : Junk) (u : CString)
    (pool : List Byte) : (freshEntry crypto cfg memory u pool).justCounter.toNat = 0 := by
  have hflags := (freshEntry_fields crypto cfg memory u pool).1
  have hsalted : (freshEntry crypto cfg memory u pool).Salted ↔ NewSalted cfg memory := by
    rw [Entry.Salted, hflags]
    exact newFlags_salted cfg memory
  rw [Entry.justCounter, freshEntry_counter]
  by_cases h : NewSalted cfg memory
  · rw [if_pos (hsalted.mpr h), if_pos h, toNat_and_codeMask, toNat_and_saltMask]
    exact Nat.mul_mod_left _ _
  · rw [if_neg (mt hsalted.mp h), if_neg h]
    rfl

theorem freshEntry_inRange {crypto : Crypto} {cfg : Cfg} {memory : Junk} {u : CString}
    {pool : List Byte} (h2 : 2 ≤ cfg.passcodeDefLength) (h16 : cfg.passcodeDefLength ≤ 16) :
    (freshEntry crypto cfg memory u pool).InRange ↔ (NewSalted cfg memory →
      (numAnd (numImportBin (crypto.sha256 (pool.drop 512)).val) saltMask).toNat ≤
        maxCounter.toNat) := by
  have hlength := (freshEntry_fields crypto cfg memory u pool).2.1
  have hspace : 0 < (freshEntry crypto cfg memory u pool).maxCode := by
    obtain ⟨n, hn⟩ := Int.eq_ofNat_of_zero_le (by omega : 0 ≤ cfg.passcodeDefLength)
    have hnat : (BitVec.ofInt 32 cfg.passcodeDefLength).toNat = n := by
      rw [hn, BitVec.toNat_ofInt]
      omega
    rw [Entry.maxCode, hlength, hnat]
    obtain ⟨hge, hle⟩ := codesPerRow_bounds (by omega : 2 ≤ n) (by omega)
    exact numberSpace_pos _ (by simp only [rowsPerCard]; omega) (by simp only [rowsPerCard]; omega)
  rw [Entry.InRange, freshEntry_justCounter, freshEntry_counter]
  by_cases h : NewSalted cfg memory
  · rw [if_pos h]
    exact ⟨fun hrange _ => hrange.1, fun hle => ⟨hle h, hspace⟩⟩
  · rw [if_neg h]
    exact ⟨fun _ hs => absurd hs h, fun _ => ⟨Nat.zero_le _, hspace⟩⟩

theorem verifyCodeLength_default {cfg : Config} (hcfg : cfg.Accepted) :
    pppVerifyCodeLength cfg.toCfg (BitVec.ofInt 32 cfg.passcodeDefLength).toInt = 0 := by
  obtain ⟨h2, h16⟩ := hcfg.passcodeDefLength
  have hge := hcfg.length_ge
  have hle := hcfg.length_le
  have hint : (BitVec.ofInt 32 cfg.passcodeDefLength).toInt = cfg.passcodeDefLength := by
    exact BitVec.toInt_ofInt_eq_self (by decide) (by omega) (by omega)
  rw [hint, pppVerifyCodeLength, if_neg (by omega), if_neg (by omega)]

/-- Of the default alphabet only the size is not checked. -/
theorem verifyAlphabet_default {cfg : Config} (hcfg : cfg.Accepted) :
    pppVerifyAlphabet cfg.toCfg (BitVec.ofInt 32 cfg.alphabetDef).toInt = 0 ↔
      cfg.alphabetMinLength ≤ (pppAlphabet cfg.toCfg cfg.alphabetDef.toNat).length ∧
        ((pppAlphabet cfg.toCfg cfg.alphabetDef.toNat).length : ℤ) ≤ cfg.alphabetMaxLength := by
  obtain ⟨h1, h2⟩ := hcfg.alphabetDef
  have hint : (BitVec.ofInt 32 cfg.alphabetDef).toInt = cfg.alphabetDef := by
    exact BitVec.toInt_ofInt_eq_self (by decide) (by omega) (by omega)
  rw [hint, pppVerifyAlphabet, if_neg (by simp only [pppAlphabetCount]; omega),
    if_neg (fun h => h.2 rfl)]
  simp only
  split_ifs with hlen
  · constructor
    · exact fun h => absurd h (by decide)
    · rintro ⟨hge, hle⟩
      omega
  · exact ⟨fun _ => ⟨by omega, by omega⟩, fun _ => rfl⟩

/-- A new key is stored so that it can be read, and is allowed. -/
theorem freshEntry_iff {crypto : Crypto} {cfg : Config} (hcfg : cfg.Accepted) (memory : Junk)
    (u : CString) (pool : List Byte) :
    (freshEntry crypto cfg.toCfg memory u pool).Valid ∧
        (freshEntry crypto cfg.toCfg memory u pool).Allowed cfg.toCfg ↔
      Fits crypto cfg.toCfg memory pool := by
  obtain ⟨hflags, hlength, halphabet, hlabel, hcontact⟩ :=
    freshEntry_fields crypto cfg.toCfg memory u pool
  obtain ⟨h2, h16⟩ := hcfg.passcodeDefLength
  have hrange := @freshEntry_inRange crypto cfg.toCfg memory u pool h2 h16
  have hnat : 2 ≤ (BitVec.ofInt 32 cfg.passcodeDefLength).toNat ∧
      (BitVec.ofInt 32 cfg.passcodeDefLength).toNat ≤ 16 := by
    rw [BitVec.toNat_ofInt]
    omega
  constructor
  · rintro ⟨hv, hallowed⟩
    have hok : NewFlagsOk cfg.toCfg (newFlags cfg.toCfg memory) := by
      rw [← hflags]
      exact ⟨hv.flags_le, hallowed.flags, hallowed.enabled⟩
    have hsize := hallowed.alphabet
    rw [halphabet] at hsize
    obtain ⟨hge, hle⟩ := (verifyAlphabet_default hcfg).mp hsize
    exact ⟨(newFlags_iff hcfg).mp hok, hge, hle, hrange.mp hallowed.range⟩
  · intro h
    obtain ⟨hle, hverified, henabled⟩ := (newFlags_iff hcfg).mpr h.flags
    rw [← hflags] at hle hverified henabled
    rw [← hlength] at hnat
    constructor
    · refine ⟨hnat.1, hnat.2, hle, ?_, ?_⟩
      · rw [hlabel]
        rfl
      · rw [hcontact]
        rfl
    · refine ⟨hverified, ?_, ?_, hrange.mpr h.salt, henabled⟩
      · rw [halphabet]
        exact (verifyAlphabet_default hcfg).mpr ⟨h.alphabet_ge, h.alphabet_le⟩
      · rw [hlength]
        exact verifyCodeLength_default hcfg

end

end Otpasswd
