import Otpasswd.Libotp.PppOk
import Otpasswd.Lib.Scan

/-!
# Otpasswd.Libotp.EntryForm — the lines that can be loaded

The manual documents the form of the fifteen fields of a line. The loader
converts the fields with `sscanf`, and takes more than that: what it takes is
`Tolerated`. A line of the documented form is loaded without a loss.

Main results: `dbParseUserEntry_eq_some`, `decodes_iff`, `Decodes.loaded` and
`loadExact_iff`.
-/

namespace Otpasswd

open CText Prog

/-! ## Splitting a line -/

/-- A line and its fifteen fields. -/
structure Splits (l : List Char) (f : Fields) : Prop where
  text : l = joinSep ':' f.toList
  separators : ∀ t ∈ f.toList, ':' ∉ t

theorem dbParseLoop_none {n : ℕ} {toks : List (List Char)} (h : dbParseLoop n none = some toks) :
    n = 0 ∧ toks = [] := by
  cases n with
  | zero => exact ⟨rfl, (Option.some.inj h).symm⟩
  | succ n => cases h

/-- One field of a line, and what is behind it. -/
theorem dbParseLoop_step {n : ℕ} {l : List Char} {toks : List (List Char)} (hl : '\n' ∉ l)
    (h : dbParseLoop (n + 1) (some (l ++ ['\n'])) = some toks) :
    ∃ t toks', toks = t :: toks' ∧ (':' ∉ t ∧ t.length ≤ stateMaxFieldSize) ∧
      (n + 1 = 14 → scanU32 10 t = some 1) ∧
      ((l = t ∧ n = 0 ∧ toks' = []) ∨
        ∃ rest, l = t ++ ':' :: rest ∧ dbParseLoop n (some (rest ++ ['\n'])) = some toks') := by
  by_cases hcolon : ':' ∈ l
  · obtain ⟨rest, hrest⟩ := eq_takeWhile_append hcolon
    generalize ht : l.takeWhile (· ≠ ':') = t at hrest
    have hsep : ':' ∉ t := by
      intro hmem
      rw [← ht] at hmem
      simpa using List.mem_takeWhile_imp hmem
    have hplain : Plain t := ⟨hsep, fun hmem => hl (by rw [hrest]; exact List.mem_append_left _ hmem)⟩
    rw [hrest, List.append_assoc, List.cons_append, dbParseLoop, strtok_cons hplain] at h
    simp only at h
    split_ifs at h with hlen hver
    obtain ⟨toks', htail, rfl⟩ := Option.map_eq_some_iff.mp h
    refine ⟨t, toks', rfl, ⟨hsep, Nat.not_lt.mp hlen⟩, fun hn => ?_, .inr ⟨rest, hrest, htail⟩⟩
    by_contra hne
    exact hver ⟨hn, hne⟩
  · have hplain : Plain l := ⟨hcolon, hl⟩
    rw [dbParseLoop, strtok_last hplain] at h
    simp only at h
    split_ifs at h with hlen hver
    obtain ⟨toks', htail, rfl⟩ := Option.map_eq_some_iff.mp h
    obtain ⟨rfl, rfl⟩ := dbParseLoop_none htail
    refine ⟨l, [], rfl, ⟨hcolon, Nat.not_lt.mp hlen⟩, fun hn => ?_, .inl ⟨rfl, rfl, rfl⟩⟩
    by_contra hne
    exact hver ⟨hn, hne⟩

/-- The fields that a line is split into. -/
theorem dbParseLoop_eq_some {n : ℕ} {l : List Char} {toks : List (List Char)} (hl : '\n' ∉ l)
    (h : dbParseLoop (n + 1) (some (l ++ ['\n'])) = some toks) :
    l = joinSep ':' toks ∧ ∀ t ∈ toks, ':' ∉ t ∧ t.length ≤ stateMaxFieldSize := by
  induction n generalizing l toks with
  | zero =>
    obtain ⟨t, toks', rfl, ht, -, ⟨rfl, -, rfl⟩ | ⟨rest, -, hrest⟩⟩ := dbParseLoop_step hl h
    · exact ⟨rfl, List.forall_mem_singleton.mpr ht⟩
    · rw [dbParseLoop, if_pos] at hrest
      · cases hrest
      · unfold strtok strsep
        simp only
        split_ifs
        all_goals rfl
  | succ n ih =>
    obtain ⟨t, toks', rfl, ht, -, ⟨-, hn, -⟩ | ⟨rest, rfl, hrest⟩⟩ := dbParseLoop_step hl h
    · cases hn
    · obtain ⟨rfl, htoks⟩ := ih (fun hmem => hl (by simp [hmem])) hrest
      refine ⟨?_, List.forall_mem_cons.mpr ⟨ht, htoks⟩⟩
      rcases toks' with _ | ⟨t2, toks'⟩
      · obtain ⟨_, _, hcons, -⟩ := dbParseLoop_step (fun hmem => hl (by simp [hmem])) hrest
        cases hcons
      · exact (joinSep_cons_cons ':' t t2 toks').symm

/-- The checks of `_db_parse_user_entry`. -/
structure Fields.Checked (f : Fields) : Prop where
  length_le : ∀ t ∈ f.toList, t.length ≤ stateMaxFieldSize
  version : scanU32 10 f.version = some 1

theorem ofList_eq_some {toks : List (List Char)} {f : Fields} (h : Fields.ofList toks = some f) :
    toks = f.toList := by
  unfold Fields.ofList at h
  split at h
  · rw [← Option.some.inj h]
    rfl
  · cases h

/-- Splitting a line gives its fields, and checks them. -/
theorem dbParseUserEntry_eq_some {l : List Char} {f : Fields} (hl : '\n' ∉ l) :
    dbParseUserEntry (l ++ ['\n']) = some f ↔ Splits l f ∧ f.Checked := by
  constructor
  · intro h
    obtain ⟨toks, hloop, hfields⟩ := Option.bind_eq_some_iff.mp h
    obtain rfl := ofList_eq_some hfields
    obtain ⟨htext, htoks⟩ := dbParseLoop_eq_some hl hloop
    refine ⟨⟨htext, fun t ht => (htoks t ht).1⟩, fun t ht => (htoks t ht).2, ?_⟩
    -- the version is the second field
    obtain ⟨t, toks1, heq, -, -, ⟨-, hn, -⟩ | ⟨rest, hrest, htail⟩⟩ := dbParseLoop_step hl hloop
    · cases hn
    have hl' : '\n' ∉ rest := fun hmem => hl (by rw [hrest]; simp [hmem])
    obtain ⟨t2, toks2, heq2, -, hversion, -⟩ := dbParseLoop_step hl' htail
    have htwo := heq.trans (congrArg (t :: ·) heq2)
    obtain ⟨-, htwo⟩ := List.cons.inj htwo
    obtain ⟨hver, -⟩ := List.cons.inj htwo
    rw [hver]
    exact hversion rfl
  · rintro ⟨⟨rfl, hsep⟩, hlen, hversion⟩
    have hplain : ∀ t ∈ f.toList, Plain t := fun t ht =>
      ⟨hsep t ht, fun hmem => hl (mem_joinSep_of_mem ht hmem)⟩
    have hdrop : ∀ t ∈ f.toList.drop 2, t ∈ f.toList := fun t => List.mem_of_mem_drop
    have htext : joinSep ':' f.toList ++ ['\n'] = f.user ++ ':' :: (f.version ++
        ':' :: (joinSep ':' (f.toList.drop 2) ++ ['\n'])) := by
      simp [Fields.toList, joinSep_cons_cons]
    have hrest : dbParseLoop 13 (some (joinSep ':' (f.toList.drop 2) ++ ['\n'])) =
        some (f.toList.drop 2) :=
      dbParseLoop_joinSep (by simp [Fields.toList]) (by simp [Fields.toList])
        (fun t ht => hplain t (hdrop t ht)) fun t ht => hlen t (hdrop t ht)
    rw [dbParseUserEntry, htext,
      dbParseLoop_cons (hplain _ (by simp [Fields.toList])) (hlen _ (by simp [Fields.toList])) (by simp),
      dbParseLoop_cons (hplain _ (by simp [Fields.toList])) (hlen _ (by simp [Fields.toList]))
        (fun _ => hversion), hrest]
    rfl

theorem Splits.unique {l : List Char} {f f' : Fields} (h : Splits l f) (h' : Splits l f') :
    f = f' := by
  have hlists : f.toList = f'.toList :=
    joinSep_inj rfl h.separators h'.separators (h.text.symm.trans h'.text)
  simp only [Fields.toList, List.cons.injEq] at hlists
  cases f
  cases f'
  simp_all

/-! ## Digits -/

/-- Digits only, one at least. -/
def Written (base : ℕ) (s : List Char) : Prop := s ≠ [] ∧ ∀ c ∈ s, isDigitOf base c = true

/-- A decimal number of `width` bits. -/
def Decimal (width : ℕ) (s : List Char) : Prop := Written 10 s ∧ digitsVal 10 s 0 < 2 ^ width

/-- Written numbers in range are converted without a loss. -/
theorem scanUnsigned_written {base : ℕ} {s : List Char} (h : Written base s)
    (hlt : digitsVal base s 0 < 2 ^ 64) :
    scanUnsigned base s.length s = some (BitVec.ofNat 64 (digitsVal base s 0)) := by
  have hscan := @scanUnsigned_digits base s.length s [] h.1 h.2 (.inl rfl) hlt
  rwa [List.append_nil] at hscan

theorem scanU32_written {base : ℕ} {s : List Char} {v : Word32} (h : Written base s)
    (hlt : digitsVal base s 0 < 2 ^ 32) (hv : scanU32 base s = some v) :
    v.toNat = digitsVal base s 0 := by
  rw [scanU32, scanUnsigned_written h (by omega), Option.map_some] at hv
  rw [← Option.some.inj hv]
  simp only [BitVec.toNat_setWidth, BitVec.toNat_ofNat]
  omega

/-- Two digits make a byte, for both readers of hexadecimal bytes. -/
theorem hexPair {c1 c2 : Char} (h1 : isDigitOf 16 c1 = true) (h2 : isDigitOf 16 c2 = true)
    (s : List Char) :
    ∃ b : Byte, b.toNat = digitsVal 16 [c1, c2] 0 ∧ scanKeyByte (c1 :: c2 :: s) = some b ∧
      ∀ (o : Byte) (old : List Byte), unhex (o :: old) (c1 :: c2 :: s) =
        ((unhex old s).1, b :: (unhex old s).2) := by
  have hpair : ∀ c ∈ [c1, c2], isDigitOf 16 c = true := by simp [h1, h2]
  have hlt := digitsVal_lt hpair
  rw [show 16 ^ [c1, c2].length = 256 from rfl] at hlt
  refine ⟨BitVec.ofNat 8 (digitsVal 16 [c1, c2] 0), ?_, ?_, ?_⟩
  · rw [BitVec.toNat_ofNat]
    omega
  · have hscan := @scanUnsigned_digits 16 2 [c1, c2] s (by simp) hpair (.inl rfl) (by omega)
    rw [scanKeyByte, if_pos (by simp), scanHexByte]
    rw [List.cons_append, List.cons_append, List.nil_append] at hscan
    rw [hscan, Option.map_some]
    refine congrArg some (BitVec.eq_of_toNat_eq ?_)
    simp only [BitVec.toNat_setWidth, BitVec.toNat_ofNat]
    omega
  · intro o old
    obtain ⟨d1, hd1⟩ : ∃ d, digitVal c1 = some d := by
      unfold isDigitOf at h1
      cases hd : digitVal c1 with
      | none => simp [hd] at h1
      | some d => exact ⟨d, rfl⟩
    obtain ⟨d2, hd2⟩ : ∃ d, digitVal c2 = some d := by
      unfold isDigitOf at h2
      cases hd : digitVal c2 with
      | none => simp [hd] at h2
      | some d => exact ⟨d, rfl⟩
    have hval : digitsVal 16 [c1, c2] 0 = 16 * d1 + d2 := by
      simp [digitsVal, hd1, hd2]
    simp only [unhex, hd1, hd2, hval]

/-- A number in big-endian bytes. -/
def beVal (bytes : List Byte) : ℕ := leVal bytes.reverse

theorem beVal_cons (b : Byte) (bytes : List Byte) :
    beVal (b :: bytes) = b.toNat * 256 ^ bytes.length + beVal bytes := by
  unfold beVal
  rw [List.reverse_cons, leVal_append, List.length_reverse]
  simp [leVal]
  ring

/-- The readers of hexadecimal bytes read all of an array's worth of digits. -/
theorem hexArray {s : List Char} {old : List Byte} (h : ∀ c ∈ s, isDigitOf 16 c = true)
    (hlen : s.length = 2 * old.length) :
    ((unhex old s).1 = true ∧ beVal (unhex old s).2 = digitsVal 16 s 0) ∧
      (dbLoadKey old s).1 = true ∧ beVal (dbLoadKey old s).2 = digitsVal 16 s 0 := by
  induction old generalizing s with
  | nil =>
    obtain rfl := List.length_eq_zero_iff.mp hlen
    exact ⟨⟨rfl, rfl⟩, rfl, rfl⟩
  | cons o old ih =>
    rcases s with _ | ⟨c1, _ | ⟨c2, s⟩⟩
    · simp at hlen
    · simp at hlen
      omega
    · obtain ⟨h1, h⟩ := List.forall_mem_cons.mp h
      obtain ⟨h2, h⟩ := List.forall_mem_cons.mp h
      simp only [List.length_cons] at hlen
      have hlen : s.length = 2 * old.length := by omega
      obtain ⟨⟨hu, huval⟩, hk, hkval⟩ := ih h hlen
      obtain ⟨b, hb, hscan, hunhex⟩ := hexPair h1 h2 s
      have hval : digitsVal 16 (c1 :: c2 :: s) 0 =
          b.toNat * 256 ^ old.length + digitsVal 16 s 0 := by
        have hsplit : digitsVal 16 (c1 :: c2 :: s) 0 = digitsVal 16 s (digitsVal 16 [c1, c2] 0) := rfl
        rw [hsplit, digitsVal_acc, ← hb, hlen, pow_mul, show 16 ^ 2 = 256 from rfl]
      have hkey : dbLoadKey (o :: old) (c1 :: c2 :: s) =
          ((dbLoadKey old s).1, b :: (dbLoadKey old s).2) := by
        rw [dbLoadKey, hscan]
        rfl
      rw [hunhex, hkey, hval]
      refine ⟨⟨hu, ?_⟩, hk, ?_⟩
      · rw [beVal_cons, length_unhex, huval]
      · rw [beVal_cons, length_dbLoadKey, hkval]

/-! ## The documented form and the tolerated one -/

/-- The form that the manual gives to the fields. A time is an `intmax_t`. -/
structure Documented (f : Fields) : Prop where
  key : f.key.length = 64 ∧ ∀ c ∈ f.key, isDigitOf 16 c = true
  counter : Written 16 f.counter ∧ f.counter.length ≤ 32
  latestCard : Written 16 f.latestCard ∧ f.latestCard.length ≤ 32
  failures : Decimal 32 f.failures
  recentFailures : Decimal 32 f.recentFailures
  channelTime : Decimal 63 f.channelTime
  codeLength : Decimal 32 f.codeLength
  alphabet : Decimal 32 f.alphabet
  flags : Written 16 f.flags ∧ digitsVal 16 f.flags 0 ≤ 7
  spass : f.spass = [] ∨
    (f.spass.length = 80 ∧ ∀ c ∈ f.spass, isDigitOf 16 c = true) ∧ Decimal 63 f.spassTime
  label : f.label.length ≤ 29 ∧ stateValidateStr f.label = true
  contact : f.contact.length ≤ 59 ∧ stateValidateStr f.contact = true

/-- The fields in full are in the state, the times as signed numbers. -/
structure LoadedFrom (f : Fields) (s : State) : Prop where
  key : beVal s.sequenceKey.val = digitsVal 16 f.key 0
  counter : s.counter.toNat = digitsVal 16 f.counter 0
  latestCard : s.latestCard.toNat = digitsVal 16 f.latestCard 0
  failures : s.failures.toNat = digitsVal 10 f.failures 0
  recentFailures : s.recentFailures.toNat = digitsVal 10 f.recentFailures 0
  channelTime : s.channelTime.toInt = digitsVal 10 f.channelTime 0
  codeLength : s.codeLength.toNat = digitsVal 10 f.codeLength 0
  alphabet : s.alphabet.toNat = digitsVal 10 f.alphabet 0
  flags : s.flags.toNat = digitsVal 16 f.flags 0
  spassSet : s.spassSet = true ↔ f.spass ≠ []
  spass : f.spass ≠ [] → beVal s.spass.val = digitsVal 16 f.spass 0 ∧
    s.spassTime.toInt = digitsVal 10 f.spassTime 0
  label : s.label.val = f.label
  contact : s.contact.val = f.contact

/-- What the conversions let pass: blanks and signs in front of a number and
anything behind it, any size of it, more than a key in the field of the key, and
more than a label in the field of the label. -/
structure Tolerated (f : Fields) : Prop where
  key : ∀ i < 32, 2 * i + 2 ≤ f.key.length ∧ Numeral 16 (f.key.drop (2 * i))
  counter : Written 16 f.counter ∧ f.counter.length ≤ 32
  latestCard : Written 16 f.latestCard ∧ f.latestCard.length ≤ 32
  failures : Numeral 10 f.failures
  recentFailures : Numeral 10 f.recentFailures
  channelTime : Numeral 10 f.channelTime
  codeLength : ∃ n, scanU32 10 f.codeLength = some n ∧ 2 ≤ n.toNat ∧ n.toNat ≤ 16
  alphabet : Numeral 10 f.alphabet
  flags : ∃ n, scanU32 16 f.flags = some n ∧ n.toNat ≤ 7
  spass : f.spass = [] ∨
    (f.spass.length = 80 ∧ ∀ c ∈ f.spass, isDigitOf 16 c = true) ∧ Numeral 10 f.spassTime
  label : stateValidateStr (f.label.take 29) = true
  contact : stateValidateStr (f.contact.take 59) = true

theorem dbLoadKey_ok_iff (old : List Byte) (pos : List Char) :
    (dbLoadKey old pos).1 = true ↔
      ∀ i < old.length, 2 * i + 2 ≤ pos.length ∧ Numeral 16 (pos.drop (2 * i)) := by
  induction old generalizing pos with
  | nil => exact iff_of_true rfl fun i hi => absurd hi (Nat.not_lt_zero i)
  | cons o old ih =>
    have hpair : scanKeyByte pos ≠ none ↔ 2 ≤ pos.length ∧ Numeral 16 pos := by
      unfold scanKeyByte scanHexByte
      by_cases hlen : 2 ≤ pos.length
      · rw [if_pos hlen, Ne, Option.map_eq_none_iff, ← Ne, scanUnsigned_ne_none (.inl le_rfl)]
        exact (and_iff_right hlen).symm
      · rw [if_neg hlen]
        exact iff_of_false (fun h => h rfl) fun h => hlen h.1
    unfold dbLoadKey
    rcases hbyte : scanKeyByte pos with _ | b
    · refine iff_of_false (by simp) fun h => ?_
      have hzero := h 0 (Nat.zero_lt_succ _)
      exact hpair.mpr hzero hbyte
    · have hfirst := hpair.mp (by rw [hbyte]; exact Option.some_ne_none b)
      simp only
      rw [ih]
      constructor
      · intro h i hi
        cases i with
        | zero => exact hfirst
        | succ i =>
          obtain ⟨hlen, hnum⟩ := h i (Nat.lt_of_succ_lt_succ hi)
          rw [List.length_drop] at hlen
          rw [List.drop_drop] at hnum
          exact ⟨by omega, by rwa [show 2 * (i + 1) = 2 + 2 * i by ring]⟩
      · intro h i hi
        obtain ⟨hlen, hnum⟩ := h (i + 1) (Nat.succ_lt_succ hi)
        rw [List.length_drop, List.drop_drop]
        exact ⟨by omega, by rwa [show 2 * (i + 1) = 2 + 2 * i by ring] at hnum⟩

theorem unhex_ok_iff {old : List Byte} {s : List Char} (hlen : s.length ≤ 2 * old.length) :
    (unhex old s).1 = true ↔ s.length = 2 * old.length ∧ ∀ c ∈ s, isDigitOf 16 c = true := by
  constructor
  · intro h
    induction old generalizing s with
    | nil =>
      obtain rfl := List.length_eq_zero_iff.mp (Nat.le_zero.mp hlen)
      exact ⟨rfl, List.forall_mem_nil _⟩
    | cons o old ih =>
      rcases s with _ | ⟨c1, _ | ⟨c2, s⟩⟩
      · cases h
      · cases h
      · rcases h1 : digitVal c1 with _ | d1
        · rw [unhex_bad (by simp [h1])] at h
          cases h
        rcases h2 : digitVal c2 with _ | d2
        · rw [unhex_bad (by simp [h2])] at h
          cases h
        simp only [unhex, h1, h2] at h
        simp only [List.length_cons] at hlen
        obtain ⟨hlen', hall⟩ := ih (by omega) h
        refine ⟨by simp only [List.length_cons]; omega, ?_⟩
        exact List.forall_mem_cons.mpr ⟨isDigitOf_of_digitVal h1,
          List.forall_mem_cons.mpr ⟨isDigitOf_of_digitVal h2, hall⟩⟩
  · rintro ⟨hlen, hall⟩
    exact (hexArray hall hlen).1.1

/-! ## What is loaded -/

theorem decodeSpass_ne_none {spass spassTime : List Char} (hlen : spass.length ≤ 80) :
    decodeSpass spass spassTime ≠ none ↔
      spass = [] ∨ (spass.length = 80 ∧ ∀ c ∈ spass, isDigitOf 16 c = true) ∧ Numeral 10 spassTime := by
  unfold decodeSpass
  by_cases hempty : spass = []
  · rw [if_pos hempty]
    exact iff_of_true (Option.some_ne_none _) (.inl hempty)
  · rw [if_neg hempty, or_iff_right hempty]
    have hhex := @unhex_ok_iff (Bytes.zero 40).val spass (by rw [Bytes.length_val]; exact hlen)
    rw [Bytes.length_val] at hhex
    by_cases hok : (unhex (Bytes.zero 40).val spass).1 = true
    · rw [if_pos hok, Ne, Option.map_eq_none_iff, ← Ne, scanUnsigned_ne_none (.inr rfl)]
      exact (and_iff_right (hhex.mp hok)).symm
    · rw [if_neg hok]
      exact iff_of_false (fun h => h rfl) fun h => hok (hhex.mpr h.1)

theorem scanU32_ne_none {base : ℕ} (s : List Char) : scanU32 base s ≠ none ↔ Numeral base s := by
  rw [scanU32, Ne, Option.map_eq_none_iff, ← Ne, scanUnsigned_ne_none (.inr rfl)]

theorem decodeKey_ne_none (field : List Char) : decodeKey field ≠ none ↔
    ∀ i < 32, 2 * i + 2 ≤ field.length ∧ Numeral 16 (field.drop (2 * i)) := by
  have hkey := dbLoadKey_ok_iff (Bytes.zero 32).val field
  rw [Bytes.length_val] at hkey
  rw [← hkey]
  unfold decodeKey
  by_cases hok : (dbLoadKey (Bytes.zero 32).val field).1 = true
  · rw [if_pos hok]
    exact iff_of_true (Option.some_ne_none _) hok
  · rw [if_neg hok]
    exact iff_of_false (fun h => h rfl) hok

theorem decodeNum_ne_none (field : List Char) :
    decodeNum field ≠ none ↔ Written 16 field ∧ field.length ≤ 32 := by
  have hiff : Written 16 field ∧ field.length ≤ 32 ↔ (numImportHex field).1 = 0 := by
    rw [numImportHex_ok_iff]
    unfold Written
    tauto
  rw [hiff]
  unfold decodeNum
  by_cases hok : (numImportHex field).1 = 0
  · rw [if_pos hok]
    exact iff_of_true (Option.some_ne_none _) hok
  · rw [if_neg hok]
    exact iff_of_false (fun h => h rfl) hok

/-- A string that is copied up to the size of its array. -/
theorem val_strncpy {n : ℕ} [NeZero n] {s : List Char} (h : '\x00' ∉ s) :
    (CBuf.strncpy n s).val = s.take (n - 1) :=
  cstr_eq_self fun hmem => h (List.mem_of_mem_take hmem)

/-- Exactly the tolerated fields mean an entry. -/
theorem decodes_iff {f : Fields} (hchecked : f.Checked) (hnul : ∀ t ∈ f.toList, '\x00' ∉ t) :
    (∃ e, Decodes f e) ↔ Tolerated f := by
  -- each field by itself; the last two are cut to their arrays
  have hspass := @decodeSpass_ne_none f.spass f.spassTime
    (hchecked.length_le _ (by simp [Fields.toList]))
  have hlabel := @val_strncpy stateLabelSize _ f.label (hnul _ (by simp [Fields.toList]))
  have hcontact := @val_strncpy stateContactSize _ f.contact (hnul _ (by simp [Fields.toList]))
  constructor
  · -- a field that was converted can be converted
    rintro ⟨e, h⟩
    have hsome {α : Type} {o : Option α} {v : α} (ho : o = some v) : o ≠ none := by
      rw [ho]
      exact Option.some_ne_none v
    refine
      { key := (decodeKey_ne_none _).mp (hsome h.key)
        counter := (decodeNum_ne_none _).mp (hsome h.counter)
        latestCard := (decodeNum_ne_none _).mp (hsome h.latestCard)
        failures := (scanU32_ne_none _).mp (hsome h.failures)
        recentFailures := (scanU32_ne_none _).mp (hsome h.recentFailures)
        channelTime := (scanUnsigned_ne_none (.inr rfl)).mp (hsome h.channelTime)
        codeLength := ⟨_, h.codeLength, h.valid.codeLength_ge, h.valid.codeLength_le⟩
        alphabet := (scanU32_ne_none _).mp (hsome h.alphabet)
        flags := ⟨_, h.flags, h.valid.flags_le⟩
        spass := hspass.mp (hsome h.spass)
        label := ?_
        contact := ?_ }
    · have hchars := h.valid.label_chars
      rw [← h.label, hlabel] at hchars
      exact hchars
    · have hchars := h.valid.contact_chars
      rw [← h.contact, hcontact] at hchars
      exact hchars
  · -- and the values that come out make the entry
    intro h
    obtain ⟨key, hkey⟩ := Option.ne_none_iff_exists'.mp ((decodeKey_ne_none _).mpr h.key)
    obtain ⟨counter, hcounter⟩ :=
      Option.ne_none_iff_exists'.mp ((decodeNum_ne_none _).mpr h.counter)
    obtain ⟨latestCard, hlatest⟩ :=
      Option.ne_none_iff_exists'.mp ((decodeNum_ne_none _).mpr h.latestCard)
    obtain ⟨failures, hfailures⟩ :=
      Option.ne_none_iff_exists'.mp ((scanU32_ne_none _).mpr h.failures)
    obtain ⟨recentFailures, hrecent⟩ :=
      Option.ne_none_iff_exists'.mp ((scanU32_ne_none _).mpr h.recentFailures)
    obtain ⟨channelTime, htime⟩ :=
      Option.ne_none_iff_exists'.mp ((scanUnsigned_ne_none (.inr rfl)).mpr h.channelTime)
    obtain ⟨codeLength, hcode, hge, hle⟩ := h.codeLength
    obtain ⟨alphabet, halphabet⟩ :=
      Option.ne_none_iff_exists'.mp ((scanU32_ne_none _).mpr h.alphabet)
    obtain ⟨flags, hflags, hflags7⟩ := h.flags
    obtain ⟨spass, hspass⟩ := Option.ne_none_iff_exists'.mp (hspass.mpr h.spass)
    refine ⟨⟨key, counter, latestCard, failures, recentFailures, channelTime, codeLength, alphabet,
      flags, spass, .strncpy _ f.label, .strncpy _ f.contact⟩, hkey, hcounter, hlatest, hfailures,
      hrecent, htime, hcode, halphabet, hflags, hspass, rfl, rfl, hge, hle, hflags7, ?_, ?_⟩
    · rw [hlabel]
      exact h.label
    · rw [hcontact]
      exact h.contact

theorem decodeKey_documented {field : List Char} {key : Bytes 32}
    (hform : field.length = 64 ∧ ∀ c ∈ field, isDigitOf 16 c = true)
    (h : decodeKey field = some key) : beVal key.val = digitsVal 16 field 0 := by
  obtain ⟨hok, hval⟩ := (@hexArray field (Bytes.zero 32).val hform.2
    (by rw [hform.1, Bytes.length_val])).2
  unfold decodeKey at h
  rw [if_pos hok] at h
  rw [← Option.some.inj h]
  exact hval

theorem decodeNum_documented {field : List Char} {n : Num}
    (hform : Written 16 field ∧ field.length ≤ 32) (h : decodeNum field = some n) :
    n.toNat = digitsVal 16 field 0 := by
  obtain ⟨⟨hne, hall⟩, hlen⟩ := hform
  obtain ⟨hok, hval⟩ := numSetHexLoop_digits le_rfl hlen (fun _ => hne) hall numZero
  have hlt : digitsVal 16 field 0 < 2 ^ 128 := calc
    digitsVal 16 field 0 < 16 ^ field.length := digitsVal_lt hall
    _ ≤ 16 ^ 32 := Nat.pow_le_pow_right (by decide) hlen
    _ = 2 ^ 128 := by norm_num
  unfold decodeNum numImportHex at h
  rw [if_pos hok] at h
  rw [← Option.some.inj h, hval, Num.toNat_numZero, Nat.mod_eq_of_lt hlt]

theorem time_documented {field : List Char} {v : Word64} (hform : Decimal 63 field)
    (h : scanUnsigned 10 field.length field = some v) : v.toInt = digitsVal 10 field 0 := by
  have hlt := hform.2
  rw [scanUnsigned_written hform.1 (by omega)] at h
  rw [← Option.some.inj h, BitVec.toInt_ofNat', Int.bmod_eq_of_le (by omega) (by omega)]

theorem decodeSpass_documented {spass spassTime : List Char} {v : Bytes 40 × Word64}
    (hform : (spass.length = 80 ∧ ∀ c ∈ spass, isDigitOf 16 c = true) ∧ Decimal 63 spassTime)
    (hne : spass ≠ []) (h : decodeSpass spass spassTime = some (some v)) :
    beVal v.1.val = digitsVal 16 spass 0 ∧ v.2.toInt = digitsVal 10 spassTime 0 := by
  obtain ⟨hok, hval⟩ := (@hexArray spass (Bytes.zero 40).val hform.1.2
    (by rw [hform.1.1, Bytes.length_val])).1
  unfold decodeSpass at h
  rw [if_neg hne, if_pos hok] at h
  obtain ⟨time, htime, hv⟩ := Option.map_eq_some_iff.mp h
  obtain rfl := Option.some.inj hv
  exact ⟨hval, time_documented hform.2 htime⟩

/-- Fields of the documented form are loaded in full. -/
theorem Decodes.loaded {f : Fields} {e : Entry} (h : Decodes f e) (hdoc : Documented f)
    (hnul : ∀ t ∈ f.toList, '\x00' ∉ t) (s : State) : LoadedFrom f (s.load e) := by
  have hflags : digitsVal 16 f.flags 0 < 2 ^ 32 := lt_of_le_of_lt hdoc.flags.2 (by norm_num)
  refine
    { key := decodeKey_documented hdoc.key h.key
      counter := decodeNum_documented hdoc.counter h.counter
      latestCard := decodeNum_documented hdoc.latestCard h.latestCard
      failures := scanU32_written hdoc.failures.1 hdoc.failures.2 h.failures
      recentFailures := scanU32_written hdoc.recentFailures.1 hdoc.recentFailures.2 h.recentFailures
      channelTime := time_documented hdoc.channelTime h.channelTime
      codeLength := scanU32_written hdoc.codeLength.1 hdoc.codeLength.2 h.codeLength
      alphabet := scanU32_written hdoc.alphabet.1 hdoc.alphabet.2 h.alphabet
      flags := scanU32_written hdoc.flags.1 hflags h.flags
      spassSet := ?_
      spass := fun hne => ?_
      label := ?_
      contact := ?_ }
  · -- the static password is set exactly if its field is not empty
    change e.spass.isSome = true ↔ f.spass ≠ []
    have hspass := h.spass
    unfold decodeSpass at hspass
    by_cases hempty : f.spass = []
    · rw [if_pos hempty] at hspass
      rw [← Option.some.inj hspass]
      exact iff_of_false (by decide) fun hne => hne hempty
    · rw [if_neg hempty] at hspass
      split_ifs at hspass
      obtain ⟨time, -, hv⟩ := Option.map_eq_some_iff.mp hspass
      rw [← hv]
      exact iff_of_true rfl hempty
  · -- and then it is the digits that are written
    have hform := hdoc.spass.resolve_left hne
    have hspass := h.spass
    rcases hv : e.spass with _ | v
    · unfold decodeSpass at hspass
      rw [if_neg hne, hv] at hspass
      split_ifs at hspass
      obtain ⟨time, -, hsome⟩ := Option.map_eq_some_iff.mp hspass
      cases hsome
    · rw [hv] at hspass
      obtain ⟨hbytes, htime⟩ := decodeSpass_documented hform hne hspass
      unfold State.load
      rw [hv]
      exact ⟨hbytes, htime⟩
  · change e.label.val = f.label
    rw [← h.label, val_strncpy (hnul _ (by simp [Fields.toList]))]
    exact List.take_of_length_le hdoc.label.1
  · change e.contact.val = f.contact
    rw [← h.contact, val_strncpy (hnul _ (by simp [Fields.toList]))]
    exact List.take_of_length_le hdoc.contact.1

/-! ## Loads -/

/-- Whenever the line is found for the user and the load succeeds, the line has
the documented form, and all of it is loaded. -/
def LoadExact (u : CString) (l : List Char) : Prop :=
  ∀ me cfg s w s' w' pre rest, s.username = u → (∀ l ∈ pre, Passed u l) →
    w.file (dbLoc cfg u) = some (unlines pre ++ (l ++ '\n' :: rest)) →
    (dbFileLoad cfg s).run (Sys.exec me) w = (some (0, s'), w') →
    ∃ f, Splits l f ∧ Documented f ∧ LoadedFrom f s'

section

variable {u : CString} {l : List Char}

theorem lineEntry_eq_some {e : Entry} (hl : LineOk l) :
    lineEntry (l ++ ['\n']) = some e ↔ ∃ f, (Splits l f ∧ f.Checked) ∧ Decodes f e := by
  rw [lineEntry, Option.bind_eq_some_iff]
  refine exists_congr fun f => ?_
  rw [dbParseUserEntry_eq_some hl.newline, decodeEntry_iff]

theorem Splits.nul {f : Fields} (h : Splits l f) (hl : LineOk l) : ∀ t ∈ f.toList, '\x00' ∉ t := by
  intro t ht hc
  exact hl.nul (h.text ▸ mem_joinSep_of_mem ht hc)

/-- A tolerated line can be loaded. -/
theorem LoadExact.documented (h : LoadExact u l) (hl : LineOk l) (hu : lineUser l = some u.val)
    {f : Fields} (hsplit : Splits l f) (hchecked : f.Checked) (htol : Tolerated f) :
    Documented f := by
  obtain ⟨e, he⟩ := (decodes_iff hchecked (hsplit.nul hl)).mpr htol
  set w := World.boot (fun _ => some (l ++ ['\n'])) fun _ => .good
  set s := (State.initial configRoot Outcome.good.junk u).setLock 1
  have hlook : dbLookup (w.file (dbLoc configRoot s.username)) s.username = some e := by
    have hline := @dbLookup_line u [] l [] (List.forall_mem_nil _) hl hu
    rw [(lineEntry_eq_some hl).mpr ⟨f, ⟨hsplit, hchecked⟩, he⟩] at hline
    exact hline
  have hlock : 0 < s.lock := Int.one_pos
  obtain ⟨hrun, -⟩ := dbFileLoad_locked (World.boot_serves _ 0) rfl hlock hlook
  obtain ⟨f', hsplit', hdoc, -⟩ := h 0 configRoot s w _ _ [] [] rfl (List.forall_mem_nil _) rfl
    (Prod.ext hrun rfl)
  rwa [hsplit.unique hsplit']

/-- A line is loaded only in the documented form exactly when it is of that
form, or the conversions refuse it. -/
theorem loadExact_iff (u : CString) (l : List Char) (hl : LineOk l) (hu : lineUser l = some u.val) :
    LoadExact u l ↔ ∀ f, Splits l f → f.Checked → Tolerated f → Documented f := by
  constructor
  · intro h f hsplit hchecked htol
    exact h.documented hl hu hsplit hchecked htol
  · intro h me cfg s w s' w' pre rest hname hpre hfile hrun
    obtain ⟨e, he, rfl⟩ := dbFileLoad_found hrun
    rw [hname, hfile, dbLookup_line hpre hl hu, lineEntry_eq_some hl] at he
    obtain ⟨f, ⟨hsplit, hchecked⟩, hdec⟩ := he
    have htol := (decodes_iff hchecked (hsplit.nul hl)).mp ⟨e, hdec⟩
    have hdoc := h f hsplit hchecked htol
    exact ⟨f, hsplit, hdoc, hdec.loaded hdoc (hsplit.nul hl) s⟩

end

theorem loadExact_iff_alice :
    let l := joinSep ':' (dbEntryFields aliceState).toList
    LoadExact alice l ↔ ∀ f, Splits l f → f.Checked → Tolerated f → Documented f :=
  loadExact_iff alice (joinSep ':' (dbEntryFields aliceState).toList) (by decide +kernel)
    (by decide +kernel)

/-- The fields of a line of alice with `failures` for the count of failures. -/
def aliceFields (failures : List Char) : Fields where
  user := alice.val
  version := ['1']
  key := List.replicate 64 '0'
  counter := ['0']
  latestCard := ['0']
  failures := failures
  recentFailures := ['0']
  channelTime := ['0']
  codeLength := ['4']
  alphabet := ['1']
  flags := ['0']
  spass := []
  spassTime := []
  label := []
  contact := []

/-- A count of minus one failures is loaded. -/
theorem negative_failures_loaded :
    ¬ ∀ (u : CString) (l : List Char), LineOk l → lineUser l = some u.val → LoadExact u l := by
  intro h
  let l := joinSep ':' (aliceFields ['-', '1']).toList
  have hl : LineOk l := by decide +kernel
  have hsplit : Splits l (aliceFields ['-', '1']) := ⟨rfl, by decide +kernel⟩
  have hsome : (lineEntry (l ++ ['\n'])).isSome = true := by decide +kernel
  obtain ⟨e, he⟩ := Option.isSome_iff_exists.mp hsome
  obtain ⟨f, ⟨hsplit', hchecked⟩, hdec⟩ := (lineEntry_eq_some hl).mp he
  obtain rfl := hsplit'.unique hsplit
  have htol := (decodes_iff hchecked (hsplit.nul hl)).mp ⟨e, hdec⟩
  have hdoc := (h alice l hl (by decide +kernel)).documented hl (by decide +kernel) hsplit hchecked
    htol
  exact absurd (hdoc.failures.1.2 '-' (List.mem_cons_self ..)) (by decide)

end Otpasswd
