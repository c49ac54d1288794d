import Otpasswd.Libotp.Fields

/-!
# Otpasswd.Libotp.Spass — the policy of static passwords

`_verify_spass` counts the characters of a password by class and compares the
counts with the configuration. The length it compares is twice the length of
the password, which is only seen where the required length lies in between.

Main results: `foldlM_add_plain`, `foldlM_add_bad` and `verifySpass_exact_iff`.
-/

namespace Otpasswd

open CText Prog

/-! ## Classes of characters -/

/-- `isdigit`. -/
def isDigit (c : Char) : Bool := '0' ≤ c ∧ c ≤ '9'

/-- `isupper` in the C locale. -/
def isUpper (c : Char) : Bool := 'A' ≤ c ∧ c ≤ 'Z'

/-- A graphic character that is neither a letter nor a digit. -/
def isSpecial (c : Char) : Bool := isGraph c && !isAlnum c

/-- A printable character of ASCII, or a blank. -/
def isPlain (c : Char) : Bool := isGraph c || isSpace c

theorem isGraph_of_isAlnum {c : Char} (h : isAlnum c = true) : isGraph c = true := by
  simp only [isAlnum, isGraph, Char.le_def, UInt32.le_iff_toNat_le, Bool.decide_or,
    Bool.or_eq_true, decide_eq_true_eq] at h ⊢
  have h0 : '0'.val.toNat = 48 ∧ '9'.val.toNat = 57 ∧ 'A'.val.toNat = 65 ∧ 'Z'.val.toNat = 90 ∧
      'a'.val.toNat = 97 ∧ 'z'.val.toNat = 122 ∧ '!'.val.toNat = 33 ∧ '~'.val.toNat = 126 := by
    decide
  omega

theorem isGraph_of_isSpace {c : Char} (h : isSpace c = true) : isGraph c = false := by
  simp only [isSpace, Bool.or_eq_true, decide_eq_true_eq] at h
  rcases h with ((((rfl | rfl) | rfl) | rfl) | rfl) | rfl
  all_goals decide

theorem isAscii_of_isPlain {c : Char} (h : isPlain c = true) : isAscii c = true := by
  rcases Bool.or_eq_true _ _ ▸ h with hgraph | hspace
  · simp only [isGraph, decide_eq_true_eq, Char.le_def, UInt32.le_iff_toNat_le] at hgraph
    have hle : c.toNat ≤ '~'.toNat := hgraph.2
    exact decide_eq_true (lt_of_le_of_lt hle (by decide))
  · simp only [isSpace, Bool.or_eq_true, decide_eq_true_eq] at hspace
    rcases hspace with ((((rfl | rfl) | rfl) | rfl) | rfl) | rfl
    all_goals decide

/-! ## The loop -/

/-- The counts of a password on top of `n`. -/
def SpassCount.of (n : SpassCount) (spass : List Char) : SpassCount where
  digits := n.digits + spass.countP isDigit
  uppercase := n.uppercase + spass.countP isUpper
  special := n.special + spass.countP isSpecial

/-- A plain character is counted in its class. -/
theorem SpassCount.add_plain (n : SpassCount) {c : Char} (hc : isPlain c = true) :
    n.add c = .ok (n.of [c]) := by
  have hascii : ¬ 128 ≤ c.toNat := by
    have := isAscii_of_isPlain hc
    simpa [isAscii] using this
  have hclass : ∀ {a b a' b' : Char}, b.toNat < a'.toNat → a ≤ c ∧ c ≤ b →
      ¬ (a' ≤ c ∧ c ≤ b') := by
    rintro a b a' b' hlt ⟨-, hle⟩ ⟨hge, -⟩
    have hle : c.toNat ≤ b.toNat := hle
    have hge : a'.toNat ≤ c.toNat := hge
    omega
  unfold SpassCount.add SpassCount.of
  simp only [List.countP_singleton, isDigit, isUpper, isSpecial, isAlnum]
  rw [if_neg hascii]
  by_cases hdigit : '0' ≤ c ∧ c ≤ '9'
  · have hupper := @hclass '0' '9' 'A' 'Z' (by decide) hdigit
    simp only [hdigit, hupper]
    simp
  by_cases hupper : 'A' ≤ c ∧ c ≤ 'Z'
  · simp only [hdigit, hupper]
    simp
  by_cases hlower : 'a' ≤ c ∧ c ≤ 'z'
  · simp only [hdigit, hupper, hlower]
    simp
  by_cases hspace : isSpace c = true
  · simp only [hdigit, hupper, hlower, hspace, isGraph_of_isSpace hspace]
    simp
  · have hgraph : isGraph c = true := by simpa [isPlain, hspace] using hc
    have hrange : '!' ≤ c ∧ c ≤ '~' := of_decide_eq_true hgraph
    simp only [hdigit, hupper, hlower, hspace, hgraph, hrange]
    simp

/-- Any other character ends the loop. -/
theorem SpassCount.add_bad (n : SpassCount) {c : Char} (hc : isPlain c = false) :
    n.add c = .error (if isAscii c = true then pppErrorSpassIllegalCharacter
      else pppErrorSpassNonAscii) := by
  unfold SpassCount.add
  by_cases hascii : 128 ≤ c.toNat
  · have : isAscii c = false := decide_eq_false (Nat.not_lt.mpr hascii)
    rw [if_pos hascii, this]
    rfl
  · have hascii' : isAscii c = true := decide_eq_true (Nat.not_le.mp hascii)
    obtain ⟨hgraph, hspace⟩ := Bool.or_eq_false_iff.mp hc
    have halnum : isAlnum c = false := by
      by_contra h
      rw [isGraph_of_isAlnum (Bool.eq_true_of_not_eq_false h)] at hgraph
      exact absurd hgraph (by decide)
    have hrange : ¬ ('!' ≤ c ∧ c ≤ '~') := of_decide_eq_false hgraph
    have hclass := of_decide_eq_false halnum
    simp only [not_or] at hclass
    rw [if_neg hascii, if_neg hclass.1, if_neg hclass.2.1, if_neg hclass.2.2,
      if_neg (by rw [hspace]; decide), if_neg hrange, hascii']
    rfl

theorem SpassCount.of_cons (n : SpassCount) (c : Char) (spass : List Char) :
    (n.of [c]).of spass = n.of (c :: spass) := by
  simp only [SpassCount.of, List.countP_cons, List.countP_nil]
  congr 1
  all_goals omega

/-- The loop counts a plain password by classes. -/
theorem foldlM_add_plain {spass : List Char} (h : ∀ c ∈ spass, isPlain c = true) (n : SpassCount) :
    spass.foldlM SpassCount.add n = .ok (n.of spass) := by
  induction spass generalizing n with
  | nil => rfl
  | cons c spass ih =>
    rw [List.foldlM_cons, n.add_plain (h c (by simp))]
    have hrest := ih (fun d hd => h d (List.mem_cons_of_mem _ hd)) (n.of [c])
    rw [SpassCount.of_cons] at hrest
    exact hrest

/-- The first character that is not plain decides the error. -/
theorem foldlM_add_bad {spass : List Char} {c : Char}
    (h : spass.find? (fun c => !isPlain c) = some c) (n : SpassCount) :
    spass.foldlM SpassCount.add n = .error (if isAscii c = true then pppErrorSpassIllegalCharacter
      else pppErrorSpassNonAscii) := by
  induction spass generalizing n with
  | nil => cases h
  | cons d spass ih =>
    rw [List.foldlM_cons]
    by_cases hd : isPlain d = true
    · rw [n.add_plain hd]
      rw [List.find?_cons_of_neg (by simp [hd])] at h
      exact ih h _
    · rw [List.find?_cons_of_pos (by simp [hd])] at h
      obtain rfl := Option.some.inj h
      rw [n.add_bad (Bool.eq_false_of_not_eq_true hd)]
      rfl

/-! ## What the check reports -/

/-- The bits that a plain password deserves. -/
def spassBits (cfg : Cfg) (spass : List Char) : ℕ :=
  (if spass.length < cfg.spassMinLength then pppErrorSpassShort else 0) |||
    (if spass.countP isDigit < cfg.spassRequireDigit then pppErrorSpassNoDigits else 0) |||
    (if spass.countP isUpper < cfg.spassRequireUppercase then pppErrorSpassNoUppercase else 0) |||
    (if spass.countP isSpecial < cfg.spassRequireSpecial then pppErrorSpassNoSpecial else 0)

/-- The check of a password is exact, and a password with a character outside
ASCII is reported and not set where the policy is checked. -/
structure SpassExact (cfg : Cfg) (spass : CString) : Prop where
  plain : (∀ c ∈ spass.val, isPlain c = true) → verifySpass cfg spass.val = spassBits cfg spass.val
  nonAscii : (∃ c ∈ spass.val, isAscii c = false) →
    verifySpass cfg spass.val = pppErrorSpassNonAscii ∧
      ∀ crypto s, ∃ err, pppSetSpass crypto cfg s (some spass) true = .ret (err, s) ∧
        err ≠ 0 ∧ err &&& pppErrorSpassSet = 0

/-- The required length is not between the length of the password and its
double; or the first character that is not plain is outside ASCII, if any is. -/
def SpassLengthClear (cfg : Cfg) (spass : List Char) : Prop :=
  match spass.find? fun c => !isPlain c with
  | none => ¬ (spass.length < cfg.spassMinLength ∧ cfg.spassMinLength ≤ 2 * spass.length)
  | some c => isAscii c = false ∨ ∀ d ∈ spass, isAscii d = true

/-- The bits do not overlap. -/
theorem spassBits_eq_add (cfg : Cfg) (spass : List Char) :
    spassBits cfg spass =
      (if spass.length < cfg.spassMinLength then pppErrorSpassShort else 0) +
        (if spass.countP isDigit < cfg.spassRequireDigit then pppErrorSpassNoDigits else 0) +
        (if spass.countP isUpper < cfg.spassRequireUppercase then pppErrorSpassNoUppercase
          else 0) +
        (if spass.countP isSpecial < cfg.spassRequireSpecial then pppErrorSpassNoSpecial
          else 0) := by
  unfold spassBits
  split_ifs
  all_goals rfl

theorem verifySpass_plain {cfg : Cfg} {spass : List Char} (h : ∀ c ∈ spass, isPlain c = true) :
    verifySpass cfg spass = spassBits cfg spass ↔
      ¬ (spass.length < cfg.spassMinLength ∧ cfg.spassMinLength ≤ 2 * spass.length) := by
  rw [spassBits_eq_add]
  unfold verifySpass
  rw [foldlM_add_plain h]
  simp only [SpassCount.of, Nat.zero_add, Nat.add_right_cancel_iff]
  by_cases hshort : (spass.length : ℤ) < cfg.spassMinLength
  · by_cases hdouble : cfg.spassMinLength ≤ 2 * spass.length
    · rw [if_neg (not_lt.mpr hdouble), if_pos hshort]
      exact iff_of_false (by decide) (not_not.mpr ⟨hshort, hdouble⟩)
    · rw [if_pos (not_le.mp hdouble), if_pos hshort]
      exact iff_of_true rfl fun hboth => hdouble hboth.2
  · rw [if_neg (by omega), if_neg hshort]
    exact iff_of_true rfl fun hboth => hshort hboth.1

theorem verifySpass_bad {cfg : Cfg} {spass : List Char} {c : Char}
    (h : spass.find? (fun c => !isPlain c) = some c) :
    verifySpass cfg spass =
      if isAscii c = true then pppErrorSpassIllegalCharacter else pppErrorSpassNonAscii := by
  unfold verifySpass
  rw [foldlM_add_bad h]

theorem verifySpass_lt (cfg : Cfg) (spass : List Char) : verifySpass cfg spass < 64 := by
  cases hfind : spass.find? fun c => !isPlain c with
  | none =>
    have hplain : ∀ c ∈ spass, isPlain c = true := by
      intro c hc
      simpa using List.find?_eq_none.mp hfind c hc
    unfold verifySpass
    rw [foldlM_add_plain hplain]
    simp only
    split_ifs
    all_goals decide
  | some c =>
    rw [verifySpass_bad hfind]
    split_ifs
    all_goals decide

/-- A password with a character that is not plain is not set where the policy
is checked. -/
theorem pppSetSpass_bad {cfg : Cfg} {spass : CString} {c : Char}
    (h : spass.val.find? (fun c => !isPlain c) = some c) (crypto : Crypto) (s : State) :
    ∃ err, pppSetSpass crypto cfg s (some spass) true = .ret (err, s) ∧
      err ≠ 0 ∧ err &&& pppErrorSpassSet = 0 := by
  by_cases hdeny : cfg.spassChange = configDisallow
  · refine ⟨pppErrorSpassPolicy, ?_, by decide, by decide⟩
    unfold pppSetSpass
    rw [if_pos ⟨rfl, hdeny⟩]
    rfl
  · have hbad := @verifySpass_bad cfg _ _ h
    have hne : verifySpass cfg spass.val ≠ 0 ∧
        verifySpass cfg spass.val &&& pppErrorSpassSet = 0 := by
      rw [hbad]
      split_ifs
      all_goals decide
    refine ⟨verifySpass cfg spass.val, ?_, hne⟩
    unfold pppSetSpass
    rw [if_neg fun hboth => hdeny hboth.2]
    simp only [hne.1, ne_eq, not_false_eq_true, and_self, if_true]
    rfl

/-- The check is exact where its length is clear, for every configuration. -/
theorem verifySpass_exact_iff (cfg : Cfg) (spass : CString) :
    SpassExact cfg spass ↔ SpassLengthClear cfg spass.val := by
  unfold SpassLengthClear
  cases hfind : spass.val.find? fun c => !isPlain c with
  | none =>
    have hplain : ∀ c ∈ spass.val, isPlain c = true := by
      intro c hc
      simpa using List.find?_eq_none.mp hfind c hc
    constructor
    · intro h
      exact (verifySpass_plain hplain).mp (h.plain hplain)
    · intro h
      refine ⟨fun _ => (verifySpass_plain hplain).mpr h, ?_⟩
      rintro ⟨c, hc, hbad⟩
      rw [isAscii_of_isPlain (hplain c hc)] at hbad
      cases hbad
  | some c =>
    have hc : isPlain c = false := by simpa using List.find?_some hfind
    have hmem := List.mem_of_find?_eq_some hfind
    have hbad := @verifySpass_bad cfg _ _ hfind
    constructor
    · intro h
      by_contra hnot
      obtain ⟨hascii, hall⟩ := not_or.mp hnot
      push Not at hall
      obtain ⟨d, hd, hd'⟩ := hall
      have hvalue := (h.nonAscii ⟨d, hd, Bool.eq_false_of_not_eq_true hd'⟩).1
      rw [hbad, if_pos (Bool.eq_true_of_not_eq_false hascii)] at hvalue
      exact absurd hvalue (by decide)
    · intro h
      refine ⟨fun hplain => ?_, ?_⟩
      · rw [hplain c hmem] at hc
        cases hc
      · rintro ⟨d, hd, hd'⟩
        refine ⟨?_, fun crypto s => pppSetSpass_bad hfind crypto s⟩
        have hascii : isAscii c = false := by
          rcases h with hascii | hall
          · exact hascii
          · rw [hall d hd] at hd'
            cases hd'
        rw [hbad, if_neg (by rw [hascii]; decide)]

/-- A password of six characters where seven are required is not short. -/
theorem short_spass_accepted :
    ¬ ∀ (cfg : Cfg) (spass : CString), SpassExact cfg spass := by
  intro h
  have hplain := (h configDefaults ⟨"Abcd1!".toList, by decide⟩).plain (List.all_eq_true.mp rfl)
  exact absurd hplain (by decide +kernel)

end Otpasswd
