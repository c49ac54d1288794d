import Otpasswd.Agent.Reply
import Otpasswd.Libotp.PppSpec

/-!
# Otpasswd.Agent.Change — what a setter changes

The setters of the agent change one field of the state each, after checks of
their own. `Request.Sets` is the change with its return value, `Request.Changes`
what is left of it when the checks pass.

Main results: `Request.Sets.changes`, `Request.Sets.error` and
`Request.Changes.valid`.
-/

namespace Otpasswd

open CText Prog

/-- What the change of a setter makes of its state. -/
def Request.Sets (cfg : Cfg) (privileged : Bool) (req : Request) (s : State) (retval : ℕ)
    (s' : State) : Prop :=
  match req.type with
  | .flagAdd => changeFlags cfg (· ||| req.int) s = .ret (retval, s')
  | .flagClear => changeFlags cfg (· &&& ~~~req.int) s = .ret (retval, s')
  | .setInt => pppSetInt cfg s (.ofNum req.int) req.int2 = .ret (retval, s')
  | .setStr => pppSetStr cfg s (.ofNum req.int) req.str (!privileged) = .ret (retval, s')
  | .updateLatest => Otpasswd.updateLatest req.num s = .ret (retval, s')
  | .setSpass => retval = 0 ∧ ∃ spass set time, s' = s.setSpass spass set time
  | _ => False

/-- A setter whose checks passed, field by field. -/
inductive Request.Changes (cfg : Cfg) (req : Request) (s : State) : State → Prop where
  | flagAdd (htype : req.type = .flagAdd) (hle : (s.flags ||| req.int).toNat ≤ 7) :
      Changes cfg req s (s.setFlags (s.flags ||| req.int))
  | flagClear (htype : req.type = .flagClear) (hle : (s.flags &&& ~~~req.int).toNat ≤ 7) :
      Changes cfg req s (s.setFlags (s.flags &&& ~~~req.int))
  | failures (htype : req.type = .setInt) (hfield : PppField.ofNum req.int = .failures) :
      Changes cfg req s (s.setFailures req.int2)
  | recentFailures (htype : req.type = .setInt)
      (hfield : PppField.ofNum req.int = .recentFailures) :
      Changes cfg req s (s.setRecentFailures req.int2)
  | codeLength (htype : req.type = .setInt) (hfield : PppField.ofNum req.int = .codeLength)
      (hok : pppVerifyCodeLength cfg req.int2.toInt = 0) :
      Changes cfg req s (s.setCodeLength req.int2)
  | alphabet (htype : req.type = .setInt) (hfield : PppField.ofNum req.int = .alphabet)
      (hok : pppVerifyAlphabet cfg req.int2.toInt = 0) :
      Changes cfg req s (s.setAlphabet req.int2)
  | flags (htype : req.type = .setInt) (hfield : PppField.ofNum req.int = .flags)
      (hle : req.int2.toNat ≤ 7) (hok : pppVerifyFlags cfg req.int2 = 0) :
      Changes cfg req s (s.setFlags req.int2)
  | contact (htype : req.type = .setStr) (hfield : PppField.ofNum req.int = .contact)
      (v : CBuf stateContactSize) (hval : v.val = req.str.val)
      (hchars : stateValidateStr v.val = true) : Changes cfg req s (s.setContact v)
  | label (htype : req.type = .setStr) (hfield : PppField.ofNum req.int = .label)
      (v : CBuf stateLabelSize) (hval : v.val = req.str.val)
      (hchars : stateValidateStr v.val = true) : Changes cfg req s (s.setLabel v)
  | latest (htype : req.type = .updateLatest) : Changes cfg req s (s.setLatestCard req.num)
  | spass (htype : req.type = .setSpass) (hash : Bytes 40) (set : Bool) (time : Word64) :
      Changes cfg req s (s.setSpass hash set time)

section

variable {cfg : Cfg} {privileged : Bool} {req : Request} {s s' : State} {retval : ℕ}

/-- The length that `ppp_verify_code_length` passes. -/
theorem pppVerifyCodeLength_range {arg : Word32} (h : pppVerifyCodeLength cfg arg.toInt = 0) :
    2 ≤ arg.toNat ∧ arg.toNat ≤ 16 := by
  unfold pppVerifyCodeLength at h
  split_ifs at h with hrange
  have hint := BitVec.toInt_eq_toNat_cond arg
  have hlt := arg.isLt
  split_ifs at hint <;> omega

/-- `ppp_set_int`, when it returns. -/
theorem pppSetInt_changes {field : PppField} {arg : Word32}
    (h : pppSetInt cfg s field arg = .ret (retval, s')) :
    (retval ≠ 0 ∧ s' = s) ∨ retval = 0 ∧
      (field = .failures ∧ s' = s.setFailures arg ∨
        field = .recentFailures ∧ s' = s.setRecentFailures arg ∨
        field = .codeLength ∧ pppVerifyCodeLength cfg arg.toInt = 0 ∧ s' = s.setCodeLength arg ∨
        field = .alphabet ∧ pppVerifyAlphabet cfg arg.toInt = 0 ∧ s' = s.setAlphabet arg ∨
        field = .flags ∧ (arg.toNat ≤ 7 ∧ pppVerifyFlags cfg arg = 0) ∧ s' = s.setFlags arg) := by
  cases field <;> simp only [pppSetInt, pure_eq_ret, reduceCtorEq] at h
  case failures =>
    obtain ⟨rfl, rfl⟩ := ret_pair h
    exact .inr ⟨rfl, .inl ⟨rfl, rfl⟩⟩
  case recentFailures =>
    obtain ⟨rfl, rfl⟩ := ret_pair h
    exact .inr ⟨rfl, .inr (.inl ⟨rfl, rfl⟩)⟩
  case codeLength =>
    split_ifs at h with hlen
    · obtain ⟨rfl, rfl⟩ := ret_pair h
      exact .inl ⟨hlen, rfl⟩
    · obtain ⟨rfl, rfl⟩ := ret_pair h
      exact .inr ⟨rfl, .inr (.inr (.inl ⟨rfl, not_not.mp hlen, rfl⟩))⟩
  case alphabet =>
    split_ifs at h with halph
    · obtain ⟨rfl, rfl⟩ := ret_pair h
      exact .inl ⟨halph, rfl⟩
    · obtain ⟨rfl, rfl⟩ := ret_pair h
      exact .inr ⟨rfl, .inr (.inr (.inr (.inl ⟨rfl, not_not.mp halph, rfl⟩)))⟩
  case flags =>
    have h7 : (flagShow ||| flagSalted ||| flagDisabled).toNat = 7 := rfl
    split_ifs at h with hle hflags
    · obtain ⟨rfl, rfl⟩ := ret_pair h
      exact .inl ⟨by simp, rfl⟩
    · obtain ⟨rfl, rfl⟩ := ret_pair h
      exact .inl ⟨hflags, rfl⟩
    · obtain ⟨rfl, rfl⟩ := ret_pair h
      refine .inr ⟨rfl, .inr (.inr (.inr (.inr ⟨rfl, ⟨?_, not_not.mp hflags⟩, rfl⟩)))⟩
      rw [BitVec.lt_def, h7] at hle
      exact Nat.not_lt.mp hle

/-- A string that passes its checks is the value of the field. -/
theorem setStrField_changes {n : ℕ} {change : ℤ} {set : CBuf n → State → State} {arg : CString}
    {checkPolicy : Bool} (h : setStrField n change set s arg checkPolicy = (retval, s')) :
    (retval ≠ 0 ∧ s' = s) ∨ retval = 0 ∧ ∃ v : CBuf n, v.val = arg.val ∧
      stateValidateStr v.val = true ∧ s' = set v s := by
  unfold setStrField at h
  split_ifs at h with hpolicy hlen hchars
  · obtain ⟨rfl, rfl⟩ := Prod.mk.inj h
    exact .inl ⟨by simp, rfl⟩
  · obtain ⟨rfl, rfl⟩ := Prod.mk.inj h
    exact .inl ⟨by simp, rfl⟩
  · obtain ⟨rfl, rfl⟩ := Prod.mk.inj h
    have htrue : stateValidateStr arg.val = true := by simpa using hchars
    exact .inr ⟨rfl, _, rfl, htrue, rfl⟩
  · obtain ⟨rfl, rfl⟩ := Prod.mk.inj h
    exact .inl ⟨by simp, rfl⟩

/-- A setter either changes its field or nothing. -/
theorem Request.Sets.cases (h : req.Sets cfg privileged s retval s') :
    (retval ≠ 0 ∧ s' = s) ∨ retval = 0 ∧ req.Changes cfg s s' := by
  unfold Request.Sets at h
  cases htype : req.type <;> simp only [htype] at h
  case flagAdd =>
    rcases @pppSetInt_changes cfg s s' retval .flags (s.flags ||| req.int) h with h | ⟨h0, h⟩
    · exact .inl h
    · simp only [reduceCtorEq, false_and, true_and, false_or] at h
      obtain ⟨hle, rfl⟩ := h
      exact .inr ⟨h0, .flagAdd htype hle.1⟩
  case flagClear =>
    rcases @pppSetInt_changes cfg s s' retval .flags (s.flags &&& ~~~req.int) h with h | ⟨h0, h⟩
    · exact .inl h
    · simp only [reduceCtorEq, false_and, true_and, false_or] at h
      obtain ⟨hle, rfl⟩ := h
      exact .inr ⟨h0, .flagClear htype hle.1⟩
  case setInt =>
    rcases pppSetInt_changes h with h | ⟨h0, h⟩
    · exact .inl h
    refine .inr ⟨h0, ?_⟩
    rcases h with ⟨hf, rfl⟩ | ⟨hf, rfl⟩ | ⟨hf, hlen, rfl⟩ | ⟨hf, halph, rfl⟩ | ⟨hf, hle, rfl⟩
    · exact .failures htype hf
    · exact .recentFailures htype hf
    · exact .codeLength htype hf hlen
    · exact .alphabet htype hf halph
    · exact .flags htype hf hle.1 hle.2
  case setStr =>
    cases hf : PppField.ofNum req.int <;> simp only [pppSetStr, hf, pure_eq_ret, reduceCtorEq] at h
    case contact =>
      injection h with h
      rcases setStrField_changes h with h | ⟨h0, v, hval, hchars, rfl⟩
      · exact .inl h
      · exact .inr ⟨h0, .contact htype hf v hval hchars⟩
    case label =>
      injection h with h
      rcases setStrField_changes h with h | ⟨h0, v, hval, hchars, rfl⟩
      · exact .inl h
      · exact .inr ⟨h0, .label htype hf v hval hchars⟩
  case updateLatest =>
    unfold Otpasswd.updateLatest at h
    split_ifs at h
    · obtain ⟨rfl, rfl⟩ := ret_pair h
      exact .inr ⟨rfl, .latest htype⟩
    · obtain ⟨rfl, rfl⟩ := ret_pair h
      exact .inl ⟨by simp, rfl⟩
  case setSpass =>
    obtain ⟨h0, hash, set, time, rfl⟩ := h
    exact .inr ⟨h0, .spass htype hash set time⟩

theorem Request.Sets.changes (h : req.Sets cfg privileged s 0 s') : req.Changes cfg s s' :=
  h.cases.elim (fun h => absurd rfl h.1) fun h => h.2

theorem Request.Sets.error (h : req.Sets cfg privileged s retval s') (hret : retval ≠ 0) : s' = s :=
  h.cases.elim (fun h => h.2) fun h => absurd h.1 hret

/-- A setter keeps an entry one that can be read again. -/
theorem Request.Changes.valid (h : req.Changes cfg s s') (hv : s.entry.Valid) : s'.entry.Valid := by
  obtain ⟨h2, h16, h7, hlabel, hcontact⟩ := hv
  cases h with
  | flagAdd _ hle => exact ⟨h2, h16, hle, hlabel, hcontact⟩
  | flagClear _ hle => exact ⟨h2, h16, hle, hlabel, hcontact⟩
  | flags _ _ hle => exact ⟨h2, h16, hle, hlabel, hcontact⟩
  | codeLength _ _ hok =>
    have hlen := pppVerifyCodeLength_range hok
    exact ⟨hlen.1, hlen.2, h7, hlabel, hcontact⟩
  | contact _ _ v _ hchars => exact ⟨h2, h16, h7, hlabel, hchars⟩
  | label _ _ v _ hchars => exact ⟨h2, h16, h7, hchars, hcontact⟩
  | _ => exact ⟨h2, h16, h7, hlabel, hcontact⟩

theorem Request.Sets.valid (h : req.Sets cfg privileged s retval s') (hv : s.entry.Valid) :
    s'.entry.Valid := by
  rcases h.cases with ⟨-, rfl⟩ | ⟨-, h⟩
  · exact hv
  · exact h.valid hv

/-- No setter touches the key or the counter. -/
theorem Request.Sets.key (h : req.Sets cfg privileged s retval s') :
    s'.sequenceKey = s.sequenceKey ∧ s'.counter = s.counter := by
  rcases h.cases with ⟨-, rfl⟩ | ⟨-, h⟩
  · exact ⟨rfl, rfl⟩
  · cases h <;> exact ⟨rfl, rfl⟩

end

end Otpasswd
