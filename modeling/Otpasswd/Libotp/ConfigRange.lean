import Otpasswd.Libotp.ConfigFile

/-!
# Otpasswd.Libotp.ConfigRange — what an accepted configuration promises

Every variable is checked when it is set, and some of them against each other
behind the loop. The invariant `Config.Ranges` is the first part, and
`Config.Accepted` both.

Main result: `configParse_accepted`.
-/

namespace Otpasswd

open CText

/-! ## Arguments -/

/-- The values that an argument can be taken for. -/
def ArgKind.Gives {α : Type} : ArgKind α → α → Prop
  | .requireInt lo hi, v => lo ≤ v ∧ v ≤ hi
  | .requireEd, v => v = configEnabled ∨ v = configDisabled
  | .requireDae _, v => v = configDisallow ∨ v = configAllow ∨ v = configEnforce
  | .dbType, v => v ≠ .unconfigured
  | _, _ => True

theorem intArg_gives {lo hi v : ℤ} {arg : List Char} (h : intArg lo hi arg = some v) :
    lo ≤ v ∧ v ≤ hi := by
  unfold intArg at h
  split at h
  · split_ifs at h with hrange
    obtain rfl := Option.some.inj h
    exact ⟨by omega, by omega⟩
  · cases h

/-- A word is a switch or a policy of the right kind. -/
theorem parseArg_words (arg : List Char) :
    (∀ v, parseArg arg = .switch v → v = configEnabled ∨ v = configDisabled) ∧
      ∀ v, parseArg arg = .policy v → v = configDisallow ∨ v = configAllow ∨ v = configEnforce := by
  unfold parseArg
  constructor
  · intro v h
    split at h
    · cases h
    · split_ifs at h
      · exact .inl (Arg.switch.inj h).symm
      · exact .inr (Arg.switch.inj h).symm
  · intro v h
    split at h
    · cases h
    · split_ifs at h
      · exact .inl (Arg.policy.inj h).symm
      · exact .inr (.inl (Arg.policy.inj h).symm)
      · exact .inr (.inr (Arg.policy.inj h).symm)

theorem dbArg_gives {v : DbType} {arg : List Char} (h : dbArg arg = some v) :
    v ≠ .unconfigured := by
  unfold dbArg at h
  simp only at h
  split_ifs at h
  all_goals
    obtain rfl := Option.some.inj h
    decide

theorem ArgKind.conv_gives {α : Type} {kind : ArgKind α} {arg : List Char} {v : α}
    (h : kind.conv arg = some v) : kind.Gives v := by
  cases kind with
  | requireInt lo hi => exact intArg_gives h
  | requireEd =>
    change switchArg arg = some v at h
    unfold switchArg at h
    split at h
    · rename_i w hw
      obtain rfl := Option.some.inj h
      exact (parseArg_words arg).1 w hw
    · cases h
  | requireDae enforce =>
    change policyArg enforce arg = some v at h
    unfold policyArg at h
    split at h
    · rename_i w hw
      split_ifs at h
      obtain rfl := Option.some.inj h
      exact (parseArg_words arg).2 w hw
    · cases h
  | dbType => exact dbArg_gives h
  | copy size => trivial
  | copyName size => trivial
  | copyAlphabet size => trivial

/-! ## Variables -/

/-- Setting the variable keeps `P`. -/
def Setting.Keeps (P : Config → Prop) : Setting → Prop
  | .value kind var => ∀ cfg v, P cfg → kind.Gives v → P (var.set cfg v)
  | .user => ∀ (cfg : Config) (ids : Uid × Uid), P cfg →
    P { cfg with userUid := ids.1, userGid := ids.2 }
  | .oobUser => ∀ (cfg : Config) (ids : Uid × Uid), P cfg →
    P { cfg with pamOobUid := ids.1, pamOobGid := ids.2 }
  | .removed => True

theorem Setting.Keeps.apply {P : Config → Prop} {setting : Setting} (h : setting.Keeps P)
    {pw : Accounts} {cfg : Config} (hcfg : P cfg) (arg : List Char) :
    P (setting.apply pw cfg arg).2 := by
  cases setting with
  | value kind var =>
    rw [Setting.apply]
    cases hconv : kind.conv arg with
    | none => exact hcfg
    | some v => exact h cfg v hcfg (ArgKind.conv_gives hconv)
  | user =>
    rw [Setting.apply]
    split_ifs
    · exact hcfg
    · cases pw arg with
      | none => exact hcfg
      | some ids => exact h cfg ids hcfg
  | oobUser =>
    rw [Setting.apply]
    cases pw arg with
    | none => exact hcfg
    | some ids => exact h cfg ids hcfg
  | removed => exact hcfg

/-! ## The loop -/

/-- The checks behind the loop. -/
structure Config.Consistent (cfg : Config) : Prop where
  show_disallow : cfg.show = configDisallow → cfg.showDef ≠ configEnabled
  show_enforce : cfg.show = configEnforce → cfg.showDef ≠ configDisabled
  salt_disallow : cfg.salt = configDisallow → cfg.saltDef ≠ configEnabled
  salt_enforce : cfg.salt = configEnforce → cfg.saltDef ≠ configDisabled
  length_ge : cfg.passcodeMinLength ≤ cfg.passcodeDefLength
  length_le : cfg.passcodeDefLength ≤ cfg.passcodeMaxLength
  db : cfg.db ≠ .unconfigured

theorem configCheck_consistent {cfg cfg' : Config} {fail : Bool}
    (h : configCheck cfg fail = .ret 0 cfg') : cfg' = cfg ∧ cfg.Consistent := by
  unfold configCheck at h
  split_ifs at h with h1 h2 h3 h4 h5 h6 h7
  all_goals try exact absurd (ConfigEnd.ret.inj h).1 (by decide)
  refine ⟨(ConfigEnd.ret.inj h).2.symm, ?_⟩
  constructor
  · exact fun hp hd => h1 ⟨hp, hd⟩
  · exact fun hp hd => h2 ⟨hp, hd⟩
  · exact fun hp hd => h3 ⟨hp, hd⟩
  · exact fun hp hd => h4 ⟨hp, hd⟩
  · omega
  · omega
  · exact h7

/-- The configuration an iteration leaves. -/
def LineEnd.Leaves (P : Config → Prop) : LineEnd → Prop
  | .next cfg _ => P cfg
  | .error cfg => P cfg
  | .overrun => True

section

variable {P : Config → Prop} {pw : Accounts} {cfg : Config} {fail : Bool}

theorem configLine_leaves (hvars : ∀ entry ∈ configVars, entry.2.Keeps P) (hcfg : P cfg)
    (buff : List Char) : (configLine pw buff cfg fail).Leaves P := by
  unfold configLine
  simp only
  split_ifs
  · exact hcfg
  · trivial
  · unfold configVariable
    generalize (cstr buff).dropLast = line
    by_cases hcomment : line.head? = some '#'
    · rw [if_pos hcomment]
      exact hcfg
    rw [if_neg hcomment]
    by_cases hblank : line.dropWhile isBlank = []
    · rw [if_pos hblank]
      exact hcfg
    rw [if_neg hblank]
    by_cases heq : '=' ∉ line
    · rw [if_pos heq]
      exact hcfg
    rw [if_neg heq]
    cases hfind : findVar (line.takeWhile (· ≠ '=')) with
    | none => exact hcfg
    | some setting =>
      obtain ⟨entry, hentry, rfl⟩ := Option.map_eq_some_iff.mp hfind
      have hkeeps := hvars entry (List.mem_of_find?_eq_some hentry)
      have happly := @Setting.Keeps.apply P entry.2 hkeeps pw cfg hcfg
        (line.dropWhile (· ≠ '=')).tail
      cases happ : entry.2.apply pw cfg (line.dropWhile (· ≠ '=')).tail with
      | mk ok cfg' =>
        rw [happ] at happly
        simp only [happ]
        cases ok with
        | false => exact happly
        | true => exact happly

/-- What every variable keeps, the parser keeps, and the checks come last. -/
theorem configLoop_keeps (hvars : ∀ entry ∈ configVars, entry.2.Keeps P) (n : ℕ) (f : InFile)
    (hcfg : P cfg) {cfg' : Config} (h : configLoop pw n f cfg fail = .ret 0 cfg') :
    P cfg' ∧ cfg'.Consistent := by
  have hcheck {cfg : Config} {fail : Bool} (hcfg : P cfg) (h : configCheck cfg fail = .ret 0 cfg') :
      P cfg' ∧ cfg'.Consistent := by
    obtain ⟨rfl, hconsistent⟩ := configCheck_consistent h
    exact ⟨hcfg, hconsistent⟩
  induction n generalizing f cfg fail with
  | zero => exact hcheck hcfg h
  | succ n ih =>
    rw [configLoop] at h
    split at h
    · exact hcheck hcfg h
    · rename_i buff f' hgets
      have hleaves := @configLine_leaves P pw cfg fail hvars hcfg buff
      cases hline : configLine pw buff cfg fail with
      | overrun =>
        rw [hline] at h
        cases h
      | error cfg1 =>
        rw [hline] at h
        exact absurd (ConfigEnd.ret.inj h).1 (by decide)
      | next cfg1 fail1 =>
        rw [hline] at h hleaves
        simp only at h
        split_ifs at h
        · exact hcheck hleaves h
        · exact ih f' hleaves h

end

/-! ## Accepted configurations -/

/-- The checks of single variables. -/
structure Config.Ranges (cfg : Config) : Prop where
  saltDef : cfg.saltDef = configEnabled ∨ cfg.saltDef = configDisabled
  showDef : cfg.showDef = configEnabled ∨ cfg.showDef = configDisabled
  passcodeDefLength : 2 ≤ cfg.passcodeDefLength ∧ cfg.passcodeDefLength ≤ 16
  alphabetDef : 1 ≤ cfg.alphabetDef ∧ cfg.alphabetDef ≤ 2
  pamRetry : 0 ≤ cfg.pamRetry ∧ cfg.pamRetry ≤ 3
  pamRetries : 2 ≤ cfg.pamRetries ∧ cfg.pamRetries ≤ 5
  pamOob : 0 ≤ cfg.pamOob ∧ cfg.pamOob ≤ 3
  pamOobDelay : 0 ≤ cfg.pamOobDelay ∧ cfg.pamOobDelay ≤ 172800
  pamFailureBoundary : 0 ≤ cfg.pamFailureBoundary ∧ cfg.pamFailureBoundary ≤ 500
  pamFailureDelay : 0 ≤ cfg.pamFailureDelay ∧ cfg.pamFailureDelay ≤ 500

theorem configStart_ranges : configStart.Ranges := by
  constructor
  all_goals decide

theorem configVars_ranges : ∀ entry ∈ configVars, entry.2.Keeps Config.Ranges := by
  unfold configVars requireIntArg requireEdArg requireDaeArg copyTo
  simp only [List.mem_cons, List.not_mem_nil, or_false, forall_eq_or_imp, forall_eq,
    Setting.Keeps, ArgKind.Gives]
  repeat' apply And.intro
  all_goals try trivial
  -- one case for each variable: its own range is that of the argument
  all_goals
    intro cfg v h
    obtain ⟨hsalt, hshow, hlength, halphabet, hretry, hretries, hoob, hoobDelay, hboundary,
      hdelay⟩ := h
    try intro hv
    constructor
    all_goals assumption

/-- What `_config_parse` accepts. -/
structure Config.Accepted (cfg : Config) : Prop extends cfg.Ranges, cfg.Consistent

theorem configParse_accepted {pw : Accounts} {file : Option (List Char)} {cfg : Config}
    (h : configParse pw configStart file = .ret 0 cfg) : cfg.Accepted := by
  cases file with
  | none => exact absurd (ConfigEnd.ret.inj h).1 (by decide)
  | some text =>
    obtain ⟨hranges, hconsistent⟩ := configLoop_keeps configVars_ranges _ _ configStart_ranges h
    exact ⟨hranges, hconsistent⟩

end Otpasswd
