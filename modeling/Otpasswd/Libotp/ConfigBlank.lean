import Otpasswd.Libotp.ConfigFile

/-!
# Otpasswd.Libotp.ConfigBlank — whitespace at the ends of lines

Whether blanks behind an argument make a difference depends on how the variable
takes it: `conv_blanks_iff`. What is left of two lines decides whether they can
be exchanged in every file (`sameLine_iff`), and so where blanks and the last
newline are ignored: `invisible_iff`.
-/

namespace Otpasswd

open CText

/-! ## Blanks behind an argument -/

section

variable {arg b : List Char}

theorem isSpace_of_isBlank {c : Char} (h : isBlank c = true) : isSpace c = true := by
  rcases of_decide_eq_true h with rfl | rfl
  · decide
  · decide

theorem not_digit_of_isBlank {c : Char} (h : isBlank c = true) : isDigitOf 10 c = false := by
  rcases of_decide_eq_true h with rfl | rfl
  · decide
  · decide

/-- `%d` does not look behind the digits. -/
theorem scanInt_blanks (hb : ∀ c ∈ b, isBlank c = true) :
    (scanInt (arg ++ b)).map Prod.fst = (scanInt arg).map Prod.fst := by
  have hstop : Stops (isDigitOf 10) b := by
    intro c hc
    exact not_digit_of_isBlank (hb c (List.mem_of_mem_head? hc))
  cases hscan : scanInt arg with
  | some r =>
    rcases r with ⟨v, rest⟩
    rcases scanInt_eq_some hscan with ⟨neg, pad, ds, rfl, hpad, hds, rfl, hrest⟩
    have hstop' : Stops (isDigitOf 10) (rest ++ b) := by
      cases rest with
      | nil => exact hstop
      | cons c rest => exact stops_cons (hrest c rfl)
    rw [List.append_assoc, List.append_assoc, scanInt_digits hpad hds hstop']
    rfl
  | none =>
    cases hlong : scanInt (arg ++ b) with
    | none => rfl
    | some r =>
      -- the digits would be in the argument
      rcases r with ⟨v, rest⟩
      rcases scanInt_eq_some hlong with ⟨neg, pad, ds, heq, hpad, hds, -, hrest⟩
      rw [← List.append_assoc] at heq
      rcases List.append_eq_append_iff.mp heq with ⟨c, hc, hbc⟩ | ⟨c, hc, hrestc⟩
      · have hnil : c = [] := by
          rcases List.eq_nil_or_concat c with hnil | ⟨c', d, rfl⟩
          · exact hnil
          · obtain ⟨ds', e, rfl⟩ := (List.eq_nil_or_concat ds).resolve_left hds.1
            have hde : e = d := by
              have hlast := congrArg List.getLast? hc
              simpa using hlast
            have hblank := hb d (by rw [hbc]; simp)
            have hdigit := hds.2 e (by simp)
            rw [hde, not_digit_of_isBlank hblank] at hdigit
            cases hdigit
        rw [hnil, List.append_nil] at hc
        have hmore := @scanInt_digits [] neg pad ds hpad hds stops_nil
        rw [List.append_nil, hc, hscan] at hmore
        cases hmore
      · have hmore := @scanInt_digits c neg pad ds hpad hds (by
          intro x hx
          refine hrest x ?_
          rw [hrestc]
          cases c with
          | nil => cases hx
          | cons y c => exact hx)
        rw [← List.append_assoc, ← hc, hscan] at hmore
        cases hmore

/-- A word ends in front of the blanks. -/
theorem not_sameWord_blanks {word : List Char} (hne : b ≠ []) (hb : ∀ c ∈ b, isBlank c = true)
    (hword : (word.map Char.toLower).any isBlank = false) : ¬ sameWord (arg ++ b) word := by
  intro hsame
  obtain ⟨c, b, rfl⟩ := List.exists_cons_of_ne_nil hne
  have hc := hb c (List.mem_cons_self ..)
  have hlower : c.toLower = c := by
    rcases of_decide_eq_true hc with rfl | rfl
    · decide
    · decide
  have hmem : c ∈ word.map Char.toLower := by
    unfold sameWord at hsame
    rw [← hsame, List.mem_map]
    exact ⟨c, by simp, hlower⟩
  rw [List.any_eq_true.mpr ⟨c, hmem, hc⟩] at hword
  cases hword

/-- Behind blanks only a number is read. -/
theorem parseArg_blanks (hne : b ≠ []) (hb : ∀ c ∈ b, isBlank c = true) :
    parseArg (arg ++ b) = match parseArg arg with
      | .int v => .int v
      | _ => .none := by
  have hscan := @scanInt_blanks arg b hb
  cases harg : scanInt arg with
  | some r =>
    rcases r with ⟨v, rest⟩
    rw [harg] at hscan
    obtain ⟨r', hr', hv⟩ := Option.map_eq_some_iff.mp hscan
    rcases r' with ⟨v', rest'⟩
    obtain rfl : v' = v := hv
    unfold parseArg
    rw [hr', harg]
  | none =>
    rw [harg] at hscan
    have hnone : scanInt (arg ++ b) = none := Option.map_eq_none_iff.mp hscan
    have hword {word : List Char} (h : (word.map Char.toLower).any isBlank = false) :
        ¬ sameWord (arg ++ b) word := not_sameWord_blanks hne hb h
    unfold parseArg
    rw [hnone, harg]
    simp only
    rw [if_neg (hword rfl), if_neg (hword rfl), if_neg (hword rfl), if_neg (hword rfl),
      if_neg (hword rfl)]
    split_ifs
    all_goals rfl

theorem rightTrim_blanks (harg : arg ≠ []) (hb : ∀ c ∈ b, isBlank c = true) :
    rightTrim (arg ++ b) = rightTrim arg := by
  obtain ⟨c, arg, rfl⟩ := List.exists_cons_of_ne_nil harg
  have hspace : ∀ c ∈ b.reverse, isSpace c = true := fun c hc =>
    isSpace_of_isBlank (hb c (List.mem_reverse.mp hc))
  rw [List.cons_append, rightTrim, rightTrim, List.rdropWhile, List.rdropWhile,
    List.reverse_append, List.dropWhile_append_of_pos hspace]

theorem dbArg_blanks (hb : ∀ c ∈ b, isBlank c = true) : dbArg (arg ++ b) = dbArg arg := by
  rcases eq_or_ne arg [] with rfl | harg
  · -- an empty argument becomes one blank
    rcases b with _ | ⟨c, b⟩
    · rfl
    · have hall : b.rdropWhile isSpace = [] := List.rdropWhile_eq_nil_iff.mpr fun d hd =>
        isSpace_of_isBlank (hb d (List.mem_cons_of_mem c hd))
      rw [List.nil_append, dbArg, rightTrim, hall]
      rcases of_decide_eq_true (hb c (List.mem_cons_self ..)) with rfl | rfl
      · rfl
      · rfl
  · unfold dbArg
    rw [rightTrim_blanks harg hb]

/-- The kinds that keep an argument with blanks behind it as it is. -/
def ArgKind.Trims {α : Type} : ArgKind α → List Char → List Char → Prop
  | .requireInt _ _, _, _ => True
  | .dbType, _, _ => True
  | .requireEd, _, _ => False
  | .requireDae _, _, _ => False
  | .copyAlphabet _, _, _ => False
  | .copy size, arg, b => arg ≠ [] ∧ (arg ++ b).length ≤ size - 1
  | .copyName size, arg, b => arg ≠ [] ∧ (arg ++ b).length ≤ size - 1

theorem copyArg_blanks_iff {size : ℕ} (hne : b ≠ []) (hb : ∀ c ∈ b, isBlank c = true) :
    copyArg size (arg ++ b) = copyArg size arg ↔
      copyArg size arg = none ∨ (arg ≠ [] ∧ (arg ++ b).length ≤ size - 1) := by
  have hlen : arg.length ≤ (arg ++ b).length := by
    rw [List.length_append]
    exact Nat.le_add_right _ _
  unfold copyArg
  by_cases hlong : size - 1 < arg.length
  · rw [if_pos hlong, if_pos (Nat.lt_of_lt_of_le hlong hlen)]
    exact iff_of_true rfl (.inl rfl)
  rw [if_neg hlong]
  by_cases hover : size - 1 < (arg ++ b).length
  · rw [if_pos hover]
    refine iff_of_false (fun h => nomatch h) ?_
    rintro (h | ⟨-, h⟩)
    · cases h
    · exact absurd h (Nat.not_le_of_lt hover)
  rw [if_neg hover]
  rcases eq_or_ne arg [] with rfl | harg
  · refine iff_of_false (fun h => ?_) ?_
    · obtain ⟨c, b, rfl⟩ := List.exists_cons_of_ne_nil hne
      cases Option.some.inj h
    · rintro (h | ⟨h, -⟩)
      · cases h
      · exact h rfl
  · rw [rightTrim_blanks harg hb]
    exact iff_of_true rfl (.inr ⟨harg, Nat.le_of_not_lt hover⟩)

/-- When blanks behind an argument make no difference. -/
theorem conv_blanks_iff {α : Type} (kind : ArgKind α) (hb : ∀ c ∈ b, isBlank c = true) :
    kind.conv (arg ++ b) = kind.conv arg ↔
      b = [] ∨ kind.conv arg = none ∨ kind.Trims arg b := by
  rcases eq_or_ne b [] with rfl | hne
  · rw [List.append_nil]
    exact iff_of_true rfl (.inl rfl)
  have hparse := @parseArg_blanks arg b hne hb
  -- what keeps no blanks refuses the argument with them
  have hrefused {r s : Option α} (h : r = none) :
      r = s ↔ b = [] ∨ s = none ∨ False := by
    rw [h, or_iff_right hne, or_false]
    exact eq_comm
  cases kind with
  | requireInt lo hi =>
    refine iff_of_true ?_ (.inr (.inr trivial))
    unfold ArgKind.conv intArg
    simp only [hparse]
    cases parseArg arg with
    | none => rfl
    | int v => rfl
    | policy v => rfl
    | switch v => rfl
  | dbType => exact iff_of_true (dbArg_blanks hb) (.inr (.inr trivial))
  | requireEd =>
    refine hrefused ?_
    unfold ArgKind.conv switchArg
    simp only [hparse]
    cases parseArg arg with
    | none => rfl
    | int v => rfl
    | policy v => rfl
    | switch v => rfl
  | requireDae enforce =>
    refine hrefused ?_
    unfold ArgKind.conv policyArg
    simp only [hparse]
    cases parseArg arg with
    | none => rfl
    | int v => rfl
    | policy v => rfl
    | switch v => rfl
  | copyAlphabet size =>
    refine hrefused (if_pos fun hcheck => ?_)
    obtain ⟨c, b, rfl⟩ := List.exists_cons_of_ne_nil hne
    have hgraph := (((alphabetCheck_eq_zero _).mp hcheck).1 c (by simp)).2
    rcases of_decide_eq_true (hb c (List.mem_cons_self ..)) with rfl | rfl
    · cases hgraph
    · cases hgraph
  | copy size =>
    rw [or_iff_right hne]
    exact copyArg_blanks_iff hne hb
  | copyName size =>
    rw [or_iff_right hne]
    have hslash : '/' ∈ arg ++ b ↔ '/' ∈ arg := by
      rw [List.mem_append]
      exact or_iff_left fun h => absurd (hb _ h) (by decide)
    simp only [ArgKind.conv, hslash]
    by_cases hmem : '/' ∈ arg
    · rw [if_pos hmem, if_pos hmem]
      exact iff_of_true rfl (.inl rfl)
    · rw [if_neg hmem, if_neg hmem]
      exact copyArg_blanks_iff hne hb

end

/-! ## What is left of a line -/

/-- What a line is for the parser, once its last character was cut. -/
inductive LineKind : Type 1 where
  | skipped
  | malformed
  | unknown
  | var (setting : Setting) (arg : List Char)

/-- The name of a variable, and the argument. -/
def lineName (line : List Char) : List Char := line.takeWhile (· ≠ '=')

def lineArg (line : List Char) : List Char := (line.dropWhile (· ≠ '=')).tail

def lineKind (line : List Char) : LineKind :=
  if line.head? = some '#' then .skipped
  else if line.dropWhile isBlank = [] then .skipped
  else if '=' ∉ line then .malformed
  else
    match findVar (lineName line) with
    | none => .unknown
    | some setting => .var setting (lineArg line)

/-- What the parser does with a line of a kind. -/
def LineKind.run (pw : Accounts) (cfg : Config) (fail : Bool) : LineKind → LineEnd
  | .skipped => .next cfg fail
  | .malformed => .error cfg
  | .unknown => .next cfg true
  | .var setting arg =>
    match setting.apply pw cfg arg with
    | (true, cfg) => .next cfg fail
    | (false, cfg) => .error cfg

/-- Arguments of one variable that have the same effect. -/
def Setting.SameArg (pw : Accounts) (arg arg' : List Char) : Setting → Prop
  | .value kind _ => kind.conv arg = kind.conv arg'
  | .user => pw arg = pw arg'
  | .oobUser => pw arg = pw arg'
  | .removed => True

/-- Arguments that are refused whatever was set before. -/
def Setting.Refused (pw : Accounts) (arg : List Char) : Setting → Prop
  | .value kind _ => kind.conv arg = none
  | .user => False
  | .oobUser => pw arg = none
  | .removed => True

/-- Kinds of lines that have the same effect. -/
def SameKind (pw : Accounts) : LineKind → LineKind → Prop
  | .skipped, .skipped => True
  | .malformed, .malformed => True
  | .unknown, .unknown => True
  | .malformed, .var setting arg => setting.Refused pw arg
  | .var setting arg, .var setting' arg' => setting = setting' ∧ setting.SameArg pw arg arg'
  | _, _ => False

section

variable {pw : Accounts} {cfg : Config} {fail : Bool}

theorem configVariable_kind (line : List Char) :
    configVariable pw line cfg fail = (lineKind line).run pw cfg fail := by
  unfold configVariable lineKind
  split_ifs with hcomment hblank heq
  · rfl
  · rfl
  · unfold lineName
    cases findVar (line.takeWhile (· ≠ '=')) with
    | none => rfl
    | some setting => rfl
  · rfl

theorem Setting.SameArg.apply {setting : Setting} {arg arg' : List Char}
    (h : setting.SameArg pw arg arg') : setting.apply pw cfg arg = setting.apply pw cfg arg' := by
  cases setting with
  | value kind var =>
    have hconv : kind.conv arg = kind.conv arg' := h
    simp only [Setting.apply, hconv]
  | user =>
    have hpw : pw arg = pw arg' := h
    simp only [Setting.apply, hpw]
  | oobUser =>
    have hpw : pw arg = pw arg' := h
    simp only [Setting.apply, hpw]
  | removed => rfl

theorem Setting.Refused.apply {setting : Setting} {arg : List Char} (h : setting.Refused pw arg) :
    setting.apply pw cfg arg = (false, cfg) := by
  cases setting with
  | value kind var =>
    have hconv : kind.conv arg = none := h
    simp only [Setting.apply, hconv]
  | user => exact h.elim
  | oobUser =>
    have hpw : pw arg = none := h
    simp only [Setting.apply, hpw]
  | removed => rfl

/-- Lines of the same effect, in every configuration. -/
theorem SameKind.run {k k' : LineKind} (h : SameKind pw k k') :
    k.run pw cfg fail = k'.run pw cfg fail := by
  cases k with
  | skipped =>
    cases k' with
    | skipped => rfl
    | malformed => exact h.elim
    | unknown => exact h.elim
    | var setting arg => exact h.elim
  | unknown =>
    cases k' with
    | unknown => rfl
    | skipped => exact h.elim
    | malformed => exact h.elim
    | var setting arg => exact h.elim
  | malformed =>
    cases k' with
    | malformed => rfl
    | skipped => exact h.elim
    | unknown => exact h.elim
    | var setting arg =>
      simp only [LineKind.run, Setting.Refused.apply h]
  | var setting arg =>
    cases k' with
    | skipped => exact h.elim
    | malformed => exact h.elim
    | unknown => exact h.elim
    | var setting' arg' =>
      rcases h with ⟨rfl, harg⟩
      simp only [LineKind.run, harg.apply]

end

/-! ## Lines that are told apart -/

/-- The kinds of a line, and of a line that goes on with a character and blanks. -/
inductive LineKind.Extends : LineKind → LineKind → Prop
  | skipped : Extends .skipped .skipped
  | started : Extends .skipped .malformed
  | blankName : Extends .skipped .unknown
  | malformed : Extends .malformed .malformed
  | unknownName : Extends .malformed .unknown
  | name (setting : Setting) (arg : List Char) : Extends .malformed (.var setting arg)
  | unknown : Extends .unknown .unknown
  | var (setting : Setting) (arg arg' : List Char) :
      Extends (.var setting arg) (.var setting arg')

theorem configCheck_ret (cfg : Config) (fail : Bool) :
    ∃ code, configCheck cfg fail = .ret code cfg ∧ (fail = false → code ≠ 1) := by
  unfold configCheck
  split_ifs
  · exact ⟨2, rfl, fun _ => by decide⟩
  · exact ⟨2, rfl, fun _ => by decide⟩
  · exact ⟨2, rfl, fun _ => by decide⟩
  · exact ⟨2, rfl, fun _ => by decide⟩
  · exact ⟨2, rfl, fun _ => by decide⟩
  · exact ⟨1, rfl, fun h => by simp_all⟩
  · exact ⟨5, rfl, fun _ => by decide⟩
  · exact ⟨0, rfl, fun _ => by decide⟩

section

variable {pw : Accounts}

/-- How the parser ends behind a line. -/
def LineKind.ends (pw : Accounts) (k : LineKind) (cfg : Config) : ConfigEnd :=
  (k.run pw cfg false).andThen configCheck

/-- An argument is stored, or refused with 1. -/
theorem ends_var (cfg : Config) (setting : Setting) (arg : List Char) :
    ∃ code, (LineKind.var setting arg).ends pw cfg = .ret code (setting.apply pw cfg arg).2 ∧
      (code = 1 ↔ (setting.apply pw cfg arg).1 = false) := by
  simp only [LineKind.ends, LineKind.run]
  rcases setting.apply pw cfg arg with ⟨_ | _, cfg'⟩
  · exact ⟨1, rfl, iff_of_true rfl rfl⟩
  · obtain ⟨code, hcode, hne⟩ := configCheck_ret cfg' false
    exact ⟨code, hcode, iff_of_false (hne rfl) fun h => nomatch h⟩

theorem ends_var_inj {cfg : Config} {setting setting' : Setting} {arg arg' : List Char}
    (h : (LineKind.var setting arg).ends pw cfg = (LineKind.var setting' arg').ends pw cfg) :
    setting.apply pw cfg arg = setting'.apply pw cfg arg' := by
  rcases ends_var cfg setting arg with ⟨code, hend, hok⟩
  rcases ends_var cfg setting' arg' with ⟨code', hend', hok'⟩
  rw [hend, hend'] at h
  obtain ⟨rfl, hcfg⟩ := ConfigEnd.ret.inj h
  refine Prod.ext ?_ hcfg
  have hiff := hok.symm.trans hok'
  cases hfst : (setting.apply pw cfg arg).1 with
  | false => exact (hiff.mp hfst).symm
  | true =>
    refine (Bool.eq_true_of_not_eq_false fun hfalse => ?_).symm
    rw [hiff.mpr hfalse] at hfst
    cases hfst

theorem apply_refused {cfg : Config} {setting : Setting} {arg : List Char}
    (h : (LineKind.malformed).ends pw cfg = (LineKind.var setting arg).ends pw cfg) :
    setting.apply pw cfg arg = (false, cfg) := by
  rcases ends_var cfg setting arg with ⟨code, hend, hok⟩
  rw [hend] at h
  obtain ⟨rfl, hcfg⟩ := ConfigEnd.ret.inj h
  exact Prod.ext (hok.mp rfl) hcfg.symm

/-- What the parser stores of an account that it has not seen. -/
def accountSet (cfg : Config) (store : Uid → Uid → Config) : Option (Uid × Uid) → Bool × Config
  | none => (false, cfg)
  | some (uid, gid) => (decide (uid ≠ 0), store uid gid)

theorem accountSet_inj {cfg : Config} {store : Uid → Uid → Config} {get : Config → Uid × Uid}
    (hget : ∀ uid gid, get (store uid gid) = (uid, gid)) (hcfg : (get cfg).1 = -1)
    {r r' : Option (Uid × Uid)} (h : accountSet cfg store r = accountSet cfg store r') :
    r = r' := by
  -- root is refused, and no identity is -1 and 0
  have hnone {uid gid : Uid} (h : accountSet cfg store none = accountSet cfg store (some (uid, gid))) :
      False := by
    obtain ⟨huid, hstore⟩ := Prod.mk.inj h
    rw [hstore, hget] at hcfg
    obtain rfl : uid = -1 := hcfg
    cases huid
  rcases r with _ | ⟨uid, gid⟩
  · rcases r' with _ | ⟨uid', gid'⟩
    · rfl
    · exact (hnone h).elim
  · rcases r' with _ | ⟨uid', gid'⟩
    · exact (hnone h.symm).elim
    · have hid := congrArg get (Prod.mk.inj h).2
      rw [hget, hget] at hid
      rw [hid]

/-! The configurations that lead to a line: the defaults, and two that one line
in front of it sets. -/

def saltDisallowed : Config := { configStart with salt := configDisallow }

def dbUser : Config := { configStart with db := .user }

/-- Kinds of lines that end the parser alike have the same effect. -/
theorem sameKind_of_ends {k k' : LineKind} (hext : k.Extends k')
    (hstart : k.ends pw configStart = k'.ends pw configStart)
    (hsalt : k.ends pw saltDisallowed = k'.ends pw saltDisallowed)
    (huser : k.ends pw dbUser = k'.ends pw dbUser) : SameKind pw k k' := by
  -- the defaults tell most of the kinds apart; two settings need another start
  cases hext with
  | skipped => trivial
  | started => cases (ConfigEnd.ret.inj hstart).1
  | blankName => cases (ConfigEnd.ret.inj hstart).1
  | malformed => trivial
  | unknownName => cases (ConfigEnd.ret.inj hsalt).1
  | unknown => trivial
  | name setting arg =>
    have happ := apply_refused hstart
    cases setting with
    | value kind var =>
      change kind.conv arg = none
      cases hconv : kind.conv arg with
      | none => rfl
      | some v =>
        simp only [Setting.apply, hconv] at happ
        cases (Prod.mk.inj happ).1
    | user => cases (Prod.mk.inj (apply_refused huser)).1
    | oobUser =>
      change pw arg = none
      cases hpw : pw arg with
      | none => rfl
      | some id =>
        rcases id with ⟨uid, gid⟩
        simp only [Setting.apply, hpw] at happ
        obtain ⟨huid, hcfg⟩ := Prod.mk.inj happ
        -- the default account is none, so this one would have to be minus one
        have hminus : uid = -1 := congrArg Config.pamOobUid hcfg
        rw [hminus] at huid
        cases huid
    | removed => trivial
  | var setting arg arg' =>
    refine ⟨rfl, ?_⟩
    have happ := ends_var_inj hstart
    cases setting with
    | value kind var =>
      change kind.conv arg = kind.conv arg'
      simp only [Setting.apply] at happ
      cases hconv : kind.conv arg with
      | none =>
        cases hconv' : kind.conv arg' with
        | none => rfl
        | some v' =>
          rw [hconv, hconv'] at happ
          cases (Prod.mk.inj happ).1
      | some v =>
        cases hconv' : kind.conv arg' with
        | none =>
          rw [hconv, hconv'] at happ
          cases (Prod.mk.inj happ).1
        | some v' =>
          rw [hconv, hconv'] at happ
          -- the value that was set can be read back
          have hget := congrArg var.get (Prod.mk.inj happ).2
          rw [var.get_set, var.get_set] at hget
          rw [hget]
    | user =>
      change pw arg = pw arg'
      simp only [Setting.apply] at happ
      rw [if_neg (by exact fun h => nomatch h), if_neg (by exact fun h => nomatch h)] at happ
      exact @accountSet_inj configStart
        (fun uid gid => { configStart with userUid := uid, userGid := gid })
        (fun cfg => (cfg.userUid, cfg.userGid)) (fun _ _ => rfl) rfl _ _ happ
    | oobUser =>
      change pw arg = pw arg'
      exact @accountSet_inj configStart
        (fun uid gid => { configStart with pamOobUid := uid, pamOobGid := gid })
        (fun cfg => (cfg.pamOobUid, cfg.pamOobGid)) (fun _ _ => rfl) rfl _ _ happ
    | removed => trivial

end

/-! ## Lines that go on -/

theorem lineName_append {name : List Char} (h : '=' ∉ name) (arg : List Char) :
    lineName (name ++ '=' :: arg) = name ∧ lineArg (name ++ '=' :: arg) = arg := by
  have hrun : ∀ c ∈ name, decide (c ≠ '=') = true := fun c hc =>
    decide_eq_true fun heq => h (heq ▸ hc)
  have hstop : Stops (fun c => decide (c ≠ '=')) ('=' :: arg) := stops_cons rfl
  refine ⟨takeWhile_run hrun hstop, ?_⟩
  unfold lineArg
  rw [dropWhile_run hrun hstop]
  rfl

/-- No variable has a blank name. -/
theorem findVar_blanks {name : List Char} (h : ∀ c ∈ name, isBlank c = true) :
    findVar name = none := by
  have hnames : (configVars.map Prod.fst).all (fun known =>
      !known.isEmpty && !(known.map Char.toLower).any isBlank) = true := rfl
  unfold findVar
  rw [Option.map_eq_none_iff, List.find?_eq_none]
  intro entry hentry
  have hentry' := List.all_eq_true.mp hnames entry.1 (List.mem_map_of_mem hentry)
  rw [Bool.and_eq_true, Bool.not_eq_true', Bool.not_eq_true', List.isEmpty_eq_false_iff] at hentry'
  obtain ⟨hne, hword⟩ := hentry'
  rw [decide_eq_true_eq]
  rcases eq_or_ne name [] with rfl | hname
  · intro hsame
    exact hne (List.map_eq_nil_iff.mp hsame.symm)
  · exact @not_sameWord_blanks [] name _ hname h hword

theorem dropWhile_isBlank {line : List Char} :
    line.dropWhile isBlank = [] ↔ ∀ c ∈ line, isBlank c = true := List.dropWhile_eq_nil_iff

theorem lineKind_var {line : List Char} (hcomment : line.head? ≠ some '#') (heq : '=' ∈ line) :
    lineKind line = match findVar (lineName line) with
      | none => .unknown
      | some setting => .var setting (lineArg line) := by
  unfold lineKind
  rw [if_neg hcomment, if_neg, if_neg (not_not.mpr heq)]
  intro hblank
  cases dropWhile_isBlank.mp hblank _ heq

theorem LineKind.Extends.refl (k : LineKind) : k.Extends k := by
  cases k with
  | skipped => exact .skipped
  | malformed => exact .malformed
  | unknown => exact .unknown
  | var setting arg => exact .var setting arg arg

/-- A line that goes on with one character and blanks. -/
theorem lineKind_extends (line : List Char) (c : Char) {b : List Char}
    (hb : ∀ c ∈ b, isBlank c = true) : (lineKind line).Extends (lineKind (line ++ c :: b)) := by
  -- a comment goes on as a comment
  by_cases hcomment : line.head? = some '#'
  · have hcomment' : (line ++ c :: b).head? = some '#' := by
      rw [List.head?_append, hcomment]
      rfl
    unfold lineKind
    rw [if_pos hcomment, if_pos hcomment']
    exact .skipped
  -- so far there are only blanks: the new character may start the line
  by_cases hblank : line.dropWhile isBlank = []
  · have hkind : lineKind line = .skipped := by
      unfold lineKind
      rw [if_neg hcomment, if_pos hblank]
    rw [hkind]
    -- there is an equality sign: the name is in front of it already
    by_cases heq : '=' ∈ line ++ c :: b
    · -- the character is the equality sign
      have hc : c = '=' := by
        rcases List.mem_append.mp heq with h | h
        · cases dropWhile_isBlank.mp hblank _ h
        · rcases List.mem_cons.mp h with rfl | h
          · rfl
          · cases hb _ h
      subst hc
      have hname : '=' ∉ line := fun h => nomatch dropWhile_isBlank.mp hblank _ h
      have hhead : (line ++ '=' :: b).head? ≠ some '#' := by
        rcases line with _ | ⟨d, line⟩
        · exact fun h => nomatch h
        · exact hcomment
      rw [lineKind_var hhead heq, (lineName_append hname b).1,
        findVar_blanks (dropWhile_isBlank.mp hblank)]
      exact .blankName
    · unfold lineKind
      rw [if_pos heq]
      split_ifs
      · exact .skipped
      · exact .skipped
      · exact .started
  have hne : line ≠ [] := by
    rintro rfl
    exact hblank rfl
  have hcomment' : (line ++ c :: b).head? ≠ some '#' := by
    rwa [List.head?_append_of_ne_nil _ hne]
  by_cases heq : '=' ∈ line
  · obtain ⟨name, arg, rfl, hname⟩ := List.eq_append_cons_of_mem heq
    rw [lineKind_var hcomment heq, lineKind_var hcomment' (List.mem_append_left _ heq),
      (lineName_append hname arg).1, List.append_assoc, List.cons_append,
      (lineName_append hname _).1]
    cases findVar name with
    | none => exact .unknown
    | some setting => exact .var setting _ _
  · -- a name without a value, which may now be completed
    have hkind : lineKind line = .malformed := by
      unfold lineKind
      rw [if_neg hcomment, if_neg hblank, if_pos heq]
    rw [hkind]
    by_cases heq' : '=' ∈ line ++ c :: b
    · rw [lineKind_var hcomment' heq']
      cases findVar (lineName (line ++ c :: b)) with
      | none => exact .unknownName
      | some setting => exact .name setting _
    · have hblank' : (line ++ c :: b).dropWhile isBlank ≠ [] := fun h =>
        hblank (dropWhile_isBlank.mpr fun d hd =>
          dropWhile_isBlank.mp h d (List.mem_append_left _ hd))
      unfold lineKind
      rw [if_neg hcomment', if_neg hblank', if_pos heq']
      exact .malformed

/-! ## Lines in files -/

section

variable {pw : Accounts}

theorem configLine_line {l : List Char} (hnul : '\x00' ∉ l) (cfg : Config) (fail : Bool) :
    configLine pw (l ++ ['\n']) cfg fail = (lineKind l).run pw cfg fail := by
  have hcstr : cstr (l ++ ['\n']) = l ++ ['\n'] := cstr_eq_self (by simp [hnul])
  unfold configLine
  simp only [hcstr, List.getLast?_concat, ne_eq, not_true_eq_false, and_false, if_false,
    List.append_eq_nil_iff, List.cons_ne_nil, List.dropLast_concat]
  exact configVariable_kind l

theorem configLine_last {l : List Char} (hnul : '\x00' ∉ l) (hlen : l.length ≤ 198) (hne : l ≠ [])
    (cfg : Config) (fail : Bool) :
    configLine pw l cfg fail = (lineKind l.dropLast).run pw cfg fail := by
  have hshort : l.length ≠ configMaxLineLen - 1 := Nat.ne_of_lt (Nat.lt_succ_of_le hlen)
  unfold configLine
  simp only [cstr_eq_self hnul, if_neg hne]
  rw [if_neg (fun h => hshort h.1)]
  exact configVariable_kind _

/-- The text of a line and its newline, at the end of a file. -/
theorem configRun_ends {l : List Char} (hl : '\n' ∉ l) (hnul : '\x00' ∉ l) (hlen : l.length ≤ 198)
    (cfg : Config) : configRun pw (l ++ ['\n']) cfg false = (lineKind l).ends pw cfg := by
  rw [configRun_line hl hlen, configLine_line hnul]
  rfl

theorem configRun_ends_last {l : List Char} (hl : '\n' ∉ l) (hnul : '\x00' ∉ l)
    (hlen : l.length ≤ 198) (hne : l ≠ []) (cfg : Config) :
    configRun pw l cfg false = (lineKind l.dropLast).ends pw cfg := by
  rw [configRun_last hl hlen hne, configLine_last hnul hlen hne]
  rfl

theorem LinesRead.congr {before t t' : List Char} (h : LinesRead before)
    (ht : ∀ cfg fail, configRun pw t cfg fail = configRun pw t' cfg fail) (cfg : Config)
    (fail : Bool) : configRun pw (before ++ t) cfg fail = configRun pw (before ++ t') cfg fail := by
  rcases h.run pw cfg fail with ⟨e, he⟩ | ⟨cfg', fail', hrun⟩
  · rw [he, he]
  · rw [hrun, hrun, ht]

theorem exists_before {cfg : Config}
    (h : cfg = configStart ∨ cfg = saltDisallowed ∨ cfg = dbUser) :
    ∃ before, LinesRead before ∧
      ∀ rest, configRun pw (before ++ rest) configStart false = configRun pw rest cfg false := by
  rcases h with rfl | rfl | rfl
  · exact ⟨[], .nil, fun _ => rfl⟩
  · refine ⟨"salt=disallow\n".toList,
      .line (l := "salt=disallow".toList) (by decide) (by decide) .nil, fun rest => ?_⟩
    refine (configRun_line (l := "salt=disallow".toList) (by decide) (by decide) rest).trans ?_
    rfl
  · refine ⟨"db=user\n".toList,
      .line (l := "db=user".toList) (by decide) (by decide) .nil, fun rest => ?_⟩
    refine (configRun_line (l := "db=user".toList) (by decide) (by decide) rest).trans ?_
    rfl

/-- Texts that are exchanged behind the same lines are of the same kind. -/
theorem sameKind_of_run {t t' : List Char} {k k' : LineKind} (hext : k.Extends k')
    (ht : ∀ cfg, configRun pw t cfg false = k.ends pw cfg)
    (ht' : ∀ cfg, configRun pw t' cfg false = k'.ends pw cfg)
    (h : ∀ before, LinesRead before →
      configRun pw (before ++ t) configStart false =
        configRun pw (before ++ t') configStart false) : SameKind pw k k' := by
  have hends (cfg : Config) (hcfg : cfg = configStart ∨ cfg = saltDisallowed ∨ cfg = dbUser) :
      k.ends pw cfg = k'.ends pw cfg := by
    obtain ⟨before, hbefore, hrun⟩ := @exists_before pw cfg hcfg
    rw [← ht, ← ht', ← hrun, ← hrun]
    exact h before hbefore
  exact sameKind_of_ends hext (hends _ (.inl rfl)) (hends _ (.inr (.inl rfl)))
    (hends _ (.inr (.inr rfl)))

/-! ## Invisible whitespace -/

/-- A `VARIABLE=VALUE` line. -/
structure VarLine (l : List Char) : Prop where
  equality : '=' ∈ l
  noComment : l.head? ≠ some '#'
  noNewline : '\n' ∉ l
  noNul : '\x00' ∉ l

/-- The result of the parser stays the same when `b` is appended to the line `l`
of any file, the last line included. -/
def BlanksIgnored (pw : Accounts) (l b : List Char) : Prop :=
  ∀ before, LinesRead before →
    (∀ after, configParse pw configStart (some (before ++ (l ++ '\n' :: after))) =
      configParse pw configStart (some (before ++ (l ++ b ++ '\n' :: after)))) ∧
    configParse pw configStart (some (before ++ l)) =
      configParse pw configStart (some (before ++ (l ++ b)))

/-- The newline behind the last line of a file makes no difference. -/
def NewlineIgnored (pw : Accounts) (last : List Char) : Prop :=
  ∀ before, LinesRead before →
    configParse pw configStart (some (before ++ last)) =
      configParse pw configStart (some (before ++ (last ++ ['\n'])))

/-- When a variable ignores blanks behind its argument. -/
def Setting.Trims (pw : Accounts) (arg b : List Char) : Setting → Prop
  | .value kind _ => b = [] ∨ kind.conv arg = none ∨ kind.Trims arg b
  | .user => pw arg = pw (arg ++ b)
  | .oobUser => pw arg = pw (arg ++ b)
  | .removed => True

/-- When a line ignores blanks at its end. -/
def BlanksTrimmed (pw : Accounts) (l b : List Char) : Prop :=
  ∀ setting ∈ findVar (lineName l), setting.Trims pw (lineArg l) b

theorem Setting.sameArg_iff (setting : Setting) (arg : List Char) {b : List Char}
    (hb : ∀ c ∈ b, isBlank c = true) :
    setting.SameArg pw arg (arg ++ b) ↔ setting.Trims pw arg b := by
  cases setting with
  | value kind var => exact eq_comm.trans (conv_blanks_iff kind hb)
  | user => exact Iff.rfl
  | oobUser => exact Iff.rfl
  | removed => exact Iff.rfl

theorem VarLine.append {l b : List Char} (h : VarLine l) (hb : ∀ c ∈ b, isBlank c = true) :
    VarLine (l ++ b) := by
  have hnot {c : Char} (hc : isBlank c = false) (hl : c ∉ l) : c ∉ l ++ b := by
    rw [List.mem_append, not_or]
    refine ⟨hl, fun hmem => ?_⟩
    rw [hb c hmem] at hc
    cases hc
  refine ⟨List.mem_append_left _ h.equality, ?_, hnot rfl h.noNewline, hnot rfl h.noNul⟩
  rw [List.head?_append_of_ne_nil _ (List.ne_nil_of_mem h.equality)]
  exact h.noComment

/-- Blanks at the end of a whole line. -/
theorem sameKind_blanks {l b : List Char} (hl : VarLine l) (hb : ∀ c ∈ b, isBlank c = true) :
    SameKind pw (lineKind l) (lineKind (l ++ b)) ↔ BlanksTrimmed pw l b := by
  have hlb := hl.append hb
  obtain ⟨name, arg, rfl, hname⟩ := List.eq_append_cons_of_mem hl.equality
  rw [lineKind_var hl.noComment hl.equality, lineKind_var hlb.noComment hlb.equality]
  unfold BlanksTrimmed
  rw [List.append_assoc, List.cons_append, (lineName_append hname arg).1,
    (lineName_append hname arg).2, (lineName_append hname _).1, (lineName_append hname _).2]
  cases findVar name with
  | none => exact iff_of_true trivial fun _ h => nomatch h
  | some setting =>
    constructor
    · rintro ⟨-, h⟩ setting' hsome
      obtain rfl := Option.some.inj hsome
      exact (setting.sameArg_iff arg hb).mp h
    · intro h
      exact ⟨rfl, (setting.sameArg_iff arg hb).mpr (h setting rfl)⟩

theorem lineKind_extends_blanks (l : List Char) {b : List Char} (hb : ∀ c ∈ b, isBlank c = true) :
    (lineKind l).Extends (lineKind (l ++ b)) := by
  rcases b with _ | ⟨c, b⟩
  · rw [List.append_nil]
    exact .refl _
  · exact lineKind_extends l c fun d hd => hb d (List.mem_cons_of_mem c hd)

theorem lineKind_extends_last {l b : List Char} (hne : l ≠ []) (hb : ∀ c ∈ b, isBlank c = true) :
    (lineKind l.dropLast).Extends (lineKind (l ++ b).dropLast) := by
  rcases List.eq_nil_or_concat b with rfl | ⟨b, d, rfl⟩
  · rw [List.append_nil]
    exact .refl _
  · obtain ⟨l, c, rfl⟩ := (List.eq_nil_or_concat l).resolve_left hne
    rw [List.concat_eq_append] at hb ⊢
    rw [List.concat_eq_append, List.dropLast_concat, ← List.append_assoc, List.dropLast_concat,
      List.append_assoc, List.singleton_append]
    exact lineKind_extends l c fun d hd => hb d (List.mem_append_left _ hd)

theorem blanksIgnored_iff {l b : List Char} (hl : VarLine l) (hb : ∀ c ∈ b, isBlank c = true)
    (hlen : (l ++ b).length ≤ 198) :
    BlanksIgnored pw l b ↔
      BlanksTrimmed pw l b ∧ SameKind pw (lineKind l.dropLast) (lineKind (l ++ b).dropLast) := by
  have hlb := hl.append hb
  have hllen : l.length ≤ 198 := by
    rw [List.length_append] at hlen
    exact Nat.le_of_add_right_le hlen
  have hne := List.ne_nil_of_mem hl.equality
  have hlbne := List.ne_nil_of_mem hlb.equality
  rw [← sameKind_blanks hl hb]
  constructor
  · intro h
    refine ⟨?_, ?_⟩
    · exact sameKind_of_run (lineKind_extends_blanks l hb)
        (configRun_ends hl.noNewline hl.noNul hllen)
        (configRun_ends hlb.noNewline hlb.noNul hlen)
        fun before hbefore => (h before hbefore).1 []
    · exact sameKind_of_run (lineKind_extends_last hne hb)
        (configRun_ends_last hl.noNewline hl.noNul hllen hne)
        (configRun_ends_last hlb.noNewline hlb.noNul hlen hlbne)
        fun before hbefore => (h before hbefore).2
  · rintro ⟨hwhole, hcut⟩ before hbefore
    refine ⟨fun after => ?_, ?_⟩
    · refine hbefore.congr (fun cfg fail => ?_) _ _
      rw [configRun_line hl.noNewline hllen, configRun_line hlb.noNewline hlen,
        configLine_line hl.noNul, configLine_line hlb.noNul, hwhole.run]
    · refine hbefore.congr (fun cfg fail => ?_) _ _
      rw [configRun_last hl.noNewline hllen hne, configRun_last hlb.noNewline hlen hlbne,
        configLine_last hl.noNul hllen hne, configLine_last hlb.noNul hlen hlbne, hcut.run]

theorem newlineIgnored_iff {last : List Char} (hl : '\n' ∉ last) (hlen : last.length ≤ 198) :
    NewlineIgnored pw last ↔
      '\x00' ∈ last ∨ SameKind pw (lineKind last.dropLast) (lineKind last) := by
  by_cases hnul : '\x00' ∈ last
  · -- the line ends in front of the last character
    refine iff_of_true (fun before hbefore => hbefore.congr (fun cfg fail => ?_) _ _) (.inl hnul)
    obtain ⟨s, r, hsr⟩ := List.append_of_mem hnul
    have hline : configLine pw (last ++ ['\n']) cfg fail = configLine pw last cfg fail := by
      have hcstr : cstr (last ++ ['\n']) = cstr last := by
        rw [hsr, List.append_assoc, List.cons_append, cstr_append_nul, cstr_append_nul]
      unfold configLine
      rw [hcstr]
    rw [configRun_last hl hlen (List.ne_nil_of_mem hnul), configRun_line hl hlen, hline]
    rfl
  rw [or_iff_right hnul]
  rcases eq_or_ne last [] with rfl | hne
  · refine iff_of_true (fun before hbefore => hbefore.congr (fun cfg fail => ?_) _ _) trivial
    exact (configRun_line (l := []) List.not_mem_nil (Nat.zero_le _) []).symm
  constructor
  · intro h
    obtain ⟨l, c, rfl⟩ := (List.eq_nil_or_concat last).resolve_left hne
    refine sameKind_of_run ?_ (configRun_ends_last hl hnul hlen hne)
      (configRun_ends hl hnul hlen) h
    rw [List.concat_eq_append, List.dropLast_concat]
    exact lineKind_extends l c fun _ h => nomatch h
  · intro hsame before hbefore
    refine hbefore.congr (fun cfg fail => ?_) _ _
    rw [configRun_last hl hlen hne, configRun_line hl hlen, configLine_line hnul,
      configLine_last hnul hlen hne, hsame.run]
    rfl

/-- Blanks behind a `VARIABLE=VALUE` line are ignored in every file if and only if
the variable trims them, and the characters that are cut of a last line without a
newline do not matter; the newline behind the last line is ignored in every file if
and only if the cut character does not matter. -/
theorem invisible_iff (pw : Accounts) :
    (∀ l b : List Char, VarLine l → (∀ c ∈ b, isBlank c = true) → (l ++ b).length ≤ 198 →
      (BlanksIgnored pw l b ↔ BlanksTrimmed pw l b ∧
        SameKind pw (lineKind l.dropLast) (lineKind (l ++ b).dropLast))) ∧
    ∀ last : List Char, '\n' ∉ last → last.length ≤ 198 →
      (NewlineIgnored pw last ↔
        '\x00' ∈ last ∨ SameKind pw (lineKind last.dropLast) (lineKind last)) :=
  ⟨fun _ _ hl hb hlen => blanksIgnored_iff hl hb hlen, fun _ hl hlen => newlineIgnored_iff hl hlen⟩

end

def noAccounts : Accounts := fun _ => none

/-- A number ignores a blank, behind a newline and behind the last line. -/
theorem invisible_iff_retry :
    (BlanksIgnored noAccounts "pam_retry=1".toList [' '] ↔
      BlanksTrimmed noAccounts "pam_retry=1".toList [' '] ∧
        SameKind noAccounts (lineKind "pam_retry=".toList) (lineKind "pam_retry=1".toList)) ∧
    (NewlineIgnored noAccounts "pam_retry=1 ".toList ↔
      '\x00' ∈ "pam_retry=1 ".toList ∨
        SameKind noAccounts (lineKind "pam_retry=1".toList) (lineKind "pam_retry=1 ".toList)) :=
  ⟨(invisible_iff noAccounts).1 "pam_retry=1".toList [' ']
    ⟨by simp, by simp, by simp, by simp⟩ (List.all_eq_true.mp rfl) (by decide),
    (invisible_iff noAccounts).2 "pam_retry=1 ".toList (by simp) (by decide)⟩

/-- A blank behind a word refuses the file, and without its newline the last line
sets another number. -/
theorem trailing_blank_refused :
    (∃ cfg, configParse noAccounts configStart
      (some "db=global\npam_silent=enabled\n".toList) = .ret 0 cfg) ∧
    (∃ cfg, configParse noAccounts configStart
      (some "db=global\npam_silent=enabled \n".toList) = .ret 1 cfg) ∧
    (∃ cfg, configParse noAccounts configStart
      (some "db=global\npam_failure_delay=500\n".toList) = .ret 0 cfg ∧
        cfg.pamFailureDelay = 500) ∧
    ∃ cfg, configParse noAccounts configStart
      (some "db=global\npam_failure_delay=500".toList) = .ret 0 cfg ∧ cfg.pamFailureDelay = 50 :=
  ⟨⟨_, rfl⟩, ⟨_, rfl⟩, ⟨_, rfl, rfl⟩, ⟨_, rfl, rfl⟩⟩

end Otpasswd
