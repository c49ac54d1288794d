import Otpasswd.Libotp.Alphabet
import Otpasswd.Lib.Scan
import Mathlib.Data.List.DropRight

/-!
# Otpasswd.Libotp.ConfigFile — the parser of the configuration

`_config_parse` reads the file line by line, cuts the last character of every
line, and sets one option for each `VARIABLE=VALUE`. The long cascade of
comparisons is the table `configVars`; how a variable takes its argument is a
`Setting`.

Main results: `configRun_line` and `configRun_last` read one line,
`LinesRead.run` reads the lines in front of it, and every file is made of such
lines (`exists_linesRead`).
-/

namespace Otpasswd

open CText

/-! ## Options -/

@[simp] abbrev configMaxLineLen : ℕ := 200
@[simp] abbrev configPathLen : ℕ := 100
@[simp] abbrev configSqlLen : ℕ := 50

/-- `cfg_t`, with the options that are only read elsewhere. -/
structure Config extends Cfg where
  userGid : Uid
  userDbPath : List Char
  sqlHost : List Char
  sqlDatabase : List Char
  sqlUser : List Char
  sqlPass : List Char
  ldapHost : List Char
  ldapDn : List Char
  ldapUser : List Char
  ldapPass : List Char
  pamEnforce : ℤ
  pamEnforcePolicy : ℤ
  pamLogging : ℤ
  pamSilent : ℤ
  pamRetry : ℤ
  pamRetries : ℤ
  pamKeyRegenerationPrompt : ℤ
  pamFailureWarning : ℤ
  pamFailureBoundary : ℤ
  pamFailureDelay : ℤ
  pamSpassRequire : ℤ
  pamOob : ℤ
  pamOobPath : List Char
  pamOobUid : Uid
  pamOobGid : Uid
  pamOobDelay : ℤ
  sourcedKeyGeneration : ℤ
  stateExport : ℤ
  stateImport : ℤ

/-- `_config_defaults`, all of it. -/
def configStart : Config where
  toCfg := configDefaults
  userGid := -1
  userDbPath := ".otpasswd".toList
  sqlHost := "localhost".toList
  sqlDatabase := "otpasswd".toList
  sqlUser := []
  sqlPass := []
  ldapHost := "localhost".toList
  ldapDn := []
  ldapUser := []
  ldapPass := []
  pamEnforce := configDisabled
  pamEnforcePolicy := configEnabled
  pamLogging := 2
  pamSilent := configDisabled
  pamRetry := 0
  pamRetries := 3
  pamKeyRegenerationPrompt := 0
  pamFailureWarning := 1
  pamFailureBoundary := 3
  pamFailureDelay := 5
  pamSpassRequire := 0
  pamOob := 0
  pamOobPath := "/etc/otpasswd/otpasswd_oob.sh".toList
  pamOobUid := -1
  pamOobGid := -1
  pamOobDelay := 10
  sourcedKeyGeneration := configDisallow
  stateExport := configAllow
  stateImport := configDisallow

/-- A variable of the configuration. -/
structure Var (α : Type) where
  get : Config → α
  set : Config → α → Config
  get_set : ∀ cfg a, get (set cfg a) = a

/-! ## Arguments -/

/-- `arg_state`, with `arg`. -/
inductive Arg where
  | none
  | int (v : ℤ)
  | policy (v : ℤ)
  | switch (v : ℤ)
deriving DecidableEq

/-- An argument is a number, or one of the words. (An empty one ends the scan
early, and is none of the words either.) -/
def parseArg (arg : List Char) : Arg :=
  match scanInt arg with
  | some (v, _) => .int v
  | none =>
    if sameWord arg "enabled".toList then .switch configEnabled
    else if sameWord arg "disabled".toList then .switch configDisabled
    else if sameWord arg "disallow".toList then .policy configDisallow
    else if sameWord arg "allow".toList then .policy configAllow
    else if sameWord arg "enforce".toList then .policy configEnforce
    else .none

/-- `_right_trim`: the first character stays. -/
def rightTrim : List Char → List Char
  | [] => []
  | c :: arg => c :: arg.rdropWhile isSpace

/-- The numbers that `REQUIRE_INT_ARG` lets pass. -/
def intArg (lo hi : ℤ) (arg : List Char) : Option ℤ :=
  match parseArg arg with
  | .int v => if v < lo ∨ hi < v then none else some v
  | _ => none

/-- What `REQUIRE_ED_ARG` lets pass. -/
def switchArg (arg : List Char) : Option ℤ :=
  match parseArg arg with
  | .switch v => some v
  | _ => none

/-- What `REQUIRE_DAE_ARG` lets pass. -/
def policyArg (enforce : Bool) (arg : List Char) : Option ℤ :=
  match parseArg arg with
  | .policy v => if enforce = false ∧ v = configEnforce then none else some v
  | _ => none

/-- `_COPY` into an array of `size` bytes. -/
def copyArg (size : ℕ) (arg : List Char) : Option (List Char) :=
  if size - 1 < arg.length then none else some (rightTrim arg)

/-- The types of databases. -/
def dbArg (arg : List Char) : Option DbType :=
  let arg := rightTrim arg
  if sameWord arg "global".toList then some .global
  else if sameWord arg "user".toList then some .user
  else if sameWord arg "mysql".toList then some .mysql
  else if sameWord arg "ldap".toList then some .ldap
  else none

/-- The kinds of arguments. -/
inductive ArgKind : Type → Type 1 where
  | requireInt (lo hi : ℤ) : ArgKind ℤ
  | requireEd : ArgKind ℤ
  | requireDae (enforce : Bool) : ArgKind ℤ
  | copy (size : ℕ) : ArgKind (List Char)
  /-- `db_user` has no slashes. -/
  | copyName (size : ℕ) : ArgKind (List Char)
  | copyAlphabet (size : ℕ) : ArgKind (List Char)
  | dbType : ArgKind DbType

/-- What is stored of an argument; `none` goes to `error`. -/
def ArgKind.conv {α : Type} : ArgKind α → List Char → Option α
  | .requireInt lo hi => intArg lo hi
  | .requireEd => switchArg
  | .requireDae enforce => policyArg enforce
  | .copy size => copyArg size
  | .copyName size => fun arg => if '/' ∈ arg then none else copyArg size arg
  | .copyAlphabet size => fun arg => if alphabetCheck arg ≠ 0 then none else copyArg size arg
  | .dbType => dbArg

/-! ## Variables -/

/-- How a variable takes its argument. -/
inductive Setting : Type 1 where
  | value {α : Type} (kind : ArgKind α) (var : Var α)
  | user
  | oobUser
  /-- The variable is refused. -/
  | removed

def requireIntArg (lo hi : ℤ) (var : Var ℤ) : Setting := .value (.requireInt lo hi) var

def requireEdArg (var : Var ℤ) : Setting := .value .requireEd var

def requireDaeArg (enforce : Bool) (var : Var ℤ) : Setting := .value (.requireDae enforce) var

def copyTo (size : ℕ) (var : Var (List Char)) : Setting := .value (.copy size) var

/-- The comparisons of the source, in their order. -/
def configVars : List (List Char × Setting) := [
  ("user".toList, .user),
  ("db".toList, .value .dbType ⟨(·.db), fun c v => { c with db := v }, fun _ _ => rfl⟩),
  ("db_user".toList, .value (.copyName configPathLen)
    ⟨Config.userDbPath, fun c v => { c with userDbPath := v }, fun _ _ => rfl⟩),
  ("sql_host".toList,
    copyTo configSqlLen ⟨Config.sqlHost, fun c v => { c with sqlHost := v }, fun _ _ => rfl⟩),
  ("sql_database".toList, copyTo configSqlLen
    ⟨Config.sqlDatabase, fun c v => { c with sqlDatabase := v }, fun _ _ => rfl⟩),
  ("sql_user".toList,
    copyTo configSqlLen ⟨Config.sqlUser, fun c v => { c with sqlUser := v }, fun _ _ => rfl⟩),
  ("sql_pass".toList,
    copyTo configSqlLen ⟨Config.sqlPass, fun c v => { c with sqlPass := v }, fun _ _ => rfl⟩),
  ("ldap_host".toList,
    copyTo configSqlLen ⟨Config.ldapHost, fun c v => { c with ldapHost := v }, fun _ _ => rfl⟩),
  ("ldap_user".toList,
    copyTo configSqlLen ⟨Config.ldapUser, fun c v => { c with ldapUser := v }, fun _ _ => rfl⟩),
  ("ldap_pass".toList,
    copyTo configSqlLen ⟨Config.ldapPass, fun c v => { c with ldapPass := v }, fun _ _ => rfl⟩),
  ("ldap_dn".toList,
    copyTo configSqlLen ⟨Config.ldapDn, fun c v => { c with ldapDn := v }, fun _ _ => rfl⟩),
  ("pam_enforce".toList,
    requireEdArg ⟨Config.pamEnforce, fun c v => { c with pamEnforce := v }, fun _ _ => rfl⟩),
  ("pam_enforce_policy".toList, requireEdArg
    ⟨Config.pamEnforcePolicy, fun c v => { c with pamEnforcePolicy := v }, fun _ _ => rfl⟩),
  ("pam_retry".toList,
    requireIntArg 0 3 ⟨Config.pamRetry, fun c v => { c with pamRetry := v }, fun _ _ => rfl⟩),
  ("pam_retries".toList,
    requireIntArg 2 5 ⟨Config.pamRetries, fun c v => { c with pamRetries := v }, fun _ _ => rfl⟩),
  ("pam_logging".toList,
    requireIntArg 0 3 ⟨Config.pamLogging, fun c v => { c with pamLogging := v }, fun _ _ => rfl⟩),
  ("pam_silent".toList,
    requireEdArg ⟨Config.pamSilent, fun c v => { c with pamSilent := v }, fun _ _ => rfl⟩),
  ("pam_oob".toList,
    requireIntArg 0 3 ⟨Config.pamOob, fun c v => { c with pamOob := v }, fun _ _ => rfl⟩),
  ("pam_oob_delay".toList, requireIntArg 0 172800
    ⟨Config.pamOobDelay, fun c v => { c with pamOobDelay := v }, fun _ _ => rfl⟩),
  ("pam_oob_user".toList, .oobUser),
  ("pam_oob_path".toList, copyTo configPathLen
    ⟨Config.pamOobPath, fun c v => { c with pamOobPath := v }, fun _ _ => rfl⟩),
  ("pam_key_regeneration_prompt".toList, requireEdArg ⟨Config.pamKeyRegenerationPrompt,
    fun c v => { c with pamKeyRegenerationPrompt := v }, fun _ _ => rfl⟩),
  ("pam_failure_warning".toList, requireEdArg
    ⟨Config.pamFailureWarning, fun c v => { c with pamFailureWarning := v }, fun _ _ => rfl⟩),
  ("pam_failure_boundary".toList, requireIntArg 0 500 ⟨Config.pamFailureBoundary,
    fun c v => { c with pamFailureBoundary := v }, fun _ _ => rfl⟩),
  ("pam_failure_delay".toList, requireIntArg 0 500
    ⟨Config.pamFailureDelay, fun c v => { c with pamFailureDelay := v }, fun _ _ => rfl⟩),
  ("pam_spass_require".toList, requireEdArg
    ⟨Config.pamSpassRequire, fun c v => { c with pamSpassRequire := v }, fun _ _ => rfl⟩),
  ("key_generation".toList, requireDaeArg false
    ⟨(·.keyGeneration), fun c v => { c with keyGeneration := v }, fun _ _ => rfl⟩),
  ("key_regeneration".toList, requireDaeArg false
    ⟨(·.keyRegeneration), fun c v => { c with keyRegeneration := v }, fun _ _ => rfl⟩),
  ("disabling".toList, requireDaeArg false
    ⟨(·.disabling), fun c v => { c with disabling := v }, fun _ _ => rfl⟩),
  ("sourced_key_generation".toList, requireDaeArg false ⟨Config.sourcedKeyGeneration,
    fun c v => { c with sourcedKeyGeneration := v }, fun _ _ => rfl⟩),
  ("key_removal".toList, requireDaeArg false
    ⟨(·.keyRemoval), fun c v => { c with keyRemoval := v }, fun _ _ => rfl⟩),
  ("skipping".toList, requireDaeArg false
    ⟨(·.skipping), fun c v => { c with skipping := v }, fun _ _ => rfl⟩),
  ("backward_skipping".toList, .removed),
  ("verbose_output".toList, .removed),
  ("shell_auth".toList, requireDaeArg false
    ⟨(·.shellAuth), fun c v => { c with shellAuth := v }, fun _ _ => rfl⟩),
  ("passcode_print".toList, requireDaeArg false
    ⟨(·.passcodePrint), fun c v => { c with passcodePrint := v }, fun _ _ => rfl⟩),
  ("key_print".toList, requireDaeArg false
    ⟨(·.keyPrint), fun c v => { c with keyPrint := v }, fun _ _ => rfl⟩),
  ("salt".toList, requireDaeArg true
    ⟨(·.salt), fun c v => { c with salt := v }, fun _ _ => rfl⟩),
  ("salt_def".toList, requireEdArg
    ⟨(·.saltDef), fun c v => { c with saltDef := v }, fun _ _ => rfl⟩),
  ("show".toList, requireDaeArg true
    ⟨(·.show), fun c v => { c with «show» := v }, fun _ _ => rfl⟩),
  ("show_def".toList, requireEdArg
    ⟨(·.showDef), fun c v => { c with showDef := v }, fun _ _ => rfl⟩),
  ("state_import".toList, requireDaeArg false
    ⟨Config.stateImport, fun c v => { c with stateImport := v }, fun _ _ => rfl⟩),
  ("state_export".toList, requireDaeArg false
    ⟨Config.stateExport, fun c v => { c with stateExport := v }, fun _ _ => rfl⟩),
  ("contact_change".toList, requireDaeArg false
    ⟨(·.contactChange), fun c v => { c with contactChange := v }, fun _ _ => rfl⟩),
  ("label_change".toList, requireDaeArg false
    ⟨(·.labelChange), fun c v => { c with labelChange := v }, fun _ _ => rfl⟩),
  ("passcode_def_length".toList, requireIntArg 2 16
    ⟨(·.passcodeDefLength), fun c v => { c with passcodeDefLength := v }, fun _ _ => rfl⟩),
  ("passcode_min_length".toList, requireIntArg 2 16
    ⟨(·.passcodeMinLength), fun c v => { c with passcodeMinLength := v }, fun _ _ => rfl⟩),
  ("passcode_max_length".toList, requireIntArg 2 16
    ⟨(·.passcodeMaxLength), fun c v => { c with passcodeMaxLength := v }, fun _ _ => rfl⟩),
  ("alphabet_change".toList, requireDaeArg false
    ⟨(·.alphabetChange), fun c v => { c with alphabetChange := v }, fun _ _ => rfl⟩),
  ("alphabet_def".toList, requireIntArg 1 2
    ⟨(·.alphabetDef), fun c v => { c with alphabetDef := v }, fun _ _ => rfl⟩),
  ("alphabet_min_length".toList, requireIntArg 5 88
    ⟨(·.alphabetMinLength), fun c v => { c with alphabetMinLength := v }, fun _ _ => rfl⟩),
  ("alphabet_max_length".toList, requireIntArg 5 88
    ⟨(·.alphabetMaxLength), fun c v => { c with alphabetMaxLength := v }, fun _ _ => rfl⟩),
  ("alphabet_custom".toList,
    .value (.copyAlphabet configAlphabetLen)
      ⟨(·.alphabetCustom), fun c v => { c with alphabetCustom := v }, fun _ _ => rfl⟩),
  ("spass_change".toList, requireDaeArg false
    ⟨(·.spassChange), fun c v => { c with spassChange := v }, fun _ _ => rfl⟩),
  ("spass_min_length".toList, requireIntArg 4 500
    ⟨(·.spassMinLength), fun c v => { c with spassMinLength := v }, fun _ _ => rfl⟩),
  ("spass_require_digit".toList, requireIntArg 0 20
    ⟨(·.spassRequireDigit), fun c v => { c with spassRequireDigit := v }, fun _ _ => rfl⟩),
  ("spass_require_special".toList, requireIntArg 0 20
    ⟨(·.spassRequireSpecial), fun c v => { c with spassRequireSpecial := v }, fun _ _ => rfl⟩),
  ("spass_require_uppercase".toList, requireIntArg 0 20
    ⟨(·.spassRequireUppercase), fun c v => { c with spassRequireUppercase := v }, fun _ _ => rfl⟩)]

/-- The variable of a name. -/
def findVar (name : List Char) : Option Setting :=
  (configVars.find? fun entry => decide (sameWord name entry.1)).map Prod.snd

/-! ## The parser -/

/-- `getpwnam`: the identities of an account. -/
abbrev Accounts := List Char → Option (Uid × Uid)

/-- The branch of a variable: whether it goes on, and the configuration. -/
def Setting.apply (pw : Accounts) (cfg : Config) (arg : List Char) : Setting → Bool × Config
  | .value kind var =>
    match kind.conv arg with
    | none => (false, cfg)
    | some v => (true, var.set cfg v)
  | .user =>
    if cfg.db = .user then (true, cfg)
    else
      match pw arg with
      | none => (false, cfg)
      | some (uid, gid) =>
        (decide (uid ≠ 0), { cfg with userUid := uid, userGid := gid })
  | .oobUser =>
    match pw arg with
    | none => (false, cfg)
    | some (uid, gid) => (decide (uid ≠ 0), { cfg with pamOobUid := uid, pamOobGid := gid })
  | .removed => (false, cfg)

/-- How an iteration of the loop ends. -/
inductive LineEnd where
  | next (cfg : Config) (fail : Bool)
  | error (cfg : Config)
  /-- A write in front of the buffer. -/
  | overrun

/-- How the parser ends. -/
inductive ConfigEnd where
  | ret (code : ℕ) (cfg : Config)
  | overrun

/-- A blank of the lines that are passed over. -/
def isBlank (c : Char) : Bool := c = ' ' ∨ c = '\t'

/-- A line whose last character was cut. -/
def configVariable (pw : Accounts) (line : List Char) (cfg : Config) (fail : Bool) : LineEnd :=
  if line.head? = some '#' then .next cfg fail
  else if line.dropWhile isBlank = [] then .next cfg fail
  else if '=' ∉ line then .error cfg
  else
    match findVar (line.takeWhile (· ≠ '=')) with
    | none => .next cfg true
    | some setting =>
      match setting.apply pw cfg (line.dropWhile (· ≠ '=')).tail with
      | (true, cfg) => .next cfg fail
      | (false, cfg) => .error cfg

/-- What is done with the line in the buffer. The last character that `fgets`
returned is cut, whatever it is. -/
def configLine (pw : Accounts) (buff : List Char) (cfg : Config) (fail : Bool) : LineEnd :=
  let line := cstr buff
  if line.length = configMaxLineLen - 1 ∧ line.getLast? ≠ some '\n' then .error cfg
  else if line = [] then .overrun
  else configVariable pw line.dropLast cfg fail

/-- The checks behind the loop. -/
def configCheck (cfg : Config) (fail : Bool) : ConfigEnd :=
  if cfg.show = configDisallow ∧ cfg.showDef = configEnabled then .ret 2 cfg
  else if cfg.show = configEnforce ∧ cfg.showDef = configDisabled then .ret 2 cfg
  else if cfg.salt = configDisallow ∧ cfg.saltDef = configEnabled then .ret 2 cfg
  else if cfg.salt = configEnforce ∧ cfg.saltDef = configDisabled then .ret 2 cfg
  else if cfg.passcodeMaxLength < cfg.passcodeDefLength ∨
      cfg.passcodeDefLength < cfg.passcodeMinLength then .ret 2 cfg
  else if fail then .ret 1 cfg
  else if cfg.db = .unconfigured then .ret 5 cfg
  else .ret 0 cfg

/-- The `do` loop; `n` bounds the number of lines. -/
def configLoop (pw : Accounts) : ℕ → InFile → Config → Bool → ConfigEnd
  | 0, _, cfg, fail => configCheck cfg fail
  | n + 1, f, cfg, fail =>
    match fgets configMaxLineLen f with
    | (none, _) => configCheck cfg fail
    | (some buff, f) =>
      match configLine pw buff cfg fail with
      | .overrun => .overrun
      | .error cfg => .ret 1 cfg
      | .next cfg fail => if f.eof then configCheck cfg fail else configLoop pw n f cfg fail

/-- The loop over a text; every iteration reads a character, so the bound is
never reached. -/
def configRun (pw : Accounts) (text : List Char) (cfg : Config) (fail : Bool) : ConfigEnd :=
  configLoop pw (text.length + 1) ⟨text, false, none⟩ cfg fail

/-- `_config_parse` of a file, or of none. -/
def configParse (pw : Accounts) (cfg : Config) (file : Option (List Char)) : ConfigEnd :=
  match file with
  | none => .ret 1 cfg
  | some text => configRun pw text cfg false

/-! ## Reading lines -/

section

variable {pw : Accounts} {cfg : Config} {fail : Bool}

/-- What follows an iteration. -/
def LineEnd.andThen (e : LineEnd) (k : Config → Bool → ConfigEnd) : ConfigEnd :=
  match e with
  | .overrun => .overrun
  | .error cfg => .ret 1 cfg
  | .next cfg fail => k cfg fail

theorem configLoop_succ (n : ℕ) (f : InFile) : configLoop pw (n + 1) f cfg fail =
    match fgets configMaxLineLen f with
    | (none, _) => configCheck cfg fail
    | (some buff, f) => (configLine pw buff cfg fail).andThen fun cfg fail =>
        if f.eof then configCheck cfg fail else configLoop pw n f cfg fail := by
  rw [configLoop]
  rcases fgets configMaxLineLen f with ⟨_ | buff, f'⟩
  · rfl
  · simp only
    cases configLine pw buff cfg fail with
    | next cfg fail => rfl
    | error cfg => rfl
    | overrun => rfl

/-- One `fgets` on a text that is not empty. -/
theorem fgets_text {text : List Char} (h : text ≠ []) :
    fgets configMaxLineLen ⟨text, false, none⟩ = (some (lineSplit 199 text).1,
      ⟨(lineSplit 199 text).2, decide ((lineSplit 199 text).1.getLast? ≠ some '\n' ∧
        (lineSplit 199 text).1.length < 199), none⟩) := by
  have hne : (lineSplit 199 text).1 ≠ [] := by
    rcases text with _ | ⟨c, text⟩
    · exact absurd rfl h
    · rw [lineSplit]
      split_ifs
      · exact List.cons_ne_nil _ _
      · exact List.cons_ne_nil _ _
  unfold fgets
  rw [if_neg (by simp)]
  change (if (lineSplit 199 text).1 = [] then _ else _) = _
  rw [if_neg hne]
  rfl

theorem lineSplit_rest_lt {n : ℕ} {text : List Char} (h : text ≠ []) :
    (lineSplit (n + 1) text).2.length < text.length := by
  rcases text with _ | ⟨c, text⟩
  · exact absurd rfl h
  · have happ := congrArg List.length (lineSplit_append n text)
    rw [List.length_append] at happ
    rw [lineSplit]
    split_ifs
    · exact Nat.lt_succ_self _
    · simp only [List.length_cons]
      omega

/-- The bound on the loop does not matter. -/
theorem configLoop_bound {n m : ℕ} {text : List Char} (hn : text.length < n)
    (hm : text.length < m) : configLoop pw n ⟨text, false, none⟩ cfg fail =
      configLoop pw m ⟨text, false, none⟩ cfg fail := by
  induction n generalizing m text cfg fail with
  | zero => exact absurd hn (Nat.not_lt_zero _)
  | succ n ih =>
    obtain ⟨m, rfl⟩ := Nat.exists_eq_succ_of_ne_zero (Nat.ne_zero_of_lt hm)
    rw [configLoop_succ, configLoop_succ]
    by_cases hnil : text = []
    · rw [hnil]
      rfl
    · have hlt : (lineSplit 199 text).2.length < text.length := lineSplit_rest_lt hnil
      rw [fgets_text hnil]
      simp only
      cases configLine pw (lineSplit 199 text).1 cfg fail with
      | overrun => rfl
      | error cfg => rfl
      | next cfg fail =>
        simp only [LineEnd.andThen]
        by_cases heof : decide ((lineSplit 199 text).1.getLast? ≠ some '\n' ∧
            (lineSplit 199 text).1.length < 199) = true
        · rw [heof]
          rfl
        · rw [Bool.eq_false_of_not_eq_true heof]
          simp only [Bool.false_eq_true, if_false]
          exact ih (by omega) (by omega)

/-- The first line that `fgets` returns, and the rest. -/
theorem configRun_step {text : List Char} (h : text ≠ []) :
    configRun pw text cfg fail =
      (configLine pw (lineSplit 199 text).1 cfg fail).andThen fun cfg fail =>
        if (lineSplit 199 text).1.getLast? ≠ some '\n' ∧ (lineSplit 199 text).1.length < 199 then
          configCheck cfg fail
        else configRun pw (lineSplit 199 text).2 cfg fail := by
  unfold configRun
  rw [configLoop_succ, fgets_text h]
  simp only
  cases configLine pw (lineSplit 199 text).1 cfg fail with
  | overrun => rfl
  | error cfg => rfl
  | next cfg fail =>
    have hlt : (lineSplit 199 text).2.length < text.length := lineSplit_rest_lt h
    simp only [LineEnd.andThen]
    by_cases heof : (lineSplit 199 text).1.getLast? ≠ some '\n' ∧
        (lineSplit 199 text).1.length < 199
    · rw [if_pos heof, decide_eq_true heof]
      rfl
    · rw [if_neg heof, decide_eq_false heof]
      simp only [Bool.false_eq_true, if_false]
      exact configLoop_bound hlt (Nat.lt_succ_self _)

theorem configRun_nil : configRun pw [] cfg fail = configCheck cfg fail := rfl

/-- A whole line, without its newline. -/
theorem configRun_line {l : List Char} (hl : '\n' ∉ l) (hlen : l.length ≤ 198)
    (rest : List Char) : configRun pw (l ++ '\n' :: rest) cfg fail =
      (configLine pw (l ++ ['\n']) cfg fail).andThen (configRun pw rest) := by
  rw [configRun_step (List.append_ne_nil_of_right_ne_nil _ (List.cons_ne_nil _ _)),
    lineSplit_line hl (Nat.lt_succ_of_le hlen)]
  simp only [List.getLast?_concat, ne_eq, not_true_eq_false, false_and, if_false]

theorem lineSplit_whole {n : ℕ} {l : List Char} (hl : '\n' ∉ l) (hlen : l.length ≤ n) :
    lineSplit n l = (l, []) := by
  induction l generalizing n with
  | nil => cases n <;> rfl
  | cons c l ih =>
    obtain ⟨n, rfl⟩ := Nat.exists_eq_succ_of_ne_zero (Nat.ne_zero_of_lt hlen)
    rw [List.mem_cons, not_or] at hl
    rw [lineSplit, if_neg (Ne.symm hl.1), ih hl.2 (Nat.le_of_succ_le_succ hlen)]

/-- A last line without a newline. -/
theorem configRun_last {l : List Char} (hl : '\n' ∉ l) (hlen : l.length ≤ 198) (hne : l ≠ []) :
    configRun pw l cfg fail = (configLine pw l cfg fail).andThen configCheck := by
  rw [configRun_step hne, lineSplit_whole hl (Nat.le_succ_of_le hlen)]
  simp only [configRun_nil, ite_self]

theorem lineSplit_full {n : ℕ} {l : List Char} (hl : '\n' ∉ l) (hlen : l.length = n)
    (rest : List Char) : lineSplit n (l ++ rest) = (l, rest) := by
  induction l generalizing n with
  | nil =>
    subst hlen
    rfl
  | cons c l ih =>
    subst hlen
    rw [List.mem_cons, not_or] at hl
    rw [List.cons_append, List.length_cons, lineSplit, if_neg (Ne.symm hl.1), ih hl.2 rfl]

/-- A line that fills the buffer. -/
theorem configRun_full {l : List Char} (hl : '\n' ∉ l) (hlen : l.length = 199)
    (rest : List Char) : configRun pw (l ++ rest) cfg fail =
      (configLine pw l cfg fail).andThen (configRun pw rest) := by
  have hne : l ++ rest ≠ [] := by
    refine List.append_ne_nil_of_left_ne_nil (fun h => ?_) rest
    rw [h] at hlen
    cases hlen
  rw [configRun_step hne, lineSplit_full hl hlen]
  simp only [hlen, lt_irrefl, and_false, if_false]

end

/-! ## Lines in front -/

/-- What `fgets` has read when it comes to a line. -/
inductive LinesRead : List Char → Prop
  | nil : LinesRead []
  | line {l rest : List Char} (hl : '\n' ∉ l) (hlen : l.length ≤ 198) (h : LinesRead rest) :
      LinesRead (l ++ '\n' :: rest)
  | full {l rest : List Char} (hl : '\n' ∉ l) (hlen : l.length = 199) (h : LinesRead rest) :
      LinesRead (l ++ rest)

/-- Every file is lines, and a last one without a newline. -/
theorem exists_linesRead (text : List Char) : ∃ before last, text = before ++ last ∧
    LinesRead before ∧ '\n' ∉ last ∧ last.length ≤ 198 := by
  induction hn : text.length using Nat.strong_induction_on generalizing text with
  | _ n ih =>
    by_cases hlast : '\n' ∉ text ∧ text.length ≤ 198
    · exact ⟨[], text, rfl, .nil, hlast.1, hlast.2⟩
    · -- the line that `fgets` returns ends in a newline, or fills the buffer
      have hsplit : ∃ l rest, text = l ++ rest ∧ l ≠ [] ∧
          ∀ before, LinesRead before → LinesRead (l ++ before) := by
        by_cases hnl : '\n' ∈ text.take 199
        · obtain ⟨l, r, htake, hl⟩ := List.eq_append_cons_of_mem hnl
          have hlen := congrArg List.length htake
          rw [List.length_append, List.length_cons, List.length_take] at hlen
          refine ⟨l ++ ['\n'], r ++ text.drop 199, ?_, List.append_ne_nil_of_right_ne_nil _
            (List.cons_ne_nil _ _), fun before hbefore => ?_⟩
          · rw [List.append_assoc, List.singleton_append, ← List.cons_append, ← List.append_assoc,
              ← htake, List.take_append_drop]
          · rw [List.append_assoc, List.singleton_append]
            exact .line hl (by omega) hbefore
        · have hlong : 199 ≤ text.length := by
            by_contra hshort
            rw [List.take_of_length_le (by omega)] at hnl
            exact hlast ⟨hnl, by omega⟩
          have hlen : (text.take 199).length = 199 := by
            rw [List.length_take]
            omega
          refine ⟨text.take 199, text.drop 199, (List.take_append_drop _ _).symm, fun h => ?_,
            fun before hbefore => .full hnl hlen hbefore⟩
          rw [h] at hlen
          cases hlen
      obtain ⟨l, rest, rfl, hne, hread⟩ := hsplit
      have hpos := List.length_pos_of_ne_nil hne
      rw [List.length_append] at hn
      obtain ⟨before, last, rfl, hbefore, hl, hlen⟩ := ih rest.length (by omega) rest rfl
      exact ⟨l ++ before, last, (List.append_assoc _ _ _).symm, hread before hbefore, hl, hlen⟩

/-- An iteration ends the run, or leads where what follows it leads. -/
theorem LineEnd.andThen_cases {pw : Accounts} {k : List Char → Config → Bool → ConfigEnd}
    (hk : ∀ cfg fail, (∃ e, ∀ rest, k rest cfg fail = e) ∨
      ∃ cfg' fail', ∀ rest, k rest cfg fail = configRun pw rest cfg' fail') (e : LineEnd) :
    (∃ e', ∀ rest, e.andThen (k rest) = e') ∨
      ∃ cfg' fail', ∀ rest, e.andThen (k rest) = configRun pw rest cfg' fail' := by
  cases e with
  | overrun => exact .inl ⟨.overrun, fun _ => rfl⟩
  | error cfg => exact .inl ⟨.ret 1 cfg, fun _ => rfl⟩
  | next cfg fail => exact hk cfg fail

/-- The lines in front of a line end the run, or lead to the line. -/
theorem LinesRead.run {before : List Char} (h : LinesRead before) (pw : Accounts) (cfg : Config)
    (fail : Bool) : (∃ e, ∀ rest, configRun pw (before ++ rest) cfg fail = e) ∨
      ∃ cfg' fail', ∀ rest, configRun pw (before ++ rest) cfg fail =
        configRun pw rest cfg' fail' := by
  induction h generalizing cfg fail with
  | nil => exact .inr ⟨cfg, fail, fun _ => rfl⟩
  | line hl hlen _ ih =>
    simp only [List.append_assoc, List.cons_append, configRun_line hl hlen]
    exact LineEnd.andThen_cases ih _
  | full hl hlen _ ih =>
    simp only [List.append_assoc, configRun_full hl hlen]
    exact LineEnd.andThen_cases ih _

end Otpasswd
