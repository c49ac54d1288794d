import Otpasswd.Pam.Iface

/-!
# Otpasswd.Pam.Helpers — the functions of `pam_helpers.c`

What `pam_otpasswd.c` is made of: the start of a session, messages and
questions, the next passcode, and the message that is sent out of band. A
missing response is dereferenced where a static password is checked, which
stops the program.
-/

namespace Otpasswd

open CText

/-! ## Talking to the user -/

/-- `ph_show_message`. -/
def phShowMessage (cfg : Config) (msg : List Char) : PamM PUnit :=
  if cfg.pamSilent = configEnabled then return ⟨⟩ else pamSys (.message msg)

/-- `ph_query_user`, with the response it gets. -/
def phQueryUser (echo : Bool) (prompt : List Char) (answer : Option CString) :
    PamM (Option CString) := do
  pamSys (.query echo prompt answer)
  return answer

/-- The question of `ph_validate_spass`. -/
def spassPrompt : List Char := "Static password: ".toList

/-- `ph_validate_spass`. -/
def phValidateSpass (s : Option State) (answer : Option CString) : PamM ℕ := do
  let pr ← phQueryUser false spassPrompt answer
  match s, pr with
  -- without a state the question is only for show
  | none, _ => return 1
  | some _, none => .abort
  | some s, some resp => pam (.spassValidate s resp)

/-! ## Out of band -/

/-- Whether the configured user can execute the script. -/
def ScriptStat.executable (cfg : Config) (st : ScriptStat) : Bool :=
  st.othersExecute ||
    (st.ownerExecutes && decide (st.uid = cfg.pamOobUid)) ||
    (st.groupExecutes && decide (st.gid = cfg.pamOobGid))

/-- The checks of `ph_oob_send` on the script. -/
def ScriptStat.usable (cfg : Config) (st : ScriptStat) : Bool :=
  st.isReg && !st.isSuid && !st.isSgid && st.executable cfg

/-- The loop that waits for the script: `none` is an error, else whether the
script ended in time. -/
def oobWait : ℕ → PamM (Option Bool)
  | 0 => return some false
  | n + 1 => do
    pamSys (.usleep 7000)
    match ← pamSys .waitpid with
    | .exited => return some true
    | .error => return none
    | .running => oobWait n

/-- The parent's part of `ph_oob_send`. -/
def oobParent : PamM ℕ := do
  match ← oobWait 200 with
  | none => return 1
  | some true => return 0
  | some false =>
    pamSys .kill
    pamSys (.usleep 100)
    let _ ← pamSys .waitpid
    return 2

/-- The child's part of `ph_oob_send`, with its exit code. -/
def oobChild (cfg : Config) (c : OobChild) : PamM ℕ := do
  let (retval, _) ← pam (.stateRelease c.s {})
  if retval ≠ 0 then return 10
  else if (← pamSys (.setgid cfg.pamOobGid)) = false then return 11
  else if (← pamSys (.setuid cfg.pamOobUid)) = false then return 12
  else
    pamSys (.execl cfg.pamOobPath c.contact c.passcode)
    return 13

/-- `ph_oob_send` from the check of the script on. -/
def phOobStart (cfg : Config) (s : State) : PamM ℕ := do
  match ← pamSys (.statScript cfg.pamOobPath) with
  | none => return 2
  | some st =>
    if st.usable cfg = false then return 2
    else
      let (retval, passcode) ← pam (.getCurrent s)
      if retval ≠ 0 then return retval
      else if s.contact.val = [] then return 2
      -- before anything invasive, the channel time is updated
      else if (← pam (.oobTime s)) ≠ 0 then return 2
      else if (← pamSys (.fork ⟨s, s.contact.val, passcode⟩)) = false then return 1
      else oobParent

/-- Whether too little time has passed at `now` since the channel was used. -/
def oobTooEarly (cfg : Config) (s : State) (now : Word64) : Bool :=
  numCmpI (numSub (numI now) (numI s.channelTime)) (BitVec.ofInt 64 cfg.pamOobDelay) < 0

/-- `ph_oob_send`. -/
def phOobSend (cfg : Config) (s : State) : PamM ℕ := do
  Prog.assert (s.lock ≤ 0)
  if cfg.pamOob = oobDisabled then return 1
  else
    let now ← pamSys (.lib .time)
    if oobTooEarly cfg s now then
      phShowMessage cfg "Not enough delay between two OTP uses.".toList
      return 1
    else phOobStart cfg s

/-! ## The next passcode -/

/-- A message to the user who is refused. -/
def phRefuse (cfg : Config) (s : State) (msg : String) : PamM (PamCode × State) := do
  phShowMessage cfg msg.toList
  return (.authErr, s)

/-- `enforced_fail` of `ph_increment`. -/
def phEnforcedFail (cfg : Config) (s : State) : PamM (PamCode × State) :=
  phRefuse cfg s "OTP: Key not generated, unable to login."

/-- The `switch` of `ph_increment`. -/
def phVerdict (cfg : Config) (ret : ℕ) (s : State) : PamM (PamCode × State) :=
  if ret = 0 then return (.success, s)
  else if ret = stateNumspace then
    phRefuse cfg s "OTP: Passcode counter overflowed or state file corrupted. Regenerate key."
  else if ret = stateLockError then phRefuse cfg s "OTP: Unable to lock state file."
  else if ret = stateNoUserHome ∨ ret = stateNonExistent then
    if cfg.pamEnforce = configEnabled ∧ cfg.db = .user then phEnforcedFail cfg s
    else return (.ignore, s)
  else if ret = stateNoUserEntry then
    if cfg.pamEnforce = configEnabled then phEnforcedFail cfg s else return (.ignore, s)
  else if ret = pppErrorPolicy then
    phRefuse cfg s "OTP: Your state is inconsistent with system policy. Contact administrator."
  else if ret = pppErrorRange then
    phRefuse cfg s "OTP: Your state is invalid. Contact administrator."
  else if ret = pppErrorDisabled then
    if cfg.pamEnforce = configEnabled then
      phRefuse cfg s
        "OTP: Your state is disabled. Unable to authenticate. Contact administrator."
    else return (.ignore, s)
  else return (.authErr, s)

/-- `ph_increment`. -/
def phIncrement (cfg : Config) (s : State) : PamM (PamCode × State) := do
  let (ret, s) ← pam (.increment s)
  phVerdict cfg ret s

/-! ## The session -/

/-- One option of the module. An unknown one is only reported. -/
def phParseOption (cfg : Config) (opt : List Char) : Config :=
  if opt = "audit".toList then { cfg with pamLogging := 2 }
  else if opt = "debug".toList then { cfg with pamLogging := 3 }
  else if opt = "silent".toList then { cfg with pamSilent := configEnabled }
  else cfg

/-- `ph_parse_module_options`; `silent` is the flag `PAM_SILENT`. -/
def phParseModuleOptions (cfg : Config) (silent : Bool) (argv : List (List Char)) : Config :=
  let cfg := argv.foldl phParseOption cfg
  if silent then { cfg with pamSilent := configEnabled } else cfg

/-- `ph_init`, with the configuration that the options of the module leave. -/
def phInit (cfg : Config) (silent : Bool) (argv : List (List Char)) :
    PamM (Except PamCode (Config × State)) := do
  if (← pamSys .pppInit) ≠ 0 then return .error .serviceErr
  else
    let cfg := phParseModuleOptions cfg silent argv
    -- the switch on the log level
    Prog.assert (0 ≤ cfg.pamLogging ∧ cfg.pamLogging ≤ 3)
    let (ok, user) ← pamSys .getUser
    match user with
    | none => return .error .userUnknown
    | some user =>
      if ok = false ∨ user.val = [] then return .error .userUnknown
      else
        match ← pam (.stateInit user) with
        | .error _ => return .error .userUnknown
        | .ok s =>
          -- the name is read through the pointer, whether it was copied or not
          if s.named = false then .crash
          else if s.username.val = [] then return .error .authErr
          else return .ok (cfg, s)

/-- `ph_fini`. -/
def phFini (s : State) : PamM PUnit := pam (.stateFini s)

end Otpasswd
