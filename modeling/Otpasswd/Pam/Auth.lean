import Otpasswd.Pam.Helpers

/-!
# Otpasswd.Pam.Auth — the entry points of the PAM module

`pam_sm_authenticate` and `pam_sm_open_session`. The loop of the first one
takes one response for each question, two where a request for an out-of-band
message has to be confirmed with the static password; when there are no more
responses, the next one is missing.
-/

namespace Otpasswd

open CText

/-! ## Authentication -/

/-- The variables of the loop. -/
structure Auth where
  s : State
  prompt : List Char
  retval : PamCode
  firstTry : Bool
  dontIncrement : Bool
  tries : ℕ
  oobSent : Bool

/-- How a part of an iteration ends. -/
inductive AuthEnd where
  /-- `goto cleanup`. -/
  | exit (retval : PamCode) (s : State)
  | next (l : Auth)

/-- What follows a part that does not leave the loop. -/
def AuthEnd.andThen (e : AuthEnd) (f : Auth → PamM (PamCode × State)) : PamM (PamCode × State) :=
  match e with
  | .exit retval s => return (retval, s)
  | .next l => f l

/-- The number of attempts. -/
def authLimit (cfg : Config) : ℤ := if cfg.pamRetry = 0 then 1 else cfg.pamRetries

/-- Another passcode and its prompt, the first time and where a retry changes
the passcode. After a request for a message the passcode stays. -/
def authPasscode (cfg : Config) (l : Auth) : PamM AuthEnd := do
  if l.firstTry = true ∨ cfg.pamRetry = 1 then
    let l := { l with firstTry := false }
    if l.dontIncrement then return .next { l with dontIncrement := false }
    else
      let (retval, s) ← phIncrement cfg l.s
      if retval ≠ .success then return .exit retval s
      else
        match ← pam (.getPrompt s) with
        | (.text prompt, s) => return .next { l with s := s, prompt := prompt }
        | (_, s) => return .exit .authErr s
  else return .next l

/-- An iteration up to its question. -/
def authBegin (cfg : Config) (l : Auth) : PamM AuthEnd := do
  if l.tries < authLimit cfg then
    match ← authPasscode cfg l with
    | .exit retval s => return .exit retval s
    | .next l =>
      if cfg.pamOob = oobAlways then
        let _ ← phOobSend cfg l.s
        return .next { l with retval := .authErr }
      else return .next { l with retval := .authErr }
  else return .exit l.retval l.s

/-- The script is called, and the user is told if that worked. -/
def authSend (cfg : Config) (l : Auth) : PamM AuthEnd := do
  if (← phOobSend cfg l.s) = 0 then
    phShowMessage cfg "Out-of-band message sent.".toList
    return .next { l with oobSent := true, dontIncrement := true }
  else return .next { l with dontIncrement := true }

/-- Whether a request for a message asks for the static password. -/
def asksSpass (cfg : Config) (l : Auth) : Bool :=
  !l.oobSent && decide (cfg.pamOob = oobSecureRequest)

/-- The branch of a request for a message; `spass` is what the question for
the static password is answered. -/
def authRequest (cfg : Config) (l : Auth) (spass : Option CString) : PamM AuthEnd := do
  if l.oobSent then
    phShowMessage cfg "Out-of-band message already sent.".toList
    return .next { l with dontIncrement := true }
  else if cfg.pamOob = oobRequest then authSend cfg l
  else if cfg.pamOob = oobSecureRequest then
    if (← phValidateSpass (some l.s) spass) = 0 then authSend cfg l
    else
      pamSys (.sleep 2)
      return .next { l with tries := l.tries + 1, dontIncrement := true }
  else .abort

/-- The branch of a passcode. -/
def authTry (l : Auth) (resp : CString) : PamM AuthEnd := do
  let l := { l with tries := l.tries + 1 }
  if (← pam (.authenticate l.s resp)) = 0 then return .exit .success l.s
  else
    let _ ← pam (.failures l.s false)
    return .next { l with retval := .authErr }

/-- The response that asks for a message. -/
def oobResponse : List Char := ".".toList

/-- A question that gets no response. -/
def authSilent (l : Auth) : PamM (PamCode × State) := do
  let _ ← phQueryUser (pppFlagCheck l.s flagShow) l.prompt none
  return (l.retval, l.s)

/-- An iteration whose question gets no response. -/
def authNone (cfg : Config) (l : Auth) : PamM (PamCode × State) := do
  (← authBegin cfg l).andThen authSilent

/-- An iteration whose question is answered by `resp`. If that is a request
for a message and has to be confirmed, `spass` is taken too, and `after`
follows in place of `again`. -/
def authAnswer (cfg : Config) (l : Auth) (resp : CString) (spass : Option CString)
    (again after : Auth → PamM (PamCode × State)) : PamM (PamCode × State) := do
  (← authBegin cfg l).andThen fun l => do
    let _ ← phQueryUser (pppFlagCheck l.s flagShow) l.prompt (some resp)
    if resp.val = oobResponse then
      (← authRequest cfg l spass).andThen (if asksSpass cfg l then after else again)
    else (← authTry l resp).andThen again

/-- The loop, over the responses of the user. -/
def authLoop (cfg : Config) : List (Option CString) → Auth → PamM (PamCode × State)
  | [], l => authNone cfg l
  | none :: _, l => authNone cfg l
  | [some resp], l => authAnswer cfg l resp none (authNone cfg) (authNone cfg)
  | some resp :: spass :: rest, l =>
    authAnswer cfg l resp spass (authLoop cfg (spass :: rest)) (authLoop cfg rest)

/-- The variables before the loop. -/
def Auth.start (s : State) : Auth := ⟨s, [], .success, true, false, 0, false⟩

/-- The loop and the cleanup behind it. -/
def authRun (cfg : Config) (s : State) (answers : List (Option CString)) : PamM PamCode := do
  let (retval, s) ← authLoop cfg answers (Auth.start s)
  phFini s
  return retval

/-- The question for the static password, and the loop behind it. -/
def authConfirm (cfg : Config) (s : State) (answers : List (Option CString)) : PamM PamCode := do
  -- the question is asked even if there is no state
  let (retval, s) ← pam (.stateLoad s { dontLock := true })
  let loaded := if retval = 0 then some s else none
  if (← phValidateSpass loaded answers.head?.join) ≠ 0 then
    pamSys (.sleep 2)
    return .authErr
  else authRun cfg s answers.tail

/-- `pam_sm_authenticate`. -/
def pamSmAuthenticate (cfg : Config) (silent : Bool) (argv : List (List Char))
    (answers : List (Option CString)) : PamM PamCode := do
  match ← phInit cfg silent argv with
  | .error retval => return retval
  | .ok (cfg, s) =>
    if cfg.pamSpassRequire = configEnabled then authConfirm cfg s answers
    else authRun cfg s answers

/-! ## Opening a session -/

/-- The loop over the warnings; each of them clears a bit of `err`, so `n` is
never reached where it is more than `err`. -/
def warningLoop (cfg : Config) (s : State) : ℕ → ℕ → PamM PUnit
  | 0, _ => return ⟨⟩
  | n + 1, err => do
    match ← pam (.warningMessage s err) with
    | (none, _) => return ⟨⟩
    | (some msg, err) =>
      phShowMessage cfg (("*** OTP Warning: ".toList ++ msg).take 299)
      warningLoop cfg s n err

/-- `pam_sm_open_session` from the warnings on. -/
def sessionWarn (cfg : Config) (s : State) : PamM State := do
  let err ← pam (.warningConditions s)
  if err = 0 then
    let (_, s) ← pam (.stateRelease s { unlock := true })
    return s
  else
    warningLoop cfg s (err + 1) err
    if err &&& pppWarnRecentFailures ≠ 0 then
      let (_, s) ← pam (.setRecentFailures s 0)
      let (_, s) ← pam (.stateRelease s { unlock := true, store := true })
      return s
    else
      let (_, s) ← pam (.stateRelease s { unlock := true })
      return s

/-- `pam_sm_open_session`. -/
def pamSmOpenSession (cfg : Config) (silent : Bool) (argv : List (List Char)) : PamM PamCode := do
  match ← phInit cfg silent argv with
  | .error retval => return retval
  | .ok (cfg, s) =>
    let (retval, s) ← pam (.stateLoad s {})
    if retval ≠ 0 then
      phFini s
      return .ignore
    else
      let s ← sessionWarn cfg s
      phFini s
      return .ignore

end Otpasswd
