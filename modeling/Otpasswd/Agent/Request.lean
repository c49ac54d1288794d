import Otpasswd.Libotp.Fields

/-!
# Otpasswd.Agent.Request — the agent

`request.c`: the agent holds at most one state for its user, checks each
request of the client against the policy, executes it and replies. The pipe
to the client is the list of headers sent so far. `requestHandle` is the body
of the agent's main loop.
-/

namespace Otpasswd

open CText

/-! ## The protocol -/

@[simp] abbrev agentOk : ℕ := 0
@[simp] abbrev agentErr : ℕ := 5000
@[simp] abbrev agentErrReq : ℕ := 5001
@[simp] abbrev agentErrReqArg : ℕ := 5002
@[simp] abbrev agentErrInitUser : ℕ := 5005
@[simp] abbrev agentErrPolicy : ℕ := 5012
@[simp] abbrev agentErrPolicyRegeneration : ℕ := 5013
@[simp] abbrev agentErrPolicyGeneration : ℕ := 5014
@[simp] abbrev agentErrPolicyDisabled : ℕ := 5015
@[simp] abbrev agentErrPolicySalt : ℕ := 5016
@[simp] abbrev agentErrPolicyShow : ℕ := 5017
@[simp] abbrev agentErrMustCreateState : ℕ := 5018
@[simp] abbrev agentErrMustDropState : ℕ := 5019
@[simp] abbrev agentErrNoState : ℕ := 5020

/-- `AGENT_REQ_DISCONNECT`, which is also what handling it returns. -/
@[simp] abbrev agentReqDisconnect : ℕ := 2

/-- `enum AGENT_REQUEST`; `other` is any number the agent does not serve. -/
inductive ReqType where
  | disconnect
  | userSet
  | stateNew
  | stateLoad
  | stateStore
  | stateDrop
  | keyGenerate
  | keyRemove
  | flagAdd
  | flagClear
  | flagGet
  | getNum
  | getInt
  | getStr
  | getAlphabet
  | getWarnings
  | getPasscode
  | getPrompt
  | setNum
  | setInt
  | setStr
  | setSpass
  | authenticate
  | skip
  | updateLatest
  | clearRecentFailures
  | other
deriving DecidableEq

/-- What the client sends (`rhdr`). -/
structure Request where
  type : ReqType
  int : Word32
  int2 : Word32
  num : Num
  str : CString

/-- What the agent sends (`shdr`). -/
structure Header where
  status : ℕ
  int : Word32
  int2 : Word32
  num : Num
  str : FieldStr
deriving DecidableEq

/-- `agent`. -/
structure Agent where
  username : CString
  /-- Whether the copy of the user name was made; `username` is `NULL` otherwise. -/
  named : Bool
  /-- Whether the state is one that is being created. -/
  newState : Bool
  s : Option State
  shdr : Header
  sent : List Header
  /-- `security_is_privileged()`. -/
  privileged : Bool

namespace Agent

/-- `agent_hdr_init`. -/
def hdrInit (a : Agent) (status : ℕ) : Agent :=
  { a with shdr := ⟨status, 0, 0, numI 0, .text []⟩ }

/-- The agent at the start of its main loop. -/
def start (username : CString) (privileged : Bool) (named : Bool := true) : Agent :=
  ⟨username, named, false, none, ⟨0, 0, 0, numI 0, .text []⟩, [], privileged⟩

def setS (a : Agent) (s : Option State) : Agent := { a with s := s }
def setNewState (a : Agent) (v : Bool) : Agent := { a with newState := v }
/-- `agent_set_user`; `named` says whether its copy of the name was made. -/
def setUsername (a : Agent) (v : CString) (named : Bool) : Agent :=
  { a with username := v, named := named }

/-- `a->username`. -/
def name (a : Agent) : Option CString := namePtr a.named a.username

theorem name_eq {a : Agent} (h : a.named = true) : a.name = some a.username := by
  rw [name, namePtr, if_pos h]

def hdrSetNum (a : Agent) (v : Num) : Agent := { a with shdr := { a.shdr with num := v } }

def hdrSetInt (a : Agent) (v v2 : Word32) : Agent :=
  { a with shdr := { a.shdr with int := v, int2 := v2 } }

def hdrSetStr (a : Agent) (v : FieldStr) : Agent := { a with shdr := { a.shdr with str := v } }

/-- Whether a locked state is held. -/
def locked (a : Agent) : Bool := a.s.any fun s => 0 < s.lock

/-- `_send_reply`; nothing is sent while the state is locked. -/
def sendReply (a : Agent) (status : ℕ) : Agent :=
  let a := { a with shdr := { a.shdr with status := status } }
  if a.locked then a else { a with sent := a.sent ++ [a.shdr] }

end Agent

/-- `AGENT_ARG_MAX`. -/
abbrev agentArgMax : ℕ := 255

/-- `agent_hdr_set_str`, with its assertion on the length. -/
def agentHdrSetStr (a : Agent) (v : FieldStr) : SysM Agent :=
  match v with
  | .text s => do
    Prog.assert (s.length < agentArgMax)
    return a.hdrSetStr (.text s)
  | .null => return a.hdrSetStr (.text [])
  | .key k => return a.hdrSetStr (.key k)

/-! ## The state of the agent -/

/-- `_state_init`; `load` and `lock` are its flags. A key without passcodes
left counts as loaded. -/
def agentStateInit (cfg : Cfg) (a : Agent) (load lock : Bool) : SysM (ℕ × Agent) := do
  Prog.assert (a.s.isNone = true)
  match ← pppStateInit cfg a.name with
  | .error ret => return (ret, a)
  | .ok s =>
    if load = false then return (0, (a.setS (some s)).setNewState true)
    else
      let a := a.setNewState false
      let (ret, s) ← pppStateLoad cfg s { dontLock := !lock }
      if ret = 0 ∨ ret = stateNumspace then return (0, a.setS (some s))
      else
        stateFini cfg s
        return (ret, a.setS none)

/-- The flags of `_state_fini`. -/
structure FiniOptions where
  store : Bool := false
  remove : Bool := false
  keep : Bool := false

/-- `_state_fini`. -/
def agentStateFini (cfg : Cfg) (a : Agent) (flags : FiniOptions) : SysM (ℕ × Agent) := do
  Prog.assert (¬ (flags.store = true ∧ flags.remove = true))
  match a.s with
  | none => return (agentErrNoState, a)
  | some s =>
    let (ret, s) ← pppStateRelease cfg s
      { store := flags.store, remove := flags.remove, unlock := flags.keep }
    let a := (a.setS (some s)).setNewState false
    if flags.keep then return (ret, a)
    else
      stateFini cfg s
      return (ret, a.setS none)

/-- `_state_init_atomical`: a state held so far is dropped and read again
under the lock, unless it is being created. -/
def agentStateInitAtomical (cfg : Cfg) (a : Agent) : SysM (ℕ × Agent) := do
  if a.newState then
    Prog.assert (a.s.isSome = true)
    return (0, a)
  else if a.s.isSome then
    let (ret, a) ← agentStateFini cfg a {}
    if ret ≠ 0 then return (ret, a) else agentStateInit cfg a true true
  else agentStateInit cfg a true true

/-- `_state_fini_atomical`. -/
def agentStateFiniAtomical (cfg : Cfg) (a : Agent) (prevRet : ℕ) : SysM (ℕ × Agent) := do
  if a.newState then
    Prog.assert (a.s.isSome = true)
    return (prevRet, a)
  else if prevRet = 0 then agentStateFini cfg a { store := true, keep := true }
  else
    let (_, a) ← agentStateFini cfg a { keep := true }
    return (prevRet, a)

/-! ## Policy -/

/-- The policy of `STATE_NEW`: the state that would be replaced is looked up,
and any error counts as there being none. -/
def verifyStateNew (cfg : Cfg) (a : Agent) : SysM (ℕ × Agent) := do
  if a.s.isSome then return (agentErrMustDropState, a)
  else if a.privileged then return (agentOk, a)
  else
    let (ret, a) ← agentStateInit cfg a true false
    if ret ≠ 0 then
      return (if cfg.keyGeneration = configDisallow then agentErrPolicyGeneration else agentOk, a)
    else
      let disabled := a.s.any fun s => pppFlagCheck s flagDisabled
      let (ret, a) ← agentStateFini cfg a {}
      if disabled = true ∧ cfg.disabling = configDisallow then return (agentErrPolicy, a)
      else if cfg.keyRegeneration = configDisallow then return (agentErrPolicyRegeneration, a)
      else return (if ret ≠ 0 then agentErr else agentOk, a)

/-- The flags that the policy on flags looks at, in its order: whether it
refuses a change of the flags in `r`, where `dis` says which of `disabling` and
`show` forbid it. -/
def verifyFlagChange (privileged : Bool) (salt disabling show_ : Prop) [Decidable salt]
    [Decidable disabling] [Decidable show_] (r : Word32) : ℕ :=
  if flagSalted &&& r ≠ 0 ∧ salt then agentErrPolicySalt
  else if privileged then agentOk
  else if flagDisabled &&& r ≠ 0 ∧ disabling then agentErrPolicyDisabled
  else if flagShow &&& r ≠ 0 ∧ show_ then agentErrPolicyShow
  else agentOk

/-- What an unprivileged client may not do when `refused` holds. -/
def unlessPrivileged (a : Agent) (refused : Prop) [Decidable refused] : ℕ :=
  if a.privileged = false ∧ refused then agentErrPolicy else agentOk

/-- `request_verify_policy`. -/
def requestVerifyPolicy (cfg : Cfg) (a : Agent) (req : Request) : SysM (ℕ × Agent) :=
  match req.type with
  | .userSet => return (unlessPrivileged a True, a)
  | .disconnect => return (agentOk, a)
  | .keyGenerate => return (unlessPrivileged a (cfg.keyGeneration = configDisallow), a)
  | .keyRemove => return (unlessPrivileged a (cfg.keyRemoval = configDisallow), a)
  | .authenticate => return (unlessPrivileged a (cfg.shellAuth = configDisallow), a)
  | .stateNew => verifyStateNew cfg a
  | .stateLoad | .stateStore | .stateDrop | .getNum | .getInt | .getWarnings | .updateLatest
  | .clearRecentFailures => return (agentOk, a)
  | .getStr =>
    let field := PppField.ofNum req.int
    return (unlessPrivileged a
      ((field = .key ∨ field = .counter) ∧ cfg.keyPrint ≠ configAllow), a)
  | .getPasscode => return (unlessPrivileged a (cfg.passcodePrint = configDisallow), a)
  | .getPrompt => return (agentOk, a)
  | .skip => return (unlessPrivileged a (cfg.skipping = configDisallow), a)
  | .setNum | .setInt | .setStr | .setSpass => return (agentOk, a)
  | .flagAdd =>
    return (verifyFlagChange a.privileged (cfg.salt = configDisallow)
      (cfg.disabling = configDisallow) (cfg.show = configDisallow) req.int, a)
  | .flagClear =>
    return (verifyFlagChange a.privileged (cfg.salt = configEnforce)
      (cfg.disabling = configDisallow) (cfg.show = configEnforce) req.int, a)
  | .flagGet | .getAlphabet => return (agentOk, a)
  | .other => return (agentErr, a)

/-! ## Execution -/

/-- A request that only looks at the state held. -/
def withState (a : Agent) (f : State → SysM (ℕ × Agent)) : SysM (ℕ × Agent) := do
  match a.s with
  | none => return (agentOk, a.sendReply agentErrNoState)
  | some s =>
    let (ret, a) ← f s
    return (agentOk, a.sendReply ret)

/-- A setter: the state is read under the lock, changed and stored, or changed
in memory when it is being created. -/
def atomically (cfg : Cfg) (a : Agent) (change : State → SysM (ℕ × State)) : SysM (ℕ × Agent) := do
  let (ret, a) ← agentStateInitAtomical cfg a
  if ret ≠ 0 then return (ret, a)
  else
    match a.s with
    | none => .abort
    | some s =>
      let (ret, s) ← change s
      agentStateFiniAtomical cfg (a.setS (some s)) ret

/-- `ppp_set_int` on the flags, for `FLAG_ADD` and `FLAG_CLEAR`. -/
def changeFlags (cfg : Cfg) (change : Word32 → Word32) (s : State) : SysM (ℕ × State) := do
  let flags ← pppGetInt s .flags
  pppSetInt cfg s .flags (change flags)

/-- The checks of `UPDATE_LATEST` on a proposed card number. -/
def latestOk (s : State) (card : Num) : Bool :=
  decide (¬ 0 < numCmp s.latestCard card) &&
    decide (¬ (numCmp (numAddI s.latestCard 1) card ≠ 0 ∧
      numCmp (numAddI s.currentCard 1) card ≠ 0))

def updateLatest (card : Num) (s : State) : SysM (ℕ × State) :=
  if latestOk s card then pppSetNum s .latestCard card else return (agentErrReqArg, s)

/-- The static password of the state changes even when `ppp_set_spass` reports
an error: the result is stored in any case, and the error is the reply. -/
def setSpass (crypto : Crypto) (cfg : Cfg) (a : Agent) (spass : Option CString) :
    SysM (ℕ × Agent) := do
  let (ret, a) ← agentStateInitAtomical cfg a
  if ret ≠ 0 then return (ret, a)
  else
    match a.s with
    | none => .abort
    | some s =>
      let (ret2, s) ← pppSetSpass crypto cfg s spass (!a.privileged)
      let (ret, a) ← agentStateFiniAtomical cfg (a.setS (some s)) 0
      return (if ret = 0 then ret2 else ret, a)

/-- `security_parse_user` and the switch to that user. -/
def userSet (cfg : Cfg) (a : Agent) (spec : CString) : SysM (ℕ × Agent) := do
  match ← sys (.parseUser spec) with
  | none => return (agentErrInitUser, a)
  | some username =>
    let a := a.setUsername username (← sys .strdup)
    if a.s.isSome then
      let (_, a) ← agentStateFini cfg a {}
      return (agentOk, a.setS none)
    else return (agentOk, a)

/-- Send the result of a request as its reply. -/
def replyWith (p : SysM (ℕ × Agent)) : SysM (ℕ × Agent) := do
  let (ret, a) ← p
  return (agentOk, a.sendReply ret)

/-- `request_execute`. -/
def requestExecute (crypto : Crypto) (cfg : Cfg) (a : Agent) (req : Request) :
    SysM (ℕ × Agent) :=
  let checkPolicy := !a.privileged
  match req.type with
  | .disconnect => do
    if a.s.isSome then
      let (_, a) ← agentStateFini cfg a {}
      return (agentReqDisconnect, a)
    else return (agentReqDisconnect, a)
  | .userSet => replyWith (userSet cfg a req.str)
  | .stateNew => do
    if a.s.isSome then return (agentErrMustDropState, a)
    else
      let (ret, a) ← agentStateInit cfg a false false
      if ret ≠ 0 then return (ret, a) else return (agentOk, a.sendReply agentOk)
  | .stateLoad => do
    if a.s.isSome then return (agentErrMustDropState, a)
    else replyWith (agentStateInit cfg a true false)
  | .stateStore => replyWith (agentStateFini cfg a { store := true })
  | .stateDrop => replyWith (agentStateFini cfg a {})
  | .keyGenerate => do
    match a.s with
    | none => return (agentOk, a.sendReply agentErrMustCreateState)
    | some s =>
      let (ret, s) ← pppKeyGenerate crypto cfg s { checkPolicy := checkPolicy }
      return (agentOk, (a.setS (some s)).sendReply ret)
  | .keyRemove =>
    if a.s.isSome then return (agentOk, a.sendReply agentErrMustDropState)
    else replyWith do
      let (ret, a) ← agentStateInit cfg a true true
      if ret ≠ 0 then return (ret, a) else agentStateFini cfg a { remove := true }
  | .flagAdd => replyWith (atomically cfg a (changeFlags cfg (· ||| req.int)))
  | .flagClear => replyWith (atomically cfg a (changeFlags cfg (· &&& ~~~req.int)))
  | .flagGet => withState a fun s => do
    let flags ← pppGetInt s .flags
    return (agentOk, (a.hdrInit 0).hdrSetInt flags 0)
  | .getNum => withState a fun s => do
    let num ← pppGetNum s (.ofNum req.int)
    return (agentOk, (a.hdrInit 0).hdrSetNum num)
  | .getInt => withState a fun s => do
    let value ← pppGetInt s (.ofNum req.int)
    return (agentOk, (a.hdrInit 0).hdrSetInt value 0)
  | .getStr => do
    let (ret, a) ← withState a fun s => do
      let (str, s) ← pppGetStr s (.ofNum req.int)
      let a ← agentHdrSetStr ((a.setS (some s)).hdrInit 0) str
      return (agentOk, a)
    -- the key does not stay in the header
    return (ret, if PppField.ofNum req.int = .key then a.hdrInit 0 else a)
  | .getPasscode => withState a fun s => do
    let (ret, passcode) ← pppGetPasscode crypto cfg s req.num
    let a ← agentHdrSetStr (a.hdrInit 0) (.text passcode)
    return (ret, a)
  | .getPrompt => withState a fun s => do
    let (prompt, s) ← pppGetPrompt s false req.num
    let a := (a.setS (some s)).hdrInit 0
    match prompt with
    | some text => return (agentOk, ← agentHdrSetStr a (.text text))
    | none => return (agentErr, ← agentHdrSetStr a .null)
  | .getWarnings => withState a fun s => do
    Prog.assert (0 < s.codesOnCard)
    return (agentOk, a.hdrSetInt (BitVec.ofNat 32 (warningConditions s)) s.recentFailures)
  | .updateLatest =>
    if a.s.any (fun s => !latestOk s req.num) then return (agentOk, a.sendReply agentErrReqArg)
    else replyWith (atomically cfg a (updateLatest req.num))
  | .skip => withState a fun s => do
    let (ret, s) ← pppSkip cfg s req.num
    return (ret, a.setS (some s))
  | .clearRecentFailures => withState a fun s => do
    return (← pppFailures cfg s true, a)
  | .authenticate => withState a fun s => do
    let (ret, s) ← pppIncrement cfg s
    let a := a.setS (some s)
    if ret ≠ 0 then return (ret, a) else return (← pppAuthenticate crypto cfg s req.str.val, a)
  | .getAlphabet => replyWith do
    let (ret, alphabet) := pppAlphabetGet cfg req.int.toInt
    let a ← agentHdrSetStr (a.hdrInit 0) (alphabet.elim .null .text)
    return (ret, a)
  | .setInt => replyWith (atomically cfg a fun s => pppSetInt cfg s (.ofNum req.int) req.int2)
  | .setStr =>
    replyWith (atomically cfg a fun s => pppSetStr cfg s (.ofNum req.int) req.str checkPolicy)
  | .setNum => return (agentOk, a.sendReply agentErr)
  | .setSpass => replyWith (setSpass crypto cfg a (if req.int ≠ 0 then none else some req.str))
  | .other => return (1, a)

/-- `request_handle`, for a request that was received. -/
def requestHandle (crypto : Crypto) (cfg : Cfg) (a : Agent) (req : Request) :
    SysM (ℕ × Agent) := do
  -- no request is read while the state is locked
  if a.locked then return (1, a)
  else
    let (ret, a) ← requestVerifyPolicy cfg a req
    if ret = agentErrPolicy then return (0, a.sendReply agentErrPolicy)
    else if ret ≠ 0 then return (ret, a.sendReply ret)
    else requestExecute crypto cfg a req

end Otpasswd
