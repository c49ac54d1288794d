import Otpasswd.Lib.Layer
import Otpasswd.Libotp.ConfigFile
import Otpasswd.Libotp.Fields

/-!
# Otpasswd.Pam.Iface — what the PAM module calls

The PAM module talks to the user, to the system and to the library. `PamSys`
has the calls that reach the system, the ones of the library among them;
`Pam` has the calls that `pam_otpasswd.c` and `pam_helpers.c` make, where each
function of the library is one call, and `Pam.impl` says what it does.

What a user answers is an input: it is given with each question, so that a
session is a program for every sequence of answers.
-/

namespace Otpasswd

open CText

/-! ## Options -/

/-- `OOB_DISABLED`, and the ones behind it. -/
abbrev oobDisabled : ℤ := 0
abbrev oobRequest : ℤ := 1
abbrev oobSecureRequest : ℤ := 2
abbrev oobAlways : ℤ := 3

/-! ## Calls -/

/-- What a PAM module returns; `PAM_SUCCESS` is zero. -/
inductive PamCode where
  | success
  | authErr
  | ignore
  | serviceErr
  | userUnknown
deriving DecidableEq, Repr

/-- What `stat` tells of the script for out-of-band messages. -/
structure ScriptStat where
  isReg : Bool
  isSuid : Bool
  isSgid : Bool
  othersExecute : Bool
  ownerExecutes : Bool
  groupExecutes : Bool
  uid : Uid
  gid : Uid
deriving DecidableEq

/-- The process that is forked for the script: its copy of the state, and the
arguments of the script. -/
structure OobChild where
  s : State
  contact : List Char
  passcode : List Char
deriving DecidableEq

/-- What `waitpid` with `WNOHANG` says. -/
inductive Waited where
  | exited
  | running
  | error
deriving DecidableEq

/-- The calls that reach the system. -/
inductive PamSys where
  | lib (c : Sys)
  /-- `ppp_init`: the configuration is read and its permissions are checked. -/
  | pppInit
  | getUser
  /-- A question of the conversation, and what it is answered; `none` is a
  missing response. -/
  | query (echo : Bool) (prompt : List Char) (answer : Option CString)
  | message (text : List Char)
  | sleep (seconds : ℕ)
  | usleep (microseconds : ℕ)
  | statScript (path : List Char)
  | fork (child : OobChild)
  | waitpid
  | kill
  | setgid (gid : Uid)
  | setuid (uid : Uid)
  /-- `execl` of the script; it is answered only if it fails. -/
  | execl (path contact passcode : List Char)

@[reducible] def PamSys.Reply : PamSys → Type
  | .lib c => c.Reply
  | .pppInit => ℕ
  | .getUser => Bool × Option CString
  | .query _ _ _ => PUnit
  | .message _ => PUnit
  | .sleep _ => PUnit
  | .usleep _ => PUnit
  | .statScript _ => Option ScriptStat
  | .fork _ => Bool
  | .waitpid => Waited
  | .kill => PUnit
  | .setgid _ => Bool
  | .setuid _ => Bool
  | .execl _ _ _ => PUnit

/-- The calls of the module. -/
inductive Pam where
  | sys (c : PamSys)
  | stateInit (username : CString)
  | stateLoad (s : State) (flags : PppOptions)
  | stateRelease (s : State) (flags : PppOptions)
  | stateFini (s : State)
  | increment (s : State)
  | failures (s : State) (zero : Bool)
  | oobTime (s : State)
  | getPrompt (s : State)
  | getCurrent (s : State)
  | authenticate (s : State) (passcode : CString)
  | spassValidate (s : State) (spass : CString)
  | setRecentFailures (s : State) (arg : Word32)
  | warningConditions (s : State)
  | warningMessage (s : State) (warning : ℕ)

@[reducible] def Pam.Reply : Pam → Type
  | .sys c => c.Reply
  | .stateInit _ => Except ℕ State
  | .stateLoad _ _ => ℕ × State
  | .stateRelease _ _ => ℕ × State
  | .stateFini _ => PUnit
  | .increment _ => ℕ × State
  | .failures _ _ => ℕ
  | .oobTime _ => ℕ
  | .getPrompt _ => FieldStr × State
  | .getCurrent _ => ℕ × List Char
  | .authenticate _ _ => ℕ
  | .spassValidate _ _ => ℕ
  | .setRecentFailures _ _ => ℕ × State
  | .warningConditions _ => ℕ
  | .warningMessage _ _ => Option (List Char) × ℕ

/-- A program that runs on the system. -/
abbrev PamSysM (α : Type) := Prog PamSys PamSys.Reply α

/-- A program of the module. -/
abbrev PamM (α : Type) := Prog Pam Pam.Reply α

/-- A program of the library as one of the module. -/
def SysM.lift {α : Type} (p : SysM α) : PamSysM α := p.expand fun c => Prog.issue (PamSys.lib c)

/-- The bytes that `ppp_get_prompt` allocates: intro, row and column, brackets
and the final zero, and the number of the card. -/
def promptLength (s : State) : ℕ :=
  9 + 3 + 5 + 1 + (Nat.toDigits 10 s.currentCard.toNat).length

/-- `ppp_get_str` of the prompt, with the assertion of `ppp_get_prompt` on the
length it has printed. -/
def pppPrompt (s : State) : SysM (FieldStr × State) := do
  let (prompt, s) ← pppGetStr s .prompt
  match prompt with
  | .text t =>
    Prog.assert (t.length + 1 = promptLength s)
    return (.text t, s)
  | prompt => return (prompt, s)

/-- What the calls do. -/
def Pam.impl (crypto : Crypto) (cfg : Cfg) : (c : Pam) → PamSysM c.Reply
  | .sys c => Prog.issue c
  | .stateInit u => SysM.lift (pppStateInit cfg (some u))
  | .stateLoad s flags => SysM.lift (pppStateLoad cfg s flags)
  | .stateRelease s flags => SysM.lift (pppStateRelease cfg s flags)
  | .stateFini s => SysM.lift (Otpasswd.stateFini cfg s)
  | .increment s => SysM.lift (pppIncrement cfg s)
  | .failures s zero => SysM.lift (pppFailures cfg s zero)
  | .oobTime s => SysM.lift (pppOobTime cfg s)
  | .getPrompt s => SysM.lift (pppPrompt s)
  | .getCurrent s => SysM.lift (pppGetCurrent crypto cfg s)
  | .authenticate s passcode => SysM.lift (pppAuthenticate crypto cfg s passcode.val)
  | .spassValidate s spass => SysM.lift (pppSpassValidate crypto s spass)
  | .setRecentFailures s arg => SysM.lift (pppSetInt cfg s .recentFailures arg)
  | .warningConditions s => SysM.lift (pppGetWarningConditions s)
  | .warningMessage s warning => SysM.lift (pppGetWarningMessage s warning)

/-- Make one call. -/
abbrev pam (c : Pam) : PamM c.Reply := Prog.issue c

/-- Make one system call. -/
abbrev pamSys (c : PamSys) : PamM c.Reply := Prog.issue (Pam.sys c)

/-! ## The system -/

/-- What the system decides at one call that is not of the library. -/
structure HostReply where
  /-- Whether the call succeeds. -/
  ok : Bool
  pppInit : ℕ
  user : Bool × Option CString
  script : Option ScriptStat
  waited : Waited

/-- The system with the module on it. -/
structure PamWorld where
  lib : World
  host : ℕ → HostReply
  /-- The calls made so far besides those of the library. -/
  calls : ℕ

/-- Answer one call of process `me`. -/
def PamSys.exec (me : Pid) (c : PamSys) (w : PamWorld) : c.Reply × PamWorld :=
  let o := w.host w.calls
  let w' := { w with calls := w.calls + 1 }
  match c with
  | .lib c => ((c.exec me w.lib).1, { w with lib := (c.exec me w.lib).2 })
  | .pppInit => (o.pppInit, w')
  | .getUser => (o.user, w')
  | .query _ _ _ => (⟨⟩, w')
  | .message _ => (⟨⟩, w')
  | .sleep _ => (⟨⟩, w')
  | .usleep _ => (⟨⟩, w')
  | .statScript _ => (o.script, w')
  | .fork _ => (o.ok, w')
  | .waitpid => (o.waited, w')
  | .kill => (⟨⟩, w')
  | .setgid _ => (o.ok, w')
  | .setuid _ => (o.ok, w')
  | .execl _ _ _ => (⟨⟩, w')

/-- A run of the library leaves the rest of the system. -/
theorem run_lift {α : Type} (me : Pid) (p : SysM α) (w : PamWorld) :
    (SysM.lift p).run (PamSys.exec me) w =
      ((p.run (Sys.exec me) w.lib).1, { w with lib := (p.run (Sys.exec me) w.lib).2 }) := by
  induction p generalizing w with
  | ret a => rfl
  | stop why => rfl
  | call c k ih => exact ih (c.exec me w.lib).1 { w with lib := (c.exec me w.lib).2 }

/-- A specification of a program of the library, for the module. -/
theorem wp_lift {α : Type} {me : Pid} {p : SysM α} {P : Option α → World → Prop} {w : PamWorld}
    (hp : Prog.wp (Sys.exec me) p P w.lib) :
    Prog.wp (PamSys.exec me) (SysM.lift p)
      (fun r w' => P r w'.lib ∧ w' = { w with lib := w'.lib }) w := by
  unfold Prog.wp at hp ⊢
  rw [run_lift]
  exact ⟨hp, rfl⟩

end Otpasswd
