import Otpasswd.Libotp.Guarded
import Otpasswd.Pam.Auth

/-!
# Otpasswd.Pam.Calls — what the calls of the module do

The history of a session, and what is known of the answers to its calls. A
quiet call is one that neither moves the counter nor takes part in the verdict
on the user; what was reserved stays reserved behind it.

Main results: `impl_told`, `impl_spent` and `wpOver_quiet`.
-/

namespace Otpasswd

open CText Prog

/-- The calls of the module made so far. -/
abbrev PamHistory := History Pam Pam.Reply PamWorld

/-- A call of the module that was made. -/
abbrev PamMade := Made Pam Pam.Reply PamWorld

/-- The number was used: whatever is stored for the user is past it. -/
def Spent (cfg : Cfg) (u : CString) (n : Num) (w : World) : Prop :=
  Guarded cfg u (fun e => n.toNat < e.counter.toNat) w

/-! ## Programs of the library -/

section

variable {crypto : Crypto} {cfg : Cfg} {s : State} {A : (c : Sys) → c.Reply → Prop}

theorem pppVerifyRange_sat : (pppVerifyRange s).Sat A Sys.Calm (fun _ => True) (fun _ => True) :=
  (sat_assert_bind _).mpr ⟨fun _ => trivial, fun _ => trivial⟩

theorem pppStateVerify_sat : (pppStateVerify cfg s).Sat A Sys.Calm (fun _ => True)
    (fun ret => ret = 0 → pppVerifyAlphabet cfg s.alphabet.toInt = 0) := by
  unfold pppStateVerify
  split_ifs with hflags halphabet hlength
  · intro h
    cases h
  · intro h
    cases h
  · intro h
    cases h
  · refine pppVerifyRange_sat.bind fun v _ => ?_
    split
    · intro h
      cases h
    · exact fun _ => not_not.mp halphabet

theorem pppGetPasscode_sat (counter : Num) :
    (pppGetPasscode crypto cfg s counter).Sat A Sys.Calm (fun _ => True)
      (fun r => pppVerifyAlphabet cfg s.alphabet.toInt = 0 →
        r = (0, passcodeOf crypto cfg s (pppAddSalt s counter))) := by
  refine (sat_assert_bind _).mpr ⟨fun _ => ?_, fun _ => trivial⟩
  split_ifs with halphabet
  · exact fun h => absurd h halphabet
  · exact fun _ => rfl

/-- A passcode is accepted only if it is that of the counter. -/
theorem pppAuthenticate_sat (passcode : List Char) :
    (pppAuthenticate crypto cfg s passcode).Sat A Sys.Calm (fun _ => True)
      (fun ret => ret = 0 → passcode = passcodeOf crypto cfg s (pppAddSalt s s.counter)) := by
  unfold pppAuthenticate
  split_ifs
  · intro h
    cases h
  refine pppStateVerify_sat.bind fun v hv => ?_
  split
  · intro h
    contradiction
  rename_i hverify
  refine (pppGetPasscode_sat s.counter).bind fun r hr => ?_
  rw [hr (hv (not_not.mp hverify))]
  simp only
  split_ifs with hret heq
  · intro h
    cases h
  · intro h
    cases h
  · exact fun _ => not_not.mp heq

theorem pppSpassValidate_sat (spass : CString) :
    (pppSpassValidate crypto s spass).Sat A Sys.Calm (fun _ => True) (fun _ => True) := by
  have hverify : (cryptoVerifySaltedSha256 crypto s.spass spass.val).Sat A Sys.Calm (fun _ => True)
      (fun _ => True) := by
    unfold cryptoVerifySaltedSha256
    split_ifs
    · trivial
    · refine (sat_issue_bind _).mpr ⟨⟨trivial, id⟩, fun ok _ => ?_⟩
      split <;> trivial
  unfold pppSpassValidate
  split_ifs
  · trivial
  · refine hverify.bind fun ret _ => ?_
    split <;> trivial

/-- The prompt changes nothing else in the state. -/
theorem pppPrompt_sat : (pppPrompt s).Sat A Sys.Calm (fun _ => True)
    (fun r => ∃ prompt, r.2 = s.setPrompt prompt) := by
  have hget : (pppGetPrompt s true numZero).Sat A Sys.Calm (fun _ => True)
      (fun r => ∃ prompt, r.2 = s.setPrompt prompt) := by
    unfold pppGetPrompt
    rw [if_pos rfl]
    refine (sat_assert_bind _).mpr ⟨fun _ => ?_, fun _ => trivial⟩
    exact (sat_issue_bind _).mpr ⟨⟨trivial, id⟩, fun ok _ => ⟨_, rfl⟩⟩
  have hstr : (pppGetStr s .prompt).Sat A Sys.Calm (fun _ => True)
      (fun r => ∃ prompt, r.2 = s.setPrompt prompt) := hget.bind fun _ hr => hr
  refine hstr.bind fun r hr => ?_
  obtain ⟨text, s'⟩ := r
  cases text with
  | text t =>
    exact (sat_assert_bind (t.length + 1 = promptLength s')).mpr ⟨fun _ => hr, fun _ => trivial⟩
  | null => exact hr
  | key key => exact hr

theorem pppGetCurrent_sat : (pppGetCurrent crypto cfg s).Sat A Sys.Calm (fun _ => True) (fun _ => True) := by
  refine (pppGetPasscode_sat s.counter).bind fun r _ => ?_
  obtain ⟨ret, passcode⟩ := r
  simp only
  split <;> trivial

end

/-! ## Answers -/

/-- What the module relies on of an answer. -/
def Pam.Told (crypto : Crypto) (cfg : Cfg) : (c : Pam) → c.Reply → Prop
  | .stateInit u, x => ∀ s, x = .ok s → s.Fresh u
  | .stateLoad s _, x => s.SameUser x.2
  | .getPrompt s, x => ∃ prompt, x.2 = s.setPrompt prompt
  | .authenticate s passcode, x =>
    x = 0 → passcode.val = passcodeOf crypto cfg s (pppAddSalt s s.counter)
  | _, _ => True

/-- A call that leaves the counter of `u` alone, as far as the module makes
such calls before a session is opened. -/
def Pam.KeepsCounter (u : CString) : Pam → Prop
  | .sys (.lib c) => c = .time
  | .stateLoad _ flags => flags = { dontLock := true }
  | .stateRelease _ _ => False
  | .increment _ => False
  | .failures s _ => s.username = u
  | .oobTime s => s.username = u
  | .setRecentFailures _ _ => False
  | .warningConditions _ => False
  | .warningMessage _ _ => False
  | _ => True

section

variable {crypto : Crypto} {cfg : Cfg} {me : Pid} {u : CString} {w : PamWorld}

/-- A calm program of the library, on the system. -/
theorem wp_lift_calm {α : Type} {p : SysM α} {V : α → Prop}
    (hp : ∀ uid ok, p.Sat (Sys.Answers uid ok) Sys.Calm (fun _ => True) V) :
    wp (PamSys.exec me) (SysM.lift p)
      (fun r w' => w'.lib.Keeps w.lib ∧ ∀ a, r = some a → V a) w := by
  refine wp_mono (wp_lift (wp_quiet (hp (w.lib.uid me) w.lib.AllOk) Sys.Calm.quiet (.refl w.lib)))
    fun r w' h => ?_
  exact ⟨h.1.1, h.1.2.2⟩

/-- What was used up is used up afterwards. -/
def KeepsSpent (cfg : Cfg) (u : CString) (w w' : World) : Prop :=
  ∀ n, Spent cfg u n w → Spent cfg u n w'

theorem World.Keeps.keepsSpent {w w' : World} (h : w'.Keeps w) : KeepsSpent cfg u w w' :=
  fun _ hn => hn.keeps h

/-- An operation that loads, changes and stores the entry of `u`. -/
theorem wp_lift_update {s : State} {change : State → SysM State} (hs : s.username = u)
    (hchange : ∀ s uid ok, Meets cfg uid true ok Sys.Calm
      (fun s' => s'.username = s.username ∧ s'.entry.counter = s.entry.counter ∧
        (s.entry.Valid → s'.entry.Valid)) (change s)) :
    wp (PamSys.exec me) (SysM.lift (pppUpdate cfg s.name change))
      (fun _ w' => KeepsSpent cfg u w.lib w'.lib) w := by
  have hspec := pppUpdate_spec me cfg s.named s.username change
    (fun e e' => e'.counter = e.counter ∧ (e.Valid → e'.Valid)) hchange w.lib
  refine wp_mono (wp_lift hspec) fun r w' h n hspent => ?_
  rcases h.1 with ⟨hkeeps, -⟩ | ⟨e, e', ⟨hcounter, hvalid⟩, hreplaced, -⟩
  · exact hspent.keeps hkeeps
  · rw [hs] at hreplaced
    refine hreplaced.guarded (hvalid (dbLookup_valid hreplaced.before)) ?_
    rw [hcounter]
    exact hspent.lookup e hreplaced.before

theorem impl_spent {c : Pam} (hc : c.KeepsCounter u) :
    wp (PamSys.exec me) (Pam.impl crypto cfg c)
      (fun _ w' => KeepsSpent cfg u w.lib w'.lib) w := by
  have hcalm {α : Type} {p : SysM α} {V : α → Prop}
      (hp : ∀ uid ok, p.Sat (Sys.Answers uid ok) Sys.Calm (fun _ => True) V) :
      wp (PamSys.exec me) (SysM.lift p) (fun _ w' => KeepsSpent cfg u w.lib w'.lib) w :=
    wp_mono (wp_lift_calm hp) fun _ _ h => h.1.keepsSpent
  cases c with
  | sys c =>
    cases c with
    | lib c =>
      obtain rfl : c = .time := hc
      have hquiet : Sys.Quiet .time := trivial
      exact (exec_keeps hquiet me w.lib).keepsSpent
    | pppInit | getUser | query | message | sleep | usleep | statScript | fork | waitpid | kill
      | setgid | setuid | execl => exact fun _ h => h
  | stateInit name => exact hcalm fun _ _ => pppStateInit_sat true name
  | stateLoad s flags =>
    obtain rfl : flags = { dontLock := true } := hc
    exact wp_mono (wp_lift (pppStateRead_spec me cfg s w.lib)) fun _ _ h => h.1.1.keepsSpent
  | stateFini s =>
    have hfini (uid : Uid) (ok : Prop) :
        (Otpasswd.stateFini cfg s).Sat (Sys.Answers uid ok) Sys.Calm (fun _ => True) (fun _ => True) :=
      (stateFini_sat s).mono (fun _ h => h) (fun _ _ => trivial) fun _ h => h
    exact hcalm hfini
  | failures s zero =>
    refine wp_lift_update hc fun s _ _ => ?_
    cases zero with
    | true => exact ⟨rfl, rfl, fun h => ⟨h.1, h.2, h.3, h.4, h.5⟩⟩
    | false => exact ⟨rfl, rfl, fun h => ⟨h.1, h.2, h.3, h.4, h.5⟩⟩
  | oobTime s =>
    refine wp_lift_update hc fun s _ _ => (sat_issue_bind _).mpr ⟨⟨trivial, id⟩, fun _ _ => ?_⟩
    exact ⟨rfl, rfl, fun h => ⟨h.1, h.2, h.3, h.4, h.5⟩⟩
  | getPrompt s => exact hcalm fun _ _ => pppPrompt_sat
  | getCurrent s => exact hcalm fun _ _ => pppGetCurrent_sat
  | authenticate s passcode => exact hcalm fun _ _ => pppAuthenticate_sat passcode.val
  | spassValidate s spass => exact hcalm fun _ _ => pppSpassValidate_sat spass
  | stateRelease | increment | setRecentFailures | warningConditions | warningMessage =>
    exact hc.elim

theorem impl_told {c : Pam} (hc : c.KeepsCounter u) :
    wp (PamSys.exec me) (Pam.impl crypto cfg c)
      (fun r _ => ∀ x, r = some x → c.Told crypto cfg x) w := by
  cases c with
  | stateInit name =>
    refine wp_mono (wp_lift_calm fun _ _ => pppStateInit_sat true name) fun r _ h x hx s hs => ?_
    rcases h.2 x hx with herr | ⟨s', hs', hfresh⟩
    · rw [herr] at hs
      cases hs
    · rw [hs'] at hs
      injection hs with hs
      exact hs ▸ hfresh
  | stateLoad s flags =>
    obtain rfl : flags = { dontLock := true } := hc
    refine wp_mono (wp_lift (pppStateRead_spec me cfg s w.lib)) fun r _ h x hx => ?_
    obtain ⟨ret, s'⟩ := x
    cases h.1.2.2 ret s' hx with
    | loaded e _ _ => exact .trans (.trans (.refl s) (s.sameUser_load e)) ⟨rfl, rfl, rfl, rfl, rfl⟩
    | failed _ _ _ h => exact h
  | getPrompt s => exact wp_mono (wp_lift_calm fun _ _ => pppPrompt_sat) fun _ _ h => h.2
  | authenticate s passcode =>
    exact wp_mono (wp_lift_calm fun _ _ => pppAuthenticate_sat passcode.val) fun _ _ h => h.2
  | sys | stateRelease | stateFini | increment | failures | oobTime | getCurrent | spassValidate
    | setRecentFailures | warningConditions | warningMessage => exact fun _ _ => trivial

theorem State.Handled.entry {s s' : State} (h : s.Handled s') : s'.entry = s.entry := by
  obtain ⟨lock, newKey, rfl⟩ := h
  rfl

theorem State.Handled.for {s s' : State} (h : s.Handled s') (hs : s.For u) : s'.For u := by
  obtain ⟨lock, newKey, rfl⟩ := h
  exact ⟨hs.username, hs.saltMask, hs.codeMask⟩

/-- A successful `ppp_increment` reserves the counter it read, which no number
used before can be. -/
theorem impl_increment {s : State} (hs : s.For u) :
    wp (PamSys.exec me) (Pam.impl crypto cfg (.increment s))
      (fun r w' => KeepsSpent cfg u w.lib w'.lib ∧ ∀ s', r = some (0, s') → ∃ e,
        Replaced cfg u e { e with counter := numAdd e.counter (numI 1) } w.lib w'.lib ∧
          s'.entry = e ∧ s'.For u ∧ Spent cfg u e.counter w'.lib) w := by
  refine wp_mono (wp_lift (pppIncrement_spec me cfg s hs.codeMask w.lib)) fun r w' h => ?_
  have hname := hs.username
  cases h.1 with
  | kept hkeeps hr => exact ⟨hkeeps.keepsSpent, fun s' h => absurd h (hr s')⟩
  | replaced fd e hallowed hreplaced hr =>
    rw [hname] at hreplaced
    have hv := dbLookup_valid hreplaced.before
    -- the counter does not wrap
    have hsucc : (numAdd e.counter (numI 1)).toNat = e.counter.toNat + 1 := by
      have hle := hallowed.range.1
      have hlt : maxCounter.toNat + 1 < 2 ^ 128 := by decide
      rw [Num.toNat_numAdd, Nat.mod_eq_of_lt]
      · rfl
      · have hone : (numI 1).toNat = 1 := by decide
        omega
    have hguard {n : ℕ} (hn : n ≤ e.counter.toNat) :
        Guarded cfg u (fun e => n < e.counter.toNat) w'.lib := by
      refine hreplaced.guarded ⟨hv.1, hv.2, hv.3, hv.4, hv.5⟩ ?_
      change n < (numAdd e.counter (numI 1)).toNat
      omega
    refine ⟨fun n hn => hguard (hn.lookup e hreplaced.before).le, fun s' h => ?_⟩
    have hhandled := (hr 0 s' h).2
    refine ⟨e, hreplaced, ?_, ?_, hguard le_rfl⟩
    · rw [hhandled.entry]
      exact loaded_entry s fd.val e
    · exact hhandled.for ⟨hname, hs.saltMask, hs.codeMask⟩

end

end Otpasswd
