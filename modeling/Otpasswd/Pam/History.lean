import Otpasswd.Pam.Calls

/-!
# Otpasswd.Pam.History — the history of an authentication

What a success rests on is read off the calls that the module has made: the
responses of the user, the counters they were compared with and the attempts
that failed. A quiet call adds nothing to any of them.

Main results: `wpPam_quiet` and `wpPam_quiet_seq`.
-/

namespace Otpasswd

open CText Prog

/-! ## Histories -/

/-- The response that a call gets from the user. -/
def response (ev : PamMade) : Option (Option CString) :=
  match ev.c with
  | .sys (.query _ _ answer) => some answer
  | _ => none

def responses (tr : PamHistory) : List (Option CString) := tr.filterMap response

/-- The counter whose passcode a response is compared with. -/
def comparison (ev : PamMade) : Option Num :=
  match ev.c with
  | .authenticate s _ => some s.counter
  | _ => none

def compared (tr : PamHistory) : List Num := tr.filterMap comparison

/-- A wrong passcode, or a wrong static password. -/
def failedAttempt (ev : PamMade) : Bool :=
  match ev with
  | ⟨.authenticate _ _, _, retval, _⟩ => decide (retval ≠ 0)
  | ⟨.spassValidate _ _, _, retval, _⟩ => decide (retval ≠ 0)
  | _ => false

def failedAttempts (tr : PamHistory) : ℕ := tr.countP failedAttempt

/-- A `ppp_increment` found `e` for the user of `s` and stored it with the next
counter; `s` is what it left in memory. -/
def Reserved (cfg : Cfg) (u : CString) (s : State) (e : Entry) (tr : PamHistory) : Prop :=
  ∃ s0 w s1 w' prompt, (⟨.increment s0, w, (0, s1), w'⟩ : PamMade) ∈ tr ∧
    Replaced cfg u e { e with counter := numAdd e.counter (numI 1) } w.lib w'.lib ∧
    s1.entry = e ∧ s = s1.setPrompt prompt

/-- The static password was validated on a loaded state before any passcode
was reserved or compared. -/
def Validated (tr : PamHistory) : Prop :=
  ∃ pre s spass w w' post, tr = pre ++ (⟨.spassValidate s spass, w, 0, w'⟩ : PamMade) :: post ∧
    (∃ s0 w0 w0', (⟨.stateLoad s0 { dontLock := true }, w0, (0, s), w0'⟩ : PamMade) ∈ pre) ∧
    compared pre = [] ∧ ∀ ev ∈ pre, ∀ s, ev.c ≠ .increment s

/-- The last response is the passcode of a counter that was reserved before,
and that the stored entry is past. -/
def Proven (crypto : Crypto) (cfg : Config) (w : PamWorld) (tr : PamHistory) : Prop :=
  ∃ u s e resp, Reserved cfg.toCfg u s e tr ∧ (responses tr).getLast? = some (some resp) ∧
    resp.val = passcodeOf crypto cfg.toCfg s e.counter ∧ Spent cfg.toCfg u e.counter w.lib

/-- What a success rests on. -/
structure Earned (crypto : Crypto) (cfg : Config) (w : PamWorld) (tr : PamHistory) : Prop where
  passcode : Proven crypto cfg w tr
  spass : cfg.pamSpassRequire = configEnabled → Validated tr

/-! ## Quiet calls -/

/-- A call that neither moves the counter nor takes part in the verdict. -/
def Pam.Quiet (u : CString) (c : Pam) : Prop :=
  c.KeepsCounter u ∧
    match c with
    | .sys (.query _ _ _) => False
    | .authenticate _ _ => False
    | .spassValidate _ _ => False
    | _ => True

/-- What quiet calls leave. -/
structure Since (cfg : Cfg) (u : CString) (w : PamWorld) (tr : PamHistory) (w' : PamWorld)
    (tr' : PamHistory) : Prop where
  spent : KeepsSpent cfg u w.lib w'.lib
  behind : ∃ post, tr' = tr ++ post
  responses : responses tr' = responses tr
  compared : compared tr' = compared tr
  failed : failedAttempts tr' = failedAttempts tr

section

variable {crypto : Crypto} {cfg : Cfg} {me : Pid} {u : CString} {w w' w'' : PamWorld}
  {tr tr' tr'' : PamHistory} {α : Type}

theorem Since.refl : Since cfg u w tr w tr :=
  ⟨fun _ h => h, ⟨[], by simp⟩, rfl, rfl, rfl⟩

theorem Since.trans (h : Since cfg u w tr w' tr') (h' : Since cfg u w' tr' w'' tr'') :
    Since cfg u w tr w'' tr'' := by
  obtain ⟨post, hpost⟩ := h.behind
  obtain ⟨post', hpost'⟩ := h'.behind
  refine ⟨fun n hn => h'.spent n (h.spent n hn), ⟨post ++ post', ?_⟩, ?_, ?_, ?_⟩
  · rw [hpost', hpost, List.append_assoc]
  · exact h'.responses.trans h.responses
  · exact h'.compared.trans h.compared
  · exact h'.failed.trans h.failed

theorem responses_snoc (ev : PamMade) :
    responses (tr ++ [ev]) = responses tr ++ (response ev).toList := by
  rw [responses, List.filterMap_append]
  cases h : response ev <;> simp [h, responses]

theorem compared_snoc (ev : PamMade) :
    compared (tr ++ [ev]) = compared tr ++ (comparison ev).toList := by
  rw [compared, List.filterMap_append]
  cases h : comparison ev <;> simp [h, compared]

theorem failedAttempts_snoc (ev : PamMade) :
    failedAttempts (tr ++ [ev]) = failedAttempts tr + (failedAttempt ev).toNat := by
  rw [failedAttempts, List.countP_append]
  cases h : failedAttempt ev <;> simp [h, failedAttempts]

/-- A call that takes no part leaves only its own entry in the history. -/
theorem Since.snoc (ev : PamMade) (hspent : KeepsSpent cfg u w.lib w'.lib)
    (hresponse : response ev = none) (hcomparison : comparison ev = none)
    (hfailed : failedAttempt ev = false) : Since cfg u w tr w' (tr ++ [ev]) := by
  refine ⟨hspent, ⟨[ev], rfl⟩, ?_, ?_, ?_⟩
  · simp [responses_snoc, hresponse]
  · simp [compared_snoc, hcomparison]
  · simp [failedAttempts_snoc, hfailed]

theorem Since.quiet {c : Pam} (hc : c.Quiet u) (x : c.Reply)
    (hspent : KeepsSpent cfg u w.lib w'.lib) : Since cfg u w tr w' (tr ++ [⟨c, w, x, w'⟩]) := by
  have hquiet := hc.2
  refine .snoc _ hspent ?_ ?_ ?_
  all_goals
    cases c with
    | sys c => cases c <;> first | rfl | exact False.elim hquiet
    | authenticate | spassValidate => exact hquiet.elim
    | stateInit | stateLoad | stateRelease | stateFini | increment | failures | oobTime
      | getPrompt | getCurrent | setRecentFailures | warningConditions | warningMessage => rfl

theorem Reserved.since {s : State} {e : Entry} (h : Reserved cfg u s e tr)
    (hsince : Since cfg u w tr w' tr') : Reserved cfg u s e tr' := by
  obtain ⟨s0, w0, s1, w1, prompt, hmem, hrest⟩ := h
  obtain ⟨post, rfl⟩ := hsince.behind
  exact ⟨s0, w0, s1, w1, prompt, List.mem_append_left post hmem, hrest⟩

/-- The weakest precondition of a part of the module. -/
abbrev wpPam (crypto : Crypto) (cfg : Cfg) (me : Pid) (p : PamM α)
    (Q : Option α → PamWorld → PamHistory → Prop) (w : PamWorld) (tr : PamHistory) : Prop :=
  wpOver (Pam.impl crypto cfg) (PamSys.exec me) p Q w tr

/-- A call that leaves the counter alone. -/
theorem wpPam_call {c : Pam} (hc : c.KeepsCounter u) {k : c.Reply → PamM α}
    {Q : Option α → PamWorld → PamHistory → Prop}
    (habort : ∀ w', KeepsSpent cfg u w.lib w'.lib → Q none w' tr)
    (hnext : ∀ x w', KeepsSpent cfg u w.lib w'.lib → c.Told crypto cfg x →
      wpPam crypto cfg me (k x) Q w' (tr ++ [⟨c, w, x, w'⟩])) :
    wpPam crypto cfg me (pam c >>= k) Q w tr :=
  wpOver_call (wp_and (impl_spent hc) (impl_told hc)) (fun w' h => habort w' h.1)
    fun x w' h => hnext x w' h.1 (h.2 x rfl)

/-- A quiet part, and the values it can return. -/
abbrev QuietPart (u : CString) (V : α → Prop) (p : PamM α) : Prop :=
  p.Sat (fun _ _ => True) (Pam.Quiet u) (fun _ => True) V

theorem wpPam_quiet {p : PamM α} {V : α → Prop} (hp : QuietPart u V p) :
    wpPam crypto cfg me p
      (fun r w' tr' => Since cfg u w tr w' tr' ∧ ∀ a, r = some a → V a) w tr := by
  induction p generalizing w tr with
  | ret a => exact ⟨.refl, fun _ h => Option.some.inj h ▸ hp⟩
  | stop why => exact ⟨.refl, fun _ h => by cases h⟩
  | call c k ih =>
    refine wpPam_call (k := k) hp.1.1 (fun w' h => ?_) fun x w' h _ => ?_
    · exact ⟨⟨h, ⟨[], by simp⟩, rfl, rfl, rfl⟩, fun _ h => by cases h⟩
    · refine wpOver_mono (ih x (hp.2 x trivial)) fun _ w'' tr'' h' => ?_
      exact ⟨(Since.quiet hp.1 x h).trans h'.1, h'.2⟩

theorem wpPam_quiet_seq {β : Type} {p : PamM α} {f : α → PamM β} {V : α → Prop}
    (hp : QuietPart u V p) {Q : Option β → PamWorld → PamHistory → Prop}
    (habort : ∀ w' tr', Since cfg u w tr w' tr' → Q none w' tr')
    (hnext : ∀ a w' tr', Since cfg u w tr w' tr' → V a → wpPam crypto cfg me (f a) Q w' tr') :
    wpPam crypto cfg me (p >>= f) Q w tr :=
  wpOver_seq (wpPam_quiet hp) (fun w' tr' h => habort w' tr' h.1)
    fun a w' tr' h => hnext a w' tr' h.1 (h.2 a rfl)

end

/-! ## Quiet parts of the module -/

section

variable {cfg : Config} {u : CString} {s : State}

theorem phShowMessage_quiet (msg : List Char) :
    (phShowMessage cfg msg).Issues (Pam.Quiet u) := by
  unfold phShowMessage
  split
  · trivial
  · exact issues_call ⟨trivial, trivial⟩ fun _ => trivial

theorem oobParent_quiet : oobParent.Issues (Pam.Quiet u) := by
  have hwait (n : ℕ) : (oobWait n).Issues (Pam.Quiet u) := by
    induction n with
    | zero => trivial
    | succ n ih =>
      refine issues_call ⟨trivial, trivial⟩ fun _ => issues_call ⟨trivial, trivial⟩ fun x => ?_
      cases x with
      | exited => trivial
      | running => exact ih
      | error => trivial
  refine (hwait 200).bind fun x => ?_
  rcases x with _ | _ | _
  · trivial
  · refine issues_call ⟨trivial, trivial⟩ fun _ => issues_call ⟨trivial, trivial⟩ fun _ => ?_
    exact issues_call ⟨trivial, trivial⟩ fun _ => trivial
  · trivial

theorem phOobSend_quiet (hs : s.username = u) : (phOobSend cfg s).Issues (Pam.Quiet u) := by
  have hstart : (phOobStart cfg s).Issues (Pam.Quiet u) := by
    refine issues_call ⟨trivial, trivial⟩ fun st => ?_
    rcases st with _ | st
    · trivial
    simp only
    split
    · trivial
    refine issues_call ⟨trivial, trivial⟩ fun r => ?_
    split
    · trivial
    split
    · trivial
    refine issues_call ⟨hs, trivial⟩ fun ret => ?_
    split
    · trivial
    refine issues_call ⟨trivial, trivial⟩ fun forked => ?_
    split
    · trivial
    · exact oobParent_quiet
  refine (sat_assert_bind _).mpr ⟨fun _ => ?_, fun _ => trivial⟩
  split
  · trivial
  refine issues_call ⟨rfl, trivial⟩ fun now => ?_
  split
  · exact (phShowMessage_quiet _).bind fun _ => trivial
  · exact hstart

/-- The `switch` of `ph_increment` only talks to the user. -/
theorem phVerdict_quiet (ret : ℕ) :
    QuietPart u (fun r => r.2 = s ∧ (r.1 = .success → ret = 0)) (phVerdict cfg ret s) := by
  have hrefuse (msg : String) :
      QuietPart u (fun r => r.2 = s ∧ (r.1 = .success → ret = 0)) (phRefuse cfg s msg) := by
    refine Sat.bind (phShowMessage_quiet msg.toList) fun _ _ => ⟨rfl, fun h => ?_⟩
    cases h
  have hret (code : PamCode) (h : code = .success → ret = 0) :
      QuietPart u (fun r => r.2 = s ∧ (r.1 = .success → ret = 0)) (pure (code, s)) := ⟨rfl, h⟩
  unfold phVerdict phEnforcedFail
  split_ifs with h0
  · exact hret _ fun _ => h0
  all_goals first | exact hrefuse _ | exact hret _ fun h => by cases h

end

end Otpasswd
