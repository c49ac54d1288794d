import Otpasswd.Pam.Earned

/-!
# Otpasswd.Pam.Session — opening a session, and the process of the script

`pam_sm_open_session` tells the user of what `ppp_get_warning_conditions`
finds, and clears the recent failures. The process that is forked for a script
runs it only after it has given up the rights of root.

Main results: `openSession_entry` and `oobChild_execl`.
-/

namespace Otpasswd

open CText Prog

/-! ## Calls that keep the databases -/

/-- A call that neither asks the user nor writes a database. -/
def Pam.Still : Pam → Prop
  | .sys (.lib c) => c.Quiet
  | .sys (.query _ _ _) => False
  | .stateLoad _ flags => flags = {}
  | .stateRelease _ flags => flags.store = false ∧ flags.remove = false
  | .increment _ => False
  | .failures _ _ => False
  | .oobTime _ => False
  | _ => True

section

variable {crypto : Crypto} {cfg : Cfg} {me : Pid} {s : State} {w : PamWorld} {tr : PamHistory}
  {α : Type}

theorem pppGetWarningConditions_sat {A : (c : Sys) → c.Reply → Prop} :
    (pppGetWarningConditions s).Sat A Sys.Calm (fun _ => True) (fun r => r = warningConditions s) :=
  (sat_assert_bind _).mpr ⟨fun _ => rfl, fun _ => trivial⟩

theorem pppGetWarningMessage_sat {A : (c : Sys) → c.Reply → Prop} (warning : ℕ) :
    (pppGetWarningMessage s warning).Sat A Sys.Calm (fun _ => True)
      (fun r => r.1 ≠ none → r.2 < warning) := by
  unfold pppGetWarningMessage
  by_cases hzero : warning = 0
  · rw [if_pos hzero]
    exact fun h => absurd rfl h
  rw [if_neg hzero]
  have hless : warning - pppWarnRecentFailures < warning := by
    simp only [pppWarnRecentFailures]
    omega
  by_cases hrecent : warning &&& pppWarnRecentFailures ≠ 0
  · rw [if_pos hrecent]
    by_cases hone : s.recentFailures = 1
    · rw [if_pos hone]
      exact fun _ => hless
    · rw [if_neg hone]
      exact (sat_assert_bind _).mpr ⟨fun _ _ => hless, fun _ => trivial⟩
  rw [if_neg hrecent]
  have hpos : 0 < warning := Nat.pos_of_ne_zero hzero
  by_cases hlast : warning = pppWarnLastCard
  · rw [if_pos hlast]
    exact fun _ => hpos
  rw [if_neg hlast]
  by_cases hnothing : warning = pppWarnNothingLeft
  · rw [if_pos hnothing]
    exact fun _ => hpos
  · rw [if_neg hnothing]
    trivial

/-- A release that neither stores nor removes. -/
theorem pppStateRelease_keeps (flags : PppOptions) (hstore : flags.store = false)
    (hremove : flags.remove = false) {uid : Uid} {ok : Prop} :
    (pppStateRelease cfg s flags).Sat (Sys.Answers uid ok) Sys.Calm (fun _ => True)
      (fun _ => True) := by
  have hrelease : pppReleaseStore cfg s flags = .ret (0, s) := by
    unfold pppReleaseStore
    rw [hstore, hremove]
    rfl
  refine (sat_assert_bind _).mpr ⟨fun _ => ?_, fun _ => trivial⟩
  by_cases hpolicy : flags.checkPolicy = true ∧ cfg.keyRemoval = configDisallow
  · rw [if_pos hpolicy]
    trivial
  rw [if_neg hpolicy, hrelease]
  unfold pppReleaseUnlock
  by_cases hunlock : flags.unlock = true
  · simp only [ret_bind, if_pos hunlock]
    exact ((stateUnlock_sat s).mono (fun _ h => h) (fun _ _ => trivial) fun _ _ => trivial).bind
      fun _ _ => trivial
  · simp only [ret_bind, if_neg hunlock]
    trivial

theorem lift_yields {p : SysM α} {V : α → Prop} (hp : p.Yields V) : (SysM.lift p).Yields V := by
  induction p with
  | ret a => exact hp
  | stop why => trivial
  | call c k ih => exact ⟨trivial, fun x _ => ih x (hp.2 x trivial)⟩

theorem impl_still {c : Pam} (hc : c.Still) :
    wp (PamSys.exec me) (Pam.impl crypto cfg c) (fun _ w' => w'.lib.Keeps w.lib) w := by
  have hcalm {α : Type} {p : SysM α} {V : α → Prop}
      (hp : ∀ uid ok, p.Sat (Sys.Answers uid ok) Sys.Calm (fun _ => True) V) :
      wp (PamSys.exec me) (SysM.lift p) (fun _ w' => w'.lib.Keeps w.lib) w :=
    wp_mono (wp_lift_calm hp) fun _ _ h => h.1
  cases c with
  | sys c =>
    cases c with
    | lib c => exact exec_keeps hc me w.lib
    | query echo prompt answer => exact hc.elim
    | pppInit | getUser | message | sleep | usleep | statScript | fork | waitpid | kill
      | setgid | setuid | execl => exact .refl w.lib
  | stateInit name => exact hcalm fun _ _ => pppStateInit_sat true name
  | stateLoad s flags =>
    obtain rfl : flags = {} := hc
    exact wp_mono (wp_lift (pppStateLoad_spec me cfg s w.lib)) fun _ _ h => h.1.1
  | stateRelease s flags => exact hcalm fun _ _ => pppStateRelease_keeps flags hc.1 hc.2
  | stateFini s =>
    exact hcalm fun _ _ => (stateFini_sat s).mono (fun _ h => h) (fun _ _ => trivial) fun _ h => h
  | getPrompt s => exact hcalm fun _ _ => pppPrompt_sat
  | getCurrent s => exact hcalm fun _ _ => pppGetCurrent_sat
  | authenticate s passcode => exact hcalm fun _ _ => pppAuthenticate_sat passcode.val
  | spassValidate s spass => exact hcalm fun _ _ => pppSpassValidate_sat spass
  | setRecentFailures s arg =>
    exact @hcalm _ (pppSetInt cfg s .recentFailures arg) (fun _ => True) fun _ _ => trivial
  | warningConditions s => exact hcalm fun _ _ => pppGetWarningConditions_sat
  | warningMessage s warning => exact hcalm fun _ _ => pppGetWarningMessage_sat warning
  | increment | failures | oobTime => exact hc.elim

/-- A still call. -/
theorem wpPam_still {c : Pam} (hc : c.Still) {k : c.Reply → PamM α}
    {Q : Option α → PamWorld → PamHistory → Prop}
    (hstop : ∀ w', w'.lib.Keeps w.lib → Q none w' tr)
    (hnext : ∀ x w', w'.lib.Keeps w.lib →
      wpPam crypto cfg me (k x) Q w' (tr ++ [⟨c, w, x, w'⟩])) :
    wpPam crypto cfg me (pam c >>= k) Q w tr :=
  wpOver_call (impl_still hc) hstop hnext

theorem Pam.Still.response {c : Pam} (hc : c.Still) (x : c.Reply) (w' : PamWorld) :
    Otpasswd.response ⟨c, w, x, w'⟩ = none := by
  cases c with
  | sys c => cases c <;> first | rfl | exact False.elim hc
  | stateInit | stateLoad | stateRelease | stateFini | increment | failures | oobTime | getPrompt
    | getCurrent | authenticate | spassValidate | setRecentFailures | warningConditions
    | warningMessage => rfl

theorem responses_still {c : Pam} (hc : c.Still) (x : c.Reply) (w' : PamWorld) :
    responses (tr ++ [⟨c, w, x, w'⟩]) = responses tr := by
  rw [responses_snoc, hc.response]
  exact List.append_nil _

/-- A part of the module that makes only such calls. -/
theorem wpPam_still_part {p : PamM α} (hp : p.Issues Pam.Still) :
    wpPam crypto cfg me p
      (fun _ w' tr' => w'.lib.Keeps w.lib ∧ responses tr' = responses tr) w tr := by
  induction p generalizing w tr with
  | ret a => exact ⟨.refl w.lib, rfl⟩
  | stop why => exact ⟨.refl w.lib, rfl⟩
  | call c k ih =>
    refine wpPam_still (k := k) hp.1 (fun w' hw' => ⟨hw', rfl⟩) fun x w' hw' => ?_
    refine wpOver_mono (ih x (hp.2 x trivial)) fun _ w'' tr'' h => ?_
    exact ⟨h.1.trans hw', h.2.trans (responses_still hp.1 x w')⟩

end

/-! ## Opening a session -/

/-- What opening a session leaves of the databases. -/
inductive SessionEnd (cfg : Cfg) (w w' : World) : Prop where
  | kept (h : w'.Keeps w)
  | cleared (u : CString) (e : Entry) (hfailures : 0 < e.recentFailures)
      (h : Replaced cfg u e { e with recentFailures := 0 } w w')

section

variable {crypto : Crypto} {cfg : Config} {me : Pid} {s : State} {w : PamWorld} {tr : PamHistory}

theorem SessionEnd.of_keeps {cfg : Cfg} {w w' w'' : World} (h : SessionEnd cfg w w')
    (hw : w''.Keeps w') : SessionEnd cfg w w'' := by
  cases h with
  | kept h => exact .kept (hw.trans h)
  | cleared u e hfailures h =>
    obtain ⟨hbefore, s, hu, he, hupdated⟩ := h
    exact .cleared u e hfailures ⟨hbefore, s, hu, he, hupdated.of_keeps_right hw⟩

theorem SessionEnd.after {cfg : Cfg} {w w' w'' : World} (h : SessionEnd cfg w' w'')
    (hw : w'.Keeps w) : SessionEnd cfg w w'' := by
  cases h with
  | kept h => exact .kept (h.trans hw)
  | cleared u e hfailures h =>
    obtain ⟨hbefore, s, hu, he, hupdated⟩ := h
    rw [hw.file] at hbefore
    exact .cleared u e hfailures ⟨hbefore, s, hu, he, hupdated.of_keeps_left hw⟩

theorem phInit_still (silent : Bool) (argv : List (List Char)) :
    (phInit cfg silent argv).Issues Pam.Still := by
  refine issues_call trivial fun ret => ?_
  by_cases hret : ret ≠ 0
  · rw [if_pos hret]
    trivial
  rw [if_neg hret]
  refine (sat_assert_bind _).mpr ⟨fun _ => ?_, fun _ => trivial⟩
  refine issues_call trivial fun x => ?_
  obtain ⟨ok, user⟩ := x
  cases user with
  | none => trivial
  | some user =>
    simp only
    split_ifs
    · trivial
    refine issues_call trivial fun x => ?_
    cases x with
    | error code => trivial
    | ok s =>
      simp only
      split_ifs <;> trivial

theorem warningLoop_still (n err : ℕ) : (warningLoop cfg s n err).Issues Pam.Still := by
  induction n generalizing err with
  | zero => trivial
  | succ n ih =>
    refine issues_call trivial fun x => ?_
    obtain ⟨msg, err'⟩ := x
    cases msg with
    | none => trivial
    | some msg =>
      have hshow (msg : List Char) : (phShowMessage cfg msg).Issues Pam.Still := by
        unfold phShowMessage
        split_ifs
        · trivial
        · exact issues_call trivial fun _ => trivial
      exact (hshow _).bind fun _ => ih err'

/-- The fuel of the loop is never used up: each message takes something from
the warnings that are left. -/
theorem warningLoop_fuel {n m err : ℕ} (hn : err < n) (hm : err < m) :
    (warningLoop cfg s n err).expand (Pam.impl crypto cfg.toCfg) =
      (warningLoop cfg s m err).expand (Pam.impl crypto cfg.toCfg) := by
  induction n generalizing m err with
  | zero => exact absurd hn (Nat.not_lt_zero err)
  | succ n ih =>
    cases m with
    | zero => exact absurd hm (Nat.not_lt_zero err)
    | succ m =>
      have hmessage : (Pam.impl crypto cfg.toCfg (.warningMessage s err)).Yields
          (fun r => r.1 ≠ none → r.2 < err) :=
        lift_yields ((pppGetWarningMessage_sat err).mono (fun _ _ => trivial) (fun _ h => h)
          fun _ h => h)
      refine hmessage.bind_congr fun x hx => ?_
      obtain ⟨msg, err'⟩ := x
      cases msg with
      | none => rfl
      | some msg =>
        have hless : err' < err := hx (Option.some_ne_none msg)
        have hrest := @ih m err' (by omega) (by omega)
        simp only
        unfold phShowMessage
        split_ifs
        · exact hrest
        · exact congrArg (Prog.call (PamSys.message _)) (funext fun _ => hrest)

/-- The warnings, for a state that was loaded. -/
theorem sessionWarn_spec (hlook : dbLookup (w.lib.file (dbLoc cfg.toCfg s.username)) s.username =
      some s.entry) :
    wpPam crypto cfg.toCfg me (sessionWarn cfg s)
      (fun _ w' tr' => SessionEnd cfg.toCfg w.lib w'.lib ∧ responses tr' = responses tr) w
      tr := by
  refine wpOver_call (wp_and (impl_still trivial)
    (wp_lift_calm fun _ _ => pppGetWarningConditions_sat)) (fun w1 h => ⟨.kept h.1, rfl⟩) ?_
  rintro err w1 ⟨hw1, -, herr⟩
  obtain rfl := herr err rfl
  have htr1 := @responses_still w tr (.warningConditions s) trivial (warningConditions s) w1
  -- with nothing to store, the lock is given back and the databases are left
  have hrelease {w1 : PamWorld} {tr1 : PamHistory} (hw1 : w1.lib.Keeps w.lib)
      (htr1 : responses tr1 = responses tr) :
      wpPam crypto cfg.toCfg me (pam (.stateRelease s { unlock := true }) >>= fun x => pure x.2)
        (fun _ w' tr' => SessionEnd cfg.toCfg w.lib w'.lib ∧ responses tr' = responses tr) w1
        tr1 := by
    have hstill : (Pam.stateRelease s { unlock := true }).Still := ⟨rfl, rfl⟩
    refine wpPam_still hstill (fun w2 hw2 => ⟨.kept (hw2.trans hw1), htr1⟩) fun x w2 hw2 => ?_
    exact ⟨.kept (hw2.trans hw1), (responses_still hstill x w2).trans htr1⟩
  -- no warning
  by_cases hzero : warningConditions s = 0
  · rw [if_pos hzero]
    exact hrelease hw1 htr1
  rw [if_neg hzero]
  refine wpOver_seq (wpPam_still_part (warningLoop_still _ _)) (fun w2 tr2 h => ?_) ?_
  · exact ⟨.kept (h.1.trans hw1), h.2.trans htr1⟩
  rintro - w2 tr2 ⟨hw2, htr2⟩
  replace hw2 := hw2.trans hw1
  replace htr2 := htr2.trans htr1
  -- none about recent failures
  by_cases hrecent : warningConditions s &&& pppWarnRecentFailures ≠ 0
  swap
  · rw [if_neg hrecent]
    exact hrelease hw2 htr2
  rw [if_pos hrecent]
  have hfailures : 0 < s.recentFailures := by
    by_contra hnone
    refine hrecent ?_
    unfold warningConditions
    rw [if_neg hnone]
    dsimp only
    split_ifs <;> rfl
  -- they are set to zero, and the entry is stored
  have hset : wp (PamSys.exec me) (Pam.impl crypto cfg.toCfg (.setRecentFailures s 0))
      (fun r _ => ∀ x, r = some x → x = (0, s.setRecentFailures 0)) w2 :=
    wp_mono (wp_lift_calm (V := fun x => x = (0, s.setRecentFailures 0)) fun _ _ => rfl)
      fun _ _ h => h.2
  refine wpOver_call (wp_and (impl_still trivial) hset)
    (fun w3 h => ⟨.kept (h.1.trans hw2), htr2⟩) ?_
  rintro x w3 ⟨hw3, hx⟩
  obtain rfl := hx x rfl
  replace hw3 := hw3.trans hw2
  have htr3 := (@responses_still w2 tr2 (.setRecentFailures s 0) trivial
    (0, s.setRecentFailures 0) w3).trans htr2
  have hend {r : Option (ℕ × State)} {w4 : World}
      (h : StoreEnd cfg.toCfg (s.setRecentFailures 0) false w3.lib r w4) :
      SessionEnd cfg.toCfg w.lib w4 := by
    cases h.of_keeps hw3 with
    | kept h _ => exact .kept h
    | stored h _ =>
      exact .cleared s.username s.entry hfailures ⟨hlook, s.setRecentFailures 0, rfl, rfl, h⟩
  refine wpOver_call (wp_lift (pppStateRelease_spec me cfg.toCfg _ { unlock := true, store := true }
    rfl w3.lib)) (fun w4 h => ⟨hend h.1, htr3⟩) fun x w4 h => ⟨hend h.1, ?_⟩
  exact (responses_snoc _).trans ((List.append_nil _).trans htr3)

end

/-- `pam_sm_open_session`, with the history of its calls. -/
def openSession (crypto : Crypto) (cfg : Config) (me : Pid) (silent : Bool)
    (argv : List (List Char)) (w : PamWorld) : Option PamCode × PamWorld × PamHistory :=
  (pamSmOpenSession cfg silent argv).runOver (Pam.impl crypto cfg.toCfg) (PamSys.exec me) w []

/-- The script was run only by the group and the user of the configuration, with
the contact and the passcode that its process was forked with. -/
def RunAsConfigured (cfg : Config) (c : OobChild) (tr : PamHistory) : Prop :=
  ∀ path contact passcode w1 w2,
    (⟨.sys (.execl path contact passcode), w1, ⟨⟩, w2⟩ : PamMade) ∈ tr →
    (path = cfg.pamOobPath ∧ contact = c.contact ∧ passcode = c.passcode) ∧
      (∃ w3 w4, (⟨.sys (.setgid cfg.pamOobGid), w3, true, w4⟩ : PamMade) ∈ tr) ∧
      ∃ w3 w4, (⟨.sys (.setuid cfg.pamOobUid), w3, true, w4⟩ : PamMade) ∈ tr

/-- The process of the script leaves the databases, and runs the script only
after it has changed its group and its user. -/
theorem oobChild_execl (crypto : Crypto) (cfg : Config) (me : Pid) (c : OobChild) (w : PamWorld) :
    let run := (oobChild cfg c).runOver (Pam.impl crypto cfg.toCfg) (PamSys.exec me) w []
    run.2.1.lib.Keeps w.lib ∧ RunAsConfigured cfg c run.2.2 := by
  let Q : Option ℕ → PamWorld → PamHistory → Prop := fun _ w' tr =>
    w'.lib.Keeps w.lib ∧ RunAsConfigured cfg c tr
  have hnot (r : Option ℕ) {w' : PamWorld} {tr : PamHistory} (hw : w'.lib.Keeps w.lib)
      (h : ∀ path contact passcode w1 w2,
        (⟨.sys (.execl path contact passcode), w1, ⟨⟩, w2⟩ : PamMade) ∉ tr) : Q r w' tr :=
    ⟨hw, fun path contact passcode w1 w2 hmem => absurd hmem (h path contact passcode w1 w2)⟩
  have hend : wpPam crypto cfg.toCfg me (oobChild cfg c) Q w [] := by
    -- the copy of the lock is given back first
    have hrelease : (Pam.stateRelease c.s {}).Still := ⟨rfl, rfl⟩
    refine wpPam_still hrelease (fun w1 hw1 => hnot none hw1 (by simp)) fun x w1 hw1 => ?_
    obtain ⟨retval, s⟩ := x
    simp only
    by_cases hret : retval ≠ 0
    · rw [if_pos hret]
      exact (wpOver_ret _).mpr (hnot (some 10) hw1 (by simp))
    rw [if_neg hret]
    have hgid : (Pam.sys (.setgid cfg.pamOobGid)).Still := trivial
    refine wpPam_still hgid (fun w2 hw2 => hnot none (hw2.trans hw1) (by simp)) fun gid w2 hw2 => ?_
    replace hw2 := hw2.trans hw1
    cases gid with
    | false => exact (wpOver_ret _).mpr (hnot (some 11) hw2 (by simp))
    | true =>
      have huid : (Pam.sys (.setuid cfg.pamOobUid)).Still := trivial
      refine wpPam_still huid (fun w3 hw3 => hnot none (hw3.trans hw2) (by simp)) ?_
      intro uid w3 hw3
      replace hw3 := hw3.trans hw2
      cases uid with
      | false => exact (wpOver_ret _).mpr (hnot (some 12) hw3 (by simp))
      | true =>
        have hexecl : (Pam.sys (.execl cfg.pamOobPath c.contact c.passcode)).Still := trivial
        refine wpPam_still hexecl (fun w4 hw4 => hnot none (hw4.trans hw3) (by simp)) ?_
        intro _ w4 hw4
        refine (wpOver_ret _).mpr ⟨hw4.trans hw3, fun path contact passcode w5 w6 hmem => ?_⟩
        have hev : (path = cfg.pamOobPath ∧ contact = c.contact ∧ passcode = c.passcode) ∧
            w5 = w3 ∧ w6 = w4 := by
          simpa using hmem
        exact ⟨hev.1, ⟨w1, w2, by simp⟩, ⟨w2, w3, by simp⟩⟩
  exact hend

end Otpasswd
