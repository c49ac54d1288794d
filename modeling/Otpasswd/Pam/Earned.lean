import Otpasswd.Libotp.ConfigRange
import Otpasswd.Libotp.DbFileOk
import Otpasswd.Pam.Attempts

/-!
# Otpasswd.Pam.Earned — what a successful authentication rests on

Before the loop nothing was reserved or compared, and the static password was
validated if it is required; behind it a success is earned.

Main result: `success_earned`.
-/

namespace Otpasswd

open CText Prog

/-! ## Before the loop -/

/-- The options of the module only concern what is logged and shown. -/
theorem phParseModuleOptions_eq (cfg : Config) (silent : Bool) (argv : List (List Char)) :
    ∃ logging quiet, phParseModuleOptions cfg silent argv =
      { cfg with pamLogging := logging, pamSilent := quiet } := by
  have hopt (cfg : Config) (opt : List Char) : ∃ logging quiet, phParseOption cfg opt =
      { cfg with pamLogging := logging, pamSilent := quiet } := by
    unfold phParseOption
    split_ifs
    · exact ⟨2, cfg.pamSilent, rfl⟩
    · exact ⟨3, cfg.pamSilent, rfl⟩
    · exact ⟨cfg.pamLogging, configEnabled, rfl⟩
    · exact ⟨cfg.pamLogging, cfg.pamSilent, rfl⟩
  have hfold : ∃ logging quiet, argv.foldl phParseOption cfg =
      { cfg with pamLogging := logging, pamSilent := quiet } := by
    induction argv generalizing cfg with
    | nil => exact ⟨cfg.pamLogging, cfg.pamSilent, rfl⟩
    | cons opt argv ih =>
      obtain ⟨logging, quiet, hcfg⟩ := hopt cfg opt
      obtain ⟨logging', quiet', hcfg'⟩ := ih (phParseOption cfg opt)
      refine ⟨logging', quiet', hcfg'.trans ?_⟩
      rw [hcfg]
  obtain ⟨logging, quiet, hcfg⟩ := hfold
  unfold phParseModuleOptions
  rw [hcfg]
  cases silent with
  | true => exact ⟨logging, configEnabled, rfl⟩
  | false => exact ⟨logging, quiet, rfl⟩

/-- Nothing was reserved or compared yet. -/
structure Untouched (tr : PamHistory) : Prop where
  compared : compared tr = []
  failed : failedAttempts tr = 0
  unreserved : ∀ ev ∈ tr, ∀ s, ev.c ≠ .increment s

section

variable {crypto : Crypto} {cfg : Config} {me : Pid} {u : CString} {w w' : PamWorld}
  {tr tr' : PamHistory}

theorem Untouched.snoc (h : Untouched tr) (ev : PamMade) (hcomparison : comparison ev = none)
    (hfailed : failedAttempt ev = false) (hinc : ∀ s, ev.c ≠ .increment s) :
    Untouched (tr ++ [ev]) := by
  refine ⟨?_, ?_, fun ev' hev' => ?_⟩
  · rw [compared_snoc, hcomparison, h.compared]
    rfl
  · rw [failedAttempts_snoc, hfailed, h.failed]
    rfl
  · rcases List.mem_append.mp hev' with hev' | hev'
    · exact h.unreserved ev' hev'
    · rw [List.mem_singleton.mp hev']
      exact hinc

theorem Untouched.quiet (h : Untouched tr) {c : Pam} (hc : c.Quiet u) (x : c.Reply)
    (hspent : KeepsSpent cfg.toCfg u w.lib w'.lib) : Untouched (tr ++ [⟨c, w, x, w'⟩]) := by
  have hsince : Since cfg.toCfg u w tr w' (tr ++ [⟨c, w, x, w'⟩]) := .quiet hc x hspent
  refine ⟨hsince.compared.trans h.compared, hsince.failed.trans h.failed, fun ev hev s hinc => ?_⟩
  rcases List.mem_append.mp hev with hev | hev
  · exact h.unreserved ev hev s hinc
  · rw [List.mem_singleton.mp hev] at hinc
    replace hinc : c = .increment s := hinc
    rw [hinc] at hc
    exact hc.1

theorem Untouched.bounded (h : Untouched tr) (hlimit : 0 < authLimit cfg) : Bounded cfg tr := by
  refine ⟨?_, fun _ => ?_⟩
  · rw [h.failed]
    exact hlimit.le
  · rw [h.compared]
    exact List.nodup_nil

theorem Validated.append (h : Validated tr) (post : PamHistory) : Validated (tr ++ post) := by
  obtain ⟨pre, s, spass, w, w', rest, rfl, hload, hcompared, hunreserved⟩ := h
  refine ⟨pre, s, spass, w, w', rest ++ post, ?_, hload, hcompared, hunreserved⟩
  rw [List.append_assoc, List.cons_append]

/-- What `ph_init` leaves. -/
structure Ready (cfg : Config) (r : Config × State) : Prop where
  options : ∃ logging quiet, r.1 = { cfg with pamLogging := logging, pamSilent := quiet }
  fresh : ∃ u, r.2.Fresh u

theorem phInit_spec (silent : Bool) (argv : List (List Char)) (htr : Untouched tr) :
    wpPam crypto cfg.toCfg me (phInit cfg silent argv)
      (fun r _ tr' => Untouched tr' ∧ (∀ code, r = some (.error code) → code ≠ .success) ∧
        ∀ x, r = some (.ok x) → Ready cfg x) w tr := by
  -- the calls are quiet for any user
  let u : CString := ⟨[], by decide⟩
  have herror {w : PamWorld} {tr : PamHistory} (h : Untouched tr) {code : PamCode}
      (hcode : code ≠ .success) :
      wpPam crypto cfg.toCfg me (pure (.error code) : PamM (Except PamCode (Config × State)))
        (fun r _ tr' => Untouched tr' ∧ (∀ code, r = some (.error code) → code ≠ .success) ∧
          ∀ x, r = some (.ok x) → Ready cfg x) w tr := by
    refine ⟨h, fun code' hr => ?_, fun x hr => ?_⟩
    · obtain rfl := Except.error.inj (Option.some.inj hr)
      exact hcode
    · cases Option.some.inj hr
  have hinit : Pam.Quiet u (.sys .pppInit) := ⟨trivial, trivial⟩
  refine wpPam_call hinit.1 (fun _ _ => ⟨htr, by simp⟩) fun ret w1 h1 _ => ?_
  have htr1 := htr.quiet hinit ret h1
  by_cases hret : ret ≠ 0
  · rw [if_pos hret]
    exact herror htr1 (by decide)
  rw [if_neg hret]
  refine (wpOver_assert_bind _).mpr ?_
  split
  swap
  · exact ⟨htr1, by simp⟩
  have huser : Pam.Quiet u (.sys .getUser) := ⟨trivial, trivial⟩
  refine wpPam_call huser.1 (fun _ _ => ⟨htr1, by simp⟩) fun x w2 h2 _ => ?_
  have htr2 := htr1.quiet huser x h2
  obtain ⟨ok, user⟩ := x
  cases user with
  | none => exact herror htr2 (by decide)
  | some user =>
    simp only
    split
    · exact herror htr2 (by decide)
    have hstate : Pam.Quiet u (.stateInit user) := ⟨trivial, trivial⟩
    refine wpPam_call hstate.1 (fun _ _ => ⟨htr2, by simp⟩) fun x w3 h3 htold => ?_
    have htr3 := htr2.quiet hstate x h3
    cases x with
    | error code => exact herror htr3 (by decide)
    | ok s =>
      simp only
      split
      · refine ⟨htr3, fun _ hr => ?_, fun _ hr => ?_⟩ <;> cases hr
      split
      · exact herror htr3 (by decide)
      · refine ⟨htr3, fun code hr => ?_, fun x hr => ?_⟩
        · cases Option.some.inj hr
        · obtain rfl := Except.ok.inj (Option.some.inj hr)
          exact ⟨phParseModuleOptions_eq cfg silent argv, user, htold s rfl⟩

theorem AuthInv.start {s : State} (hs : s.For u) (hcompared : compared tr = [])
    (hfailed : failedAttempts tr = 0) (hlimit : 0 < authLimit cfg) :
    AuthInv cfg u (Auth.start s) w tr := by
  refine ⟨⟨⟨?_, ?_⟩, hs, hfailed, ?_, ?_⟩, .inl rfl, fun _ => rfl, fun h => ?_, fun h => ?_⟩
  · rw [hfailed]
    exact hlimit.le
  · rw [hcompared]
    exact fun _ => List.nodup_nil
  · rw [hcompared]
    exact Nat.zero_le _
  · rw [hcompared]
    intro n hn
    cases hn
  · cases h
  · cases h

/-- What a whole call leaves. -/
def AuthLeft (crypto : Crypto) (cfg : Config) (r : Option PamCode) (w : PamWorld)
    (tr : PamHistory) : Prop :=
  Bounded cfg tr ∧ (r = some .success → Earned crypto cfg w tr)

/-- The call from the static password on. -/
theorem authConfirm_spec (hretry : 0 ≤ cfg.pamRetry) (hlimit : 0 < authLimit cfg) {s : State}
    (hs : s.For u) (answers : List (Option CString)) (htr : Untouched tr) :
    wpPam crypto cfg.toCfg me (authConfirm cfg s answers) (AuthLeft crypto cfg) w tr := by
  have hload : Pam.Quiet u (.stateLoad s { dontLock := true }) := ⟨rfl, trivial⟩
  refine wpPam_call hload.1 (fun w1 _ => ⟨htr.bounded hlimit, by simp⟩) fun x w1 h1 htold => ?_
  have htr1 := htr.quiet hload x h1
  obtain ⟨retval, s1⟩ := x
  replace htold : s.SameUser s1 := htold
  have hs1 : s1.For u := ⟨htold.username.trans hs.username, htold.saltMask.trans hs.saltMask,
    htold.codeMask.trans hs.codeMask⟩
  simp only
  unfold phValidateSpass phQueryUser
  generalize answers.head?.join = answer
  have hquery : Pam.KeepsCounter u (.sys (.query false spassPrompt answer)) := trivial
  refine wpPam_call hquery (fun w2 _ => ⟨htr1.bounded hlimit, by simp⟩) fun y w2 h2 _ => ?_
  have htr2 := htr1.snoc ⟨.sys (.query false spassPrompt answer), w1, y, w2⟩ rfl rfl
    fun _ h => by cases h
  -- the password is asked for in any case, and compared if the load succeeded
  by_cases hret : retval ≠ 0
  · rw [if_neg hret]
    have hsleep : Pam.Quiet u (.sys (.sleep 2)) := ⟨trivial, trivial⟩
    refine wpPam_call hsleep.1 (fun w3 _ => ⟨htr2.bounded hlimit, by simp⟩) fun z w3 h3 _ => ?_
    exact ⟨(htr2.quiet hsleep z h3).bounded hlimit, fun hr => by cases hr⟩
  obtain rfl := not_not.mp hret
  rw [if_pos rfl]
  cases answer with
  | none => exact ⟨htr2.bounded hlimit, fun hr => by cases hr⟩
  | some spass =>
    have hvalidate : Pam.KeepsCounter u (.spassValidate s1 spass) := trivial
    refine wpPam_call hvalidate (fun w3 _ => ⟨htr2.bounded hlimit, by simp⟩) fun code w3 h3 _ => ?_
    set tr3 := tr ++ [(⟨.stateLoad s { dontLock := true }, w, (0, s1), w1⟩ : PamMade)] ++
      [⟨.sys (.query false spassPrompt (some spass)), w1, y, w2⟩] with htr3
    by_cases hcode : code ≠ 0
    · -- the only failure there is
      rw [if_pos hcode]
      have hbounded : Bounded cfg (tr3 ++ [⟨.spassValidate s1 spass, w2, code, w3⟩]) := by
        refine ⟨?_, fun _ => ?_⟩
        · rw [failedAttempts_snoc, htr2.failed]
          have hle := Bool.toNat_le
            (failedAttempt (⟨.spassValidate s1 spass, w2, code, w3⟩ : PamMade))
          omega
        · rw [compared_snoc, htr2.compared]
          exact List.nodup_nil
      have hsleep : Pam.Quiet u (.sys (.sleep 2)) := ⟨trivial, trivial⟩
      refine wpPam_call hsleep.1 (fun w4 _ => ⟨hbounded, by simp⟩) fun z w4 h4 _ => ?_
      exact ⟨hbounded.since (.quiet hsleep z h4), fun hr => by cases hr⟩
    · rw [if_neg hcode]
      obtain rfl := not_not.mp hcode
      have htr4 := htr2.snoc ⟨.spassValidate s1 spass, w2, 0, w3⟩ rfl rfl fun _ h => by cases h
      -- the loop starts, with the check behind it
      have hvalidated : Validated (tr3 ++ [⟨.spassValidate s1 spass, w2, 0, w3⟩]) :=
        ⟨tr3, s1, spass, w2, w3, [], rfl, ⟨s, w, w1, by simp [htr3]⟩, htr2.compared,
          htr2.unreserved⟩
      have hinv : AuthInv cfg u (Auth.start s1) w3 _ :=
        .start hs1 htr4.compared htr4.failed hlimit
      have hrun := @authRun_spec crypto cfg me u w3 _ hretry hlimit s1 answers.tail hinv
      refine wpOver_mono (wpOver_and hrun wpOver_behind) fun r w4 tr4 h => ?_
      obtain ⟨⟨hbounded, hproven⟩, post, rfl⟩ := h
      exact ⟨hbounded, fun hr => ⟨hproven hr, fun _ => hvalidated.append post⟩⟩

/-- `pam_sm_authenticate`. -/
theorem pamSmAuthenticate_spec (hretry : 0 ≤ cfg.pamRetry) (hlimit : 0 < authLimit cfg)
    (silent : Bool) (argv : List (List Char)) (answers : List (Option CString)) :
    wpPam crypto cfg.toCfg me (pamSmAuthenticate cfg silent argv answers) (AuthLeft crypto cfg) w
      [] := by
  have hnil : Untouched [] := ⟨rfl, rfl, fun _ h => by cases h⟩
  refine wpOver_seq (phInit_spec silent argv hnil) (fun w1 tr1 h => ?_) fun x w1 tr1 h => ?_
  · exact ⟨h.1.bounded hlimit, by simp⟩
  obtain ⟨htr, herror, hok⟩ := h
  cases x with
  | error code =>
    refine ⟨htr.bounded hlimit, fun hr => ?_⟩
    exact absurd (Option.some.inj hr) (herror code rfl)
  | ok x =>
    obtain ⟨cfg', s⟩ := x
    obtain ⟨⟨logging, quiet, hcfg⟩, u, hs⟩ := hok _ rfl
    replace hcfg : cfg' = { cfg with pamLogging := logging, pamSilent := quiet } := hcfg
    have hback (r : Option PamCode) (w : PamWorld) (tr : PamHistory)
        (h : AuthLeft crypto cfg' r w tr) : AuthLeft crypto cfg r w tr := by
      rw [hcfg] at h
      exact ⟨⟨h.1.failed, h.1.once⟩, fun hr => ⟨(h.2 hr).passcode, (h.2 hr).spass⟩⟩
    have hretry' : 0 ≤ cfg'.pamRetry := by
      rw [hcfg]
      exact hretry
    have hlimit' : 0 < authLimit cfg' := by
      rw [hcfg]
      exact hlimit
    have hlow : cfg.toCfg = cfg'.toCfg := by rw [hcfg]
    rw [hlow]
    refine wpOver_mono ?_ hback
    simp only
    by_cases hrequire : cfg'.pamSpassRequire = configEnabled
    · rw [if_pos hrequire]
      exact authConfirm_spec hretry' hlimit' hs.toFor answers htr
    · rw [if_neg hrequire]
      have hinv : AuthInv cfg' u (Auth.start s) w1 tr1 :=
        .start hs.toFor htr.compared htr.failed hlimit'
      refine wpOver_mono (authRun_spec hretry' hlimit' answers hinv) fun r w2 tr2 h => ?_
      exact ⟨h.1, fun hr => ⟨h.2 hr, fun h => absurd h hrequire⟩⟩

end

/-! ## The result -/

/-- The module on the system, from its first call on. -/
def authSession (crypto : Crypto) (cfg : Config) (me : Pid) (silent : Bool)
    (argv : List (List Char)) (answers : List (Option CString)) (w : PamWorld) :
    Option PamCode × PamWorld × PamHistory :=
  (pamSmAuthenticate cfg silent argv answers).runOver (Pam.impl crypto cfg.toCfg)
    (PamSys.exec me) w []

/-- A success of `pam_sm_authenticate` is earned, and the attempts of a call
are limited. -/
theorem success_earned (crypto : Crypto) {pw : Accounts} {file : Option (List Char)}
    {cfg : Config} (hcfg : configParse pw configStart file = .ret 0 cfg) (me : Pid)
    (silent : Bool) (argv : List (List Char)) (answers : List (Option CString)) (w : PamWorld) :
    let run := authSession crypto cfg me silent argv answers w
    (run.1 = some .success → Earned crypto cfg run.2.1 run.2.2) ∧
      (failedAttempts run.2.2 : ℤ) ≤ (if cfg.pamRetry = 0 then 1 else cfg.pamRetries) ∧
      (cfg.pamRetry ≤ 1 → (compared run.2.2).Nodup) := by
  have hranges := (configParse_accepted hcfg).toRanges
  have hlimit : 0 < authLimit cfg := by
    have hretries := hranges.pamRetries
    unfold authLimit
    split <;> omega
  have hend : AuthLeft crypto cfg (authSession crypto cfg me silent argv answers w).1
      (authSession crypto cfg me silent argv answers w).2.1
      (authSession crypto cfg me silent argv answers w).2.2 :=
    pamSmAuthenticate_spec hranges.pamRetry.1 hlimit silent argv answers
  exact ⟨hend.2, hend.1.failed, hend.1.once⟩

/-- A configuration file without static passwords. -/
def passcodeConfig : List Char := "db=global\npam_spass_require=disabled\n".toList

def passcodeCfg : Config := { configStart with db := .global, pamSpassRequire := configDisabled }

theorem passcodeConfig_parses :
    configParse (fun _ => none) configStart (some passcodeConfig) = .ret 0 passcodeCfg := rfl

/-- A system on which alice wants to log in. -/
def aliceLogin : PamWorld where
  lib := World.boot (fun db => if db = .global then some (dbEntryText aliceState) else none)
    fun _ => .serving passcodeCfg.toCfg
  host _ := ⟨true, 0, (true, some alice), none, .exited⟩
  calls := 0

theorem success_earned_alice :
    let run := authSession plainCrypto passcodeCfg 0 false [] [some alicePasscode] aliceLogin
    run.1 = some .success ∧ Earned plainCrypto passcodeCfg run.2.1 run.2.2 := by
  have hrun : (authSession plainCrypto passcodeCfg 0 false [] [some alicePasscode]
      aliceLogin).1 = some .success := by decide +kernel
  exact ⟨hrun, (success_earned plainCrypto passcodeConfig_parses 0 false [] _ aliceLogin).1 hrun⟩

end Otpasswd
