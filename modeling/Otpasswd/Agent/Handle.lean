import Otpasswd.Agent.Execute

/-!
# Otpasswd.Agent.Handle — requests one after the other

What `request_handle` does for every request: no assertion fails, and the
agent replies and goes on, under the conditions `Safe` and `Goes`. The main
loop inherits both.

Main results: `requestHandle_spec`, and for whole runs `agent_not_aborted`
and `one_reply`.
-/

namespace Otpasswd

open CText Prog

/-! ## New states -/

/-- What the policy of `STATE_NEW` makes of its load. -/
def newCode (cfg : Cfg) (r : ℕ × Agent) : ℕ :=
  if r.1 ≠ 0 then
    if cfg.keyGeneration = configDisallow then agentErrPolicyGeneration else agentOk
  else if r.2.s.any (fun s => pppFlagCheck s flagDisabled) = true ∧
      cfg.disabling = configDisallow then agentErrPolicy
  else if cfg.keyRegeneration = configDisallow then agentErrPolicyRegeneration
  else agentOk

/-- Neither policy on keys refuses a `STATE_NEW` whose load ends so. -/
def NewAllowed (cfg : Cfg) (r : ℕ × Agent) : Prop :=
  newCode cfg r = agentOk ∨ newCode cfg r = agentErrPolicy

/-- When `STATE_NEW` is answered and the loop goes on. -/
def NewAnswered (cfg : Cfg) (me : Pid) (a : Agent) (w : World) : Prop :=
  a.s = none ∧
    (a.privileged = true → w.next.ok = true) ∧
    (a.privileged = false → ∀ r w', (agentStateInit cfg a true false).run (Sys.exec me) w =
      (some r, w') → NewAllowed cfg r ∧ (newCode cfg r = agentOk → w'.next.ok = true))

section

variable {crypto : Crypto} {cfg : Cfg} {a : Agent} {req : Request} {me : Pid} {w : World}

theorem wp_uid {α : Type} (p : SysM α) (w : World) :
    wp (Sys.exec me) p (fun _ w' => w'.uid = w.uid) w := by
  exact wp_mono (wp_of_sat (A := fun _ _ => True) (I := fun w' => w'.uid = w.uid)
    (fun _ _ _ _ => trivial) (fun c w' _ h => (exec_uid me c w').trans h) (sat_true p) rfl)
    fun _ _ h => h.1

/-- The policy of `STATE_NEW` after its load. -/
def newPolicy (cfg : Cfg) (r : ℕ × Agent) : SysM (ℕ × Agent) :=
  if r.1 ≠ 0 then
    return (if cfg.keyGeneration = configDisallow then agentErrPolicyGeneration else agentOk, r.2)
  else do
    let disabled := r.2.s.any fun s => pppFlagCheck s flagDisabled
    let (retval, a) ← agentStateFini cfg r.2 {}
    if disabled = true ∧ cfg.disabling = configDisallow then return (agentErrPolicy, a)
    else if cfg.keyRegeneration = configDisallow then return (agentErrPolicyRegeneration, a)
    else return (if retval ≠ 0 then agentErr else agentOk, a)

/-- On an unprivileged client without a state the load decides. -/
theorem verifyStateNew_load (hs : a.s = none) (hp : a.privileged = false) :
    verifyStateNew cfg a = agentStateInit cfg a true false >>= newPolicy cfg := by
  rw [verifyStateNew, if_neg (by simp [hs]), if_neg (by simp [hp])]
  rfl

/-- Nothing of what was loaded is kept. -/
theorem newPolicy_eq (hok : a.Ok) (hs : a.s = none) {r : ℕ × Agent} (hr : InitLoaded a r) :
    newPolicy cfg r = .ret (newCode cfg r, a) := by
  have hnew := hok.newState_none hs
  obtain ⟨ret, a'⟩ := r
  rcases hr with ⟨rfl, s, h, -, hlock⟩ | ⟨hret, h⟩
  · simp only at h
    subst h
    have hfini := @agentStateFini_drop cfg (a.setS (some s)) s rfl hlock
    have hself : ((a.setS (some s)).setNewState false).setS none = a := by
      obtain ⟨⟩ := a
      simp only at hs hnew
      subst hs hnew
      rfl
    simp only [newPolicy, ne_eq, not_true_eq_false, if_false, hfini, ret_bind, hself, newCode]
    split_ifs <;> rfl
  · simp only at hret h
    subst h
    simp only [newPolicy, hret, ne_eq, not_false_eq_true, if_true, newCode]
    rfl

theorem agentStateInit_ne_ret {α : Type} {load lock : Bool} {f : ℕ × Agent → SysM α} {r : α}
    (hs : a.s = none) : agentStateInit cfg a load lock >>= f ≠ .ret r := by
  have hassert : a.s.isNone = true := by rw [hs]; rfl
  rw [agentStateInit, assert, if_pos hassert, ret_bind, LawfulMonad.bind_assoc, pppStateInit,
    LawfulMonad.bind_assoc]
  exact call_ne_ret _ _ _

/-! ## One request -/

/-- When a request is answered and the loop goes on. -/
def Goes (cfg : Cfg) (me : Pid) (a : Agent) (w : World) (req : Request) : Prop :=
  match req.type with
  | .stateNew => NewAnswered cfg me a w
  | .flagAdd | .flagClear => requestVerifyPolicy cfg a req = .ret (agentOk, a)
  | _ => req.Answered a

/-- How a request ends; if `goes`, the agent is not stopped. -/
structure HandleEnd (goes : Prop) (a : Agent) (r : Option (ℕ × Agent)) : Prop where
  ends : goes → r ≠ none
  handled : ∀ r', r = some r' → a.Handled goes True r'

/-- A policy that refuses a request with another code than
`AGENT_ERR_POLICY` is that of a flag. -/
theorem requestVerifyPolicy_code {code : ℕ} (hnew : req.type ≠ .stateNew)
    (h : requestVerifyPolicy cfg a req = .ret (code, a)) (hgoes : Goes cfg me a w req) :
    code = agentOk ∨ code = agentErrPolicy := by
  unfold Goes Request.Answered at hgoes
  unfold requestVerifyPolicy unlessPrivileged at h
  cases hreq : req.type with
  | stateNew => exact absurd hreq hnew
  | disconnect | other => simp only [hreq] at hgoes
  | flagAdd | flagClear =>
    simp only [hreq, requestVerifyPolicy] at h hgoes
    rw [hgoes] at h
    injection h with h
    exact .inl (Prod.mk.inj h).1.symm
  | _ =>
    simp only [hreq, pure_eq_ret] at h
    injection h with h
    have hcode := (Prod.mk.inj h).1
    first
    | exact .inl hcode.symm
    | (split_ifs at hcode
       · exact .inr hcode.symm
       · exact .inl hcode.symm)

/-- A pending new key does not abort a request whose load is refused. -/
theorem requestExecute_newKey (hconf : Configured cfg (w.uid me)) (hok : a.Ok)
    (hl : a.locked = false) (hnamed : a.Named)
    (hcopied : Copied me (requestExecute crypto cfg a req) w) (hnew : req.NewKey a)
    (hkey : ∀ s, a.s = some s → req.AssertsNewKey cfg me w s) :
    StopsFor (Sys.exec me) (Stops False True) (requestExecute crypto cfg a req) w := by
  obtain ⟨htype, s, hs, hnew⟩ := hnew
  have hlock := hok.unlocked hl hs
  have hassert := hkey s hs
  have hruns : Runs cfg (w.uid me) s.named := (hnamed.state s hs).symm ▸ hconf.toRuns
  unfold Request.AssertsNewKey at hassert
  unfold requestExecute at hcopied ⊢
  rcases htype with htype | htype
  · simp only [htype] at hassert hcopied ⊢
    simp only [withState, hs, pppIncrement_eq] at hcopied ⊢
    obtain ⟨hstops, hfails⟩ := counterOp_refused hruns hlock (hassert hnew)
      hcopied.of_bind.of_bind.of_bind
      (fun s => s.setCounter (numAdd s.counter (numI 1))) fun s s' => s'.setCounter s.counter
    refine stopsFor_seq (stopsFor_seq hstops (wp_mono hfails ?_)) fun _ _ => stopsFor_ret _
    rintro _ w1 hret ⟨ret, s'⟩ rfl
    simp only
    rw [if_pos (hret ret s' rfl)]
    exact stopsFor_ret _
  · simp only [htype] at hassert hcopied ⊢
    simp only [withState, hs, pppSkip_eq] at hcopied ⊢
    obtain ⟨hstops, -⟩ := counterOp_refused hruns hlock (hassert hnew)
      hcopied.of_bind.of_bind.of_bind (skipCounter req.num) fun _ s' => s'
    exact stopsFor_seq (stopsFor_seq hstops fun _ _ => stopsFor_ret _) fun _ _ => stopsFor_ret _

section Execute

variable (hconf : Configured cfg (w.uid me))
  (hcustom : cfg.alphabetCustom.length < configAlphabetLen) (hok : a.Ok) (hl : a.locked = false)
  (hsup : req.Supported)
  (hasserts : ∀ s, a.s = some s → req.AssertsFields s ∧ req.AssertsNewKey cfg me w s)
  (hnamed : a.Named) (hcopied : Copied me (requestExecute crypto cfg a req) w)
  (htype : req.type ≠ .stateNew)
include hconf hcustom hok hl hsup hasserts hnamed hcopied htype

/-- No assertion fails, and without a call that fails under the lock nothing
crashes. -/
theorem requestExecute_stopsFor : StopsFor (Sys.exec me)
    (Stops False (¬ Served me (requestExecute crypto cfg a req) w))
    (requestExecute crypto cfg a req) w := by
  intro why hwhy
  have hlocks := @requestExecute_handles crypto cfg (w.uid me) (req.NewKey a) a req
    (fun h => absurd hconf h) (.inl hnamed) hcustom hok hl hsup (fun s hs => (hasserts s hs).1) id
    htype
  have hstops := hlocks.stopsFor hcopied why hwhy
  cases why with
  | assertion =>
    exact requestExecute_newKey hconf hok hl hnamed hcopied hstops (fun s hs => (hasserts s hs).2)
      _ hwhy
  | fault => exact hstops

/-- An execution in one piece, unless the request is `STATE_NEW`. -/
theorem requestExecute_end :
    wp (Sys.exec me) (requestExecute crypto cfg a req)
      (fun r _ => HandleEnd (req.Answered a ∧ Served me (requestExecute crypto cfg a req) w) a r)
      w := by
  have hlocks := @requestExecute_handles crypto cfg (w.uid me) True a req (fun _ => trivial)
    (.inr trivial) hcustom hok hl hsup (fun s hs => (hasserts s hs).1) (fun _ => trivial) htype
  refine wp_mono (wp_and (wp_locks hlocks) wp_run) ?_
  rintro r w' ⟨hsome, hrun⟩
  refine ⟨?_, fun r' hr' => ?_⟩
  · rintro ⟨-, hserved⟩ rfl
    obtain ⟨why, hwhy⟩ := stopped_of_run_none (congrArg Prod.fst hrun)
    have hstops := requestExecute_stopsFor hconf hcustom hok hl hsup hasserts hnamed hcopied htype
      why hwhy
    exact (Stops.or ⟨why, hstops⟩).elim id (absurd hserved)
  · rcases hsome r' hr' with h | h
    · exact ⟨h.inv, fun hg => h.goes hg.1⟩
    · refine ⟨h.inv, fun hg => ?_⟩
      rw [← eq_true hg.2]
      exact h.goes hg.1

end Execute

theorem HandleEnd.reply {goes : Prop} (hok : a.Ok) (hl : a.locked = false) (status : ℕ) :
    HandleEnd goes a (some (0, a.sendReply status)) where
  ends _ := Option.some_ne_none _
  handled r' h := by
    obtain rfl := Option.some.inj h
    have hreply : a.Replied True (a.sendReply status) := (hok.after hl).reply status
    exact ⟨hreply.inv, fun _ => ⟨rfl, hreply⟩⟩

/-- The loop ends with this request. -/
theorem HandleEnd.stops {goes : Prop} {ret : ℕ} {a' : Agent} (hok : a'.Ok) (hgoes : ¬ goes) :
    HandleEnd goes a (some (ret, a')) where
  ends _ := Option.some_ne_none _
  handled r' h := by
    obtain rfl := Option.some.inj h
    exact ⟨hok, fun hg => absurd hg hgoes⟩

/-- A new state is allocated, or the loop ends. -/
theorem stateNew_end {goes : Prop} (hconf : Configured cfg (w.uid me)) (hn : a.named = true)
    (hok : a.Ok) (hs : a.s = none) (htype : req.type = .stateNew) (hgoes : goes → w.next.ok = true) :
    wp (Sys.exec me) (requestExecute crypto cfg a req) (fun r _ => HandleEnd goes a r) w := by
  unfold requestExecute
  simp only [htype]
  rw [if_neg (by simp [hs]), agentStateInit_new hconf.defLength hn hs]
  cases hio : w.next.ok with
  | false =>
    have hreply : (Sys.exec me .mallocState w).1 = none := by simp [Sys.exec, hio]
    simp only [wp_issue_bind, hreply, LawfulMonad.bind_assoc]
    exact .stops hok fun hg => by simp [hgoes hg] at hio
  | true =>
    have hreply : (Sys.exec me .mallocState w).1 = some w.next.junk := by simp [Sys.exec, hio]
    simp only [wp_issue_bind, hreply, LawfulMonad.bind_assoc]
    generalize ((Sys.exec me .strdup (Sys.exec me .mallocState w).2)).1 = named
    have hfresh := (State.initial_fresh cfg w.next.junk a.username).setNamed named
    have hafter : a.After True ((a.setS (some ((State.initial cfg w.next.junk
        a.username).setNamed named))).setNewState true) := by
      refine ⟨⟨fun s h => ?_, fun _ => ⟨_, rfl⟩⟩, rfl, fun _ => Agent.locked_some rfl hfresh.lock⟩
      obtain rfl := Option.some.inj h
      exact hfresh.held (Nat.zero_le _)
    refine ⟨fun _ => Option.some_ne_none _, fun r' h => ?_⟩
    obtain rfl := Option.some.inj h
    exact ⟨(hafter.reply _).inv, fun _ => ⟨rfl, hafter.reply _⟩⟩

theorem stateNew_stopsFor {S : Stop → Prop} (hconf : Configured cfg (w.uid me))
    (hn : a.named = true) (hs : a.s = none) (htype : req.type = .stateNew) :
    StopsFor (Sys.exec me) S (requestExecute crypto cfg a req) w := by
  unfold requestExecute
  simp only [htype]
  rw [if_neg (by simp [hs]), agentStateInit_new hconf.defLength hn hs, LawfulMonad.bind_assoc]
  intro why hwhy
  change Prog.stopped _ (_ : SysM (ℕ × Agent)) _ = _ at hwhy
  rcases hreply : (Sys.exec me .mallocState w).1 with _ | junk
  · exact absurd hwhy (by simp [sys, issue, stopped, hreply])
  · exact absurd hwhy (by simp [sys, issue, stopped, hreply])

/-- `STATE_NEW` after its policy has given the code. -/
theorem newCode_end (goes : Prop) {code : ℕ} (hconf : Configured cfg (w.uid me))
    (hn : a.named = true) (hok : a.Ok) (hs : a.s = none) (htype : req.type = .stateNew)
    (hgoes : goes → (code = agentOk ∨ code = agentErrPolicy) ∧
      (code = agentOk → w.next.ok = true)) {p : SysM (ℕ × Agent)}
    (hp : p = if code = agentErrPolicy then .ret (0, a.sendReply agentErrPolicy)
      else if code ≠ 0 then .ret (code, a.sendReply code) else requestExecute crypto cfg a req) :
    StopsFor (Sys.exec me) (Stops False True) p w ∧
      wp (Sys.exec me) p (fun r _ => HandleEnd goes a r) w := by
  have hl := Agent.locked_none hs
  by_cases hcode : code = agentErrPolicy
  · rw [hp, if_pos hcode]
    exact ⟨stopsFor_ret _, .reply hok hl _⟩
  rw [if_neg hcode] at hp
  by_cases hzero : code = 0
  · rw [hp, if_neg (not_not.mpr hzero)]
    exact ⟨stateNew_stopsFor hconf hn hs htype,
      stateNew_end hconf hn hok hs htype fun h => (hgoes h).2 hzero⟩
  · rw [hp, if_pos hzero]
    have hafter : a.After True a := hok.after hl
    exact ⟨stopsFor_ret _, .stops (hafter.reply _).inv fun h => (hgoes h).1.elim hzero hcode⟩

/-- `STATE_NEW`, whose policy loads the stored state. -/
theorem requestHandle_stateNew (hconf : Configured cfg (w.uid me)) (hok : a.Ok)
    (hl : a.locked = false) (htype : req.type = .stateNew)
    (hsafe : Refused cfg a req ∨ a.Named ∧ Copied me (requestHandle crypto cfg a req) w) :
    StopsFor (Sys.exec me) (Stops False True) (requestHandle crypto cfg a req) w ∧
      wp (Sys.exec me) (requestHandle crypto cfg a req) (fun r _ =>
        HandleEnd (NewAnswered cfg me a w ∧ Served me (requestHandle crypto cfg a req) w) a r)
        w := by
  have hpolicy : requestVerifyPolicy cfg a req = verifyStateNew cfg a := by
    simp only [requestVerifyPolicy, htype]
  have hhandle : requestHandle crypto cfg a req = verifyStateNew cfg a >>= fun r =>
      if r.1 = agentErrPolicy then .ret (0, r.2.sendReply agentErrPolicy)
      else if r.1 ≠ 0 then .ret (r.1, r.2.sendReply r.1) else requestExecute crypto cfg r.2 req := by
    rw [requestHandle, if_neg (by simp [hl]), hpolicy]
    rfl
  rcases hs : a.s with _ | s
  swap
  · -- a state is held: the loop ends
    have hverify : verifyStateNew cfg a = .ret (agentErrMustDropState, a) := by
      rw [verifyStateNew, if_pos (by simp [hs])]
      rfl
    have hafter : a.After True a := hok.after hl
    rw [hhandle, hverify]
    refine ⟨stopsFor_ret _, .stops (hafter.reply _).inv fun h => ?_⟩
    exact absurd (h.1.1.symm.trans hs) (by simp)
  cases hp : a.privileged with
  | true =>
    have hverify : verifyStateNew cfg a = .ret (agentOk, a) := by
      rw [verifyStateNew, if_neg (by simp [hs]), if_pos hp]
      rfl
    have hn : a.named = true := by
      rcases hsafe with ⟨code, hcode, h⟩ | h
      · rw [hpolicy, hverify] at h
        injection h with h
        exact absurd (Prod.mk.inj h).1.symm hcode
      · exact h.1.self
    rw [hhandle, hverify, ret_bind]
    exact newCode_end _ hconf hn hok hs htype (fun h => ⟨.inl rfl, fun _ => h.1.2.1 hp⟩) rfl
  | false =>
    obtain ⟨hnamed, hcopied⟩ : a.Named ∧ Copied me (requestHandle crypto cfg a req) w := by
      refine hsafe.resolve_left ?_
      rintro ⟨code, -, h⟩
      rw [hpolicy, verifyStateNew_load hs hp] at h
      exact agentStateInit_ne_ret hs h
    have hn := hnamed.self
    have hload := @agentStateInit_load cfg (w.uid me) False a (fun h => absurd hconf h) (.inl hn) hs
      (hok.newState_none hs)
    have hvalues := @agentStateInit_load cfg (w.uid me) True a (fun _ => trivial) (.inl hn) hs
      (hok.newState_none hs)
    rw [hhandle, verifyStateNew_load hs hp, LawfulMonad.bind_assoc] at hcopied
    have hcopied' : Copied me (agentStateInit cfg a true false) w := hcopied.of_bind
    rw [hhandle, verifyStateNew_load hs hp, LawfulMonad.bind_assoc]
    -- what follows the load, which may have crashed under its lock
    have hloaded : wp (Sys.exec me) (agentStateInit cfg a true false) (fun r w' =>
        (w'.uid = w.uid ∧ (agentStateInit cfg a true false).run (Sys.exec me) w = (r, w')) ∧
          ∀ q, r = some q → InitLoaded a q) w :=
      wp_mono (wp_and (wp_and (wp_uid _ w) wp_run) (wp_locks hvalues)) fun _ _ h =>
        ⟨h.1, fun q hq => (h.2 q hq).elim id id⟩
    constructor
    · refine stopsFor_seq ((hload.stopsFor hcopied').mono (Stops.mono id fun _ => trivial))
        (wp_mono hloaded ?_)
      rintro _ w' ⟨⟨huid, -⟩, hq⟩ r rfl
      rw [newPolicy_eq hok hs (hq r rfl), ret_bind]
      exact (newCode_end False (huid ▸ hconf) hn hok hs htype False.elim rfl).1
    · refine wp_seq hloaded ?_ ?_
      · rintro w' ⟨⟨-, hrun⟩, -⟩
        refine ⟨?_, fun _ h => absurd h.symm (Option.some_ne_none _)⟩
        rintro ⟨-, hserved⟩
        obtain ⟨why, hwhy⟩ := stopped_of_run_none (congrArg Prod.fst hrun)
        have hstops := Stops.or ⟨why, hload.stopsFor hcopied' why hwhy⟩
        exact absurd hserved.of_bind (hstops.resolve_left id)
      · rintro r w' ⟨⟨huid, hrun⟩, hq⟩
        rw [newPolicy_eq hok hs (hq r rfl), ret_bind]
        exact (newCode_end _ (huid ▸ hconf) hn hok hs htype (fun h => h.1.2.2 hp r w' hrun) rfl).2

/-- What handling one request leaves. -/
theorem requestHandle_spec (hconf : Configured cfg (w.uid me))
    (hcustom : cfg.alphabetCustom.length < configAlphabetLen) (hok : a.Ok) (hsup : req.Supported)
    (hsafe : Safe crypto cfg me a w req) :
    StopsFor (Sys.exec me) (Stops False True) (requestHandle crypto cfg a req) w ∧
      wp (Sys.exec me) (requestHandle crypto cfg a req) (fun r _ =>
        HandleEnd (a.locked = false ∧ Goes cfg me a w req ∧
          Served me (requestHandle crypto cfg a req) w) a r) w := by
  -- a lock that was not given back ends the loop
  cases hl : a.locked with
  | true =>
    rw [requestHandle, if_pos hl]
    exact ⟨stopsFor_ret _, .stops hok fun h => Bool.noConfusion h.1⟩
  | false =>
    by_cases htype : req.type = .stateNew
    swap
    · obtain ⟨code, hcode⟩ := @requestVerifyPolicy_ret cfg a req htype
      have heq : requestHandle crypto cfg a req =
          if code = agentErrPolicy then .ret (0, a.sendReply agentErrPolicy)
          else if code ≠ 0 then .ret (code, a.sendReply code)
          else requestExecute crypto cfg a req := by
        rw [requestHandle, if_neg (by simp [hl]), hcode]
        rfl
      -- the policy of most types makes no call
      by_cases hpolicy : code = agentErrPolicy
      · rw [heq, if_pos hpolicy]
        exact ⟨stopsFor_ret _, .reply hok hl _⟩
      by_cases hzero : code = 0
      · obtain ⟨hasserts, hnamed, hcopied⟩ := hsafe.resolve_left fun h => by
          obtain ⟨c, hc, h⟩ := h
          rw [hcode] at h
          injection h with h
          exact hc ((Prod.mk.inj h).1.symm.trans hzero)
        rw [heq, if_neg hpolicy, if_neg (not_not.mpr hzero)] at hcopied ⊢
        refine ⟨(requestExecute_stopsFor hconf hcustom hok hl hsup hasserts hnamed hcopied
          htype).mono (Stops.mono id fun _ => trivial), ?_⟩
        refine wp_mono (requestExecute_end hconf hcustom hok hl hsup hasserts hnamed hcopied htype)
          ?_
        rintro r - ⟨hends, hhandled⟩
        have hanswered (hgoes : Goes cfg me a w req) : req.Answered a := by
          unfold Goes at hgoes
          unfold Request.Answered
          cases hreq : req.type <;> simp_all [Request.Answered]
        refine ⟨fun hg => hends ⟨hanswered hg.2.1, hg.2.2⟩, fun r' hr' =>
          ⟨(hhandled r' hr').inv, fun hg => ?_⟩⟩
        exact (hhandled r' hr').goes ⟨hanswered hg.2.1, hg.2.2⟩
      · rw [heq, if_neg hpolicy, if_pos hzero]
        have hreply : a.After True a := hok.after hl
        refine ⟨stopsFor_ret _, .stops (hreply.reply code).inv fun hg => ?_⟩
        rcases requestVerifyPolicy_code htype hcode hg.2.1 with h | h
        · exact hzero h
        · exact hpolicy h
    · -- STATE_NEW loads while it checks
      obtain ⟨hstops, hend⟩ := @requestHandle_stateNew crypto cfg a req me w hconf hok hl htype
        (hsafe.imp_right And.right)
      have hgoes (hg : Goes cfg me a w req) : NewAnswered cfg me a w := by
        simpa only [Goes, htype] using hg
      refine ⟨hstops, wp_mono hend ?_⟩
      rintro r - ⟨hends, hhandled⟩
      refine ⟨fun hg => hends ⟨hgoes hg.2.1, hg.2.2⟩, fun r' hr' =>
        ⟨(hhandled r' hr').inv, fun hg => ?_⟩⟩
      exact (hhandled r' hr').goes ⟨hgoes hg.2.1, hg.2.2⟩

end

/-! ## Conditions that can be checked -/

instance (c : Sys) (x : c.Reply) : Decidable (Sys.Copies c x) := by
  cases c
  case strdup => exact inferInstanceAs (Decidable ((x : Bool) = true))
  all_goals exact isTrue trivial

instance (c : Sys) (x : c.Reply) : Decidable (Sys.Grants c x) := by
  cases c
  case setlk => exact inferInstanceAs (Decidable ((x : Bool) = true))
  all_goals exact isFalse id

instance (c : Sys) (x : c.Reply) : Decidable (Sys.Finds True c x) := by
  cases c
  case malloc => exact inferInstanceAs (Decidable (True → (x : Bool) = true))
  case getpwnam => exact inferInstanceAs (Decidable (True → (x : Bool) = true))
  all_goals exact isTrue trivial

instance {α : Type} (me : Pid) (p : SysM α) (w : World) : Decidable (Copied me p w) :=
  inferInstanceAs (Decidable (p.Answered (Sys.exec me) Sys.Copies w))

instance {α : Type} (me : Pid) (p : SysM α) (w : World) : Decidable (Served me p w) :=
  inferInstanceAs (Decidable (p.AnsweredAfter (Sys.exec me) Sys.Grants (Sys.Finds True) w))

instance (a : Agent) : Decidable a.Named :=
  decidable_of_iff (a.named = true ∧ ∀ s ∈ a.s, s.named = true)
    ⟨fun h => ⟨h.1, h.2⟩, fun h => ⟨h.1, h.2⟩⟩

instance (s : State) (req : Request) : Decidable (req.AssertsFields s) := by
  unfold Request.AssertsFields
  cases req.type <;> infer_instance

instance (a : Agent) (req : Request) : Decidable (req.Answered a) := by
  unfold Request.Answered
  cases req.type <;> infer_instance

/-- The part of `Safe` that needs no look at the policy or at other runs. -/
def Checked (crypto : Crypto) (cfg : Cfg) (me : Pid) (a : Agent) (w : World) (req : Request) :
    Prop :=
  (∀ s ∈ a.s, req.AssertsFields s ∧ s.newKey = false) ∧ a.Named ∧
    Copied me (requestHandle crypto cfg a req) w

instance (crypto : Crypto) (cfg : Cfg) (me : Pid) (a : Agent) (w : World) (req : Request) :
    Decidable (Checked crypto cfg me a w req) :=
  inferInstanceAs (Decidable ((∀ s ∈ a.s, req.AssertsFields s ∧ s.newKey = false) ∧ a.Named ∧
    Copied me (requestHandle crypto cfg a req) w))

theorem Checked.safe {crypto : Crypto} {cfg : Cfg} {me : Pid} {a : Agent} {w : World}
    {req : Request} (h : Checked crypto cfg me a w req) : Safe crypto cfg me a w req := by
  obtain ⟨hfields, hnamed, hcopied⟩ := h
  refine .inr ⟨fun s hs => ⟨(hfields s hs).1, ?_⟩, hnamed, hcopied⟩
  have hnew := (hfields s hs).2
  unfold Request.AssertsNewKey
  split <;> simp [hnew]

/-! ## Whole runs -/

/-- No assertion fails in a run whose requests are `Safe` when they are read. -/
theorem agent_not_aborted (crypto : Crypto) (cfg : Cfg) (me : Pid) (w : World) (u : CString)
    (privileged named : Bool) (reqs : List Request) (hconf : Configured cfg (w.uid me))
    (hcustom : cfg.alphabetCustom.length < configAlphabetLen)
    (hsup : ∀ req ∈ reqs, req.Supported)
    (hsafe : Along crypto cfg me (Safe crypto cfg me) (Agent.start u privileged named) w reqs) :
    (mainLoop crypto cfg (Agent.start u privileged named) reqs).stopped (Sys.exec me) w ≠
      some .assertion := by
  have hstep : ∀ a w' req, a.Ok ∧ w'.uid = w.uid → req.Supported ∧ Safe crypto cfg me a w' req →
      StopsFor (Sys.exec me) (Stops False True) (requestHandle crypto cfg a req) w' ∧
        wp (Sys.exec me) (requestHandle crypto cfg a req)
          (fun r w'' => ∀ a', r = some (0, a') → a'.Ok ∧ w''.uid = w.uid) w' := by
    rintro a w' req ⟨hok, huid⟩ ⟨hsup, hsafe⟩
    obtain ⟨hstops, hend⟩ :=
      @requestHandle_spec crypto cfg a req me w' (huid ▸ hconf) hcustom hok hsup hsafe
    refine ⟨hstops, wp_mono (wp_and hend (wp_uid _ w')) ?_⟩
    rintro _ w'' ⟨hhandled, huid'⟩ a' rfl
    exact ⟨(hhandled.handled _ rfl).inv, huid'.trans huid⟩
  exact fun h => mainLoop_stopsFor (I := fun a w' => a.Ok ∧ w'.uid = w.uid) hstep
    ⟨Agent.start_ok u privileged named, rfl⟩ (hsafe.and_forall crypto cfg me hsup) _ h

/-- A client that asks for almost everything, also before and after the state
is there. -/
def aliceRequests : List Request :=
  [.plain .getWarnings, .plain .stateLoad, .plain .getPrompt, .plain .getPasscode,
    .plain .getWarnings, { Request.plain .getInt with int := 6 },
    { Request.plain .getStr with int := 19 }, .plain .authenticate,
    { Request.plain .skip with num := numI 5 }, .plain .getPasscode, .plain .stateDrop]

theorem agent_not_aborted_alice :
    (mainLoop plainCrypto configRoot (Agent.start alice true) aliceRequests).stopped
      (Sys.exec 0) aliceWorld ≠ some .assertion :=
  agent_not_aborted plainCrypto configRoot 0 aliceWorld alice true true aliceRequests
    configRoot_configured (by decide) (by simp [aliceRequests, Request.Supported, Request.plain,
      PppField.ofNum, gettableInts, gettableStrs])
    (@Along.mono plainCrypto configRoot 0 (Checked plainCrypto configRoot 0) _ _ _ _
      (by decide +kernel) fun _ _ _ h => h.safe)

/-- The card data of a new state is not computed before it is asked for. -/
theorem getWarnings_aborts :
    ¬ ∀ (crypto : Crypto) (cfg : Cfg) (me : Pid) (w : World) (u : CString) (privileged : Bool)
      (reqs : List Request), Configured cfg (w.uid me) →
      cfg.alphabetCustom.length < configAlphabetLen → (∀ req ∈ reqs, req.Supported) →
      (mainLoop crypto cfg (Agent.start u privileged) reqs).stopped (Sys.exec me) w ≠
        some .assertion := by
  intro h
  refine h plainCrypto configRoot 0 aliceWorld alice true [.plain .stateNew, .plain .getWarnings]
    configRoot_configured (by decide) (by simp [Request.Supported, Request.plain]) ?_
  decide +kernel

/-- A request that is answered: it is `Safe`, the agent goes on after it, and
the lock taken for it is given back. -/
def Answers (crypto : Crypto) (cfg : Cfg) (me : Pid) (a : Agent) (w : World) (req : Request) :
    Prop :=
  Safe crypto cfg me a w req ∧ Goes cfg me a w req ∧ Served me (requestHandle crypto cfg a req) w

/-- After each request the loop goes on, with as many replies sent as requests
were read. -/
def OneReply (crypto : Crypto) (cfg : Cfg) (me : Pid) (w : World) (a : Agent)
    (reqs : List Request) : Prop :=
  ∀ n ≤ reqs.length, ∃ a' w', (mainLoop crypto cfg a (reqs.take n)).run (Sys.exec me) w =
    (some (0, a'), w') ∧ a'.sent.length = n

section

variable {crypto : Crypto} {cfg : Cfg} {me : Pid} {w : World} {u : CString}
  {privileged named : Bool} {reqs : List Request}

theorem mainLoop_answers (hconf : Configured cfg (w.uid me))
    (hcustom : cfg.alphabetCustom.length < configAlphabetLen)
    (hsup : ∀ req ∈ reqs, req.Supported)
    (hanswers : Along crypto cfg me (Answers crypto cfg me) (Agent.start u privileged named) w
      reqs) :
    ∃ a w', (mainLoop crypto cfg (Agent.start u privileged named) reqs).run (Sys.exec me) w =
      (some (0, a), w') ∧ a.sent.length = reqs.length := by
  have hstep : ∀ (n : ℕ) a w' req,
      a.Ok ∧ a.locked = false ∧ a.sent.length = n ∧ w'.uid = w.uid →
      req.Supported ∧ Answers crypto cfg me a w' req →
      wp (Sys.exec me) (requestHandle crypto cfg a req) (fun r w'' =>
        (∃ a', r = some (0, a') ∧ a'.Ok ∧ a'.locked = false ∧ a'.sent.length = n + 1 ∧
          w''.uid = w.uid) ∨ (∀ a', r ≠ some (0, a')) ∧ ∃ a', r = some (0, a') ∧
            a'.sent.length = reqs.length) w' := by
    rintro n a w' req ⟨hok, hl, hsent, huid⟩ ⟨hsup, hsafe, hgoes, hserved⟩
    obtain ⟨-, hspec⟩ :=
      @requestHandle_spec crypto cfg a req me w' (huid ▸ hconf) hcustom hok hsup hsafe
    refine wp_mono (wp_and hspec (wp_uid _ w')) ?_
    rintro r w'' ⟨⟨hends, hhandled⟩, huid'⟩
    rcases r with _ | ⟨ret, a'⟩
    · exact absurd rfl (hends ⟨hl, hgoes, hserved⟩)
    obtain ⟨hret, hreplied⟩ := (hhandled _ rfl).goes ⟨hl, hgoes, hserved⟩
    obtain ⟨h, hsent'⟩ := hreplied.sent trivial
    simp only at hret hsent'
    subst hret
    refine .inl ⟨a', rfl, hreplied.inv, hreplied.unlocked trivial, ?_, huid'.trans huid⟩
    rw [hsent', List.length_append, hsent, List.length_singleton]
  have hrun := wp_mainLoop (Q := fun r _ => ∃ a', r = some (0, a') ∧ a'.sent.length = reqs.length)
    (I := fun n a w' => a.Ok ∧ a.locked = false ∧ a.sent.length = n ∧ w'.uid = w.uid) hstep
    (n := 0) ⟨Agent.start_ok u privileged named, rfl, rfl, rfl⟩ (hanswers.and_forall crypto cfg me hsup)
    fun a' w' h => ⟨a', rfl, by simpa using h.2.2.1⟩
  obtain ⟨a', hr, hsent⟩ := hrun
  exact ⟨a', _, Prod.ext hr rfl, hsent⟩

end

/-- Every request of a run is answered with one header, if each of them meets
`Answers` when it is read. -/
theorem one_reply (crypto : Crypto) (cfg : Cfg) (me : Pid) (w : World) (u : CString)
    (privileged named : Bool) (reqs : List Request) (hconf : Configured cfg (w.uid me))
    (hcustom : cfg.alphabetCustom.length < configAlphabetLen)
    (hsup : ∀ req ∈ reqs, req.Supported)
    (hanswers : Along crypto cfg me (Answers crypto cfg me) (Agent.start u privileged named) w
      reqs) :
    OneReply crypto cfg me w (Agent.start u privileged named) reqs := by
  intro n hn
  obtain ⟨a, w', hrun, hsent⟩ := mainLoop_answers hconf hcustom
    (fun req h => hsup req (List.mem_of_mem_take h)) (hanswers.take crypto cfg me n)
  rw [List.length_take, Nat.min_eq_left hn] at hsent
  exact ⟨a, w', hrun, hsent⟩

theorem one_reply_alice :
    OneReply plainCrypto configRoot 0 aliceWorld (Agent.start alice true) aliceRequests := by
  refine one_reply plainCrypto configRoot 0 aliceWorld alice true true aliceRequests
    configRoot_configured (by decide) (by simp [aliceRequests, Request.Supported, Request.plain,
      PppField.ofNum, gettableInts, gettableStrs])
    (@Along.mono plainCrypto configRoot 0 (fun a w req =>
      Checked plainCrypto configRoot 0 a w req ∧ req.Answered a ∧
        req.type ∉ [.stateNew, .flagAdd, .flagClear] ∧
          Served 0 (requestHandle plainCrypto configRoot a req) w) _ _ _ _ (by decide +kernel) ?_)
  rintro a w req ⟨hsafe, hanswered, htype, hserved⟩
  refine ⟨hsafe.safe, ?_, hserved⟩
  unfold Goes
  cases hreq : req.type <;> simp_all

/-- A load while a state is held is refused without a reply. -/
theorem stateLoad_no_reply :
    ¬ ∀ (crypto : Crypto) (cfg : Cfg) (me : Pid) (w : World) (u : CString) (privileged : Bool)
      (reqs : List Request), Configured cfg (w.uid me) →
      cfg.alphabetCustom.length < configAlphabetLen →
      (∀ req ∈ reqs, req.Supported ∧ req.type ≠ .disconnect) →
      OneReply crypto cfg me w (Agent.start u privileged) reqs := by
  intro h
  obtain ⟨a, w', hrun, -⟩ := h plainCrypto configRoot 0 aliceWorld alice true
    [.plain .stateNew, .plain .stateLoad] configRoot_configured (by decide)
    (by simp [Request.Supported, Request.plain]) 2 le_rfl
  have hret : ((mainLoop plainCrypto configRoot (Agent.start alice true)
      [.plain .stateNew, .plain .stateLoad]).run (Sys.exec 0) aliceWorld).1.map
        (fun r => (r.1, r.2.sent.length)) = some (agentErrMustDropState, 1) := by decide +kernel
  rw [List.take_of_length_le (by simp)] at hrun
  rw [hrun] at hret
  simp at hret

end Otpasswd
