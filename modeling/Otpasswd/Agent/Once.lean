import Otpasswd.Agent.Handle

/-!
# Otpasswd.Agent.Once — one reply to a request

However a request is handled, either one reply is sent and the next request
can be read, or nothing is sent and no further request is read: the main loop
ends, or the agent holds a locked state.

Main result: `requestHandle_once`. Beside it are the equations of the main
loop, one for each way a request can end.
-/

namespace Otpasswd

open CText Prog

/-- A request was replied to, and the next one can be read; or there is no
reply, and no further request is read. -/
def Agent.Once (a : Agent) (r : ℕ × Agent) : Prop :=
  (∃ hdr, r.2.sent = a.sent ++ [hdr] ∧ r.2.locked = false) ∨
    r.2.sent = a.sent ∧ (r.1 ≠ 0 ∨ r.2.locked = true)

/-- A program that sends nothing. -/
abbrev SendsNothing (a : Agent) (p : SysM (ℕ × Agent)) : Prop :=
  p.Yields fun r => r.2.sent = a.sent

section

variable {crypto : Crypto} {cfg : Cfg} {a a' : Agent} {req : Request}

theorem Agent.Once.reply (h : a'.sent = a.sent) (retval status : ℕ) :
    a.Once (retval, a'.sendReply status) := by
  unfold Agent.sendReply
  simp only
  split
  · rename_i hl
    exact .inr ⟨h, .inr hl⟩
  · rename_i hl
    exact .inl ⟨_, congrArg (· ++ _) h, Bool.eq_false_of_not_eq_true hl⟩

/-- The end of the main loop, without a reply. -/
theorem Agent.Once.stop {retval : ℕ} (h : a'.sent = a.sent) (hret : retval ≠ 0) :
    a.Once (retval, a') := .inr ⟨h, .inl hret⟩

theorem SendsNothing.bind {p : SysM (ℕ × Agent)} {f : ℕ × Agent → SysM (ℕ × Agent)}
    (hp : SendsNothing a p) (hf : ∀ r, SendsNothing r.2 (f r)) : SendsNothing a (p >>= f) := by
  refine Sat.bind hp fun r hr => ?_
  exact Sat.mono (hf r) (fun _ h => h) (fun _ h => h) fun r' h => h.trans hr

theorem agentStateInit_sends (load lock : Bool) :
    SendsNothing a (agentStateInit cfg a load lock) := by
  refine (sat_assert_bind _).mpr ⟨fun _ => ?_, fun _ => trivial⟩
  refine (sat_true (pppStateInit cfg a.name)).bind fun x _ => ?_
  cases x with
  | error code => rfl
  | ok s =>
    simp only
    split
    · rfl
    · refine (sat_true (pppStateLoad cfg s { dontLock := !lock })).bind fun r _ => ?_
      obtain ⟨ret, s'⟩ := r
      simp only
      split
      · rfl
      · exact (sat_true (stateFini cfg s')).bind fun _ _ => rfl

theorem agentStateFini_sends (flags : FiniOptions) :
    SendsNothing a (agentStateFini cfg a flags) := by
  refine (sat_assert_bind _).mpr ⟨fun _ => ?_, fun _ => trivial⟩
  cases hs : a.s with
  | none => rfl
  | some s =>
    refine (sat_true (pppStateRelease cfg s _)).bind fun r _ => ?_
    obtain ⟨ret, s'⟩ := r
    simp only
    split
    · rfl
    · exact (sat_true (stateFini cfg s')).bind fun _ _ => rfl

theorem agentStateInitAtomical_sends : SendsNothing a (agentStateInitAtomical cfg a) := by
  unfold agentStateInitAtomical
  split
  · exact (sat_assert_bind _).mpr ⟨fun _ => rfl, fun _ => trivial⟩
  split
  · refine (agentStateFini_sends {}).bind fun r => ?_
    obtain ⟨ret, a1⟩ := r
    simp only
    split
    · rfl
    · exact agentStateInit_sends true true
  · exact agentStateInit_sends true true

theorem agentStateFiniAtomical_sends (ret : ℕ) :
    SendsNothing a (agentStateFiniAtomical cfg a ret) := by
  unfold agentStateFiniAtomical
  split
  · exact (sat_assert_bind _).mpr ⟨fun _ => rfl, fun _ => trivial⟩
  split
  · exact agentStateFini_sends _
  · exact (agentStateFini_sends _).bind fun _ => rfl

theorem atomically_sends (change : State → SysM (ℕ × State)) :
    SendsNothing a (atomically cfg a change) := by
  refine agentStateInitAtomical_sends.bind fun r => ?_
  obtain ⟨ret, a1⟩ := r
  simp only
  split
  · rfl
  cases a1.s with
  | none => trivial
  | some s =>
    refine (sat_true (change s)).bind fun x _ => ?_
    exact @agentStateFiniAtomical_sends cfg (a1.setS (some x.2)) x.1

theorem setSpass_sends (spass : Option CString) :
    SendsNothing a (setSpass crypto cfg a spass) := by
  refine agentStateInitAtomical_sends.bind fun r => ?_
  obtain ⟨ret, a1⟩ := r
  simp only
  split
  · rfl
  cases a1.s with
  | none => trivial
  | some s =>
    refine (sat_true (pppSetSpass crypto cfg s spass _)).bind fun x _ => ?_
    exact Sat.bind (agentStateFiniAtomical_sends 0) fun y hy => hy

theorem userSet_sends (spec : CString) : SendsNothing a (userSet cfg a spec) := by
  refine (sat_issue_bind _).mpr ⟨trivial, fun username _ => ?_⟩
  cases username with
  | none => rfl
  | some username =>
    refine (sat_issue_bind _).mpr ⟨trivial, fun named _ => ?_⟩
    simp only
    split
    · exact Sat.bind (agentStateFini_sends {}) fun y hy => hy
    · rfl

theorem agentHdrSetStr_sends (v : FieldStr) :
    (agentHdrSetStr a v).Yields fun a' => a'.sent = a.sent := by
  cases v with
  | text s => exact (sat_assert_bind _).mpr ⟨fun _ => rfl, fun _ => trivial⟩
  | null => rfl
  | key k => rfl

theorem verifyStateNew_sends : SendsNothing a (verifyStateNew cfg a) := by
  unfold verifyStateNew
  split
  · rfl
  split
  · rfl
  refine (agentStateInit_sends true false).bind fun r => ?_
  obtain ⟨ret, a1⟩ := r
  simp only
  split
  · rfl
  · refine (agentStateFini_sends {}).bind fun x => ?_
    obtain ⟨ret, a2⟩ := x
    simp only
    split_ifs <;> rfl

theorem requestVerifyPolicy_sends : SendsNothing a (requestVerifyPolicy cfg a req) := by
  by_cases hnew : req.type = .stateNew
  · unfold requestVerifyPolicy
    rw [hnew]
    exact verifyStateNew_sends
  · obtain ⟨code, hcode⟩ := @requestVerifyPolicy_ret cfg a req hnew
    rw [hcode]
    rfl

theorem replyWith_once {p : SysM (ℕ × Agent)} (hp : SendsNothing a p) :
    (replyWith p).Yields a.Once :=
  Sat.bind hp fun r hr => .reply hr agentOk r.1

theorem withState_once {f : State → SysM (ℕ × Agent)} (hf : ∀ s, SendsNothing a (f s)) :
    (withState a f).Yields a.Once := by
  unfold withState
  cases a.s with
  | none => exact .reply rfl agentOk agentErrNoState
  | some s => exact Sat.bind (hf s) fun r hr => .reply hr agentOk r.1

/-- The header after the reply does not matter. -/
theorem Agent.Once.hdrInit {r : ℕ × Agent} (h : a.Once r) (status : ℕ) :
    a.Once (r.1, r.2.hdrInit status) := h

/-- A text of the state for the reply. -/
theorem setStr_sends (a' : Agent) (hsent : a'.sent = a.sent) (retval : ℕ) (v : FieldStr) :
    SendsNothing a (agentHdrSetStr a' v >>= fun a => pure (retval, a)) :=
  (agentHdrSetStr_sends v).bind fun _ h => h.trans hsent

theorem requestExecute_once : (requestExecute crypto cfg a req).Yields a.Once := by
  unfold requestExecute
  cases req.type with
  | disconnect =>
    -- no reply, and the main loop ends
    simp only
    split
    · exact Sat.bind (agentStateFini_sends {}) fun r hr => .stop hr (by decide)
    · exact .stop rfl (by decide)
  | userSet => exact replyWith_once (userSet_sends req.str)
  | stateNew =>
    simp only
    split
    · exact .stop rfl (by decide)
    · refine Sat.bind (agentStateInit_sends false false) fun r hr => ?_
      obtain ⟨ret, a1⟩ := r
      simp only
      split
      · -- the error of _state_init is returned before the reply is sent
        rename_i hret
        exact .stop hr hret
      · exact .reply hr agentOk agentOk
  | stateLoad =>
    simp only
    split
    · exact .stop rfl (by decide)
    · exact replyWith_once (agentStateInit_sends true false)
  | stateStore => exact replyWith_once (agentStateFini_sends _)
  | stateDrop => exact replyWith_once (agentStateFini_sends _)
  | keyGenerate =>
    simp only
    cases a.s with
    | none => exact .reply rfl agentOk agentErrMustCreateState
    | some s =>
      refine (sat_true (pppKeyGenerate crypto cfg s _)).bind fun r _ => ?_
      exact .reply rfl agentOk r.1
  | keyRemove =>
    simp only
    split
    · exact .reply rfl agentOk agentErrMustDropState
    · refine replyWith_once ((agentStateInit_sends true true).bind fun r => ?_)
      obtain ⟨ret, a1⟩ := r
      simp only
      split
      · rfl
      · exact agentStateFini_sends _
  | flagAdd => exact replyWith_once (atomically_sends _)
  | flagClear => exact replyWith_once (atomically_sends _)
  | flagGet => exact withState_once fun s => (sat_true _).bind fun _ _ => rfl
  | getNum => exact withState_once fun s => (sat_true _).bind fun _ _ => rfl
  | getInt => exact withState_once fun s => (sat_true _).bind fun _ _ => rfl
  | getStr =>
    refine Sat.bind (withState_once fun s => ?_) fun r hr => ?_
    · refine (sat_true (pppGetStr s _)).bind fun x _ => ?_
      exact setStr_sends ((a.setS (some x.2)).hdrInit 0) rfl agentOk x.1
    · obtain ⟨ret, a1⟩ := r
      simp only
      split
      · exact hr.hdrInit 0
      · exact hr
  | getPasscode =>
    refine withState_once fun s =>
      (sat_true (pppGetPasscode crypto cfg s req.num)).bind fun x _ => ?_
    exact setStr_sends (a.hdrInit 0) rfl x.1 (.text x.2)
  | getPrompt =>
    refine withState_once fun s => (sat_true (pppGetPrompt s false req.num)).bind fun x _ => ?_
    obtain ⟨prompt, s'⟩ := x
    cases prompt with
    | none => exact setStr_sends ((a.setS (some s')).hdrInit 0) rfl agentErr .null
    | some text => exact setStr_sends ((a.setS (some s')).hdrInit 0) rfl agentOk (.text text)
  | getWarnings =>
    refine withState_once fun s => (sat_assert_bind _).mpr ⟨fun _ => rfl, fun _ => trivial⟩
  | updateLatest =>
    simp only
    split
    · exact .reply rfl agentOk agentErrReqArg
    · exact replyWith_once (atomically_sends _)
  | skip => exact withState_once fun s => (sat_true (pppSkip cfg s req.num)).bind fun _ _ => rfl
  | clearRecentFailures =>
    exact withState_once fun s => (sat_true (pppFailures cfg s true)).bind fun _ _ => rfl
  | authenticate =>
    refine withState_once fun s => (sat_true (pppIncrement cfg s)).bind fun x _ => ?_
    obtain ⟨ret, s'⟩ := x
    simp only
    split
    · rfl
    · exact (sat_true (pppAuthenticate crypto cfg s' req.str.val)).bind fun _ _ => rfl
  | getAlphabet =>
    refine replyWith_once ?_
    generalize pppAlphabetGet cfg req.int.toInt = x
    exact setStr_sends (a.hdrInit 0) rfl x.1 _
  | setInt => exact replyWith_once (atomically_sends _)
  | setStr => exact replyWith_once (atomically_sends _)
  | setNum => exact .reply rfl agentOk agentErr
  | setSpass => exact replyWith_once (setSpass_sends _)
  | other => exact .stop rfl (by decide)

/-- A request is replied to once, or the main loop ends with it. -/
theorem requestHandle_once : (requestHandle crypto cfg a req).Yields a.Once := by
  unfold requestHandle
  split
  · -- a locked state: no reply
    exact .stop rfl (by decide)
  refine Sat.bind requestVerifyPolicy_sends fun r hr => ?_
  obtain ⟨ret, a1⟩ := r
  simp only
  split
  · exact .reply hr 0 agentErrPolicy
  split
  · exact .reply hr ret ret
  · refine Sat.mono requestExecute_once (fun _ h => h) (fun _ h => h) fun x hx => ?_
    replace hr : a1.sent = a.sent := hr
    unfold Agent.Once at hx ⊢
    rw [hr] at hx
    exact hx

theorem handled_once {me : Pid} {w w' : World} {r : ℕ × Agent}
    (h : handled crypto cfg me a w req = (some r, w')) : a.Once r :=
  Yields.run requestHandle_once h

/-! ## The main loop, request by request -/

/-- An agent that holds a locked state reads no request. -/
theorem mainLoop_locked {me : Pid} {w : World} (hl : a.locked = true) (reqs : List Request) :
    ((mainLoop crypto cfg a reqs).run (Sys.exec me) w).2 = w := by
  cases reqs with
  | nil => rfl
  | cons req reqs =>
    unfold mainLoop requestHandle
    rw [if_pos hl]
    rfl

theorem mainLoop_cons {me : Pid} {reqs : List Request} {w w' : World}
    (h : handled crypto cfg me a w req = (some (0, a'), w')) :
    (mainLoop crypto cfg a (req :: reqs)).run (Sys.exec me) w =
      (mainLoop crypto cfg a' reqs).run (Sys.exec me) w' := by
  rw [mainLoop, Prog.run_bind]
  unfold handled at h
  rw [h]
  rfl

/-- The main loop ends with this request. -/
theorem mainLoop_ends {me : Pid} {reqs : List Request} {w w' : World} {r : Option (ℕ × Agent)}
    (h : handled crypto cfg me a w req = (r, w')) (hr : ∀ a', r ≠ some (0, a')) :
    (mainLoop crypto cfg a (req :: reqs)).run (Sys.exec me) w = (r, w') := by
  rw [mainLoop, Prog.run_bind]
  unfold handled at h
  rw [h]
  rcases r with _ | ⟨retval, a'⟩
  · rfl
  · by_cases hret : retval ≠ 0
    · simp only
      rw [if_pos hret]
      rfl
    · rw [not_not.mp hret] at hr
      exact absurd rfl (hr a')

end

end Otpasswd
