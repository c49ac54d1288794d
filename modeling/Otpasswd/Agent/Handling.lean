import Otpasswd.Agent.Requests

/-!
# Otpasswd.Agent.Handling — what a request can do, and a run

Every request has one of the effects, and the policy let it through. The
invariant of the agent follows, and rules for whole runs.

Main results: `requestHandle_effect` and `handled_handling`.
-/

namespace Otpasswd

open CText Prog

/-! ## All requests -/

/-- The policy lets the request through. For `STATE_NEW` that is decided by a
load, and only without a state. -/
def Permitted (cfg : Cfg) (me : Pid) (a : Agent) (w : World) (req : Request) : Prop :=
  if req.type = .stateNew then
    a.s = none ∧ (a.privileged = false →
      ∃ r w', (agentStateInit cfg a true false).run (Sys.exec me) w = (some r, w') ∧
        newCode cfg r = agentOk)
  else requestVerifyPolicy cfg a req = .ret (agentOk, a)

section

variable {crypto : Crypto} {cfg : Cfg} {me : Pid} {a : Agent} {req : Request} {w : World}

theorem requestExecute_effect (hok : a.Ok) (hl : a.locked = false) (hnew : req.type ≠ .stateNew) :
    wp (Sys.exec me) (requestExecute crypto cfg a req) (Effect crypto cfg me a w req) w := by
  have herror (status : ℕ) (h : status ≠ 0) :
      Effect crypto cfg me a w req (some (0, a.sendReply status)) w := .error (.refl w) (.refl a) rfl h
  have hidle (retval : ℕ) : Effect crypto cfg me a w req (some (retval, a)) w := by
    refine .refused (.refl w) ?_
    rintro _ _ ⟨rfl, rfl⟩
    exact ⟨Agent.not_answeredOk_self rfl, .refl a⟩
  have hnone {f : State → SysM (ℕ × Agent)} (hs : a.s = none) :
      wp (Sys.exec me) (withState a f) (Effect crypto cfg me a w req) w := by
    simp only [withState, hs]
    exact herror _ (by simp)
  have hsets {p : SysM (ℕ × State)} {s : State} (h : ∀ r, p = .ret r →
      req.Sets cfg a.privileged s r.1 r.2) (hp : p = .abort ∨ ∃ r, p = .ret r ∧ s.Beside r.2) :
      p = .abort ∨ ∃ retval s', p = .ret (retval, s') ∧
        req.Sets cfg a.privileged s retval s' ∧ s.Beside s' := by
    rcases hp with hp | ⟨r, hp, hb⟩
    · exact .inl hp
    · exact .inr ⟨r.1, r.2, hp, h r hp, hb⟩
  -- requests that only read have one lemma; the rest is taken in the order of the source
  by_cases hro : req.ReadOnly
  · exact readOnly_effect hro
  unfold requestExecute
  unfold Request.ReadOnly at hro
  cases hreq : req.type <;> simp only [hreq, List.mem_cons, List.not_mem_nil, reduceCtorEq,
    or_false, or_true, or_self, not_true_eq_false, not_false_eq_true] at hro
  case stateNew => exact absurd hreq hnew
  case other => exact hidle 1
  case setNum => exact herror _ (by simp)
  case disconnect => exact disconnect_effect hok hl hreq
  case userSet => exact userSet_effect hok hl hreq _
  case stateLoad =>
    rcases hs : a.s with _ | s
    · exact stateLoad_effect hok hreq hs
    · exact hidle _
  case stateStore => exact stateStore_effect hok hl hreq
  case stateDrop => exact stateDrop_effect hok hl hreq
  case keyGenerate =>
    rcases hs : a.s with _ | s
    · exact herror _ (by simp)
    · exact keyGenerate_effect hok hl hreq hs
  case keyRemove =>
    rcases hs : a.s with _ | s
    · exact keyRemove_effect hok hreq hs
    · exact herror _ (by simp)
  case skip =>
    rcases hs : a.s with _ | s
    · exact hnone hs
    · exact skip_effect hok hl hreq hs
  case authenticate =>
    rcases hs : a.s with _ | s
    · exact hnone hs
    · exact authenticate_effect hok hl hreq hs
  case clearRecentFailures =>
    rcases hs : a.s with _ | s
    · exact hnone hs
    · exact clear_effect hok hreq hs
  case setSpass => exact setSpass_effect hok hl hreq _
  -- the setters, one change each
  case flagAdd =>
    refine setter_effect hok hl (by simp [hreq]) fun s => hsets ?_ (.inr (State.Beside.changeFlags _))
    intro r h
    simpa only [Request.Sets, hreq] using h
  case flagClear =>
    refine setter_effect hok hl (by simp [hreq]) fun s => hsets ?_ (.inr (State.Beside.changeFlags _))
    intro r h
    simpa only [Request.Sets, hreq] using h
  case updateLatest =>
    simp only
    split_ifs
    · exact herror _ (by simp)
    · refine setter_effect hok hl (by simp [hreq]) fun s => hsets ?_ (.inr (State.Beside.updateLatest _))
      intro r h
      simpa only [Request.Sets, hreq] using h
  case setInt =>
    refine setter_effect hok hl (by simp [hreq]) fun s => hsets ?_ (pppSetInt_ends _ _)
    intro r h
    simpa only [Request.Sets, hreq] using h
  case setStr =>
    refine setter_effect hok hl (by simp [hreq]) fun s => hsets ?_ (pppSetStr_ends _ _ _)
    intro r h
    simpa only [Request.Sets, hreq] using h

theorem stateNew_effect (htype : req.type = .stateNew) (hs : a.s = none) {w1 : World}
    (hw1 : w1.Keeps w) :
    wp (Sys.exec me) (requestExecute crypto cfg a req) (Effect crypto cfg me a w req) w1 := by
  unfold requestExecute
  simp only [htype]
  rw [if_neg (by simp [hs])]
  by_cases hcfg : (2 ≤ cfg.passcodeDefLength ∧ cfg.passcodeDefLength ≤ 16) ∧ a.named = true
  · rw [agentStateInit_new hcfg.1 hcfg.2 hs]
    simp only [wp_issue_bind, LawfulMonad.bind_assoc]
    have hw2 : ((Sys.mallocState).exec me w1).2.Keeps w :=
      (@exec_keeps .mallocState trivial me w1).trans hw1
    rcases ((Sys.mallocState).exec me w1).1 with _ | junk
    · refine .refused hw2 ?_
      rintro _ _ ⟨rfl, rfl⟩
      exact ⟨Agent.not_answeredOk_self rfl, .refl a⟩
    · refine .created htype hs ((@exec_keeps .strdup trivial me _).trans hw2) ?_
      rintro _ _ ⟨rfl, rfl⟩
      set named := ((Sys.strdup).exec me ((Sys.mallocState).exec me w1).2).1
      have hholds : a.Holds ((a.setS (some ((State.initial cfg junk a.username).setNamed
          named))).setNewState true)
        (some ((State.initial cfg junk a.username).setNamed named)) true := ⟨rfl, rfl, rfl, rfl, rfl⟩
      exact ⟨junk, named, hholds.reply _⟩
  · -- the length of a passcode is asserted, and the user name
    rw [agentStateInit_aborts hcfg hs]
    simp only [wp_issue_bind, LawfulMonad.bind_assoc]
    have hw2 : ((Sys.mallocState).exec me w1).2.Keeps w :=
      (@exec_keeps .mallocState trivial me w1).trans hw1
    rcases ((Sys.mallocState).exec me w1).1 with _ | junk
    · refine .refused hw2 ?_
      rintro _ _ ⟨rfl, rfl⟩
      exact ⟨Agent.not_answeredOk_self rfl, .refl a⟩
    · exact .stopped hw2

/-- The policy of `STATE_NEW`: nothing of what it loads is kept. -/
theorem verifyStateNew_spec (hok : a.Ok) :
    wp (Sys.exec me) (verifyStateNew cfg a) (fun r w' => w'.Keeps w ∧ ∀ code a',
      r = some (code, a') → a' = a ∧ (code = agentOk → a.s = none ∧ (a.privileged = false →
        ∃ r w1, (agentStateInit cfg a true false).run (Sys.exec me) w = (some r, w1) ∧
          newCode cfg r = agentOk))) w := by
  rcases hs : a.s with _ | s
  swap
  · -- a state is held
    rw [verifyStateNew, if_pos (by simp [hs])]
    refine ⟨.refl w, ?_⟩
    rintro _ _ ⟨rfl, rfl⟩
    exact ⟨rfl, fun h => by simp at h⟩
  rw [verifyStateNew, if_neg (by simp [hs])]
  cases hp : a.privileged with
  | true =>
    refine ⟨.refl w, ?_⟩
    rintro _ _ ⟨rfl, rfl⟩
    exact ⟨rfl, fun _ => ⟨rfl, by simp⟩⟩
  | false =>
    rw [if_neg (by simp)]
    have hnew := hok.newState_none hs
    -- a client without privileges: the load decides
    refine wp_seq (wp_and (agentStateInit_spec hs hnew false) wp_run) (fun w1 h1 => ⟨h1.1.1, by simp⟩) ?_
    rintro ⟨retval, a1⟩ w1 ⟨⟨hw1, hend⟩, hrun⟩
    cases hend retval a1 rfl with
    | failed _ hret =>
      simp only
      rw [if_pos hret]
      refine ⟨hw1, ?_⟩
      rintro _ _ ⟨rfl, rfl⟩
      refine ⟨rfl, fun h => ⟨trivial, fun _ => ⟨_, w1, hrun, ?_⟩⟩⟩
      rw [newCode, if_pos hret]
      exact h
    | held s lock e _ _ _ hfree =>
      obtain rfl := hfree rfl
      have hfini := @agentStateFini_drop cfg (a.setS (some (s.loaded (-1) e))) _ rfl rfl
      -- the state that was loaded is dropped, and the agent is as before
      have hself : ((a.setS (some (s.loaded (-1) e))).setNewState false).setS none = a := by
        obtain ⟨⟩ := a
        simp only at hs hnew
        subst hs hnew
        rfl
      have hcode : (if ((a.setS (some (s.loaded (-1) e))).s.any fun s =>
            pppFlagCheck s flagDisabled) = true ∧ cfg.disabling = configDisallow then
          (pure (agentErrPolicy, a) : SysM (ℕ × Agent))
        else if cfg.keyRegeneration = configDisallow then pure (agentErrPolicyRegeneration, a)
        else pure (if (0 : ℕ) ≠ 0 then agentErr else agentOk, a)) =
          .ret (newCode cfg (0, a.setS (some (s.loaded (-1) e))), a) := by
        simp only [newCode, ne_eq, not_true_eq_false, if_false]
        split_ifs <;> rfl
      simp only [ne_eq, not_true_eq_false, if_false, hfini, ret_bind, hself] at hcode ⊢
      rw [hcode]
      refine ⟨hw1, ?_⟩
      rintro _ _ ⟨rfl, rfl⟩
      exact ⟨rfl, fun h => ⟨trivial, fun _ => ⟨_, w1, hrun, h⟩⟩⟩

/-- How a request is handled: refused before it is executed, or with one of
its effects. -/
def Handling (crypto : Crypto) (cfg : Cfg) (me : Pid) (a : Agent) (w : World) (req : Request)
    (r : Option (ℕ × Agent)) (w' : World) : Prop :=
  (w'.Keeps w ∧ ∀ retval a', r = some (retval, a') →
    ¬ a.AnsweredOk a' ∧ a.Holds a' a.s a.newState) ∨
  a.locked = false ∧ Permitted cfg me a w req ∧ Effect crypto cfg me a w req r w'

theorem requestHandle_effect (hok : a.Ok) :
    wp (Sys.exec me) (requestHandle crypto cfg a req) (Handling crypto cfg me a w req) w := by
  have hrefused {status retval : ℕ} (h : status ≠ 0) {w1 : World} (hw1 : w1.Keeps w) :
      w1.Keeps w ∧ ∀ v a', some (retval, a.sendReply status) = some (v, a') →
        ¬ a.AnsweredOk a' ∧ a.Holds a' a.s a.newState := by
    refine ⟨hw1, ?_⟩
    rintro _ _ ⟨rfl, rfl⟩
    exact ⟨fun hok => h (hok.status rfl), (Agent.Holds.refl a).reply status⟩
  cases hl : a.locked with
  | true =>
    rw [requestHandle, if_pos hl]
    refine .inl ⟨.refl w, ?_⟩
    rintro _ _ ⟨rfl, rfl⟩
    exact ⟨Agent.not_answeredOk_self rfl, .refl a⟩
  | false =>
    rw [requestHandle, if_neg (by simp [hl])]
    -- a request is refused by the policy, or executed
    by_cases htype : req.type = .stateNew
    · have hpolicy : requestVerifyPolicy cfg a req = verifyStateNew cfg a := by
        simp only [requestVerifyPolicy, htype]
      rw [hpolicy]
      refine wp_seq (verifyStateNew_spec hok) (fun w1 h1 => .inl ⟨h1.1, by simp⟩) ?_
      rintro ⟨code, a1⟩ w1 ⟨hw1, hr⟩
      obtain ⟨rfl, hcode⟩ := hr code a1 rfl
      simp only
      by_cases hpol : code = agentErrPolicy
      · rw [if_pos hpol]
        exact .inl (hrefused (by simp) hw1)
      rw [if_neg hpol]
      by_cases hzero : code = 0
      · rw [if_neg (not_not.mpr hzero)]
        have hperm := hcode hzero
        refine wp_mono (stateNew_effect htype hperm.1 hw1) fun r w2 h2 => .inr ⟨hl, ?_, h2⟩
        rw [Permitted, if_pos htype]
        exact hperm
      · rw [if_pos hzero]
        exact .inl (hrefused hzero hw1)
    · obtain ⟨code, hcode⟩ := @requestVerifyPolicy_ret cfg a req htype
      rw [hcode, ret_bind]
      simp only
      by_cases hpol : code = agentErrPolicy
      · rw [if_pos hpol]
        exact .inl (hrefused (by simp) (.refl w))
      rw [if_neg hpol]
      by_cases hzero : code = 0
      · rw [if_neg (not_not.mpr hzero)]
        refine wp_mono (requestExecute_effect hok hl htype) fun r w2 h2 => .inr ⟨hl, ?_, h2⟩
        rw [Permitted, if_neg htype, hcode, hzero]
      · rw [if_pos hzero]
        exact .inl (hrefused hzero (.refl w))

theorem handled_handling (hok : a.Ok) :
    Handling crypto cfg me a w req (handled crypto cfg me a w req).1
      (handled crypto cfg me a w req).2 :=
  requestHandle_effect hok

end

/-! ## The invariant of the agent -/

section

variable {crypto : Crypto} {cfg : Cfg} {me : Pid} {a a' : Agent} {s : State} {req : Request}
  {w w' : World} {u : CString} {retval : ℕ}

theorem State.Held.rewound (h : s.Held u) : s.rewound.Held u :=
  ⟨⟨h.username, h.saltMask, h.codeMask⟩, h.lock, calculate_rowOk _⟩

theorem State.Held.generated (h : s.Held u) (pool : List Byte) :
    (s.generated crypto pool).Held u := by
  unfold State.generated
  split_ifs
  · exact ⟨⟨h.username, h.saltMask, h.codeMask⟩, h.lock, h.row⟩
  · exact ⟨⟨h.username, h.saltMask, h.codeMask⟩, h.lock, h.row⟩

theorem State.Held.leaves (h : s.Held u) : (req.leaves s).Held u := by
  unfold Request.leaves
  split_ifs
  · exact ⟨⟨h.username, h.saltMask, h.codeMask⟩, h.lock, h.row⟩
  · exact h

/-- A loaded state that a setter changed and unlocked. -/
theorem State.Fresh.changed_held {s' : State} {lock lock' : ℤ} {e : Entry} (h : s.Fresh u)
    (hb : (s.loaded lock e).Beside s') (hl : (s'.setLock lock').LockOk) :
    (s'.setLock lock').Held u where
  username := hb.username.trans h.username
  saltMask := hb.saltMask.trans h.saltMask
  codeMask := hb.codeMask.trans h.codeMask
  lock := hl
  row := by
    have hrow : (s.loaded lock e).RowOk := calculate_rowOk _
    rw [State.RowOk, ← hb.currentRow] at hrow
    exact hrow

theorem Agent.Holds.ok {s : Option State} {new : Bool} (h : a.Holds a' s new)
    (hs : ∀ s1, s = some s1 → s1.Held a.username) (hnew : new = true → ∃ s1, s = some s1) :
    a'.Ok where
  held s1 hs1 := by
    rw [h.username]
    exact hs s1 (h.s.symm.trans hs1)
  created h1 := by
    obtain ⟨s1, hs1⟩ := hnew (h.newState.symm.trans h1)
    exact ⟨s1, h.s.trans hs1⟩

theorem Agent.Holds.ok_some {new : Bool} (h : a.Holds a' (some s) new) (hs : s.Held a.username) :
    a'.Ok := by
  refine h.ok (fun _ h1 => ?_) fun _ => ⟨s, rfl⟩
  obtain rfl := Option.some.inj h1
  exact hs

theorem Agent.Holds.ok_none (h : a.Holds a' none false) : a'.Ok :=
  h.ok (fun _ h => nomatch h) fun h => nomatch h

theorem Agent.Holds.ok_same (h : a.Holds a' a.s a.newState) (hok : a.Ok) : a'.Ok :=
  h.ok hok.held hok.created

theorem Effect.ok (hok : a.Ok) (h : Effect crypto cfg me a w req (some (retval, a')) w') :
    a'.Ok := by
  cases h with
  | refused hw hr => exact (hr _ _ rfl).2.ok_same hok
  | read hro hw hr =>
    obtain ⟨s', hholds, hs' | ⟨s, s1, hs, rfl, hend⟩⟩ := hr _ _ rfl
    · subst hs'
      exact hholds.ok_same hok
    · have hheld := hok.held s hs
      unfold ReadEnds at hend
      split_ifs at hend
      · obtain ⟨prompt, rfl⟩ := hend
        exact hholds.ok_some (hheld.rewound.setPrompt prompt)
      · obtain ⟨prompt, rfl⟩ := hend
        exact hholds.ok_some (hheld.setPrompt prompt)
  | dropped hwhy hw hr => exact (hr _ _ rfl).2.ok_none
  | switched htype hw hr =>
    obtain ⟨hs, hnew, -⟩ := hr _ _ rfl
    exact .hold (fun s h => by simp [hs] at h) hnew
  | created htype hs hw hr =>
    obtain ⟨junk, named, hholds⟩ := hr _ _ rfl
    have hfresh := (State.initial_fresh cfg junk a.username).setNamed named
    exact hholds.ok_some (hfresh.held (Nat.zero_le _))
  | loaded htype hs s e hfresh hlook hw hr =>
    exact (hr _ _ rfl).ok_some (hfresh.loaded_held e (.inl rfl))
  | put htype s hs hkey h hr => exact (hr _ _ rfl).ok_none
  | generated htype s pool hs hcheck hw hr =>
    exact (hr _ _ rfl).ok_some ((hok.held s hs).generated pool)
  | removed htype hs s lock e hfresh hlook h hr => exact (hr _ _ rfl).ok_none
  | changed s s' retval hnew hs hsets hb hw hr =>
    exact (hr _ _ rfl).2.ok_some ((hok.held s hs).beside hb)
  | unset s s' lock e retval hnew hfresh hlook hsets hb hw hr =>
    obtain ⟨-, lock', hl, hholds⟩ := hr _ _ rfl
    exact hholds.ok_some (hfresh.changed_held hb hl)
  | set s s' lock e hnew hfresh hsets hb h hr =>
    obtain ⟨lock', hl, hholds⟩ := hr _ _ rfl
    exact hholds.ok_some (hfresh.changed_held hb hl)
  | tried htype s hs hw hr =>
    obtain ⟨-, s', hheld, -, hholds⟩ := hr _ _ rfl
    exact hholds.ok_some hheld
  | counted htype s hs e hnew hallowed hskip h hr =>
    obtain ⟨lock, hl, hholds⟩ := hr _ _ rfl
    have hheld := hok.held s hs
    have hloaded : (s.loaded lock e).Held a.username :=
      ⟨⟨hheld.username, hheld.saltMask, hheld.codeMask⟩, hl, calculate_rowOk _⟩
    exact hholds.ok_some hloaded.leaves
  | cleared htype e h hr => exact (hr _ _ rfl).ok_same hok

end

/-! ## Runs -/

section

variable {crypto : Crypto} {cfg : Cfg} {me : Pid} {cond : Agent → World → Request → Prop}

/-- The rule for the databases after a run: what holds of them (`D`) follows
from an invariant `J` of the agent and the world, also when a request ends
the run. -/
theorem mainLoop_db {J : Agent → World → Prop} {D : World → Prop} (hok : ∀ a w, J a w → a.Ok)
    (hdb : ∀ a w, J a w → D w)
    (hstep : ∀ a w req r w', J a w → cond a w req → Handling crypto cfg me a w req r w' →
      D w' ∧ ∀ retval a', r = some (retval, a') → J a' w')
    {a : Agent} {w : World} {reqs : List Request} (hJ : J a w)
    (hcond : Along crypto cfg me cond a w reqs) :
    D ((mainLoop crypto cfg a reqs).run (Sys.exec me) w).2 := by
  refine wp_mainLoop (I := fun _ => J) (Q := fun _ => D) ?_ (n := 0) hJ hcond fun a' w' h => hdb a' w' h
  intro n a w req hJ hreq
  refine wp_mono (requestHandle_effect (hok a w hJ)) fun r w' h => ?_
  obtain ⟨hD, hJ'⟩ := hstep a w req r w' hJ hreq h
  by_cases hgoes : ∃ a', r = some (0, a')
  · obtain ⟨a', rfl⟩ := hgoes
    exact .inl ⟨a', rfl, hJ' 0 a' rfl⟩
  · exact .inr ⟨fun a' h => hgoes ⟨a', h⟩, hD⟩

end

end Otpasswd
