import Otpasswd.Agent.Serve

/-!
# Otpasswd.Agent.Held — the state the agent holds

`_state_init`, `_state_fini` and the setters built on them, as far as the
state in the agent's memory goes: whose it is, whether it is locked, and that
no assertion fails. What they do to the database is in
`Otpasswd.Agent.Setter`.

Main results: `agentStateInit_locks`, `agentStateFini_drop` and
`atomically_locks`.
-/

namespace Otpasswd

open CText Prog

/-! ## The invariant of the agent -/

/-- A state the agent may hold for user `u`. -/
structure State.Held (s : State) (u : CString) : Prop extends s.For u where
  lock : s.LockOk
  row : s.RowOk

/-- What holds of the agent between two requests. -/
structure Agent.Ok (a : Agent) : Prop where
  held : ∀ s, a.s = some s → s.Held a.username
  created : a.newState = true → ∃ s, a.s = some s

theorem Agent.start_ok (u : CString) (privileged : Bool) (named : Bool := true) :
    (Agent.start u privileged named).Ok where
  held _ h := nomatch h
  created h := nomatch h

theorem State.Held.beside {s s' : State} {u : CString} (h : s.Held u) (hb : s.Beside s') :
    s'.Held u where
  username := hb.username.trans h.username
  saltMask := hb.saltMask.trans h.saltMask
  codeMask := hb.codeMask.trans h.codeMask
  lock := by
    rw [State.LockOk, hb.lock]
    exact h.lock
  row := by
    rw [State.RowOk, hb.currentRow]
    exact h.row

theorem State.Held.setLock {s : State} {u : CString} (h : s.Held u) {lock : ℤ}
    (hl : (s.setLock lock).LockOk) : (s.setLock lock).Held u :=
  ⟨⟨h.username, h.saltMask, h.codeMask⟩, hl, h.row⟩

theorem State.Fresh.held {s : State} {u : CString} (h : s.Fresh u) (hrow : s.RowOk) : s.Held u :=
  ⟨h.toFor, .inl h.lock, hrow⟩

theorem State.Fresh.loaded_held {s : State} {u : CString} (h : s.Fresh u) {lock : ℤ} (e : Entry)
    (hl : (s.loaded lock e).LockOk) : (s.loaded lock e).Held u :=
  ⟨⟨h.username, h.saltMask, h.codeMask⟩, hl, calculate_rowOk _⟩

namespace Agent

variable {a : Agent}

theorem Ok.unlocked (h : a.Ok) (hl : a.locked = false) {s : State} (hs : a.s = some s) :
    s.lock = -1 := by
  rcases (h.held s hs).lock with hlock | hlock
  · exact hlock
  · simp [locked, hs, hlock] at hl

theorem Ok.newState_none (h : a.Ok) (hs : a.s = none) : a.newState = false := by
  cases hnew : a.newState with
  | false => rfl
  | true =>
    obtain ⟨s, hs'⟩ := h.created hnew
    rw [hs] at hs'
    cases hs'

theorem locked_none (hs : a.s = none) : a.locked = false := by simp [locked, hs]

theorem locked_some {s : State} (hs : a.s = some s) (hl : s.lock = -1) : a.locked = false := by
  simp [locked, hs, hl]

/-- An agent with another state, or none, which is not being created. -/
theorem Ok.hold (hs : ∀ s, a.s = some s → s.Held a.username) (hnew : a.newState = false) : a.Ok :=
  ⟨hs, fun h => by simp [hnew] at h⟩

end Agent

/-! ## Initialising -/

/-- How `_state_init` with a lock ends once it has the lock. The name of the
state was copied unless `S`. -/
inductive InitHeld (S : Prop) (a : Agent) : ℕ → Agent → Prop where
  | held (s : State) (h : s.Held a.username) (hnew : s.newKey = false)
      (hnamed : s.named = true ∨ S) : InitHeld S a 0 (a.setS (some s))
  | failed (ret : ℕ) (hret : ret ≠ 0) : InitHeld S a ret a

section

variable {cfg : Cfg} {uid : Uid} {ok S : Prop} {a : Agent}

theorem setS_none (hs : a.s = none) : a.setS none = a := by
  obtain ⟨⟩ := a
  simp only at hs
  subst hs
  rfl

theorem setNewState_false (hnew : a.newState = false) : a.setNewState false = a := by
  obtain ⟨⟩ := a
  simp only at hnew
  subst hnew
  rfl

/-- `_state_init` with `_LOAD` and `_LOCK`. -/
theorem agentStateInit_locks (hS : ¬ Configured cfg uid → S) (hn : a.named = true ∨ S)
    (ha : a.s = none) (hnew : a.newState = false) :
    Locks uid S (fun r => r.1 ≠ 0 ∧ r.2 = a) (fun _ r => InitHeld S a r.1 r.2)
      (agentStateInit cfg a true true) := by
  have hassert : a.s.isNone = true := by rw [ha]; rfl
  refine (until_assert_bind _).mpr ⟨fun _ => ?_, fun h => absurd hassert h⟩
  refine (pppStateInit_free hS hn a.username).locks ?_
  rintro _ (rfl | ⟨s, rfl, hs, hnamed⟩)
  · exact ⟨by simp, rfl⟩
  have hruns := Configured.stops hS hnamed
  simp only [Bool.true_eq_false, if_false, Bool.not_true, setNewState_false hnew]
  refine (pppStateLoad_locks hruns hs.lock).bind ?_ ?_
  · rintro ⟨ret, s1⟩ ⟨hret, rfl⟩
    simp only
    rw [if_neg (by
      rintro (h | h)
      · exact hret.1 h
      · exact hret.2 h), setS_none ha, stateFini_unlocked hs.lock]
    exact ⟨hret.1, rfl⟩
  · rintro ok ⟨ret, s1⟩ hr
    replace hr : LoadHeld ok s ret s1 := hr
    simp only
    have hfail (hret : ret ≠ 0) : Ends uid ok S (fun r => InitHeld S a r.1 r.2)
        (stateFini cfg s1 >>= fun _ => (pure (ret, a.setS none) : SysM (ℕ × Agent))) := by
      rw [setS_none ha]
      exact (stateFini_ends s1 (hr.sameUser.stops hruns)).bind fun _ _ => .failed ret hret
    by_cases hret : ret = 0 ∨ ret = stateNumspace
    · rw [if_pos hret]
      cases hr with
      | loaded fd e =>
        have hfd := fd.property
        exact .held _ (hs.loaded_held e (.inr (by simp only [loaded_lock]; omega))) hs.newKey hnamed
      | exhausted lock e _ _ hl => exact .held _ (hs.loaded_held e hl) hs.newKey hnamed
      | failed _ _ hne => exact absurd hret (not_or.mpr hne)
    · rw [if_neg hret]
      exact hfail (not_or.mp hret).1

/-- How `_state_init` with a load only ends: it loads the state, or changes
nothing. -/
def InitLoaded (a : Agent) (r : ℕ × Agent) : Prop :=
  (r.1 = 0 ∧ ∃ s, r.2 = a.setS (some s) ∧ s.Held a.username ∧ s.lock = -1) ∨ r.1 ≠ 0 ∧ r.2 = a

/-- `_state_init` with `_LOAD` only. -/
theorem agentStateInit_load (hS : ¬ Configured cfg uid → S) (hn : a.named = true ∨ S)
    (ha : a.s = none) (hnew : a.newState = false) :
    Locks uid S (InitLoaded a) (fun _ => InitLoaded a) (agentStateInit cfg a true false) := by
  have hassert : a.s.isNone = true := by rw [ha]; rfl
  refine (until_assert_bind _).mpr ⟨fun _ => ?_, fun h => absurd hassert h⟩
  refine (pppStateInit_free hS hn a.username).locks ?_
  rintro _ (rfl | ⟨s, rfl, hs, hnamed⟩)
  · exact .inr ⟨by simp, rfl⟩
  have hruns := Configured.stops hS hnamed
  simp only [Bool.true_eq_false, if_false, Bool.not_false, setNewState_false hnew, pppStateLoad,
    if_true]
  refine (pppStateRead_locks hruns hs.lock).bind ?_ ?_
  · rintro ⟨ret, s1⟩ ⟨hret, rfl⟩
    simp only
    rw [if_neg (by
      rintro (h | h)
      · exact hret.1 h
      · exact hret.2 h), setS_none ha, stateFini_unlocked hs.lock]
    exact .inr ⟨hret.1, rfl⟩
  rintro ok ⟨ret, s1⟩ hr
  replace hr : ReadFree s ret s1 := hr
  simp only
  by_cases hret : ret = 0 ∨ ret = stateNumspace
  · rw [if_pos hret]
    cases hr with
    | loaded e => exact .inl ⟨rfl, _, rfl, hs.loaded_held e (.inl rfl), rfl⟩
    | failed _ _ hne => exact absurd hret (not_or.mpr hne)
  · rw [if_neg hret, setS_none ha]
    exact (stateFini_ends s1 (hr.sameUser.stops hruns)).bind fun _ _ =>
      .inr ⟨(not_or.mp hret).1, rfl⟩

/-- `_state_init` without `_LOAD`: only an allocation can fail. -/
theorem agentStateInit_new (hcfg : 2 ≤ cfg.passcodeDefLength ∧ cfg.passcodeDefLength ≤ 16)
    (hn : a.named = true) (ha : a.s = none) :
    agentStateInit cfg a false false = sys .mallocState >>= fun junk =>
      match junk with
      | none => .ret (stateNomem, a)
      | some junk => sys .strdup >>= fun named =>
        .ret (0, (a.setS (some ((State.initial cfg junk a.username).setNamed named))).setNewState
          true) := by
  have hassert : a.s.isNone = true := by rw [ha]; rfl
  simp only [agentStateInit, assert, hassert, if_true, ret_bind]
  refine congrArg (Prog.call Sys.mallocState) (funext fun junk => ?_)
  rcases junk with _ | junk
  · rfl
  · simp only [Agent.name_eq hn, if_true, stateInit, assert, hcfg, and_self, ret_bind,
      pure_eq_ret]
    rfl

/-- `_state_init` without `_LOAD` where `state_init` fails one of its assertions. -/
theorem agentStateInit_aborts
    (h : ¬ ((2 ≤ cfg.passcodeDefLength ∧ cfg.passcodeDefLength ≤ 16) ∧ a.named = true))
    (ha : a.s = none) :
    agentStateInit cfg a false false = sys .mallocState >>= fun junk =>
      junk.elim (.ret (stateNomem, a)) fun _ => .abort := by
  have hassert : a.s.isNone = true := by rw [ha]; rfl
  simp only [agentStateInit, assert, hassert, if_true, ret_bind]
  refine congrArg (Prog.call Sys.mallocState) (funext fun junk => ?_)
  rcases junk with _ | junk
  · rfl
  · have habort : stateInit cfg junk a.name = .abort := by
      cases hn : a.named with
      | false => simp [Agent.name, namePtr, hn, stateInit]
      | true =>
        simp only [Agent.name_eq hn, stateInit, assert, if_neg fun hlength => h ⟨hlength, hn⟩]
        rfl
    change (stateInit cfg junk a.name >>= _) >>= _ = _
    rw [habort]
    rfl

/-- `ppp_key_generate` on a state that is held; its check loads another one. -/
theorem pppKeyGenerate_locks {crypto : Crypto} (hS : ¬ Configured cfg uid → S) {s : State}
    {u : CString} (hn : s.named = true ∨ S) (hs : s.Held u) (hlock : s.lock = -1) (flags : PppOptions) :
    Locks uid S (fun r => r.2.Held u ∧ r.2.lock = -1) (fun _ r => r.2.Held u ∧ r.2.lock = -1)
      (pppKeyGenerate crypto cfg s flags) := by
  refine (until_assert_bind _).mpr ⟨fun _ => ?_, fun h => absurd hlock h⟩
  have hgen : Sound uid S (fun r => r.2.Held u ∧ r.2.lock = -1) (stateKeyGenerate crypto s) := by
    have hheld : ∀ k c l f n, State.Held { s with
        sequenceKey := k, counter := c, latestCard := l, flags := f, newKey := n } u :=
      fun _ _ _ _ _ => ⟨⟨hs.username, hs.saltMask, hs.codeMask⟩, hs.lock, hs.row⟩
    have hsat := @stateKeyGenerate_sat crypto s uid False
    refine Sat.answers (hsat.mono (fun _ _ => trivial) (fun _ h => h.elim) ?_) fun _ _ h => h.1.1
    rintro r (⟨-, hr⟩ | ⟨pool, rfl⟩)
    · rw [hr]
      exact ⟨hs, hlock⟩
    · unfold State.generated
      split_ifs
      · exact ⟨hheld _ _ _ _ _, hlock⟩
      · exact ⟨hheld _ _ _ _ _, hlock⟩
  have hrest (ret : ℕ) : Sound uid S (fun r => r.2.Held u ∧ r.2.lock = -1)
      (if ret ≠ 0 then pure (ret, s) else stateKeyGenerate crypto s) := by
    split_ifs
    · exact ⟨hs, hlock⟩
    · exact hgen
  by_cases hpolicy : flags.checkPolicy = true ∧ cfg.keyRegeneration = configDisallow
  · rw [if_pos hpolicy]
    refine (until_issue_bind _).mpr ⟨trivial, fun junk _ => ⟨fun h => h.elim, fun _ => ?_⟩⟩
    refine (stateInit_free hS hn junk s.username).locks fun tmp htmp => ?_
    have hruns := Configured.stops hS htmp.2
    simp only [pppStateLoad, if_true]
    refine (pppStateRead_locks hruns htmp.1.lock).bind ?_ ?_
    · rintro ⟨ret, tmp1⟩ ⟨-, rfl⟩
      simp only [stateFini_unlocked htmp.1.lock]
      exact Sound.locks (hrest _)
    · exact fun ok r hr => (stateFini_ends r.2 (hr.sameUser.stops hruns)).bind fun _ _ =>
        Sound.ends (hrest _)
  · rw [if_neg hpolicy]
    exact Sound.locks (hrest 0)

/-! ## Finalising -/

theorem agentStateFini_none {flags : FiniOptions} (ha : a.s = none)
    (hflags : ¬ (flags.store = true ∧ flags.remove = true)) :
    agentStateFini cfg a flags = .ret (agentErrNoState, a) := by
  simp only [agentStateFini, assert, hflags, not_false_eq_true, if_true, ret_bind, ha, pure_eq_ret]

theorem pppStateRelease_nothing (s : State) : pppStateRelease cfg s {} = .ret (0, s) := by
  simp [pppStateRelease, pppReleaseStore, pppReleaseUnlock, assert]

/-- Dropping a state that is not locked makes no call. -/
theorem agentStateFini_drop {s : State} (hs : a.s = some s) (hlock : s.lock = -1) :
    agentStateFini cfg a {} = .ret (0, (a.setNewState false).setS none) := by
  simp only [agentStateFini, assert, Bool.false_eq_true, false_and, not_false_eq_true, if_true,
    ret_bind, hs, pppStateRelease_nothing, if_false, stateFini_unlocked hlock, pure_eq_ret]
  rfl

/-- Finalising with `_KEEP`: the state stays, and is unlocked. -/
theorem agentStateFini_keep {s : State} (hS : ¬ Runs cfg uid s.named → S) {store : Bool}
    (hs : a.s = some s) (hlock : s.LockOk) (hnew : store = true → s.newKey = false) :
    Ends uid ok S (fun r => ∃ lock, r.2 = (a.setNewState false).setS (some (s.setLock lock)) ∧
      (s.setLock lock).LockOk ∧ (ok → lock = -1))
      (agentStateFini cfg a { store := store, keep := true }) := by
  refine (sat_assert_bind _).mpr ⟨fun _ => ?_, fun h => absurd (by simp) h⟩
  simp only [hs, if_true]
  refine (pppStateRelease_ends hS _ (by simp) rfl rfl (fun h => hnew (by simpa using h)) hlock).bind ?_
  rintro ⟨ret, s1⟩ ⟨lock, h, hl, hok⟩
  simp only at h
  subst h
  exact ⟨lock, rfl, hl, hok⟩

/-- Finalising without `_KEEP` leaves no state. -/
theorem agentStateFini_ends {s : State} (hS : ¬ Runs cfg uid s.named → S) {flags : FiniOptions}
    (hs : a.s = some s) (hflags : ¬ (flags.store = true ∧ flags.remove = true))
    (hkeep : flags.keep = false)
    (hrelease : Ends uid ok S (fun r => r.2.named = s.named) (pppReleaseStore cfg s
      { store := flags.store, remove := flags.remove })) :
    Ends uid ok S (fun r => r.2 = (a.setNewState false).setS none) (agentStateFini cfg a flags) := by
  refine (sat_assert_bind _).mpr ⟨fun _ => ?_, fun h => absurd hflags h⟩
  have hstep : Ends uid ok S (fun r => r.2.named = s.named)
      (pppStateRelease cfg s { store := flags.store, remove := flags.remove }) := by
    refine (sat_assert_bind _).mpr ⟨fun _ => ?_, fun h => absurd hflags h⟩
    rw [if_neg (by simp)]
    exact hrelease.bind fun _ h => h
  simp only [hs, hkeep, Bool.false_eq_true, if_false]
  refine hstep.bind fun r hr => ?_
  exact (stateFini_ends r.2 (hr ▸ hS)).bind fun _ _ => rfl

/-- The same where the store takes the lock itself. -/
theorem agentStateFini_locks {s : State} (hS : ¬ Runs cfg uid s.named → S) {flags : FiniOptions}
    (hs : a.s = some s) (hflags : ¬ (flags.store = true ∧ flags.remove = true))
    (hkeep : flags.keep = false)
    (hrelease : Locks uid S (fun r => r.2.lock = -1) (fun _ r => r.2.named = s.named) (pppReleaseStore cfg s
      { store := flags.store, remove := flags.remove })) :
    Locks uid S (fun r => r.2 = (a.setNewState false).setS none)
      (fun _ r => r.2 = (a.setNewState false).setS none) (agentStateFini cfg a flags) := by
  refine (until_assert_bind _).mpr ⟨fun _ => ?_, fun h => absurd hflags h⟩
  have hstep : Locks uid S (fun r => r.2.lock = -1) (fun _ r => r.2.named = s.named)
      (pppStateRelease cfg s { store := flags.store, remove := flags.remove }) := by
    refine (until_assert_bind _).mpr ⟨fun _ => ?_, fun h => absurd hflags h⟩
    rw [if_neg (by simp)]
    refine Locks.bind hrelease ?_ fun _ _ h => h
    rintro ⟨ret, s1⟩ hlock
    exact hlock
  simp only [hs, hkeep, Bool.false_eq_true, if_false]
  refine hstep.bind ?_ ?_
  · rintro ⟨ret, s1⟩ hlock
    simp only [stateFini_unlocked hlock]
    exact rfl
  · exact fun ok r hr => (stateFini_ends r.2 (hr ▸ hS)).bind fun _ _ => rfl

/-! ## Setters -/

/-- What a request leaves of the agent before it replies: unlocked, if `ok`. -/
structure Agent.After (ok : Prop) (a a' : Agent) : Prop where
  inv : a'.Ok
  sent : a'.sent = a.sent
  unlocked : ok → a'.locked = false

theorem Agent.Ok.after (h : a.Ok) (hl : a.locked = false) : a.After ok a := ⟨h, rfl, fun _ => hl⟩

/-- The shape of a setter: `k` changes the state and finalises it. -/
def atomical (cfg : Cfg) (a : Agent) (k : Agent → State → SysM (ℕ × Agent)) :
    SysM (ℕ × Agent) := do
  let (retval, a) ← agentStateInitAtomical cfg a
  if retval ≠ 0 then return (retval, a)
  else
    match a.s with
    | none => .abort
    | some s => k a s

theorem atomically_eq (change : State → SysM (ℕ × State)) :
    atomically cfg a change = atomical cfg a fun a s => change s >>= fun r =>
      agentStateFiniAtomical cfg (a.setS (some r.2)) r.1 :=
  rfl

theorem agentStateInitAtomical_created (hnew : a.newState = true) {s : State} (hs : a.s = some s) :
    agentStateInitAtomical cfg a = .ret (0, a) := by
  simp only [agentStateInitAtomical, hnew, hs, assert, Option.isSome_some, if_true, ret_bind,
    pure_eq_ret]

theorem agentStateInitAtomical_stored (hok : a.Ok) (hl : a.locked = false)
    (hnew : a.newState = false) :
    agentStateInitAtomical cfg a = agentStateInit cfg (a.setS none) true true := by
  rcases hs : a.s with _ | s
  · simp only [agentStateInitAtomical, hnew, hs, Bool.false_eq_true, if_false, Option.isSome_none,
      setS_none hs]
  · simp only [agentStateInitAtomical, hnew, hs, Bool.false_eq_true, if_false, Option.isSome_some,
      if_true, agentStateFini_drop hs (hok.unlocked hl hs), ret_bind, ne_eq, not_true_eq_false,
      setNewState_false hnew]

/-- The agent and the state it holds have their user name. -/
structure Agent.Named (a : Agent) : Prop where
  self : a.named = true
  state : ∀ s, a.s = some s → s.named = true

/-- The state a setter works on: one that is being created, or the stored one
read under the lock. Its name was copied unless `S`. -/
structure Agent.Works (S : Prop) (a a' : Agent) (s : State) : Prop where
  named : s.named = true ∨ S
  state : a' = a.setS (some s)
  held : s.Held a.username
  created : a.newState = true → s.lock = -1
  stored : a.newState = false → s.newKey = false

/-- The work of a setter between its start and its reply: on a state that is
being created it makes no call that can crash. -/
structure Agent.Setter (uid : Uid) (S : Prop) (a : Agent)
    (k : Agent → State → SysM (ℕ × Agent)) : Prop where
  created : a.newState = true → ∀ a' s, a.Works S a' s →
    Sound uid S (fun r => a.After True r.2) (k a' s)
  stored : a.newState = false → ∀ ok a' s, a.Works S a' s →
    Ends uid ok S (fun r => a.After ok r.2) (k a' s)

/-- What happens around the change of a setter. -/
theorem atomical_locks (hS : ¬ Configured cfg uid → S) (hn : a.Named ∨ S) (hok : a.Ok)
    (hl : a.locked = false) {k : Agent → State → SysM (ℕ × Agent)} (hk : a.Setter uid S k) :
    Locks uid S (fun r => a.After True r.2) (fun ok r => a.After ok r.2) (atomical cfg a k) := by
  cases hnew : a.newState with
  | true =>
    obtain ⟨s, hs⟩ := hok.created hnew
    have hlock := hok.unlocked hl hs
    have hself : a = a.setS (some s) := by
      obtain ⟨⟩ := a
      simp only at hs
      subst hs
      rfl
    have hworks : a.Works S a s :=
      ⟨hn.imp_left (·.state s hs), hself, hok.held s hs, fun _ => hlock, fun h => by simp [hnew] at h⟩
    rw [atomical, agentStateInitAtomical_created hnew hs, ret_bind]
    simp only [ne_eq, not_true_eq_false, if_false, hs]
    refine Locks.mono (Sound.locks (hk.created hnew a s hworks)) (fun _ h => h) fun ok r h => ?_
    exact ⟨h.inv, h.sent, fun _ => h.unlocked trivial⟩
  | false =>
    rw [atomical, agentStateInitAtomical_stored hok hl hnew]
    have hfree : (a.setS none).Ok := .hold (fun _ h => nomatch h) hnew
    refine (agentStateInit_locks (a := a.setS none) hS (hn.imp_left fun h => h.self) rfl hnew).bind
      ?_ ?_
    · rintro ⟨ret, a'⟩ ⟨hret, rfl⟩
      simp only
      rw [if_pos hret]
      exact ⟨hfree, rfl, fun _ => rfl⟩
    · rintro ok ⟨ret, a'⟩ hr
      replace hr : InitHeld S (a.setS none) ret a' := hr
      cases hr with
      | failed _ hret =>
        simp only
        rw [if_pos hret]
        exact ⟨hfree, rfl, fun _ => rfl⟩
      | held s hs hkey hnamed =>
        exact hk.stored hnew ok ((a.setS none).setS (some s)) s
          ⟨hnamed, rfl, hs, fun h => by simp [hnew] at h, fun _ => hkey⟩

/-- Finalising after the change of a state that is being created. -/
theorem agentStateFiniAtomical_sound (hnew : a.newState = true) {a' : Agent} {s s' : State}
    (hworks : a.Works S a' s) (hb : s.Beside s') (ret : ℕ) :
    Sound uid S (fun r => a.After True r.2)
      (agentStateFiniAtomical cfg (a'.setS (some s')) ret) := by
  obtain ⟨-, rfl, hheld, hcreated, -⟩ := hworks
  have hlock : s'.lock = -1 := hb.lock.trans (hcreated hnew)
  have hnew' : ((a.setS (some s)).setS (some s')).newState = true := hnew
  rw [agentStateFiniAtomical, if_pos hnew']
  refine (sat_assert_bind _).mpr ⟨fun _ => ?_, fun h => absurd rfl h⟩
  refine ⟨⟨fun s2 h2 => ?_, fun _ => ⟨s', rfl⟩⟩, rfl, fun _ => Agent.locked_some rfl hlock⟩
  obtain rfl := Option.some.inj h2
  exact hheld.beside hb

/-- Finalising after the change of the stored state. -/
theorem agentStateFiniAtomical_ends (hS : ¬ Configured cfg uid → S) (hnew : a.newState = false)
    {a' : Agent} {s s' : State} (hworks : a.Works S a' s) (hb : s.Beside s') (ret : ℕ) :
    Ends uid ok S (fun r => a.After ok r.2)
      (agentStateFiniAtomical cfg (a'.setS (some s')) ret) := by
  have hruns := hb.toSameUser.stops (Configured.stops hS hworks.named)
  obtain ⟨-, rfl, hheld, -, hstored⟩ := hworks
  have hheld' := hheld.beside hb
  have hkey : s'.newKey = false := hb.newKey.trans (hstored hnew)
  have hnew' : ¬ ((a.setS (some s)).setS (some s')).newState = true := by
    intro h
    exact absurd (hnew.symm.trans h) Bool.false_ne_true
  have hfini (store : Bool) : Ends uid ok S (fun r => a.After ok r.2)
      (agentStateFini cfg ((a.setS (some s)).setS (some s')) { store := store, keep := true }) := by
    refine (agentStateFini_keep hruns rfl hheld'.lock fun _ => hkey).mono (fun _ h => h)
      (fun _ h => h) ?_
    rintro ⟨ret', a2⟩ ⟨lock, h, hl, hok⟩
    simp only at h
    subst h
    refine ⟨.hold (fun s2 h2 => ?_) rfl, rfl, fun h => Agent.locked_some rfl (hok h)⟩
    obtain rfl := Option.some.inj h2
    exact hheld'.setLock hl
  rw [agentStateFiniAtomical, if_neg hnew']
  by_cases hret : ret = 0
  · rw [if_pos hret]
    exact hfini true
  · rw [if_neg hret]
    exact (hfini false).bind fun r hr => hr

/-- A setter that changes nothing but fields of the entry. -/
theorem Agent.Setter.beside (hS : ¬ Configured cfg uid → S) {α : Type}
    {change : Agent → State → SysM α} (next : α → State) (code : α → ℕ) (fin : α → ℕ → ℕ)
    (hchange : ∀ a' s, s.Held a.username → (change a' s).Sat (Sys.Answers uid False) Sys.Calm
      (Stops S False) (fun r => s.Beside (next r))) :
    a.Setter uid S fun a s => change a s >>= fun r =>
      agentStateFiniAtomical cfg (a.setS (some (next r))) (code r) >>= fun q =>
        .ret (fin r q.1, q.2) := by
  have hstep (a' : Agent) {s : State} (hs : s.Held a.username) :
      Sound uid S (fun r => s.Beside (next r)) (change a' s) :=
    Sat.answers ((hchange a' s hs).mono (fun _ _ => trivial) (fun _ h => h) fun _ h => h)
      fun _ _ h => h.1.1
  refine ⟨fun hnew a' s hworks => ?_, fun hnew ok a' s hworks => ?_⟩
  · refine (hstep a' hworks.held).bind fun r hr => ?_
    exact (agentStateFiniAtomical_sound hnew hworks hr _).bind fun q hq => hq
  · refine (Sound.ends (hstep a' hworks.held)).bind fun r hr => ?_
    exact (agentStateFiniAtomical_ends hS hnew hworks hr _).bind fun q hq => hq

/-- A setter whose change touches nothing but fields of the entry. -/
theorem atomically_locks (hS : ¬ Configured cfg uid → S) (hn : a.Named ∨ S) (hok : a.Ok)
    (hl : a.locked = false)
    {change : State → SysM (ℕ × State)}
    (hchange : ∀ s, s.Held a.username →
      (change s).Sat (Sys.Answers uid False) Sys.Calm (Stops S False) (fun r => s.Beside r.2)) :
    Locks uid S (fun r => a.After True r.2) (fun ok r => a.After ok r.2)
      (atomically cfg a change) := by
  have heq : atomically cfg a change = atomical cfg a fun a s => change s >>= fun r =>
      agentStateFiniAtomical cfg (a.setS (some r.2)) r.1 >>= fun q => .ret (q.1, q.2) := by
    rw [atomically_eq]
    simp only [← pure_eq_ret, Prod.mk.eta, bind_pure]
  rw [heq]
  exact atomical_locks hS hn hok hl (Agent.Setter.beside hS Prod.snd Prod.fst (fun _ q => q)
    fun _ => hchange)

end

end Otpasswd
