import Otpasswd.Agent.Held
import Otpasswd.Libotp.Counter

/-!
# Otpasswd.Agent.Setter — setters and the database

What `_state_init` has read when it returns, and how a setter ends: on a
state that is being created nothing but the memory changes; a stored state is
read again under the lock, and its entry is replaced by the changed one or
stays what it was.

Main results: `agentStateInit_spec`, `wp_atomical` and `atomically_spec`.
-/

namespace Otpasswd

open CText Prog

/-! ## Initialising -/

/-- How `_state_init` with `_LOAD` ends: with the stored entry in memory, or
with the agent as it was. -/
inductive InitEnd (cfg : Cfg) (a : Agent) (w : World) (locks : Bool) : ℕ → Agent → Prop where
  | held (s : State) (lock : ℤ) (e : Entry) (hs : s.Fresh a.username)
      (hlook : dbLookup (w.file (dbLoc cfg a.username)) a.username = some e)
      (hlock : (s.loaded lock e).LockOk) (hfree : locks = false → lock = -1) :
      InitEnd cfg a w locks 0 (a.setS (some (s.loaded lock e)))
  | failed (ret : ℕ) (hret : ret ≠ 0) : InitEnd cfg a w locks ret a

section

variable {cfg : Cfg} {me : Pid} {a : Agent} {w : World}

/-- What `ppp_state_load` leaves of a fresh state that it loads. -/
theorem pppStateLoad_fresh {s : State} {u : CString} (hs : s.Fresh u) (lock : Bool) :
    wp (Sys.exec me) (pppStateLoad cfg s { dontLock := !lock }) (fun r w' => w'.Keeps w ∧
      ∀ ret s', r = some (ret, s') → (ret = 0 ∨ ret = stateNumspace) → ∃ fd e,
        s' = s.loaded fd e ∧ s'.LockOk ∧ ret = verifyRange s' ∧ (lock = false → fd = -1) ∧
          dbLookup (w.file (dbLoc cfg u)) u = some e) w := by
  have hfailed {ret : ℕ} (h : LoadError ret) : ¬ (ret = 0 ∨ ret = stateNumspace) :=
    not_or.mpr h
  obtain rfl := hs.username
  cases lock with
  | true =>
    refine wp_mono (pppStateLoad_spec me cfg s w) ?_
    rintro r w' ⟨hw, -, hend⟩
    refine ⟨hw, fun ret s' hr hret => ?_⟩
    cases hend ret s' hr with
    | loaded fd e _ hlook hrange =>
      have hfd : (0 : ℤ) < fd.val := by
        have := fd.property
        omega
      exact ⟨_, e, rfl, .inr hfd, hrange.symm, nofun, hlook⟩
    | exhausted fd e hlook _ hl => exact ⟨fd, e, rfl, hl, rfl, nofun, hlook⟩
    | failed _ _ hne => exact absurd hret (hfailed hne)
  | false =>
    refine wp_mono (pppStateRead_spec me cfg s w) ?_
    rintro r w' ⟨hw, -, hend⟩
    refine ⟨hw, fun ret s' hr hret => ?_⟩
    cases hend ret s' hr with
    | loaded e _ hlook =>
      have hself : s.loaded (-1) e = calculate (s.load e) := by
        have h : s.setLock (-1) = s := by rw [← hs.lock, State.setLock_self]
        rw [State.loaded, h]
      exact ⟨-1, e, hself.symm, hself ▸ .inl rfl, rfl, fun _ => rfl, hlook⟩
    | failed _ _ hne => exact absurd hret (hfailed hne)

theorem agentStateInit_spec (ha : a.s = none) (hnew : a.newState = false) (lock : Bool) :
    wp (Sys.exec me) (agentStateInit cfg a true lock) (fun r w' => w'.Keeps w ∧
      ∀ ret a', r = some (ret, a') → InitEnd cfg a w lock ret a') w := by
  have hassert : a.s.isNone = true := by rw [ha]; rfl
  rw [agentStateInit, assert, if_pos hassert, ret_bind]
  refine wp_quiet_seq (pppStateInit_sat a.named a.username) Sys.Calm.quiet (.refl w)
    (fun w1 hw1 _ => ⟨hw1, by simp⟩) fun r w1 hr hw1 => ?_
  rcases hr with rfl | ⟨s, rfl, hs⟩
  · refine ⟨hw1, ?_⟩
    rintro _ _ ⟨rfl, rfl⟩
    exact .failed stateNomem (by simp)
  simp only [Bool.true_eq_false, if_false, setNewState_false hnew]
  refine wp_seq (pppStateLoad_fresh hs lock (w := w1)) (fun w2 h2 => ⟨h2.1.trans hw1, by simp⟩) ?_
  rintro ⟨ret, s1⟩ w2 ⟨hw2, hload⟩
  by_cases hret : ret = 0 ∨ ret = stateNumspace
  · obtain ⟨fd, e, rfl, hl, -, hfree, hlook⟩ := hload ret s1 rfl hret
    simp only
    rw [if_pos hret]
    refine ⟨hw2.trans hw1, ?_⟩
    rintro _ _ ⟨rfl, rfl⟩
    rw [hw1.file] at hlook
    exact .held s fd e hs hlook hl hfree
  · simp only
    rw [if_neg hret, setS_none ha]
    refine wp_quiet_seq (stateFini_sat s1) Sys.Calm.quiet (hw2.trans hw1)
      (fun w3 hw3 _ => ⟨hw3, by simp⟩) fun _ w3 _ hw3 => ⟨hw3, ?_⟩
    rintro _ _ ⟨rfl, rfl⟩
    exact .failed ret (not_or.mp hret).1

/-! ## The change between -/

/-- The rule for a setter: `k` works on the state that is being created, or on
the stored entry read again. -/
theorem wp_atomical (hok : a.Ok) (hl : a.locked = false)
    {k : Agent → State → SysM (ℕ × Agent)} {Q : Option (ℕ × Agent) → World → Prop}
    (habort : ∀ w', w'.Keeps w → Q none w')
    (hcreated : ∀ s, a.newState = true → a.s = some s → wp (Sys.exec me) (k a s) Q w)
    (hfail : a.newState = false → ∀ ret w', ret ≠ 0 → w'.Keeps w → Q (some (ret, a.setS none)) w')
    (hstored : a.newState = false → ∀ (s : State) lock e w', s.Fresh a.username →
      dbLookup (w.file (dbLoc cfg a.username)) a.username = some e → (s.loaded lock e).LockOk →
      w'.Keeps w → wp (Sys.exec me) (k (a.setS (some (s.loaded lock e))) (s.loaded lock e)) Q w') :
    wp (Sys.exec me) (atomical cfg a k) Q w := by
  cases hnew : a.newState with
  | true =>
    obtain ⟨s, hs⟩ := hok.created hnew
    rw [atomical, agentStateInitAtomical_created hnew hs, ret_bind]
    simp only [ne_eq, not_true_eq_false, if_false, hs]
    exact hcreated s hnew hs
  | false =>
    rw [atomical, agentStateInitAtomical_stored hok hl hnew]
    refine wp_seq (agentStateInit_spec (a := a.setS none) rfl hnew true)
      (fun w1 h1 => habort w1 h1.1) ?_
    rintro ⟨ret, a1⟩ w1 ⟨hw1, hend⟩
    cases hend ret a1 rfl with
    | failed _ hret =>
      simp only
      rw [if_pos hret]
      exact hfail hnew ret w1 hret hw1
    | held s lock e hs hlook hlock _ => exact hstored hnew s lock e w1 hs hlook hlock hw1

/-- How a setter ends whose change is `C`. -/
inductive SetterEnd (cfg : Cfg) (a : Agent) (C : State → ℕ → State → Prop) (w : World)
    (r : Option (ℕ × Agent)) (w' : World) : Prop where
  | created (s s' : State) (ret : ℕ) (hnew : a.newState = true) (hs : a.s = some s)
      (hC : C s ret s') (hb : s.Beside s') (hw : w'.Keeps w) (hr : r = some (ret, a.setS (some s')))
  | failed (hw : w'.Keeps w)
      (hr : ∀ ret a', r = some (ret, a') → a.newState = false ∧ ret ≠ 0 ∧ a' = a.setS none)
  | kept (s s' : State) (lock : ℤ) (e : Entry) (ret : ℕ) (hnew : a.newState = false)
      (hs : s.Fresh a.username)
      (hlook : dbLookup (w.file (dbLoc cfg a.username)) a.username = some e)
      (hC : C (s.loaded lock e) ret s') (hb : (s.loaded lock e).Beside s') (hw : w'.Keeps w)
      (hr : ∀ ret a', r = some (ret, a') →
        ret ≠ 0 ∧ ∃ lock, (s'.setLock lock).LockOk ∧ a' = a.setS (some (s'.setLock lock)))
  | stored (s s' : State) (lock : ℤ) (e : Entry) (hnew : a.newState = false)
      (hs : s.Fresh a.username) (hC : C (s.loaded lock e) 0 s')
      (hb : (s.loaded lock e).Beside s') (h : Replaced cfg a.username e s'.entry w w')
      (hr : ∀ ret a', r = some (ret, a') → (w.AllOk → ret = 0) ∧
        ∃ lock, (s'.setLock lock).LockOk ∧ a' = a.setS (some (s'.setLock lock)))

/-- Finalising a stored state after its change. -/
theorem agentStateFiniAtomical_spec {C : State → ℕ → State → Prop} {s s' : State} {lock : ℤ}
    {e : Entry} {ret : ℕ} {w1 : World} (hnew : a.newState = false) (hs : s.Fresh a.username)
    (hlook : dbLookup (w.file (dbLoc cfg a.username)) a.username = some e)
    (hlock : (s.loaded lock e).LockOk) (hC : C (s.loaded lock e) ret s')
    (hb : (s.loaded lock e).Beside s') (hw1 : w1.Keeps w) :
    wp (Sys.exec me) (agentStateFiniAtomical cfg ((a.setS (some (s.loaded lock e))).setS (some s')) ret)
      (SetterEnd cfg a C w) w1 := by
  have hlock' : s'.LockOk := by
    rw [State.LockOk, hb.lock]
    exact hlock
  have hkey : s'.newKey = false := hb.newKey.trans hs.newKey
  have hself (s'' : State) : (((a.setS (some (s.loaded lock e))).setS (some s')).setS
      (some s'')).setNewState false = a.setS (some s'') := setNewState_false (a := a.setS (some s'')) hnew
  have hkept {w2 : World} (hw2 : w2.Keeps w) {r : Option (ℕ × Agent)}
      (hr : ∀ ret a', r = some (ret, a') → ret ≠ 0 ∧
        ∃ lock, (s'.setLock lock).LockOk ∧ a' = a.setS (some (s'.setLock lock))) :
      SetterEnd cfg a C w r w2 := .kept s s' lock e ret hnew hs hlook hC hb hw2 hr
  have hreplaced {w2 : World} (h : Updated cfg s' false w w2) :
      Replaced cfg a.username e s'.entry w w2 :=
    ⟨hlook, s', hb.username.trans hs.username, rfl, h⟩
  rw [agentStateFiniAtomical, if_neg (by simp [hnew, Agent.setS])]
  by_cases hret : ret = 0
  · -- the change succeeded: it is stored
    subst hret
    rw [if_pos rfl]
    have hrelease := @pppStateRelease_ends cfg (w1.uid me) False s' True (fun _ => trivial)
      { store := true, unlock := true } (by simp) rfl rfl (fun _ => hkey) hlock'
    simp only [agentStateFini, assert, Bool.false_eq_true, and_false, not_false_eq_true, if_true,
      ret_bind, Agent.setS]
    refine wp_seq (wp_and (pppStateRelease_spec me cfg s' { store := true, unlock := true } rfl w1)
      (wp_ends hrelease)) ?_ ?_
    · rintro w2 ⟨h2, -⟩
      cases h2.of_keeps hw1 with
      | stored h hr => exact .stored s s' lock e hnew hs hC hb (hreplaced h) (by simp)
      | kept h hr => exact hkept h (by simp)
    · rintro ⟨ret2, s2⟩ w2 ⟨h2, hs2⟩
      obtain ⟨lock2, h, hl2, -⟩ := hs2 _ rfl
      simp only at h
      subst h
      cases h2.of_keeps hw1 with
      | kept h hr =>
        refine hkept h ?_
        rintro _ _ ⟨rfl, rfl⟩
        exact ⟨(hr _ _ rfl).1, lock2, hl2, hself _⟩
      | stored h hr =>
        refine .stored s s' lock e hnew hs hC hb (hreplaced h) ?_
        rintro _ _ ⟨rfl, rfl⟩
        exact ⟨(hr _ _ rfl).1, lock2, hl2, hself _⟩
  · -- the change was refused: only the lock is given back
    rw [if_neg hret]
    have hrelease := @pppStateRelease_ends cfg (w1.uid me) False s' True (fun _ => trivial)
      { unlock := true } (by simp) rfl rfl (by simp) hlock'
    simp only [agentStateFini, assert, Bool.false_eq_true, and_false, not_false_eq_true, if_true,
      ret_bind, Agent.setS]
    refine wp_seq (P := fun r w2 => w2.Keeps w ∧ ∀ q a', r = some (q, a') →
        ∃ lock, (s'.setLock lock).LockOk ∧ a' = a.setS (some (s'.setLock lock))) ?_
      (fun w2 h2 => hkept h2.1 (by simp)) ?_
    · refine wp_seq (wp_and (wp_quiet (@pppStateRelease_sat _ _ w.AllOk s') Sys.Calm.quiet hw1)
        (wp_ends hrelease)) (fun w2 h2 => ⟨h2.1.1, by simp⟩) ?_
      rintro ⟨ret2, s2⟩ w2 ⟨⟨hw2, -⟩, hs2⟩
      obtain ⟨lock2, h, hl2, -⟩ := hs2 _ rfl
      simp only at h
      subst h
      refine ⟨hw2, ?_⟩
      rintro _ _ ⟨rfl, rfl⟩
      exact ⟨lock2, hl2, hself _⟩
    · rintro ⟨q, a'⟩ w2 ⟨hw2, ha'⟩
      refine hkept hw2 ?_
      rintro _ _ ⟨rfl, rfl⟩
      exact ⟨hret, ha' q a' rfl⟩

/-- A setter whose change makes no call that matters. -/
theorem atomically_spec (hok : a.Ok) (hl : a.locked = false) {change : State → SysM (ℕ × State)}
    {C : State → ℕ → State → Prop}
    (hchange : ∀ s uid ok, (change s).Sat (Sys.Answers uid ok) Sys.Calm (fun _ => True)
      (fun r => C s r.1 r.2 ∧ s.Beside r.2)) :
    wp (Sys.exec me) (atomically cfg a change) (SetterEnd cfg a C w) w := by
  have hstopped {w1 : World} (hw1 : w1.Keeps w) : SetterEnd cfg a C w none w1 :=
    .failed hw1 (by simp)
  rw [atomically_eq]
  refine wp_atomical hok hl (fun _ => hstopped) ?_ ?_ ?_
  · intro s hnew hs
    refine wp_quiet_seq (hchange s _ _) Sys.Calm.quiet (.refl w) (fun _ hw1 _ => hstopped hw1) ?_
    rintro ⟨ret, s'⟩ w1 ⟨hC, hb⟩ hw1
    rw [agentStateFiniAtomical, if_pos (by exact hnew), assert, if_pos (by rfl), ret_bind]
    exact .created s s' ret hnew hs hC hb hw1 rfl
  · intro hnew ret w1 hret hw1
    refine .failed hw1 ?_
    rintro _ _ ⟨rfl, rfl⟩
    exact ⟨hnew, hret, rfl⟩
  · intro hnew s lock e w1 hs hlook hlock hw1
    refine wp_quiet_seq (hchange _ _ _) Sys.Calm.quiet hw1 (fun _ hw2 _ => hstopped hw2) ?_
    rintro ⟨ret, s'⟩ w2 ⟨hC, hb⟩ hw2
    exact agentStateFiniAtomical_spec hnew hs hlook hlock hC hb hw2

end

end Otpasswd
