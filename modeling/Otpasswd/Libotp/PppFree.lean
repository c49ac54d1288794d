import Otpasswd.Libotp.PppLock

/-!
# Otpasswd.Libotp.PppFree — operations that bring their own state

A load that does not keep the lock, `ppp_failures` and `ppp_oob_time` on a
state of their own, and the generation of a key.

Main results: `pppUpdate_locks`.
-/

namespace Otpasswd

open CText Prog

section

variable {cfg : Cfg} {uid : Uid} {named : Bool} {ok : Prop} {s : State}

/-! ## Loading without keeping the lock -/

/-- How `ppp_state_load` without a lock ends; the lock that the load takes for
itself may be stuck after an error. -/
inductive ReadFree (s : State) : ℕ → State → Prop where
  | loaded (e : Entry) (hv : e.Valid) :
      ReadFree s (verifyRange (s.loaded (-1) e)) (s.loaded (-1) e)
  | failed (ret : ℕ) (s' : State) (hret : LoadError ret) (h : s.SameUser s') : ReadFree s ret s'

theorem dbFileLoad_locks {S : Prop} (hS : ¬ Runs cfg uid s.named → S) (hlock : s.lock = -1) :
    Locks uid S (NotHeld s) (fun _ r => (r.1 = 0 ∧ ∃ e : Entry, e.Valid ∧
      r.2 = (s.setLock (-1)).load e) ∨ LoadError r.1 ∧ s.SameUser r.2) (dbFileLoad cfg s) := by
  refine (dbPath_meets s.username).locks hS fun r hr => ?_
  rcases hr with rfl | ⟨ret, rfl, hret, -⟩
  swap
  · exact ⟨hret, rfl⟩
  refine (dbFilePermissions_sat _ _).locks hS fun ret hret => ?_
  by_cases hperm : ret ≠ 0
  · rw [if_pos hperm]
    exact ⟨⟨hperm, hret.1⟩, rfl⟩
  rw [if_neg hperm, if_pos (by omega)]
  refine (dbFileLock_locks hS hlock).bind ?_ ?_
  · rintro ⟨ret, s1⟩ ⟨hne, rfl⟩
    simp only
    rw [if_pos hne.1]
    exact ⟨hne, rfl⟩
  rintro ok _ ⟨fd, rfl⟩
  simp only
  rw [if_neg (by simp)]
  -- under its own lock the entry is read
  have hread := @dbFileRead_sat cfg uid (dbLoc cfg s.username) (s.setLock fd.val)
  refine (hread.ends hS).bind ?_
  rintro ⟨ret2, s2⟩ h2
  replace h2 : Read (s.setLock fd.val) ret2 s2 := h2
  have hlock2 : s2.lock = fd.val := by
    cases h2 with
    | loaded e hv => rfl
    | failed _ _ _ h => exact h.lock
  refine (dbFileUnlock_ends s2 (h2.sameUser.stops hS)).bind ?_
  rintro ⟨unlocked, s3⟩ hu
  simp only at hu ⊢
  have hsame : s2.SameUser s3 := by
    rcases hu with ⟨-, h, -⟩ | h <;> rw [h]
    · exact .refl _
    · exact s2.sameUser_setLock _
  cases h2 with
  | failed _ _ hne hb =>
    rw [if_neg (by simp [hne.1])]
    exact .inr ⟨hne, ((s.sameUser_setLock _).trans hb.toSameUser).trans hsame⟩
  | loaded e hv =>
    -- a load whose unlock fails reports that
    by_cases hunl : unlocked = 0
    · rw [if_neg (by simp [hunl])]
      rcases hu with ⟨hneg, -, -⟩ | h3
      · have hfd := fd.property
        have := hneg hunl
        omega
      · exact .inl ⟨rfl, e, hv, h3⟩
    · rw [if_pos ⟨hunl, rfl⟩]
      refine .inr ⟨by simp [LoadError], ?_⟩
      exact ((s.sameUser_setLock _).trans (State.sameUser_load _ e)).trans hsame

theorem pppStateRead_locks {S : Prop} (hS : ¬ Runs cfg uid s.named → S) (hlock : s.lock = -1) :
    Locks uid S (NotHeld s) (fun _ r => ReadFree s r.1 r.2) (pppStateRead cfg s) := by
  have hload : Locks uid S (NotHeld s) (fun _ r => (r.1 = 0 ∧ ∃ e : Entry, e.Valid ∧
      r.2 = (s.setLock (-1)).load e) ∨ LoadError r.1 ∧ s.SameUser r.2) (stateLoad cfg s) := by
    unfold stateLoad
    split
    · exact dbFileLoad_locks hS hlock
    · exact dbFileLoad_locks hS hlock
    · rename_i h1 h2
      exact hS fun h => h.db.elim h2 h1
  refine hload.bind ?_ ?_
  · rintro ⟨ret, s1⟩ ⟨hret, rfl⟩
    simp only
    rw [if_pos hret.1]
    exact ⟨hret, rfl⟩
  rintro ok ⟨ret, s1⟩ (⟨h0, e, hv, h⟩ | ⟨hret, h⟩)
  · simp only at h0 h ⊢
    rw [if_neg (not_not.mpr h0), h, pppCalculate_load _ hv]
    exact .loaded e hv
  · simp only at hret h ⊢
    rw [if_pos hret.1]
    exact .failed ret s1 hret h

theorem ReadFree.sameUser {s s' : State} {ret : ℕ} (h : ReadFree s ret s') : s.SameUser s' := by
  cases h with
  | loaded e => exact ⟨rfl, rfl, rfl, rfl, rfl⟩
  | failed _ _ _ h => exact h

/-- What `ppp_increment` or `ppp_skip` reads under the lock does not pass its
checks, if it reads anything. -/
def LoadRefused (cfg : Cfg) (me : Pid) (s : State) (w : World) (last : State → ℕ) : Prop :=
  ∀ s' w', (pppStateLoad cfg s {}).run (Sys.exec me) w = (some (0, s'), w') →
    verdict cfg s' (last s') ≠ 0

/-- A new key does not stop `ppp_increment` and `ppp_skip` as long as the
stored entry does not pass their checks. -/
theorem counterOp_refused {me : Pid} {w : World} {last : State → ℕ}
    (hruns : Runs cfg (w.uid me) s.named) (hlock : s.lock = -1) (hno : LoadRefused cfg me s w last)
    (hcopied : Copied me (pppStateLoad cfg s {}) w) (upd : State → State) (fin : State → State → State) :
    StopsFor (Sys.exec me) (Stops False True) (counterOp cfg s last upd fin) w ∧
      wp (Sys.exec me) (counterOp cfg s last upd fin)
        (fun r _ => ∀ ret s', r = some (ret, s') → ret ≠ 0) w := by
  have hstop {why : Stop} (h : Stops (¬ Runs cfg (w.uid me) s.named) True why) : Stops False True why :=
    Stops.mono (absurd hruns) id why h
  have hload := ((@pppStateLoad_locks cfg (w.uid me) s _ id hlock).stopsFor hcopied).mono
    (Stops.mono id fun _ => trivial)
  -- what follows the load
  have hrest : wp (Sys.exec me) (pppStateLoad cfg s {}) (fun r w1 => w1.uid = w.uid ∧
      ∀ ret s1, r = some (ret, s1) → ret ≠ 0 ∨ (s1.named = s.named ∧ pppStateVerify cfg s1 = .ret
        (if StateOk cfg s1 then 0 else pppErrorPolicy) ∧ verdict cfg s1 (last s1) ≠ 0)) w := by
    refine wp_mono (wp_and (pppStateLoad_spec me cfg s w) wp_run) ?_
    rintro r w1 ⟨⟨hw1, -, hend⟩, hrun⟩
    refine ⟨hw1.uid, ?_⟩
    rintro ret s1 rfl
    cases hend ret s1 rfl with
    | exhausted lock e _ hrange => exact .inl hrange
    | failed _ _ hret => exact .inl hret.1
    | loaded fd e _ hlook hrange =>
      have hv := dbLookup_valid hlook
      have hcodes := calculate_codesOnCard (s := (s.setLock fd.val).load e) hv.codeLength_ge
        hv.codeLength_le
      exact .inr ⟨rfl, pppStateVerify_eq hcodes, hno _ _ hrun⟩
  constructor
  · refine stopsFor_seq (hload.mono fun _ => hstop) (wp_mono hrest ?_)
    rintro r w1 ⟨huid, hr⟩ ⟨ret, s1⟩ rfl
    simp only
    by_cases hret : ret ≠ 0
    · rw [if_pos hret]
      exact stopsFor_ret _
    obtain ⟨hnamed, hverify, hverdict⟩ := (hr ret s1 rfl).resolve_left hret
    rw [if_neg hret, hverify, ret_bind]
    change StopsFor _ _ (if verdict cfg s1 (last s1) ≠ 0 then _ else _) w1
    rw [if_pos hverdict]
    have hends : Risks cfg (w.uid me) s1.named False Sys.Calm (fun _ => True)
        (pppStateRelease cfg s1 { unlock := true } >>= fun r =>
          (pure (verdict cfg s1 (last s1), r.2) : SysM (ℕ × State))) :=
      (pppStateRelease_sat s1).bind fun _ _ => trivial
    rw [hnamed] at hends
    exact (Sat.stopsFor (I := fun w' => w'.uid = w.uid) (fun c w' _ => exec_told_of me w c w')
      (fun c w' _ => exec_uid_of me w c w') hends huid).mono fun _ h =>
        hstop (Stops.mono id (fun _ => trivial) _ h)
  · refine wp_seq hrest (fun _ _ _ _ h => absurd h.symm (Option.some_ne_none _)) ?_
    rintro ⟨ret, s1⟩ w1 ⟨-, hr⟩
    simp only
    by_cases hret : ret ≠ 0
    · rw [if_pos hret]
      rintro _ _ ⟨rfl, rfl⟩
      exact hret
    obtain ⟨-, hverify, hverdict⟩ := (hr ret s1 rfl).resolve_left hret
    rw [if_neg hret, hverify, ret_bind]
    change wp _ (if verdict cfg s1 (last s1) ≠ 0 then _ else _) _ _
    rw [if_pos hverdict]
    refine wp_seq (P := fun _ _ => True) trivial (fun _ _ _ _ h =>
      absurd h.symm (Option.some_ne_none _)) ?_
    rintro r w2 - _ _ ⟨rfl, rfl⟩
    exact hverdict

end

/-! ## Operations on a state of their own -/

/-- What the library asserts about its configuration and its caller. -/
structure Configured (cfg : Cfg) (uid : Uid) : Prop extends Runs cfg uid true where
  defLength : 2 ≤ cfg.passcodeDefLength ∧ cfg.passcodeDefLength ≤ 16

theorem configRoot_configured : Configured configRoot 0 where
  name := rfl
  db := .inl rfl
  caller := .inl rfl
  defLength := by decide

section

variable {cfg : Cfg} {uid : Uid} {ok S : Prop}

theorem Configured.stops {named : Bool} (hS : ¬ Configured cfg uid → S) (hn : named = true ∨ S)
    (h : ¬ Runs cfg uid named) : S := by
  rcases hn with rfl | hn
  · exact hS fun hc => h hc.toRuns
  · exact hn

/-- A new state for `u`, whose name was copied unless `S`. -/
def State.Begun (S : Prop) (u : CString) (s : State) : Prop :=
  s.Fresh u ∧ (s.named = true ∨ S)

theorem stateInit_free {named : Bool} (hS : ¬ Configured cfg uid → S) (hn : named = true ∨ S)
    (junk : Junk) (u : CString) :
    Free uid S (State.Begun S u) (stateInit cfg junk (namePtr named u)) := by
  cases named with
  | false => exact hn.resolve_left Bool.false_ne_true
  | true =>
    refine (sat_assert_bind _).mpr ⟨fun _ => ?_, fun h => hS fun hc => h hc.defLength⟩
    exact ⟨⟨trivial, id⟩, fun copied hx =>
      ⟨(State.initial_fresh cfg junk u).setNamed copied, hx.2⟩⟩

theorem pppStateInit_free {named : Bool} (hS : ¬ Configured cfg uid → S) (hn : named = true ∨ S)
    (u : CString) :
    Free uid S (fun r => r = .error stateNomem ∨ ∃ s, r = .ok s ∧ s.Begun S u)
      (pppStateInit cfg (namePtr named u)) := by
  refine (sat_issue_bind _).mpr ⟨⟨trivial, id⟩, fun junk _ => ?_⟩
  rcases junk with _ | junk
  · exact .inl rfl
  · exact (stateInit_free hS hn junk u).bind fun s hs => .inr ⟨s, rfl, hs⟩

/-- The update of a second state leaves nothing behind in memory. -/
theorem pppUpdate_locks {named : Bool} (hS : ¬ Configured cfg uid → S) (hn : named = true ∨ S)
    (u : CString) (change : State → SysM State)
    (hchange : ∀ s, Meets cfg uid s.named False Sys.Calm
      (fun s' => s'.lock = s.lock ∧ s'.newKey = s.newKey ∧ s'.named = s.named) (change s)) :
    Locks uid S (fun _ => True) (fun _ _ => True) (pppUpdate cfg (namePtr named u) change) := by
  refine (pppStateInit_free hS hn u).locks ?_
  rintro _ (rfl | ⟨s, rfl, hs, hcopied⟩)
  · trivial
  have hruns := Configured.stops hS hcopied
  refine (pppStateLoad_locks hruns hs.lock).bind ?_ ?_
  · rintro ⟨ret, s1⟩ ⟨hret, rfl⟩
    simp only
    rw [if_pos hret.1, stateFini_unlocked hs.lock]
    trivial
  rintro ok ⟨ret, s1⟩ hr
  replace hr : LoadHeld ok s ret s1 := hr
  simp only
  by_cases hret : ret ≠ 0
  · rw [if_pos hret]
    exact (stateFini_ends s1 (hr.sameUser.stops hruns)).bind fun _ _ => trivial
  rw [if_neg hret]
  have hruns1 := hr.sameUser.stops hruns
  obtain ⟨hlock, hnew⟩ : 0 < s1.lock ∧ s1.newKey = false := by
    cases hr with
    | loaded fd e =>
      have hfd : (0 : ℤ) < fd.val := by
        have := fd.property
        omega
      exact ⟨hfd, hs.newKey⟩
    | exhausted lock e hv hrange => exact absurd hrange hret
    | failed _ _ hne => exact absurd hne.1 hret
  refine ((hchange s1).ends hruns1).bind fun s2 hs2 => ?_
  obtain ⟨hlock', hnew', hnamed'⟩ := hs2
  have hlock2 : 0 < s2.lock := hlock'.symm ▸ hlock
  have hruns2 : ¬ Runs cfg uid s2.named → S := hnamed' ▸ hruns1
  refine (pppStateRelease_ends hruns2 _ (by simp) rfl rfl (fun _ => hnew'.trans hnew)
    (.inr hlock2)).bind ?_
  rintro ⟨ret2, s3⟩ ⟨lock, h3, -⟩
  simp only at h3
  subst h3
  exact (stateFini_ends (s2.setLock lock) hruns2).bind fun _ _ => trivial

end

/-! ## New keys -/

/-- The state with the key that `state_key_generate` makes of the random bytes
of `pool`. -/
def State.generated (crypto : Crypto) (pool : List Byte) (s : State) : State :=
  if s.flags &&& flagSalted = 0 then
    { s with
      sequenceKey := crypto.sha256 pool
      counter := numI 0
      latestCard := numI 0
      flags := s.flags &&& ~~~flagSalted
      newKey := true }
  else
    { s with
      sequenceKey := crypto.sha256 (pool.take 512)
      counter := numAnd (numImportBin (crypto.sha256 (pool.drop 512)).val) s.saltMask
      latestCard := numI 0
      flags := s.flags ||| flagSalted
      newKey := true }

/-- The load by which `ppp_key_generate` looks for a key of the user. -/
def keyLoad (cfg : Cfg) (u : Option CString) : SysM ℕ := do
  let tmp ← stateInit cfg (← sys .stackState) u
  let (retval, tmp) ← pppStateLoad cfg tmp { dontLock := true }
  stateFini cfg tmp
  return retval

section

variable {crypto : Crypto} {cfg : Cfg} {s : State}

theorem State.generated_lock (pool : List Byte) : (s.generated crypto pool).lock = s.lock := by
  unfold State.generated
  split_ifs <;> rfl

theorem stateKeyGenerate_sat {uid : Uid} {ok : Prop} :
    (stateKeyGenerate crypto s).Sat (Sys.Answers uid ok) Sys.Calm (fun _ => False)
      (fun r => r.1 ≠ 0 ∧ r.2 = s ∨ ∃ pool, r = (0, s.generated crypto pool)) := by
  refine (sat_issue_bind _).mpr ⟨⟨trivial, id⟩, fun real _ => ?_⟩
  rcases real with _ | real
  · exact .inl ⟨one_ne_zero, rfl⟩
  refine (sat_issue_bind _).mpr ⟨⟨trivial, id⟩, fun pseudo _ => ?_⟩
  rcases pseudo with _ | pseudo
  · exact .inl ⟨one_ne_zero, rfl⟩
  simp only [pure_eq_ret]
  by_cases hsalt : s.flags &&& flagSalted = 0
  · rw [if_pos hsalt]
    refine .inr ⟨real.val ++ pseudo.val, ?_⟩
    rw [State.generated, if_pos hsalt]
  · rw [if_neg hsalt]
    refine .inr ⟨real.val ++ pseudo.val, ?_⟩
    rw [State.generated, if_neg hsalt]

theorem pppKeyGenerate_eq (flags : PppOptions) (hlock : s.lock = -1) :
    pppKeyGenerate crypto cfg s flags =
      if flags.checkPolicy = true ∧ cfg.keyRegeneration = configDisallow then
        keyLoad cfg s.name >>= fun retval =>
          if retval = 0 then .ret (pppErrorPolicy, s) else stateKeyGenerate crypto s
      else stateKeyGenerate crypto s := by
  rw [pppKeyGenerate, assert, if_pos hlock, ret_bind]
  by_cases hpolicy : flags.checkPolicy = true ∧ cfg.keyRegeneration = configDisallow
  · rw [if_pos hpolicy, if_pos hpolicy]
    simp only [keyLoad, LawfulMonad.bind_assoc, pure_eq_ret, ret_bind]
    refine congrArg _ (funext fun junk => congrArg _ (funext fun tmp => congrArg _
      (funext fun r => congrArg _ (funext fun _ => ?_))))
    by_cases hret : r.1 = 0
    · rw [if_pos hret, if_pos hret, if_pos (by simp)]
    · rw [if_neg hret, if_neg hret, if_neg (by simp)]
  · rw [if_neg hpolicy, if_neg hpolicy]
    rfl

end

end Otpasswd
