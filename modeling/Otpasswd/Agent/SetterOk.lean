import Otpasswd.Agent.Stored
import Otpasswd.Libotp.PppOk

/-!
# Otpasswd.Agent.SetterOk — setters when no call fails

`_state_init` with a lock reads a key that has run out as well, but gives the
lock back; what is to be stored after that is refused.

Main results: `agentStateInit_ok`, `atomically_ok`, `atomically_exhausted`,
`stateLoad_loads` and `Handling.stores`.
-/

namespace Otpasswd

open CText Prog

section

variable {cfg : Cfg} {me : Pid} {a : Agent} {s : State} {e : Entry} {w : World}

/-! ## Initialising -/

theorem pppStateInit_ok (hs : w.Serves cfg me)
    (hdef : 2 ≤ cfg.passcodeDefLength ∧ cfg.passcodeDefLength ≤ 16) (u : CString) :
    wp (Sys.exec me) (pppStateInit cfg (some u))
      (fun r w' => ∃ s : State, r = some (.ok s) ∧ s.Fresh u ∧ s.named = true ∧ w'.Rests w) w := by
  have hsat : (pppStateInit cfg (some u)).Sat (Sys.Succeeds cfg (w.uid me) w.present) Sys.Steady
      (fun _ => False) (fun r => ∃ s : State, r = .ok s ∧ s.Fresh u ∧ s.named = true) := by
    refine (sat_issue_bind _).mpr ⟨trivial, fun junk hjunk => ?_⟩
    obtain ⟨junk, rfl⟩ := Option.isSome_iff_exists.mp hjunk
    refine Sat.bind (V := fun s : State => s.Fresh u ∧ s.named = true) ?_ fun s h => ⟨s, rfl, h⟩
    refine (sat_assert_bind _).mpr ⟨fun _ => ?_, fun h => h hdef⟩
    exact ⟨trivial, fun named hnamed =>
      ⟨(State.initial_fresh cfg junk u).setNamed named, hnamed⟩⟩
  refine wp_mono (wp_steady hsat hs (.refl w)) ?_
  rintro _ w' ⟨_, rfl, ⟨s, rfl, hfresh, hn⟩, hw'⟩
  exact ⟨s, rfl, hfresh, hn, hw'⟩

/-- The range check of a key that can be loaded. -/
theorem loaded_verifyRange_numspace {fd : ℤ} (hmask : s.codeMask = codeMask) (hv : e.Valid)
    (hmax : e.counter.toNat ≤ maxCounter.toNat) (hrange : ¬ e.InRange) :
    verifyRange (s.loaded fd e) = stateNumspace := by
  have hne : verifyRange (s.loaded fd e) ≠ 0 := fun h =>
    hrange ((loaded_verifyRange s fd e hmask hv).mp h)
  revert hne
  simp only [verifyRange, loaded_counter, numCmp_pos_iff, Nat.not_lt.mpr hmax, if_false]
  split_ifs with hspent
  · exact fun _ => rfl
  · exact fun h => absurd rfl h

/-- What `_state_init` with a lock has when it returns: the state loaded, and
the lock unless the key has run out. -/
theorem agentStateInit_ok (hs : w.Serves cfg me) (hfree : w.Free)
    (hdef : 2 ≤ cfg.passcodeDefLength ∧ cfg.passcodeDefLength ≤ 16) (hn : a.named = true)
    (ha : a.s = none)
    (hnew : a.newState = false)
    (he : dbLookup (w.file (dbLoc cfg a.username)) a.username = some e)
    (hmax : e.counter.toNat ≤ maxCounter.toNat) :
    wp (Sys.exec me) (agentStateInit cfg a true true) (fun r w' => w'.Keeps w ∧
      ∃ (s : State) (fd : Fd), s.Fresh a.username ∧ s.named = true ∧
        (e.InRange ∧ r = some (0, a.setS (some (s.loaded fd.val e))) ∧ w'.Holds me fd.val ∨
          ¬ e.InRange ∧ r = some (0, a.setS (some ((s.loaded fd.val e).setLock (-1)))) ∧
            w'.Free)) w := by
  have hassert : a.s.isNone = true := by rw [ha]; rfl
  rw [agentStateInit, assert, if_pos hassert, ret_bind, Agent.name_eq hn]
  refine wp_seq (pppStateInit_ok hs hdef a.username) (by simp) ?_
  rintro _ w1 ⟨s, hr, hfresh, hnamed, hw1⟩
  obtain rfl := Option.some.inj hr
  simp only [Bool.true_eq_false, if_false, setNewState_false hnew]
  rw [← hw1.file, ← hfresh.username] at he
  have hv := dbLookup_valid he
  refine wp_seq (pppStateLoad_ok (hw1.serves hs) hnamed (hw1.free hfree) hfresh.lock he) (by simp) ?_
  rintro ⟨ret, s1⟩ w2 ⟨hw2, fd, ⟨hzero, hr, hholds⟩ | ⟨hne, hr, hfree2⟩⟩
  · obtain ⟨rfl, rfl⟩ := Prod.mk.inj (Option.some.inj hr)
    have hrange := (loaded_verifyRange s fd.val e hfresh.codeMask hv).mp hzero
    exact ⟨hw2.trans hw1.toKeeps, s, fd, hfresh, hnamed, .inl ⟨hrange, rfl, hholds⟩⟩
  · obtain ⟨rfl, rfl⟩ := Prod.mk.inj (Option.some.inj hr)
    have hrange : ¬ e.InRange := fun h =>
      hne ((loaded_verifyRange s fd.val e hfresh.codeMask hv).mpr h)
    simp only [loaded_verifyRange_numspace hfresh.codeMask hv hmax hrange]
    exact ⟨hw2.trans hw1.toKeeps, s, fd, hfresh, hnamed, .inr ⟨hrange, rfl, hfree2⟩⟩

/-! ## Finalising -/

/-- A state that is not locked is not stored. -/
theorem pppStateRelease_unlocked (flags : PppOptions) (hcheck : flags.checkPolicy = false)
    (hflags : flags.store = !flags.remove) (hs : w.Serves cfg me) (hn : s.named = true)
    (hnew : s.newKey = false) (hlock : s.lock = -1) :
    wp (Sys.exec me) (pppStateRelease cfg s flags) (fun r _ => r = some (2, s)) w := by
  have hstore : pppReleaseStore cfg s flags = .ret (2, s) := by
    have hrefused (remove : Bool) : stateStore cfg s remove = .ret (2, s) := by
      rw [stateStore, assert, if_pos (by simp [hnew]), ret_bind, if_neg (by simp [hnew]),
        if_pos (by omega)]
      rfl
    rw [pppReleaseStore, hflags]
    cases flags.remove with
    | false => exact hrefused false
    | true => exact hrefused true
  rw [pppStateRelease, wp_assert_bind, if_pos (by rw [hflags]; simp), if_neg (by simp [hcheck]),
    hstore, ret_bind]
  simp only [pppReleaseUnlock]
  refine wp_seq (P := fun r _ => r = some (0, s)) ?_ (by simp) ?_
  · by_cases hunlock : flags.unlock = true
    · rw [if_pos hunlock]
      exact wp_mono (stateUnlock_unlocked hs hn hlock) fun _ _ h => h.1
    · rw [if_neg hunlock]
      rfl
  · rintro _ w1 hr
    obtain rfl := Option.some.inj hr
    rfl

/-- `_state_fini_atomical` after a change, under the lock. -/
theorem agentStateFiniAtomical_ok (hs : w.Serves cfg me) (hn : s.named = true)
    (ha : a.s = some s) (hnew : a.newState = false) (hkey : s.newKey = false) (hholds : w.Holds me s.lock)
    (hcopy : CopyableFile s.username (w.file (dbLoc cfg s.username)))
    (hu : ReadableName s.username) :
    wp (Sys.exec me) (agentStateFiniAtomical cfg a 0)
      (fun r w' => ∃ s', r = some (0, a.setS (some s')) ∧ s'.lock = -1 ∧ w'.Done w) w := by
  rw [agentStateFiniAtomical, if_neg (by simp [hnew]), if_pos rfl]
  simp only [agentStateFini, assert, Bool.false_eq_true, and_false, not_false_eq_true, if_true,
    ret_bind, ha]
  refine wp_seq (pppStateRelease_ok { store := true, unlock := true } rfl rfl rfl hs hn hkey hholds
    hcopy (generates_of_readable hu)) (by simp) ?_
  rintro _ w1 ⟨hr, hw1⟩
  obtain rfl := Option.some.inj hr
  have hself := @setNewState_false (a.setS (some ((s.setNewKey false).setLock (-1)))) hnew
  exact ⟨(s.setNewKey false).setLock (-1), congrArg (fun a' => some (0, a')) hself, rfl, hw1⟩

theorem agentStateFiniAtomical_unlocked (hs : w.Serves cfg me) (hn : s.named = true)
    (ha : a.s = some s) (hnew : a.newState = false) (hkey : s.newKey = false) (hlock : s.lock = -1) :
    wp (Sys.exec me) (agentStateFiniAtomical cfg a 0)
      (fun r _ => ∃ a', r = some (2, a') ∧ a'.sent = a.sent) w := by
  rw [agentStateFiniAtomical, if_neg (by simp [hnew]), if_pos rfl]
  simp only [agentStateFini, assert, Bool.false_eq_true, and_false, not_false_eq_true, if_true,
    ret_bind, ha]
  refine wp_seq (pppStateRelease_unlocked { store := true, unlock := true } rfl rfl hs hn hkey hlock)
    (by simp) ?_
  rintro _ w1 hr
  obtain rfl := Option.some.inj hr
  exact ⟨_, rfl, rfl⟩

/-! ## Setters -/

/-- A stored key is changed. -/
theorem atomically_ok {change : State → SysM (ℕ × State)} (hs : w.Serves cfg me) (hfree : w.Free)
    (hdef : 2 ≤ cfg.passcodeDefLength ∧ cfg.passcodeDefLength ≤ 16) (hok : a.Ok)
    (hn : a.named = true) (hl : a.locked = false) (hnew : a.newState = false)
    (he : dbLookup (w.file (dbLoc cfg a.username)) a.username = some e) (hrange : e.InRange)
    (hcopy : CopyableFile a.username (w.file (dbLoc cfg a.username)))
    (hchange : ∀ (s : State) lock, s.Fresh a.username →
      ∃ s', change (s.loaded lock e) = .ret (0, s') ∧ (s.loaded lock e).Beside s') :
    wp (Sys.exec me) (atomically cfg a change)
      (fun r w' => ∃ s', r = some (0, a.setS (some s')) ∧ s'.lock = -1 ∧ w'.Done w) w := by
  have hu := dbLookup_readable he
  rw [atomically, agentStateInitAtomical_stored hok hl hnew]
  refine wp_seq (agentStateInit_ok (a := a.setS none) hs hfree hdef hn rfl hnew he hrange.1)
    (by simp) ?_
  rintro ⟨ret, a1⟩ w1 ⟨hw1, s, fd, hfresh, hnamed, ⟨-, hr, hholds⟩ | ⟨hspent, -⟩⟩
  swap
  · exact absurd hrange hspent
  obtain ⟨rfl, rfl⟩ := Prod.mk.inj (Option.some.inj hr)
  obtain ⟨s', hs', hb⟩ := hchange s fd.val hfresh
  have hname : s'.username = a.username := hb.username.trans hfresh.username
  have hagent : (a.setS none).setS (some (s.loaded fd.val e)) = a.setS (some (s.loaded fd.val e)) :=
    rfl
  rw [hagent]
  simp only [ne_eq, not_true_eq_false, if_false, Agent.setS, hs', ret_bind]
  have hholds' : w1.Holds me s'.lock := by
    rw [hb.lock]
    exact hholds
  have hcopy' : CopyableFile s'.username (w1.file (dbLoc cfg s'.username)) := by
    rw [hname, hw1.file]
    exact hcopy
  refine wp_mono (agentStateFiniAtomical_ok (hw1.serves hs) (hb.named.trans hnamed) rfl hnew
    (hb.newKey.trans hfresh.newKey) hholds' hcopy' (hname ▸ hu)) ?_
  rintro r w2 ⟨s2, hr, hlock, hw2⟩
  exact ⟨s2, hr, hlock, hw2.io.trans hw1.io, hw2.uid.trans hw1.uid, hw2.free⟩

/-- A key that has run out is not changed. -/
theorem atomically_exhausted {change : State → SysM (ℕ × State)} (hs : w.Serves cfg me)
    (hfree : w.Free) (hdef : 2 ≤ cfg.passcodeDefLength ∧ cfg.passcodeDefLength ≤ 16) (hok : a.Ok)
    (hn : a.named = true) (hl : a.locked = false) (hnew : a.newState = false)
    (he : dbLookup (w.file (dbLoc cfg a.username)) a.username = some e)
    (hmax : e.counter.toNat ≤ maxCounter.toNat) (hrange : ¬ e.InRange)
    (hchange : ∀ (s : State) lock, s.Fresh a.username →
      ∃ s', change (s.loaded lock e) = .ret (0, s') ∧ (s.loaded lock e).Beside s') :
    wp (Sys.exec me) (atomically cfg a change)
      (fun r _ => ∃ a', r = some (2, a') ∧ a'.sent = a.sent) w := by
  rw [atomically, agentStateInitAtomical_stored hok hl hnew]
  refine wp_seq (agentStateInit_ok (a := a.setS none) hs hfree hdef hn rfl hnew he hmax) (by simp) ?_
  rintro ⟨ret, a1⟩ w1 ⟨hw1, s, fd, hfresh, hnamed, ⟨hin, -⟩ | ⟨-, hr, hfree1⟩⟩
  · exact absurd hin hrange
  obtain ⟨rfl, rfl⟩ := Prod.mk.inj (Option.some.inj hr)
  obtain ⟨s', hs', hb⟩ := hchange s (-1) hfresh
  rw [loaded_setLock]
  simp only [ne_eq, not_true_eq_false, if_false, Agent.setS, hs', ret_bind]
  exact agentStateFiniAtomical_unlocked (hw1.serves hs) (hb.named.trans hnamed) rfl hnew
    (hb.newKey.trans hfresh.newKey) hb.lock

/-! ## Removing -/

theorem stateStore_removes {text : List Char} (hs : w.Serves cfg me) (hn : s.named = true)
    (hnew : s.newKey = false)
    (hlock : 0 < s.lock) (hfile : w.file (dbLoc cfg s.username) = some text)
    (hcopy : cfg.db = .user ∨ Copyable s.username text) :
    wp (Sys.exec me) (stateStore cfg s true)
      (fun r w' => r = some (0, s.setNewKey false) ∧ w'.Writes w) w := by
  rcases hcopy with hdb | hcopy
  · rw [stateStore, wp_assert_bind, if_pos (by simp [hnew]), if_neg (by simp [hnew]),
      if_neg (by omega)]
    simp only [stateWrite, hdb]
    refine wp_steady_seq (dbPath_ok (hs.runsFor hn) (s.setNewKey false).username false) hs (.refl w) ?_
    rintro _ w1 rfl hw1
    have hlock' : ¬ (s.setNewKey false).lock ≤ 0 := not_le.mpr hlock
    simp only
    rw [if_neg hlock']
    rw [← hw1.file] at hfile
    refine wp_seq (dbFileWrite_unlinks (s := s.setNewKey false) (hw1.serves hs) hdb hfile)
      (by simp) ?_
    rintro _ w2 ⟨hr, hw2⟩
    obtain rfl := Option.some.inj hr
    exact ⟨rfl, hw2.trans hw1.writes⟩
  · exact stateStore_ok hs hn hnew hlock ⟨text, hfile, hcopy⟩ (by simp [Generates])

/-- `_state_fini` with `_REMOVE`, under the lock. -/
theorem agentStateFini_remove {text : List Char} (hs : w.Serves cfg me) (hn : s.named = true)
    (ha : a.s = some s) (hkey : s.newKey = false) (hholds : w.Holds me s.lock)
    (hfile : w.file (dbLoc cfg s.username) = some text)
    (hcopy : cfg.db = .user ∨ Copyable s.username text) :
    wp (Sys.exec me) (agentStateFini cfg a { remove := true })
      (fun r _ => ∃ a', r = some (0, a') ∧ a'.s = none ∧ a'.sent = a.sent) w := by
  have hlock : 0 < s.lock := by
    have := hholds.1
    omega
  simp only [agentStateFini, assert, Bool.false_eq_true, false_and, not_false_eq_true, if_true,
    ret_bind, ha, if_false]
  refine wp_seq (P := fun r w1 => r = some (0, s.setNewKey false) ∧ w1.Writes w) ?_ (by simp) ?_
  · rw [pppStateRelease, wp_assert_bind, if_pos (by simp), if_neg (by simp)]
    refine wp_seq (stateStore_removes hs hn hkey hlock hfile hcopy) (by simp) ?_
    rintro _ w1 ⟨hr, hw1⟩
    obtain rfl := Option.some.inj hr
    exact ⟨rfl, hw1⟩
  · rintro _ w1 ⟨hr, hw1⟩
    obtain rfl := Option.some.inj hr
    have hlock' : 0 < (s.setNewKey false).lock := hlock
    simp only [stateFini, if_pos hlock']
    refine wp_seq (P := fun r _ => r = some ⟨⟩) ?_ (by simp) ?_
    · refine wp_seq (stateUnlock_ok (s := s.setNewKey false) (hw1.serves hs) hn (hw1.holds hholds))
        (by simp) ?_
      rintro _ w2 ⟨hr, -⟩
      obtain rfl := Option.some.inj hr
      rfl
    · rintro _ w2 -
      exact ⟨_, rfl, rfl, rfl⟩

theorem agentStateFini_remove_unlocked (hs : w.Serves cfg me) (hn : s.named = true)
    (ha : a.s = some s) (hkey : s.newKey = false) (hlock : s.lock = -1) :
    wp (Sys.exec me) (agentStateFini cfg a { remove := true })
      (fun r _ => ∃ a', r = some (2, a') ∧ a'.sent = a.sent) w := by
  simp only [agentStateFini, assert, Bool.false_eq_true, false_and, not_false_eq_true, if_true,
    ret_bind, ha, if_false]
  refine wp_seq (pppStateRelease_unlocked { remove := true } rfl rfl hs hn hkey hlock) (by simp) ?_
  rintro _ w1 hr
  obtain rfl := Option.some.inj hr
  simp only [stateFini_unlocked hlock, pure_eq_ret, ret_bind]
  exact ⟨_, rfl, rfl⟩

end

/-! ## Requests -/

section

variable {crypto : Crypto} {cfg : Cfg} {me : Pid} {a a' : Agent} {s : State} {e : Entry} {req : Request}
  {w w' : World}

theorem requestHandle_allowed (hl : a.locked = false)
    (hpolicy : requestVerifyPolicy cfg a req = .ret (agentOk, a)) :
    requestHandle crypto cfg a req = requestExecute crypto cfg a req := by
  rw [requestHandle, if_neg (by simp [hl]), hpolicy, ret_bind]
  rfl

theorem answeredOk_sendReply (hl : a'.locked = false) (hsent : a'.sent = a.sent) :
    a.AnsweredOk (a'.sendReply agentOk) := by
  have hl' : ¬ Agent.locked { a' with shdr := { a'.shdr with status := agentOk } } = true := by
    rw [Bool.not_eq_true]
    exact hl
  unfold Agent.sendReply
  simp only
  rw [if_neg hl', hsent]
  exact ⟨_, rfl, rfl⟩

theorem requestHandle_load (hl : a.locked = false) (htype : req.type = .stateLoad) :
    requestHandle crypto cfg a req =
      if a.s.isSome then .ret (agentErrMustDropState, a)
      else replyWith (agentStateInit cfg a true false) := by
  have hpolicy : requestVerifyPolicy cfg a req = .ret (agentOk, a) := by
    simp only [requestVerifyPolicy, htype]
    rfl
  rw [requestHandle_allowed hl hpolicy]
  simp only [requestExecute, htype]
  rfl

/-- What a load that is not refused says of the configuration and the key. -/
structure Loads (cfg : Cfg) (a a' : Agent) (w : World) : Prop where
  named : a.named = true
  defLength : 2 ≤ cfg.passcodeDefLength ∧ cfg.passcodeDefLength ≤ 16
  loaded : ∃ (s : State) (e : Entry), s.Fresh a.username ∧
    dbLookup (w.file (dbLoc cfg a.username)) a.username = some e ∧
      e.counter.toNat ≤ maxCounter.toNat ∧ a.Holds a' (some (s.loaded (-1) e)) false

/-- What a state that was set up says of the configuration and the user name. -/
theorem pppStateInit_begins {uid : Uid} {ok : Prop} (named : Bool) (u : CString) :
    (pppStateInit cfg (namePtr named u)).Sat (Sys.Answers uid ok) Sys.Calm (fun _ => True)
      (fun r => r = .error stateNomem ∨ ∃ s, r = .ok s ∧ s.Fresh u ∧ named = true ∧
        2 ≤ cfg.passcodeDefLength ∧ cfg.passcodeDefLength ≤ 16) := by
  refine (sat_issue_bind _).mpr ⟨⟨trivial, id⟩, fun junk _ => ?_⟩
  rcases junk with _ | junk
  · exact .inl rfl
  cases named with
  | false => trivial
  | true =>
    refine Sat.bind (V := fun s : State => s.Fresh u ∧ 2 ≤ cfg.passcodeDefLength ∧
      cfg.passcodeDefLength ≤ 16) ?_ fun s h => .inr ⟨s, rfl, h.1, rfl, h.2⟩
    refine (sat_assert_bind _).mpr ⟨fun hdef => ?_, fun _ => trivial⟩
    exact ⟨⟨trivial, id⟩, fun named _ =>
      ⟨(State.initial_fresh cfg junk u).setNamed named, hdef⟩⟩

theorem agentStateInit_loads (ha : a.s = none) (hnew : a.newState = false) :
    wp (Sys.exec me) (agentStateInit cfg a true false) (fun r w' => w'.Keeps w ∧
      ∀ ret a', r = some (ret, a') → a'.sent = a.sent ∧ (ret = 0 → Loads cfg a a' w)) w := by
  have hassert : a.s.isNone = true := by rw [ha]; rfl
  rw [agentStateInit, assert, if_pos hassert, ret_bind]
  refine wp_quiet_seq (@pppStateInit_begins cfg _ _ a.named a.username) Sys.Calm.quiet (.refl w)
    (fun w1 hw1 _ => ⟨hw1, by simp⟩) fun r w1 hr hw1 => ?_
  rcases hr with rfl | ⟨s, rfl, hfresh, hn, hdef⟩
  · refine ⟨hw1, ?_⟩
    rintro _ _ ⟨⟩
    exact ⟨rfl, fun h => absurd h (by decide)⟩
  · simp only [Bool.true_eq_false, if_false, setNewState_false hnew]
    refine wp_seq (pppStateLoad_fresh hfresh false (w := w1)) (fun w2 h2 => ⟨h2.1.trans hw1, by simp⟩)
      ?_
    rintro ⟨ret, s1⟩ w2 ⟨hw2, hload⟩
    simp only
    by_cases hret : ret = 0 ∨ ret = stateNumspace
    · obtain ⟨fd, e, rfl, -, hrange, hfd, hlook⟩ := hload ret s1 rfl hret
      obtain rfl := hfd rfl
      rw [if_pos hret]
      refine ⟨hw2.trans hw1, ?_⟩
      rintro _ _ ⟨⟩
      rw [hw1.file] at hlook
      have hmax : e.counter.toNat ≤ maxCounter.toNat := by
        by_contra hbig
        rw [hrange, verifyRange, loaded_counter,
          if_pos ((numCmp_pos_iff _ _).mpr (Nat.not_le.mp hbig))] at hret
        exact absurd hret (by decide)
      exact ⟨rfl, fun _ => ⟨hn, hdef, s, e, hfresh, hlook, hmax, rfl, hnew, rfl, rfl, rfl⟩⟩
    · rw [if_neg hret]
      refine wp_quiet_seq (stateFini_sat s1) Sys.Calm.quiet (hw2.trans hw1)
        (fun w3 hw3 _ => ⟨hw3, by simp⟩) fun _ w3 _ hw3 => ⟨hw3, ?_⟩
      rintro _ _ ⟨⟩
      exact ⟨rfl, fun h => absurd (.inl h) hret⟩

theorem exists_text {u : CString} {db : DbLoc} (he : dbLookup (w.file db) u = some e) :
    ∃ text, w.file db = some text := by
  cases hfile : w.file db with
  | none =>
    rw [hfile] at he
    cases he
  | some text => exact ⟨text, rfl⟩

/-- A load without the lock gives back the one that it takes itself. -/
theorem agentStateInit_free (hs : w.Serves cfg me) (hfree : w.Free)
    (hdef : 2 ≤ cfg.passcodeDefLength ∧ cfg.passcodeDefLength ≤ 16) (hn : a.named = true)
    (ha : a.s = none) (he : dbLookup (w.file (dbLoc cfg a.username)) a.username = some e) :
    wp (Sys.exec me) (agentStateInit cfg a true false) (fun _ w' => w'.Free) w := by
  have hassert : a.s.isNone = true := by rw [ha]; rfl
  rw [agentStateInit, assert, if_pos hassert, ret_bind, Agent.name_eq hn]
  refine wp_seq (pppStateInit_ok hs hdef a.username) (by simp) ?_
  rintro _ w1 ⟨s, hr, hfresh, hnamed, hw1⟩
  obtain rfl := Option.some.inj hr
  rw [← hw1.file, ← hfresh.username] at he
  have hs1 := hw1.serves hs
  have hv := dbLookup_valid he
  have hload := dbFileLoad_ok hs1 hnamed (hw1.free hfree) hfresh.lock he
  simp only [Bool.true_eq_false, if_false]
  refine wp_seq (P := fun r w2 => (∃ ret, r = some (ret, calculate (s.load e))) ∧ w2.Free) ?_
    (by simp) ?_
  · rw [pppStateLoad, if_pos (by rfl)]
    refine wp_mono (pppStateRead_ok hs1.runs hv hload) ?_
    rintro r w2 ⟨hr, -, hfree2⟩
    exact ⟨⟨_, hr⟩, hfree2⟩
  · rintro ⟨ret, s1⟩ w2 ⟨⟨ret', hr⟩, hfree2⟩
    obtain ⟨rfl, rfl⟩ := Prod.mk.inj (Option.some.inj hr)
    simp only
    split_ifs with hret
    · exact hfree2
    · have hlock : (calculate (s.load e)).lock = -1 := hfresh.lock
      rw [stateFini_unlocked hlock]
      exact hfree2

theorem stateLoad_loads (hok : a.Ok) (htype : req.type = .stateLoad)
    (hrun : handled crypto cfg me a w req = (some (0, a'), w')) (hanswer : a.AnsweredOk a') :
    Loads cfg a a' w ∧ w'.Keeps w := by
  have hwp : wp (Sys.exec me) (requestHandle crypto cfg a req) (fun r w' => w'.Keeps w ∧ ∀ a',
      r = some (0, a') → a.AnsweredOk a' → Loads cfg a a' w) w := by
    cases hl : a.locked with
    | true =>
      rw [requestHandle, if_pos hl]
      refine ⟨.refl w, ?_⟩
      rintro _ ⟨⟩
    | false =>
      rw [requestHandle_load hl htype]
      cases hs : a.s with
      | some s =>
        refine ⟨.refl w, ?_⟩
        rintro _ ⟨⟩
      | none =>
        refine wp_seq (agentStateInit_loads hs (hok.newState_none hs))
          (fun w1 h1 => ⟨h1.1, by simp⟩) ?_
        rintro ⟨retval, a1⟩ w1 ⟨hw1, hr⟩
        refine ⟨hw1, ?_⟩
        rintro _ ⟨rfl, rfl⟩ hanswer
        obtain ⟨hsent, hloads⟩ := hr _ _ rfl
        obtain ⟨hn, hdef, s, e, hfresh, hlook, hmax, hholds⟩ := hloads (hanswer.status hsent)
        exact ⟨hn, hdef, s, e, hfresh, hlook, hmax, hholds.reply _⟩
  unfold wp at hwp
  unfold handled at hrun
  rw [hrun] at hwp
  exact ⟨hwp.2 a' rfl hanswer, hwp.1⟩

theorem stateLoad_free (hs : w.Serves cfg me) (hfree : w.Free)
    (hdef : 2 ≤ cfg.passcodeDefLength ∧ cfg.passcodeDefLength ≤ 16) (hn : a.named = true)
    (htype : req.type = .stateLoad)
    (he : dbLookup (w.file (dbLoc cfg a.username)) a.username = some e) :
    (handled crypto cfg me a w req).2.Free := by
  have hwp : wp (Sys.exec me) (requestHandle crypto cfg a req) (fun _ w' => w'.Free) w := by
    cases hl : a.locked with
    | true =>
      rw [requestHandle, if_pos hl]
      exact hfree
    | false =>
      rw [requestHandle_load hl htype]
      cases hnone : a.s with
      | some s => exact hfree
      | none =>
        exact wp_seq (agentStateInit_free hs hfree hdef hn hnone he) (fun _ h => h)
          fun _ _ h => h
  exact hwp

/-- The requests that set a field of the state. -/
def Request.Setter (req : Request) : Prop :=
  req.type ∈ [.flagAdd, .flagClear, .setStr, .setInt, .updateLatest]

/-- A setter on a stored key that is answered with success has stored its change. -/
theorem Handling.stores (h : Handling crypto cfg me a w req (some (0, a')) w')
    (hsetter : req.Setter) (hnew : a.newState = false) (hanswer : a.AnsweredOk a') :
    ∃ (s s' : State) (lock : ℤ) (e : Entry), req.Sets cfg a.privileged (s.loaded lock e) 0 s' ∧
      Replaced cfg a.username e s'.entry w w' := by
  unfold Request.Setter at hsetter
  have hother {type : ReqType} (h : req.type = type)
      (hne : type ∉ [.flagAdd, .flagClear, .setStr, .setInt, .updateLatest]) : False :=
    hne (h ▸ hsetter)
  rcases h with ⟨-, hr⟩ | ⟨-, -, heffect⟩
  · exact absurd hanswer (hr _ _ rfl).1
  cases heffect with
  | refused hw hr => exact absurd hanswer (hr _ _ rfl).1
  | read hro hw =>
    exfalso
    unfold Request.ReadOnly at hro
    cases hreq : req.type <;> simp [hreq] at hro hsetter
  | dropped hwhy hw hr =>
    have hdrop : req.type ≠ .stateDrop := fun h => hother h (by decide)
    exact absurd hanswer ((hr _ _ rfl).1 hdrop)
  | switched h => exact (hother h (by decide)).elim
  | created h => exact (hother h (by decide)).elim
  | loaded h => exact (hother h (by decide)).elim
  | put h => exact (hother h (by decide)).elim
  | generated h => exact (hother h (by decide)).elim
  | removed h => exact (hother h (by decide)).elim
  | changed s s' ret hnew' => exact absurd (hnew.symm.trans hnew') (by decide)
  | unset s s' lock e ret _ _ _ _ _ _ hr => exact absurd hanswer (hr _ _ rfl).1
  | set s s' lock e _ _ hsets _ h => exact ⟨s, s', lock, e, hsets, h⟩
  | tried h =>
    rcases h with h | h
    · exact (hother h (by decide)).elim
    · exact (hother h (by decide)).elim
  | counted h =>
    rcases h with h | h
    · exact (hother h (by decide)).elim
    · exact (hother h (by decide)).elim
  | cleared h => exact (hother h (by decide)).elim

end

end Otpasswd
