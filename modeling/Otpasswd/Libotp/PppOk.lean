import Otpasswd.Libotp.DbFileOk
import Otpasswd.Libotp.PppSpec

/-!
# Otpasswd.Libotp.PppOk — the atomic operations when no call fails

In a world that serves the library, with the lock free and no malformed line
in the database, an operation on an entry that passes its checks returns zero
and gives the lock back. What it stores is said in `Otpasswd.Libotp.PppSpec`.

Main results: `pppStateLoad_ok`, `pppStateRelease_ok` and `pppIncrement_ok`.
-/

namespace Otpasswd

open CText Prog

/-- `w'` comes after `w`, and nobody holds a lock in it. -/
structure World.Done (w' w : World) : Prop where
  io : w'.io = w.io
  uid : w'.uid = w.uid
  free : w'.Free

theorem World.Done.trans {w w' w'' : World} (h : w''.Done w') (h' : w'.Done w) : w''.Done w :=
  ⟨h.io.trans h'.io, h.uid.trans h'.uid, h.free⟩

theorem World.Done.serves {cfg : Cfg} {me : Pid} {w w' : World} (h : w'.Done w)
    (hw : w.Serves cfg me) : w'.Serves cfg me := by
  constructor
  · rw [h.io]
    exact hw.outcomes
  · rw [h.uid]
    exact hw.runs

theorem World.Keeps.done {w w' : World} (h : w'.Keeps w) (hfree : w'.Free) : w'.Done w :=
  ⟨h.io, h.uid, hfree⟩

/-! ## A stored database can be copied again -/

theorem Stored.copyable {cfg : Cfg} {s : State} {ok : Prop} {old new : Option (List Char)}
    (hu : ReadableName s.username) (hv : s.entry.Valid)
    (h : Stored cfg s.username (dbEntryText s) false ok old new) (hok : ok) :
    ∃ text, new = some text ∧ Copyable s.username text := by
  rcases h.shape with ⟨hremove, -⟩ | ⟨pre, post, text, hpre, hpost, hnew, -, htext⟩
  · simp at hremove
  · obtain ⟨l, -, hl, hlu, hbody⟩ := dbEntryText_line s hu hv
    refine ⟨text, hnew, ?_⟩
    have heq : text = unlines pre ++ (l ++ '\n' :: unlines post) := by
      rw [htext hok, hbody]
      simp
    rw [heq]
    exact .once pre l post hpre hl hlu hpost

/-- A database in which a user can be found and whose lines are whole. -/
def CopyableFile (u : CString) (file : Option (List Char)) : Prop :=
  ∃ text, file = some text ∧ Copyable u text

theorem Updated.copyable {cfg : Cfg} {s : State} {w w' : World} (h : Updated cfg s false w w')
    (hu : ReadableName s.username) (hv : s.entry.Valid) (hok : w.AllOk) :
    CopyableFile s.username (w'.file (dbLoc cfg s.username)) := by
  obtain ⟨⟨new, hnew, hfile⟩, -⟩ := h
  rw [hfile, Function.update_self]
  exact hnew.copyable hu hv hok

theorem Replaced.copyable {cfg : Cfg} {u : CString} {e e' : Entry} {w w' : World}
    (h : Replaced cfg u e e' w w') (hv : e'.Valid) (hok : w.AllOk) :
    CopyableFile u (w'.file (dbLoc cfg u)) := by
  obtain ⟨hbefore, s, rfl, rfl, hup⟩ := h
  exact hup.copyable (dbLookup_readable hbefore) hv hok

/-- A readable line is never refused for its length. -/
theorem generates_of_readable {s : State} {remove : Bool} (hu : ReadableName s.username) :
    Generates (dbEntryText s) remove := by
  intro _ h
  obtain ⟨k, hk, h1, h2⟩ := length_dbEntryText s
  have hlen := hu.length_le
  simp only [stateMaxFieldSize] at hlen
  simp only [stateEntrySize] at h
  omega

/-! ## Locking, loading and storing -/

section

variable {me : Pid} {cfg : Cfg} {s : State} {w : World}

theorem stateLock_ok (hs : w.Serves cfg me) (hn : s.named = true) (hfree : w.Free) (hlock : s.lock = -1) :
    wp (Sys.exec me) (stateLock cfg s)
      (fun r w' => ∃ fd : Fd, r = some (0, s.setLock fd.val) ∧ w'.Keeps w ∧ w'.Holds me fd.val) w := by
  unfold stateLock
  rcases hs.runs.db with hdb | hdb <;> rw [hdb] <;> exact dbFileLock_ok hs hn hfree hlock

theorem stateUnlock_ok (hs : w.Serves cfg me) (hn : s.named = true) (hholds : w.Holds me s.lock) :
    wp (Sys.exec me) (stateUnlock cfg s)
      (fun r w' => r = some (0, s.setLock (-1)) ∧ w'.Keeps w ∧ w'.Free) w := by
  unfold stateUnlock
  rcases hs.runs.db with hdb | hdb <;> rw [hdb] <;> exact dbFileUnlock_ok hs hn hholds

/-- Unlocking a state that is not locked does nothing. -/
theorem stateUnlock_unlocked (hs : w.Serves cfg me) (hn : s.named = true) (hlock : s.lock = -1) :
    wp (Sys.exec me) (stateUnlock cfg s) (fun r w' => r = some (0, s) ∧ w'.Rests w) w := by
  have hstep : wp (Sys.exec me) (dbFileUnlock cfg s)
      (fun r w' => r = some (0, s) ∧ w'.Rests w) w := by
    refine wp_steady_seq (dbPath_ok (hs.runsFor hn) s.username false) hs (.refl w) ?_
    rintro _ w1 rfl hw1
    simp only
    rw [if_pos (by omega)]
    exact ⟨rfl, hw1⟩
  unfold stateUnlock
  rcases hs.runs.db with hdb | hdb <;> rw [hdb] <;> exact hstep

/-- Loading under a lock that is held. -/
theorem dbFileLoad_locked {e : Entry} (hs : w.Serves cfg me) (hn : s.named = true) (hlock : 0 < s.lock)
    (he : dbLookup (w.file (dbLoc cfg s.username)) s.username = some e) :
    wp (Sys.exec me) (dbFileLoad cfg s) (fun r w' => r = some (0, s.load e) ∧ w'.Rests w) w := by
  have hpresent : w.present (dbLoc cfg s.username) := by
    rw [World.present, Option.isSome_iff_ne_none]
    intro h
    simp [h, dbLookup] at he
  refine wp_steady_seq (dbPath_ok (hs.runsFor hn) s.username true) hs (.refl w) ?_
  rintro _ w1 rfl hw1
  refine wp_steady_seq (dbFilePermissions_ok hs.runs _ _) hs hw1 ?_
  rintro ret w2 ⟨-, hret⟩ hw2
  obtain rfl := hret hpresent
  rw [if_neg (by simp), if_neg (by omega)]
  rw [← hw2.file] at he
  refine wp_mono (dbFileRead_ok (hw2.serves hs) he) ?_
  rintro r w3 ⟨hr, hw3⟩
  exact ⟨hr, hw3.trans hw2⟩

/-- Loading with a lock of its own; `change` is what reading the database does
to a state. -/
theorem dbFileLoad_unlocked {ret : ℕ} (change : State → State)
    (hchange : ∀ s fd, change (State.setLock s fd) = (change s).setLock fd)
    (hnamed : (change s).named = s.named)
    (hs : w.Serves cfg me) (hn : s.named = true) (hfree : w.Free) (hlock : s.lock = -1)
    (hpresent : w.present (dbLoc cfg s.username))
    (hread : ∀ fd w', w'.Keeps w →
      wp (Sys.exec me) (dbFileRead (dbLoc cfg s.username) (s.setLock fd))
        (fun r w'' => r = some (ret, change (s.setLock fd)) ∧ w''.Rests w') w') :
    wp (Sys.exec me) (dbFileLoad cfg s)
      (fun r w' => r = some (ret, change s) ∧ w'.Keeps w ∧ w'.Free) w := by
  refine wp_steady_seq (dbPath_ok (hs.runsFor hn) s.username true) hs (.refl w) ?_
  rintro _ w1 rfl hw1
  refine wp_steady_seq (dbFilePermissions_ok hs.runs _ _) hs hw1 ?_
  rintro ret1 w2 ⟨-, hret⟩ hw2
  obtain rfl := hret hpresent
  rw [if_neg (by simp), if_pos (by omega)]
  refine wp_seq (dbFileLock_ok (hw2.serves hs) hn (hw2.free hfree) hlock) (by simp) ?_
  rintro _ w3 ⟨fd, hr, hw3, hholds⟩
  obtain rfl := Option.some.inj hr
  simp only
  rw [if_neg (by simp)]
  have hs3 := hw3.serves (hw2.serves hs)
  refine wp_seq (hread fd.val w3 (hw3.trans hw2.toKeeps)) (by simp) ?_
  rintro _ w4 ⟨hr, hw4⟩
  obtain rfl := Option.some.inj hr
  rw [hchange]
  refine wp_seq (dbFileUnlock_ok (s := (change s).setLock fd.val) (hw4.serves hs3)
    (hnamed.trans hn) (hw4.holds hholds)) (by simp) ?_
  rintro _ w5 ⟨hr, hw5, hfree5⟩
  obtain rfl := Option.some.inj hr
  have hback : ((change s).setLock fd.val).setLock (-1) = change s := by
    have hself : s.setLock (-1) = s := by
      obtain ⟨⟩ := s
      subst hlock
      rfl
    rw [← hchange, ← hchange, ← congrArg change hself]
    rfl
  simp only [hback, ne_eq, not_true_eq_false, false_and, if_false]
  exact ⟨rfl, hw5.trans (hw4.toKeeps.trans (hw3.trans hw2.toKeeps)), hfree5⟩

/-- A load with a lock of its own, of an entry that is there. -/
theorem dbFileLoad_ok {e : Entry} (hs : w.Serves cfg me) (hn : s.named = true) (hfree : w.Free) (hlock : s.lock = -1)
    (he : dbLookup (w.file (dbLoc cfg s.username)) s.username = some e) :
    wp (Sys.exec me) (dbFileLoad cfg s)
      (fun r w' => r = some (0, s.load e) ∧ w'.Keeps w ∧ w'.Free) w := by
  have hpresent : w.present (dbLoc cfg s.username) := by
    rw [World.present, Option.isSome_iff_ne_none]
    intro hnone
    rw [hnone] at he
    cases he
  refine dbFileLoad_unlocked (·.load e) (fun _ _ => rfl) rfl hs hn hfree hlock hpresent fun fd w' hw' => ?_
  rw [← hw'.file] at he
  exact dbFileRead_ok (s := s.setLock fd) (hw'.serves hs) he

/-- The part of `ppp_state_load` after the load itself. -/
theorem pppStateRead_ok {P : World → Prop} {e : Entry} {named : Bool} (hruns : Runs cfg (w.uid me) named)
    (hv : e.Valid)
    (hload : wp (Sys.exec me) (dbFileLoad cfg s) (fun r w' => r = some (0, s.load e) ∧ P w') w) :
    wp (Sys.exec me) (pppStateRead cfg s)
      (fun r w' => r = some (verifyRange (calculate (s.load e)), calculate (s.load e)) ∧ P w') w := by
  have hstate : stateLoad cfg s = dbFileLoad cfg s := by
    unfold stateLoad
    rcases hruns.db with hdb | hdb <;> rw [hdb]
  rw [pppStateRead, hstate]
  refine wp_seq hload (by simp) ?_
  rintro _ w1 ⟨hr, hP⟩
  obtain rfl := Option.some.inj hr
  simp only
  rw [if_neg (by simp), pppCalculate_load s hv]
  exact ⟨rfl, hP⟩

/-- How `ppp_state_load` with a lock ends when no call fails: with the state
loaded and the lock held, or, when the key has run out or its counter is too
big, with the state loaded and the lock given back. -/
theorem pppStateLoad_ok {e : Entry} (hs : w.Serves cfg me) (hn : s.named = true) (hfree : w.Free) (hlock : s.lock = -1)
    (he : dbLookup (w.file (dbLoc cfg s.username)) s.username = some e) :
    wp (Sys.exec me) (pppStateLoad cfg s {})
      (fun r w' => w'.Keeps w ∧ ∃ fd : Fd,
        verifyRange (s.loaded fd.val e) = 0 ∧ r = some (0, s.loaded fd.val e) ∧
            w'.Holds me fd.val ∨
          verifyRange (s.loaded fd.val e) ≠ 0 ∧
            r = some (verifyRange (s.loaded fd.val e), (s.loaded fd.val e).setLock (-1)) ∧
            w'.Free) w := by
  rw [pppStateLoad, if_neg (by simp)]
  refine wp_seq (stateLock_ok hs hn hfree hlock) (by simp) ?_
  rintro _ w1 ⟨fd, hr, hw1, hholds⟩
  obtain rfl := Option.some.inj hr
  simp only
  rw [if_neg (by simp)]
  have hs1 := hw1.serves hs
  have hfd := fd.property
  have hv := dbLookup_valid he
  rw [← hw1.file] at he
  have hlocked : 0 < (s.setLock fd.val).lock := by
    change (0 : ℤ) < fd.val
    omega
  refine wp_seq (pppStateRead_ok hs1.runs hv
    (dbFileLoad_locked (s := s.setLock fd.val) hs1 hn hlocked he)) (by simp) ?_
  rintro _ w2 ⟨hr, hw2⟩
  obtain rfl := Option.some.inj hr
  have hs2 := hw2.serves hs1
  simp only
  by_cases hrange : verifyRange (s.loaded fd.val e) = 0
  · have hrange' : ¬ verifyRange (calculate ((s.setLock fd.val).load e)) ≠ 0 := not_not.mpr hrange
    rw [if_neg hrange']
    exact ⟨hw2.toKeeps.trans hw1, fd, .inl ⟨hrange, rfl, hw2.holds hholds⟩⟩
  · have hrange' : verifyRange (calculate ((s.setLock fd.val).load e)) ≠ 0 := hrange
    rw [if_pos hrange']
    refine wp_seq (stateUnlock_ok (s := s.loaded fd.val e) hs2 hn (hw2.holds hholds)) (by simp) ?_
    rintro _ w3 ⟨hr, hw3, hfree3⟩
    obtain rfl := Option.some.inj hr
    exact ⟨hw3.trans (hw2.toKeeps.trans hw1), fd, .inr ⟨hrange, rfl, hfree3⟩⟩

/-- A store, under the caller's lock or under its own. -/
theorem dbFileStore_ok {remove : Bool} (hs : w.Serves cfg me) (hn : s.named = true) (hfree : w.Free)
    (hlock : s.lock = -1 ∨ 0 < s.lock)
    (hcopy : CopyableFile s.username (w.file (dbLoc cfg s.username)))
    (hgen : Generates (dbEntryText s) remove) :
    wp (Sys.exec me) (dbFileStore cfg s remove) (fun r w' => r = some (0, s) ∧ w'.Done w) w := by
  obtain ⟨text, hfile, hcopy⟩ := hcopy
  refine wp_steady_seq (dbPath_ok (hs.runsFor hn) s.username false) hs (.refl w) ?_
  rintro _ w1 rfl hw1
  simp only
  rcases hlock with hlock | hlock
  · rw [if_pos (by omega)]
    refine wp_seq (dbFileLock_ok (hw1.serves hs) hn (hw1.free hfree) hlock) (by simp) ?_
    rintro _ w2 ⟨fd, hr, hw2, hholds⟩
    obtain rfl := Option.some.inj hr
    have hs2 := hw2.serves (hw1.serves hs)
    simp only
    rw [if_neg (by simp)]
    rw [← hw1.file, ← hw2.file] at hfile
    refine wp_seq (dbFileWrite_ok (s := s.setLock fd.val) hs2 hfile hcopy hgen) (by simp) ?_
    rintro _ w3 ⟨hr, hw3⟩
    obtain rfl := Option.some.inj hr
    refine wp_seq (dbFileUnlock_ok (s := s.setLock fd.val) (hw3.serves hs2) hn (hw3.holds hholds))
      (by simp) ?_
    rintro _ w4 ⟨hr, hw4, hfree4⟩
    obtain rfl := Option.some.inj hr
    have hback : (s.setLock fd.val).setLock (-1) = s := by
      obtain ⟨⟩ := s
      subst hlock
      rfl
    refine ⟨by rw [← hback]; rfl, ?_, ?_, hfree4⟩
    · exact hw4.io.trans (hw3.io.trans (hw2.io.trans hw1.io))
    · exact hw4.uid.trans (hw3.uid.trans (hw2.uid.trans hw1.uid))
  · rw [if_neg (by omega)]
    rw [← hw1.file] at hfile
    refine wp_seq (dbFileWrite_ok (hw1.serves hs) hfile hcopy hgen) (by simp) ?_
    rintro _ w2 ⟨hr, hw2⟩
    obtain rfl := Option.some.inj hr
    exact ⟨rfl, hw2.io.trans hw1.io, hw2.uid.trans hw1.uid, fun inode =>
      (congrFun hw2.owner inode).trans (hw1.free hfree inode)⟩

/-- The write of `state_store` under a lock that is held. -/
theorem stateWrite_ok {remove : Bool} (hs : w.Serves cfg me) (hn : s.named = true) (hlock : 0 < s.lock)
    (hcopy : CopyableFile s.username (w.file (dbLoc cfg s.username)))
    (hgen : Generates (dbEntryText s) remove) :
    wp (Sys.exec me) (stateWrite cfg s remove) (fun r w' => r = some (0, s) ∧ w'.Writes w) w := by
  obtain ⟨text, hfile, hcopy⟩ := hcopy
  have hstore : wp (Sys.exec me) (dbFileStore cfg s remove)
      (fun r w' => r = some (0, s) ∧ w'.Writes w) w := by
    refine wp_steady_seq (dbPath_ok (hs.runsFor hn) s.username false) hs (.refl w) ?_
    rintro _ w1 rfl hw1
    simp only
    rw [if_neg (by omega)]
    rw [← hw1.file] at hfile
    refine wp_seq (dbFileWrite_ok (hw1.serves hs) hfile hcopy hgen) (by simp) ?_
    rintro _ w2 ⟨hr, hw2⟩
    obtain rfl := Option.some.inj hr
    exact ⟨rfl, hw2.trans hw1.writes⟩
  unfold stateWrite
  rcases hs.runs.db with hdb | hdb <;> rw [hdb] <;> exact hstore

theorem stateStore_ok {remove : Bool} (hs : w.Serves cfg me) (hn : s.named = true) (hnew : s.newKey = false)
    (hlock : 0 < s.lock) (hcopy : CopyableFile s.username (w.file (dbLoc cfg s.username)))
    (hgen : Generates (dbEntryText s) remove) :
    wp (Sys.exec me) (stateStore cfg s remove)
      (fun r w' => r = some (0, s.setNewKey false) ∧ w'.Writes w) w := by
  rw [stateStore, wp_assert_bind, if_pos (by simp [hnew]), if_neg (by simp [hnew]),
    if_neg (by omega)]
  exact stateWrite_ok (s := s.setNewKey false) hs hn hlock hcopy hgen

/-- A release that stores or removes under the lock it gives back. -/
theorem pppStateRelease_ok (flags : PppOptions) (hcheck : flags.checkPolicy = false)
    (hflags : flags.store = !flags.remove) (hunlock : flags.unlock = true)
    (hs : w.Serves cfg me) (hn : s.named = true) (hnew : s.newKey = false) (hholds : w.Holds me s.lock)
    (hcopy : CopyableFile s.username (w.file (dbLoc cfg s.username)))
    (hgen : Generates (dbEntryText s) flags.remove) :
    wp (Sys.exec me) (pppStateRelease cfg s flags)
      (fun r w' => r = some (0, (s.setNewKey false).setLock (-1)) ∧ w'.Done w) w := by
  have hstore : pppReleaseStore cfg s flags = stateStore cfg s flags.remove := by
    rw [pppReleaseStore, hflags]
    cases flags.remove <;> rfl
  have hlock : 0 < s.lock := by
    have := hholds.1
    omega
  rw [pppStateRelease, wp_assert_bind, if_pos (by rw [hflags]; simp), if_neg (by simp [hcheck]),
    hstore]
  refine wp_seq (stateStore_ok hs hn hnew hlock hcopy hgen) (by simp) ?_
  rintro _ w1 ⟨hr, hw1⟩
  obtain rfl := Option.some.inj hr
  simp only [pppReleaseUnlock, hunlock, if_true]
  refine wp_seq (stateUnlock_ok (s := s.setNewKey false) (hw1.serves hs) hn (hw1.holds hholds))
    (by simp) ?_
  rintro _ w2 ⟨hr, hw2, hfree2⟩
  obtain rfl := Option.some.inj hr
  exact ⟨rfl, hw2.io.trans hw1.io, hw2.uid.trans hw1.uid, hfree2⟩

end

/-! ## `ppp_increment` -/

section

variable {me : Pid} {cfg : Cfg} {s : State} {w : World}

/-- An allowed entry is incremented. -/
theorem pppIncrement_ok {e : Entry} (hs : w.Serves cfg me) (hn : s.named = true) (hfree : w.Free)
    (hlock : s.lock = -1) (hnew : s.newKey = false) (hmask : s.codeMask = codeMask)
    (he : dbLookup (w.file (dbLoc cfg s.username)) s.username = some e) (hallowed : e.Allowed cfg)
    (hcopy : CopyableFile s.username (w.file (dbLoc cfg s.username))) :
    wp (Sys.exec me) (pppIncrement cfg s)
      (fun r w' => (∃ s', r = some (0, s') ∧ s'.counter = e.counter ∧ s'.lock = -1) ∧
        Replaced cfg s.username e { e with counter := numAdd e.counter (numI 1) } w w' ∧
        w'.Done w) w := by
  have hv := dbLookup_valid he
  have hok : wp (Sys.exec me) (pppIncrement cfg s)
      (fun r w' => (∃ s', r = some (0, s') ∧ s'.counter = e.counter ∧ s'.lock = -1) ∧
        w'.Done w) w := by
    refine wp_seq (pppStateLoad_ok hs hn hfree hlock he) (by simp) ?_
    rintro _ w1 ⟨hw1, fd, ⟨-, hr, hholds⟩ | ⟨hrange, -⟩⟩
    swap
    · exact absurd ((loaded_verifyRange s fd.val e hmask hv).mpr hallowed.range) hrange
    obtain rfl := Option.some.inj hr
    have hcodes : 0 < (s.loaded fd.val e).codesOnCard :=
      calculate_codesOnCard hv.codeLength_ge hv.codeLength_le
    have hverdict := (@verdict_eq_zero cfg s fd.val e 0 hmask hv).mpr ⟨hallowed, rfl⟩
    simp only
    rw [if_neg (by simp), pppStateVerify_eq hcodes, ret_bind]
    change wp _ (if verdict cfg (s.loaded fd.val e) 0 ≠ 0 then _ else _) _ _
    rw [if_neg (not_not.mpr hverdict)]
    have hcopy1 : CopyableFile s.username (w1.file (dbLoc cfg s.username)) := by
      rw [hw1.file]
      exact hcopy
    refine wp_seq (pppStateRelease_ok
      (s := (s.loaded fd.val e).setCounter (numAdd (s.loaded fd.val e).counter (numI 1)))
      { store := true, unlock := true } rfl rfl rfl (hw1.serves hs) hn hnew hholds hcopy1
      (generates_of_readable (dbLookup_readable he))) (by simp) ?_
    rintro _ w2 ⟨hr, hw2⟩
    obtain rfl := Option.some.inj hr
    exact ⟨⟨_, rfl, rfl, rfl⟩, hw2.io.trans hw1.io, hw2.uid.trans hw1.uid, hw2.free⟩
  refine wp_mono (wp_and hok (pppIncrement_spec me cfg s hmask w)) ?_
  rintro r w' ⟨⟨⟨s', hr, hs'⟩, hdone⟩, hend⟩
  refine ⟨⟨s', hr, hs'⟩, ?_, hdone⟩
  cases hend with
  | kept _ h => exact absurd hr (h s')
  | replaced _ e' _ h _ =>
    obtain rfl : e' = e := Option.some.inj (h.before.symm.trans he)
    exact h

/-- A key that has run out, or whose counter is too big, is not touched. -/
theorem pppIncrement_range {e : Entry} (hs : w.Serves cfg me) (hn : s.named = true) (hfree : w.Free)
    (hlock : s.lock = -1) (hmask : s.codeMask = codeMask)
    (he : dbLookup (w.file (dbLoc cfg s.username)) s.username = some e) (hrange : ¬ e.InRange) :
    wp (Sys.exec me) (pppIncrement cfg s)
      (fun r w' => (∃ s', r = some (if e.counter.toNat ≤ maxCounter.toNat then stateNumspace
          else stateParseError, s')) ∧ w'.Keeps w ∧ w'.Free) w := by
  have hv := dbLookup_valid he
  refine wp_seq (pppStateLoad_ok hs hn hfree hlock he) (by simp) ?_
  rintro _ w1 ⟨hw1, fd, ⟨h0, -⟩ | ⟨hne, hr, hfree1⟩⟩
  · exact absurd ((loaded_verifyRange s fd.val e hmask hv).mp h0) hrange
  obtain rfl := Option.some.inj hr
  simp only
  rw [if_pos hne]
  have hcase : verifyRange (s.loaded fd.val e) =
      if e.counter.toNat ≤ maxCounter.toNat then stateNumspace else stateParseError := by
    revert hne
    simp only [verifyRange, loaded_counter, numCmp_pos_iff]
    by_cases hbig : maxCounter.toNat < e.counter.toNat
    · simp [hbig, Nat.not_le.mpr hbig]
    · simp only [hbig, if_false, Nat.not_lt.mp hbig, if_true]
      intro hne
      by_contra hnot
      split_ifs at hne hnot <;> simp at hne hnot
  exact ⟨⟨_, by rw [← hcase]; rfl⟩, hw1, hfree1⟩

end

end Otpasswd
