import Otpasswd.Libotp.LockTable
import Otpasswd.Libotp.PppFree

/-!
# Otpasswd.Libotp.LockStatus — a state knows whether it is locked

The calls that a user of the library makes on one state, in the order the
headers ask for, followed in the table of lock descriptors. As long as `open`
does not return descriptor zero for the lock file, the number kept in the
state is that of the one descriptor that is open and locked; with descriptor
zero, a load asks for the lock that it already has.

Main results: `LibCall.table`, one step, and `lockStatus_tracked`, every run.
-/

namespace Otpasswd

open CText Prog

/-! ## Loading and storing -/

section

variable {cfg : Cfg} {uid : Uid} {s : State} {t : LockTable}

theorem ReadCards.lock {s' : State} {ret : ℕ} (h : ReadCards s ret s') : s'.lock = s.lock := by
  cases h with
  | loaded e hv => rfl
  | failed _ _ _ h => exact h.lock

theorem ReadCards.newKey {s' : State} {ret : ℕ} (h : ReadCards s ret s') :
    s'.newKey = s.newKey := by
  cases h with
  | loaded e hv => rfl
  | failed _ _ _ h => exact h.newKey

theorem ReadCards.codesOnCard {s' : State} {ret : ℕ} (h : ReadCards s ret s') (h0 : ret = 0) :
    0 < s'.codesOnCard := by
  cases h with
  | loaded e hv => exact calculate_codesOnCard hv.codeLength_ge hv.codeLength_le
  | failed _ _ hret => exact absurd h0 hret.1

/-- The end of a load whose lock was its own. -/
theorem Read.unlocked {fd : ℤ} {ret : ℕ} {s' : State} (h : Read (s.setLock fd) ret s')
    (hlock : s.lock = -1) (unlocked : ℕ) :
    Read s (if unlocked ≠ 0 ∧ ret = 0 then stateLockError else ret) (s'.setLock (-1)) := by
  have hself : s.setLock (-1) = s := by rw [← hlock, State.setLock_self]
  cases h with
  | failed _ _ hret h =>
    rw [if_neg (by simp [hret.1])]
    refine .failed ret _ hret ⟨?_, hlock.symm, h.currentRow⟩
    exact ((s.sameUser_setLock fd).trans h.toSameUser).trans (s'.sameUser_setLock _)
  | loaded e hv =>
    have hstate : ((s.setLock fd).load e).setLock (-1) = s.load e :=
      congrArg (State.load · e) hself
    rw [hstate]
    by_cases h0 : unlocked ≠ 0
    · rw [if_pos ⟨h0, rfl⟩]
      exact .failed _ _ (by simp [LoadError]) ⟨s.sameUser_load e, rfl, rfl⟩
    · rw [if_neg (by simp [h0])]
      exact .loaded e hv

theorem dbFileLoad_table (hruns : Runs cfg uid true) (h : Tracks uid s t) :
    wp Sys.answer (dbFileLoad cfg s)
      (Returns fun r t' => Read s r.1 r.2 ∧ Tracks uid r.2 t') t := by
  have hread (db : DbLoc) (s : State) :
      Meets cfg uid s.named True Sys.Calm (fun r => Read s r.1 r.2) (dbFileRead db s) :=
    (dbFileRead_sat db s).answers fun _ _ h => h.mono False.elim
  have hnamed := h.named
  have hruns' : Runs cfg uid s.named := hnamed ▸ hruns
  have hfail (ret : ℕ) (t' : LockTable) (hret : LoadError ret) (ht' : Tracks uid s t') :
      wp Sys.answer (pure (ret, s) : SysM (ℕ × State))
        (Returns fun r t' => Read s r.1 r.2 ∧ Tracks uid r.2 t') t' :=
    ⟨(ret, s), rfl, .failed ret s hret (.refl s), ht'⟩
  refine wp_apart_seq (dbPath_risks s.username true) (dbPath_apart _ _ _) hruns' h.sound ?_
  rintro r t1 (rfl | ⟨ret, rfl, hret, -⟩) h1
  swap
  · exact hfail ret t1 hret (h.same h1 rfl rfl)
  replace h := h.same h1 rfl rfl
  refine wp_apart_seq (dbFilePermissions_sat _ _).risks (dbFilePermissions_apart _ _ _) hruns
    h.sound ?_
  rintro ret t2 hret h2
  replace h := h.same h2 rfl rfl
  by_cases hperm : ret ≠ 0
  · rw [if_pos hperm]
    exact hfail ret t2 ⟨hperm, hret.1⟩ h
  rw [if_neg hperm]
  -- a descriptor that is not positive counts as no lock
  by_cases hlock : s.lock ≤ 0
  swap
  · rw [if_neg hlock]
    refine wp_mono (wp_apart (hread _ s).risks (dbFileRead_apart _ _) hruns' h.sound) ?_
    rintro r t3 ⟨⟨ret, s'⟩, rfl, hr, h3⟩
    replace hr : Read s ret s' := hr
    have hsame : s'.lock = s.lock := by
      cases hr with
      | loaded e hv => rfl
      | failed _ _ _ h => exact h.lock
    exact ⟨(ret, s'), rfl, hr, h.same h3 hr.sameUser.named hsame⟩
  -- the load takes the lock itself
  rw [if_pos hlock]
  obtain ⟨hlock, ht⟩ := h.free_of_unlocked hlock
  refine wp_returns_seq (dbFileLock_table hruns' hlock ht) ?_
  rintro ⟨ret, s1⟩ t3 htry
  simp only at htry ⊢
  cases htry with
  | failed _ _ hne ht3 =>
    rw [if_pos hne.1]
    exact hfail ret t3 hne (.free hnamed hlock ht3)
  | locked fd _ hfd ht3 =>
    rw [if_neg (by simp)]
    refine wp_apart_seq (hread _ (s.setLock fd)).risks (dbFileRead_apart _ _) hruns' ht3.toSound ?_
    rintro ⟨ret2, s2⟩ t4 hr h4
    replace hr : Read (s.setLock fd) ret2 s2 := hr
    have hlock2 : s2.lock = fd := by
      cases hr with
      | loaded e hv => rfl
      | failed _ _ _ h => exact h.lock
    have hnamed2 : s2.named = true := hr.sameUser.named.trans hnamed
    have htracks : Tracks uid s2 t4 := .held fd hfd hnamed2 hlock2 (h4.heldBy ht3)
    -- and gives it back
    refine wp_returns_seq (dbFileUnlock_table hruns htracks) ?_
    rintro ⟨unlocked, _⟩ t5 ⟨rfl, ht5⟩
    exact ⟨_, rfl, hr.unlocked hlock unlocked, .free hnamed2 rfl ht5⟩

theorem pppStateRead_table (hruns : Runs cfg uid true) (h : Tracks uid s t) :
    wp Sys.answer (pppStateRead cfg s)
      (Returns fun r t' => ReadCards s r.1 r.2 ∧ Tracks uid r.2 t') t := by
  have hload : wp Sys.answer (stateLoad cfg s)
      (Returns fun r t' => Read s r.1 r.2 ∧ Tracks uid r.2 t') t := by
    unfold stateLoad
    rcases hruns.db with hdb | hdb <;> rw [hdb] <;> exact dbFileLoad_table hruns h
  refine wp_returns_seq hload ?_
  rintro ⟨ret, s1⟩ t1 ⟨hr, h1⟩
  replace hr : Read s ret s1 := hr
  simp only
  cases hr with
  | failed _ _ hret hb =>
    rw [if_pos hret.1]
    exact ⟨(ret, s1), rfl, .failed ret s1 hret hb, h1⟩
  | loaded e hv =>
    rw [if_neg (by simp), pppCalculate_load s hv]
    exact ⟨_, rfl, .loaded e hv, h1.same (.refl t1) rfl rfl⟩

/-- How a load that asks for the lock ends: with the lock exactly if it
succeeds. -/
structure LoadsLocked (uid : Uid) (s : State) (ret : ℕ) (s' : State) (t' : LockTable) : Prop where
  tracks : Tracks uid s' t'
  newKey : s'.newKey = s.newKey
  kept : ret = 0 → 0 < s'.lock ∧ 0 < s'.codesOnCard
  gone : ret ≠ 0 → s'.lock = -1

theorem pppStateLoad_table (hruns : Runs cfg uid true) (hn : s.named = true)
    (hlock : s.lock = -1) (ht : t.Free uid) :
    wp Sys.answer (pppStateLoad cfg s {})
      (Returns fun r t' => LoadsLocked uid s r.1 r.2 t') t := by
  rw [pppStateLoad, if_neg (by simp)]
  refine wp_returns_seq (stateLock_table (hn ▸ hruns) hlock ht) ?_
  rintro ⟨ret, s1⟩ t1 htry
  simp only at htry ⊢
  cases htry with
  | failed _ _ hret h1 =>
    rw [if_pos hret.1]
    exact ⟨(ret, s), rfl, .free hn hlock h1, rfl, fun h => absurd h hret.1, fun _ => hlock⟩
  | locked fd _ hfd h1 =>
    rw [if_neg (by simp)]
    have htracks : Tracks uid (s.setLock fd) t1 := .held fd hfd hn rfl h1
    refine wp_returns_seq (pppStateRead_table hruns htracks) ?_
    rintro ⟨ret2, s2⟩ t2 ⟨hr, h2⟩
    replace hr : ReadCards (s.setLock fd) ret2 s2 := hr
    have hlock2 : s2.lock = fd := hr.lock
    have hkey : s2.newKey = s.newKey := hr.newKey
    simp only
    by_cases hret : ret2 ≠ 0
    · -- the key has run out, or the entry is not readable
      rw [if_pos hret]
      refine wp_returns_seq (stateUnlock_table hruns h2) ?_
      rintro ⟨unlocked, _⟩ t3 ⟨rfl, h3⟩
      exact ⟨_, rfl, .free h2.named rfl h3, hkey, fun h => absurd h hret, fun _ => rfl⟩
    · rw [if_neg hret]
      refine ⟨(0, s2), rfl, h2, hkey, fun _ => ⟨?_, hr.codesOnCard (not_not.mp hret)⟩,
        fun h => absurd rfl h⟩
      rw [hlock2]
      exact_mod_cast hfd

/-- A load without the lock leaves it as it is. -/
theorem pppStateLoad_dontLock_table (hruns : Runs cfg uid true) (h : Tracks uid s t) :
    wp Sys.answer (pppStateLoad cfg s { dontLock := true })
      (Returns fun r t' => r.2.lock = s.lock ∧ r.2.newKey = s.newKey ∧ Tracks uid r.2 t') t := by
  rw [pppStateLoad, if_pos rfl]
  refine wp_mono (pppStateRead_table hruns h) ?_
  rintro _ t' ⟨r, rfl, hr, h'⟩
  exact ⟨r, rfl, hr.lock, hr.newKey, h'⟩

theorem stateWrite_table (hruns : Runs cfg uid s.named) (remove : Bool) {fd : ℕ} (hfd : 0 < fd)
    (hlock : s.lock = fd) (ht : t.HeldBy uid fd) :
    wp Sys.answer (stateWrite cfg s remove)
      (Returns fun r t' => r.2 = s ∧ t'.HeldBy uid fd) t := by
  have hwrite (db : DbLoc) :
      Risks cfg uid s.named True (fun _ => True) (fun _ => True) (dbFileWrite cfg db s remove) :=
    (dbFileWrite_ends id db remove).answers fun c x h =>
      ⟨⟨h.mono False.elim, .inl h.copies⟩, h.finds⟩
  have hstore : wp Sys.answer (dbFileStore cfg s remove)
      (Returns fun r t' => r.2 = s ∧ t'.HeldBy uid fd) t := by
    refine wp_apart_seq (dbPath_risks s.username false) (dbPath_apart _ _ _) hruns ht.toSound ?_
    rintro r t1 (rfl | ⟨ret, rfl, -, hok⟩) h1
    swap
    · exact absurd trivial hok
    simp only
    rw [if_neg (by omega)]
    refine wp_apart_seq (hwrite _) (dbFileWrite_apart _ _ _ _) hruns
      (h1.heldBy ht).toSound ?_
    rintro ret t2 - h2
    exact ⟨(ret, s), rfl, rfl, h2.heldBy (h1.heldBy ht)⟩
  unfold stateWrite
  rcases hruns.db with hdb | hdb <;> rw [hdb] <;> exact hstore

/-- What a store leaves: the lock as it was, and the new key only if the lock
was not granted. -/
structure StoreLeaves (uid : Uid) (s s' : State) (t' : LockTable) : Prop where
  tracks : Tracks uid s' t'
  lock : s'.lock = s.lock
  newKey : s'.newKey = true → s.newKey = true

/-- A new key is only stored by a state that is not locked. -/
def State.KeyUnlocked (s : State) : Prop := s.newKey = true → s.lock = -1

theorem stateStore_table (hruns : Runs cfg uid true) (h : Tracks uid s t) (hkey : s.KeyUnlocked) :
    wp Sys.answer (stateStore cfg s false) (Returns fun r t' => StoreLeaves uid s r.2 t') t := by
  have hnamed := h.named
  rw [stateStore, wp_assert_bind, if_pos (by simp)]
  by_cases hnew : s.newKey = true
  · obtain hlock := hkey hnew
    obtain ⟨-, ht⟩ := h.free_of_unlocked (by omega)
    rw [if_pos hnew, wp_assert_bind, if_pos (by omega)]
    refine wp_returns_seq (stateLock_table (hnamed ▸ hruns) hlock ht) ?_
    rintro ⟨ret, s1⟩ t1 htry
    simp only at htry ⊢
    cases htry with
    | failed _ _ hret h1 =>
      rw [if_pos hret.1]
      exact ⟨(_, s), rfl, .free hnamed hlock h1, rfl, id⟩
    | locked fd _ hfd h1 =>
      have hpos : ¬ (s.setLock fd).lock ≤ 0 := by
        change ¬ (fd : ℤ) ≤ 0
        omega
      rw [if_neg (by simp), if_neg hpos]
      refine wp_returns_seq (stateWrite_table
        (s := (s.setLock fd).setNewKey false) (hnamed ▸ hruns) false hfd rfl h1) ?_
      rintro ⟨ret2, _⟩ t2 ⟨rfl, h2⟩
      have htracks : Tracks uid ((s.setLock fd).setNewKey false) t2 :=
        .held fd hfd hnamed rfl h2
      refine wp_returns_seq (stateUnlock_table hruns htracks) ?_
      rintro ⟨unlocked, _⟩ t3 ⟨rfl, h3⟩
      exact ⟨_, rfl, .free hnamed rfl h3, hlock.symm, by simp [State.setNewKey, State.setLock]⟩
  · rw [if_neg hnew]
    by_cases hlock : s.lock ≤ 0
    · rw [if_pos hlock]
      exact ⟨_, rfl, h, rfl, id⟩
    rw [if_neg hlock]
    cases h with
    | free _ hlock' _ => omega
    | held fd hfd _ hlock' ht =>
      refine wp_mono (stateWrite_table (s := s.setNewKey false) (hnamed ▸ hruns) false hfd hlock'
        ht) ?_
      rintro _ t' ⟨r, rfl, hr, h'⟩
      refine ⟨r, rfl, ?_, ?_, ?_⟩
      · rw [hr]
        exact .held fd hfd hnamed hlock' h'
      · rw [hr]
        rfl
      · simp [hr, State.setNewKey]

/-! ## Releasing -/

/-- What a release leaves: the lock only if it was not to be given back. -/
structure ReleaseLeaves (uid : Uid) (s : State) (unlock : Bool) (s' : State) (t' : LockTable) :
    Prop where
  tracks : Tracks uid s' t'
  lock : s'.lock = if unlock then -1 else s.lock
  newKey : s'.newKey = true → s.newKey = true

theorem pppStateRelease_table (hruns : Runs cfg uid true) (h : Tracks uid s t) (store unlock : Bool)
    (hkey : store = true → s.KeyUnlocked) :
    wp Sys.answer (pppStateRelease cfg s { store := store, unlock := unlock })
      (Returns fun r t' => ReleaseLeaves uid s unlock r.2 t') t := by
  have hstore : wp Sys.answer (pppReleaseStore cfg s { store := store, unlock := unlock })
      (Returns fun r t' => StoreLeaves uid s r.2 t') t := by
    rw [pppReleaseStore, if_neg (by simp)]
    by_cases hs : store = true
    · rw [if_pos hs]
      exact stateStore_table hruns h (hkey hs)
    · rw [if_neg hs]
      exact ⟨(0, s), rfl, h, rfl, id⟩
  rw [pppStateRelease, wp_assert_bind, if_pos (by simp), if_neg (by simp)]
  refine wp_returns_seq hstore ?_
  rintro ⟨ret1, s1⟩ t1 ⟨h1, hlock1, hkey1⟩
  simp only at h1 hlock1 hkey1 ⊢
  unfold pppReleaseUnlock
  by_cases hunlock : unlock = true
  · rw [if_pos hunlock]
    refine wp_returns_seq (stateUnlock_table hruns h1) ?_
    rintro ⟨ret2, _⟩ t2 ⟨rfl, h2⟩
    exact ⟨_, rfl, .free h1.named rfl h2, by simp [hunlock, State.setLock], hkey1⟩
  · rw [if_neg hunlock]
    exact ⟨(_, s1), rfl, h1, by simp [hunlock, hlock1], hkey1⟩

/-! ## The operations -/

/-- Unlocked, with nothing open and nothing locked. -/
structure Released (uid : Uid) (s : State) (t : LockTable) : Prop where
  named : s.named = true
  lock : s.lock = -1
  free : t.Free uid

theorem Tracks.released (h : Tracks uid s t) (hlock : s.lock = -1) : Released uid s t :=
  ⟨h.named, hlock, (h.free_of_unlocked (by omega)).2⟩

theorem Released.tracks (h : Released uid s t) : Tracks uid s t := .free h.named h.lock h.free

/-- `ppp_increment` and `ppp_skip` give the lock back on every exit. -/
theorem counterOp_table (hruns : Runs cfg uid true) (h : Released uid s t) (hnew : s.newKey = false)
    {last : State → ℕ} {upd : State → State} {fin : State → State → State}
    (hupd : ∀ s, (upd s).lock = s.lock ∧ (upd s).newKey = s.newKey ∧ (upd s).named = s.named)
    (hfin : ∀ s s', (fin s s').lock = s'.lock ∧ (fin s s').newKey = s'.newKey ∧
      (fin s s').named = s'.named) :
    wp Sys.answer (counterOp cfg s last upd fin)
      (Returns fun r t' => Released uid r.2 t' ∧ r.2.newKey = false) t := by
  refine wp_returns_seq (pppStateLoad_table hruns h.named h.lock h.free) ?_
  rintro ⟨ret, s1⟩ t1 h1
  replace h1 : LoadsLocked uid s ret s1 t1 := h1
  have hnew1 : s1.newKey = false := h1.newKey.trans hnew
  simp only
  by_cases hret : ret ≠ 0
  · rw [if_pos hret]
    exact ⟨(ret, s1), rfl, h1.tracks.released (h1.gone hret), hnew1⟩
  obtain ⟨hlock, hcodes⟩ := h1.kept (not_not.mp hret)
  rw [if_neg hret, pppStateVerify_eq hcodes, ret_bind]
  change wp Sys.answer (if verdict cfg s1 (last s1) ≠ 0 then _ else _) _ _
  by_cases hverdict : verdict cfg s1 (last s1) ≠ 0
  · -- a check fails
    rw [if_pos hverdict]
    refine wp_returns_seq (pppStateRelease_table hruns h1.tracks false true (by simp)) ?_
    rintro ⟨ret2, s2⟩ t2 h2
    have hnew2 : s2.newKey = false := Bool.eq_false_iff.mpr fun hn => by
      have := h2.newKey hn
      rw [hnew1] at this
      exact absurd this Bool.false_ne_true
    exact ⟨_, rfl, h2.tracks.released h2.lock, hnew2⟩
  · rw [if_neg hverdict]
    have hupd1 := hupd s1
    have htracks : Tracks uid (upd s1) t1 := h1.tracks.same (.refl t1) hupd1.2.2 hupd1.1
    have hkey : (upd s1).KeyUnlocked := fun hn => by
      rw [hupd1.2.1, hnew1] at hn
      exact absurd hn Bool.false_ne_true
    refine wp_returns_seq (pppStateRelease_table hruns htracks true true fun _ => hkey) ?_
    rintro ⟨ret2, s2⟩ t2 h2
    have hnew2 : s2.newKey = false := Bool.eq_false_iff.mpr fun hn => by
      have := h2.newKey hn
      rw [hupd1.2.1, hnew1] at this
      exact absurd this Bool.false_ne_true
    have hlock2 : (fin s1 s2).lock = -1 := (hfin s1 s2).1.trans h2.lock
    exact ⟨_, rfl, ⟨(hfin s1 s2).2.2.trans h2.tracks.named, hlock2,
      (h2.tracks.released h2.lock).free⟩, (hfin s1 s2).2.1.trans hnew2⟩

theorem stateFini_table (hruns : Runs cfg uid true) (h : Tracks uid s t) :
    wp Sys.answer (stateFini cfg s) (Returns fun _ t' => t'.Free uid) t := by
  unfold stateFini
  by_cases hlock : 0 < s.lock
  · rw [if_pos hlock]
    refine wp_returns_seq (stateUnlock_table hruns h) ?_
    rintro _ t1 ⟨-, h1⟩
    exact ⟨⟨⟩, rfl, h1⟩
  · rw [if_neg hlock]
    exact ⟨⟨⟩, rfl, (h.free_of_unlocked (by omega)).2⟩

/-- A new state, when the copy of the user name is made. -/
theorem stateInit_named (hcfg : Configured cfg uid) (junk : Junk) (u : CString) :
    Meets cfg uid true True Sys.Calm (fun s => s.Fresh u ∧ s.named = true)
      (stateInit cfg junk (some u)) := by
  refine (sat_assert_bind _).mpr ⟨fun _ => ?_, fun h => absurd hcfg.defLength h⟩
  exact ⟨⟨trivial, id⟩, fun copied hx =>
    ⟨(State.initial_fresh cfg junk u).setNamed copied, hx trivial⟩⟩

theorem pppStateInit_named (hcfg : Configured cfg uid) (u : CString) :
    Meets cfg uid true True Sys.Calm
      (fun r => r = .error stateNomem ∨ ∃ s, r = .ok s ∧ s.Fresh u ∧ s.named = true)
      (pppStateInit cfg (some u)) := by
  refine meets_call ⟨trivial, id⟩ fun junk _ => ?_
  rcases junk with _ | junk
  · exact .inl rfl
  · exact (stateInit_named hcfg junk u).bind fun s hs => .inr ⟨s, rfl, hs⟩

/-- `ppp_failures` and `ppp_oob_time` work on a state of their own. -/
theorem pppUpdate_table (hcfg : Configured cfg uid) (ht : t.Free uid) (u : CString)
    (change : State → SysM State)
    (hchange : ∀ s, Meets cfg uid true True Sys.Calm
      (fun s' => s'.lock = s.lock ∧ s'.newKey = s.newKey ∧ s'.named = s.named) (change s) ∧
        (change s).Issues Sys.Apart) :
    wp Sys.answer (pppUpdate cfg (some u) change) (Returns fun _ t' => t'.Free uid) t := by
  have hruns := hcfg.toRuns
  refine wp_apart_seq (pppStateInit_named hcfg u).risks (pppStateInit_apart cfg _) hruns
    ht.toSound ?_
  rintro _ t1 (rfl | ⟨s, rfl, hs, hn⟩) h1
  · exact ⟨1, rfl, h1.free ht⟩
  simp only
  refine wp_returns_seq (pppStateLoad_table hruns hn hs.lock (h1.free ht)) ?_
  rintro ⟨ret, s1⟩ t2 h2
  replace h2 : LoadsLocked uid s ret s1 t2 := h2
  simp only
  by_cases hret : ret ≠ 0
  · rw [if_pos hret]
    refine wp_returns_seq (stateFini_table hruns h2.tracks) ?_
    exact fun _ t3 h3 => ⟨ret, rfl, h3⟩
  rw [if_neg hret]
  refine wp_apart_seq (hchange s1).1.risks (hchange s1).2 hruns h2.tracks.sound ?_
  rintro s2 t3 ⟨hlock2, hnew2, hnamed2⟩ h3
  have htracks : Tracks uid s2 t3 := h2.tracks.same h3 hnamed2 hlock2
  have hkey : s2.KeyUnlocked := fun hn => by
    rw [hnew2, h2.newKey, hs.newKey] at hn
    exact absurd hn Bool.false_ne_true
  refine wp_returns_seq (pppStateRelease_table hruns htracks true true fun _ => hkey) ?_
  rintro ⟨ret2, s3⟩ t4 h4
  refine wp_returns_seq (stateFini_table hruns h4.tracks) ?_
  exact fun _ t5 h5 => ⟨ret2, rfl, h5⟩

/-- The load that looks for a key gives its lock back. -/
theorem keyLoad_table (hcfg : Configured cfg uid) (ht : t.Free uid) (u : CString) :
    wp Sys.answer (keyLoad cfg (some u)) (Returns fun _ t' => t'.Free uid) t := by
  have hstack : Sys.Apart .stackState := trivial
  refine (wp_issue_bind _).mpr ?_
  replace ht := (answer_same hstack t).free ht
  refine wp_apart_seq (stateInit_named hcfg _ u).risks (stateInit_apart _ _ _) hcfg.toRuns
    ht.toSound ?_
  rintro tmp t1 ⟨htmp, hn⟩ h1
  have htracks : Tracks uid tmp t1 := .free hn htmp.lock (h1.free ht)
  refine wp_returns_seq (pppStateLoad_dontLock_table hcfg.toRuns htracks) ?_
  rintro ⟨ret, tmp'⟩ t2 ⟨-, -, h2⟩
  refine wp_returns_seq (stateFini_table hcfg.toRuns h2) ?_
  exact fun _ t3 h3 => ⟨ret, rfl, h3⟩

/-- Generating a key takes no lock. -/
theorem pppKeyGenerate_table (crypto : Crypto) (hcfg : Configured cfg uid)
    (h : Released uid s t) (flags : PppOptions) :
    wp Sys.answer (pppKeyGenerate crypto cfg s flags)
      (Returns fun r t' => Released uid r.2 t') t := by
  have hruns := hcfg.toRuns
  have hkey (s : State) : Meets cfg uid true True Sys.Calm
      (fun r => r.2.named = s.named ∧ r.2.lock = s.lock) (stateKeyGenerate crypto s) := by
    refine stateKeyGenerate_sat.mono (fun _ h => h) (fun _ h => h.elim) ?_
    rintro r (⟨-, hr⟩ | ⟨pool, rfl⟩)
    · rw [hr]
      exact ⟨rfl, rfl⟩
    · refine ⟨?_, s.generated_lock pool⟩
      unfold State.generated
      split <;> rfl
  have hgen (t' : LockTable) (ht' : t'.Free uid) : wp Sys.answer (stateKeyGenerate crypto s)
      (Returns fun r t' => Released uid r.2 t') t' := by
    refine wp_mono (wp_apart (hkey s).risks (stateKeyGenerate_apart crypto s) hruns ht'.toSound) ?_
    rintro _ t2 ⟨r, rfl, hr, h2⟩
    exact ⟨r, rfl, hr.1.trans h.named, hr.2.trans h.lock, h2.free ht'⟩
  rw [pppKeyGenerate_eq flags h.lock]
  by_cases hcheck : flags.checkPolicy = true ∧ cfg.keyRegeneration = configDisallow
  swap
  · rw [if_neg hcheck]
    exact hgen t h.free
  rw [if_pos hcheck]
  rw [State.name_eq h.named]
  refine wp_returns_seq (keyLoad_table hcfg h.free s.username) ?_
  rintro ret t1 h1
  by_cases hret : ret = 0
  · rw [if_pos hret]
    exact ⟨_, rfl, h.named, h.lock, h1⟩
  · rw [if_neg hret]
    exact hgen t1 h1

end

/-! ## The calls on a state -/

/-- What a user of the library calls on a state. -/
inductive LibCall where
  | load (dontLock : Bool)
  | increment
  | skip (skipTo : Num)
  | failures (zero : Bool)
  | oobTime
  | keyGenerate (checkPolicy : Bool)
  | release (store unlock : Bool)
  | fini

namespace LibCall

/-- The call; what it returns is the state, which `ppp_state_fini` frees. -/
def prog (crypto : Crypto) (cfg : Cfg) (s : State) : LibCall → SysM (Option State)
  | load dontLock => do
    let (_, s) ← pppStateLoad cfg s { dontLock := dontLock }
    return some s
  | increment => do
    let (_, s) ← pppIncrement cfg s
    return some s
  | skip skipTo => do
    let (_, s) ← pppSkip cfg s skipTo
    return some s
  | failures zero => do
    let _ ← pppFailures cfg s zero
    return some s
  | oobTime => do
    let _ ← pppOobTime cfg s
    return some s
  | keyGenerate checkPolicy => do
    let (_, s) ← pppKeyGenerate crypto cfg s { checkPolicy := checkPolicy }
    return some s
  | release store unlock => do
    let (_, s) ← pppStateRelease cfg s { store := store, unlock := unlock }
    return some s
  | fini => do
    stateFini cfg s
    return none

/-- The order of the headers: a call that takes the lock, or generates a key,
is made on a state that is not locked, and a new key is stored before it. -/
def InOrder (s : State) : LibCall → Prop
  | load false | increment | skip _ => s.lock = -1 ∧ s.newKey = false
  | failures _ | oobTime | keyGenerate _ => s.lock = -1
  | load true | release _ _ | fini => True

/-- The operations that load, lock, change, store and unlock at once. -/
def Combo : LibCall → Prop
  | increment | skip _ | failures _ | oobTime => True
  | _ => False

/-- What a call leaves: a state that knows its lock, or none and no lock. -/
structure Leaves (c : LibCall) (uid : Uid) (r : Option State) (t' : LockTable) : Prop where
  tracks : ∀ s', r = some s' → Tracks uid s' t' ∧ s'.KeyUnlocked
  gone : r = none → t'.Free uid
  combo : c.Combo → ∃ s', r = some s' ∧ s'.lock = -1

section

variable {crypto : Crypto} {cfg : Cfg} {uid : Uid} {s s' : State} {t t' : LockTable} {c : LibCall}

theorem Leaves.kept (h : Tracks uid s' t') (hkey : s'.KeyUnlocked) (hc : c.Combo → s'.lock = -1) :
    c.Leaves uid (some s') t' where
  tracks := by
    rintro _ ⟨⟩
    exact ⟨h, hkey⟩
  gone := by simp
  combo := fun h => ⟨s', rfl, hc h⟩

theorem Leaves.released (h : Released uid s' t') : c.Leaves uid (some s') t' :=
  .kept h.tracks (fun _ => h.lock) fun _ => h.lock

/-- One call in order: it is not stopped, and the lock is tracked. -/
theorem table (hcfg : Configured cfg uid) (h : Tracks uid s t) (hkey : s.KeyUnlocked)
    (hc : c.InOrder s) :
    wp Sys.answer (c.prog crypto cfg s) (Returns fun r t' => c.Leaves uid r t') t := by
  have hruns := hcfg.toRuns
  have hname := State.name_eq h.named
  cases c with
  | load dontLock =>
    cases dontLock with
    | true =>
      refine wp_returns_seq (pppStateLoad_dontLock_table hruns h) ?_
      rintro ⟨ret, s1⟩ t1 ⟨hlock, hnew, h1⟩
      refine ⟨_, rfl, .kept h1 (fun hn => ?_) False.elim⟩
      exact hlock.trans (hkey (hnew.symm.trans hn))
    | false =>
      obtain ⟨hlock, hnew⟩ := hc
      refine wp_returns_seq (pppStateLoad_table hruns h.named hlock (h.released hlock).free) ?_
      rintro ⟨ret, s1⟩ t1 h1
      refine ⟨_, rfl, .kept h1.tracks (fun hn => ?_) False.elim⟩
      rw [h1.newKey.trans hnew] at hn
      exact absurd hn Bool.false_ne_true
  | increment =>
    rw [prog, pppIncrement_eq]
    refine wp_returns_seq (counterOp_table hruns (h.released hc.1) hc.2 (fun _ => ⟨rfl, rfl, rfl⟩)
      fun _ _ => ⟨rfl, rfl, rfl⟩) ?_
    exact fun _ t1 h1 => ⟨_, rfl, .released h1.1⟩
  | skip skipTo =>
    rw [prog, pppSkip_eq]
    refine wp_returns_seq (counterOp_table hruns (h.released hc.1) hc.2 (fun _ => ⟨rfl, rfl, rfl⟩)
      fun _ _ => ⟨rfl, rfl, rfl⟩) ?_
    exact fun _ t1 h1 => ⟨_, rfl, .released h1.1⟩
  | failures zero =>
    rw [prog, pppFailures, hname]
    refine wp_returns_seq (pppUpdate_table hcfg (h.released hc).free s.username _ fun tmp => ?_) ?_
    · cases zero <;> exact ⟨⟨rfl, rfl, rfl⟩, trivial⟩
    · exact fun _ t1 h1 => ⟨_, rfl, .released ⟨h.named, hc, h1⟩⟩
  | oobTime =>
    rw [prog, pppOobTime, hname]
    refine wp_returns_seq (pppUpdate_table hcfg (h.released hc).free s.username _ fun tmp => ?_) ?_
    · exact ⟨⟨⟨trivial, id⟩, fun _ _ => ⟨rfl, rfl, rfl⟩⟩, ⟨trivial, fun _ _ => trivial⟩⟩
    · exact fun _ t1 h1 => ⟨_, rfl, .released ⟨h.named, hc, h1⟩⟩
  | keyGenerate checkPolicy =>
    refine wp_returns_seq (pppKeyGenerate_table crypto hcfg (h.released hc) _) ?_
    exact fun _ t1 h1 => ⟨_, rfl, .released h1⟩
  | release store unlock =>
    refine wp_returns_seq (pppStateRelease_table hruns h store unlock fun _ => hkey) ?_
    rintro ⟨ret, s1⟩ t1 h1
    refine ⟨_, rfl, .kept h1.tracks (fun hn => ?_) False.elim⟩
    have hlock := hkey (h1.newKey hn)
    have := h1.lock
    cases unlock <;> simp_all
  | fini =>
    refine wp_returns_seq (stateFini_table hruns h) ?_
    exact fun _ t1 h1 => ⟨none, rfl, by simp, fun _ => h1, False.elim⟩

end

end LibCall

/-! ## Sessions -/

namespace LockTable

/-- No lock descriptor is open, and there never were two. -/
structure Unused (t : LockTable) : Prop where
  fds : t.fds = []
  owned : ∀ i, t.owned i = false
  once : t.clash = false

/-- The descriptor is open, and its inode is locked. -/
def Owns (t : LockTable) (lock : ℤ) : Prop :=
  0 ≤ lock ∧ ∃ i, t.inodeOf lock.toNat = some i ∧ t.owned i = true

end LockTable

/-- What the calls on one state can lead to, which is new and has its user name
when they begin. -/
inductive LockSession (crypto : Crypto) (cfg : Cfg) (u : CString) (t0 : LockTable) :
    State → LockTable → Prop where
  | init (s : State) (hs : s.Fresh u) (hn : s.named = true) : LockSession crypto cfg u t0 s t0
  | call (s s' : State) (t t' : LockTable) (h : LockSession crypto cfg u t0 s t) (c : LibCall)
      (hc : c.InOrder s) (hrun : (c.prog crypto cfg s).run Sys.answer t = (some (some s'), t')) :
      LockSession crypto cfg u t0 s' t'

/-- Each test that the library makes on the number says whether the lock is
held, and the lock file is opened only while no descriptor of it is open. -/
structure LockTracked (s : State) (t : LockTable) : Prop where
  isLocked : 0 < s.lock ↔ t.Owns s.lock
  notNegative : ¬ s.lock < 0 ↔ t.Owns s.lock
  notFree : s.lock ≠ -1 ↔ t.Owns s.lock
  once : t.clash = false

/-- The lock status is tracked in every session: so it is in every state, and
no call in order is stopped by an assertion, opens the lock twice, or, if it
is one of the combined operations, returns with the lock. -/
def LockStatus (crypto : Crypto) (cfg : Cfg) (u : CString) (t0 : LockTable) : Prop :=
  ∀ s t, LockSession crypto cfg u t0 s t → LockTracked s t ∧
    ∀ c : LibCall, c.InOrder s →
      ∃ r t', (c.prog crypto cfg s).run Sys.answer t = (some r, t') ∧ t'.clash = false ∧
        (c.Combo → (∃ s', r = some s' ∧ s'.lock = -1) ∧ t'.Unused) ∧ (r = none → t'.Unused)

section

variable {crypto : Crypto} {cfg : Cfg} {uid : Uid} {u : CString} {s : State} {t t0 : LockTable}

theorem LockTable.Free.unused (h : t.Free uid) : t.Unused := ⟨h.fds, h.owned, h.once⟩

theorem Tracks.lockTracked (h : Tracks uid s t) : LockTracked s t := by
  cases h with
  | free _ hlock h =>
    have hnot : ¬ t.Owns s.lock := fun h' => by
      have := h'.1
      omega
    refine ⟨?_, ?_, ?_, h.once⟩ <;> rw [iff_false_right hnot] <;> omega
  | held fd hfd _ hlock h =>
    have howns : t.Owns s.lock := by
      obtain ⟨i, -, hi, howned⟩ := h.inodeOf
      have hnat : s.lock.toNat = fd := by omega
      refine ⟨by omega, i, ?_, ?_⟩
      · rw [hnat]
        exact hi
      · simp [howned]
    refine ⟨?_, ?_, ?_, h.once⟩ <;> rw [iff_true_right howns] <;> omega

/-- Along a session the lock is tracked, by induction on the calls. -/
theorem LockSession.tracks (hcfg : Configured cfg uid) (ht0 : t0.Free uid)
    (h : LockSession crypto cfg u t0 s t) : Tracks uid s t ∧ s.KeyUnlocked := by
  induction h with
  | init s hs hn => exact ⟨.free hn hs.lock ht0, fun _ => hs.lock⟩
  | call s s' t t' _ c hc hrun ih =>
    obtain ⟨r, hr, hleaves⟩ := @LibCall.table crypto cfg uid s t c hcfg ih.1 ih.2 hc
    rw [hrun] at hr hleaves
    exact hleaves.tracks s' (Option.some.inj hr).symm

/-- Without descriptor zero the lock status is tracked. -/
theorem lockStatus_tracked (hcfg : Configured cfg uid) (hplain : ∀ n c, Sys.Plain uid c (t0.io n c))
    (hunused : t0.Unused) (hfd : ∀ n db, t0.io n (.openLck db) ≠ some 0) :
    LockStatus crypto cfg u t0 := by
  intro s t hsession
  have ht0 : t0.Free uid := ⟨⟨hplain, hfd, hunused.once⟩, hunused.fds, hunused.owned⟩
  obtain ⟨htracks, hkey⟩ := hsession.tracks hcfg ht0
  refine ⟨htracks.lockTracked, fun c hc => ?_⟩
  obtain ⟨r, hr, hleaves⟩ := @LibCall.table crypto cfg uid s t c hcfg htracks hkey hc
  refine ⟨r, _, Prod.ext hr rfl, ?_, fun hcombo => ?_, fun hnone => (hleaves.gone hnone).unused⟩
  · rcases r with _ | s'
    · exact (hleaves.gone rfl).once
    · exact (hleaves.tracks s' rfl).1.sound.once
  · obtain ⟨s', hs', hlock⟩ := hleaves.combo hcombo
    exact ⟨⟨s', hs', hlock⟩, ((hleaves.tracks s' hs').1.released hlock).free.unused⟩

end

/-! ## Descriptor zero -/

/-- Answers of a system in which no call fails, for a process of root without
a database; the lock file is opened as `fd`. -/
def goodReply (fd : ℕ) : (c : Sys) → c.Reply
  | .malloc => true
  | .mallocState => some Outcome.good.junk
  | .stackState => Outcome.good.junk
  | .strdup => true
  | .stackHash => Bytes.zero 40
  | .parseUser _ => none
  | .getpwnam _ => true
  | .getuid => 0
  | .geteuid => 0
  | .time => 0
  | .rng n => some (Bytes.zero n)
  | .stat path => some (Outcome.good.stat path)
  | .chownDb _ => true
  | .openLck _ => some fd
  | .setlk _ => true
  | .unlck _ => true
  | .close _ => ⟨⟩
  | .unlinkLck _ => ⟨⟩
  | .fopenDb _ => .noent
  | .fopenTmp _ => some ⟨[], none⟩
  | .chownTmp _ => true
  | .closeTmp _ _ => true
  | .renameTmp _ => true
  | .unlinkTmp _ => ⟨⟩
  | .unlinkDb _ => true

/-- A process with no lock descriptor, whose next one is `fd`. -/
def LockTable.start (fd : ℕ) : LockTable where
  fds := []
  owned := fun _ => false
  clash := false
  io := fun _ => goodReply fd
  inode := fun _ => 0
  tick := 0

theorem LockTable.start_unused (fd : ℕ) : (LockTable.start fd).Unused := ⟨rfl, fun _ => rfl, rfl⟩

theorem goodReply_plain (fd : ℕ) (c : Sys) : Sys.Plain 0 c (goodReply fd c) := by
  cases c <;> first | trivial | rfl | simp [Sys.Plain, goodReply]

/-- A daemon of root that opens the lock file as descriptor three. -/
theorem lockStatus_tracked_start : LockStatus plainCrypto configRoot alice (LockTable.start 3) :=
  lockStatus_tracked configRoot_configured (fun _ => goodReply_plain 3) (LockTable.start_unused 3)
    fun _ _ => by simp [LockTable.start, goodReply]

theorem zero_aborts : (((LibCall.load false).prog plainCrypto configRoot aliceState).run Sys.answer
    (LockTable.start 0)).1.isNone = true := by decide +kernel

/-- Without standard input the lock file is descriptor zero: the first load
takes the lock, and then asks for it again. -/
theorem lockStatus_zero : Configured configRoot 0 ∧
    (∀ n c, Sys.Plain 0 c ((LockTable.start 0).io n c)) ∧ (LockTable.start 0).Unused ∧
    ¬ LockStatus plainCrypto configRoot alice (LockTable.start 0) := by
  refine ⟨configRoot_configured, fun _ => goodReply_plain 0, LockTable.start_unused 0, fun h => ?_⟩
  have hinit := State.initial_fresh configRoot Outcome.good.junk alice
  have hsession : LockSession plainCrypto configRoot alice (LockTable.start 0)
      (State.initial configRoot Outcome.good.junk alice) (LockTable.start 0) := .init _ hinit rfl
  obtain ⟨-, hcalls⟩ := h _ _ hsession
  obtain ⟨r, t', hrun, -⟩ := hcalls (.load false) ⟨rfl, rfl⟩
  have hnone := zero_aborts
  rw [aliceState, hrun] at hnone
  exact absurd hnone Bool.false_ne_true

end Otpasswd
