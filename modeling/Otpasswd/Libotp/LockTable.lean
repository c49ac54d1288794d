import Otpasswd.Libotp.PppLock

/-!
# Otpasswd.Libotp.LockTable — the lock descriptors of a process

The programs of the library, executed for one process whose system is free in
all its answers: which calls fail, and which descriptor `open` returns for the
lock file. All that is kept is the table of lock descriptors, so that the
number in a state can be compared with the descriptor it stands for.

Main results: one `_table` lemma for each function that locks, unlocks, or asks
whether it has to.
-/

namespace Otpasswd

open CText Prog

/-! ## The table -/

/-- The lock descriptors of a process. -/
structure LockTable where
  /-- The open ones, with the inodes they refer to. -/
  fds : List (ℕ × ℕ)
  /-- The inodes the process has the write lock on. -/
  owned : ℕ → Bool
  /-- Whether the lock file was opened while a descriptor of it was open. -/
  clash : Bool
  /-- The answer of the system to any call at any time. -/
  io : ℕ → (c : Sys) → c.Reply
  /-- The inode that the lock path names at that time. -/
  inode : ℕ → ℕ
  /-- The number of calls made so far. -/
  tick : ℕ

namespace LockTable

/-- The inode of an open descriptor. -/
def inodeOf (t : LockTable) (fd : ℕ) : Option ℕ := (t.fds.find? (·.1 = fd)).map Prod.snd

/-- `owned` after the lock on the inode of `fd` is given up. -/
def disown (t : LockTable) (fd : ℕ) : ℕ → Bool :=
  fun i => if t.inodeOf fd = some i then false else t.owned i

end LockTable

/-- Answer one call, and keep the table. Closing a descriptor drops the locks
on its inode. -/
def Sys.answer (c : Sys) (t : LockTable) : c.Reply × LockTable :=
  let t' := { t with tick := t.tick + 1 }
  match c with
  | .openLck db =>
    match t.io t.tick (.openLck db) with
    | some fd =>
      (some fd, { t' with fds := (fd, t.inode t.tick) :: t.fds, clash := t.clash || !t.fds.isEmpty })
    | none => (none, t')
  | .setlk fd =>
    match t.inodeOf fd, t.io t.tick (.setlk fd) with
    | some i, true => (true, { t' with owned := Function.update t.owned i true })
    | _, _ => (false, t')
  | .unlck fd =>
    match t.io t.tick (.unlck fd) with
    | true => (true, { t' with owned := t.disown fd })
    | false => (false, t')
  | .close fd => (⟨⟩, { t' with owned := t.disown fd, fds := t.fds.filter (·.1 ≠ fd) })
  | c => (t.io t.tick c, t')

/-- The call is none of those that the table follows. -/
def Sys.Apart : Sys → Prop
  | .openLck _ | .setlk _ | .unlck _ | .close _ => False
  | _ => True

/-- What is assumed of the answers: one user id, lookups of paths that succeed,
with the copies of user names they need, and files that are opened at their
start. -/
def Sys.Plain (uid : Uid) : (c : Sys) → c.Reply → Prop
  | .getuid, x => x = uid
  | .malloc, x => x = true
  | .strdup, x => x = true
  | .getpwnam _, x => x = true
  | .fopenDb _, x => ∀ f, x = .opened f → f.eof = false
  | _, _ => True

namespace LockTable

/-- The answers are as assumed, no descriptor of a lock file is zero, and the
lock file was never opened twice. -/
structure Sound (uid : Uid) (t : LockTable) : Prop where
  plain : ∀ n c, Sys.Plain uid c (t.io n c)
  nonzero : ∀ n db, t.io n (.openLck db) ≠ some 0
  once : t.clash = false

/-- Nothing is open and nothing is locked. -/
structure Free (uid : Uid) (t : LockTable) : Prop extends t.Sound uid where
  fds : t.fds = []
  owned : ∀ i, t.owned i = false

/-- One descriptor is open, and its inode is locked. -/
structure HeldBy (uid : Uid) (t : LockTable) (fd : ℕ) : Prop extends t.Sound uid where
  fds : ∃ i, t.fds = [(fd, i)] ∧ ∀ j, t.owned j = decide (j = i)

/-- One descriptor is open, and nothing is locked. -/
structure Opened (uid : Uid) (t : LockTable) (fd : ℕ) : Prop extends t.Sound uid where
  fds : ∃ i, t.fds = [(fd, i)]
  owned : ∀ i, t.owned i = false

/-- The same descriptors and locks. -/
structure Same (t' t : LockTable) : Prop where
  fds : t'.fds = t.fds
  owned : t'.owned = t.owned
  clash : t'.clash = t.clash
  io : t'.io = t.io

theorem Same.refl (t : LockTable) : t.Same t := ⟨rfl, rfl, rfl, rfl⟩

theorem Same.trans {t t' t'' : LockTable} (h : t''.Same t') (h' : t'.Same t) : t''.Same t :=
  ⟨h.1.trans h'.1, h.2.trans h'.2, h.3.trans h'.3, h.4.trans h'.4⟩

variable {uid : Uid} {t t' : LockTable} {fd : ℕ}

theorem Same.sound (h : t'.Same t) (ht : t.Sound uid) : t'.Sound uid where
  plain := by
    rw [h.io]
    exact ht.plain
  nonzero := by
    rw [h.io]
    exact ht.nonzero
  once := h.clash.trans ht.once

theorem Same.free (h : t'.Same t) (ht : t.Free uid) : t'.Free uid where
  toSound := h.sound ht.toSound
  fds := h.fds.trans ht.fds
  owned := by
    rw [h.owned]
    exact ht.owned

theorem Same.heldBy (h : t'.Same t) (ht : t.HeldBy uid fd) : t'.HeldBy uid fd where
  toSound := h.sound ht.toSound
  fds := by
    rw [h.fds, h.owned]
    exact ht.fds

theorem Opened.inodeOf (ht : t.Opened uid fd) : ∃ i, t.fds = [(fd, i)] ∧ t.inodeOf fd = some i := by
  obtain ⟨i, hi⟩ := ht.fds
  exact ⟨i, hi, by simp [LockTable.inodeOf, hi]⟩

theorem HeldBy.inodeOf (ht : t.HeldBy uid fd) : ∃ i, t.fds = [(fd, i)] ∧
    t.inodeOf fd = some i ∧ ∀ j, t.owned j = decide (j = i) := by
  obtain ⟨i, hi, howned⟩ := ht.fds
  exact ⟨i, hi, by simp [LockTable.inodeOf, hi], howned⟩

theorem HeldBy.disown (ht : t.HeldBy uid fd) (i : ℕ) : t.disown fd i = false := by
  obtain ⟨j, -, hfd, howned⟩ := ht.inodeOf
  simp only [LockTable.disown, hfd, Option.some.injEq, howned, ite_eq_left_iff, decide_eq_false_iff_not]
  exact fun h h' => h h'.symm

end LockTable

theorem answer_same {c : Sys} (h : c.Apart) (t : LockTable) : (c.answer t).2.Same t := by
  cases c <;> first | exact h.elim | exact ⟨rfl, rfl, rfl, rfl⟩

theorem answer_apart {uid : Uid} {t : LockTable} (ht : t.Sound uid) {c : Sys} (h : c.Apart) :
    Sys.Answers uid True c (c.answer t).1 := by
  have hplain := ht.plain t.tick c
  cases c <;> first | exact h.elim | trivial | exact hplain | exact fun _ => hplain

theorem Sys.Answers.copies {uid : Uid} {c : Sys} {x : c.Reply} (h : Sys.Answers uid True c x) :
    Sys.Copies c x := by
  cases c <;> first | exact h trivial | trivial

/-! ## Programs apart from the table -/

section Apart

variable {α : Type}

theorem dbPath_apart (cfg : Cfg) (username : Option CString) (home : Bool) :
    (dbPath cfg username home).Issues Sys.Apart :=
  dbPath_issues trivial (fun _ => trivial) username home

theorem dbFilePermissions_apart (cfg : Cfg) (db : DbLoc) (userHome : Option CString) :
    (dbFilePermissions cfg db userHome).Issues Sys.Apart :=
  dbFilePermissions_issues trivial (fun _ => trivial) (fun _ => trivial) db userHome

theorem dbFileRead_apart (db : DbLoc) (s : State) : (dbFileRead db s).Issues Sys.Apart := by
  refine issues_call trivial fun x => ?_
  rcases x with _ | _ | f
  · trivial
  · trivial
  simp only
  split
  · trivial
  · split <;> trivial

theorem dbFileCleanup_apart (cfg : Cfg) (db : DbLoc) (ret : ℕ) (out : Option OutFile) :
    (dbFileCleanup cfg db ret out).Issues Sys.Apart := by
  have hrest : (if ret = 0 then do
        if ← sys (.renameTmp db) then
          let _ ← dbFilePermissions cfg db none
          return 0
        else return stateIoError
      else do
        sys (.unlinkTmp db)
        return ret : SysM ℕ).Issues Sys.Apart := by
    split
    · refine issues_call trivial fun renamed => ?_
      split
      · exact (dbFilePermissions_apart cfg db none).bind fun _ => trivial
      · trivial
    · exact issues_call trivial fun _ => trivial
  rcases out with _ | out
  · exact hrest
  · exact issues_call trivial fun _ => hrest

theorem dbFileWrite_apart (cfg : Cfg) (db : DbLoc) (s : State) (remove : Bool) :
    (dbFileWrite cfg db s remove).Issues Sys.Apart := by
  have hown : (dbOwnTmp cfg db).Issues Sys.Apart := by
    refine issues_call trivial fun euid => ?_
    split
    · trivial
    refine issues_call trivial fun st => ?_
    rcases st with _ | st
    · simp only
      split
      · trivial
      · exact ⟨trivial, fun _ _ => trivial⟩
    · exact ⟨trivial, fun _ _ => trivial⟩
  have htmp (inp : Option InFile) :
      (dbFileWrite.dbFileWriteTmp cfg db s remove inp).Issues Sys.Apart := by
    refine issues_call trivial fun out => ?_
    rcases out with _ | out
    · exact dbFileCleanup_apart cfg db _ _
    refine hown.bind fun owned => ?_
    split
    · exact dbFileCleanup_apart cfg db _ _
    split
    · exact dbFileCleanup_apart cfg db _ _
    · refine issues_call trivial fun closed => ?_
      split <;> exact dbFileCleanup_apart cfg db _ _
  unfold dbFileWrite
  split
  · refine issues_call trivial fun unlinked => ?_
    split <;> trivial
  refine issues_call trivial fun inp => ?_
  rcases inp with _ | _ | f
  · exact htmp _
  · exact dbFileCleanup_apart cfg db _ _
  · exact htmp _

theorem stateInit_apart (cfg : Cfg) (junk : Junk) (username : Option CString) :
    (stateInit cfg junk username).Issues Sys.Apart := by
  rcases username with _ | username
  · trivial
  · exact (sat_assert_bind _).mpr
      ⟨fun _ => issues_call trivial fun _ => trivial, fun _ => trivial⟩

theorem pppStateInit_apart (cfg : Cfg) (username : Option CString) :
    (pppStateInit cfg username).Issues Sys.Apart := by
  refine issues_call trivial fun junk => ?_
  rcases junk with _ | junk
  · trivial
  · exact (stateInit_apart cfg junk username).bind fun _ => trivial

theorem stateKeyGenerate_apart (crypto : Crypto) (s : State) :
    (stateKeyGenerate crypto s).Issues Sys.Apart := by
  refine issues_call trivial fun real => ?_
  rcases real with _ | real
  · trivial
  refine issues_call trivial fun pseudo => ?_
  rcases pseudo with _ | pseudo
  · trivial
  simp only
  split <;> trivial

/-- Such a program changes nothing in the table. -/
theorem wp_apart {cfg : Cfg} {uid : Uid} {named : Bool} {p : SysM α} {P : Sys → Prop}
    {V : α → Prop} {t : LockTable} (hp : Risks cfg uid named True P V p) (hq : p.Issues Sys.Apart)
    (hruns : Runs cfg uid named) (ht : t.Sound uid) :
    wp Sys.answer p (Returns fun a t' => V a ∧ t'.Same t) t := by
  refine wp_mono (wp_of_sat (I := (·.Same t)) (fun c t' hc ht' => ?_) (fun c t' hc ht' => ?_)
    (hp.and_issues hq) (.refl t)) ?_
  · exact answer_apart (ht'.sound ht) hc.2
  · exact (answer_same hc.2 t').trans ht'
  · rintro r t' ⟨ht', hnone, hsome⟩
    rcases r with _ | a
    · rcases Stops.or (hnone rfl) with h | h
      · exact absurd hruns h
      · exact absurd trivial h
    · exact ⟨a, rfl, hsome a rfl, ht'⟩

theorem wp_apart_seq {β : Type} {cfg : Cfg} {uid : Uid} {named : Bool} {p : SysM α}
    {f : α → SysM β} {P : Sys → Prop} {V : α → Prop} {Q : Option β → LockTable → Prop}
    {t : LockTable} (hp : Risks cfg uid named True P V p) (hq : p.Issues Sys.Apart)
    (hruns : Runs cfg uid named) (ht : t.Sound uid) (hnext : ∀ a t', V a → t'.Same t → wp Sys.answer (f a) Q t') :
    wp Sys.answer (p >>= f) Q t :=
  wp_returns_seq (wp_apart hp hq hruns ht) fun a t' h => hnext a t' h.1 h.2

end Apart

/-! ## The calls of the lock -/

section Calls

variable {uid : Uid} {t : LockTable} {fd : ℕ}

theorem answer_openLck (ht : t.Free uid) (db : DbLoc) :
    ((Sys.openLck db).answer t).1 = none ∧ ((Sys.openLck db).answer t).2.Free uid ∨
      ∃ fd, 0 < fd ∧ ((Sys.openLck db).answer t).1 = some fd ∧
        ((Sys.openLck db).answer t).2.Opened uid fd := by
  rcases hfd : t.io t.tick (.openLck db) with _ | fd
  · simp only [Sys.answer, hfd]
    exact .inl ⟨trivial, ⟨ht.plain, ht.nonzero, ht.once⟩, ht.fds, ht.owned⟩
  · have hpos : 0 < fd := Nat.pos_of_ne_zero fun h => ht.nonzero t.tick db (h ▸ hfd)
    simp only [Sys.answer, hfd]
    refine .inr ⟨fd, hpos, rfl, ⟨ht.plain, ht.nonzero, ?_⟩, ⟨t.inode t.tick, ?_⟩, ht.owned⟩
    · simp [ht.once, ht.fds]
    · simp [ht.fds]

theorem answer_setlk (ht : t.Opened uid fd) :
    ((Sys.setlk fd).answer t).1 = false ∧ ((Sys.setlk fd).answer t).2.Opened uid fd ∨
      ((Sys.setlk fd).answer t).1 = true ∧ ((Sys.setlk fd).answer t).2.HeldBy uid fd := by
  obtain ⟨i, hfds, hinode⟩ := ht.inodeOf
  rcases hio : t.io t.tick (.setlk fd) with _ | _
  · simp only [Sys.answer, hinode, hio]
    exact .inl ⟨trivial, ⟨ht.plain, ht.nonzero, ht.once⟩, ht.fds, ht.owned⟩
  · simp only [Sys.answer, hinode, hio]
    refine .inr ⟨trivial, ⟨ht.plain, ht.nonzero, ht.once⟩, i, hfds, fun j => ?_⟩
    by_cases hj : j = i
    · simp [hj]
    · simp [ht.owned, hj]

theorem answer_unlck (ht : t.HeldBy uid fd) :
    ((Sys.unlck fd).answer t).2.Opened uid fd ∨ ((Sys.unlck fd).answer t).2.HeldBy uid fd := by
  obtain ⟨i, hfds, -, -⟩ := ht.inodeOf
  rcases hio : t.io t.tick (.unlck fd) with _ | _
  · simp only [Sys.answer, hio]
    exact .inr ⟨⟨ht.plain, ht.nonzero, ht.once⟩, ht.fds⟩
  · simp only [Sys.answer, hio]
    exact .inl ⟨⟨ht.plain, ht.nonzero, ht.once⟩, ⟨i, hfds⟩, ht.disown⟩

/-- Closing the one descriptor leaves nothing behind, whether or not the lock
was given up before. -/
theorem answer_close (ht : t.Opened uid fd ∨ t.HeldBy uid fd) :
    ((Sys.close fd).answer t).2.Free uid := by
  have hsound : t.Sound uid := ht.elim (·.toSound) (·.toSound)
  obtain ⟨i, hfds⟩ : ∃ i, t.fds = [(fd, i)] := by
    rcases ht with ht | ht
    · exact ht.fds
    · exact ht.fds.imp fun _ h => h.1
  refine ⟨⟨hsound.plain, hsound.nonzero, hsound.once⟩, ?_, fun j => ?_⟩
  · simp [Sys.answer, hfds]
  · change t.disown fd j = false
    rcases ht with ht | ht
    · simp [LockTable.disown, ht.owned]
    · exact ht.disown j

end Calls

/-! ## Locking and unlocking -/

/-- The number in a state is that of the descriptor which is open and locked,
and -1 if there is none. -/
inductive Tracks (uid : Uid) (s : State) (t : LockTable) : Prop where
  | free (hn : s.named = true) (hlock : s.lock = -1) (h : t.Free uid)
  | held (fd : ℕ) (hfd : 0 < fd) (hn : s.named = true) (hlock : s.lock = fd)
      (h : t.HeldBy uid fd)

section

variable {cfg : Cfg} {uid : Uid} {s s' : State} {t t' : LockTable}

theorem Tracks.sound (h : Tracks uid s t) : t.Sound uid := by
  cases h with
  | free _ _ h => exact h.toSound
  | held _ _ _ _ h => exact h.toSound

theorem Tracks.named (h : Tracks uid s t) : s.named = true := by
  cases h with
  | free hn => exact hn
  | held _ _ hn => exact hn

theorem Tracks.same (h : Tracks uid s t) (ht : t'.Same t) (hn : s'.named = s.named)
    (hs : s'.lock = s.lock) : Tracks uid s' t' := by
  cases h with
  | free hn' hlock h => exact .free (hn.trans hn') (hs.trans hlock) (ht.free h)
  | held fd hfd hn' hlock h =>
    exact .held fd hfd (hn.trans hn') (hs.trans hlock) (ht.heldBy h)

theorem Tracks.free_of_unlocked (h : Tracks uid s t) (hlock : s.lock ≤ 0) :
    s.lock = -1 ∧ t.Free uid := by
  cases h with
  | free _ hlock h => exact ⟨hlock, h⟩
  | held fd hfd _ hlock' h => omega

/-- How an attempt to lock ends. -/
inductive LockTry (uid : Uid) (s : State) : ℕ → State → LockTable → Prop where
  | locked (fd : ℕ) (t' : LockTable) (hfd : 0 < fd) (h : t'.HeldBy uid fd) :
      LockTry uid s 0 (s.setLock fd) t'
  | failed (ret : ℕ) (t' : LockTable) (hret : LoadError ret) (h : t'.Free uid) :
      LockTry uid s ret s t'

theorem setlkLoop_table {fd : ℕ} (n : ℕ) (ht : t.Opened uid fd) :
    wp Sys.answer (setlkLoop fd n) (Returns fun locked t' =>
      locked = true ∧ t'.HeldBy uid fd ∨ locked = false ∧ t'.Opened uid fd) t := by
  induction n generalizing t with
  | zero => exact ⟨false, rfl, .inr ⟨rfl, ht⟩⟩
  | succ n ih =>
    refine (wp_issue_bind _).mpr ?_
    rcases answer_setlk ht with ⟨hx, ht'⟩ | ⟨hx, ht'⟩
    · rw [hx, if_neg (by simp)]
      exact ih ht'
    · rw [hx, if_pos rfl]
      exact ⟨true, rfl, .inl ⟨rfl, ht'⟩⟩

theorem dbFileLock_table (hruns : Runs cfg uid s.named) (hlock : s.lock = -1) (ht : t.Free uid) :
    wp Sys.answer (dbFileLock cfg s) (Returns fun r t' => LockTry uid s r.1 r.2 t') t := by
  have hfail (ret : ℕ) (t' : LockTable) (hret : LoadError ret) (ht' : t'.Free uid) :
      wp Sys.answer (pure (ret, s) : SysM (ℕ × State))
        (Returns fun r t' => LockTry uid s r.1 r.2 t') t' :=
    ⟨(ret, s), rfl, .failed ret t' hret ht'⟩
  rw [dbFileLock, wp_assert_bind, if_pos hlock]
  refine wp_apart_seq (dbPath_risks s.username true) (dbPath_apart _ _ _) hruns ht.toSound ?_
  rintro r t1 (rfl | ⟨ret, rfl, hret, -⟩) h1
  swap
  · exact hfail ret t1 hret (h1.free ht)
  replace ht := h1.free ht
  refine wp_apart_seq (dbFilePermissions_sat _ _).risks (dbFilePermissions_apart _ _ _) hruns
    ht.toSound ?_
  rintro ret t2 - h2
  replace ht := h2.free ht
  split_ifs with hio hhome
  · exact hfail _ t2 (by simp [LoadError]) ht
  · exact hfail _ t2 (by simp [LoadError, hhome]) ht
  refine (wp_issue_bind _).mpr ?_
  rcases answer_openLck ht (dbLoc cfg s.username) with ⟨hx, ht'⟩ | ⟨fd, hfd, hx, ht'⟩
  · rw [hx]
    exact hfail _ _ (by simp [LoadError]) ht'
  rw [hx]
  refine wp_returns_seq (setlkLoop_table 20 ht') ?_
  rintro _ t3 (⟨rfl, ht3⟩ | ⟨rfl, ht3⟩)
  · rw [if_pos rfl]
    exact ⟨(0, s.setLock fd), rfl, .locked fd t3 hfd ht3⟩
  · rw [if_neg (by simp)]
    exact hfail _ _ (by simp [LoadError]) (answer_close (.inl ht3))

/-- Unlocking gives the lock back, whatever `fcntl` answers. -/
theorem dbFileUnlock_table (hcfg : Runs cfg uid true) (h : Tracks uid s t) :
    wp Sys.answer (dbFileUnlock cfg s)
      (Returns fun r t' => r.2 = s.setLock (-1) ∧ t'.Free uid) t := by
  have hruns : Runs cfg uid s.named := h.named ▸ hcfg
  refine wp_apart_seq (dbPath_risks s.username false) (dbPath_apart _ _ _) hruns h.sound ?_
  rintro r t1 (rfl | ⟨ret, rfl, -, hok⟩) h1
  swap
  · exact absurd trivial hok
  cases h with
  | free _ hlock ht =>
    simp only
    rw [if_pos (by omega)]
    refine ⟨(0, s), rfl, ?_, h1.free ht⟩
    rw [← hlock, State.setLock_self]
  | held fd hfd _ hlock ht =>
    simp only
    rw [if_neg (by omega)]
    have hnat : s.lock.toNat = fd := by omega
    have hfree : ((Sys.close fd).answer ((Sys.unlck fd).answer
        ((Sys.unlinkLck (dbLoc cfg s.username)).answer t1).2).2).2.Free uid := by
      refine answer_close (answer_unlck ?_)
      have hunlink : Sys.Apart (.unlinkLck (dbLoc cfg s.username)) := trivial
      exact (answer_same hunlink t1).heldBy (h1.heldBy ht)
    rw [hnat]
    exact ⟨_, rfl, rfl, hfree⟩

theorem stateLock_table (hruns : Runs cfg uid s.named) (hlock : s.lock = -1) (ht : t.Free uid) :
    wp Sys.answer (stateLock cfg s) (Returns fun r t' => LockTry uid s r.1 r.2 t') t := by
  unfold stateLock
  rcases hruns.db with hdb | hdb <;> rw [hdb] <;> exact dbFileLock_table hruns hlock ht

theorem stateUnlock_table (hruns : Runs cfg uid true) (h : Tracks uid s t) :
    wp Sys.answer (stateUnlock cfg s)
      (Returns fun r t' => r.2 = s.setLock (-1) ∧ t'.Free uid) t := by
  unfold stateUnlock
  rcases hruns.db with hdb | hdb <;> rw [hdb] <;> exact dbFileUnlock_table hruns h

end

end Otpasswd
