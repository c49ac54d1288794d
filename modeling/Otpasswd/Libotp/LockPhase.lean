import Otpasswd.Lib.Pool
import Otpasswd.Libotp.PppLock

/-!
# Otpasswd.Libotp.LockPhase — the lock discipline of the library

What a process does with the lock of one database, as an automaton over its
system calls: the lock file is opened once, its descriptor is locked, the
database is read and written while the lock is held, and the path is removed
before the descriptor is unlocked and closed.

Main results: `pppStateLoad_follows`, `pppIncrement_follows`,
`pppSkip_follows` and `pppUpdate_follows`: the operations keep to that,
whatever they are answered.
-/

namespace Otpasswd

open CText Prog

/-! ## Phases -/

/-- How far a process is with the lock. -/
inductive LockPhase where
  | idle
  | opened (fd : ℕ)
  | held (fd : ℕ)
  | leaving (fd : ℕ)
  | done
deriving DecidableEq

/-- The call has to do neither with the lock nor with a database file. -/
def Sys.Aside : Sys → Prop
  | .openLck _ | .setlk _ | .unlck _ | .close _ | .unlinkLck _ => False
  | .fopenDb _ | .fopenTmp _ | .chownTmp _ | .closeTmp _ _ | .renameTmp _ | .unlinkTmp _ => False
  | .unlinkDb _ => False
  | _ => True

/-- The call reads or writes the database, or its temporary file. -/
def Sys.Touches (loc : DbLoc) : Sys → Prop
  | .fopenDb db | .fopenTmp db | .chownTmp db | .closeTmp db _ | .renameTmp db
  | .unlinkTmp db => db = loc
  | _ => False

namespace LockPhase

/-- The calls of a process in the phase. -/
def Allows (loc : DbLoc) (ph : LockPhase) : Sys → Prop
  | .openLck db => db = loc ∧ ph = .idle
  | .setlk fd => ph = .opened fd
  | .close fd => ph = .opened fd ∨ ph = .leaving fd
  | .unlinkLck db => db = loc ∧ ∃ fd, ph = .held fd
  | .unlck fd => ph = .leaving fd
  | .unlinkDb _ => False
  | c => c.Aside ∨ c.Touches loc ∧ ∃ fd, ph = .held fd

/-- The phase after a call. -/
def next (ph : LockPhase) : (c : Sys) → c.Reply → LockPhase
  | .openLck _, some fd => .opened fd
  | .setlk fd, true => .held fd
  | .close _, _ => .done
  | .unlinkLck _, _ =>
    match ph with
    | .held fd => .leaving fd
    | ph => ph
  | _, _ => ph

/-- The phase of a process with `s` in memory, between its steps with the
lock. -/
def Fits (ph : LockPhase) (s : State) : Prop :=
  (ph = .idle ∨ ph = .done) ∧ s.lock = -1 ∨ ∃ fd : ℕ, ph = .held fd ∧ 0 < fd ∧ s.lock = fd

end LockPhase

/-- The standard descriptors are taken. -/
def Sys.Numbered : (c : Sys) → c.Reply → Prop
  | .openLck _, x => ∀ fd, x = some fd → 2 < fd
  | _, _ => True

/-- One use of the lock of a database. -/
def lockDiscipline (loc : DbLoc) : Discipline Sys Sys.Reply LockPhase where
  known := Sys.Numbered
  allows := LockPhase.Allows loc
  next := LockPhase.next

theorem Sys.Aside.allows {c : Sys} (h : c.Aside) (loc : DbLoc) (ph : LockPhase) :
    ph.Allows loc c := by
  cases c <;> first | exact h.elim | exact .inl h

theorem Sys.Aside.next {c : Sys} (h : c.Aside) (ph : LockPhase) (x : c.Reply) :
    ph.next c x = ph := by
  cases c <;> first | exact h.elim | rfl

theorem Sys.Touches.allows {c : Sys} {loc : DbLoc} (h : c.Touches loc) (fd : ℕ) :
    (LockPhase.held fd).Allows loc c := by
  cases c <;> first | exact h.elim | exact .inr ⟨h, fd, rfl⟩

theorem Sys.Touches.next {c : Sys} {loc : DbLoc} (h : c.Touches loc) (ph : LockPhase)
    (x : c.Reply) : ph.next c x = ph := by
  cases c <;> first | exact h.elim | rfl

/-! ## Programs -/

section Follows

variable {cfg : Cfg} {loc : DbLoc} {ph : LockPhase} {α β : Type}

/-- A program of such calls stays in its phase. -/
theorem follows_aside {P : Sys → Prop} {S : Stop → Prop} {V : α → Prop} {p : SysM α}
    (hp : p.Sat (fun _ _ => True) P S V) (haside : p.Issues Sys.Aside) :
    Follows (lockDiscipline loc) (fun ph' a => ph' = ph ∧ V a) ph p :=
  .stay (hp.and_issues haside) (fun _ _ _ => trivial) (fun _ hc => hc.2.allows loc ph)
    fun _ x hc => hc.2.next ph x

/-- Such a program in front of another. -/
theorem follows_aside_seq {P : Sys → Prop} {S : Stop → Prop} {V : α → Prop} {p : SysM α}
    {f : α → SysM β} {E : LockPhase → β → Prop} (hp : p.Sat (fun _ _ => True) P S V)
    (haside : p.Issues Sys.Aside) (hf : ∀ a, V a → Follows (lockDiscipline loc) E ph (f a)) :
    Follows (lockDiscipline loc) E ph (p >>= f) := by
  refine (follows_aside hp haside).bind fun ph' a h => ?_
  obtain ⟨rfl, hV⟩ := h
  exact hf a hV

/-- A call aside in front of a program. -/
theorem follows_call {c : Sys} {f : c.Reply → SysM α} {E : LockPhase → α → Prop} (hc : c.Aside)
    (hf : ∀ x, Follows (lockDiscipline loc) E ph (f x)) :
    Follows (lockDiscipline loc) E ph (Prog.issue c >>= f) := by
  refine follows_issue_bind (hc.allows loc ph) fun x _ => ?_
  have hnext : (lockDiscipline loc).next ph c x = ph := hc.next ph x
  rw [hnext]
  exact hf x

/-- A call on the database, under the lock. -/
theorem follows_touch {fd : ℕ} {c : Sys} {f : c.Reply → SysM α} {E : LockPhase → α → Prop}
    (hc : c.Touches loc) (hf : ∀ x, Follows (lockDiscipline loc) E (.held fd) (f x)) :
    Follows (lockDiscipline loc) E (.held fd) (Prog.issue c >>= f) := by
  refine follows_issue_bind (hc.allows fd) fun x _ => ?_
  have hnext : (lockDiscipline loc).next (.held fd) c x = .held fd :=
    hc.next (.held fd) x
  rw [hnext]
  exact hf x

/-- The path of a database, if it is found. -/
theorem follows_dbPath {E : LockPhase → α → Prop} {named : Bool} (username : CString)
    (home : Bool) {f : Except ℕ DbLoc → SysM α}
    (hok : Follows (lockDiscipline loc) E ph (f (.ok (dbLoc cfg username))))
    (herror : ∀ ret, ret ≠ 0 → Follows (lockDiscipline loc) E ph (f (.error ret))) :
    Follows (lockDiscipline loc) E ph (dbPath cfg (namePtr named username) home >>= f) := by
  have hpath := @dbPath_finds cfg 0 named False (fun _ _ => True)
    (fun c _ _ => by cases c <;> first | trivial | exact fun h => h.elim) username home
  refine follows_aside_seq hpath (dbPath_issues trivial (fun _ => trivial) _ home) fun r hr => ?_
  rcases hr with rfl | ⟨ret, rfl, hret, -⟩
  · exact hok
  · exact herror ret hret.1

theorem follows_permissions {E : LockPhase → α → Prop} (db : DbLoc) (userHome : Option CString)
    {f : ℕ → SysM α} (hf : ∀ ret, Follows (lockDiscipline loc) E ph (f ret)) :
    Follows (lockDiscipline loc) E ph (dbFilePermissions cfg db userHome >>= f) :=
  follows_aside_seq (sat_true _)
    (dbFilePermissions_issues trivial (fun _ => trivial) (fun _ => trivial) db userHome) fun ret _ => hf ret

end Follows

/-! ## The lock -/

section

variable {cfg : Cfg} {s : State} {ph : LockPhase}

/-- How an attempt at the lock ends. -/
inductive LockTaken (s : State) : LockPhase → ℕ × State → Prop where
  | locked (fd : ℕ) (hfd : 0 < fd) : LockTaken s (.held fd) (0, s.setLock fd)
  | failed (ph : LockPhase) (ret : ℕ) (hph : ph = .idle ∨ ph = .done) (hret : ret ≠ 0) :
      LockTaken s ph (ret, s)

theorem dbFileLock_follows (s : State) :
    Follows (lockDiscipline (dbLoc cfg s.username)) (LockTaken s) .idle (dbFileLock cfg s) := by
  have hfail (ret : ℕ) (hret : ret ≠ 0) :
      Follows (lockDiscipline (dbLoc cfg s.username)) (LockTaken s) .idle
        (pure (ret, s) : SysM (ℕ × State)) := .failed .idle ret (.inl rfl) hret
  -- the attempts, and the descriptor given up after the last one
  have hloop (fd n : ℕ) (hfd : 2 < fd) :
      Follows (lockDiscipline (dbLoc cfg s.username)) (LockTaken s) (.opened fd)
        (setlkLoop fd n >>= fun ok => if ok = true then pure (0, s.setLock fd) else do
          sys (.close fd)
          return (stateLockError, s)) := by
    induction n with
    | zero => exact ⟨.inl rfl, fun _ _ => .failed .done _ (.inr rfl) (by decide)⟩
    | succ n ih =>
      refine ⟨rfl, fun ok _ => ?_⟩
      cases ok with
      | true => exact .locked fd (by omega)
      | false => exact ih
  refine follows_assert_bind fun _ => ?_
  refine follows_dbPath s.username true ?_ fun ret hret => hfail ret hret
  refine follows_permissions _ _ fun ret => ?_
  split_ifs with hio hhome
  · exact hfail _ (by decide)
  · exact hfail _ (by rw [hhome]; decide)
  refine follows_issue_bind ⟨rfl, rfl⟩ fun fd hfd => ?_
  cases fd with
  | none => exact hfail _ (by decide)
  | some fd => exact hloop fd 20 (hfd fd rfl)

/-- The state that an unlock leaves fits the phase it ends in. -/
def Unlocked (s : State) (ph : LockPhase) (r : ℕ × State) : Prop :=
  (∃ lock, r.2 = s.setLock lock) ∧ ph.Fits r.2

theorem dbFileUnlock_follows (h : ph.Fits s) :
    Follows (lockDiscipline (dbLoc cfg s.username)) (Unlocked s) ph (dbFileUnlock cfg s) := by
  have hkept (ret : ℕ) : Follows (lockDiscipline (dbLoc cfg s.username)) (Unlocked s) ph
      (pure (ret, s) : SysM (ℕ × State)) := ⟨⟨s.lock, (s.setLock_self).symm⟩, h⟩
  refine follows_dbPath s.username false ?_ fun ret _ => hkept ret
  rcases h with ⟨hph, hlock⟩ | ⟨fd, rfl, hfd, hlock⟩
  · simp only
    rw [if_pos (by omega)]
    exact hkept 0
  · simp only
    rw [if_neg (by omega), hlock]
    refine ⟨⟨rfl, fd, rfl⟩, fun _ _ => ?_⟩
    refine ⟨rfl, fun ok _ => ?_⟩
    exact ⟨.inr rfl, fun _ _ => ⟨⟨-1, rfl⟩, .inl ⟨.inr rfl, rfl⟩⟩⟩

theorem LockPhase.Fits.of_lock {s' : State} (h : ph.Fits s) (hs : s'.lock = s.lock) :
    ph.Fits s' := by
  rcases h with ⟨hph, hlock⟩ | ⟨fd, hph, hfd, hlock⟩
  · exact .inl ⟨hph, hs.trans hlock⟩
  · exact .inr ⟨fd, hph, hfd, hs.trans hlock⟩

/-! ## Loading and storing -/

/-- The state that a load leaves. -/
def Loaded (s : State) (ph : LockPhase) (r : ℕ × State) : Prop :=
  r.2.username = s.username ∧ ph.Fits r.2

theorem dbFileRead_follows {fd : ℕ} :
    Follows (lockDiscipline (dbLoc cfg s.username))
      (fun ph r => ph = .held fd ∧ s.Beside r.2) (.held fd)
      (dbFileRead (dbLoc cfg s.username) s) := by
  have hkept (ret : ℕ) : Follows (lockDiscipline (dbLoc cfg s.username))
      (fun ph r => ph = .held fd ∧ s.Beside r.2) (.held fd) (pure (ret, s) : SysM (ℕ × State)) :=
    ⟨rfl, .refl s⟩
  refine follows_touch rfl fun x => ?_
  cases x with
  | noent => exact hkept _
  | error => exact hkept _
  | opened f =>
    simp only
    split
    · exact hkept _
    split
    · exact hkept _
    · exact ⟨rfl, dbLoadFields_beside _ s⟩

theorem dbFileLoad_follows (h : ph.Fits s) (hph : ph ≠ .done) :
    Follows (lockDiscipline (dbLoc cfg s.username))
      (fun ph' r => Loaded s ph' r ∧ (∀ fd, ph = .held fd → ph' = .held fd)) ph
      (dbFileLoad cfg s) := by
  have hkept (ret : ℕ) : Follows (lockDiscipline (dbLoc cfg s.username))
      (fun ph' r => Loaded s ph' r ∧ (∀ fd, ph = .held fd → ph' = .held fd)) ph
      (pure (ret, s) : SysM (ℕ × State)) := ⟨⟨rfl, h⟩, fun _ h => h⟩
  refine follows_dbPath s.username true ?_ fun ret _ => hkept ret
  refine follows_permissions _ _ fun ret => ?_
  split
  · exact hkept ret
  rcases h with ⟨hidle, hlock⟩ | ⟨fd, rfl, hfd, hlock⟩
  · -- the load takes the lock itself
    obtain rfl : ph = .idle := hidle.resolve_right hph
    rw [if_pos (by omega)]
    refine (dbFileLock_follows s).bind fun ph' r hr => ?_
    cases hr with
    | failed ph' ret hph' hret =>
      simp only
      rw [if_pos hret]
      exact ⟨⟨rfl, .inl ⟨hph', hlock⟩⟩, fun _ h => by cases h⟩
    | locked fd hfd =>
      simp only
      rw [if_neg (by simp)]
      have hread := @dbFileRead_follows cfg (s.setLock fd) fd
      refine hread.bind fun ph' r hr => ?_
      obtain ⟨rfl, hbeside⟩ := hr
      have hfits : (LockPhase.held fd).Fits r.2 := .inr ⟨fd, rfl, hfd, hbeside.lock⟩
      have hname : r.2.username = s.username := hbeside.username
      have hunlock := @dbFileUnlock_follows cfg r.2 _ hfits
      rw [hname] at hunlock
      refine hunlock.bind fun ph' r' hr' => ?_
      obtain ⟨⟨lock, hlock'⟩, hfits'⟩ := hr'
      refine ⟨⟨?_, hfits'⟩, fun _ h => by cases h⟩
      simp only
      rw [hlock']
      exact hname
  · rw [if_neg (by omega)]
    refine dbFileRead_follows.mono fun ph' r hr => ?_
    obtain ⟨rfl, hbeside⟩ := hr
    exact ⟨⟨hbeside.username, .inr ⟨fd, rfl, hfd, hbeside.lock.trans hlock⟩⟩, fun _ h => h⟩

theorem dbFileCleanup_follows {fd : ℕ} (loc : DbLoc) (ret : ℕ) (out : Option OutFile) :
    Follows (lockDiscipline loc) (fun ph _ => ph = .held fd) (.held fd)
      (dbFileCleanup cfg loc ret out) := by
  have hrest : Follows (lockDiscipline loc) (fun ph _ => ph = .held fd) (.held fd)
      (if ret = 0 then do
        if ← sys (.renameTmp loc) then
          let _ ← dbFilePermissions cfg loc none
          return 0
        else return stateIoError
      else do
        sys (.unlinkTmp loc)
        return ret : SysM ℕ) := by
    split
    · refine follows_touch rfl fun renamed => ?_
      split
      · exact follows_permissions _ _ fun _ => rfl
      · exact rfl
    · exact follows_touch rfl fun _ => rfl
  cases out with
  | none => exact hrest
  | some out => exact follows_touch rfl fun _ => hrest

theorem dbFileWrite_follows {fd : ℕ} (loc : DbLoc) (s : State) :
    Follows (lockDiscipline loc) (fun ph _ => ph = .held fd) (.held fd)
      (dbFileWrite cfg loc s false) := by
  have hown {f : Bool → SysM ℕ}
      (hf : ∀ owned,
        Follows (lockDiscipline loc) (fun ph _ => ph = .held fd) (.held fd) (f owned)) :
      Follows (lockDiscipline loc) (fun ph _ => ph = .held fd) (.held fd)
        (dbOwnTmp cfg loc >>= f) := by
    refine Follows.bind (E := fun ph _ => ph = .held fd) ?_ fun ph owned h => ?_
    · unfold dbOwnTmp
      refine follows_call trivial fun euid => ?_
      split
      · exact rfl
      refine follows_call trivial fun st => ?_
      cases st with
      | none =>
        simp only
        split
        · exact rfl
        · exact follows_touch rfl fun _ => rfl
      | some st => exact follows_touch rfl fun _ => rfl
    · rw [h]
      exact hf owned
  have htmp (inp : Option InFile) :
      Follows (lockDiscipline loc) (fun ph _ => ph = .held fd) (.held fd)
        (dbFileWrite.dbFileWriteTmp cfg loc s false inp) := by
    refine follows_touch rfl fun out => ?_
    cases out with
    | none => exact dbFileCleanup_follows loc _ _
    | some out =>
      refine hown fun owned => ?_
      split
      · exact dbFileCleanup_follows loc _ _
      split
      · exact dbFileCleanup_follows loc _ _
      · refine follows_touch rfl fun closed => ?_
        split <;> exact dbFileCleanup_follows loc _ _
  unfold dbFileWrite
  rw [if_neg (by simp)]
  refine follows_touch rfl fun inp => ?_
  cases inp with
  | noent => exact htmp _
  | error => exact dbFileCleanup_follows loc _ _
  | opened f => exact htmp _

/-! ## States -/

theorem stateLock_follows (s : State) :
    Follows (lockDiscipline (dbLoc cfg s.username)) (LockTaken s) .idle (stateLock cfg s) := by
  unfold stateLock
  split
  · exact dbFileLock_follows s
  · exact dbFileLock_follows s
  · trivial

theorem stateUnlock_follows (h : ph.Fits s) :
    Follows (lockDiscipline (dbLoc cfg s.username)) (Unlocked s) ph (stateUnlock cfg s) := by
  unfold stateUnlock
  split
  · exact dbFileUnlock_follows h
  · exact dbFileUnlock_follows h
  · trivial

/-- The write of a state that is locked. -/
theorem stateWrite_follows {fd : ℕ} (hlock : s.lock = fd) (hfd : 0 < fd) :
    Follows (lockDiscipline (dbLoc cfg s.username)) (fun ph r => ph = .held fd ∧ r.2 = s)
      (.held fd) (stateWrite cfg s false) := by
  have hstore : Follows (lockDiscipline (dbLoc cfg s.username))
      (fun ph r => ph = .held fd ∧ r.2 = s) (.held fd) (dbFileStore cfg s false) := by
    refine follows_dbPath s.username false ?_ fun ret _ => ⟨rfl, rfl⟩
    simp only
    rw [if_neg (by omega)]
    refine (dbFileWrite_follows _ s).bind fun ph' ret h => ?_
    exact ⟨h, rfl⟩
  unfold stateWrite
  split
  · exact hstore
  · exact hstore
  · trivial

theorem stateStore_follows (h : ph.Fits s) (hph : ph ≠ .done) :
    Follows (lockDiscipline (dbLoc cfg s.username)) (Loaded s) ph (stateStore cfg s false) := by
  have hkept (ret : ℕ) : Follows (lockDiscipline (dbLoc cfg s.username)) (Loaded s) ph
      (pure (ret, s) : SysM (ℕ × State)) := ⟨rfl, h⟩
  refine follows_assert_bind fun _ => ?_
  split
  · -- a new key is stored under a lock of its own
    refine follows_assert_bind fun hunlocked => ?_
    obtain rfl : ph = .idle := by
      rcases h with ⟨hidle, -⟩ | ⟨fd, -, hfd, hlock⟩
      · exact hidle.resolve_right hph
      · omega
    have hidle : s.lock = -1 := by
      rcases h with ⟨-, hlock⟩ | ⟨fd, hheld, -, -⟩
      · exact hlock
      · cases hheld
    refine (stateLock_follows s).bind fun ph' r hr => ?_
    cases hr with
    | failed ph' ret hph' hret =>
      simp only
      rw [if_pos hret]
      exact ⟨rfl, .inl ⟨hph', hidle⟩⟩
    | locked fd hfd =>
      have hpos : ¬ (s.setLock fd).lock ≤ 0 := by
        change ¬ (fd : ℤ) ≤ 0
        omega
      simp only
      rw [if_neg (by simp), if_neg hpos]
      have hwrite := @stateWrite_follows cfg ((s.setLock fd).setNewKey false) fd rfl hfd
      refine hwrite.bind fun ph' r hr => ?_
      obtain ⟨rfl, hs⟩ := hr
      have hfits : (LockPhase.held fd).Fits r.2 := by
        rw [hs]
        exact .inr ⟨fd, rfl, hfd, rfl⟩
      have hunlock := @stateUnlock_follows cfg r.2 _ hfits
      have hname : r.2.username = s.username := by rw [hs]; rfl
      rw [hname] at hunlock
      refine hunlock.bind fun ph'' r' hr' => ?_
      obtain ⟨⟨lock, hlock⟩, hfits'⟩ := hr'
      refine ⟨?_, hfits'⟩
      simp only
      rw [hlock]
      exact hname
  · split
    · exact hkept 2
    · rename_i hpos
      rcases h with ⟨-, hlock⟩ | ⟨fd, rfl, hfd, hlock⟩
      · omega
      · have hwrite := @stateWrite_follows cfg (s.setNewKey false) fd hlock hfd
        refine hwrite.mono fun ph' r hr => ?_
        obtain ⟨rfl, hs⟩ := hr
        rw [Loaded, hs]
        exact ⟨rfl, .inr ⟨fd, rfl, hfd, hlock⟩⟩

/-- What a release leaves. -/
theorem pppStateRelease_follows (flags : PppOptions) (hflags : flags.remove = false)
    (h : ph.Fits s) (hph : ph ≠ .done) :
    Follows (lockDiscipline (dbLoc cfg s.username)) (Loaded s) ph
      (pppStateRelease cfg s flags) := by
  have hstore : Follows (lockDiscipline (dbLoc cfg s.username)) (Loaded s) ph
      (pppReleaseStore cfg s flags) := by
    unfold pppReleaseStore
    rw [hflags, if_neg (by simp)]
    split
    · exact stateStore_follows h hph
    · exact ⟨rfl, h⟩
  refine follows_assert_bind fun _ => ?_
  split
  · exact ⟨rfl, h⟩
  refine hstore.bind fun ph' r hr => ?_
  obtain ⟨ret, s1⟩ := r
  obtain ⟨hname, hfits⟩ := hr
  simp only
  unfold pppReleaseUnlock
  split
  · have hunlock := @stateUnlock_follows cfg s1 _ hfits
    rw [hname] at hunlock
    refine hunlock.bind fun ph'' r' hr' => ?_
    obtain ⟨⟨lock, hlock⟩, hfits'⟩ := hr'
    refine ⟨?_, hfits'⟩
    simp only
    rw [hlock]
    exact hname
  · exact ⟨hname, hfits⟩

theorem pppStateRead_follows (h : ph.Fits s) (hph : ph ≠ .done) :
    Follows (lockDiscipline (dbLoc cfg s.username))
      (fun ph' r => Loaded s ph' r ∧ (∀ fd, ph = .held fd → ph' = .held fd)) ph
      (pppStateRead cfg s) := by
  have hload : Follows (lockDiscipline (dbLoc cfg s.username))
      (fun ph' r => Loaded s ph' r ∧ (∀ fd, ph = .held fd → ph' = .held fd)) ph
      (stateLoad cfg s) := by
    unfold stateLoad
    split
    · exact dbFileLoad_follows h hph
    · exact dbFileLoad_follows h hph
    · trivial
  refine hload.bind fun ph' r hr => ?_
  obtain ⟨ret, s1⟩ := r
  obtain ⟨⟨hname, hfits⟩, hheld⟩ := hr
  simp only
  split
  · exact ⟨⟨hname, hfits⟩, hheld⟩
  · have hcalculate : (pppCalculate s1).Sat (fun _ _ => True) Sys.Aside (fun _ => True) (· = calculate s1) :=
      (sat_assert_bind _).mpr ⟨fun _ => (sat_assert_bind _).mpr ⟨fun _ => rfl, fun _ => trivial⟩,
        fun _ => trivial⟩
    have hissues : (pppCalculate s1).Issues Sys.Aside :=
      hcalculate.mono (fun _ h => h) (fun _ _ => trivial) fun _ _ => trivial
    refine follows_aside_seq hcalculate hissues fun s2 hs2 => ?_
    subst hs2
    have hverify : (pppVerifyRange (calculate s1)).Issues Sys.Aside :=
      (sat_assert_bind _).mpr ⟨fun _ => trivial, fun _ => trivial⟩
    have hlock : (calculate s1).lock = s1.lock := by simp only [calculate]
    have hend (ret : ℕ) : Loaded s ph' (ret, calculate s1) :=
      ⟨(show (calculate s1).username = s1.username by simp only [calculate]).trans hname,
        hfits.of_lock hlock⟩
    exact follows_aside_seq (sat_true _) hverify fun ret _ => ⟨hend ret, hheld⟩

/-- How `ppp_state_load` with a lock ends. -/
def LoadedLocked (s : State) (ph : LockPhase) (r : ℕ × State) : Prop :=
  Loaded s ph r ∧ (r.1 = 0 → ph ≠ .done)

theorem pppStateLoad_follows (hlock : s.lock = -1) :
    Follows (lockDiscipline (dbLoc cfg s.username)) (LoadedLocked s) .idle
      (pppStateLoad cfg s {}) := by
  refine (stateLock_follows s).bind fun ph' r hr => ?_
  cases hr with
  | failed ph' ret hph' hret =>
    simp only
    rw [if_pos hret]
    exact ⟨⟨rfl, .inl ⟨hph', hlock⟩⟩, fun h => absurd h hret⟩
  | locked fd hfd =>
    simp only
    rw [if_neg (by simp)]
    have hfits : (LockPhase.held fd).Fits (s.setLock fd) := .inr ⟨fd, rfl, hfd, rfl⟩
    have hread := @pppStateRead_follows cfg (s.setLock fd) _ hfits (by simp)
    refine hread.bind fun ph' r hr => ?_
    obtain ⟨ret, s1⟩ := r
    obtain ⟨⟨hname, hfits⟩, hheld⟩ := hr
    obtain rfl := hheld fd rfl
    simp only
    split
    · rename_i hret
      have hunlock := @stateUnlock_follows cfg s1 _ hfits
      rw [hname] at hunlock
      refine hunlock.bind fun ph'' r' hr' => ?_
      obtain ⟨⟨lock, hlock'⟩, hfits'⟩ := hr'
      refine ⟨⟨?_, hfits'⟩, fun h => absurd h hret⟩
      simp only
      rw [hlock']
      exact hname
    · exact ⟨⟨hname, hfits⟩, fun _ => by simp⟩

/-! ## Operations -/

theorem pppStateVerify_follows {loc : DbLoc} {E : LockPhase → ℕ × State → Prop}
    {f : ℕ → SysM (ℕ × State)} (hf : ∀ ret, Follows (lockDiscipline loc) E ph (f ret)) :
    Follows (lockDiscipline loc) E ph (pppStateVerify cfg s >>= f) := by
  have hverify : (pppStateVerify cfg s).Issues Sys.Aside := by
    unfold pppStateVerify
    split_ifs
    · trivial
    · trivial
    · trivial
    · refine Sat.bind (V := fun _ => True) ?_ fun ret _ => ?_
      · exact (sat_assert_bind _).mpr ⟨fun _ => trivial, fun _ => trivial⟩
      · split <;> trivial
  exact follows_aside_seq (sat_true _) hverify fun ret _ => hf ret

theorem counterOp_follows (last : State → ℕ) (upd : State → State) (fin : State → State → State)
    (hupd : ∀ s, (upd s).username = s.username ∧ (upd s).lock = s.lock)
    (hfin : ∀ s s', (fin s s').username = s'.username ∧ (fin s s').lock = s'.lock)
    (hlock : s.lock = -1) :
    Follows (lockDiscipline (dbLoc cfg s.username)) (Loaded s) .idle
      (counterOp cfg s last upd fin) := by
  refine (pppStateLoad_follows hlock).bind fun ph' r hr => ?_
  obtain ⟨ret, s1⟩ := r
  obtain ⟨⟨hname, hfits⟩, hph⟩ := hr
  simp only
  split
  · exact ⟨hname, hfits⟩
  rename_i hret
  have hph := hph (not_not.mp hret)
  refine pppStateVerify_follows fun verify => ?_
  generalize (if verify ≠ 0 then verify
    else if pppFlagCheck s1 flagDisabled = true then pppErrorDisabled else last s1) = code
  split
  · have hrelease := @pppStateRelease_follows cfg s1 ph' { unlock := true } rfl hfits hph
    rw [show s1.username = s.username from hname] at hrelease
    refine hrelease.bind fun ph'' r hr => ?_
    exact ⟨hr.1.trans hname, hr.2⟩
  · have hfits' : ph'.Fits (upd s1) := hfits.of_lock (hupd s1).2
    have hname' : (upd s1).username = s.username := (hupd s1).1.trans hname
    have hrelease := @pppStateRelease_follows cfg (upd s1) ph' { store := true, unlock := true }
      rfl hfits' hph
    rw [hname'] at hrelease
    refine hrelease.bind fun ph'' r hr => ?_
    obtain ⟨ret', s2⟩ := r
    obtain ⟨hname2, hfits2⟩ := hr
    exact ⟨(hfin s1 s2).1.trans (hname2.trans hname'), hfits2.of_lock (hfin s1 s2).2⟩

theorem pppIncrement_follows (hlock : s.lock = -1) :
    Follows (lockDiscipline (dbLoc cfg s.username)) (Loaded s) .idle (pppIncrement cfg s) := by
  rw [pppIncrement_eq]
  exact counterOp_follows _ _ _ (fun _ => ⟨rfl, rfl⟩) (fun _ _ => ⟨rfl, rfl⟩) hlock

theorem pppSkip_follows (skipTo : Num) (hlock : s.lock = -1) :
    Follows (lockDiscipline (dbLoc cfg s.username)) (Loaded s) .idle (pppSkip cfg s skipTo) := by
  rw [pppSkip_eq]
  exact counterOp_follows _ _ _ (fun _ => ⟨rfl, rfl⟩) (fun _ _ => ⟨rfl, rfl⟩) hlock

theorem stateFini_follows (h : ph.Fits s) :
    Follows (lockDiscipline (dbLoc cfg s.username)) (fun _ _ => True) ph (stateFini cfg s) := by
  unfold stateFini
  split
  · exact (stateUnlock_follows h).bind fun _ _ _ => trivial
  · trivial

/-- `ppp_failures` and `ppp_oob_time`. -/
theorem pppUpdate_follows (named : Bool) (u : CString) (change : State → SysM State)
    (hchange : ∀ s, (change s).Sat (fun _ _ => True) Sys.Aside (fun _ => True)
      (fun s' => s'.username = s.username ∧ s'.lock = s.lock)) :
    Follows (lockDiscipline (dbLoc cfg u)) (fun _ _ => True) .idle
      (pppUpdate cfg (namePtr named u) change) := by
  -- the state is made without a call that touches the files
  have hinit : (pppStateInit cfg (namePtr named u)).Sat (fun _ _ => True) Sys.Aside (fun _ => True)
      (fun r => ∀ s, r = .ok s → s.username = u ∧ s.lock = -1) := by
    refine (sat_issue_bind _).mpr ⟨trivial, fun junk _ => ?_⟩
    cases junk with
    | none => exact fun s h => by cases h
    | some junk =>
      have hstate : (stateInit cfg junk (namePtr named u)).Sat (fun _ _ => True) Sys.Aside
          (fun _ => True) (fun s => s.username = u ∧ s.lock = -1) := by
        cases named with
        | false => trivial
        | true =>
          exact (sat_assert_bind _).mpr ⟨fun _ => ⟨trivial, fun _ _ => ⟨rfl, rfl⟩⟩, fun _ => trivial⟩
      refine hstate.bind fun s hs s' h => ?_
      obtain rfl := Except.ok.inj h
      exact hs
  have haside : (pppStateInit cfg (namePtr named u)).Issues Sys.Aside :=
    hinit.mono (fun _ h => h) (fun _ _ => trivial) fun _ _ => trivial
  refine follows_aside_seq hinit haside fun r hr => ?_
  cases r with
  | error ret => trivial
  | ok tmp =>
    obtain ⟨rfl, hlock⟩ := hr tmp rfl
    -- then it is loaded, changed and released under one lock
    refine (pppStateLoad_follows hlock).bind fun ph' r hr => ?_
    obtain ⟨ret, s1⟩ := r
    obtain ⟨⟨hname, hfits⟩, hph⟩ := hr
    have hfini {ph : LockPhase} {s : State} (hs : s.username = tmp.username) (hfits : ph.Fits s)
        (ret : ℕ) : Follows (lockDiscipline (dbLoc cfg tmp.username)) (fun _ _ => True) ph
          (do
            stateFini cfg s
            return ret : SysM ℕ) := by
      have hfini := @stateFini_follows cfg s ph hfits
      rw [hs] at hfini
      exact hfini.bind fun _ _ _ => trivial
    simp only
    split
    · exact hfini hname hfits ret
    rename_i hret
    have hph := hph (not_not.mp hret)
    have hissues : (change s1).Issues Sys.Aside :=
      (hchange s1).mono (fun _ h => h) (fun _ _ => trivial) fun _ _ => trivial
    refine follows_aside_seq (hchange s1) hissues fun s2 hs2 => ?_
    -- the change touches neither the name nor the lock
    have hname2 : s2.username = tmp.username := hs2.1.trans hname
    have hfits2 : ph'.Fits s2 := hfits.of_lock hs2.2
    have hrelease := @pppStateRelease_follows cfg s2 ph' { unlock := true, store := true } rfl
      hfits2 hph
    rw [hname2] at hrelease
    refine hrelease.bind fun ph'' r hr => ?_
    exact hfini (hr.1.trans hname2) hr.2 r.1

end

end Otpasswd
