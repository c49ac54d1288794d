import Otpasswd.Libotp.DbFile

/-!
# Otpasswd.Libotp.DbCalls — the calls of the file database

What the system calls of `Otpasswd.Libotp.DbFile` can answer and what they
leave alone, and from it the functions around a load or a store: paths,
permissions and the lock.

Main results: `dbPath_meets`, `dbFilePermissions_sat`, `dbFileLock_until` and
`dbFileUnlock_sat`.
-/

namespace Otpasswd

open CText Prog

/-! ## Calls that leave the databases alone -/

/-- The call does not write a database file. -/
def Sys.Quiet : Sys → Prop
  | .renameTmp _ => False
  | .unlinkDb _ => False
  | _ => True

/-- The call is one of the two that take a lock. -/
def Sys.Locking : Sys → Prop
  | .openLck _ => True
  | .setlk _ => True
  | _ => False

/-- The call neither writes a database nor takes a lock. -/
def Sys.Calm (c : Sys) : Prop := c.Quiet ∧ ¬ c.Locking

/-- The answers a process with user id `uid` can get, where `ok` says that no
call fails. -/
def Sys.Answers (uid : Uid) (ok : Prop) : (c : Sys) → c.Reply → Prop
  | .getuid, x => x = uid
  | .malloc, x => ok → x = true
  | .strdup, x => ok → x = true
  | .getpwnam _, x => ok → x = true
  | .unlck _, x => ok → x = true
  | .openLck _, x => ∀ fd, x = some fd → 2 < fd
  | .fopenDb _, x => ∀ f, x = .opened f → f.eof = false
  | _, _ => True

/-- Every call succeeds. -/
def World.AllOk (w : World) : Prop := ∀ t, (w.io t).ok = true

/-- What is left of `Sys.Answers` when `ok` says less. -/
theorem Sys.Answers.mono {uid : Uid} {ok ok' : Prop} (h : ok' → ok) {c : Sys} {x : c.Reply}
    (hx : Sys.Answers uid ok c x) : Sys.Answers uid ok' c x := by
  cases c <;> first | exact hx | exact fun h' => hx (h h')

/-- The lock is granted. -/
def Sys.Grants : (c : Sys) → c.Reply → Prop
  | .setlk _, ok => ok = true
  | _, _ => False

/-- What the library asserts about the configuration, its caller and the user
name it is given. -/
structure Runs (cfg : Cfg) (uid : Uid) (named : Bool) : Prop where
  name : named = true
  db : cfg.db = .global ∨ cfg.db = .user
  caller : uid = 0 ∨ cfg.db = .user ∨ uid = cfg.userUid

/-- On every path the calls satisfy `P` and the values `V`; the program does
not stop if `Runs`. -/
abbrev Meets {α : Type} (cfg : Cfg) (uid : Uid) (named : Bool) (ok : Prop) (P : Sys → Prop)
    (V : α → Prop) (p : SysM α) : Prop :=
  p.Sat (Sys.Answers uid ok) P (Stops (¬ Runs cfg uid named) False) V

/-- As `Meets`, of a program that crashes when a call fails. -/
abbrev Risks {α : Type} (cfg : Cfg) (uid : Uid) (named : Bool) (ok : Prop) (P : Sys → Prop)
    (V : α → Prop) (p : SysM α) : Prop :=
  p.Sat (Sys.Answers uid ok) P (Stops (¬ Runs cfg uid named) (¬ ok)) V

theorem Meets.risks {α : Type} {cfg : Cfg} {uid : Uid} {named : Bool} {ok : Prop} {P : Sys → Prop}
    {V : α → Prop} {p : SysM α} (hp : Meets cfg uid named ok P V p) :
    Risks cfg uid named ok P V p :=
  hp.mono (fun _ h => h) (Stops.mono id False.elim) fun _ h => h

/-- `w'` comes after `w` with the databases of `w`. -/
structure World.Keeps (w' w : World) : Prop where
  file : w'.file = w.file
  io : w'.io = w.io
  uid : w'.uid = w.uid

theorem World.Keeps.refl (w : World) : w.Keeps w := ⟨rfl, rfl, rfl⟩

theorem World.Keeps.trans {w w' w'' : World} (h : w''.Keeps w') (h' : w'.Keeps w) : w''.Keeps w :=
  ⟨h.1.trans h'.1, h.2.trans h'.2, h.3.trans h'.3⟩

theorem exec_io (me : Pid) (c : Sys) (w : World) : (c.exec me w).2.io = w.io := by
  cases c <;> simp only [Sys.exec] <;> (repeat' split) <;> rfl

theorem exec_uid (me : Pid) (c : Sys) (w : World) : (c.exec me w).2.uid = w.uid := by
  cases c <;> simp only [Sys.exec] <;> (repeat' split) <;> rfl

theorem run_io {α : Type} (me : Pid) (p : SysM α) (w : World) :
    (p.run (Sys.exec me) w).2.io = w.io := by
  induction p generalizing w with
  | ret a => rfl
  | stop why => rfl
  | call c k ih => exact (ih _ _).trans (exec_io me c w)

theorem run_uid {α : Type} (me : Pid) (p : SysM α) (w : World) :
    (p.run (Sys.exec me) w).2.uid = w.uid := by
  induction p generalizing w with
  | ret a => rfl
  | stop why => rfl
  | call c k ih => exact (ih _ _).trans (exec_uid me c w)

theorem exec_file {c : Sys} (h : c.Quiet) (me : Pid) (w : World) :
    (c.exec me w).2.file = w.file := by
  cases c <;> simp only [Sys.Quiet] at h <;> simp only [Sys.exec] <;> (repeat' split) <;> rfl

theorem exec_keeps {c : Sys} (h : c.Quiet) (me : Pid) (w : World) : (c.exec me w).2.Keeps w :=
  ⟨exec_file h me w, exec_io me c w, exec_uid me c w⟩

theorem World.Keeps.allOk {w w' : World} (h : w'.Keeps w) : w'.AllOk = w.AllOk := by
  rw [World.AllOk, World.AllOk, h.io]

theorem exec_answers (me : Pid) (c : Sys) (w : World) :
    Sys.Answers (w.uid me) w.AllOk c (c.exec me w).1 := by
  have hok (h : w.AllOk) : w.next.ok = true := h w.tick
  cases c <;> simp only [Sys.Answers, Sys.exec]
  case malloc => exact hok
  case strdup => exact hok
  case getpwnam => exact hok
  case unlck => exact fun h => by rw [if_pos (hok h)]
  case openLck db =>
    intro fd hfd
    split at hfd
    · split at hfd <;> obtain rfl := Option.some.inj hfd <;> omega
    · simp at hfd
  case fopenDb db =>
    intro f hf
    split at hf
    · split at hf <;> simp at hf
    · split at hf
      · rw [← OpenReply.opened.inj hf]
      · simp at hf

theorem fopenDb_cases (me : Pid) (db : DbLoc) (w : World) :
    w.file db = none ∧ (Sys.exec me (.fopenDb db) w).1 = .noent ∨
      (Sys.exec me (.fopenDb db) w).1 = .error ∨
      ∃ text, w.file db = some text ∧
        (Sys.exec me (.fopenDb db) w).1 = .opened ⟨text, false, w.next.fault⟩ := by
  simp only [Sys.exec]
  cases hfile : w.file db <;> cases w.next.ok <;> simp

section Quiet

variable {α β : Type} {P : Sys → Prop} {S : Stop → Prop} {V : α → Prop} {p : SysM α} {me : Pid}
  {w w0 : World}

/-- A quiet program changes no database, and returns one of its values. -/
theorem wp_quiet (h : p.Sat (Sys.Answers (w0.uid me) w0.AllOk) P S V) (hP : ∀ c, P c → c.Quiet)
    (hw : w.Keeps w0) :
    wp (Sys.exec me) p
      (fun r w' => w'.Keeps w0 ∧ (r = none → ∃ why, S why) ∧ ∀ a, r = some a → V a) w :=
  wp_of_sat (I := (·.Keeps w0)) (fun c w' _ hw' => by
      have h := exec_answers me c w'
      rwa [hw'.uid, hw'.allOk] at h)
    (fun c w' hc hw' => (exec_keeps (hP c hc) me w').trans hw') h hw

/-- A quiet program in front of another. -/
theorem wp_quiet_seq {f : α → SysM β} {Q : Option β → World → Prop}
    (h : p.Sat (Sys.Answers (w0.uid me) w0.AllOk) P S V) (hP : ∀ c, P c → c.Quiet) (hw : w.Keeps w0)
    (hstop : ∀ w', w'.Keeps w0 → (∃ why, S why) → Q none w')
    (hnext : ∀ a w', V a → w'.Keeps w0 → wp (Sys.exec me) (f a) Q w') :
    wp (Sys.exec me) (p >>= f) Q w :=
  wp_seq (wp_quiet h hP hw) (fun w' hw' => hstop w' hw'.1 (hw'.2.1 rfl))
    fun a w' hw' => hnext a w' (hw'.2.2 a rfl) hw'.1

end Quiet

theorem Sys.Calm.quiet (c : Sys) (h : c.Calm) : c.Quiet := h.1

theorem Sys.Calm.not_grants {c : Sys} (h : c.Calm) (x : c.Reply) : ¬ Sys.Grants c x := by
  intro hx
  cases c <;> simp only [Sys.Grants] at hx
  exact h.2 trivial

/-! ## The calls of paths and permissions -/

section Issues

variable {cfg : Cfg} {P : Sys → Prop}

theorem dbPath_issues (hmalloc : P .malloc) (hpasswd : ∀ u, P (.getpwnam u))
    (username : Option CString) (home : Bool) : (dbPath cfg username home).Issues P := by
  have hnames (home : Bool) (db : DbLoc) : (dbPathNames home db).Issues P := by
    refine issues_call hmalloc fun lck => issues_call hmalloc fun tmp => ?_
    split_ifs <;> trivial
  unfold dbPath
  split
  · refine issues_call (hpasswd _) fun found => ?_
    split
    · trivial
    refine issues_call hmalloc fun db => ?_
    split
    · trivial
    split
    · refine issues_call hmalloc fun path => ?_
      split
      · trivial
      · exact hnames _ _
    · exact hnames _ _
  · refine issues_call hmalloc fun db => ?_
    split
    · trivial
    · exact hnames _ _
  · trivial

theorem dbFilePermissions_issues (huid : P .getuid) (hstat : ∀ path, P (.stat path))
    (hchown : ∀ db, P (.chownDb db)) (db : DbLoc) (userHome : Option CString) :
    (dbFilePermissions cfg db userHome).Issues P := by
  have howner (uid : Uid) (st : Stat) : (dbFileOwner cfg db uid st).Issues P := by
    unfold dbFileOwner
    split_ifs <;> simp [hchown]
  have hhome : (dbHomeOk userHome).Issues P := by
    unfold dbHomeOk
    rcases userHome with _ | u
    · trivial
    · refine issues_call (hstat _) fun st => ?_
      rcases st with _ | st <;> trivial
  refine issues_call huid fun uid => (sat_assert_bind _).mpr ⟨fun _ => ?_, fun _ => trivial⟩
  split
  · refine issues_call (hstat _) fun st => ?_
    rcases st with _ | st
    · trivial
    simp only
    split_ifs
    · trivial
    · trivial
    · trivial
    refine issues_call (hstat _) fun st => ?_
    rcases st with _ | st
    · trivial
    · exact howner uid st
  · refine hhome.bind fun present => ?_
    split
    · trivial
    refine issues_call (hstat _) fun st => ?_
    rcases st with _ | st
    · trivial
    simp only
    split <;> trivial
  · trivial

end Issues

/-! ## Paths, permissions and locks -/

/-- A return value of a load that has read no entry. (Running out of passcodes
is found out only after reading.) -/
def LoadError (ret : ℕ) : Prop := ret ≠ 0 ∧ ret ≠ stateNumspace

section Sat

variable {cfg : Cfg} {uid : Uid} {named : Bool} {ok : Prop}

/-- One call that is neither a write nor a lock. -/
theorem meets_call {α : Type} {c : Sys} {f : c.Reply → SysM α} {V : α → Prop} (hc : c.Calm)
    (h : ∀ x, Sys.Answers uid ok c x → Meets cfg uid named ok Sys.Calm V (f x)) :
    Meets cfg uid named ok Sys.Calm V (sys c >>= f) :=
  ⟨hc, h⟩

theorem risks_call {α : Type} {c : Sys} {f : c.Reply → SysM α} {V : α → Prop} (hc : c.Calm)
    (h : ∀ x, Sys.Answers uid ok c x → Risks cfg uid named ok Sys.Calm V (f x)) :
    Risks cfg uid named ok Sys.Calm V (sys c >>= f) :=
  ⟨hc, h⟩

/-- A path that is not found, which happens only when a call fails. -/
def NoPath (ok : Prop) (r : Except ℕ DbLoc) : Prop := ∃ ret, r = .error ret ∧ LoadError ret ∧ ¬ ok

/-- Paths are built by two calls only, which succeed if `ok`. -/
def Sys.Finds (ok : Prop) : (c : Sys) → c.Reply → Prop
  | .malloc, x => ok → x = true
  | .getpwnam _, x => ok → x = true
  | _, _ => True

theorem Sys.Answers.finds {c : Sys} {x : c.Reply} (h : Sys.Answers uid ok c x) :
    Sys.Finds ok c x := by
  cases c <;> first | exact h | trivial

section Finds

variable {A : (c : Sys) → c.Reply → Prop} (hA : ∀ c x, A c x → Sys.Finds ok c x)
include hA

theorem dbPathNames_finds (home : Bool) (db : DbLoc) :
    (dbPathNames home db).Sat A Sys.Calm (Stops (¬ Runs cfg uid named) (home = false ∧ ¬ ok))
      (fun r => r = .ok db ∨ NoPath ok r) := by
  refine (sat_issue_bind _).mpr ⟨⟨trivial, id⟩, fun lck hlck => ?_⟩
  refine (sat_issue_bind _).mpr ⟨⟨trivial, id⟩, fun tmp htmp => ?_⟩
  by_cases h : lck = false ∨ tmp = false
  swap
  · rw [if_neg h]
    exact .inl rfl
  have hok : ¬ ok := fun hok => by
    rw [hA _ _ hlck hok, hA _ _ htmp hok] at h
    simp at h
  rw [if_pos h]
  cases home with
  | true => exact .inr ⟨_, rfl, by simp [LoadError], hok⟩
  | false => exact ⟨rfl, hok⟩

theorem dbPath_finds (username : CString) (home : Bool) :
    (dbPath cfg (namePtr named username) home).Sat A Sys.Calm
      (Stops (¬ Runs cfg uid named) (home = false ∧ ¬ ok))
      (fun r => r = .ok (dbLoc cfg username) ∨ NoPath ok r) := by
  have hfail {x : Bool} (hx : ok → x = true) (h0 : x = false) (ret : ℕ) (h : LoadError ret) :
      (Except.error ret : Except ℕ DbLoc) = .ok (dbLoc cfg username) ∨ NoPath ok (.error ret) :=
    .inr ⟨ret, rfl, h, fun hok => by simp [hx hok] at h0⟩
  cases hn : named with
  | false => exact fun h => by have := h.name; simp at this
  | true =>
  change (dbPath cfg (some username) home).Sat _ _ _ _
  unfold dbPath
  cases hdb : cfg.db with
  | user =>
    dsimp only
    have hloc : dbLoc cfg username = .home username := by simp [dbLoc, hdb]
    have hnames (home : Bool) := @dbPathNames_finds cfg uid true ok A hA home (.home username)
    rw [← hloc] at hnames ⊢
    -- the account, the name of the database, and the home if it is asked for
    refine (sat_issue_bind _).mpr ⟨⟨trivial, id⟩, fun exists_ hexists => ?_⟩
    by_cases h1 : exists_ = false
    · rw [if_pos h1]
      exact hfail (hA _ _ hexists) h1 _ (by simp [LoadError])
    rw [if_neg h1]
    refine (sat_issue_bind _).mpr ⟨⟨trivial, id⟩, fun db hdb' => ?_⟩
    by_cases h2 : db = false
    · rw [if_pos h2]
      exact hfail (hA _ _ hdb') h2 _ (by simp [LoadError])
    rw [if_neg h2]
    cases home with
    | false => exact hnames false
    | true =>
      refine (sat_issue_bind _).mpr ⟨⟨trivial, id⟩, fun h hh => ?_⟩
      by_cases h3 : h = false
      · rw [if_pos h3]
        exact hfail (hA _ _ hh) h3 _ (by simp [LoadError])
      · rw [if_neg h3]
        exact hnames true
  | global =>
    dsimp only
    have hloc : dbLoc cfg username = .global := by simp [dbLoc, hdb]
    have hnames := @dbPathNames_finds cfg uid true ok A hA home .global
    rw [← hloc] at hnames ⊢
    refine (sat_issue_bind _).mpr ⟨⟨trivial, id⟩, fun db hdb' => ?_⟩
    split_ifs with h1
    · exact hfail (hA _ _ hdb') h1 _ (by simp [LoadError])
    · exact hnames
  | mysql => exact fun h => by have := h.db; simp [hdb] at this
  | ldap => exact fun h => by have := h.db; simp [hdb] at this
  | unconfigured => exact fun h => by have := h.db; simp [hdb] at this

end Finds

/-- The path for a caller that asks for the home directory too. -/
theorem dbPath_meets (username : CString) :
    Meets cfg uid named ok Sys.Calm (fun r => r = .ok (dbLoc cfg username) ∨ NoPath ok r)
      (dbPath cfg (namePtr named username) true) :=
  (dbPath_finds (fun _ _ h => h.finds) username true).mono (fun _ h => h)
    (Stops.mono id fun h => nomatch h.1) fun _ h => h

theorem dbPath_risks (username : CString) (home : Bool) :
    Risks cfg uid named ok Sys.Calm (fun r => r = .ok (dbLoc cfg username) ∨ NoPath ok r)
      (dbPath cfg (namePtr named username) home) :=
  (dbPath_finds (fun _ _ h => h.finds) username home).mono (fun _ h => h)
    (Stops.mono id And.right) fun _ h => h

theorem dbFileOwner_sat (db : DbLoc) (st : Stat) (uid' : Uid) :
    Meets cfg uid named ok Sys.Calm (· ≠ stateNumspace) (dbFileOwner cfg db uid' st) := by
  unfold dbFileOwner
  split_ifs <;> simp [Sys.Calm, Sys.Quiet, Sys.Locking, Sys.Answers]

/-- The permission checks end only for a caller the library expects. -/
theorem dbFilePermissions_sat (db : DbLoc) (userHome : Option CString) :
    Meets cfg uid named ok Sys.Calm (fun ret => ret ≠ stateNumspace ∧ Runs cfg uid true)
      (dbFilePermissions cfg db userHome) := by
  refine meets_call ⟨trivial, id⟩ fun x hx => ?_
  obtain rfl : x = uid := hx
  refine (sat_assert_bind _).mpr ⟨fun hcaller => ?_, fun h hruns => h hruns.caller⟩
  cases hdb : cfg.db with
  | global =>
    have hruns : Runs cfg x true := ⟨rfl, .inl hdb, hcaller⟩
    refine meets_call ⟨trivial, id⟩ fun st _ => ?_
    rcases st with _ | st
    · exact ⟨by simp, hruns⟩
    simp only
    split_ifs
    · exact ⟨by simp, hruns⟩
    · exact ⟨by simp, hruns⟩
    · exact ⟨by simp, hruns⟩
    refine meets_call ⟨trivial, id⟩ fun st _ => ?_
    rcases st with _ | st
    · exact ⟨by simp, hruns⟩
    · exact (dbFileOwner_sat db st x).mono (fun _ h => h) (fun _ h => h) fun _ h => ⟨h, hruns⟩
  | user =>
    have hruns : Runs cfg x true := ⟨rfl, .inr hdb, hcaller⟩
    refine Sat.bind (V := fun _ => True) ?_ fun homeOk _ => ?_
    · rcases userHome with _ | u
      · trivial
      · refine meets_call ⟨trivial, id⟩ fun st _ => ?_
        rcases st with _ | st <;> trivial
    · split_ifs
      · exact ⟨by simp, hruns⟩
      refine meets_call ⟨trivial, id⟩ fun st _ => ?_
      rcases st with _ | st
      · exact ⟨by simp, hruns⟩
      · simp only
        split_ifs <;> exact ⟨by simp, hruns⟩
  | mysql => exact fun h => by have := h.db; simp [hdb] at this
  | ldap => exact fun h => by have := h.db; simp [hdb] at this
  | unconfigured => exact fun h => by have := h.db; simp [hdb] at this

/-- The attempts at the lock: the one that is granted is the last call. -/
theorem setlkLoop_until {α : Type} {f : Bool → SysM α} {S : Stop → Prop} {F : Sys → SysM α → Prop}
    {V : α → Prop} (fd n : ℕ) (htrue : F (.setlk fd) (f true))
    (hfalse : (f false).Until (Sys.Answers uid ok) Sys.Quiet S Sys.Grants F V) :
    (setlkLoop fd n >>= f).Until (Sys.Answers uid ok) Sys.Quiet S Sys.Grants F V := by
  induction n with
  | zero => exact hfalse
  | succ n ih =>
    refine ⟨trivial, fun ok _ => ⟨fun hg => ?_, fun hg => ?_⟩⟩
    · obtain rfl : ok = true := hg
      exact htrue
    · obtain rfl : ok = false := by simpa [Sys.Grants] using hg
      exact ih

/-- What is left of `db_file_lock` when the lock is granted is to return the
descriptor; otherwise nothing changes. -/
theorem dbFileLock_until (s : State) :
    (dbFileLock cfg s).Until (Sys.Answers uid ok) Sys.Quiet
      (Stops (¬ (Runs cfg uid s.named ∧ s.lock = -1)) False) Sys.Grants
      (fun c q => ∃ fd : Fd, c = .setlk fd.val ∧ q = .ret (0, s.setLock fd.val) ∧ s.lock = -1 ∧
        Runs cfg uid s.named)
      (fun r => LoadError r.1 ∧ r.2 = s) := by
  have hcalm (c : Sys) (h : c.Calm) : c.Quiet ∧ ∀ x, ¬ Sys.Grants c x := ⟨h.1, h.not_grants⟩
  have hstop := Stops.mono
    (fun (h : ¬ Runs cfg uid s.named) (h' : Runs cfg uid s.named ∧ s.lock = -1) => h h'.1)
    (@id False)
  have hfail (ret : ℕ) (h : LoadError ret) : LoadError ret ∧ s = s := ⟨h, rfl⟩
  refine (until_assert_bind _).mpr ⟨fun hlock => ?_, fun h h' => h h'.2⟩
  rw [State.name]
  cases hnamed : s.named with
  | false => exact fun h => absurd h.1.name (by simp)
  | true =>
  rw [hnamed] at hstop
  refine ((dbPath_meets s.username).mono (fun _ h => h) hstop fun _ h => h).bind_until hcalm
    fun r hr => ?_
  rcases hr with rfl | ⟨ret, rfl, hret, -⟩
  swap
  · exact hfail ret hret
  refine ((dbFilePermissions_sat _ _).mono (fun _ h => h) hstop fun _ h => h).bind_until hcalm
    fun ret hret => ?_
  obtain ⟨-, hruns⟩ := hret
  split_ifs with h1 h2
  · exact hfail _ (by simp [LoadError])
  · exact hfail _ (by simp [LoadError, h2])
  · refine (until_issue_bind _).mpr ⟨trivial, fun fd hfd => ⟨fun h => h.elim, fun _ => ?_⟩⟩
    rcases fd with _ | fd
    · exact hfail _ (by simp [LoadError])
    refine setlkLoop_until fd 20 ?_ ?_
    · exact ⟨⟨fd, hfd fd rfl⟩, rfl, rfl, hlock, hruns⟩
    exact (until_issue_bind _).mpr
      ⟨trivial, fun _ _ => ⟨fun h => h.elim, fun _ => hfail _ (by simp [LoadError])⟩⟩

/-- A lock that is returned is a new descriptor; otherwise nothing changes. -/
theorem dbFileLock_sat (s : State) :
    (dbFileLock cfg s).Sat (Sys.Answers uid ok) Sys.Quiet
      (Stops (¬ (Runs cfg uid s.named ∧ s.lock = -1)) False)
      (fun r => s.lock = -1 ∧ r.1 = 0 ∧ (∃ fd : Fd, r.2 = s.setLock fd.val) ∨
        LoadError r.1 ∧ r.2 = s) := by
  refine (dbFileLock_until s).sat ?_ fun r hr => .inr hr
  rintro c q ⟨fd, -, rfl, hlock, -⟩
  exact .inl ⟨hlock, rfl, fd, rfl⟩

/-- An unlock that succeeds leaves the state unlocked, and it fails only with
one of its calls. -/
theorem dbFileUnlock_sat (s : State) :
    Risks cfg uid s.named ok Sys.Calm
      (fun r => (r.2 = s ∧ (r.1 = 0 → s.lock < 0) ∨ 0 ≤ s.lock ∧ r.2 = s.setLock (-1)) ∧
        (ok → r.1 = 0))
      (dbFileUnlock cfg s) := by
  refine (dbPath_risks s.username false).bind fun r hr => ?_
  rcases hr with rfl | ⟨ret, rfl, hret, hok⟩
  · simp only
    split_ifs with h
    · exact ⟨.inl ⟨rfl, fun _ => h⟩, fun _ => rfl⟩
    · refine risks_call ⟨trivial, id⟩ fun _ _ => risks_call ⟨trivial, id⟩ fun done hdone =>
        risks_call ⟨trivial, id⟩ fun _ _ => ⟨.inr ⟨by omega, rfl⟩, fun h => ?_⟩
      simp [hdone h]
  · exact ⟨.inl ⟨rfl, fun h => absurd h hret.1⟩, fun h => absurd h hok⟩

end Sat

end Otpasswd
