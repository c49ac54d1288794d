import Otpasswd.Libotp.DbStoreSpec

/-!
# Otpasswd.Libotp.DbFileOk — the file database when no call fails

`World.Serves` says that the system answers as the library hopes: no call
fails and the files have the owner and the permissions it asks for. In such a
world, with the lock free, the functions of `Otpasswd.Libotp.DbFile` return
zero, unless the database itself has a malformed line.

Main results: `dbFileLock_ok`, `dbFileUnlock_ok`, `dbFileRead_ok` and
`dbFileWrite_ok`.
-/

namespace Otpasswd

open CText Prog

/-! ## A system that serves the library -/

/-- What `stat` says of the files the library uses. -/
structure Outcome.Serves (cfg : Cfg) (o : Outcome) : Prop where
  ok : o.ok = true
  fault : o.fault = none
  dir_isDir : (o.stat .configDir).isDir = true
  dir_uid : (o.stat .configDir).uid = cfg.userUid
  dir_goWrite : (o.stat .configDir).goWrite = false
  home_isDir : ∀ u, (o.stat (.userHome u)).isDir = true
  db_isReg : ∀ db, (o.stat (.db db)).isReg = true
  db_uid : ∀ db, (o.stat (.db db)).uid = cfg.userUid
  db_goWrite : ∀ db, (o.stat (.db db)).goWrite = false

/-- No call of process `me` fails, apart from those on the lock. -/
structure World.Serves (cfg : Cfg) (me : Pid) (w : World) : Prop where
  outcomes : ∀ t, (w.io t).Serves cfg
  runs : Runs cfg (w.uid me) true

/-- Nobody holds a lock. -/
def World.Free (w : World) : Prop := ∀ inode, w.owner inode = none

/-- Process `me` holds the lock on the file of descriptor `fd`, and there is
no other lock. -/
def World.Holds (me : Pid) (fd : ℤ) (w : World) : Prop :=
  2 < fd ∧ ∃ inode, w.fds me fd.toNat = some inode ∧
    ∀ i p, w.owner i = some p → i = inode ∧ p = me

/-- `w'` comes after `w` with the same databases and the same locks. -/
structure World.Rests (w' w : World) : Prop extends w'.Keeps w where
  owner : w'.owner = w.owner
  fds : w'.fds = w.fds

theorem World.Rests.refl (w : World) : w.Rests w := ⟨.refl w, rfl, rfl⟩

theorem World.Rests.trans {w w' w'' : World} (h : w''.Rests w') (h' : w'.Rests w) :
    w''.Rests w :=
  ⟨h.toKeeps.trans h'.toKeeps, h.owner.trans h'.owner, h.fds.trans h'.fds⟩

theorem World.Rests.free {w w' : World} (h : w'.Rests w) (hw : w.Free) : w'.Free := by
  intro inode
  rw [h.owner]
  exact hw inode

theorem World.Rests.holds {w w' : World} {me : Pid} {fd : ℤ} (h : w'.Rests w)
    (hw : w.Holds me fd) : w'.Holds me fd := by
  unfold World.Holds at hw ⊢
  rwa [h.owner, h.fds]

theorem World.Keeps.serves {cfg : Cfg} {me : Pid} {w w' : World} (h : w'.Keeps w)
    (hw : w.Serves cfg me) : w'.Serves cfg me := by
  constructor
  · rw [h.io]
    exact hw.outcomes
  · rw [h.uid]
    exact hw.runs

theorem World.Serves.allOk {cfg : Cfg} {me : Pid} {w : World} (h : w.Serves cfg me) : w.AllOk :=
  fun t => (h.outcomes t).ok

/-- For a state that has its user name. -/
theorem World.Serves.runsFor {cfg : Cfg} {me : Pid} {w : World} {named : Bool}
    (h : w.Serves cfg me) (hn : named = true) : Runs cfg (w.uid me) named :=
  hn.symm ▸ h.runs

/-- The call touches no database and no lock. -/
def Sys.Steady : Sys → Prop
  | .openLck _ | .setlk _ | .unlck _ | .close _ | .unlinkLck _ => False
  | .renameTmp _ | .unlinkDb _ => False
  | _ => True

/-- The answers of a system that serves the library, to a process with user
id `uid`; `present` are the databases that exist. -/
def Sys.Succeeds (cfg : Cfg) (uid : Uid) (present : DbLoc → Prop) : (c : Sys) → c.Reply → Prop
  | .malloc, x => x = true
  | .strdup, x => x = true
  | .mallocState, x => x.isSome = true
  | .getpwnam _, x => x = true
  | .getuid, x => x = uid
  | .rng _, x => x.isSome = true
  | .stat .configDir, x =>
    ∃ st, x = some st ∧ st.isDir = true ∧ st.uid = cfg.userUid ∧ st.goWrite = false
  | .stat (.userHome _), x => ∃ st, x = some st ∧ st.isDir = true
  | .stat (.db db), x => (present db → x.isSome = true) ∧
    ∀ st, x = some st → st.isReg = true ∧ st.uid = cfg.userUid ∧ st.goWrite = false
  | .chownDb _, x => x = true
  | .chownTmp _, x => x = true
  | _, _ => True

/-- The databases that exist. -/
def World.present (w : World) (db : DbLoc) : Prop := (w.file db).isSome = true

theorem exec_rests {c : Sys} (h : c.Steady) (me : Pid) (w : World) :
    (c.exec me w).2.Rests w := by
  refine ⟨exec_keeps ?_ me w, ?_, ?_⟩
  · cases c <;> simp_all [Sys.Steady, Sys.Quiet]
  · cases c <;> simp only [Sys.Steady] at h <;> simp only [Sys.exec] <;> (repeat' split) <;> rfl
  · cases c <;> simp only [Sys.Steady] at h <;> simp only [Sys.exec] <;> (repeat' split) <;> rfl

theorem exec_succeeds {cfg : Cfg} {me : Pid} {w : World} (h : w.Serves cfg me) (c : Sys) :
    Sys.Succeeds cfg (w.uid me) w.present c (c.exec me w).1 := by
  have hs : w.next.Serves cfg := h.outcomes w.tick
  have hok : w.next.ok = true := hs.ok
  cases c with
  | stat path =>
    cases path with
    | configDir =>
      exact ⟨_, by simp [Sys.exec, hok, World.hasPath], hs.dir_isDir, hs.dir_uid, hs.dir_goWrite⟩
    | userHome u => exact ⟨_, by simp [Sys.exec, hok, World.hasPath], hs.home_isDir u⟩
    | db db =>
      constructor
      · intro hp
        have hpath : w.hasPath (.db db) = true := hp
        simp [Sys.exec, hok, hpath]
      · intro st hst
        simp only [Sys.exec] at hst
        split at hst
        · obtain rfl := Option.some.inj hst
          exact ⟨hs.db_isReg db, hs.db_uid db, hs.db_goWrite db⟩
        · simp at hst
  | _ => simp [Sys.Succeeds, Sys.exec, hok]

theorem Outcome.good_serves : Outcome.good.Serves configRoot where
  ok := rfl
  fault := rfl
  dir_isDir := rfl
  dir_uid := rfl
  dir_goWrite := rfl
  home_isDir _ := rfl
  db_isReg _ := rfl
  db_uid _ := rfl
  db_goWrite _ := rfl

theorem World.boot_serves (file : DbLoc → Option (List Char)) (me : Pid) :
    (World.boot file fun _ => .good).Serves configRoot me where
  outcomes _ := Outcome.good_serves
  runs := ⟨rfl, .inl rfl, .inl rfl⟩

/-- A system that serves the library with this configuration. -/
def Outcome.serving (cfg : Cfg) : Outcome where
  ok := true
  fault := none
  stat := fun
    | .db _ => ⟨false, true, cfg.userUid, false⟩
    | _ => ⟨true, false, cfg.userUid, false⟩
  junk := ⟨0, Bytes.zero 40⟩
  time := 0
  bytes := []
  user := ⟨[], nul_not_mem_nil⟩

theorem Outcome.serving_serves (cfg : Cfg) : (Outcome.serving cfg).Serves cfg where
  ok := rfl
  fault := rfl
  dir_isDir := rfl
  dir_uid := rfl
  dir_goWrite := rfl
  home_isDir _ := rfl
  db_isReg _ := rfl
  db_uid _ := rfl
  db_goWrite _ := rfl

theorem World.serving_serves {cfg : Cfg} (hdb : cfg.db = .global ∨ cfg.db = .user)
    (file : DbLoc → Option (List Char)) (me : Pid) :
    (World.boot file fun _ => Outcome.serving cfg).Serves cfg me where
  outcomes _ := Outcome.serving_serves cfg
  runs := ⟨rfl, hdb, .inl rfl⟩

section Steady

variable {α β : Type} {cfg : Cfg} {me : Pid} {p : SysM α} {V : α → Prop} {w w0 : World}

theorem wp_steady (h : p.Sat (Sys.Succeeds cfg (w0.uid me) w0.present) Sys.Steady (fun _ => False) V)
    (hs : w0.Serves cfg me) (hw : w.Rests w0) :
    wp (Sys.exec me) p (fun r w' => ∃ a, r = some a ∧ V a ∧ w'.Rests w0) w := by
  refine wp_mono (wp_of_sat (I := (·.Rests w0)) (fun c w' _ hw' => ?_)
    (fun c w' hc hw' => (exec_rests hc me w').trans hw') h hw) ?_
  · have hans := exec_succeeds (hw'.serves hs) c
    have hpresent : w'.present = w0.present := by
      funext db
      rw [World.present, World.present, hw'.file]
    rwa [hw'.uid, hpresent] at hans
  · rintro r w' ⟨hw', hstop, hret⟩
    rcases r with _ | a
    · obtain ⟨why, h⟩ := hstop rfl
      exact h.elim
    · exact ⟨a, rfl, hret a rfl, hw'⟩

/-- A program that touches neither databases nor locks, in front of another. -/
theorem wp_steady_seq {f : α → SysM β} {Q : Option β → World → Prop}
    (h : p.Sat (Sys.Succeeds cfg (w0.uid me) w0.present) Sys.Steady (fun _ => False) V)
    (hs : w0.Serves cfg me) (hw : w.Rests w0)
    (hnext : ∀ a w', V a → w'.Rests w0 → wp (Sys.exec me) (f a) Q w') :
    wp (Sys.exec me) (p >>= f) Q w := by
  refine wp_seq (wp_steady h hs hw) ?_ ?_
  · rintro w' ⟨a, ha, -⟩
    simp at ha
  · rintro a w' ⟨a', ha, hV, hw'⟩
    obtain rfl := Option.some.inj ha
    exact hnext a w' hV hw'

end Steady

/-! ## Paths and permissions -/

section Sat

variable {cfg : Cfg} {uid : Uid} {present : DbLoc → Prop}

theorem dbPath_ok {named : Bool} (hruns : Runs cfg uid named) (u : CString) (home : Bool) :
    (dbPath cfg (namePtr named u) home).Sat (Sys.Succeeds cfg uid present) Sys.Steady (fun _ => False)
      (· = .ok (dbLoc cfg u)) := by
  have hnames (home : Bool) (db : DbLoc) : (dbPathNames home db).Sat
      (Sys.Succeeds cfg uid present) Sys.Steady (fun _ => False) (· = .ok db) := by
    refine (sat_issue_bind _).mpr ⟨trivial, ?_⟩
    rintro _ ⟨rfl⟩
    refine (sat_issue_bind _).mpr ⟨trivial, ?_⟩
    rintro _ ⟨rfl⟩
    rfl
  obtain rfl := hruns.name
  unfold dbPath
  rcases hruns.db with hdb | hdb
  · have hloc : dbLoc cfg u = .global := by simp [dbLoc, hdb]
    rw [hdb, hloc]
    refine (sat_issue_bind _).mpr ⟨trivial, ?_⟩
    rintro _ ⟨rfl⟩
    exact hnames home .global
  · have hloc : dbLoc cfg u = .home u := by simp [dbLoc, hdb]
    rw [hdb, hloc]
    refine (sat_issue_bind _).mpr ⟨trivial, ?_⟩
    rintro _ ⟨rfl⟩
    refine (sat_issue_bind _).mpr ⟨trivial, ?_⟩
    rintro _ ⟨rfl⟩
    cases home with
    | false => exact hnames _ _
    | true =>
      refine (sat_issue_bind _).mpr ⟨trivial, ?_⟩
      rintro _ ⟨rfl⟩
      exact hnames _ _

theorem dbFilePermissions_ok (hruns : Runs cfg uid true) (db : DbLoc) (home : Option CString) :
    (dbFilePermissions cfg db home).Sat (Sys.Succeeds cfg uid present) Sys.Steady (fun _ => False)
      (fun ret => (ret = 0 ∨ ret = stateNonExistent) ∧ (present db → ret = 0)) := by
  refine (sat_issue_bind _).mpr ⟨trivial, ?_⟩
  rintro _ ⟨rfl⟩
  refine (sat_assert_bind _).mpr ⟨fun _ => ?_, fun h => h hruns.caller⟩
  rcases hruns.db with hdb | hdb
  · rw [hdb]
    refine (sat_issue_bind _).mpr ⟨trivial, ?_⟩
    rintro _ ⟨st, rfl, h1, h2, h3⟩
    simp only
    rw [if_neg (by simp [h1]), if_neg (by simp [h2]), if_neg (by simp [h3])]
    refine (sat_issue_bind _).mpr ⟨trivial, ?_⟩
    rintro st ⟨hpresent, hst⟩
    rcases st with _ | st
    · exact ⟨.inr rfl, fun hp => by simpa using hpresent hp⟩
    · obtain ⟨h4, h5, h6⟩ := hst st rfl
      simp [dbFileOwner, h4, h5, h6]
  · rw [hdb]
    have hhome : (dbHomeOk home).Sat (Sys.Succeeds cfg uid present) Sys.Steady (fun _ => False)
        (· = true) := by
      rcases home with _ | u
      · exact rfl
      · refine (sat_issue_bind _).mpr ⟨trivial, ?_⟩
        rintro _ ⟨st, rfl, h1⟩
        exact h1
    refine hhome.bind ?_
    rintro _ ⟨rfl⟩
    rw [if_neg (by simp)]
    refine (sat_issue_bind _).mpr ⟨trivial, ?_⟩
    rintro st ⟨hpresent, hst⟩
    rcases st with _ | st
    · exact ⟨.inr rfl, fun hp => by simpa using hpresent hp⟩
    · obtain ⟨h4, -, -⟩ := hst st rfl
      simp [h4]

theorem dbOwnTmp_ok (db : DbLoc) (hpresent : present db) :
    (dbOwnTmp cfg db).Sat (Sys.Succeeds cfg uid present) Sys.Steady (fun _ => False) (· = true) := by
  refine (sat_issue_bind _).mpr ⟨trivial, fun euid _ => ?_⟩
  by_cases hroot : euid ≠ 0
  · rw [if_pos hroot]
    exact rfl
  · rw [if_neg hroot]
    refine (sat_issue_bind _).mpr ⟨trivial, ?_⟩
    rintro st ⟨hsome, -⟩
    rcases st with _ | st
    · simpa using hsome hpresent
    · exact ⟨trivial, fun x hx => hx⟩

end Sat

/-! ## The lock -/

theorem dbFileLock_ok {me : Pid} {cfg : Cfg} {s : State} {w : World} (hs : w.Serves cfg me)
    (hn : s.named = true) (hfree : w.Free) (hlock : s.lock = -1) :
    wp (Sys.exec me) (dbFileLock cfg s)
      (fun r w' => ∃ fd : Fd, r = some (0, s.setLock fd.val) ∧ w'.Keeps w ∧ w'.Holds me fd.val) w := by
  rw [dbFileLock, wp_assert_bind, if_pos hlock]
  refine wp_steady_seq (dbPath_ok (hs.runsFor hn) s.username true) hs (.refl w) ?_
  rintro _ w1 rfl hw1
  refine wp_steady_seq (dbFilePermissions_ok hs.runs _ _) hs hw1 ?_
  rintro ret w2 ⟨hret, -⟩ hw2
  rw [if_neg (by rcases hret with rfl | rfl <;> simp),
    if_neg (by rcases hret with rfl | rfl <;> simp), wp_issue_bind]
  have hok (t : ℕ) : (w2.io t).ok = true := ((hw2.serves hs).outcomes t).ok
  -- the lock file is opened: the descriptor names an inode
  obtain ⟨fd, inode, w3, hopen, hfd, hkeeps, howner⟩ : ∃ fd : Fd, ∃ inode w3,
      Sys.exec me (.openLck (dbLoc cfg s.username)) w2 = (some fd.val, w3) ∧
        w3.fds me fd.val = some inode ∧ w3.Keeps w2 ∧ w3.owner = w2.owner := by
    simp only [Sys.exec, World.next, hok, if_true]
    split
    · rename_i inode _
      exact ⟨⟨w2.freshFd me + 3, by omega⟩, inode, _, rfl, by simp, ⟨rfl, rfl, rfl⟩, rfl⟩
    · exact ⟨⟨w2.freshFd me + 3, by omega⟩, w2.freshInode, _, rfl, by simp, ⟨rfl, rfl, rfl⟩, rfl⟩
  rw [hopen]
  have hfree3 (i : ℕ) : w3.owner i = none := by
    rw [howner]
    exact hw2.free hfree i
  have hok3 : w3.next.ok = true := by
    rw [World.next, hkeeps.io]
    exact hok _
  -- the first attempt is granted
  have hgrant : Sys.exec me (.setlk fd.val) w3 = (true, { w3 with
      tick := w3.tick + 1
      owner := Function.update w3.owner inode (some me) }) := by
    simp only [Sys.exec, hfd, hok3, hfree3, true_or, and_self, if_true]
  simp only [setlkLoop, wp_issue_bind, Prog.bind_assoc, hgrant]
  refine ⟨fd, rfl, ?_, ?_, inode, ?_, ?_⟩
  · exact ⟨hkeeps.file.trans hw2.file, hkeeps.io.trans hw2.io, hkeeps.uid.trans hw2.uid⟩
  · have := fd.property
    omega
  · exact hfd
  · intro i p hp
    change Function.update w3.owner inode (some me) i = some p at hp
    by_cases hi : i = inode
    · subst hi
      rw [Function.update_self] at hp
      exact ⟨rfl, (Option.some.inj hp).symm⟩
    · rw [Function.update_of_ne hi, hfree3] at hp
      simp at hp

theorem dbFileUnlock_ok {me : Pid} {cfg : Cfg} {s : State} {w : World} (hs : w.Serves cfg me)
    (hn : s.named = true) (hholds : w.Holds me s.lock) :
    wp (Sys.exec me) (dbFileUnlock cfg s)
      (fun r w' => r = some (0, s.setLock (-1)) ∧ w'.Keeps w ∧ w'.Free) w := by
  refine wp_steady_seq (dbPath_ok (hs.runsFor hn) s.username false) hs (.refl w) ?_
  rintro _ w1 rfl hw1
  obtain ⟨hfd, inode, hinode, howner⟩ := hw1.holds hholds
  simp only
  rw [if_neg (by omega), wp_issue_bind]
  have hw2 : (Sys.exec me (.unlinkLck (dbLoc cfg s.username)) w1).2.Rests w1 := by
    refine ⟨exec_keeps (by simp [Sys.Quiet]) me w1, ?_, ?_⟩ <;> simp only [Sys.exec] <;> split <;> rfl
  set w2 := (Sys.exec me (.unlinkLck (dbLoc cfg s.username)) w1).2
  have hok2 : w2.next.ok = true := ((hw2.serves (hw1.serves hs)).outcomes w2.tick).ok
  have hrelease : w2.releaseFd me s.lock.toNat = fun _ => none := by
    funext i
    rw [World.releaseFd, hw2.owner, hw2.fds, hinode]
    cases hi : w1.owner i with
    | none => simp
    | some p =>
      obtain ⟨rfl, rfl⟩ := howner i p hi
      simp
  have hunlck : Sys.exec me (.unlck s.lock.toNat) w2 = (true, { w2 with
      tick := w2.tick + 1
      owner := fun _ => none }) := by
    simp only [Sys.exec, hok2, hrelease, if_true]
  simp only [wp_issue_bind, hunlck, if_true]
  refine ⟨rfl, ?_, ?_⟩
  · exact ⟨hw2.file.trans hw1.file, hw2.io.trans hw1.io, hw2.uid.trans hw1.uid⟩
  · intro i
    change (if _ then none else none) = none
    exact ite_self none

/-! ## Loading -/

theorem dbFileRead_ok {me : Pid} {cfg : Cfg} {db : DbLoc} {s : State} {w : World} {e : Entry}
    (hs : w.Serves cfg me) (he : dbLookup (w.file db) s.username = some e) :
    wp (Sys.exec me) (dbFileRead db s) (fun r w' => r = some (0, s.load e) ∧ w'.Rests w) w := by
  cases hfile : w.file db with
  | none => simp [hfile, dbLookup] at he
  | some text =>
    rw [hfile] at he
    have hsv : w.next.Serves cfg := hs.outcomes w.tick
    have hopen : (Sys.exec me (.fopenDb db) w).1 = .opened ⟨text, false, none⟩ := by
      simp only [Sys.exec, hfile, hsv.ok, hsv.fault, if_true]
    rw [dbFileRead, wp_issue_bind, hopen]
    simp only [dbLookup] at he
    split at he
    · rename_i hret
      simp only
      rw [if_neg (not_not.mpr hret)]
      rw [lineEntry, Option.bind_eq_some_iff] at he
      obtain ⟨field, hparse, hdec⟩ := he
      rw [hparse]
      have hload := dbLoadFields_eq field s
      rw [hdec] at hload
      simp only at hload ⊢
      rw [hload]
      exact ⟨rfl, exec_rests (c := .fopenDb db) trivial me w⟩
    · simp at he

/-! ## Storing -/

/-- The store of `u` meets no malformed line: around the first line of the
user there are whole lines of others, up to the end or to a second line of
the user, at which the copy stops. -/
inductive Copyable (u : CString) : List Char → Prop where
  | absent (pre : List (List Char)) (hpre : ∀ l ∈ pre, Passed u l) : Copyable u (unlines pre)
  | once (pre : List (List Char)) (l : List Char) (post : List (List Char))
      (hpre : ∀ l ∈ pre, Passed u l) (hl : LineOk l) (hu : lineUser l = some u.val)
      (hpost : ∀ l ∈ post, Passed u l) : Copyable u (unlines pre ++ (l ++ '\n' :: unlines post))
  | twice (pre : List (List Char)) (l : List Char) (mid : List (List Char)) (l' rest : List Char)
      (hpre : ∀ l ∈ pre, Passed u l) (hl : LineOk l) (hu : lineUser l = some u.val)
      (hmid : ∀ l ∈ mid, Passed u l) (hl' : LineOk l') (hu' : lineUser l' = some u.val) :
      Copyable u (unlines pre ++ (l ++ '\n' :: (unlines mid ++ (l' ++ '\n' :: rest))))

theorem dbWriteEntry_ok {s : State} {remove : Bool} (hgen : Generates (dbEntryText s) remove)
    (text : List Char) :
    dbWriteEntry s remove ⟨text, none⟩ =
      (none, ⟨text ++ storeBody (dbEntryText s) remove, none⟩) := by
  cases remove with
  | true => simp [dbWriteEntry, storeBody]
  | false =>
    have hret := dbGenerateUserEntry_ret s
    rw [if_neg (hgen rfl)] at hret
    simp only [dbWriteEntry, Bool.false_eq_true, if_false, hret, ne_eq, not_true_eq_false, fputs]
    simp [dbGenerateUserEntry, storeBody]

section

variable {u : CString} {pre : List (List Char)} {l : List Char}

theorem dbCopyUntil_found (hpre : ∀ l ∈ pre, Passed u l) (hl : LineOk l)
    (hu : lineUser l = some u.val) (rest t : List Char) :
    dbCopyUntil u (some ⟨unlines pre ++ (l ++ '\n' :: rest), false, none⟩) ⟨t, none⟩ =
      (0, some ⟨rest, false, none⟩, ⟨t ++ unlines pre, none⟩) := by
  have hf := dbFindUserEntry_found hpre hl hu rest (some t)
  simp only [Option.map_some] at hf
  simp [dbCopyUntil, hf]

theorem dbCopyUntil_absent (hpre : ∀ l ∈ pre, Passed u l) (t : List Char) :
    dbCopyUntil u (some ⟨unlines pre, false, none⟩) ⟨t, none⟩ =
      (stateNoUserEntry, some ⟨[], true, none⟩, ⟨t ++ unlines pre, none⟩) := by
  have hf := dbFindUserEntry_absent hpre (some t)
  simp only [Option.map_some] at hf
  simp [dbCopyUntil, hf]

end

/-- The copy stops at a second line of the user, without an error. -/
theorem dbFileCopy_twice {s : State} {remove : Bool} (hgen : Generates (dbEntryText s) remove)
    {pre mid : List (List Char)} {l l' rest : List Char} (hpre : ∀ l ∈ pre, Passed s.username l)
    (hl : LineOk l) (hu : lineUser l = some s.username.val)
    (hmid : ∀ l ∈ mid, Passed s.username l) (hl' : LineOk l')
    (hu' : lineUser l' = some s.username.val) :
    (dbFileCopy s remove (some ⟨unlines pre ++ (l ++ '\n' :: (unlines mid ++ (l' ++ '\n' :: rest))),
      false, none⟩) ⟨[], none⟩).1 = some 0 := by
  simp [dbFileCopy, dbCopyRest, dbCopyUntil_found hpre hl hu, dbWriteEntry_ok hgen,
    dbCopyUntil_found hmid hl' hu']

/-- The copy of a database without malformed lines does not fail. -/
theorem dbFileCopy_ok {s : State} {remove : Bool} {text : List Char}
    (h : Copyable s.username text) (hgen : Generates (dbEntryText s) remove) {ret : ℕ}
    (hret : (dbFileCopy s remove (some ⟨text, false, none⟩) ⟨[], none⟩).1 = some ret) :
    ret = 0 := by
  have hwrite := dbWriteEntry_ok hgen
  have hend (t : List Char) : dbCopyUntil s.username (some ⟨[], true, none⟩) ⟨t, none⟩ =
      (stateNoUserEntry, some ⟨[], true, none⟩, ⟨t, none⟩) := by
    simp [dbCopyUntil, dbFindUserEntry, dbFindLoop]
  cases h with
  | absent pre hpre =>
    simp [dbFileCopy, dbCopyRest, dbCopyUntil_absent hpre, hwrite, hend] at hret
  | once pre l post hpre hl hu hpost =>
    simp [dbFileCopy, dbCopyRest, dbCopyUntil_found hpre hl hu, hwrite,
      dbCopyUntil_absent hpost] at hret
  | twice pre l mid l' rest hpre hl hu hmid hl' hu' =>
    rw [dbFileCopy_twice hgen hpre hl hu hmid hl' hu'] at hret
    exact (Option.some.inj hret).symm

/-- Replacing a database file touches neither the locks nor the outcomes. -/
structure World.Writes (w' w : World) : Prop where
  io : w'.io = w.io
  uid : w'.uid = w.uid
  owner : w'.owner = w.owner
  fds : w'.fds = w.fds

theorem World.Rests.writes {w w' : World} (h : w'.Rests w) : w'.Writes w :=
  ⟨h.io, h.uid, h.owner, h.fds⟩

theorem World.Writes.trans {w w' w'' : World} (h : w''.Writes w') (h' : w'.Writes w) :
    w''.Writes w :=
  ⟨h.io.trans h'.io, h.uid.trans h'.uid, h.owner.trans h'.owner, h.fds.trans h'.fds⟩

theorem World.Writes.serves {cfg : Cfg} {me : Pid} {w w' : World} (h : w'.Writes w)
    (hw : w.Serves cfg me) : w'.Serves cfg me := by
  constructor
  · rw [h.io]
    exact hw.outcomes
  · rw [h.uid]
    exact hw.runs

theorem World.Writes.holds {me : Pid} {fd : ℤ} {w w' : World} (h : w'.Writes w)
    (hw : w.Holds me fd) : w'.Holds me fd := by
  unfold World.Holds at hw ⊢
  rwa [h.owner, h.fds]

/-- Renaming a temporary file that is there. -/
theorem dbFileCleanup_ok {me : Pid} {cfg : Cfg} {db : DbLoc} {w : World} {text : List Char}
    (hs : w.Serves cfg me) (htmp : w.tmp db = some text) :
    wp (Sys.exec me) (dbFileCleanup cfg db 0 none) (fun r w' => r = some 0 ∧ w'.Writes w) w := by
  have hok : w.next.ok = true := (hs.outcomes w.tick).ok
  have hexec : Sys.exec me (.renameTmp db) w = (true, { w with
      tick := w.tick + 1
      file := Function.update w.file db (w.tmp db)
      tmp := Function.update w.tmp db none }) := by
    simp only [Sys.exec, hok, htmp, Option.isSome_some, and_self, if_true]
  simp only [dbFileCleanup, pure_eq_ret, if_true, wp_issue_bind, hexec]
  set w1 : World := { w with
    tick := w.tick + 1
    file := Function.update w.file db (w.tmp db)
    tmp := Function.update w.tmp db none }
  have hw1 : w1.Writes w := ⟨rfl, rfl, rfl, rfl⟩
  refine wp_steady_seq (dbFilePermissions_ok (hw1.serves hs).runs db none) (hw1.serves hs)
    (.refl w1) ?_
  intro _ w2 _ hw2
  exact ⟨rfl, hw2.writes.trans hw1⟩

/-- The database in a home directory goes with its only user. -/
theorem dbFileWrite_unlinks {me : Pid} {cfg : Cfg} {db : DbLoc} {s : State} {w : World}
    {text : List Char} (hs : w.Serves cfg me) (hdb : cfg.db = .user)
    (hfile : w.file db = some text) :
    wp (Sys.exec me) (dbFileWrite cfg db s true) (fun r w' => r = some 0 ∧ w'.Writes w) w := by
  have hok : w.next.ok = true := (hs.outcomes w.tick).ok
  have hexec : Sys.exec me (.unlinkDb db) w = (true, { w with
      tick := w.tick + 1
      file := Function.update w.file db none }) := by
    simp only [Sys.exec, hok, hfile, Option.isSome_some, and_self, if_true]
  rw [dbFileWrite, if_pos ⟨hdb, rfl⟩, wp_issue_bind, hexec]
  exact ⟨rfl, ⟨rfl, rfl, rfl, rfl⟩⟩

theorem dbFileWrite_ok {me : Pid} {cfg : Cfg} {db : DbLoc} {s : State} {remove : Bool} {w : World}
    {text : List Char} (hs : w.Serves cfg me) (hfile : w.file db = some text)
    (hcopy : Copyable s.username text) (hgen : Generates (dbEntryText s) remove) :
    wp (Sys.exec me) (dbFileWrite cfg db s remove) (fun r w' => r = some 0 ∧ w'.Writes w) w := by
  have hsv : w.next.Serves cfg := hs.outcomes w.tick
  have hok : w.next.ok = true := hsv.ok
  by_cases hunlink : cfg.db = .user ∧ remove = true
  · obtain ⟨hdb, rfl⟩ := hunlink
    exact dbFileWrite_unlinks hs hdb hfile
  · rw [dbFileWrite, if_neg hunlink, wp_issue_bind]
    have hopen : (Sys.exec me (.fopenDb db) w).1 = .opened ⟨text, false, none⟩ := by
      simp only [Sys.exec, hfile, hok, hsv.fault, if_true]
    have hw1 : (Sys.exec me (.fopenDb db) w).2.Rests w :=
      exec_rests (c := .fopenDb db) trivial me w
    rw [hopen]
    generalize (Sys.exec me (.fopenDb db) w).2 = w1 at hw1 ⊢
    have hs1 := hw1.serves hs
    have htmp : (Sys.exec me (.fopenTmp db) w1).1 = some ⟨[], none⟩ := by
      simp only [Sys.exec, World.next, (hs1.outcomes w1.tick).ok, (hs1.outcomes w1.tick).fault,
        if_true]
    have hw2 : (Sys.exec me (.fopenTmp db) w1).2.Rests w :=
      (exec_rests (c := .fopenTmp db) trivial me w1).trans hw1
    simp only [dbFileWrite.dbFileWriteTmp, wp_issue_bind, htmp]
    generalize (Sys.exec me (.fopenTmp db) w1).2 = w2 at hw2 ⊢
    have hpresent : w.present db := by simp [World.present, hfile]
    refine wp_steady_seq (dbOwnTmp_ok db hpresent) hs hw2 ?_
    rintro _ w3 rfl hw3
    rw [if_neg (by simp)]
    have hs3 := hw3.serves hs
    -- closing the temporary file
    have hclose (t : List Char) : Sys.exec me (.closeTmp db t) w3 = (true, { w3 with
        tick := w3.tick + 1
        tmp := Function.update w3.tmp db (some t) }) := by
      simp only [Sys.exec, World.next, (hs3.outcomes w3.tick).ok, if_true]
    have hrename (t : List Char) : wp (Sys.exec me) (dbFileCleanup cfg db 0 none)
        (fun r w' => r = some 0 ∧ w'.Writes w) { w3 with
          tick := w3.tick + 1
          tmp := Function.update w3.tmp db (some t) } := by
      refine wp_mono (@dbFileCleanup_ok me cfg db _ t ⟨hs3.outcomes, hs3.runs⟩ (by simp)) ?_
      rintro r w4 ⟨hr, hw4⟩
      exact ⟨hr, hw4.trans ⟨hw3.io, hw3.uid, hw3.owner, hw3.fds⟩⟩
    have hzero := @dbFileCopy_ok s remove text hcopy hgen
    rcases hres : dbFileCopy s remove (some ⟨text, false, none⟩) ⟨[], none⟩ with ⟨_ | ret, out⟩
    · simp only [wp_issue_bind, hclose, if_true]
      exact hrename out.text
    · rw [hres] at hzero
      obtain rfl := hzero rfl
      have hbind : dbFileCleanup cfg db 0 (some out) =
          sys (.closeTmp db out.text) >>= fun _ => dbFileCleanup cfg db 0 none := rfl
      simp only [hbind, wp_issue_bind, hclose]
      exact hrename out.text

end Otpasswd
