import Otpasswd.Libotp.Lines

/-!
# Otpasswd.Libotp.DbFile — the file database

`db_file.c`: locking, loading and storing a user's entry. The functions are
programs over the system calls of `Otpasswd.Libotp.Sys`, with every exit of
the source. A `goto cleanup` is the call of the block it jumps to.
-/

namespace Otpasswd

open CText

/-! ## Paths and permissions -/

/-- The database of a user. -/
def dbLoc (cfg : Cfg) (username : CString) : DbLoc :=
  if cfg.db = .user then .home username else .global

/-- The names of the lock and the temporary file. The error path frees `*home`
also for a caller that passed no `home`. -/
def dbPathNames (home : Bool) (db : DbLoc) : SysM (Except ℕ DbLoc) := do
  let lck ← sys .malloc
  let tmp ← sys .malloc
  if lck = false ∨ tmp = false then
    if home then return .error stateNomem
    else .crash
  else return .ok db

/-- `_db_path`; `home` says whether the caller wants the home directory too. -/
def dbPath (cfg : Cfg) (username : Option CString) (home : Bool) : SysM (Except ℕ DbLoc) :=
  match username, cfg.db with
  | some username, .user => do
    if (← sys (.getpwnam username)) = false then return .error stateNoSuchUser
    else if (← sys .malloc) = false then return .error stateNomem
    else if home then
      if (← sys .malloc) = false then return .error stateNomem
      else dbPathNames true (.home username)
    else dbPathNames false (.home username)
  | some _, .global => do
    if (← sys .malloc) = false then return .error stateNomem
    else dbPathNames home .global
  | _, _ => .abort

/-- The checks on the global database file. -/
def dbFileOwner (cfg : Cfg) (db : DbLoc) (uid : Uid) (st : Stat) : SysM ℕ :=
  if st.isReg = false then return stateIoError
  else if st.goWrite then return stateIoError
  else if st.uid ≠ cfg.userUid then
    if uid = 0 then do
      -- created by PAM; give it to the configured user
      if (← sys (.chownDb db)) = false then return stateIoError
      else return 0
    else return stateIoError
  else return 0

/-- Whether the home directory is there, when it is asked for. -/
def dbHomeOk : Option CString → SysM Bool
  | none => return true
  | some u => do
    match ← sys (.stat (.userHome u)) with
    | none => return false
    | some st => return st.isDir

/-- `_db_file_permissions`. -/
def dbFilePermissions (cfg : Cfg) (db : DbLoc) (userHome : Option CString) : SysM ℕ := do
  let uid ← sys .getuid
  Prog.assert (uid = 0 ∨ cfg.db = .user ∨ uid = cfg.userUid)
  match cfg.db with
  | .global =>
    match ← sys (.stat .configDir) with
    | none => return stateIoError
    | some st =>
      if st.isDir = false then return stateIoError
      else if st.uid ≠ cfg.userUid then return stateIoError
      else if st.goWrite then return stateIoError
      else
        match ← sys (.stat (.db db)) with
        | none => return stateNonExistent
        | some st => dbFileOwner cfg db uid st
  | .user =>
    if (← dbHomeOk userHome) = false then return stateNoUserHome
    else
      match ← sys (.stat (.db db)) with
      | none => return stateNonExistent
      | some st => if st.isReg = false then return stateIoError else return 0
  | _ => .abort

/-! ## Locking -/

/-- The home directory as `_db_path` gives it to the permission checks. -/
def dbHome (cfg : Cfg) (username : CString) : Option CString :=
  if cfg.db = .user then some username else none

/-- Up to `n` attempts at the write lock. -/
def setlkLoop (fd : ℕ) : ℕ → SysM Bool
  | 0 => return false
  | n + 1 => do
    if ← sys (.setlk fd) then return true
    else setlkLoop fd n

/-- `db_file_lock`. -/
def dbFileLock (cfg : Cfg) (s : State) : SysM (ℕ × State) := do
  Prog.assert (s.lock = -1)
  match ← dbPath cfg s.name true with
  | .error ret => return (ret, s)
  | .ok db =>
    let ret ← dbFilePermissions cfg db (dbHome cfg s.username)
    if ret = stateIoError then return (stateLockError, s)
    else if ret = stateNoUserHome then return (ret, s)
    else
      -- a missing database is no obstacle: it may be about to be created
      match ← sys (.openLck db) with
      | none => return (stateLockError, s)
      | some fd =>
        if ← setlkLoop fd 20 then return (0, s.setLock fd)
        else
          sys (.close fd)
          return (stateLockError, s)

/-- `db_file_unlock`. -/
def dbFileUnlock (cfg : Cfg) (s : State) : SysM (ℕ × State) := do
  match ← dbPath cfg s.name false with
  | .error ret => return (ret, s)
  | .ok db =>
    if s.lock < 0 then return (0, s)
    else
      sys (.unlinkLck db)
      let ok ← sys (.unlck s.lock.toNat)
      sys (.close s.lock.toNat)
      return (if ok then 0 else stateLockError, s.setLock (-1))

/-! ## Loading -/

/-- The part of `db_file_load` under the lock: open, find, split, convert. -/
def dbFileRead (db : DbLoc) (s : State) : SysM (ℕ × State) := do
  match ← sys (.fopenDb db) with
  | .noent => return (stateNonExistent, s)
  | .error => return (stateIoError, s)
  | .opened f =>
    let r := dbFindUserEntry s.username f none
    if r.ret ≠ 0 then return (r.ret, s)
    else
      match dbParseUserEntry r.buff with
      | none => return (stateParseError, s)
      | some field => return dbLoadFields field s

/-- `db_file_load`. A lock taken here is given back here. -/
def dbFileLoad (cfg : Cfg) (s : State) : SysM (ℕ × State) := do
  match ← dbPath cfg s.name true with
  | .error ret => return (ret, s)
  | .ok db =>
    let retval ← dbFilePermissions cfg db (dbHome cfg s.username)
    if retval ≠ 0 then return (retval, s)
    else if s.lock ≤ 0 then
      let (retval, s) ← dbFileLock cfg s
      if retval ≠ 0 then return (retval, s)
      else
        let (retval, s) ← dbFileRead db s
        let (unlocked, s) ← dbFileUnlock cfg s
        return (if unlocked ≠ 0 ∧ retval = 0 then stateLockError else retval, s)
    else dbFileRead db s

/-! ## Storing -/

/-- The owner of the temporary file, when run by root. -/
def dbOwnTmp (cfg : Cfg) (db : DbLoc) : SysM Bool := do
  if (← sys .geteuid) ≠ 0 then return true
  else
    match ← sys (.stat (.db db)) with
    | none => if cfg.db ≠ .user then return false else sys (.chownTmp db)
    | some _ => sys (.chownTmp db)

/-- Copy up to the user's line, if there is a file. -/
def dbCopyUntil (username : CString) (inp : Option InFile) (out : OutFile) :
    ℕ × Option InFile × OutFile :=
  match inp with
  | none => (0, none, out)
  | some f =>
    let r := dbFindUserEntry username f (some out)
    (r.ret, some r.f, r.out.getD out)

/-- Step 2 of `db_file_store`: generate the new line and write it. `some ret`
is a `goto cleanup` with that return value. -/
def dbWriteEntry (s : State) (remove : Bool) (out : OutFile) : Option ℕ × OutFile :=
  if remove then (none, out)
  else
    let (ret, entry) := dbGenerateUserEntry s stateEntrySize
    if ret ≠ 0 then (some ret, out)
    else
      match fputs entry out with
      | (true, out) => (none, out)
      | (false, out) => (some stateIoError, out)

/-- Step 3: copy the rest of the file. -/
def dbCopyRest (username : CString) (inp : Option InFile) (out : OutFile) : Option ℕ × OutFile :=
  match inp with
  | none => (none, out)
  | some f =>
    let (ret, _, out) := dbCopyUntil username (some f) out
    -- a second line of the user: jumps with `ret` still zero
    if ret = 0 then (some 0, out)
    else if ret ≠ stateNoUserEntry then (some stateParseError, out)
    else (none, out)

/-- Steps 1 to 3: copy up to the user's line, write the new one, copy the
rest. -/
def dbFileCopy (s : State) (remove : Bool) (inp : Option InFile) (out : OutFile) :
    Option ℕ × OutFile :=
  let (ret, inp, out) := dbCopyUntil s.username inp out
  if ret ≠ stateNoUserEntry ∧ ret ≠ 0 then (some ret, out)
  else
    match dbWriteEntry s remove out with
    | (some ret, out) => (some ret, out)
    | (none, out) => dbCopyRest s.username inp out

/-- The `cleanup` block: rename or remove the temporary file. -/
def dbFileCleanup (cfg : Cfg) (db : DbLoc) (ret : ℕ) (out : Option OutFile) : SysM ℕ := do
  match out with
  | some o => let _ ← sys (.closeTmp db o.text)
  | none => pure ()
  if ret = 0 then
    if ← sys (.renameTmp db) then
      let _ ← dbFilePermissions cfg db none
      return 0
    else return stateIoError
  else
    sys (.unlinkTmp db)
    return ret

/-- `db_file_store` with the database locked. -/
def dbFileWrite (cfg : Cfg) (db : DbLoc) (s : State) (remove : Bool) : SysM ℕ := do
  if cfg.db = .user ∧ remove = true then
    if ← sys (.unlinkDb db) then return 0 else return stateIoError
  else
    match ← sys (.fopenDb db) with
    | .error => dbFileCleanup cfg db stateIoError none
    | .noent => dbFileWriteTmp none
    | .opened f => dbFileWriteTmp (some f)
where
  dbFileWriteTmp (inp : Option InFile) : SysM ℕ := do
    match ← sys (.fopenTmp db) with
    | none => dbFileCleanup cfg db stateIoError none
    | some out =>
      if (← dbOwnTmp cfg db) = false then dbFileCleanup cfg db stateIoError (some out)
      else
        match dbFileCopy s remove inp out with
        | (some ret, out) => dbFileCleanup cfg db ret (some out)
        | (none, out) =>
          if ← sys (.closeTmp db out.text) then dbFileCleanup cfg db 0 none
          else dbFileCleanup cfg db stateIoError none

/-- `db_file_store`. -/
def dbFileStore (cfg : Cfg) (s : State) (remove : Bool) : SysM (ℕ × State) := do
  match ← dbPath cfg s.name false with
  | .error ret => return (ret, s)
  | .ok db =>
    if s.lock ≤ 0 then
      let (ret, s) ← dbFileLock cfg s
      if ret ≠ 0 then return (ret, s)
      else
        let ret ← dbFileWrite cfg db s remove
        let (_, s) ← dbFileUnlock cfg s
        return (ret, s)
    else
      let ret ← dbFileWrite cfg db s remove
      return (ret, s)

end Otpasswd
