import Otpasswd.Common.NumText
import Otpasswd.Lib.Prog
import Mathlib.Logic.Function.Basic

/-!
# Otpasswd.Libotp.Sys — the system the library runs on

The system calls that the state code issues are the commands of its programs
(`Sys`), and `Sys.exec` answers one of them for a process. The `World` holds
what several processes share (database, temporary and lock files, and the
`fcntl` locks on inodes) and an oracle `io` that decides, call by call,
whether the system fails and with what. A theorem over every world is
therefore one over every outcome of every call.

Write locks are exclusive per inode between processes, `open` with `O_CREAT`
makes a new inode exactly when the path is free, `unlink` detaches the path
from the inode, and closing any descriptor of a file drops the locks its
process has on it.
-/

namespace Otpasswd

open CText

abbrev Pid := ℕ

/-- `uid_t`. -/
abbrev Uid := Word32

/-- Which database file: the global one, or the one in a user's home. Its
lock and temporary files are named after it. -/
inductive DbLoc where
  | global
  | home (username : CString)
deriving DecidableEq

/-- A descriptor that `open` returns while the three standard ones are taken. -/
abbrev Fd := { fd : ℕ // 2 < fd }

/-- What `stat` is asked about. -/
inductive Path where
  | configDir
  | userHome (username : CString)
  | db (loc : DbLoc)
deriving DecidableEq

/-- What `stat` tells the permission checks. -/
structure Stat where
  isDir : Bool
  isReg : Bool
  uid : Uid
  /-- `st_mode & (S_IWGRP | S_IWOTH)` -/
  goWrite : Bool
deriving DecidableEq

/-- Memory that `state_init` leaves as it finds it. -/
structure Junk where
  flags : Word32
  spass : Bytes 40
deriving DecidableEq

/-- The result of `fopen(db, "r")`. -/
inductive OpenReply where
  | noent
  | error
  | opened (f : InFile)

/-- The system calls of the library. -/
inductive Sys where
  | malloc
  /-- `malloc` of a `state`. -/
  | mallocState
  /-- `strdup` of a user name, whose result no caller checks. -/
  | strdup
  /-- A `state` on the stack. -/
  | stackState
  /-- A buffer for a salted hash on the stack. -/
  | stackHash
  /-- The passwd entry that `security_parse_user` finds. -/
  | parseUser (spec : CString)
  | getpwnam (username : CString)
  | getuid
  | geteuid
  | time
  /-- `crypto_file_rng` on `/dev/random` or `/dev/urandom`. -/
  | rng (count : ℕ)
  | stat (path : Path)
  | chownDb (loc : DbLoc)
  /-- `open(lck, O_WRONLY|O_CREAT)`. -/
  | openLck (loc : DbLoc)
  /-- `fcntl(fd, F_SETLK, F_WRLCK)`. -/
  | setlk (fd : ℕ)
  /-- `fcntl(fd, F_SETLK, F_UNLCK)`. -/
  | unlck (fd : ℕ)
  | close (fd : ℕ)
  | unlinkLck (loc : DbLoc)
  /-- `fopen(db, "r")`. -/
  | fopenDb (loc : DbLoc)
  /-- `fopen(tmp, "w")`. -/
  | fopenTmp (loc : DbLoc)
  | chownTmp (loc : DbLoc)
  /-- `fflush` and `fclose` of the temporary file after these characters
  were written into its buffer. -/
  | closeTmp (loc : DbLoc) (text : List Char)
  | renameTmp (loc : DbLoc)
  | unlinkTmp (loc : DbLoc)
  | unlinkDb (loc : DbLoc)
deriving DecidableEq

/-- What a call answers; a `Bool` says whether it succeeded. -/
@[reducible] def Sys.Reply : Sys → Type
  | .malloc => Bool
  | .mallocState => Option Junk
  | .strdup => Bool
  | .stackState => Junk
  | .stackHash => Bytes 40
  | .parseUser _ => Option CString
  | .getpwnam _ => Bool
  | .getuid => Uid
  | .geteuid => Uid
  | .time => Word64
  | .rng n => Option (Bytes n)
  | .stat _ => Option Stat
  | .chownDb _ => Bool
  | .openLck _ => Option ℕ
  | .setlk _ => Bool
  | .unlck _ => Bool
  | .close _ => PUnit
  | .unlinkLck _ => PUnit
  | .fopenDb _ => OpenReply
  | .fopenTmp _ => Option OutFile
  | .chownTmp _ => Bool
  | .closeTmp _ _ => Bool
  | .renameTmp _ => Bool
  | .unlinkTmp _ => PUnit
  | .unlinkDb _ => Bool

/-- What the system decides at one call. -/
structure Outcome where
  /-- Whether the call succeeds, as far as that is not determined. -/
  ok : Bool
  /-- After how many reads or writes a file opened now fails. -/
  fault : Option ℕ
  stat : Path → Stat
  junk : Junk
  time : Word64
  bytes : List Byte
  user : CString

/-- The shared system state. Inodes are numbered in the order of their
creation, descriptors of a process in the order it opens them, after the three
standard ones. -/
structure World where
  file : DbLoc → Option (List Char)
  tmp : DbLoc → Option (List Char)
  /-- The inode a lock path names. -/
  lck : DbLoc → Option ℕ
  /-- The process with the write lock on an inode. -/
  owner : ℕ → Option Pid
  freshInode : ℕ
  /-- Open lock descriptors. -/
  fds : Pid → ℕ → Option ℕ
  freshFd : Pid → ℕ
  uid : Pid → Uid
  euid : Pid → Uid
  io : ℕ → Outcome
  /-- The number of calls made so far. -/
  tick : ℕ

/-- A program of the library. -/
abbrev SysM (α : Type) := Prog Sys Sys.Reply α

/-- Issue one system call. -/
abbrev sys (c : Sys) : SysM c.Reply := Prog.issue c

namespace World

/-- The outcome of the call that comes next. -/
def next (w : World) : Outcome := w.io w.tick

/-- Whether there is a file at the path, as far as the world knows. -/
def hasPath (w : World) : Path → Bool
  | .db loc => (w.file loc).isSome
  | _ => true

/-- `owner` after process `me` gives up its lock on the inode of `fd`. -/
def releaseFd (w : World) (me : Pid) (fd : ℕ) : ℕ → Option Pid :=
  fun inode => if w.fds me fd = some inode ∧ w.owner inode = some me then none else w.owner inode

end World

/-- A call that succeeds, on a system whose files belong to root. -/
def Outcome.good : Outcome where
  ok := true
  fault := none
  stat := fun
    | .db _ => ⟨false, true, 0, false⟩
    | _ => ⟨true, false, 0, false⟩
  junk := ⟨0, Bytes.zero 40⟩
  time := 0
  bytes := []
  user := ⟨[], nul_not_mem_nil⟩

/-- A world in which no call was made yet, for processes of root. -/
def World.boot (file : DbLoc → Option (List Char)) (io : ℕ → Outcome) : World where
  file := file
  tmp := fun _ => none
  lck := fun _ => none
  owner := fun _ => none
  freshInode := 0
  fds := fun _ _ => none
  freshFd := fun _ => 0
  uid := fun _ => 0
  euid := fun _ => 0
  io := io
  tick := 0

/-- Answer one call of process `me`. -/
def Sys.exec (me : Pid) (c : Sys) (w : World) : c.Reply × World :=
  let o := w.next
  let w' := { w with tick := w.tick + 1 }
  let setFd (fd : ℕ) (inode : Option ℕ) :=
    Function.update w.fds me (Function.update (w.fds me) fd inode)
  match c with
  | .malloc => (o.ok, w')
  | .mallocState => (if o.ok then some o.junk else none, w')
  | .strdup => (o.ok, w')
  | .stackState => (o.junk, w')
  | .stackHash => (o.junk.spass, w')
  | .parseUser _ => (if o.ok then some o.user else none, w')
  | .getpwnam _ => (o.ok, w')
  | .getuid => (w.uid me, w')
  | .geteuid => (w.euid me, w')
  | .time => (o.time, w')
  | .rng n => (if o.ok then some (Bytes.ofList n o.bytes) else none, w')
  | .stat path => (if o.ok ∧ w.hasPath path then some (o.stat path) else none, w')
  | .chownDb _ => (o.ok, w')
  | .openLck loc =>
    if o.ok then
      let fd := w.freshFd me + 3
      let w' := { w' with freshFd := Function.update w.freshFd me (w.freshFd me + 1) }
      match w.lck loc with
      | some inode =>
        (some fd, { w' with fds := setFd fd (some inode) })
      | none =>
        (some fd,
          { w' with
            fds := setFd fd (some w.freshInode)
            lck := Function.update w.lck loc (some w.freshInode)
            freshInode := w.freshInode + 1 })
    else (none, w')
  | .setlk fd =>
    match w.fds me fd with
    | some inode =>
      if o.ok ∧ (w.owner inode = none ∨ w.owner inode = some me) then
        (true, { w' with owner := Function.update w.owner inode (some me) })
      else (false, w')
    | none => (false, w')
  | .unlck fd => if o.ok then (true, { w' with owner := w.releaseFd me fd }) else (false, w')
  | .close fd =>
    (⟨⟩, { w' with
      owner := w.releaseFd me fd
      fds := setFd fd none })
  | .unlinkLck loc => (⟨⟩, if o.ok then { w' with lck := Function.update w.lck loc none } else w')
  | .fopenDb loc =>
    match w.file loc with
    | none => (if o.ok then .noent else .error, w')
    | some text => (if o.ok then .opened ⟨text, false, o.fault⟩ else .error, w')
  | .fopenTmp loc =>
    if o.ok then
      (some ⟨[], o.fault⟩, { w' with tmp := Function.update w.tmp loc (some []) })
    else (none, w')
  | .chownTmp _ => (o.ok, w')
  | .closeTmp loc text =>
    if o.ok then (true, { w' with tmp := Function.update w.tmp loc (some text) })
    else
      -- part of the buffer may have reached the disk
      (false, { w' with tmp := Function.update w.tmp loc (some (text.take (o.fault.getD 0))) })
  | .renameTmp loc =>
    if o.ok ∧ (w.tmp loc).isSome then
      (true, { w' with
        file := Function.update w.file loc (w.tmp loc)
        tmp := Function.update w.tmp loc none })
    else (false, w')
  | .unlinkTmp loc => (⟨⟩, if o.ok then { w' with tmp := Function.update w.tmp loc none } else w')
  | .unlinkDb loc =>
    if o.ok ∧ (w.file loc).isSome then
      (true, { w' with file := Function.update w.file loc none })
    else (false, w')

end Otpasswd
