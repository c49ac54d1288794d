import Otpasswd.Libotp.Exclusive

/-!
# Otpasswd.Libotp.Solo — a process by itself

What a process of a pool was answered, it could have been answered with nobody
else on the system: some world replays its answers call by call. Outside the
lock it does not matter what is in the database files of that world, and under
the lock they have to be the ones of the pool.

Main results: `Seems.step` and `Seems.touch` (the world of the process takes
the same step) and `Seems.other` (what the other processes do is not seen).
-/

namespace Otpasswd

open CText Prog

variable {loc : DbLoc}

/-- The contents of the database files. -/
abbrev Files := DbLoc → Option (List Char)

/-- The call is about a database file or its temporary file. -/
def Sys.OnFiles : Sys → Prop
  | .fopenDb _ | .fopenTmp _ | .chownTmp _ | .closeTmp _ _ | .renameTmp _ | .unlinkTmp _
  | .unlinkDb _ => True
  | _ => False

theorem Sys.Aside.not_onFiles {c : Sys} (h : c.Aside) : ¬ c.OnFiles := by
  cases c <;> first | exact h.elim | exact id

/-! ## Oracles -/

/-- The world with another answer to the next call. -/
def World.answering (w : World) (o : Outcome) : World :=
  { w with io := Function.update w.io w.tick o }

@[simp] theorem World.answering_next (w : World) (o : Outcome) : (w.answering o).next = o := by
  show Function.update w.io w.tick o w.tick = o
  exact Function.update_self w.tick o w.io

@[simp] theorem World.answering_fds (w : World) (o : Outcome) : (w.answering o).fds = w.fds := rfl
@[simp] theorem World.answering_file (w : World) (o : Outcome) :
    (w.answering o).file = w.file := rfl
@[simp] theorem World.answering_tmp (w : World) (o : Outcome) : (w.answering o).tmp = w.tmp := rfl
@[simp] theorem World.answering_freshFd (w : World) (o : Outcome) :
    (w.answering o).freshFd = w.freshFd := rfl

/-- The oracle is asked for one outcome only, and stays. -/
theorem exec_withIo (me : Pid) (c : Sys) (w : World) {io : ℕ → Outcome}
    (h : io w.tick = w.io w.tick) :
    c.exec me { w with io := io } =
      ((c.exec me w).1, { (c.exec me w).2 with io := io }) := by
  have hnext : ({ w with io := io } : World).next = w.next := h
  have hpath (path : Path) : ({ w with io := io } : World).hasPath path = w.hasPath path := by
    cases path <;> rfl
  cases c <;> simp only [Sys.exec, hnext, hpath] <;> (repeat' split) <;> rfl

theorem exec_tick (me : Pid) (c : Sys) (w : World) : (c.exec me w).2.tick = w.tick + 1 := by
  cases c <;> simp only [Sys.exec] <;> (repeat' split) <;> rfl

section Replays

variable {i : Pid} {tr : Prog.Answers Sys Sys.Reply} {v0 v : World}

theorem replays_tick (h : Replays (Sys.exec i) tr v0 v) : v0.tick ≤ v.tick := by
  induction tr generalizing v0 with
  | nil =>
    obtain rfl : v = v0 := h
    exact le_refl _
  | cons ev tr ih =>
    have hrest := ih h.2
    rw [exec_tick] at hrest
    omega

theorem replays_io (h : Replays (Sys.exec i) tr v0 v) : v.io = v0.io := by
  induction tr generalizing v0 with
  | nil =>
    obtain rfl : v = v0 := h
    rfl
  | cons ev tr ih => exact (ih h.2).trans (exec_io i ev.1 v0)

/-- What the oracle would say to later calls does not matter. -/
theorem replays_withIo (h : Replays (Sys.exec i) tr v0 v) {io : ℕ → Outcome}
    (hio : ∀ n, n < v.tick → io n = v0.io n) :
    Replays (Sys.exec i) tr { v0 with io := io } { v with io := io } := by
  induction tr generalizing v0 with
  | nil =>
    obtain rfl : v = v0 := h
    rfl
  | cons ev tr ih =>
    obtain ⟨c, x⟩ := ev
    obtain ⟨hx, hrest⟩ := h
    have hlt : v0.tick < v.tick := by
      have hle := replays_tick hrest
      rw [exec_tick] at hle
      exact hle
    have hexec := exec_withIo i c v0 (hio v0.tick hlt)
    refine ⟨(congrArg Prod.fst hexec).trans hx, ?_⟩
    rw [hexec]
    refine ih hrest fun n hn => ?_
    rw [exec_io]
    exact hio n hn

/-- One more answer. -/
theorem replays_answering (h : Replays (Sys.exec i) tr v0 v) (c : Sys) (o : Outcome) :
    Replays (Sys.exec i) (tr ++ [⟨c, (c.exec i (v.answering o)).1⟩])
      { v0 with io := (v.answering o).io } (c.exec i (v.answering o)).2 := by
  refine (replays_snoc c _).mpr ⟨v.answering o, ?_, rfl, rfl⟩
  refine replays_withIo h fun n hn => ?_
  rw [← replays_io h]
  exact Function.update_of_ne (Nat.ne_of_lt hn) o v.io

end Replays

/-! ## What a process sees -/

/-- To process `i`, the world `v` in which it is alone looks like `w`. -/
structure Seems (i : Pid) (v w : World) : Prop where
  uid : v.uid i = w.uid i
  euid : v.euid i = w.euid i
  freshFd : v.freshFd i = w.freshFd i
  fds : ∀ fd, (v.fds i fd).isSome = (w.fds i fd).isSome
  owner : ∀ inode, v.owner inode = none ∨ v.owner inode = some i
  present : ∀ db, (v.file db).isSome = (w.file db).isSome

/-- The outcome with which a process alone gets the answer of `w`: a lock that
another process holds is one that fails. -/
def soloOutcome (i : Pid) (c : Sys) (w : World) : Outcome :=
  match c with
  | .setlk fd => { w.next with ok := (Sys.exec i (.setlk fd) w).1 }
  | _ => w.next

section Seems

variable {i j : Pid} {v w : World} {c : Sys}

/-- Calls that are not about the files leave them. -/
theorem exec_files (hc : ¬ c.OnFiles) (w : World) :
    (c.exec i w).2.file = w.file ∧ (c.exec i w).2.tmp = w.tmp := by
  constructor <;> cases c <;> first
    | exact absurd trivial hc
    | (simp only [Sys.exec] <;> (repeat' split) <;> rfl)

/-- A database file that is there stays. -/
theorem exec_present (hc : ¬ c.OnFiles ∨ c.Touches loc) (h : (w.file loc).isSome) (db : DbLoc) :
    ((c.exec i w).2.file db).isSome = (w.file db).isSome := by
  rcases hc with hc | hc
  · rw [(exec_files hc w).1]
  · cases c with
    | renameTmp db' =>
      obtain rfl : db' = loc := hc
      simp only [Sys.exec]
      split
      · rename_i hok
        by_cases hdb : db = db'
        · subst hdb
          simp only [Function.update_self]
          rw [hok.2, h]
        · simp only [Function.update_of_ne hdb]
      · rfl
    | _ => first
      | exact hc.elim
      | (simp only [Sys.exec] <;> (repeat' split) <;> rfl)

theorem Seems.hasPath (h : Seems i v w) {o : Outcome} (path : Path) :
    (v.answering o).hasPath path = w.hasPath path := by
  cases path with
  | db db => exact h.present db
  | _ => rfl

theorem setlk_world (i : Pid) (fd : ℕ) (w : World) :
    ∃ owner, (Sys.exec i (.setlk fd) w).2 = { w with owner := owner, tick := w.tick + 1 } ∧
      ∀ inode, owner inode = w.owner inode ∨ owner inode = some i := by
  have hkept : ∀ inode, w.owner inode = w.owner inode ∨ w.owner inode = some i :=
    fun _ => .inl rfl
  simp only [Sys.exec]
  split
  · rename_i inode hfds
    split
    · refine ⟨Function.update w.owner inode (some i), rfl, fun inode' => ?_⟩
      by_cases h : inode' = inode
      · subst h
        exact .inr (Function.update_self _ _ _)
      · exact .inl (Function.update_of_ne h _ _)
    · exact ⟨w.owner, rfl, hkept⟩
  · exact ⟨w.owner, rfl, hkept⟩

/-- A lock that no other process can hold is granted when the system wants. -/
theorem setlk_alone (howner : ∀ inode, v.owner inode = none ∨ v.owner inode = some i) (fd : ℕ) :
    (Sys.exec i (.setlk fd) v).1 = (v.next.ok && (v.fds i fd).isSome) := by
  simp only [Sys.exec]
  cases v.fds i fd with
  | none => exact (Bool.and_false _).symm
  | some inode =>
    simp only [howner inode, and_true]
    cases v.next.ok <;> rfl

theorem setlk_open (fd : ℕ) (h : (Sys.exec i (.setlk fd) w).1 = true) :
    (w.fds i fd).isSome = true := by
  cases hfds : w.fds i fd with
  | none =>
    simp only [Sys.exec, hfds] at h
    cases h
  | some inode => rfl

/-- The process by itself gets the same answer. -/
theorem Seems.reply (h : Seems i v w) (hc : ¬ c.OnFiles) :
    (c.exec i (v.answering (soloOutcome i c w))).1 = (c.exec i w).1 := by
  cases c with
  | getuid => exact h.uid
  | geteuid => exact h.euid
  | stat path =>
    have hpath : (v.answering w.next).hasPath path = w.hasPath path := h.hasPath path
    simp only [soloOutcome, Sys.exec, World.answering_next, hpath]
  | openLck db =>
    simp only [soloOutcome, Sys.exec, World.answering_next, World.answering_freshFd, h.freshFd]
    (repeat' split) <;> rfl
  | setlk fd =>
    refine (@setlk_alone i (v.answering _) h.owner fd).trans ?_
    rw [World.answering_next, World.answering_fds, h.fds fd]
    cases hok : (Sys.exec i (.setlk fd) w).1 with
    | false =>
      simp only [soloOutcome, hok]
      rfl
    | true =>
      simp only [soloOutcome, hok, setlk_open fd hok]
      rfl
  | _ => first
    | exact absurd trivial hc
    | (simp only [soloOutcome, Sys.exec, World.answering_next] <;> (repeat' split) <;> rfl)

theorem releaseFd_alone (howner : ∀ inode, v.owner inode = none ∨ v.owner inode = some i)
    (fd inode : ℕ) : v.releaseFd i fd inode = none ∨ v.releaseFd i fd inode = some i := by
  rw [World.releaseFd]
  split
  · exact .inl rfl
  · exact howner inode

theorem updateFd_isSome {f g : Pid → ℕ → Option ℕ} (h : ∀ fd, (f i fd).isSome = (g i fd).isSome)
    {x y : Option ℕ} (hxy : x.isSome = y.isSome) (fd fd' : ℕ) :
    (Function.update f i (Function.update (f i) fd x) i fd').isSome =
      (Function.update g i (Function.update (g i) fd y) i fd').isSome := by
  simp only [Function.update_self]
  by_cases hfd : fd' = fd
  · subst hfd
    simp only [Function.update_self]
    exact hxy
  · simp only [Function.update_of_ne hfd]
    exact h fd'

/-- The world of the process takes the step with it. -/
theorem Seems.step (h : Seems i v w) (hc : ¬ c.OnFiles) :
    Seems i (c.exec i (v.answering (soloOutcome i c w))).2 (c.exec i w).2 := by
  obtain ⟨huid, heuid, hfresh, hfds, howner, hpresent⟩ := h
  cases c with
  | openLck db =>
    have hfresh' (n : ℕ) : Function.update v.freshFd i n i = Function.update w.freshFd i n i := by
      rw [Function.update_self, Function.update_self]
    have hfds' (inode inode' fd fd' : ℕ) := @updateFd_isSome i _ _ hfds (some inode) (some inode')
      rfl fd fd'
    simp only [soloOutcome, Sys.exec, World.answering_next, World.answering_freshFd,
      World.answering_fds, hfresh]
    split
    · cases (v.answering w.next).lck db <;> cases w.lck db <;> simp only <;>
        exact ⟨huid, heuid, hfresh' _, hfds' _ _ _, howner, hpresent⟩
    · exact ⟨huid, heuid, hfresh, hfds, howner, hpresent⟩
  | setlk fd =>
    obtain ⟨vowner, hv, hvowner⟩ := setlk_world i fd (v.answering (soloOutcome i (.setlk fd) w))
    obtain ⟨wowner, hw, -⟩ := setlk_world i fd w
    rw [hv, hw]
    refine ⟨huid, heuid, hfresh, hfds, fun inode => ?_, hpresent⟩
    rcases hvowner inode with h | h
    · exact (howner inode).imp h.trans h.trans
    · exact .inr h
  | unlck fd =>
    simp only [soloOutcome, Sys.exec, World.answering_next]
    split
    · exact ⟨huid, heuid, hfresh, hfds, releaseFd_alone howner fd, hpresent⟩
    · exact ⟨huid, heuid, hfresh, hfds, howner, hpresent⟩
  | close fd =>
    exact ⟨huid, heuid, hfresh, updateFd_isSome hfds rfl fd, releaseFd_alone howner fd, hpresent⟩
  | _ => first
    | exact absurd trivial hc
    | (simp only [soloOutcome, Sys.exec, World.answering_next]; (repeat' split) <;>
        exact ⟨huid, heuid, hfresh, hfds, howner, hpresent⟩)

theorem exec_euid (me : Pid) (c : Sys) (w : World) : (c.exec me w).2.euid = w.euid := by
  cases c <;> simp only [Sys.exec] <;> (repeat' split) <;> rfl

/-- Under the lock the files have to be the same, and stay so. -/
theorem Seems.touch (h : Seems i v w) (hc : c.Touches loc) (hfile : v.file = w.file)
    (htmp : v.tmp = w.tmp) :
    (c.exec i (v.answering w.next)).1 = (c.exec i w).1 ∧
      Seems i (c.exec i (v.answering w.next)).2 (c.exec i w).2 ∧
      (c.exec i (v.answering w.next)).2.file = (c.exec i w).2.file ∧
      (c.exec i (v.answering w.next)).2.tmp = (c.exec i w).2.tmp := by
  have hlocks := exec_sameLocks (.inr hc) i (v.answering w.next)
  have hlocks' := exec_sameLocks (.inr hc) i w
  have hsame : (c.exec i (v.answering w.next)).1 = (c.exec i w).1 ∧
      (c.exec i (v.answering w.next)).2.file = (c.exec i w).2.file ∧
      (c.exec i (v.answering w.next)).2.tmp = (c.exec i w).2.tmp := by
    refine ⟨?_, ?_, ?_⟩ <;> cases c <;> first
      | exact hc.elim
      | (simp only [Sys.exec, World.answering_next, World.answering_file, World.answering_tmp,
          hfile, htmp] <;> (repeat' split) <;> rfl)
  refine ⟨hsame.1, ?_, hsame.2⟩
  constructor
  · rw [exec_uid, exec_uid]
    exact h.uid
  · rw [exec_euid, exec_euid]
    exact h.euid
  · rw [hlocks.freshFd, hlocks'.freshFd]
    exact h.freshFd
  · rw [hlocks.fds, hlocks'.fds]
    exact h.fds
  · rw [hlocks.owner]
    exact h.owner
  · rw [hsame.2.1]
    exact fun _ => rfl

theorem exec_freshFd_other (hij : i ≠ j) (c : Sys) (w : World) :
    (c.exec j w).2.freshFd i = w.freshFd i := by
  cases c <;> simp only [Sys.exec] <;> (repeat' split) <;>
    first | rfl | exact Function.update_of_ne hij _ _

/-- What another process does is not seen, as long as no database file comes
or goes. -/
theorem Seems.other (h : Seems i v w) (hij : i ≠ j) (c : Sys)
    (hfile : ∀ db, ((c.exec j w).2.file db).isSome = (w.file db).isSome) :
    Seems i v (c.exec j w).2 where
  uid := by
    rw [exec_uid]
    exact h.uid
  euid := by
    rw [exec_euid]
    exact h.euid
  freshFd := by
    rw [exec_freshFd_other hij]
    exact h.freshFd
  fds := by
    rw [exec_fds_other hij]
    exact h.fds
  owner := h.owner
  present := fun db => (h.present db).trans (hfile db).symm

end Seems

end Otpasswd
