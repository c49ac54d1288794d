import Otpasswd.Libotp.LockPhase
import Otpasswd.Libotp.OneTime

/-!
# Otpasswd.Libotp.Exclusive — at most one process in a database

Any number of processes, each of which keeps to the lock discipline of one
database, interleaved call by call. `db_file_unlock` removes the path of the
lock file before it gives up the lock, so a process that opened the file
earlier may lock one that has no name any more; where that does not happen,
the lock is exclusive.

Main result: `lock_exclusive`.
-/

namespace Otpasswd

open CText Prog

/-! ## Pools on the system -/

/-- Processes on the system. -/
abbrev SysPool (α : Type) := Pool Sys Sys.Reply Pid α World

variable {α : Type} {loc : DbLoc}

/-- How far process `i` is with the lock. -/
def phaseOf (loc : DbLoc) (x : SysPool α) (i : Pid) : LockPhase :=
  (lockDiscipline loc).after .idle (x.seen i)

/-- The process is between a `db_file_lock` that returned zero and the `unlink`
of its `db_file_unlock`. -/
def Inside (loc : DbLoc) (x : SysPool α) (i : Pid) : Prop := ∃ fd, phaseOf loc x i = .held fd

/-- If the call gets the lock, the path still names the file that was opened. -/
def Sys.lockNamed (loc : DbLoc) (me : Pid) (w : World) : Sys → Bool
  | .setlk fd => !(Sys.exec me (.setlk fd) w).1 || decide (w.lck loc = w.fds me fd)
  | _ => true

/-- The process gets no lock on a file that the path does not name. -/
def LockNamed (loc : DbLoc) (i : Pid) (x : SysPool α) : Prop :=
  ∀ c ∈ (x.prog i).firstCall, c.lockNamed loc i x.world = true

instance (loc : DbLoc) (i : Pid) (x : SysPool α) : Decidable (LockNamed loc i x) :=
  inferInstanceAs (Decidable (∀ c ∈ (x.prog i).firstCall, _))

theorem LockNamed.lck {i : Pid} {x : SysPool α} {fd : ℕ} {k : Bool → SysM α}
    (h : LockNamed loc i x) (hi : x.prog i = .call (.setlk fd) k)
    (hgrant : (Sys.exec i (.setlk fd) x.world).1 = true) :
    x.world.lck loc = x.world.fds i fd := by
  have hfirst : Sys.setlk fd ∈ (x.prog i).firstCall := by
    rw [hi]
    rfl
  have hnamed := h _ hfirst
  simp only [Sys.lockNamed, hgrant, Bool.not_true, Bool.false_or, decide_eq_true_eq] at hnamed
  exact hnamed

/-- Every program uses the lock of the database once. -/
def Disciplined (loc : DbLoc) (prog : Pid → SysM α) : Prop :=
  ∀ i, Follows (lockDiscipline loc) (fun _ _ => True) .idle (prog i)

/-! ## One step -/

theorem exec_numbered (me : Pid) (c : Sys) (w : World) : Sys.Numbered c (c.exec me w).1 := by
  cases c with
  | openLck db => exact exec_answers me (.openLck db) w
  | _ => trivial

/-- What calls that have nothing to do with the lock leave. -/
structure World.SameLocks (w' w : World) : Prop where
  lck : w'.lck = w.lck
  owner : w'.owner = w.owner
  fds : w'.fds = w.fds
  freshFd : w'.freshFd = w.freshFd

theorem exec_sameLocks {c : Sys} (hc : c.Aside ∨ c.Touches loc) (me : Pid) (w : World) :
    (c.exec me w).2.SameLocks w := by
  cases c <;> first
    | exact (hc.elim id id).elim
    | (simp only [Sys.exec]; (repeat' split) <;> exact ⟨rfl, rfl, rfl, rfl⟩)

/-- A call leaves the descriptors of the other processes. -/
theorem exec_fds_other {i j : Pid} (hij : i ≠ j) (c : Sys) (w : World) :
    (c.exec j w).2.fds i = w.fds i := by
  cases c <;> simp only [Sys.exec] <;> (repeat' split) <;>
    first | rfl | exact Function.update_of_ne hij _ _

/-- A lock is taken away by no other process. -/
theorem exec_owner_other {i j : Pid} (hij : i ≠ j) (c : Sys) {w : World} {inode : ℕ}
    (h : w.owner inode = some i) : (c.exec j w).2.owner inode = some i := by
  have hne : w.owner inode ≠ some j := by
    rw [h]
    exact fun hj => hij (Option.some.inj hj)
  have hrelease (fd : ℕ) : w.releaseFd j fd inode = some i := by
    rw [World.releaseFd, if_neg fun hj => hne hj.2]
    exact h
  cases c with
  | setlk fd =>
    simp only [Sys.exec]
    split
    · rename_i inode' _
      split
      · rename_i hfree
        -- the lock that is granted is on another file
        have hdiff : inode ≠ inode' := by
          rintro rfl
          rcases hfree.2 with hnone | hj
          · rw [h] at hnone
            cases hnone
          · exact hne hj
        exact (Function.update_of_ne hdiff _ _).trans h
      · exact h
    · exact h
  | unlck fd =>
    simp only [Sys.exec]
    split
    · exact hrelease fd
    · exact h
  | close fd => exact hrelease fd
  | _ => simp only [Sys.exec]; (repeat' split) <;> exact h

/-- A path that is there goes only by the call that removes it. -/
theorem exec_lck_some (me : Pid) {c : Sys} (hc : c ≠ .unlinkLck loc) {w : World} {inode : ℕ}
    (h : w.lck loc = some inode) : (c.exec me w).2.lck loc = some inode := by
  cases c with
  | openLck db =>
    simp only [Sys.exec]
    split
    · split
      · exact h
      · rename_i hnone
        have hdb : loc ≠ db := by
          rintro rfl
          rw [h] at hnone
          cases hnone
        exact (Function.update_of_ne hdb _ _).trans h
    · exact h
  | unlinkLck db =>
    have hdb : loc ≠ db := fun hdb => hc (congrArg Sys.unlinkLck hdb.symm)
    simp only [Sys.exec]
    split
    · exact (Function.update_of_ne hdb _ _).trans h
    · exact h
  | _ => simp only [Sys.exec]; (repeat' split) <;> exact h

/-! ## The invariant -/

/-- The lock that a process holds is on the file that the path names. -/
def Owns (loc : DbLoc) (w : World) (i : Pid) (fd : ℕ) : Prop :=
  ∃ inode, w.fds i fd = some inode ∧ w.owner inode = some i ∧ w.lck loc = some inode

theorem Owns.unique {w : World} {i j : Pid} {fd fd' : ℕ} (hi : Owns loc w i fd)
    (hj : Owns loc w j fd') : i = j := by
  obtain ⟨inode, -, howner, hlck⟩ := hi
  obtain ⟨inode', -, howner', hlck'⟩ := hj
  obtain rfl := Option.some.inj (hlck.symm.trans hlck')
  exact Option.some.inj (howner.symm.trans howner')

theorem Owns.other {w : World} {i j : Pid} {fd : ℕ} (h : Owns loc w i fd) (hij : i ≠ j) {c : Sys}
    (hc : c ≠ .unlinkLck loc) : Owns loc (c.exec j w).2 i fd := by
  obtain ⟨inode, hfds, howner, hlck⟩ := h
  refine ⟨inode, ?_, exec_owner_other hij c howner, exec_lck_some j hc hlck⟩
  rw [exec_fds_other hij]
  exact hfds

/-- The calls that a process makes under the lock leave it with it. -/
theorem Owns.self {w : World} {i : Pid} {fd : ℕ} (h : Owns loc w i fd) {c : Sys}
    (hc : c.Aside ∨ c.Touches loc) : Owns loc (c.exec i w).2 i fd := by
  have hlocks := exec_sameLocks hc i w
  obtain ⟨inode, hfds, howner, hlck⟩ := h
  refine ⟨inode, ?_, ?_, ?_⟩
  · rw [hlocks.fds]
    exact hfds
  · rw [hlocks.owner]
    exact howner
  · rw [hlocks.lck]
    exact hlck

/-- What a lock that is granted gives. -/
theorem Owns.granted {w : World} {i : Pid} {fd : ℕ}
    (hgrant : (Sys.exec i (.setlk fd) w).1 = true)
    (hnamed : ∀ inode, w.fds i fd = some inode → w.lck loc = some inode) :
    Owns loc (Sys.exec i (.setlk fd) w).2 i fd := by
  cases hfds : w.fds i fd with
  | none =>
    simp only [Sys.exec, hfds] at hgrant
    cases hgrant
  | some inode =>
    simp only [Sys.exec, hfds] at hgrant ⊢
    split
    · exact ⟨inode, hfds, Function.update_self _ _ _, hnamed inode hfds⟩
    · rename_i hbusy
      rw [if_neg hbusy] at hgrant
      cases hgrant

/-- Every program keeps to the discipline, and who is inside has the lock. -/
structure Exclusive (loc : DbLoc) (x : SysPool α) : Prop where
  follows : ∀ i, Follows (lockDiscipline loc) (fun _ _ => True) (phaseOf loc x i) (x.prog i)
  owns : ∀ i fd, phaseOf loc x i = .held fd → Owns loc x.world i fd

section

variable {x : SysPool α} {i j : Pid} {c : Sys} {k : c.Reply → SysM α}

theorem Exclusive.unique (hx : Exclusive loc x) (hi : Inside loc x i) (hj : Inside loc x j) :
    i = j := by
  obtain ⟨fd, hi⟩ := hi
  obtain ⟨fd', hj⟩ := hj
  exact (hx.owns i fd hi).unique (hx.owns j fd' hj)

/-- The pool after a step of process `j`. -/
abbrev sysStep (j : Pid) (x : SysPool α) : SysPool α := poolStep Sys.exec j x

theorem phaseOf_step_self (hj : x.prog j = .call c k) :
    phaseOf loc (sysStep j x) j = (phaseOf loc x j).next c (c.exec j x.world).1 := by
  rw [phaseOf, sysStep, poolStep_call hj]
  simp only [Function.update_self]
  exact Discipline.after_snoc _ _ _

theorem phaseOf_step_other (hj : x.prog j = .call c k) (hij : i ≠ j) :
    phaseOf loc (sysStep j x) i = phaseOf loc x i := by
  rw [phaseOf, sysStep, poolStep_call hj]
  simp only [Function.update_of_ne hij]
  rfl

theorem LockPhase.Allows.cases {ph : LockPhase} (h : ph.Allows loc c) :
    (c = .openLck loc ∧ ph = .idle) ∨ (∃ fd, c = .setlk fd ∧ ph = .opened fd) ∨
      (∃ fd, c = .close fd ∧ (ph = .opened fd ∨ ph = .leaving fd)) ∨
      (∃ fd, c = .unlinkLck loc ∧ ph = .held fd) ∨ (∃ fd, c = .unlck fd ∧ ph = .leaving fd) ∨
      c.Aside ∨ c.Touches loc ∧ ∃ fd, ph = .held fd := by
  cases c with
  | openLck db => exact .inl ⟨congrArg Sys.openLck h.1, h.2⟩
  | setlk fd => exact .inr (.inl ⟨fd, rfl, h⟩)
  | close fd => exact .inr (.inr (.inl ⟨fd, rfl, h⟩))
  | unlinkLck db =>
    obtain ⟨hdb, fd, hph⟩ := h
    exact .inr (.inr (.inr (.inl ⟨fd, congrArg Sys.unlinkLck hdb, hph⟩)))
  | unlck fd => exact .inr (.inr (.inr (.inr (.inl ⟨fd, rfl, h⟩))))
  | unlinkDb db => exact h.elim
  | _ => exact .inr (.inr (.inr (.inr (.inr h))))

theorem LockPhase.next_openLck {fd : ℕ} (x : Option ℕ) :
    LockPhase.next .idle (.openLck loc) x ≠ .held fd := by
  intro h
  cases x <;> cases h

theorem LockPhase.next_setlk {fd fd' : ℕ} (x : Bool)
    (h : LockPhase.next (.opened fd') (.setlk fd') x = .held fd) : fd' = fd ∧ x = true := by
  cases x with
  | false => cases h
  | true => exact ⟨LockPhase.held.inj h, rfl⟩

theorem Exclusive.step (hx : Exclusive loc x) (hnamed : LockNamed loc j x) :
    Exclusive loc (sysStep j x) := by
  rcases poolStep_cases j x with ⟨c, k, hj⟩ | hdone
  swap
  · rw [sysStep, hdone]
    exact hx
  have hfollows := hx.follows j
  rw [hj] at hfollows
  obtain ⟨hallows, hnext⟩ := hfollows
  have hworld : (sysStep j x).world = (c.exec j x.world).2 := by rw [sysStep, poolStep_call hj]
  constructor
  · -- the discipline allows the call, and holds for what is left of the program
    intro i
    by_cases hij : i = j
    · subst hij
      rw [phaseOf_step_self hj, sysStep, poolStep_call hj]
      simp only [Function.update_self]
      exact hnext _ (exec_numbered i c x.world)
    · rw [phaseOf_step_other hj hij, sysStep, poolStep_call hj]
      simp only [Function.update_of_ne hij]
      exact hx.follows i
  · intro i fd hi
    rw [hworld]
    by_cases hij : i = j
    · subst hij
      rw [phaseOf_step_self hj] at hi
      rcases LockPhase.Allows.cases hallows with ⟨rfl, hph⟩ | ⟨fd', rfl, hph⟩ | ⟨fd', rfl, hph⟩ |
        ⟨fd', rfl, hph⟩ | ⟨fd', rfl, hph⟩ | haside | ⟨htouch, -⟩
      · rw [hph] at hi
        exact (LockPhase.next_openLck _ hi).elim
      · -- the lock that is granted is on the file that the path names
        rw [hph] at hi
        obtain ⟨rfl, hgrant⟩ := LockPhase.next_setlk _ hi
        exact .granted hgrant fun inode hfds => (hnamed.lck hj hgrant).trans hfds
      · simp only [LockPhase.next] at hi
        cases hi
      · rw [hph] at hi
        simp only [LockPhase.next] at hi
        cases hi
      · rw [hph] at hi
        simp only [LockPhase.next] at hi
        cases hi
      · rw [haside.next] at hi
        exact (hx.owns i fd hi).self (.inl haside)
      · rw [htouch.next] at hi
        exact (hx.owns i fd hi).self (.inr htouch)
    · rw [phaseOf_step_other hj hij] at hi
      have howns := hx.owns i fd hi
      refine howns.other hij fun hunlink => ?_
      -- only a process that is inside removes the path, and that is `i` itself
      subst hunlink
      obtain ⟨-, fd', hph⟩ := hallows
      exact hij (howns.unique (hx.owns j fd' hph))

end

theorem Exclusive.start {prog : Pid → SysM α} (hprog : Disciplined loc prog) {w : World} :
    Exclusive loc (Pool.start prog w) where
  follows := hprog
  owns := by
    intro i fd h
    cases h

/-- One process at most is inside. -/
def Mutex (loc : DbLoc) (x : SysPool α) : Prop := ∀ i j, Inside loc x i → Inside loc x j → i = j

/-- With programs that keep to the discipline, and where no lock is granted on
a file that lost its name, the lock of the database is exclusive. -/
theorem lock_exclusive {prog : Pid → SysM α} (hprog : Disciplined loc prog) {sched : List Pid}
    {w : World} (hnamed : poolAlong Sys.exec (LockNamed loc) sched (Pool.start prog w)) :
    Mutex loc (poolRun Sys.exec sched (Pool.start prog w)) := by
  have hend := poolRun_induct (fun i x hgood hx => Exclusive.step hx hgood) hnamed (.start hprog)
  intro i j hi hj
  exact hend.unique hi hj

/-! ## Logins that meet -/

/-- Logins of alice, as many as there are processes. -/
def aliceLogins : Pid → SysM (ℕ × State) := fun _ => pppIncrement configRoot aliceState

theorem aliceLogins_disciplined : Disciplined (dbLoc configRoot alice) aliceLogins := by
  intro i
  have hlock := (State.initial_fresh configRoot Outcome.good.junk alice).lock
  exact (pppIncrement_follows hlock).mono fun _ _ _ => trivial

/-- One login has the lock, and another one waits for it. -/
def waitingSched : List Pid := List.replicate 12 0 ++ List.replicate 12 1

theorem waitingSched_named : poolAlong Sys.exec (LockNamed (dbLoc configRoot alice)) waitingSched
    (Pool.start aliceLogins aliceWorld) := by
  decide +kernel

theorem lock_exclusive_waiting : Mutex (dbLoc configRoot alice)
    (poolRun Sys.exec waitingSched (Pool.start aliceLogins aliceWorld)) :=
  lock_exclusive aliceLogins_disciplined waitingSched_named

/-- The second login opens the lock file that the first one removes, and the
third one makes a new file. -/
def raceSched : List Pid :=
  List.replicate 20 0 ++ List.replicate 7 1 ++ List.replicate 20 0 ++ [1] ++ List.replicate 8 2

/-- Without the condition on the run two processes are inside. -/
theorem unlink_race : ¬ Mutex (dbLoc configRoot alice)
    (poolRun Sys.exec raceSched (Pool.start aliceLogins aliceWorld)) := by
  have hinside (i : Pid) (h : phaseOf (dbLoc configRoot alice)
      (poolRun Sys.exec raceSched (Pool.start aliceLogins aliceWorld)) i = .held 3) :
      Inside (dbLoc configRoot alice)
        (poolRun Sys.exec raceSched (Pool.start aliceLogins aliceWorld)) i := ⟨3, h⟩
  intro h
  have heq : (1 : Pid) = 2 :=
    h 1 2 (hinside 1 (by decide +kernel)) (hinside 2 (by decide +kernel))
  exact absurd heq (by decide)

end Otpasswd
