import Otpasswd.Libotp.Solo

/-!
# Otpasswd.Libotp.Turns — the operations take turns

Where the lock of a database is exclusive, the processes of a pool have the
database one after the other. A run of the pool leaves a list of turns, each
of them with the files before and after, and every process did in its turn
what it does alone on these files.

Main results: `TurnInv.step` and `turns_of_run`.
-/

namespace Otpasswd

open CText Prog

/-! ## Turns -/

/-- A turn in the database: whose it was, and the files before and after. -/
structure Turn where
  who : Pid
  before : Files
  after : Files

/-- The turns, the last one in front, lead from `old` to `files`. -/
def Turns (old : Files) : List Turn → Files → Prop
  | [], files => files = old
  | t :: log, files => files = t.after ∧ Turns old log t.before

/-- There are the same database files. -/
def SamePresence (file file' : Files) : Prop := ∀ db, (file db).isSome = (file' db).isSome

namespace LockPhase

/-- The process did not get the lock, or not yet. -/
def Before : LockPhase → Prop
  | .held _ | .leaving _ => False
  | _ => True

/-- The process got the lock, or has given up. -/
def Late : LockPhase → Prop
  | .idle | .opened _ => False
  | _ => True

/-- The process had the lock, and gave it up. -/
def Past : LockPhase → Prop
  | .leaving _ | .done => True
  | _ => False

theorem Late.past {ph : LockPhase} (h : ph.Late) (hheld : ∀ fd, ph ≠ .held fd) : ph.Past := by
  cases ph with
  | held fd => exact absurd rfl (hheld fd)
  | leaving fd => trivial
  | done => trivial
  | _ => exact h.elim

/-- The step from one phase to the other gives the process no turn. -/
structure Stays (ph ph' : LockPhase) : Prop where
  before : ph.Before → ph'.Before
  late : ph.Late → ph'.Late
  held : ∀ fd, ph' = .held fd → ph = .held fd

theorem stays_openLck (loc : DbLoc) (x : Option ℕ) :
    Stays .idle (LockPhase.next .idle (.openLck loc) x) where
  before := fun _ => by cases x <;> trivial
  late := fun h => h.elim
  held := fun _ h => absurd h (next_openLck x)

theorem stays_unlinkLck (loc : DbLoc) (fd : ℕ) (x : PUnit) :
    Stays (.held fd) (LockPhase.next (.held fd) (.unlinkLck loc) x) where
  before := fun h => h.elim
  late := fun _ => trivial
  held := fun _ h => by cases h

theorem stays_close (ph : LockPhase) (fd : ℕ) (x : PUnit) :
    Stays ph (ph.next (.close fd) x) where
  before := fun _ => trivial
  late := fun _ => trivial
  held := fun _ h => by cases h

theorem Stays.refl (ph : LockPhase) : Stays ph ph := ⟨id, id, fun _ => id⟩

end LockPhase

section Pool

variable {α : Type} {loc : DbLoc}

/-- By itself, the process gets from `v0` to `v`, which looks to it like the
world of the pool. -/
structure Alone (x : SysPool α) (i : Pid) (v0 v : World) : Prop where
  free : ∀ inode, v0.owner inode = none
  replays : Replays (Sys.exec i) (x.seen i) v0 v
  seems : Seems i v x.world

/-- The process had no turn, and could have been alone with any files. -/
def Waits (x : SysPool α) (i : Pid) : Prop :=
  ∀ file tmp : Files, SamePresence file x.world.file →
    ∃ v0 v, Alone x i v0 v ∧ v0.file = file ∧ v.file = file ∧ v.tmp = tmp

/-- The turn is what the process does alone. -/
def Took (loc : DbLoc) (x : SysPool α) (t : Turn) : Prop :=
  ∃ v0 v, Alone x t.who v0 v ∧ v0.file = t.before ∧ v.file = t.after ∧
    (Inside loc x t.who → v.tmp = x.world.tmp)

/-- A pool after these turns. -/
structure TurnInv (loc : DbLoc) (old : Files) (x : SysPool α) (log : List Turn) : Prop where
  exclusive : Exclusive loc x
  present : (x.world.file loc).isSome = true
  turns : Turns old log x.world.file
  nodup : (log.map Turn.who).Nodup
  waits : ∀ i, i ∉ log.map Turn.who → Waits x i ∧ (phaseOf loc x i).Before
  took : ∀ t ∈ log, Took loc x t ∧ (phaseOf loc x t.who).Late
  head : ∀ i, Inside loc x i → ∃ t rest, log = t :: rest ∧ t.who = i

/-! ## A step of one process -/

section Step

variable {x : SysPool α} {i j : Pid} {c : Sys} {k : c.Reply → SysM α} {v0 v : World}

theorem sysStep_world (hj : x.prog j = .call c k) :
    (sysStep j x).world = (c.exec j x.world).2 := by
  rw [sysStep, poolStep_call hj]

theorem sysStep_seen (hj : x.prog j = .call c k) :
    (sysStep j x).seen j = x.seen j ++ [⟨c, (c.exec j x.world).1⟩] := by
  rw [sysStep, poolStep_call hj]
  exact Function.update_self _ _ _

theorem sysStep_seen_other (hj : x.prog j = .call c k) (hij : i ≠ j) :
    (sysStep j x).seen i = x.seen i := by
  rw [sysStep, poolStep_call hj]
  exact Function.update_of_ne hij _ _

/-- Alone, the process takes a step that is not about the files. -/
theorem Alone.self (h : Alone x j v0 v) (hj : x.prog j = .call c k) (hc : ¬ c.OnFiles) :
    ∃ v0' v', Alone (sysStep j x) j v0' v' ∧ v0'.file = v0.file ∧ v'.file = v.file ∧
      v'.tmp = v.tmp := by
  have hreplays := replays_answering h.replays c (soloOutcome j c x.world)
  have hfiles := @exec_files j c hc (v.answering (soloOutcome j c x.world))
  rw [h.seems.reply hc, ← sysStep_seen hj] at hreplays
  have hseems := h.seems.step hc
  rw [← sysStep_world hj] at hseems
  exact ⟨{ v0 with io := (v.answering (soloOutcome j c x.world)).io }, _,
    ⟨h.free, hreplays, hseems⟩, rfl, hfiles.1, hfiles.2⟩

/-- Alone with the files of the pool, it takes every step. -/
theorem Alone.touch (h : Alone x j v0 v) (hj : x.prog j = .call c k) (hc : c.Touches loc)
    (hfile : v.file = x.world.file) (htmp : v.tmp = x.world.tmp) :
    ∃ v0' v', Alone (sysStep j x) j v0' v' ∧ v0'.file = v0.file ∧
      v'.file = (sysStep j x).world.file ∧ v'.tmp = (sysStep j x).world.tmp := by
  have hreplays := replays_answering h.replays c x.world.next
  obtain ⟨hreply, hseems, hfile', htmp'⟩ := h.seems.touch hc hfile htmp
  rw [hreply, ← sysStep_seen hj] at hreplays
  rw [← sysStep_world hj] at hseems hfile' htmp'
  exact ⟨{ v0 with io := (v.answering x.world.next).io }, _, ⟨h.free, hreplays, hseems⟩, rfl,
    hfile', htmp'⟩

/-- The step of another process changes nothing. -/
theorem Alone.other (h : Alone x i v0 v) (hj : x.prog j = .call c k) (hij : i ≠ j)
    (hfile : SamePresence (sysStep j x).world.file x.world.file) :
    Alone (sysStep j x) i v0 v := by
  constructor
  · exact h.free
  · rw [sysStep_seen_other hj hij]
    exact h.replays
  · rw [sysStep_world hj] at hfile ⊢
    exact h.seems.other hij c hfile

theorem Waits.other (h : Waits x i) (hj : x.prog j = .call c k) (hij : i ≠ j)
    (hfile : SamePresence (sysStep j x).world.file x.world.file) : Waits (sysStep j x) i := by
  intro file tmp hsame
  obtain ⟨v0, v, halone, h0, h1, h2⟩ := h file tmp fun db => (hsame db).trans (hfile db)
  exact ⟨v0, v, halone.other hj hij hfile, h0, h1, h2⟩

theorem Waits.self (h : Waits x j) (hj : x.prog j = .call c k) (hc : ¬ c.OnFiles) :
    Waits (sysStep j x) j := by
  intro file tmp hsame
  rw [sysStep_world hj, (exec_files hc x.world).1] at hsame
  obtain ⟨v0, v, halone, h0, h1, h2⟩ := h file tmp hsame
  obtain ⟨v0', v', halone', h0', h1', h2'⟩ := halone.self hj hc
  exact ⟨v0', v', halone', h0'.trans h0, h1'.trans h1, h2'.trans h2⟩

theorem inside_step_other (hj : x.prog j = .call c k) (hij : i ≠ j) :
    Inside loc (sysStep j x) i ↔ Inside loc x i := by
  unfold Inside
  rw [phaseOf_step_other hj hij]

theorem Took.self {t : Turn} (h : Took loc x t) (hj : x.prog t.who = .call c k) (hc : ¬ c.OnFiles)
    (hinside : Inside loc (sysStep t.who x) t.who → Inside loc x t.who) :
    Took loc (sysStep t.who x) t := by
  obtain ⟨v0, v, halone, h0, h1, htmp⟩ := h
  obtain ⟨v0', v', halone', h0', h1', htmp'⟩ := halone.self hj hc
  refine ⟨v0', v', halone', h0'.trans h0, h1'.trans h1, fun hi => ?_⟩
  rw [sysStep_world hj, (exec_files hc x.world).2]
  exact htmp'.trans (htmp (hinside hi))

theorem Took.other {t : Turn} (h : Took loc x t) (hj : x.prog j = .call c k) (hij : t.who ≠ j)
    (hfile : SamePresence (sysStep j x).world.file x.world.file)
    (hkept : Inside loc x t.who → (sysStep j x).world.tmp = x.world.tmp) :
    Took loc (sysStep j x) t := by
  obtain ⟨v0, v, halone, h0, h1, htmp⟩ := h
  refine ⟨v0, v, halone.other hj hij hfile, h0, h1, fun hi => ?_⟩
  have hi := (inside_step_other hj hij).mp hi
  rw [hkept hi]
  exact htmp hi

end Step

/-! ## The invariant -/

section Invariant

variable {x : SysPool α} {j : Pid} {c : Sys} {k : c.Reply → SysM α} {old : Files}
  {log : List Turn}

/-- A step that gives nobody a turn, and is not about the files. -/
theorem TurnInv.quiet (h : TurnInv loc old x log) (hx : Exclusive loc (sysStep j x))
    (hj : x.prog j = .call c k) (hc : ¬ c.OnFiles)
    (hstays : (phaseOf loc x j).Stays (phaseOf loc (sysStep j x) j)) :
    TurnInv loc old (sysStep j x) log := by
  have hinside (hi : Inside loc (sysStep j x) j) : Inside loc x j := by
    obtain ⟨fd, hfd⟩ := hi
    exact ⟨fd, hstays.held fd hfd⟩
  have hfile : (sysStep j x).world.file = x.world.file := by
    rw [sysStep_world hj]
    exact (exec_files hc x.world).1
  have htmp : (sysStep j x).world.tmp = x.world.tmp := by
    rw [sysStep_world hj]
    exact (exec_files hc x.world).2
  have hsame : SamePresence (sysStep j x).world.file x.world.file := fun db => by rw [hfile]
  constructor
  · exact hx
  · rw [hfile]
    exact h.present
  · rw [hfile]
    exact h.turns
  · exact h.nodup
  · intro i hi
    obtain ⟨hwaits, hphase⟩ := h.waits i hi
    by_cases hij : i = j
    · subst hij
      exact ⟨hwaits.self hj hc, hstays.before hphase⟩
    · rw [phaseOf_step_other hj hij]
      exact ⟨hwaits.other hj hij hsame, hphase⟩
  · intro t ht
    obtain ⟨htook, hphase⟩ := h.took t ht
    by_cases hij : t.who = j
    · subst hij
      exact ⟨htook.self hj hc hinside, hstays.late hphase⟩
    · rw [phaseOf_step_other hj hij]
      exact ⟨htook.other hj hij hsame fun _ => htmp, hphase⟩
  · intro i hi
    by_cases hij : i = j
    · subst hij
      exact h.head i (hinside hi)
    · exact h.head i ((inside_step_other hj hij).mp hi)

/-- The process gets the lock, and with it a turn. -/
theorem TurnInv.grant {fd : ℕ} {k : Bool → SysM α} (h : TurnInv loc old x log)
    (hx : Exclusive loc (sysStep j x)) (hj : x.prog j = .call (.setlk fd) k)
    (hphase : phaseOf loc x j = .opened fd)
    (hgrant : (Sys.exec j (.setlk fd) x.world).1 = true) :
    TurnInv loc old (sysStep j x) (⟨j, x.world.file, x.world.file⟩ :: log) := by
  -- getting the lock touches no file
  have hc : ¬ (Sys.setlk fd).OnFiles := id
  have hfile : (sysStep j x).world.file = x.world.file := by
    rw [sysStep_world hj]
    exact (exec_files hc x.world).1
  have htmp : (sysStep j x).world.tmp = x.world.tmp := by
    rw [sysStep_world hj]
    exact (exec_files hc x.world).2
  have hsame : SamePresence (sysStep j x).world.file x.world.file := fun db => by rw [hfile]
  have hheld : phaseOf loc (sysStep j x) j = .held fd := by
    rw [phaseOf_step_self hj, hphase, hgrant]
    rfl
  -- the process has had no turn yet: it waits for its lock
  have hnew : j ∉ log.map Turn.who := by
    intro hmem
    obtain ⟨t, ht, rfl⟩ := List.mem_map.mp hmem
    have hlate := (h.took t ht).2
    rw [hphase] at hlate
    exact hlate
  constructor
  · exact hx
  · rw [hfile]
    exact h.present
  · exact ⟨hfile, h.turns⟩
  · exact List.nodup_cons.mpr ⟨hnew, h.nodup⟩
  · intro i hi
    rw [List.map_cons, List.mem_cons, not_or] at hi
    -- the others go on waiting
    obtain ⟨hwaits, hi'⟩ := h.waits i hi.2
    rw [phaseOf_step_other hj hi.1]
    exact ⟨hwaits.other hj hi.1 hsame, hi'⟩
  · intro t ht
    rcases List.mem_cons.mp ht with rfl | ht
    · -- so far it could run alone on any files; from now on they are those of the pool
      obtain ⟨v0, v, halone, h0, h1, h2⟩ := (h.waits j hnew).1 x.world.file x.world.tmp fun _ => rfl
      obtain ⟨v0', v', halone', h0', h1', h2'⟩ := halone.self hj hc
      refine ⟨⟨v0', v', halone', h0'.trans h0, h1'.trans h1, fun _ => ?_⟩, ?_⟩
      · rw [htmp]
        exact h2'.trans h2
      · rw [hheld]
        trivial
    · have hij : t.who ≠ j := fun hij => hnew (hij ▸ List.mem_map_of_mem ht)
      obtain ⟨htook, hlate⟩ := h.took t ht
      rw [phaseOf_step_other hj hij]
      exact ⟨htook.other hj hij hsame fun _ => htmp, hlate⟩
  · intro i hi
    exact ⟨_, _, rfl, hx.unique ⟨fd, hheld⟩ hi⟩

/-- A step of the process that has the turn. -/
theorem TurnInv.touch (h : TurnInv loc old x log) (hx : Exclusive loc (sysStep j x))
    (hj : x.prog j = .call c k) (hc : c.Touches loc) (hin : Inside loc x j) :
    ∃ log', TurnInv loc old (sysStep j x) log' := by
  obtain ⟨t, rest, rfl, rfl⟩ := h.head j hin
  have hworld := sysStep_world hj
  have hsame : SamePresence (sysStep t.who x).world.file x.world.file := by
    rw [hworld]
    exact exec_present (.inr hc) h.present
  have hphase : phaseOf loc (sysStep t.who x) t.who = phaseOf loc x t.who := by
    rw [phaseOf_step_self hj, hc.next]
  have hnodup := List.nodup_cons.mp h.nodup
  refine ⟨{ t with after := (sysStep t.who x).world.file } :: rest, ?_⟩
  constructor
  · exact hx
  · exact (hsame loc).trans h.present
  · exact ⟨rfl, h.turns.2⟩
  · exact h.nodup
  · intro i hi
    have hij : i ≠ t.who := fun hij => hi (List.mem_cons.mpr (.inl hij))
    obtain ⟨hwaits, hi'⟩ := h.waits i hi
    rw [phaseOf_step_other hj hij]
    exact ⟨hwaits.other hj hij hsame, hi'⟩
  · intro t' ht'
    rcases List.mem_cons.mp ht' with rfl | ht'
    · -- its own files are those of the pool, so it reads and leaves the same alone
      obtain ⟨⟨v0, v, halone, h0, h1, h2⟩, hlate⟩ := h.took t List.mem_cons_self
      obtain ⟨v0', v', halone', h0', h1', h2'⟩ :=
        halone.touch hj hc (h1.trans h.turns.1.symm) (h2 hin)
      refine ⟨⟨v0', v', halone', h0'.trans h0, h1', fun _ => h2'⟩, ?_⟩
      rw [hphase]
      exact hlate
    · have hij : t'.who ≠ t.who := fun hij => hnodup.1 (hij ▸ List.mem_map_of_mem ht')
      obtain ⟨htook, hlate⟩ := h.took t' (List.mem_cons_of_mem _ ht')
      rw [phaseOf_step_other hj hij]
      refine ⟨htook.other hj hij hsame fun hin' => ?_, hlate⟩
      -- two processes inside at once
      exact absurd (h.exclusive.unique hin' hin) hij
  · intro i hi
    have hin' : Inside loc x i := by
      by_cases hij : i = t.who
      · subst hij
        exact hin
      · exact (inside_step_other hj hij).mp hi
    exact ⟨_, _, rfl, h.exclusive.unique hin hin'⟩

theorem TurnInv.step (h : TurnInv loc old x log) (hnamed : LockNamed loc j x) :
    ∃ log', TurnInv loc old (sysStep j x) log' := by
  rcases poolStep_cases j x with ⟨c, k, hj⟩ | hdone
  swap
  · rw [sysStep, hdone]
    exact ⟨log, h⟩
  have hx := h.exclusive.step hnamed
  have hfollows := h.exclusive.follows j
  rw [hj] at hfollows
  have hnext := @phaseOf_step_self α loc x j c k hj
  rcases LockPhase.Allows.cases hfollows.1 with ⟨rfl, hph⟩ | ⟨fd, rfl, hph⟩ | ⟨fd, rfl, hph⟩ |
    ⟨fd, rfl, hph⟩ | ⟨fd, rfl, hph⟩ | haside | ⟨htouch, fd, hph⟩
  · -- the lock file is opened: nobody gets in, nobody leaves
    rw [hph] at hnext
    refine ⟨log, h.quiet hx hj id ?_⟩
    rw [hph, hnext]
    exact LockPhase.stays_openLck loc _
  · -- the lock is granted, or somebody else has it
    cases hgrant : (Sys.exec j (.setlk fd) x.world).1 with
    | true => exact ⟨_, h.grant hx hj hph hgrant⟩
    | false =>
      rw [hgrant] at hnext
      refine ⟨log, h.quiet hx hj id ?_⟩
      rw [hnext]
      exact .refl _
  · -- the lock file is closed, before the turn or after it
    refine ⟨log, h.quiet hx hj id ?_⟩
    rw [hnext]
    exact LockPhase.stays_close _ fd _
  · -- the lock file is unlinked: the turn is over, and stays in the log
    rw [hph] at hnext
    refine ⟨log, h.quiet hx hj id ?_⟩
    rw [hph, hnext]
    exact LockPhase.stays_unlinkLck loc fd _
  · -- the lock is given back
    refine ⟨log, h.quiet hx hj id ?_⟩
    rw [hnext]
    exact .refl _
  · -- a call that has to do with neither
    rw [haside.next] at hnext
    refine ⟨log, h.quiet hx hj haside.not_onFiles ?_⟩
    rw [hnext]
    exact .refl _
  · -- a call on the files, which only the process inside makes
    exact h.touch hx hj htouch ⟨fd, hph⟩

/-- Before anything was done, nobody had a turn. -/
theorem TurnInv.start {prog : Pid → SysM α} (hprog : Disciplined loc prog) {w : World}
    (hpresent : (w.file loc).isSome = true) :
    TurnInv loc w.file (Pool.start prog w) [] where
  exclusive := .start hprog
  present := hpresent
  turns := rfl
  nodup := List.nodup_nil
  waits := by
    intro i _
    refine ⟨fun file tmp hsame => ?_, trivial⟩
    refine ⟨{ w with file := file, tmp := tmp, owner := fun _ => none },
      { w with file := file, tmp := tmp, owner := fun _ => none }, ⟨fun _ => rfl, rfl, ?_⟩, rfl,
      rfl, rfl⟩
    exact ⟨rfl, rfl, rfl, fun _ => rfl, fun _ => .inl rfl, hsame⟩
  took := fun t ht => absurd ht List.not_mem_nil
  head := by
    intro i hi
    obtain ⟨fd, hi⟩ := hi
    cases hi

end Invariant

/-! ## Runs -/

/-- What is left of a process that has ended, or that was stopped. -/
def Ended (p : SysM α) (r : Option α) : Prop :=
  (∃ a, p = .ret a ∧ r = some a) ∨ (∃ why, p = .stop why) ∧ r = none

/-- Run on the system alone, the program of process `i` returns `r`, and makes
these files of those. -/
def RunsAlone (i : Pid) (p : SysM α) (before : Files) (r : Option α) (after : Files) : Prop :=
  ∃ v0 v, (∀ inode, v0.owner inode = none) ∧ v0.file = before ∧
    p.run (Sys.exec i) v0 = (r, v) ∧ v.file = after

/-- After its turn a program leaves the files. -/
theorem run_past {i : Pid} {ph : LockPhase} {E : LockPhase → α → Prop} {p : SysM α}
    (h : Follows (lockDiscipline loc) E ph p) (hph : ph.Past) (v : World) :
    (p.run (Sys.exec i) v).2.file = v.file := by
  induction p generalizing ph v with
  | ret a => rfl
  | stop why => rfl
  | call c k ih =>
    have hstep (hc : ¬ c.OnFiles) (hnext : (ph.next c (c.exec i v).1).Past) :
        ((Prog.call c k).run (Sys.exec i) v).2.file = v.file :=
      (ih _ (h.2 _ (exec_numbered i c v)) hnext _).trans (exec_files hc v).1
    rcases LockPhase.Allows.cases h.1 with ⟨-, rfl⟩ | ⟨fd, -, rfl⟩ | ⟨fd, rfl, -⟩ |
      ⟨fd, -, rfl⟩ | ⟨fd, rfl, -⟩ | haside | ⟨-, fd, rfl⟩
    · exact hph.elim
    · exact hph.elim
    · exact hstep id trivial
    · exact hph.elim
    · exact hstep id hph
    · refine hstep haside.not_onFiles ?_
      rw [haside.next]
      exact hph
    · exact hph.elim

/-- The process is in the middle of its turn. -/
def Busy (loc : DbLoc) (x : SysPool α) (i : Pid) : Prop :=
  Inside loc x i ∧ ∃ c k, x.prog i = .call c k

/-- A run of the pool as turns: who is inside has the last one, and a turn
that is over is what the process does alone. -/
structure Serialized (loc : DbLoc) (prog : Pid → SysM α) (old : Files) (x : SysPool α)
    (log : List Turn) : Prop where
  turns : Turns old log x.world.file
  nodup : (log.map Turn.who).Nodup
  last : ∀ i, Inside loc x i → ∃ t rest, log = t :: rest ∧ t.who = i
  alone : ∀ t ∈ log, ¬ Busy loc x t.who → ∃ r, RunsAlone t.who (prog t.who) t.before r t.after ∧
    ∀ r', Ended (x.prog t.who) r' → r' = r
  idle : ∀ i r, i ∉ log.map Turn.who → Ended (x.prog i) r →
    RunsAlone i (prog i) x.world.file r x.world.file

theorem Ended.run {p : SysM α} {r : Option α} (h : Ended p r) (i : Pid) (v : World) :
    p.run (Sys.exec i) v = (r, v) := by
  rcases h with ⟨a, rfl, rfl⟩ | ⟨⟨why, rfl⟩, rfl⟩
  · rfl
  · rfl

theorem TurnInv.serialized {x : SysPool α} {old : Files} {log : List Turn}
    (h : TurnInv loc old x log) {prog : Pid → SysM α}
    (hpath : ∀ i, Prog.Path (prog i) (x.seen i) (x.prog i)) :
    Serialized loc prog old x log where
  turns := h.turns
  nodup := h.nodup
  last := h.head
  alone := by
    intro t ht hout
    obtain ⟨⟨v0, v, halone, h0, h1, -⟩, hlate⟩ := h.took t ht
    have hrun := run_of_path (hpath t.who) halone.replays
    -- the rest of the program, if there is one, leaves the files
    have hkept : ((x.prog t.who).run (Sys.exec t.who) v).2.file = v.file := by
      cases hprog : x.prog t.who with
      | ret a => rfl
      | stop why => rfl
      | call c k =>
        have hpast := hlate.past fun fd hfd => hout ⟨⟨fd, hfd⟩, c, k, hprog⟩
        rw [← hprog]
        exact run_past (h.exclusive.follows t.who) hpast v
    refine ⟨((x.prog t.who).run (Sys.exec t.who) v).1, ⟨v0, _, halone.free, h0, hrun, ?_⟩, ?_⟩
    · exact hkept.trans h1
    · intro r' hended
      rw [hended.run]
  idle := by
    intro i r hi hended
    obtain ⟨v0, v, halone, h0, h1, -⟩ := (h.waits i hi).1 x.world.file x.world.tmp fun _ => rfl
    have hrun := run_of_path (hpath i) halone.replays
    rw [hended.run] at hrun
    exact ⟨v0, v, halone.free, h0, hrun, h1⟩

/-- Every interleaving is a list of turns. -/
theorem turns_of_run {prog : Pid → SysM α} (hprog : Disciplined loc prog) {sched : List Pid}
    {w : World} (hpresent : (w.file loc).isSome = true)
    (hnamed : poolAlong Sys.exec (LockNamed loc) sched (Pool.start prog w)) :
    ∃ log, Serialized loc prog w.file (poolRun Sys.exec sched (Pool.start prog w)) log := by
  have hstart : ∃ log, TurnInv loc w.file (Pool.start prog w) log := ⟨[], .start hprog hpresent⟩
  have hrun := @poolRun_induct _ _ _ _ _ _ Sys.exec (LockNamed loc) _
    (fun x => ∃ log, TurnInv loc w.file x log) (fun j x hgood hx => by
      obtain ⟨log, hx⟩ := hx
      exact hx.step hgood) sched hnamed hstart
  obtain ⟨log, hlog⟩ := hrun
  exact ⟨log, hlog.serialized fun i => poolRun_path sched prog w i⟩

/-- Two logins of alice, the second one while the first one has the lock. -/
def turnsSched : List Pid :=
  List.replicate 20 0 ++ List.replicate 6 1 ++ List.replicate 20 0 ++ List.replicate 40 1

def turnsEnd : SysPool (ℕ × State) :=
  poolRun Sys.exec turnsSched (Pool.start aliceLogins aliceWorld)

theorem turnsSched_named : poolAlong Sys.exec (LockNamed (dbLoc configRoot alice)) turnsSched
    (Pool.start aliceLogins aliceWorld) := by
  decide +kernel

theorem turnsEnd_over (i : Pid) : ¬ Busy (dbLoc configRoot alice) turnsEnd i := by
  have hended (j : Pid) (h : (turnsEnd.prog j).result?.isSome = true) :
      ¬ Busy (dbLoc configRoot alice) turnsEnd j := by
    rintro ⟨-, c, k, hcall⟩
    rw [hcall] at h
    cases h
  by_cases hmem : i ∈ turnsSched
  · have hi : i = 0 ∨ i = 1 := by
      simp only [turnsSched, List.mem_append, List.mem_replicate] at hmem
      rcases hmem with ((h | h) | h) | h
      · exact .inl h.2
      · exact .inr h.2
      · exact .inl h.2
      · exact .inr h.2
    rcases hi with rfl | rfl
    · exact hended 0 (by decide +kernel)
    · exact hended 1 (by decide +kernel)
  · rintro ⟨⟨fd, hfd⟩, -⟩
    rw [phaseOf, turnsEnd, poolRun_other hmem] at hfd
    cases hfd

theorem turns_of_run_twoLogins : ∃ log,
    Serialized (dbLoc configRoot alice) aliceLogins aliceWorld.file turnsEnd log ∧ log ≠ [] ∧
      ∀ t ∈ log, ∃ r, RunsAlone t.who (aliceLogins t.who) t.before r t.after := by
  obtain ⟨log, hlog⟩ : ∃ log, Serialized (dbLoc configRoot alice) aliceLogins aliceWorld.file
      turnsEnd log := turns_of_run aliceLogins_disciplined (by decide +kernel) turnsSched_named
  refine ⟨log, hlog, ?_, fun t ht => ?_⟩
  · rintro rfl
    have hsame : turnsEnd.world.file = aliceWorld.file := hlog.turns
    have hmoved : dbLookup (turnsEnd.world.file .global) alice ≠
        dbLookup (aliceWorld.file .global) alice := by decide +kernel
    exact hmoved (by rw [hsame])
  · obtain ⟨r, hr, -⟩ := hlog.alone t ht (turnsEnd_over t.who)
    exact ⟨r, hr⟩

end Pool

end Otpasswd
