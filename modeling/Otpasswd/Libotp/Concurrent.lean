import Otpasswd.Libotp.Turns

/-!
# Otpasswd.Libotp.Concurrent — several logins of a user at once

Any number of processes use `ppp_increment`, `ppp_failures` and `ppp_oob_time`
on the entry of one user, interleaved call by call. Where the lock of the
database is exclusive they take turns, and what is known of one operation by
itself carries over.

Main results: `numbers_once` (no two logins are given the same number) and
`failures_counted` (no failed login is lost).
-/

namespace Otpasswd

open CText Prog

/-! ## Along the turns -/

section Turns

variable {old files : Files} {log l1 l2 : List Turn} {t : Turn}

/-- What holds after a turn, and is kept by all of them, holds in the end. -/
theorem Turns.since {P : Files → Prop} (h : Turns old log files) (ht : t ∈ log) (hP : P t.after)
    (hkeep : ∀ t' ∈ log, P t'.before → P t'.after) : P files := by
  induction log generalizing files with
  | nil => exact absurd ht List.not_mem_nil
  | cons t0 log ih =>
    obtain ⟨rfl, hrest⟩ := h
    rcases List.mem_cons.mp ht with rfl | ht
    · exact hP
    · refine hkeep t0 List.mem_cons_self (ih hrest ht fun t' ht' => ?_)
      exact hkeep t' (List.mem_cons_of_mem _ ht')

/-- The turns before one of them. -/
theorem Turns.earlier (h : Turns old (l1 ++ t :: l2) files) : Turns old l2 t.before := by
  induction l1 generalizing files with
  | nil => exact h.2
  | cons t0 l1 ih => exact ih h.2

end Turns

/-! ## The operations of a login -/

/-- An operation of the PAM module on the entry of the user. -/
inductive LoginOp where
  | increment (s : State)
  | failures (s : State) (zero : Bool)
  | oobTime (s : State)

namespace LoginOp

/-- The operation, and the number that it hands out. -/
def prog (cfg : Cfg) : LoginOp → SysM (Option Num)
  | increment s => do
    let (code, s) ← pppIncrement cfg s
    return if code = 0 then some s.counter else none
  | failures s zero => do
    let _ ← pppFailures cfg s zero
    return none
  | oobTime s => do
    let _ ← pppOobTime cfg s
    return none

/-- It is about the entry of `u`, with a state that is not locked. -/
def For (u : CString) : LoginOp → Prop
  | increment s => s.For u ∧ s.lock = -1
  | failures s _ => s.username = u
  | oobTime s => s.username = u

end LoginOp

/-- What an operation does to the files when it hands out `r`. -/
inductive Advance (cfg : Cfg) (u : CString) (before : Files) (r : Option Num) (after : Files) :
    Prop where
  | kept (h : after = before) (hr : r = none)
  | replaced (e e' : Entry) (hbefore : dbLookup (before (dbLoc cfg u)) u = some e)
      (hafter : ∀ x, dbLookup (after (dbLoc cfg u)) u = some x → x = e')
      (hflags : e'.flags = e.flags)
      (hle : codeOf e.flags e.counter ≤ codeOf e.flags e'.counter)
      (hr : ∀ n, r = some n → n = e.counter ∧ codeOf e.flags n < codeOf e.flags e'.counter)

/-- Whatever entry is found, its number is past that of `n`. -/
def UsedUp (cfg : Cfg) (u : CString) (n : Num) (files : Files) : Prop :=
  ∀ e, dbLookup (files (dbLoc cfg u)) u = some e → codeOf e.flags n < codeOf e.flags e.counter

section Advance

variable {cfg : Cfg} {u : CString} {n : Num} {before after : Files} {r : Option Num}

theorem Advance.usedUp (h : Advance cfg u before r after) (hn : UsedUp cfg u n before) :
    UsedUp cfg u n after := by
  intro x hx
  cases h with
  | kept h hr =>
    subst h
    exact hn x hx
  | replaced e e' hbefore hafter hflags hle hr =>
    obtain rfl := hafter x hx
    rw [hflags]
    exact (hn e hbefore).trans_le hle

theorem Advance.uses (h : Advance cfg u before (some n) after) : UsedUp cfg u n after := by
  intro x hx
  cases h with
  | kept h hr => cases hr
  | replaced e e' hbefore hafter hflags hle hr =>
    obtain rfl := hafter x hx
    rw [hflags]
    exact (hr n rfl).2

theorem Advance.not_usedUp (h : Advance cfg u before (some n) after) :
    ¬ UsedUp cfg u n before := by
  intro hn
  cases h with
  | kept h hr => cases hr
  | replaced e e' hbefore hafter hflags hle hr =>
    obtain ⟨rfl, -⟩ := hr n rfl
    exact Nat.lt_irrefl _ (hn e hbefore)

/-- A store of the entry with a number that is not smaller. -/
theorem Replaced.advance {e e' : Entry} {w w' : World} (h : Replaced cfg u e e' w w')
    (hv : e'.Valid) (hflags : e'.flags = e.flags)
    (hle : codeOf e.flags e.counter ≤ codeOf e.flags e'.counter)
    (hr : ∀ n, r = some n → n = e.counter ∧ codeOf e.flags n < codeOf e.flags e'.counter) :
    Advance cfg u w.file r w'.file :=
  .replaced e e' h.before (fun _ hx => h.lookup hv hx) hflags hle hr

/-- The change leaves the number of the entry. -/
structure Entry.SameNumber (e e' : Entry) : Prop where
  counter : e'.counter = e.counter
  flags : e'.flags = e.flags
  valid : e.Valid → e'.Valid

end Advance

namespace LoginOp

variable {cfg : Cfg} {u : CString} {op : LoginOp}

theorem follows (h : op.For u) :
    Follows (lockDiscipline (dbLoc cfg u)) (fun _ _ => True) .idle (op.prog cfg) := by
  cases op with
  | increment s =>
    obtain ⟨hs, hlock⟩ := h
    obtain rfl := hs.username
    refine (pppIncrement_follows hlock).bind fun ph r _ => ?_
    trivial
  | failures s zero =>
    obtain rfl : s.username = u := h
    refine (pppUpdate_follows s.named s.username _ fun tmp => ?_).bind fun ph r _ => ?_
    swap
    · trivial
    cases zero with
    | true => exact ⟨rfl, rfl⟩
    | false => exact ⟨rfl, rfl⟩
  | oobTime s =>
    obtain rfl : s.username = u := h
    refine (pppUpdate_follows s.named s.username _ fun tmp => ?_).bind fun ph r _ => ?_
    swap
    · trivial
    exact ⟨trivial, fun _ _ => ⟨rfl, rfl⟩⟩

/-- An update that leaves the number. -/
theorem update_advance (i : Pid) (named : Bool) (change : State → SysM State)
    (hchange : ∀ s uid ok, Meets cfg uid true ok Sys.Calm
      (fun s' => s'.username = s.username ∧ s.entry.SameNumber s'.entry) (change s)) (w : World) :
    wp (Sys.exec i) (pppUpdate cfg (namePtr named u) change >>= fun _ => (pure none : SysM (Option Num)))
      (fun r w' => Advance cfg u w.file r.join w'.file) w := by
  have hend (r : Option ℕ) (w' : World) (hspec : w'.Keeps w ∧ r ≠ some 0 ∨
      ∃ e e', e.SameNumber e' ∧ Replaced cfg u e e' w w' ∧
        (w.AllOk → ∀ code, r = some code → code = 0)) : Advance cfg u w.file none w'.file := by
    rcases hspec with ⟨hkeeps, -⟩ | ⟨e, e', hsame, hreplaced, -⟩
    · exact .kept hkeeps.file rfl
    · refine hreplaced.advance (hsame.valid (dbLookup_valid hreplaced.before)) hsame.flags ?_ ?_
      · rw [hsame.counter]
      · intro n hn
        cases hn
  exact wp_seq (pppUpdate_spec i cfg named u change _ hchange w) (hend none) fun code w' => hend _ w'

/-- What an operation by itself does. -/
theorem advance (h : op.For u) (i : Pid) (w : World) :
    wp (Sys.exec i) (op.prog cfg) (fun r w' => Advance cfg u w.file r.join w'.file) w := by
  cases op with
  | increment s =>
    obtain ⟨hs, -⟩ := h
    obtain rfl := hs.username
    -- a store moves the counter by one, past what was returned
    have hsucc {e : Entry} {w' : World} {r : Option Num} (hallowed : e.Allowed cfg)
        (hreplaced : Replaced cfg s.username e { e with counter := numAdd e.counter (numI 1) } w w')
        (hr : ∀ n, r = some n → n = e.counter) : Advance cfg s.username w.file r w'.file := by
      have hcode := codeOf_succ hallowed.range
      refine hreplaced.advance ((dbLookup_valid hreplaced.before).setCounter _) rfl ?_ ?_
      · simp only
        omega
      · intro n hn
        obtain rfl := hr n hn
        refine ⟨rfl, ?_⟩
        simp only
        omega
    refine wp_seq (pppIncrement_spec i cfg s hs.codeMask w) ?_ ?_
    · -- the process was stopped, maybe behind the rename
      intro w' hend
      cases hend with
      | kept hkeeps hr => exact .kept hkeeps.file rfl
      | replaced fd e hallowed hreplaced hr =>
        exact hsucc hallowed hreplaced fun n hn => by cases hn
    · rintro ⟨code, s'⟩ w' hend
      show Advance cfg s.username w.file (if code = 0 then some s'.counter else none) w'.file
      cases hend with
      | kept hkeeps hr =>
        refine .kept hkeeps.file (if_neg ?_)
        rintro rfl
        exact hr s' rfl
      | replaced fd e hallowed hreplaced hr =>
        refine hsucc hallowed hreplaced fun n hn => ?_
        obtain ⟨-, lock, newKey, rfl⟩ := hr code s' rfl
        split at hn
        · exact (Option.some.inj hn).symm
        · cases hn
  | failures s zero =>
    obtain rfl : s.username = u := h
    refine update_advance i s.named _ (fun s uid ok => ?_) w
    -- the other two operations leave the counter
    cases zero with
    | true => exact ⟨rfl, rfl, rfl, fun h => ⟨h.1, h.2, h.3, h.4, h.5⟩⟩
    | false => exact ⟨rfl, rfl, rfl, fun h => ⟨h.1, h.2, h.3, h.4, h.5⟩⟩
  | oobTime s =>
    obtain rfl : s.username = u := h
    refine update_advance i s.named _ (fun s uid ok => ?_) w
    refine (sat_issue_bind _).mpr ⟨⟨trivial, id⟩, fun time _ => ?_⟩
    exact ⟨rfl, rfl, rfl, fun h => ⟨h.1, h.2, h.3, h.4, h.5⟩⟩

end LoginOp

/-! ## All interleavings -/

section Pool

variable {cfg : Cfg} {u : CString} {ops : Pid → LoginOp} {x : SysPool (Option Num)} {old : Files}
  {log l1 l2 : List Turn} {t t' : Turn} {n : Num} {i j : Pid}

/-- A turn that is over does what the operation does by itself. -/
theorem Serialized.advance (h : Serialized (dbLoc cfg u) (fun i => (ops i).prog cfg) old x log)
    (hops : ∀ i, (ops i).For u) (ht : t ∈ log) (hover : ¬ Busy (dbLoc cfg u) x t.who) :
    ∃ r, Advance cfg u t.before r t.after ∧ ∀ n, x.prog t.who = .ret (some n) → r = some n := by
  obtain ⟨r, ⟨v0, v, -, hbefore, hrun, hafter⟩, hended⟩ := h.alone t ht hover
  have hadvance : Advance cfg u v0.file ((ops t.who).prog cfg |>.run (Sys.exec t.who) v0).1.join
      ((ops t.who).prog cfg |>.run (Sys.exec t.who) v0).2.file :=
    LoginOp.advance (hops t.who) t.who v0
  rw [hrun, hbefore, hafter] at hadvance
  refine ⟨r.join, hadvance, fun n hn => ?_⟩
  have hr := hended (some (some n)) (.inl ⟨some n, hn, rfl⟩)
  rw [← hr]
  rfl

/-- Who was given a number had a turn. -/
theorem Serialized.turn_of_number
    (h : Serialized (dbLoc cfg u) (fun i => (ops i).prog cfg) old x log)
    (hops : ∀ i, (ops i).For u) (hi : x.prog i = .ret (some n)) :
    ∃ t ∈ log, t.who = i ∧ Advance cfg u t.before (some n) t.after := by
  by_cases hmem : i ∈ log.map Turn.who
  · obtain ⟨t, ht, rfl⟩ := List.mem_map.mp hmem
    have hover : ¬ Busy (dbLoc cfg u) x t.who := by
      rintro ⟨-, c, k, hcall⟩
      rw [hi] at hcall
      cases hcall
    obtain ⟨r, hadvance, hr⟩ := h.advance hops ht hover
    rw [hr n hi] at hadvance
    exact ⟨t, ht, rfl, hadvance⟩
  · -- without a turn the files are the same, and no number is given
    obtain ⟨v0, v, -, hbefore, hrun, hafter⟩ := h.idle i _ hmem (.inl ⟨some n, hi, rfl⟩)
    have hadvance : Advance cfg u v0.file ((ops i).prog cfg |>.run (Sys.exec i) v0).1.join
        ((ops i).prog cfg |>.run (Sys.exec i) v0).2.file := LoginOp.advance (hops i) i v0
    rw [hrun, hbefore, hafter] at hadvance
    exact absurd hadvance.uses hadvance.not_usedUp

/-- A number that was given is not given later. -/
theorem Serialized.later_new
    (h : Serialized (dbLoc cfg u) (fun i => (ops i).prog cfg) old x (l1 ++ t :: l2))
    (hops : ∀ i, (ops i).For u) (ht' : t' ∈ l2) (hn' : Advance cfg u t'.before (some n) t'.after) :
    ¬ Advance cfg u t.before (some n) t.after := by
  have hkeep (s : Turn) (hs : s ∈ l2) (hused : UsedUp cfg u n s.before) :
      UsedUp cfg u n s.after := by
    have hover : ¬ Busy (dbLoc cfg u) x s.who := by
      rintro ⟨hin, -⟩
      -- the last turn is not one of them
      obtain ⟨t0, rest, hlog, hwho⟩ := h.last s.who hin
      have hrest : s ∈ rest := by
        cases l1 with
        | nil =>
          obtain ⟨-, rfl⟩ := List.cons.inj hlog
          exact hs
        | cons t1 l1 =>
          obtain ⟨-, rfl⟩ := List.cons.inj hlog
          exact List.mem_append_right _ (List.mem_cons_of_mem _ hs)
      have hnodup := h.nodup
      rw [hlog] at hnodup
      have hmem : s.who ∈ rest.map Turn.who := List.mem_map_of_mem hrest
      rw [← hwho] at hmem
      exact (List.nodup_cons.mp hnodup).1 hmem
    obtain ⟨r, hadvance, -⟩ := h.advance hops (by simp [hs]) hover
    exact hadvance.usedUp hused
  intro hn
  -- used up by the earlier turn, and still when the later one starts
  have hbefore := h.turns.earlier.since ht' (P := UsedUp cfg u n) hn'.uses hkeep
  exact hn.not_usedUp hbefore

/-- However the operations of several logins are interleaved, a number is
handed out once, and the entry that is stored in the end is past it. -/
theorem numbers_once (hops : ∀ i, (ops i).For u) {sched : List Pid} {w : World}
    (hpresent : (w.file (dbLoc cfg u)).isSome = true)
    (hnamed : poolAlong Sys.exec (LockNamed (dbLoc cfg u)) sched
      (Pool.start (fun i => (ops i).prog cfg) w))
    (hi : (poolRun Sys.exec sched (Pool.start (fun i => (ops i).prog cfg) w)).prog i =
      .ret (some n)) :
    (∀ j, (poolRun Sys.exec sched (Pool.start (fun i => (ops i).prog cfg) w)).prog j =
      .ret (some n) → j = i) ∧
    ((∀ j, ¬ Busy (dbLoc cfg u)
        (poolRun Sys.exec sched (Pool.start (fun i => (ops i).prog cfg) w)) j) →
      UsedUp cfg u n
        (poolRun Sys.exec sched (Pool.start (fun i => (ops i).prog cfg) w)).world.file) := by
  have hprog : Disciplined (dbLoc cfg u) fun i => (ops i).prog cfg := fun i =>
    LoginOp.follows (hops i)
  obtain ⟨log, hlog⟩ := turns_of_run hprog hpresent hnamed
  obtain ⟨t, ht, rfl, hn⟩ := hlog.turn_of_number hops hi
  constructor
  · intro j hj
    obtain ⟨t', ht', rfl, hn'⟩ := hlog.turn_of_number hops hj
    -- one of the two turns is before the other
    obtain ⟨l1, l2, rfl⟩ := List.append_of_mem ht
    rcases List.mem_append.mp ht' with hbefore | hafter
    · obtain ⟨l3, l4, rfl⟩ := List.append_of_mem hbefore
      rw [List.append_assoc, List.cons_append] at hlog
      exact absurd hn' (hlog.later_new hops (by simp) hn)
    · rcases List.mem_cons.mp hafter with rfl | hafter
      · rfl
      · exact absurd hn (hlog.later_new hops hafter hn')
  · intro hover
    refine hlog.turns.since ht hn.uses fun t' ht' hused => ?_
    obtain ⟨r, hadvance, -⟩ := hlog.advance hops ht' (hover t'.who)
    exact hadvance.usedUp hused

end Pool

/-! ## Counting failures -/

/-- One more failed login. -/
def Entry.failed (e : Entry) : Entry :=
  { e with failures := e.failures + 1, recentFailures := e.recentFailures + 1 }

/-- `k` more failed logins. -/
structure Entry.FailedTimes (e : Entry) (k : ℕ) (e' : Entry) : Prop where
  failures : e'.failures = e.failures + BitVec.ofNat 32 k
  recentFailures : e'.recentFailures = e.recentFailures + BitVec.ofNat 32 k

theorem Entry.FailedTimes.succ {e e' : Entry} {k : ℕ} (h : e.FailedTimes k e') :
    e.FailedTimes (k + 1) e'.failed := by
  have hadd (x y : Word32) (h : y = x + BitVec.ofNat 32 k) :
      y + 1 = x + BitVec.ofNat 32 (k + 1) := by
    rw [h, BitVec.add_assoc, BitVec.ofNat_add]
    rfl
  exact ⟨hadd _ _ h.failures, hadd _ _ h.recentFailures⟩

/-- What `ppp_failures` by itself does to the files. -/
inductive Fails (cfg : Cfg) (u : CString) (before : Files) (r : Option ℕ) (after : Files) :
    Prop where
  | kept (h : after = before) (hr : r ≠ some 0)
  | counted (e : Entry) (hbefore : dbLookup (before (dbLoc cfg u)) u = some e)
      (hafter : ∀ x, dbLookup (after (dbLoc cfg u)) u = some x → x = e.failed)

theorem pppFailures_fails (i : Pid) (cfg : Cfg) (s : State) (w : World) :
    wp (Sys.exec i) (pppFailures cfg s false)
      (fun r w' => Fails cfg s.username w.file r w'.file) w := by
  refine wp_mono (pppUpdate_spec i cfg s.named s.username
    (fun tmp => pure ((tmp.setFailures (tmp.failures + 1)).setRecentFailures
      (tmp.recentFailures + 1))) (fun e e' => e' = e.failed)
    (fun s uid ok => ⟨rfl, rfl⟩) w) fun r w' hspec => ?_
  rcases hspec with ⟨hkeeps, hr⟩ | ⟨e, e', rfl, hreplaced, -⟩
  · exact .kept hkeeps.file hr
  · have hv := dbLookup_valid hreplaced.before
    have hv' : e.failed.Valid := ⟨hv.1, hv.2, hv.3, hv.4, hv.5⟩
    exact .counted e hreplaced.before fun x hx => hreplaced.lookup hv' hx

theorem Entry.failed_ne (e : Entry) : e ≠ e.failed := by
  intro h
  have hone : e.failures = e.failures + 1 := congrArg Entry.failures h
  bv_omega

section Failures

variable {cfg : Cfg} {u : CString} {states : Pid → State} {x : SysPool ℕ} {old files : Files}
  {log : List Turn}

/-- The turns of `log`, of which those of `who` stored the entry with one more
failure and the others left the files alone. -/
structure Tally (cfg : Cfg) (u : CString) (old files : Files) (log : List Turn) (who : List Pid) :
    Prop where
  turns : Turns old log files
  nodup : (log.map Turn.who).Nodup
  who_nodup : who.Nodup
  who_sub : who ⊆ log.map Turn.who
  kept : ∀ t ∈ log, t.who ∉ who → t.after = t.before
  stored : ∀ t ∈ log, t.who ∈ who → t.after ≠ t.before ∧
    ∃ e, dbLookup (t.before (dbLoc cfg u)) u = some e ∧
      ∀ x, dbLookup (t.after (dbLoc cfg u)) u = some x → x = e.failed

/-- The entry that is found has one failure for each turn that stored it. -/
theorem Tally.count {who : List Pid} (h : Tally cfg u old files log who) {e : Entry}
    (he : dbLookup (files (dbLoc cfg u)) u = some e) :
    ∃ e0, dbLookup (old (dbLoc cfg u)) u = some e0 ∧ e0.FailedTimes who.length e := by
  obtain ⟨hturns, hnodup, hwho, hsub, hkept, hstored⟩ := h
  induction log generalizing files who e with
  | nil =>
    obtain rfl : files = old := hturns
    obtain rfl := List.subset_nil.mp hsub
    exact ⟨e, he, (BitVec.add_zero _).symm, (BitVec.add_zero _).symm⟩
  | cons t log ih =>
    obtain ⟨rfl, hrest⟩ := hturns
    obtain ⟨hnew, hnodup⟩ := List.nodup_cons.mp hnodup
    by_cases hmem : t.who ∈ who
    · -- this turn stored the entry, the others are counted before it
      obtain ⟨-, e1, hbefore, hafter⟩ := hstored t List.mem_cons_self hmem
      obtain rfl := hafter e he
      have hother {t' : Turn} (ht' : t' ∈ log) : t'.who ≠ t.who := fun h =>
        hnew (h ▸ List.mem_map_of_mem ht')
      obtain ⟨e0, he0, htimes⟩ := ih hbefore hrest hnodup (hwho.erase t.who)
        (fun i hi => by
          have hi := (hwho.mem_erase_iff).mp hi
          exact (List.mem_cons.mp (hsub hi.2)).resolve_left hi.1)
        (fun t' ht' hnot => hkept t' (List.mem_cons_of_mem _ ht') fun hin =>
          hnot (hwho.mem_erase_iff.mpr ⟨hother ht', hin⟩))
        (fun t' ht' hin => hstored t' (List.mem_cons_of_mem _ ht') (List.mem_of_mem_erase hin))
      refine ⟨e0, he0, ?_⟩
      have hlen : who.length = (who.erase t.who).length + 1 := by
        have := List.length_erase_of_mem hmem
        have := List.length_pos_of_mem hmem
        omega
      rw [hlen]
      exact htimes.succ
    · rw [hkept t List.mem_cons_self hmem] at he
      refine ih he hrest hnodup hwho (fun i hi => ?_)
        (fun t' ht' => hkept t' (List.mem_cons_of_mem _ ht'))
        fun t' ht' => hstored t' (List.mem_cons_of_mem _ ht')
      refine (List.mem_cons.mp (hsub hi)).resolve_left fun h => ?_
      exact hmem (h ▸ hi)

/-- Turns of calls of `ppp_failures` can be told apart so. -/
theorem Turns.tally (hturns : Turns old log files) (hnodup : (log.map Turn.who).Nodup)
    (res : Turn → Option ℕ) (hfails : ∀ t ∈ log, Fails cfg u t.before (res t) t.after) :
    ∃ who, Tally cfg u old files log who ∧ ∀ t ∈ log, res t = some 0 → t.who ∈ who := by
  classical
  let stored := log.filter fun t => t.after ≠ t.before
  have hmem {t : Turn} (ht : t ∈ log) : t.who ∈ stored.map Turn.who ↔ t.after ≠ t.before := by
    constructor
    · intro h
      obtain ⟨t', ht', hwho⟩ := List.mem_map.mp h
      obtain ⟨ht', hne⟩ := List.mem_filter.mp ht'
      rw [← List.inj_on_of_nodup_map hnodup ht' ht hwho]
      simpa using hne
    · intro hne
      exact List.mem_map_of_mem (List.mem_filter.mpr ⟨ht, by simpa using hne⟩)
  have hsub : (stored.map Turn.who).Sublist (log.map Turn.who) := List.filter_sublist.map _
  refine ⟨stored.map Turn.who, ⟨hturns, hnodup, hnodup.sublist hsub, hsub.subset, ?_, ?_⟩, ?_⟩
  · intro t ht hnot
    by_contra hne
    exact hnot ((hmem ht).mpr hne)
  · intro t ht hin
    have hne := (hmem ht).mp hin
    cases hfails t ht with
    | kept h hr => exact absurd h hne
    | counted e hbefore hafter => exact ⟨hne, e, hbefore, hafter⟩
  · intro t ht hres
    refine (hmem ht).mpr fun h => ?_
    cases hfails t ht with
    | kept _ hr => exact hr hres
    | counted e hbefore hafter =>
      rw [h] at hafter
      exact e.failed_ne (hafter e hbefore)

/-- No failure is lost: every call that returned success had one of the turns
that stored the entry, and the entry that is found has them all. -/
structure AllCounted (cfg : Cfg) (u : CString) (old : Files) (x : SysPool ℕ) (log : List Turn)
    (who : List Pid) : Prop extends Tally cfg u old x.world.file log who where
  succeeded : ∀ i, x.prog i = .ret 0 → i ∈ who
  count : ∀ e, dbLookup (x.world.file (dbLoc cfg u)) u = some e →
    ∃ e0, dbLookup (old (dbLoc cfg u)) u = some e0 ∧ e0.FailedTimes who.length e

end Failures

/-- Two failed logins of alice, the second one while the first one has the
lock for a while. -/
def failedSched : List Pid :=
  List.replicate 20 0 ++ List.replicate 6 1 ++ List.replicate 20 0 ++ List.replicate 40 1

theorem failedSched_named : poolAlong Sys.exec (LockNamed (dbLoc configRoot alice)) failedSched
    (Pool.start (fun _ => pppFailures configRoot aliceState false) aliceWorld) := by
  decide +kernel

theorem failedSched_over (i : Pid) : ¬ Busy (dbLoc configRoot alice) (poolRun Sys.exec failedSched
    (Pool.start (fun _ => pppFailures configRoot aliceState false) aliceWorld)) i := by
  have hended (j : Pid) (h : ((poolRun Sys.exec failedSched
      (Pool.start (fun _ => pppFailures configRoot aliceState false) aliceWorld)).prog
        j).result? = some 0) : ¬ Busy (dbLoc configRoot alice) (poolRun Sys.exec failedSched
      (Pool.start (fun _ => pppFailures configRoot aliceState false) aliceWorld)) j := by
    rintro ⟨-, c, k, hcall⟩
    rw [result?_eq_some.mp h] at hcall
    cases hcall
  by_cases hmem : i ∈ failedSched
  · have hi : i = 0 ∨ i = 1 := by
      simp only [failedSched, List.mem_append, List.mem_replicate] at hmem
      rcases hmem with ((h | h) | h) | h
      · exact .inl h.2
      · exact .inr h.2
      · exact .inl h.2
      · exact .inr h.2
    rcases hi with rfl | rfl
    · exact hended 0 (by decide +kernel)
    · exact hended 1 (by decide +kernel)
  · rintro ⟨⟨fd, hfd⟩, -⟩
    rw [phaseOf, poolRun_other hmem] at hfd
    cases hfd

/-- Two logins of alice, and a third one that fails. -/
def threeLogins : Pid → LoginOp
  | 0 => .increment aliceState
  | 1 => .increment aliceState
  | _ => .failures aliceState false

theorem threeLogins_for (i : Pid) : (threeLogins i).For alice := by
  have hfresh := State.initial_fresh configRoot Outcome.good.junk alice
  unfold threeLogins
  split
  · exact ⟨hfresh.toFor, hfresh.lock⟩
  · exact ⟨hfresh.toFor, hfresh.lock⟩
  · exact hfresh.username

/-- The second login comes up to the lock while the first one has it, and the
third one is refused. -/
def threeSched : List Pid :=
  List.replicate 20 0 ++ List.replicate 6 1 ++ List.replicate 40 2 ++ List.replicate 20 0 ++
    List.replicate 40 1

def threeEnd : SysPool (Option Num) :=
  poolRun Sys.exec threeSched (Pool.start (fun i => (threeLogins i).prog configRoot) aliceWorld)

theorem threeSched_named : poolAlong Sys.exec (LockNamed (dbLoc configRoot alice)) threeSched
    (Pool.start (fun i => (threeLogins i).prog configRoot) aliceWorld) := by
  decide +kernel

theorem threeEnd_second : threeEnd.prog 1 = .ret (some (numI 1)) :=
  result?_eq_some.mp (by decide +kernel)

theorem numbers_once_threeLogins :
    (∀ j, threeEnd.prog j = .ret (some (numI 1)) → j = 1) ∧
      ((∀ j, ¬ Busy (dbLoc configRoot alice) threeEnd j) →
        UsedUp configRoot alice (numI 1) threeEnd.world.file) := by
  have hsecond := threeEnd_second
  unfold threeEnd at hsecond ⊢
  exact numbers_once threeLogins_for (by decide +kernel) threeSched_named hsecond

/-- The second login locks the file that the first one has removed, and does
not keep out the third one: both are given the same number. -/
def twiceSched : List Pid :=
  List.replicate 20 0 ++ List.replicate 7 1 ++ List.replicate 20 0 ++ List.replicate 8 1 ++
    List.replicate 15 2 ++ List.replicate 40 1 ++ List.replicate 40 2

theorem unlink_race_numbers :
    ((poolRun Sys.exec twiceSched (Pool.start aliceLogins aliceWorld)).prog 1).result?.map
        (fun r => (r.1, r.2.counter)) = some (0, numI 1) ∧
      ((poolRun Sys.exec twiceSched (Pool.start aliceLogins aliceWorld)).prog 2).result?.map
        (fun r => (r.1, r.2.counter)) = some (0, numI 1) := by
  constructor <;> decide +kernel

end Otpasswd
