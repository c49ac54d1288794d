import Otpasswd.Libotp.PppSpec

/-!
# Otpasswd.Libotp.PppLock — the state in memory, call by call

What the operations do to the state they are given on every path, whatever
the database holds. A program that takes the lock is cut in two at the call
that grants it (`Locks`): before, nothing was changed; after, the lock is
given back unless building its path fails, which it does not if `ok`.

Main results: `pppStateLoad_locks`, `pppStateRelease_ends` and
`counterOp_locks`.
-/

namespace Otpasswd

open CText Prog

/-! ## Programs that take the lock -/

/-- A copy of a user name is made. -/
def Sys.Copies : (c : Sys) → c.Reply → Prop
  | .strdup, x => x = true
  | _, _ => True

/-- The answers of a process; unless `S`, user names are copied. -/
def Sys.Given (uid : Uid) (S : Prop) (c : Sys) (x : c.Reply) : Prop :=
  Sys.Answers uid False c x ∧ (Sys.Copies c x ∨ S)

/-- The same; if `ok`, no path fails. -/
def Sys.Told (uid : Uid) (ok S : Prop) (c : Sys) (x : c.Reply) : Prop :=
  Sys.Given uid S c x ∧ Sys.Finds ok c x

/-- The values on every path, for such answers. An assertion fails only if `S`,
and the program crashes only when a path fails. -/
abbrev Ends {α : Type} (uid : Uid) (ok S : Prop) (V : α → Prop) (p : SysM α) : Prop :=
  p.Sat (Sys.Told uid ok S) (fun _ => True) (Stops S (¬ ok)) V

/-- The same of a program that does not crash. -/
abbrev Sound {α : Type} (uid : Uid) (S : Prop) (V : α → Prop) (p : SysM α) : Prop :=
  p.Sat (Sys.Told uid False S) (fun _ => True) (Stops S False) V

/-- The same of a program that does not take the lock either. -/
abbrev Free {α : Type} (uid : Uid) (S : Prop) (V : α → Prop) (p : SysM α) : Prop :=
  p.Sat (Sys.Given uid S) Sys.Calm (Stops S False) V

/-- The values of a program when it never gets the lock (`V0`), and when it
does (`V`). -/
abbrev Locks {α : Type} (uid : Uid) (S : Prop) (V0 : α → Prop) (V : Prop → α → Prop)
    (p : SysM α) : Prop :=
  p.Until (Sys.Given uid S) (fun _ => True) (Stops S False) Sys.Grants
    (fun _ q => ∀ ok, Ends uid ok S (V ok) q) V0

section Rules

variable {α β : Type} {uid : Uid} {named : Bool} {ok S : Prop} {cfg : Cfg} {p : SysM α} {f : α → SysM β}
  {V0 : α → Prop} {V : Prop → α → Prop} {V0' : β → Prop} {V' : Prop → β → Prop}

theorem Meets.sound {P : Sys → Prop} {U : α → Prop} (hp : Meets cfg uid named False P U p)
    (hS : ¬ Runs cfg uid named → S) : Sound uid S U p :=
  Sat.answers (hp.mono (fun _ _ => trivial) (Stops.mono hS id) fun _ h => h) fun _ _ h => h.1.1

theorem Sound.ends {U : α → Prop} (hp : Sound uid S U p) : Ends uid ok S U p :=
  Sat.answers (hp.mono (fun _ h => h) (Stops.mono id False.elim) fun _ h => h)
    fun _ _ h => ⟨h.1, h.1.1.finds⟩

theorem Meets.ends {P : Sys → Prop} {U : α → Prop} (hp : Meets cfg uid named False P U p)
    (hS : ¬ Runs cfg uid named → S) : Ends uid ok S U p :=
  Sound.ends (hp.sound hS)

/-- A program that takes no lock, in front of one that may. -/
theorem Free.locks {U : α → Prop} (hp : Free uid S U p)
    (hf : ∀ a, U a → Locks uid S V0' V' (f a)) : Locks uid S V0' V' (p >>= f) :=
  Sat.bind_until hp (fun _ hc => ⟨trivial, hc.not_grants⟩) hf

theorem Meets.locks {U : α → Prop} (hp : Meets cfg uid named False Sys.Calm U p)
    (hS : ¬ Runs cfg uid named → S) (hf : ∀ a, U a → Locks uid S V0' V' (f a)) :
    Locks uid S V0' V' (p >>= f) :=
  Free.locks (Sat.answers (hp.mono (fun _ h => h) (Stops.mono hS id) fun _ h => h)
    fun _ _ h => h.1) hf

theorem Locks.bind (hp : Locks uid S V0 V p) (h0 : ∀ a, V0 a → Locks uid S V0' V' (f a))
    (h : ∀ ok a, V ok a → Ends uid ok S (V' ok) (f a)) : Locks uid S V0' V' (p >>= f) :=
  Until.bind hp (fun _ _ hq ok => (hq ok).bind (h ok)) h0

theorem Locks.mono {V0' : α → Prop} {V' : Prop → α → Prop} (hp : Locks uid S V0 V p)
    (h0 : ∀ a, V0 a → V0' a) (h : ∀ ok a, V ok a → V' ok a) : Locks uid S V0' V' p := by
  rw [← bind_pure p]
  exact Locks.bind hp h0 h

/-- A program whose values do not depend on the lock. -/
theorem Sound.locks {U : α → Prop} (hp : Sound uid S U p) : Locks uid S U (fun _ => U) p := by
  induction p with
  | ret a => exact hp
  | stop why => exact hp
  | call c k ih =>
    refine ⟨trivial, fun x hx => ?_⟩
    have hk : Sound uid S U (k x) := hp.2 x ⟨hx, hx.1.finds⟩
    exact ⟨fun _ ok => Sound.ends hk, fun _ => ih x hk⟩

/-- Both halves together. -/
theorem Locks.ends (hp : Locks uid S V0 V p) (h : ∀ a, V0 a → V ok a) : Ends uid ok S (V ok) p := by
  induction p with
  | ret a => exact h a hp
  | stop why => exact Stops.mono id False.elim why hp
  | call c k ih =>
    refine ⟨trivial, fun x hx => ?_⟩
    by_cases hg : Sys.Grants c x
    · exact (hp.2 x hx.1).1 hg ok
    · exact ih x ((hp.2 x hx.1).2 hg)

end Rules

section Execution

variable {α : Type} {S : Prop} {p : SysM α} {me : Pid} {w : World}

theorem exec_told_of (me : Pid) (w : World) (c : Sys) (w' : World) (hw' : w'.uid = w.uid) :
    Sys.Answers (w.uid me) False c (c.exec me w').1 := by
  rw [← hw']
  exact (exec_answers me c w').mono False.elim

theorem exec_given_of (me : Pid) (w : World) (c : Sys) (w' : World) (hw' : w'.uid = w.uid) :
    Sys.Given (w.uid me) True c (c.exec me w').1 :=
  ⟨exec_told_of me w c w' hw', .inr trivial⟩

theorem exec_uid_of (me : Pid) (w : World) (c : Sys) (w' : World) (hw' : w'.uid = w.uid) :
    (c.exec me w').2.uid = w.uid :=
  (exec_uid me c w').trans hw'

/-- What a program returns when it is run, whatever fails. -/
theorem wp_ends {V : α → Prop} (hp : Ends (w.uid me) False True V p) :
    wp (Sys.exec me) p (fun r _ => ∀ a, r = some a → V a) w := by
  refine wp_mono (wp_of_sat (I := fun w' => w'.uid = w.uid) (fun c w' _ hw' => ?_)
    (fun c w' _ hw' => (exec_uid me c w').trans hw') hp rfl) fun _ _ h => h.2.2
  have hgiven := exec_given_of me w c w' hw'
  exact ⟨hgiven, hgiven.1.finds⟩

/-- No copy of a user name fails. -/
def Copied (me : Pid) (p : SysM α) (w : World) : Prop := p.Answered (Sys.exec me) Sys.Copies w

/-- An assertion fails in a run only if `S`. -/
theorem Ends.stopsFor {V : α → Prop} (hp : Ends (w.uid me) False S V p) (hcopied : Copied me p w) :
    StopsFor (Sys.exec me) (Stops S True) p w := by
  have hsat : p.Sat (fun c x => Sys.Answers (w.uid me) False c x ∧ Sys.Copies c x)
      (fun _ => True) (Stops S (¬ False)) V :=
    Sat.answers hp fun _ _ h => ⟨⟨h.1, .inl h.2⟩, h.1.finds⟩
  exact (Sat.stopsFor_answered (exec_told_of me w) (exec_uid_of me w) hsat hcopied rfl).mono
    (Stops.mono id fun _ => trivial)

/-- Once the lock is granted, no allocation and no passwd lookup fails. -/
def Served (me : Pid) (p : SysM α) (w : World) : Prop :=
  p.AnsweredAfter (Sys.exec me) Sys.Grants (Sys.Finds True) w

/-- What it returns when no path fails once the lock is granted. -/
theorem wp_locks_served {V0 : α → Prop} {V : Prop → α → Prop}
    (hp : Locks (w.uid me) True V0 V p)
    (hafter : Served me p w) :
    wp (Sys.exec me) p (fun r _ => ∀ a, r = some a → V0 a ∨ V True a) w := by
  refine wp_of_until (I := fun w' => w'.uid = w.uid) (exec_given_of me w) (exec_uid_of me w) hp
    hafter rfl ?_ ?_ ?_
  · intro c q w' hq hw' hq'
    have hsat : q.Sat (fun c x => Sys.Given (w.uid me) True c x ∧ Sys.Finds True c x)
        (fun _ => True) (Stops True (¬ True)) (V True) := hq True
    refine wp_mono (wp_of_answered (exec_given_of me w) (exec_uid_of me w) hsat hq' hw') ?_
    exact fun r w'' h a ha => .inr (h.2.2 a ha)
  · exact fun _ _ _ _ a ha => absurd ha.symm (Option.some_ne_none a)
  · exact fun a w' _ ha a' ha' => .inl (Option.some.inj ha' ▸ ha)

theorem wp_locks {V0 : α → Prop} {V : Prop → α → Prop} (hp : Locks (w.uid me) True V0 V p) :
    wp (Sys.exec me) p (fun r _ => ∀ a, r = some a → V0 a ∨ V (Served me p w) a) w := by
  by_cases hserved : Served me p w
  · rw [eq_true hserved]
    exact wp_locks_served hp hserved
  · rw [eq_false hserved]
    have hends : Ends (w.uid me) False True (fun a => V0 a ∨ V False a) p :=
      (Locks.mono hp (fun _ h => .inl h) fun _ _ h => .inr h).ends (V := fun ok a =>
        V0 a ∨ V ok a) fun _ h => h
    exact wp_ends hends

/-- It crashes only when a path fails under the lock. -/
theorem Locks.stopsFor {V0 : α → Prop} {V : Prop → α → Prop} (hp : Locks (w.uid me) S V0 V p)
    (hcopied : Copied me p w) : StopsFor (Sys.exec me) (Stops S (¬ Served me p w)) p w := by
  by_cases hserved : Served me p w
  · have huntil : p.Until (fun c x => Sys.Answers (w.uid me) False c x ∧ Sys.Copies c x)
        (fun _ => True) (Stops S False) Sys.Grants (fun _ q => ∀ ok, Ends (w.uid me) ok S (V ok) q)
        V0 := Until.answers hp fun _ _ h => ⟨h.1, .inl h.2⟩
    refine Until.stopsFor (I := fun w' => w'.uid = w.uid) (exec_told_of me w) (exec_uid_of me w)
      huntil hcopied hserved rfl (fun c q w' hq hw' hcopied' hq' => ?_) (Stops.mono id False.elim)
    have hsat : q.Sat (fun c x => Sys.Answers (w.uid me) False c x ∧
        (Sys.Copies c x ∧ Sys.Finds True c x)) (fun _ => True) (Stops S (¬ True)) (V True) :=
      Sat.answers (hq True) fun _ _ h => ⟨⟨h.1, .inl h.2.1⟩, h.2.2⟩
    exact (Sat.stopsFor_answered (exec_told_of me w) (exec_uid_of me w) hsat (hcopied'.and hq')
      hw').mono (Stops.mono id (absurd trivial))
  · refine (Ends.stopsFor (V := fun a => V0 a ∨ V False a) ?_ hcopied).mono
      (Stops.mono id fun _ => hserved)
    exact (Locks.mono hp (fun _ h => .inl h) fun _ _ h => .inr h).ends
      (V := fun ok a => V0 a ∨ V ok a) fun _ h => h

end Execution

/-- What the library asserts does not change with the state of a user. -/
theorem State.SameUser.stops {cfg : Cfg} {uid : Uid} {S : Prop} {s s' : State} (h : s.SameUser s')
    (hS : ¬ Runs cfg uid s.named → S) : ¬ Runs cfg uid s'.named → S :=
  h.named ▸ hS

/-! ## Loading -/

/-- How a load under a lock ends. -/
inductive Read (s : State) : ℕ → State → Prop where
  | loaded (e : Entry) (hv : e.Valid) : Read s 0 (s.load e)
  | failed (ret : ℕ) (s' : State) (hret : LoadError ret) (h : s.Beside s') : Read s ret s'

/-- The same with the cards computed and the range checked. -/
inductive ReadCards (s : State) : ℕ → State → Prop where
  | loaded (e : Entry) (hv : e.Valid) :
      ReadCards s (verifyRange (calculate (s.load e))) (calculate (s.load e))
  | failed (ret : ℕ) (s' : State) (hret : LoadError ret) (h : s.Beside s') : ReadCards s ret s'

theorem Read.sameUser {s s' : State} {ret : ℕ} (h : Read s ret s') : s.SameUser s' := by
  cases h with
  | loaded e => exact s.sameUser_load e
  | failed _ _ _ h => exact h.toSameUser

theorem ReadCards.sameUser {s s' : State} {ret : ℕ} (h : ReadCards s ret s') : s.SameUser s' := by
  cases h with
  | loaded e => exact ⟨rfl, rfl, rfl, rfl, rfl⟩
  | failed _ _ _ h => exact h.toSameUser

/-- The row on a card is small: it comes from one word. -/
def State.RowOk (s : State) : Prop := s.currentRow ≤ 2 ^ 64

/-- How `ppp_state_load` ends once it has the lock. -/
inductive LoadHeld (ok : Prop) (s : State) : ℕ → State → Prop where
  | loaded (fd : Fd) (e : Entry) (hv : e.Valid) (hrange : verifyRange (s.loaded fd.val e) = 0) :
      LoadHeld ok s 0 (s.loaded fd.val e)
  | exhausted (lock : ℤ) (e : Entry) (hv : e.Valid) (hrange : verifyRange (s.loaded lock e) ≠ 0)
      (hlock : (s.loaded lock e).LockOk) (hok : ok → lock = -1) :
      LoadHeld ok s (verifyRange (s.loaded lock e)) (s.loaded lock e)
  | failed (ret : ℕ) (s' : State) (hret : LoadError ret) (h : s.SameUser s')
      (hrow : s'.currentRow = s.currentRow) (hlock : s'.LockOk) (hok : ok → s'.lock = -1) :
      LoadHeld ok s ret s'

theorem LoadHeld.sameUser {ok : Prop} {s s' : State} {ret : ℕ} (h : LoadHeld ok s ret s') :
    s.SameUser s' := by
  cases h with
  | loaded fd e => exact ⟨rfl, rfl, rfl, rfl, rfl⟩
  | exhausted lock e => exact ⟨rfl, rfl, rfl, rfl, rfl⟩
  | failed _ _ _ h => exact h

/-- What is known of a `ppp_state_load` that never got the lock. -/
def NotHeld (s : State) (r : ℕ × State) : Prop := LoadError r.1 ∧ r.2 = s

section

variable {cfg : Cfg} {uid : Uid} {named : Bool} {ok : Prop} {s : State}

theorem dbFileRead_sat (db : DbLoc) (s : State) :
    Meets cfg uid s.named False Sys.Calm (fun r => Read s r.1 r.2) (dbFileRead db s) := by
  have hfail (ret : ℕ) (hret : LoadError ret) : Read s ret s := .failed ret s hret (.refl s)
  refine meets_call ⟨trivial, id⟩ fun x hx => ?_
  rcases x with _ | _ | f
  · exact hfail _ (by simp [LoadError])
  · exact hfail _ (by simp [LoadError])
  simp only
  by_cases hfound : (dbFindUserEntry s.username f none).ret ≠ 0
  · rw [if_pos hfound]
    exact hfail _ (dbFindUserEntry_loadError _ (hx f rfl) hfound)
  rw [if_neg hfound]
  rcases hparse : dbParseUserEntry (dbFindUserEntry s.username f none).buff with _ | field
  · exact hfail _ (by simp [LoadError])
  have hload := dbLoadFields_eq field s
  rcases hdec : decodeEntry field with _ | e
  · rw [hdec] at hload
    simp only at hload
    exact .failed _ _ (by simp [LoadError, hload]) (dbLoadFields_beside field s)
  · rw [hdec] at hload
    simp only at hload
    change Read s (dbLoadFields field s).1 (dbLoadFields field s).2
    rw [hload]
    exact .loaded e (decodeEntry_valid hdec)

/-- Loading under a lock that is held. -/
theorem dbFileLoad_held (hlock : 0 < s.lock) :
    Meets cfg uid s.named False Sys.Calm (fun r => Read s r.1 r.2) (dbFileLoad cfg s) := by
  have hfail (ret : ℕ) (hret : LoadError ret) : Read s ret s := .failed ret s hret (.refl s)
  refine (dbPath_meets s.username).bind fun r hr => ?_
  rcases hr with rfl | ⟨ret, rfl, hret, -⟩
  swap
  · exact hfail ret hret
  refine (dbFilePermissions_sat _ _).bind fun ret hret => ?_
  by_cases hperm : ret ≠ 0
  · rw [if_pos hperm]
    exact hfail ret ⟨hperm, hret.1⟩
  rw [if_neg hperm, if_neg (not_le.mpr hlock)]
  exact dbFileRead_sat _ s

theorem pppStateRead_held (hlock : 0 < s.lock) :
    Meets cfg uid s.named False Sys.Calm (fun r => ReadCards s r.1 r.2) (pppStateRead cfg s) := by
  have hload : Meets cfg uid s.named False Sys.Calm (fun r => Read s r.1 r.2) (stateLoad cfg s) := by
    unfold stateLoad
    split
    · exact dbFileLoad_held hlock
    · exact dbFileLoad_held hlock
    · rename_i h1 h2
      exact fun h => h.db.elim h2 h1
  refine hload.bind ?_
  rintro ⟨ret, s1⟩ hr
  replace hr : Read s ret s1 := hr
  simp only
  cases hr with
  | failed _ _ hret h =>
    rw [if_pos hret.1]
    exact .failed ret s1 hret h
  | loaded e hv =>
    rw [if_neg (by simp), pppCalculate_load s hv]
    exact .loaded e hv

/-- Giving the lock back fails only if its path cannot be built. -/
theorem dbFileUnlock_ends {S : Prop} (s : State) (hS : ¬ Runs cfg uid s.named → S) :
    Ends uid ok S (fun r => (r.1 = 0 → s.lock < 0) ∧ r.2 = s ∧ (ok → s.lock < 0) ∨
      r.2 = s.setLock (-1)) (dbFileUnlock cfg s) := by
  have hpath := @dbPath_finds cfg uid s.named ok (Sys.Told uid ok S) (fun _ _ h => h.2) s.username false
  refine (hpath.mono (fun _ _ => trivial) (Stops.mono hS And.right) fun _ h => h).bind
    fun r hr => ?_
  rcases hr with rfl | ⟨ret, rfl, hret, hok⟩
  · by_cases h : s.lock < 0
    · simp only
      rw [if_pos h]
      exact .inl ⟨fun _ => h, rfl, fun _ => h⟩
    · simp only
      rw [if_neg h]
      exact ⟨trivial, fun _ _ => ⟨trivial, fun _ _ => ⟨trivial, fun _ _ => .inr rfl⟩⟩⟩
  · exact .inl ⟨fun h => absurd h hret.1, rfl, fun h => absurd h hok⟩

theorem stateUnlock_ends {S : Prop} (s : State) (hS : ¬ Runs cfg uid s.named → S) :
    Ends uid ok S (fun r => r.2 = s ∧ (ok → s.lock < 0) ∨ r.2 = s.setLock (-1))
      (stateUnlock cfg s) := by
  have hunlock : Ends uid ok S (fun r => r.2 = s ∧ (ok → s.lock < 0) ∨ r.2 = s.setLock (-1))
      (dbFileUnlock cfg s) :=
    (dbFileUnlock_ends s hS).mono (fun _ h => h) (fun _ h => h) fun _ h => h.imp_left And.right
  unfold stateUnlock
  split
  · exact hunlock
  · exact hunlock
  · rename_i h1 h2
    exact hS fun h => h.db.elim h2 h1

theorem dbFileLock_locks {S : Prop} (hS : ¬ Runs cfg uid s.named → S) (hlock : s.lock = -1) :
    Locks uid S (NotHeld s) (fun _ r => ∃ fd : Fd, r = (0, s.setLock fd.val))
      (dbFileLock cfg s) := by
  refine Until.answers ((dbFileLock_until s).mono (fun _ _ => trivial)
    (Stops.mono (fun h => hS fun h' => h ⟨h', hlock⟩) id) ?_ fun r hr => hr) fun _ _ h => h.1
  rintro c q ⟨fd, -, rfl, -, -⟩ ok
  exact ⟨fd, rfl⟩

theorem stateLock_locks {S : Prop} (hS : ¬ Runs cfg uid s.named → S) (hlock : s.lock = -1) :
    Locks uid S (NotHeld s) (fun _ r => ∃ fd : Fd, r = (0, s.setLock fd.val)) (stateLock cfg s) := by
  unfold stateLock
  split
  · exact dbFileLock_locks hS hlock
  · exact dbFileLock_locks hS hlock
  · rename_i h1 h2
    exact hS fun h => h.db.elim h2 h1

theorem pppStateLoad_locks {S : Prop} (hS : ¬ Runs cfg uid s.named → S) (hlock : s.lock = -1) :
    Locks uid S (NotHeld s) (fun ok r => LoadHeld ok s r.1 r.2) (pppStateLoad cfg s {}) := by
  rw [pppStateLoad, if_neg (by simp)]
  refine (stateLock_locks hS hlock).bind ?_ ?_
  · rintro ⟨ret, s1⟩ ⟨hret, rfl⟩
    simp only
    rw [if_pos hret.1]
    exact ⟨hret, rfl⟩
  rintro ok _ ⟨fd, rfl⟩
  simp only
  rw [if_neg (by simp)]
  have hfd : (0 : ℤ) < fd.val := by
    have := fd.property
    omega
  -- the lock is held from here on
  have hread := @pppStateRead_held cfg uid (s.setLock fd.val) hfd
  refine (hread.ends hS).bind ?_
  rintro ⟨ret, s2⟩ hr
  replace hr : ReadCards (s.setLock fd.val) ret s2 := hr
  simp only
  by_cases hret : ret = 0
  · rw [if_neg (not_not.mpr hret)]
    cases hr with
    | loaded e hv =>
      have hrange : verifyRange (s.loaded fd.val e) = 0 := hret
      exact .loaded fd e hv hrange
    | failed _ _ hne => exact absurd hret hne.1
  rw [if_pos hret]
  -- nothing to keep: the lock is given back, and if its path is found it is gone
  have hlock2 : s2.lock = fd.val := by
    cases hr with
    | loaded e hv => rfl
    | failed _ _ _ h => exact h.lock
  refine (stateUnlock_ends s2 (hr.sameUser.stops hS)).bind ?_
  rintro ⟨unlocked, s3⟩ hu
  obtain ⟨lock, hs3, hok3, hgone⟩ : ∃ lock, s3 = s2.setLock lock ∧ (s2.setLock lock).LockOk ∧
      (ok → lock = -1) := by
    rcases hu with ⟨h, hpath⟩ | h
    · have hs3 : s3 = s2.setLock fd.val := by
        rw [← hlock2, State.setLock_self]
        exact h
      refine ⟨fd.val, hs3, .inr hfd, fun hok => ?_⟩
      have := hpath hok
      omega
    · exact ⟨-1, h, .inl rfl, fun _ => rfl⟩
  subst hs3
  change LoadHeld ok s ret (s2.setLock lock)
  cases hr with
  | failed _ _ hne h =>
    have huser := (s.sameUser_setLock fd.val).trans h.toSameUser
    exact .failed ret _ hne (huser.trans (s2.sameUser_setLock _)) h.currentRow hok3 hgone
  | loaded e hv =>
    have hrange : verifyRange (s.loaded fd.val e) ≠ 0 := hret
    have hstate : (s.loaded fd.val e).setLock lock = s.loaded lock e := loaded_setLock s _ e lock
    have heq : verifyRange (s.loaded lock e) = verifyRange (s.loaded fd.val e) := by
      rw [← hstate, verifyRange_setLock]
    change LoadHeld ok s (verifyRange (s.loaded fd.val e)) ((s.loaded fd.val e).setLock lock)
    rw [hstate, ← heq]
    exact .exhausted lock e hv (heq ▸ hrange) (hstate ▸ hok3) hgone

/-! ## Storing and releasing -/

theorem sound_call {α : Type} {S : Prop} {c : Sys} {f : c.Reply → SysM α} {V : α → Prop}
    (h : ∀ x, Sound uid S V (f x)) : Sound uid S V (sys c >>= f) :=
  ⟨trivial, fun x _ => h x⟩

/-- A call that may also write. -/
theorem ends_call {α : Type} {S : Prop} {c : Sys} {f : c.Reply → SysM α} {V : α → Prop}
    (h : ∀ x, Ends uid ok S V (f x)) : Ends uid ok S V (sys c >>= f) :=
  ⟨trivial, fun x _ => h x⟩

theorem dbFileCleanup_ends {S : Prop} (hS : ¬ Runs cfg uid named → S) (db : DbLoc) (ret : ℕ)
    (out : Option OutFile) : Ends uid ok S (fun _ => True) (dbFileCleanup cfg db ret out) := by
  have hrest : Ends uid ok S (fun _ => True)
      (if ret = 0 then do
        if ← sys (.renameTmp db) then
          let _ ← dbFilePermissions cfg db none
          return 0
        else return stateIoError
      else do
        sys (.unlinkTmp db)
        return ret) := by
    by_cases hret : ret = 0
    · rw [if_pos hret]
      refine ends_call fun renamed => ?_
      cases renamed with
      | true => exact ((dbFilePermissions_sat db none).ends hS).bind fun _ _ => trivial
      | false => trivial
    · rw [if_neg hret]
      exact ends_call fun _ => trivial
  rcases out with _ | out
  · exact hrest
  · exact ends_call fun _ => hrest

theorem dbFileWriteTmp_ends {S : Prop} (hS : ¬ Runs cfg uid named → S) (db : DbLoc) (remove : Bool)
    (inp : Option InFile) :
    Ends uid ok S (fun _ => True) (dbFileWrite.dbFileWriteTmp cfg db s remove inp) := by
  refine ends_call fun out => ?_
  rcases out with _ | out
  · exact dbFileCleanup_ends hS db _ _
  refine ((dbOwnTmp_sat cfg uid _ False db).ends hS).bind fun owned _ => ?_
  by_cases howned : owned = false
  · rw [if_pos howned]
    exact dbFileCleanup_ends hS db _ _
  rw [if_neg howned]
  rcases dbFileCopy s remove inp out with ⟨_ | ret, out⟩
  · refine ends_call fun closed => ?_
    by_cases hclosed : closed = true
    · rw [if_pos hclosed]
      exact dbFileCleanup_ends hS db _ _
    · rw [if_neg hclosed]
      exact dbFileCleanup_ends hS db _ _
  · exact dbFileCleanup_ends hS db _ _

theorem dbFileWrite_ends {S : Prop} (hS : ¬ Runs cfg uid named → S) (db : DbLoc) (remove : Bool) :
    Ends uid ok S (fun _ => True) (dbFileWrite cfg db s remove) := by
  unfold dbFileWrite
  by_cases hunlink : cfg.db = .user ∧ remove = true
  · rw [if_pos hunlink]
    refine ends_call fun unlinked => ?_
    cases unlinked <;> trivial
  rw [if_neg hunlink]
  refine ends_call fun inp => ?_
  rcases inp with _ | _ | f
  · exact dbFileWriteTmp_ends hS db remove _
  · exact dbFileCleanup_ends hS db _ _
  · exact dbFileWriteTmp_ends hS db remove _

/-- A write under a lock that is held. -/
theorem stateWrite_ends {S : Prop} (hS : ¬ Runs cfg uid s.named → S) (remove : Bool) (hlock : 0 < s.lock) :
    Ends uid ok S (fun r => r.2 = s) (stateWrite cfg s remove) := by
  have hstore : Ends uid ok S (fun r => r.2 = s) (dbFileStore cfg s remove) := by
    have hpath := @dbPath_finds cfg uid s.named ok (Sys.Told uid ok S) (fun _ _ h => h.2) s.username false
    refine (hpath.mono (fun _ _ => trivial) (Stops.mono hS And.right) fun _ h => h).bind
      fun r hr => ?_
    rcases hr with rfl | ⟨ret, rfl, -, -⟩
    swap
    · rfl
    simp only
    rw [if_neg (not_le.mpr hlock)]
    exact (dbFileWrite_ends hS _ remove).bind fun _ _ => rfl
  unfold stateWrite
  split
  · exact hstore
  · exact hstore
  · rename_i h1 h2
    exact hS fun h => h.db.elim h2 h1

/-- The store of a state without a new key; unlocked it is refused. -/
theorem stateStore_ends {S : Prop} (hS : ¬ Runs cfg uid s.named → S) (remove : Bool)
    (hnew : s.newKey = false) :
    Ends uid ok S (fun r => r.2 = s) (stateStore cfg s remove) := by
  have hself : s.setNewKey false = s := by
    obtain ⟨⟩ := s
    subst hnew
    rfl
  refine (sat_assert_bind _).mpr ⟨fun _ => ?_, fun h => absurd (fun h' => by simp [hnew] at h') h⟩
  rw [if_neg (by simp [hnew]), hself]
  by_cases hlock : s.lock ≤ 0
  · rw [if_pos hlock]
    rfl
  · rw [if_neg hlock]
    exact stateWrite_ends hS remove (not_le.mp hlock)

theorem stateFini_unlocked {s : State} (hlock : s.lock = -1) : stateFini cfg s = .ret ⟨⟩ := by
  have hneg : ¬ 0 < s.lock := by omega
  simp only [stateFini, hneg, if_false, pure_eq_ret]

theorem stateFini_ends {S : Prop} (s : State) (hS : ¬ Runs cfg uid s.named → S) :
    Ends uid ok S (fun _ => True) (stateFini cfg s) := by
  unfold stateFini
  split_ifs
  · exact (stateUnlock_ends s hS).bind fun _ _ => trivial
  · trivial

/-- Releasing a state, which has no new key if it is to be stored. -/
theorem pppStateRelease_ends {S : Prop} (hS : ¬ Runs cfg uid s.named → S) (flags : PppOptions)
    (hflags : ¬ (flags.store = true ∧ flags.remove = true)) (hunlock : flags.unlock = true)
    (hcheck : flags.checkPolicy = false)
    (hnew : flags.store = true ∨ flags.remove = true → s.newKey = false) (hlock : s.LockOk) :
    Ends uid ok S (fun r => ∃ lock, r.2 = s.setLock lock ∧ (s.setLock lock).LockOk ∧
      (ok → lock = -1)) (pppStateRelease cfg s flags) := by
  have hstore : Ends uid ok S (fun r => r.2 = s) (pppReleaseStore cfg s flags) := by
    unfold pppReleaseStore
    split_ifs with hremove hstore
    · exact stateStore_ends hS true (hnew (.inr hremove))
    · exact stateStore_ends hS false (hnew (.inl hstore))
    · rfl
  refine (sat_assert_bind _).mpr ⟨fun _ => ?_, fun h => absurd hflags h⟩
  rw [if_neg (by simp [hcheck])]
  refine hstore.bind ?_
  rintro ⟨ret1, s1⟩ h1
  obtain rfl : s1 = s := h1
  simp only [pppReleaseUnlock, hunlock, if_true]
  refine (stateUnlock_ends s1 hS).bind ?_
  rintro ⟨ret2, s2⟩ (⟨h, hpath⟩ | h)
  · refine ⟨s1.lock, ?_, hlock, fun hok => ?_⟩
    · rw [State.setLock_self]
      exact h
    · have := hpath hok
      rcases hlock with hlock | hlock <;> omega
  · exact ⟨-1, h, .inl rfl, fun _ => rfl⟩

/-! ## The atomic operations -/

/-- The shape of `ppp_increment` and `ppp_skip`: load under the lock, check,
change (`upd`) and store. `last` is the last check, and `fin` what is done to
the state after the store. -/
def counterOp (cfg : Cfg) (s : State) (last : State → ℕ) (upd : State → State)
    (fin : State → State → State) : SysM (ℕ × State) := do
  let (retval, s) ← pppStateLoad cfg s {}
  if retval ≠ 0 then return (retval, s)
  else
    let verify ← pppStateVerify cfg s
    let retval := if verify ≠ 0 then verify
      else if pppFlagCheck s flagDisabled then pppErrorDisabled else last s
    if retval ≠ 0 then
      let (_, s) ← pppStateRelease cfg s { unlock := true }
      return (retval, s)
    else
      let (retval, s') ← pppStateRelease cfg (upd s) { store := true, unlock := true }
      return (retval, fin s s')

theorem pppIncrement_eq (cfg : Cfg) (s : State) :
    pppIncrement cfg s = counterOp cfg s (fun _ => 0)
      (fun s => s.setCounter (numAdd s.counter (numI 1))) (fun s s' => s'.setCounter s.counter) :=
  rfl

/-- The number that `ppp_skip` writes. -/
def skipCounter (skipTo : Num) (s : State) : State :=
  (s.setCounter skipTo).setCounter (pppAddSalt (s.setCounter skipTo) skipTo)

theorem pppSkip_eq (cfg : Cfg) (s : State) (skipTo : Num) :
    pppSkip cfg s skipTo = counterOp cfg s
      (fun s => if 0 ≤ numCmp skipTo s.maxCode then pppErrorRange else 0) (skipCounter skipTo)
      (fun _ s' => s') := by
  unfold pppSkip counterOp
  refine congrArg _ (funext fun r => ?_)
  obtain ⟨ret, s⟩ := r
  simp only [Prod.mk.eta, bind_pure]
  rfl

/-- A state with a new key is not stored under a lock. -/
theorem pppStateRelease_newKey (hnew : s.newKey = true) (hlock : 0 < s.lock) :
    pppStateRelease cfg s { store := true, unlock := true } = .abort := by
  have hstore : stateStore cfg s false = .abort := by
    simp only [stateStore, assert, hnew, if_true, not_le.mpr hlock, if_false, Bool.false_eq_true,
      and_false, not_false_eq_true, ret_bind, stop_bind]
  simp only [pppStateRelease, pppReleaseStore, assert, hstore, Bool.false_eq_true, false_and,
    and_false, not_false_eq_true, if_true, if_false, ret_bind, stop_bind]

/-- How `ppp_increment` and `ppp_skip` end once they have the lock: loaded,
and unlocked again. `fin` is what the change leaves of a loaded state. -/
inductive CounterHeld (ok : Prop) (s : State) (fin : State → State) : ℕ → State → Prop where
  | failed (ret : ℕ) (s' : State) (hret : ret ≠ 0) (h : s.SameUser s')
      (hrow : s.RowOk → s'.RowOk) (hlock : s'.LockOk) (hok : ok → s'.lock = -1) :
      CounterHeld ok s fin ret s'
  | done (ret : ℕ) (lock : ℤ) (e : Entry) (hv : e.Valid)
      (hrange : verifyRange (s.loaded lock e) = 0) (hlock : (s.loaded lock e).LockOk)
      (hok : ok → lock = -1) : CounterHeld ok s fin ret (fin (s.loaded lock e))

theorem calculate_rowOk (s : State) : (calculate s).RowOk := by
  have hlt := ((numDivI s.justCounter
    (BitVec.ofNat 64 (codesPerRow s.codeLength.toNat * rowsPerCard))).2).isLt
  have hle := Nat.div_le_self ((numDivI s.justCounter
    (BitVec.ofNat 64 (codesPerRow s.codeLength.toNat * rowsPerCard))).2.toNat -
      (numDivI s.justCounter (BitVec.ofNat 64 (codesPerRow s.codeLength.toNat * rowsPerCard))).2.toNat %
        codesPerRow s.codeLength.toNat) (codesPerRow s.codeLength.toNat)
  simp only [State.RowOk, calculate]
  omega

theorem State.RowOk.setLock {s : State} (h : s.RowOk) (fd : ℤ) : (s.setLock fd).RowOk := h

theorem counterOp_locks {S : Prop} (hS : ¬ Runs cfg uid s.named → S) (hlock : s.lock = -1)
    (hnew : s.newKey = true → S) {last : State → ℕ} {upd : State → State}
    {fin : State → State → State} {mem : State → State}
    (hupd : ∀ s, (upd s).lock = s.lock ∧ (upd s).newKey = s.newKey ∧ (upd s).named = s.named)
    (hfin : ∀ fd fd' e, fin (s.loaded fd e) ((upd (s.loaded fd e)).setLock fd') =
      mem (s.loaded fd' e)) :
    Locks uid S (NotHeld s) (fun ok r => CounterHeld ok s mem r.1 r.2)
      (counterOp cfg s last upd fin) := by
  refine (pppStateLoad_locks hS hlock).bind ?_ ?_
  · rintro ⟨ret, s1⟩ ⟨hret, rfl⟩
    simp only
    rw [if_pos hret.1]
    exact ⟨hret, rfl⟩
  rintro ok ⟨ret, s1⟩ hr
  replace hr : LoadHeld ok s ret s1 := hr
  cases hr with
  -- the entry is loaded, but its counter is past the last passcode
  | exhausted lock e hv hrange hl hok =>
    simp only
    rw [if_pos hrange]
    exact .failed _ _ hrange ⟨rfl, rfl, rfl, rfl, rfl⟩ (fun _ => calculate_rowOk _) hl hok
  | failed _ _ hret h hrow hl hok =>
    simp only
    rw [if_pos hret.1]
    exact .failed ret s1 hret.1 h (fun hs => hrow.trans_le hs) hl hok
  | loaded fd e hv hrange =>
    have hcodes : 0 < (s.loaded fd.val e).codesOnCard :=
      calculate_codesOnCard hv.codeLength_ge hv.codeLength_le
    have hfd : (0 : ℤ) < fd.val := by
      have := fd.property
      omega
    simp only
    rw [if_neg (by simp), pppStateVerify_eq hcodes, ret_bind]
    change Ends uid ok S _ (if verdict cfg (s.loaded fd.val e) (last (s.loaded fd.val e)) ≠ 0
      then _ else _)
    by_cases hverdict : verdict cfg (s.loaded fd.val e) (last (s.loaded fd.val e)) = 0
    swap
    · -- a check fails: only the lock is given back
      rw [if_pos hverdict]
      refine (pppStateRelease_ends (s := s.loaded fd.val e) hS { unlock := true } (by simp) rfl rfl
        (by simp) (.inr hfd)).bind ?_
      rintro ⟨ret2, s2⟩ ⟨lock, h, hl, hok⟩
      simp only at h
      change CounterHeld ok s mem _ s2
      rw [h]
      have hrow : (s.loaded fd.val e).RowOk := calculate_rowOk _
      exact .failed _ _ hverdict ⟨rfl, rfl, rfl, rfl, rfl⟩ (fun _ => hrow.setLock lock) hl
        hok
    rw [if_neg (not_not.mpr hverdict)]
    have hlocked : 0 < (upd (s.loaded fd.val e)).lock := by
      rw [(hupd _).1]
      exact hfd
    obtain ⟨-, hkey, hnamed⟩ := hupd (s.loaded fd.val e)
    have hS' : ¬ Runs cfg uid (upd (s.loaded fd.val e)).named → S := hnamed ▸ hS
    -- only a pending key can stop the store
    cases hold : s.newKey with
    | true =>
      rw [pppStateRelease_newKey (hkey.trans hold) hlocked]
      exact hnew hold
    | false =>
      refine (pppStateRelease_ends hS' _ (by simp) rfl rfl (fun _ => hkey.trans hold)
        (.inr hlocked)).bind ?_
      rintro ⟨ret2, s2⟩ ⟨lock, h, hl, hok⟩
      simp only at h
      change CounterHeld ok s mem ret2 (fin (s.loaded fd.val e) s2)
      rw [h, hfin]
      refine .done ret2 lock e hv ?_ ?_ hok
      · rw [← loaded_setLock s fd.val e lock, verifyRange_setLock]
        exact hrange
      · rcases hl with hl | hl
        · exact .inl hl
        · exact .inr hl

theorem pppIncrement_locks {S : Prop} (hS : ¬ Runs cfg uid s.named → S) (hlock : s.lock = -1)
    (hnew : s.newKey = true → S) :
    Locks uid S (NotHeld s) (fun ok r => CounterHeld ok s id r.1 r.2) (pppIncrement cfg s) := by
  rw [pppIncrement_eq]
  refine counterOp_locks hS hlock hnew (fun _ => ⟨rfl, rfl, rfl⟩) fun fd fd' e => ?_
  rw [id, ← loaded_setLock s fd e fd']
  generalize s.loaded fd e = s1
  rfl

theorem pppSkip_locks {S : Prop} (hS : ¬ Runs cfg uid s.named → S) (hlock : s.lock = -1)
    (hnew : s.newKey = true → S) (skipTo : Num) :
    Locks uid S (NotHeld s) (fun ok r => CounterHeld ok s (skipCounter skipTo) r.1 r.2)
      (pppSkip cfg s skipTo) := by
  rw [pppSkip_eq]
  refine counterOp_locks hS hlock hnew (fun _ => ⟨rfl, rfl, rfl⟩) fun fd fd' e => ?_
  rw [← loaded_setLock s fd e fd']
  generalize s.loaded fd e = s1
  rfl

end

end Otpasswd
