import Otpasswd.Libotp.DbCalls

/-!
# Otpasswd.Libotp.DbLoadSpec — what a load finds

`dbLookup` is the entry a database holds for a user. A load that succeeds has
read it, whatever the outcome of the calls, and no load changes a file.

Main result: `dbFileLoad_spec`.
-/

namespace Otpasswd

open CText Prog

/-! ## Loading -/

/-- The entry a database holds for a user: that of the first line with the
user's name, if all lines before it are intact. -/
def dbLookup (file : Option (List Char)) (u : CString) : Option Entry :=
  match file with
  | none => none
  | some text =>
    let r := dbFindUserEntry u ⟨text, false, none⟩ none
    if r.ret = 0 then lineEntry r.buff else none

theorem dbLookup_line {u : CString} {pre : List (List Char)} {l rest : List Char}
    (hpre : ∀ l ∈ pre, Passed u l) (hl : LineOk l) (hu : lineUser l = some u.val) :
    dbLookup (some (unlines pre ++ (l ++ '\n' :: rest))) u = lineEntry (l ++ ['\n']) := by
  have h := dbFindUserEntry_found hpre hl hu rest none
  simp only [Option.map_none] at h
  simp [dbLookup, h]

theorem dbLookup_absent {u : CString} {pre : List (List Char)} (hpre : ∀ l ∈ pre, Passed u l) :
    dbLookup (some (unlines pre)) u = none := by
  have h := dbFindUserEntry_absent hpre none
  simp only [Option.map_none] at h
  simp [dbLookup, h]

/-- The line of the user that a search finds, if it finds one, is an entry. -/
def Intact (file : Option (List Char)) (u : CString) : Prop :=
  ∀ pre l rest, (∀ l ∈ pre, Passed u l) → LineOk l → lineUser l = some u.val →
    file = some (unlines pre ++ (l ++ '\n' :: rest)) → (lineEntry (l ++ ['\n'])).isSome = true

theorem Intact.of_lookup {file : Option (List Char)} {u : CString} {e : Entry}
    (h : dbLookup file u = some e) : Intact file u := by
  rintro pre l rest hpre hl hu rfl
  rw [dbLookup_line hpre hl hu] at h
  rw [h, Option.isSome_some]

/-- Unlocked, or locked by a descriptor. -/
def State.LockOk (s : State) : Prop := s.lock = -1 ∨ 0 < s.lock

/-- What a load that fails leaves of a state, field conversions that were made
before the failure aside. -/
structure State.SameUser (s s' : State) : Prop where
  username : s'.username = s.username
  newKey : s'.newKey = s.newKey
  saltMask : s'.saltMask = s.saltMask
  codeMask : s'.codeMask = s.codeMask
  named : s'.named = s.named

theorem State.SameUser.refl (s : State) : s.SameUser s := ⟨rfl, rfl, rfl, rfl, rfl⟩

theorem State.SameUser.trans {s s' s'' : State} (h : s.SameUser s') (h' : s'.SameUser s'') :
    s.SameUser s'' :=
  ⟨h'.1.trans h.1, h'.2.trans h.2, h'.3.trans h.3, h'.4.trans h.4, h'.5.trans h.5⟩

theorem State.sameUser_setLock (s : State) (fd : ℤ) : s.SameUser (s.setLock fd) :=
  ⟨rfl, rfl, rfl, rfl, rfl⟩

theorem State.sameUser_load (s : State) (e : Entry) : s.SameUser (s.load e) :=
  ⟨rfl, rfl, rfl, rfl, rfl⟩

/-- What the conversions of fields never touch. -/
structure State.Beside (s s' : State) : Prop extends s.SameUser s' where
  lock : s'.lock = s.lock
  currentRow : s'.currentRow = s.currentRow

theorem State.Beside.refl (s : State) : s.Beside s := ⟨.refl s, rfl, rfl⟩

theorem State.Beside.trans {s s' s'' : State} (h : s.Beside s') (h' : s'.Beside s'') :
    s.Beside s'' :=
  ⟨h.toSameUser.trans h'.toSameUser, h'.lock.trans h.lock, h'.currentRow.trans h.currentRow⟩

theorem runSteps_beside {fs : List LoadStep} (h : ∀ f ∈ fs, ∀ s, State.Beside s (f s).2)
    (s : State) : State.Beside s (runSteps fs s).2 := by
  induction fs generalizing s with
  | nil => exact .refl s
  | cons f fs ih =>
    obtain ⟨hf, hfs⟩ := List.forall_mem_cons.mp h
    rw [runSteps]
    split_ifs
    · exact (hf s).trans (ih hfs (f s).2)
    · exact hf s

theorem dbLoadFields_beside (field : Fields) (s : State) :
    State.Beside s (dbLoadFields field s).2 := by
  have hscan {α : Type} (v : Option α) (set : α → State → State)
      (h : ∀ v s, State.Beside s (set v s)) (s : State) :
      State.Beside s (scanStep v set s).2 := by
    cases v with
    | none => exact .refl s
    | some v => exact h v s
  have hset (s' s : State) (h1 : s'.username = s.username) (h2 : s'.newKey = s.newKey)
      (h3 : s'.saltMask = s.saltMask) (h4 : s'.codeMask = s.codeMask) (h5 : s'.named = s.named)
      (h6 : s'.lock = s.lock) (h7 : s'.currentRow = s.currentRow) : State.Beside s s' :=
    ⟨⟨h1, h2, h3, h4, h5⟩, h6, h7⟩
  apply runSteps_beside
  simp only [List.forall_mem_cons, List.not_mem_nil, false_imp_iff, implies_true, and_true]
  refine ⟨fun s => hset _ _ rfl rfl rfl rfl rfl rfl rfl, fun s => hset _ _ rfl rfl rfl rfl rfl rfl rfl,
    fun s => hset _ _ rfl rfl rfl rfl rfl rfl rfl,
    hscan _ _ fun v s => hset _ _ rfl rfl rfl rfl rfl rfl rfl,
    hscan _ _ fun v s => hset _ _ rfl rfl rfl rfl rfl rfl rfl,
    hscan _ _ fun v s => hset _ _ rfl rfl rfl rfl rfl rfl rfl,
    hscan _ _ fun v s => hset _ _ rfl rfl rfl rfl rfl rfl rfl,
    hscan _ _ fun v s => hset _ _ rfl rfl rfl rfl rfl rfl rfl,
    hscan _ _ fun v s => hset _ _ rfl rfl rfl rfl rfl rfl rfl, fun s => ?_,
    fun s => hset _ _ rfl rfl rfl rfl rfl rfl rfl, fun s => .refl s, fun s => .refl s,
    fun s => .refl s, fun s => .refl s, fun s => .refl s, fun s => .refl s⟩
  simp only [loadSpass]
  split_ifs
  · exact hset _ _ rfl rfl rfl rfl rfl rfl rfl
  · split <;> exact hset _ _ rfl rfl rfl rfl rfl rfl rfl
  · exact hset _ _ rfl rfl rfl rfl rfl rfl rfl

/-- How a load ends. Only a malformed line leaves anything in the state. -/
inductive LoadEnd (file : Option (List Char)) (s : State) : ℕ → State → Prop where
  | loaded (e : Entry) (h : dbLookup file s.username = some e) : LoadEnd file s 0 (s.load e)
  | failed (ret : ℕ) (s' : State) (hret : LoadError ret) (h : s.SameUser s')
      (hlock : s'.lock = s.lock) (hkept : Intact file s.username → s' = s) :
      LoadEnd file s ret s'

/-- What a search finds, also in a file that may fail, is the user's entry. -/
theorem dbLookup_of_found {u : CString} {f : InFile} (heof : f.eof = false)
    (h : (dbFindUserEntry u f none).ret = 0) :
    dbLookup (some f.rest) u = lineEntry (dbFindUserEntry u f none).buff := by
  obtain ⟨pre, hpre, hend, -⟩ := dbFindUserEntry_cases u f none (by simp [heof])
  cases hend with
  | found l hret hl hu hrest hbuff _ => rw [hbuff, hrest, dbLookup_line hpre hl hu]
  | absent hret => simp [hret] at h
  | error hret => rcases hret with hret | hret <;> simp [hret] at h

/-- A search that fails has read no entry. -/
theorem dbFindUserEntry_loadError (u : CString) {f : InFile} (heof : f.eof = false)
    (h : (dbFindUserEntry u f none).ret ≠ 0) : LoadError (dbFindUserEntry u f none).ret := by
  obtain ⟨pre, hpre, hend, -⟩ := dbFindUserEntry_cases u f none (by simp [heof])
  cases hend with
  | found l hret hl hu hrest hbuff _ => exact absurd hret h
  | absent hret => simp [LoadError, hret]
  | error hret => rcases hret with hret | hret <;> simp [LoadError, hret]

theorem dbFileRead_spec (me : Pid) (db : DbLoc) (s : State) (w : World) :
    wp (Sys.exec me) (dbFileRead db s)
      (fun r w' => w'.Keeps w ∧ ∃ ret s', r = some (ret, s') ∧ LoadEnd (w.file db) s ret s')
      w := by
  have hquiet : (Sys.exec me (.fopenDb db) w).2.Keeps w :=
    exec_keeps (by simp [Sys.Quiet]) me w
  have hfail (file : Option (List Char)) (ret : ℕ) (hret : LoadError ret) :
      LoadEnd file s ret s :=
    .failed ret s hret (.refl s) rfl fun _ => rfl
  rw [dbFileRead, wp_issue_bind]
  rcases fopenDb_cases me db w with ⟨-, hr⟩ | hr | ⟨text, hfile, hr⟩ <;> rw [hr]
  · exact ⟨hquiet, _, s, rfl, hfail _ _ (by simp [LoadError])⟩
  · exact ⟨hquiet, _, s, rfl, hfail _ _ (by simp [LoadError])⟩
  · simp only
    split_ifs with hret
    · exact ⟨hquiet, _, s, rfl, hfail _ _ (dbFindUserEntry_loadError _ rfl hret)⟩
    · have hlookup := dbLookup_of_found (f := ⟨text, false, w.next.fault⟩) rfl (not_not.mp hret)
      simp only at hlookup
      rw [hfile]
      cases hparse : dbParseUserEntry
          (dbFindUserEntry s.username ⟨text, false, w.next.fault⟩ none).buff with
      | none => exact ⟨hquiet, _, s, rfl, hfail _ _ (by simp [LoadError])⟩
      | some field =>
        rw [lineEntry, hparse, Option.bind_some] at hlookup
        have hload := dbLoadFields_eq field s
        refine ⟨hquiet, (dbLoadFields field s).1, (dbLoadFields field s).2, rfl, ?_⟩
        cases hdec : decodeEntry field with
        | none =>
          rw [hdec] at hload hlookup
          simp only at hload
          have h := dbLoadFields_beside field s
          refine .failed _ _ (by rw [hload]; simp [LoadError]) h.toSameUser h.lock fun hintact => ?_
          -- the line that was found is no entry
          obtain ⟨pre, hpre, hend, -⟩ :=
            dbFindUserEntry_cases s.username ⟨text, false, w.next.fault⟩ none (by simp)
          cases hend with
          | found l _ hl hu hrest hbuff _ =>
            have hsome := hintact pre l _ hpre hl hu (congrArg some hrest)
            rw [← hbuff, lineEntry, hparse, Option.bind_some, hdec] at hsome
            cases hsome
          | absent hret' => exact absurd (hret'.symm.trans (not_not.mp hret)) (by simp)
          | error hret' => rcases hret' with h' | h' <;> simp [h'] at hret
        | some e =>
          rw [hdec] at hload hlookup
          simp only at hload
          rw [hload]
          exact .loaded e hlookup

/-- How `db_file_load` ends. A state that came unlocked is unlocked again
after a load that succeeded; after one that failed the lock may be stuck. -/
inductive DbLoadEnd (file : Option (List Char)) (s : State) : ℕ → State → Prop where
  | locked (e : Entry) (hlock : 0 < s.lock) (h : dbLookup file s.username = some e) :
      DbLoadEnd file s 0 (s.load e)
  | unlocked (e : Entry) (hlock : s.lock = -1) (h : dbLookup file s.username = some e) :
      DbLoadEnd file s 0 (s.load e)
  | failed (ret : ℕ) (s' : State) (hret : LoadError ret) (h : s.SameUser s')
      (hheld : 0 < s.lock → s'.lock = s.lock ∧ (Intact file s.username → s' = s))
      (hlock : s.lock = -1 → s'.LockOk) : DbLoadEnd file s ret s'

theorem dbFileLoad_spec (me : Pid) (cfg : Cfg) (s : State) (w : World) :
    wp (Sys.exec me) (dbFileLoad cfg s)
      (fun r w' => w'.Keeps w ∧ (r = none → ¬ (Runs cfg (w.uid me) s.named ∧ s.LockOk ∧ w.AllOk)) ∧
        ∀ ret s', r = some (ret, s') → DbLoadEnd (w.file (dbLoc cfg s.username)) s ret s') w := by
  set file := w.file (dbLoc cfg s.username) with hfile
  set Q : Option (ℕ × State) → World → Prop := fun r w' => w'.Keeps w ∧
    (r = none → ¬ (Runs cfg (w.uid me) s.named ∧ s.LockOk ∧ w.AllOk)) ∧
    ∀ ret s', r = some (ret, s') → DbLoadEnd file s ret s' with hQ
  have hstop {K : Prop} (hK : K → ¬ w.AllOk) (w' : World) (hw : w'.Keeps w)
      (h : ∃ why, Stops (¬ Runs cfg (w.uid me) s.named) K why) : Q none w' :=
    ⟨hw, fun _ h' => (Stops.or h).elim (absurd h'.1) fun hk => hK hk h'.2.2, by simp⟩
  have hret (ret : ℕ) (s' : State) (w' : World) (hw : w'.Keeps w)
      (h : DbLoadEnd file s ret s') : wp (Sys.exec me) (pure (ret, s') : SysM (ℕ × State)) Q w' :=
    ⟨hw, fun h0 => absurd h0 (Option.some_ne_none _), by rintro _ _ ⟨rfl, rfl⟩; exact h⟩
  have hfail (ret : ℕ) (w' : World) (hw : w'.Keeps w) (h : LoadError ret) :
      wp (Sys.exec me) (pure (ret, s) : SysM (ℕ × State)) Q w' :=
    hret ret s w' hw (.failed ret s h (.refl s) (fun _ => ⟨rfl, fun _ => rfl⟩) .inl)
  -- paths and permissions: nothing is loaded yet
  refine wp_quiet_seq (dbPath_meets s.username) Sys.Calm.quiet (.refl w)
    (hstop False.elim) fun r w1 hr hw1 => ?_
  rcases hr with rfl | ⟨ret, rfl, hne, -⟩
  swap
  · exact hfail ret w1 hw1 hne
  refine wp_quiet_seq (dbFilePermissions_sat _ _) Sys.Calm.quiet hw1 (hstop False.elim)
    fun ret w2 hspace hw2 => ?_
  split_ifs with hperm hlock
  · exact hfail ret w2 hw2 ⟨hperm, hspace.1⟩
  · -- the load takes the lock itself
    refine wp_quiet_seq (dbFileLock_sat s) (fun _ h => h) hw2 (fun w3 hw3 h => ?_) ?_
    · refine ⟨hw3, fun _ h' => (Stops.or h).elim (fun hn => hn ⟨h'.1, ?_⟩) id, by simp⟩
      exact h'.2.1.resolve_right (not_lt.mpr hlock)
    rintro ⟨ret, s1⟩ w3 hl hw3
    simp only
    split_ifs with hret0
    · rcases hl with ⟨-, h0, -⟩ | ⟨hne, rfl⟩
      · exact absurd h0 hret0
      · exact hfail ret w3 hw3 hne
    rcases hl with ⟨hunlocked, -, fd, rfl⟩ | ⟨hne, -⟩
    swap
    · exact absurd hne.1 hret0
    -- the entry is read under the lock, and the lock given back whatever was read
    refine wp_seq (dbFileRead_spec me _ _ w3) (fun w4 hw4 => by simp at hw4) ?_
    rintro ⟨ret2, s2⟩ w4 ⟨hw4, ret2', s2', heq, hend⟩
    obtain ⟨rfl, rfl⟩ := Prod.mk.inj (Option.some.inj heq)
    replace hw4 := hw4.trans hw3
    have hnamed : s2.named = s.named := by
      cases hend with
      | loaded => rfl
      | failed _ _ _ hsame => exact hsame.named
    refine wp_quiet_seq (dbFileUnlock_sat s2) Sys.Calm.quiet hw4
      (by rw [hnamed]; exact hstop id) ?_
    rintro ⟨unlocked, s3⟩ w5 hu hw5
    have hfd := fd.property
    have hs2 : s2.lock = fd.val := by
      cases hend with
      | loaded e he => rfl
      | failed _ _ _ _ hl => exact hl
    -- the unlock leaves the lock or resets it
    have hs3 : s2.SameUser s3 ∧ s3.LockOk := by
      rcases hu.1 with ⟨h, -⟩ | ⟨-, h⟩ <;> simp only at h <;> rw [h]
      · exact ⟨.refl _, .inr (by omega)⟩
      · exact ⟨s2.sameUser_setLock _, .inl rfl⟩
    simp only
    refine hret _ _ w5 hw5 ?_
    rw [hw3.file, ← hfile] at hend
    cases hend with
    | loaded e he =>
      split_ifs with hunl
      · exact .failed _ _ (by simp [LoadError])
          (((s.sameUser_setLock _).trans (State.sameUser_load _ e)).trans hs3.1) (by omega)
          fun _ => hs3.2
      · -- the load is that of the file, and the lock is gone
        have hzero : unlocked = 0 := by simpa using hunl
        rcases hu.1 with ⟨-, h⟩ | ⟨-, h⟩
        · have hlt := h hzero
          simp [State.load, State.setLock] at hlt
          omega
        · simp only at h
          have hload : s3 = s.load e := by
            rw [h]
            obtain ⟨⟩ := s
            simp only at hunlocked
            subst hunlocked
            rfl
          rw [hload]
          exact .unlocked e hunlocked he
    | failed _ _ hne hsame _ =>
      rw [if_neg (by simp [hne.1])]
      exact .failed _ _ hne (((s.sameUser_setLock _).trans hsame).trans hs3.1) (by omega)
        fun _ => hs3.2
  · -- the caller holds the lock
    refine wp_mono (dbFileRead_spec me _ s w2) ?_
    rintro r w3 ⟨hw3, ret, s', rfl, hend⟩
    refine ⟨hw3.trans hw2, by simp, ?_⟩
    rintro _ _ ⟨rfl, rfl⟩
    rw [hw2.file, ← hfile] at hend
    cases hend with
    | loaded e he => exact .locked e (by omega) he
    | failed _ _ hne hsame hl hkept =>
      exact .failed _ _ hne hsame (fun _ => ⟨hl, hkept⟩) (by omega)

/-- A load that succeeds loads the entry that the database holds. -/
theorem dbFileLoad_found {me : Pid} {cfg : Cfg} {s s' : State} {w w' : World}
    (h : (dbFileLoad cfg s).run (Sys.exec me) w = (some (0, s'), w')) :
    ∃ e, dbLookup (w.file (dbLoc cfg s.username)) s.username = some e ∧ s' = s.load e := by
  have hload := dbFileLoad_spec me cfg s w
  unfold wp at hload
  rw [h] at hload
  have hend := hload.2.2 _ _ rfl
  generalize hret : (0 : ℕ) = ret at hend
  cases hend with
  | locked e _ he => exact ⟨e, he, rfl⟩
  | unlocked e _ he => exact ⟨e, he, rfl⟩
  | failed _ _ hne => exact absurd hret.symm hne.1

end Otpasswd
