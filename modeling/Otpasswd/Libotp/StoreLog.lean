import Otpasswd.Libotp.DbStoreSpec

/-!
# Otpasswd.Libotp.StoreLog — the calls of a store

The calls of `db_file_store` with the worlds they are made in. Those on the
database and on the temporary file are made by its two passes; finding the
path, locking and unlocking make others only.

Main result: `wp_storeLog`.
-/

namespace Otpasswd

open CText Prog

/-- The call is on the database or on the temporary file. -/
def Sys.OnFile : Sys → Prop
  | .fopenDb _ | .fopenTmp _ | .chownTmp _ | .closeTmp _ _ | .renameTmp _ => True
  | _ => False

/-- No call of the log is on the files. -/
def Aside (log : List (Sys × World)) : Prop := ∀ e ∈ log, ¬ e.1.OnFile

/-- The calls of a store, with the worlds they are made in. -/
def storeLog (me : Pid) (cfg : Cfg) (s : State) (remove : Bool) (w : World) : List (Sys × World) :=
  ((dbFileStore cfg s remove).run (logged (Sys.exec me)) (w, [])).2.2

section

variable {me : Pid} {cfg : Cfg} {s : State} {remove : Bool} {w : World}

/-- A program that makes no call on the files and changes no database. -/
theorem wp_quiet_aside {α : Type} {p : SysM α} {P : Sys → Prop} {S : Stop → Prop} {V : α → Prop}
    {w0 : World} (hsat : p.Sat (Sys.Answers (w0.uid me) w0.AllOk) P S V)
    (hP : ∀ c, P c → c.Quiet) (hp : p.Issues fun c => ¬ c.OnFile)
    {w : World × List (Sys × World)} (hw : w.1.Keeps w0) (haside : Aside w.2) :
    wp (logged (Sys.exec me)) p
      (fun r w' => (w'.1.Keeps w0 ∧ Aside w'.2) ∧ ∀ a, r = some a → V a) w := by
  refine wp_mono (wp_and (wp_logged (wp_quiet hsat hP hw)) (hp.wp_log w)) ?_
  rintro r w' ⟨⟨hw', -, hr⟩, more, hlog, hmore⟩
  refine ⟨⟨hw', ?_⟩, hr⟩
  rw [hlog]
  exact fun e he => (List.mem_append.mp he).elim (haside e) (hmore e)

theorem dbPath_onFile (cfg : Cfg) (u : Option CString) (home : Bool) :
    (dbPath cfg u home).Issues fun c => ¬ c.OnFile :=
  dbPath_issues id (fun _ => id) u home

theorem dbFileLock_onFile (cfg : Cfg) (s : State) : (dbFileLock cfg s).Issues fun c => ¬ c.OnFile := by
  refine (sat_assert_bind _).mpr ⟨fun _ => (dbPath_onFile cfg _ true).bind fun r => ?_,
    fun _ => trivial⟩
  rcases r with ret | db
  · trivial
  refine Issues.bind (dbFilePermissions_issues id (fun _ => id) (fun _ => id) _ _) fun ret => ?_
  split_ifs
  · trivial
  · trivial
  refine issues_call id fun fd => ?_
  rcases fd with _ | fd
  · trivial
  have hset (n : ℕ) : (setlkLoop fd n).Issues fun c => ¬ c.OnFile := by
    induction n with
    | zero => trivial
    | succ n ih =>
      refine issues_call id fun granted => ?_
      split_ifs
      · trivial
      · exact ih
  refine Issues.bind (hset 20) fun granted => ?_
  split_ifs
  · trivial
  · exact issues_call id fun _ => trivial

theorem dbFileUnlock_onFile (cfg : Cfg) (s : State) :
    (dbFileUnlock cfg s).Issues fun c => ¬ c.OnFile := by
  refine (dbPath_onFile cfg _ false).bind fun r => ?_
  rcases r with ret | db
  · trivial
  simp only
  split_ifs
  · trivial
  · exact issues_call id fun _ => issues_call id fun _ => issues_call id fun _ => trivial

/-- What holds when the two passes were successful holds after the store. -/
theorem wp_storeLog {Q : World × List (Sys × World) → Prop}
    (hQ : ∀ w1 w2 more, Q w1 → w2.1.Keeps w1.1 → w2.2 = w1.2 ++ more → Aside more → Q w2)
    (hwrite : ∀ (fd : ℤ) (w' : World × List (Sys × World)), w'.1.Keeps w → Aside w'.2 →
      wp (logged (Sys.exec me)) (dbFileWrite cfg (dbLoc cfg s.username) (s.setLock fd) remove)
        (fun r w'' => r = some 0 → Q w'') w') :
    wp (logged (Sys.exec me)) (dbFileStore cfg s remove)
      (fun r w' => r.map Prod.fst = some 0 → Q w') (w, []) := by
  have hstop {P : Prop} : (none : Option ℕ) = some 0 → P := fun h => nomatch h
  have hfail {ret : ℕ} (h : ret ≠ 0) {P : Prop} : some ret = some 0 → P :=
    fun h0 => absurd (Option.some.inj h0) h
  refine wp_seq (wp_quiet_aside (dbPath_risks s.username false) Sys.Calm.quiet (dbPath_onFile _ _ _)
    (.refl w) fun _ h => nomatch h) (fun _ _ => hstop) ?_
  rintro r w1 ⟨⟨hw1, h1⟩, hr⟩
  rcases hr r rfl with rfl | ⟨ret, rfl, hne, -⟩
  swap
  · exact hfail hne.1
  simp only
  by_cases hlock : s.lock ≤ 0
  · rw [if_pos hlock]
    refine wp_seq (wp_quiet_aside (dbFileLock_sat s) (fun _ h => h) (dbFileLock_onFile cfg s)
      hw1 h1) (fun _ _ => hstop) ?_
    rintro ⟨ret, s1⟩ w2 ⟨⟨hw2, h2⟩, hr⟩
    simp only
    by_cases hret : ret ≠ 0
    · rw [if_pos hret]
      exact hfail hret
    rw [if_neg hret]
    rcases hr _ rfl with ⟨-, -, fd, rfl⟩ | ⟨hne, -⟩
    swap
    · exact absurd hne.1 hret
    refine wp_seq (hwrite fd.val w2 hw2 h2) (fun _ _ => hstop) fun ret w3 h3 => ?_
    refine wp_seq (wp_and (wp_logged (wp_quiet (dbFileUnlock_sat _) Sys.Calm.quiet (.refl w3.1)))
      ((dbFileUnlock_onFile cfg _).wp_log w3)) (fun _ _ => hstop) ?_
    rintro ⟨_, s2⟩ w4 ⟨⟨hw4, -⟩, more, hlog, hmore⟩ hret
    exact hQ w3 w4 more (h3 hret) hw4 hlog hmore
  · rw [if_neg hlock]
    exact wp_seq (hwrite s.lock w1 hw1 h1) (fun _ _ => hstop) fun ret w3 h3 => h3

end

end Otpasswd
