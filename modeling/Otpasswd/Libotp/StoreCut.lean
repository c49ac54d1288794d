import Otpasswd.Libotp.DbMap
import Otpasswd.Libotp.StoreLog

/-!
# Otpasswd.Libotp.StoreCut — a store that loses the line it writes

At a second line of the user the copy ends with the return value still zero,
and what was written so far is closed in the cleanup, where nobody looks at the
result. When this close fails, the database that is renamed into place may end
in the middle of the user's line.

Main result: `dbFileStore_cutShort`.
-/

namespace Otpasswd

open CText Prog

/-- A search for `u` finds a line behind `pre`, and a search from there another
one behind `mid`. -/
def TwoLines (u : CString) (pre mid : List (List Char)) (text : List Char) : Prop :=
  (∀ l ∈ pre, Passed u l) ∧ (∀ l ∈ mid, Passed u l) ∧ ∃ l l' rest, LineOk l ∧
    lineUser l = some u.val ∧ LineOk l' ∧ lineUser l' = some u.val ∧
    text = unlines pre ++ (l ++ '\n' :: (unlines mid ++ (l' ++ '\n' :: rest)))

/-- The database has two lines of the user, and closing the temporary file
fails before all of the new line is on the disk. -/
def CutShort (me : Pid) (cfg : Cfg) (s : State) (w : World) : Prop :=
  ∃ text pre mid tmp w', w.file (dbLoc cfg s.username) = some text ∧
    TwoLines s.username pre mid text ∧
    (.closeTmp (dbLoc cfg s.username) tmp, w') ∈ storeLog me cfg s false w ∧
    w'.next.ok = false ∧ w'.next.fault.getD 0 < (unlines pre ++ dbEntryText s).length

/-- What the log says of the temporary file, and what became of it: it was
closed once, with `text` in its buffer. -/
def ClosedOnce (db : DbLoc) (text : List Char) (w : World × List (Sys × World)) : Prop :=
  ∃ w', (.closeTmp db text, w') ∈ w.2 ∧ (∀ tmp w'', (.closeTmp db tmp, w'') ∈ w.2 → w'' = w') ∧
    w.1.file db = some (if w'.next.ok then text else text.take (w'.next.fault.getD 0))

section

variable {cfg : Cfg} {me : Pid} {s : State} {db : DbLoc} {u : CString}
  {pre mid : List (List Char)} {text : List Char} {line : List Char} {remove : Bool}

/-- A copy that meets two lines. -/
theorem CopyEnd.of_twoLines {r : Option ℕ} {new : List Char} (h : CopyEnd u line remove text r new)
    (htwo : TwoLines u pre mid text) :
    (∃ ret, r = some ret ∧ ret ≠ 0) ∨
      r = some 0 ∧ new = unlines pre ++ storeBody line remove ++ unlines mid := by
  obtain ⟨hpre, hmid, l, l', rest, hl, hu, hl', hu', rfl⟩ := htwo
  have hnl {ls : List (List Char)} (h : ∀ l ∈ ls, Passed u l) : ∀ l ∈ ls, '\n' ∉ l :=
    fun l hl => (h l hl).1.newline
  cases h with
  | failed ret _ hret => exact .inl ⟨ret, rfl, hret⟩
  | appended pre' _ hpre' hold =>
    obtain ⟨post, rfl, -⟩ := unlines_line_split (hnl hpre) hl.newline (hnl hpre') hold.symm
    exact absurd hu (hpre' l (by simp)).2
  | replaced pre' m post _ hpre' hm hmu hpost hold =>
    obtain ⟨-, -, hrest⟩ := unlines_first hpre hl hu hpre' hm hmu hold
    obtain ⟨post', rfl, -⟩ := unlines_line_split (hnl hmid) hl'.newline (hnl hpost) hrest.symm
    exact absurd hu' (hpost l' (by simp)).2
  | duplicate pre' m mid' m' rest' _ hpre' hm hmu hmid' hm' hmu' hold =>
    obtain ⟨rfl, -, hrest⟩ := unlines_first hpre hl hu hpre' hm hmu hold
    obtain ⟨rfl, -, -⟩ := unlines_first hmid hl' hu' hmid' hm' hmu' hrest
    exact .inr ⟨rfl, rfl⟩

/-- The cleanup closes the file, and renames it. -/
theorem dbFileCleanup_closes {w : World × List (Sys × World)} (out : OutFile)
    (hlog : ∀ tmp w', (.closeTmp db tmp, w') ∉ w.2) :
    wp (logged (Sys.exec me)) (dbFileCleanup cfg db 0 (some out))
      (fun r w' => r = some 0 → ClosedOnce db out.text w') w := by
  have hbind : dbFileCleanup cfg db 0 (some out) =
      sys (.closeTmp db out.text) >>= fun _ => dbFileCleanup cfg db 0 none := rfl
  rw [hbind, wp_issue_bind]
  set text := if w.1.next.ok then out.text else out.text.take (w.1.next.fault.getD 0) with htext
  have htmp : (Sys.exec me (.closeTmp db out.text) w.1).2.tmp db = some text := by
    simp only [Sys.exec, htext]
    split
    · simp
    · simp
  have hlogged : (logged (Sys.exec me) (.closeTmp db out.text) w).2 =
      ((Sys.exec me (.closeTmp db out.text) w.1).2, w.2 ++ [(.closeTmp db out.text, w.1)]) := rfl
  rw [hlogged]
  generalize (Sys.exec me (.closeTmp db out.text) w.1).2 = w1 at htmp
  have hissues : (dbFileCleanup cfg db 0 none).Issues fun c => ∀ tmp, c ≠ .closeTmp db tmp := by
    refine issues_call (by simp) fun renamed => ?_
    split
    · exact Issues.bind (dbFilePermissions_issues (by simp) (by simp) (by simp) _ _)
        fun _ => trivial
    · trivial
  refine wp_mono (wp_and (wp_logged (dbFileCleanup_rename me cfg db w1))
    (hissues.wp_log (w1, w.2 ++ [(.closeTmp db out.text, w.1)]))) ?_
  rintro r w2 ⟨hrename, more, hmore, hnone⟩ rfl
  refine ⟨w.1, ?_, ?_, ?_⟩
  · rw [hmore]
    simp
  · intro tmp w3 hmem
    rw [hmore] at hmem
    simp only [List.mem_append, List.mem_singleton, Prod.mk.injEq] at hmem
    rcases hmem with (hmem | ⟨-, rfl⟩) | hmem
    · exact absurd hmem (hlog tmp w3)
    · rfl
    · exact absurd rfl (hnone _ hmem tmp)
  · rcases hrename with ⟨hfile, -, -⟩ | ⟨-, hne⟩
    · rw [hfile, Function.update_self, htmp]
    · exact absurd rfl hne

theorem dbOwnTmp_issues {P : Sys → Prop} (huid : P .geteuid) (hstat : ∀ path, P (.stat path))
    (hchown : P (.chownTmp db)) : (dbOwnTmp cfg db).Issues P := by
  unfold dbOwnTmp
  refine issues_call huid fun uid => ?_
  split
  · trivial
  refine issues_call (hstat _) fun st => ?_
  rcases st with _ | st
  · by_cases hdb : cfg.db ≠ .user
    · simp only [if_pos hdb]
      trivial
    · simp only [if_neg hdb]
      exact ⟨hchown, fun _ _ => trivial⟩
  · exact ⟨hchown, fun _ _ => trivial⟩

/-- The two passes of a store that meets two lines. -/
theorem dbFileWrite_closes (htwo : TwoLines s.username pre mid text)
    {w : World × List (Sys × World)} (hfile : w.1.file db = some text)
    (hlog : ∀ tmp w', (.closeTmp db tmp, w') ∉ w.2) :
    wp (logged (Sys.exec me)) (dbFileWrite cfg db s false) (fun r w' => r = some 0 →
      ClosedOnce db (unlines pre ++ storeBody (dbEntryText s) false ++ unlines mid) w') w := by
  -- before the copy nothing is closed, and every failure is reported
  have herror {ret : ℕ} (hret : ret ≠ 0) (out : Option OutFile) (w' : World × List (Sys × World)) :
      wp (logged (Sys.exec me)) (dbFileCleanup cfg db ret out) (fun r w' => r = some 0 →
        ClosedOnce db (unlines pre ++ storeBody (dbEntryText s) false ++ unlines mid) w') w' :=
    wp_mono (wp_logged (dbFileCleanup_error me cfg db hret out w'.1)) fun _ _ h hr => absurd hr h.2
  rw [dbFileWrite, if_neg (by simp), wp_issue_bind, logged_reply]
  rcases fopenDb_cases me db w.1 with ⟨hnone, -⟩ | hopen | ⟨text', htext, hopen⟩
  · rw [hfile] at hnone
    cases hnone
  · rw [hopen]
    exact herror (by simp) _ _
  rw [hfile] at htext
  obtain rfl := Option.some.inj htext
  rw [hopen]
  simp only [dbFileWrite.dbFileWriteTmp, wp_issue_bind, logged_reply]
  have hlog1 : ∀ tmp w', (.closeTmp db tmp, w') ∉ (logged (Sys.exec me) (.fopenDb db) w).2.2 := by
    simpa [logged] using hlog
  generalize (logged (Sys.exec me) (.fopenDb db) w).2 = w1 at hlog1
  rcases htmp : (Sys.exec me (.fopenTmp db) w1.1).1 with _ | out
  · exact herror (by simp) _ _
  have hout : out.text = [] := by
    simp only [Sys.exec] at htmp
    split at htmp
    · rw [← Option.some.inj htmp]
    · cases htmp
  have hlog2 : ∀ tmp w', (.closeTmp db tmp, w') ∉ (logged (Sys.exec me) (.fopenTmp db) w1).2.2 := by
    simpa [logged] using hlog1
  simp only
  generalize (logged (Sys.exec me) (.fopenTmp db) w1).2 = w2 at hlog2
  refine wp_seq (Issues.wp_log (P := fun c => ∀ tmp, c ≠ .closeTmp db tmp)
    (dbOwnTmp_issues (by simp) (by simp) (by simp)) w2) (fun _ _ hr => absurd hr (by simp)) ?_
  rintro owned w3 ⟨more, hmore, hnone⟩
  by_cases howned : owned = false
  · rw [if_pos howned]
    exact herror (by simp) _ _
  rw [if_neg howned]
  have hcopy := dbFileCopy_cases s false text w.1.next.fault out hout
  -- the copy fails, or ends with no error at the second line
  rcases hcopy.of_twoLines htwo with ⟨ret, hr, hret⟩ | ⟨hr, hnew⟩
  · rcases hres : dbFileCopy s false (some ⟨text, false, w.1.next.fault⟩) out with ⟨r, out'⟩
    rw [hres] at hr
    obtain rfl : r = some ret := hr
    exact herror hret _ _
  · rcases hres : dbFileCopy s false (some ⟨text, false, w.1.next.fault⟩) out with ⟨r, out'⟩
    rw [hres] at hr hnew
    obtain rfl : r = some 0 := hr
    rw [← hnew]
    -- the cleanup closes what was written so far
    refine dbFileCleanup_closes out' fun tmp w' hmem => ?_
    rw [hmore] at hmem
    rcases List.mem_append.mp hmem with hmem | hmem
    · exact hlog2 tmp w' hmem
    · exact hnone _ hmem tmp rfl

/-- A store that meets two lines and succeeds. -/
theorem dbFileStore_closes {w w' : World} {s' : State}
    (hfile : w.file (dbLoc cfg s.username) = some text) (htwo : TwoLines s.username pre mid text)
    (hrun : (dbFileStore cfg s false).run (Sys.exec me) w = (some (0, s'), w')) :
    ClosedOnce (dbLoc cfg s.username) (unlines pre ++ storeBody (dbEntryText s) false ++ unlines mid)
      (w', storeLog me cfg s false w) := by
  have hlog := @wp_storeLog me cfg s false w (ClosedOnce (dbLoc cfg s.username)
    (unlines pre ++ storeBody (dbEntryText s) false ++ unlines mid)) ?_ ?_
  · obtain ⟨hr, hw⟩ := run_logged (h := Sys.exec me) (dbFileStore cfg s false) (w, [])
    unfold wp at hlog
    rw [hr, hrun] at hlog
    have hend := hlog rfl
    rw [hrun] at hw
    unfold storeLog
    rwa [← show ((dbFileStore cfg s false).run (logged (Sys.exec me)) (w, [])).2.1 = w' from hw]
  · rintro w1 w2 more ⟨w3, hmem, honce, hfile⟩ hkeeps hlog haside
    refine ⟨w3, ?_, fun tmp w4 hmem4 => ?_, by rw [hkeeps.file, hfile]⟩
    · rw [hlog]
      exact List.mem_append_left _ hmem
    · rw [hlog] at hmem4
      rcases List.mem_append.mp hmem4 with hmem4 | hmem4
      · exact honce tmp w4 hmem4
      · exact (haside _ hmem4 trivial).elim
  · intro fd w1 hw1 haside
    refine dbFileWrite_closes (s := s.setLock fd) htwo ((congrFun hw1.file _).trans hfile) ?_
    exact fun tmp w2 hmem => haside _ hmem trivial

/-- A store that succeeds has lost the entry that it wrote exactly when it was
cut short. -/
theorem dbFileStore_cutShort {w w' : World} {s' : State} (hu : ReadableName s.username)
    (hv : s.entry.Valid)
    (hrun : (dbFileStore cfg s false).run (Sys.exec me) w = (some (0, s'), w')) :
    dbLookup (w'.file (dbLoc cfg s.username)) s.username ≠ some s.entry ↔ CutShort me cfg s w := by
  obtain ⟨l, htext, hl, hlu, hbody⟩ := dbEntryText_line s hu hv
  -- the line is found where all of it is there, and only there
  have hfinds {pre mid : List (List Char)} {new : List Char}
      (hpre : ∀ l ∈ pre, Passed s.username l)
      (hnew : new <+: unlines pre ++ storeBody (dbEntryText s) false ++ unlines mid) :
      dbLookup (some new) s.username ≠ some s.entry ↔
        new.length < (unlines pre ++ dbEntryText s).length := by
    rw [← not_le, not_iff_not, htext]
    rw [hbody] at hnew
    constructor
    · intro hfound
      obtain ⟨pre', l', rest', hpre', hl', hlu', rfl, -⟩ := dbLookup_some hfound
      obtain ⟨c, hc⟩ := hnew
      have hsplit : unlines pre' ++ (l' ++ '\n' :: (rest' ++ c)) =
          unlines pre ++ (l ++ '\n' :: unlines mid) := by
        simpa using hc
      obtain ⟨rfl, rfl, -⟩ := unlines_first hpre' hl' hlu' hpre hl hlu hsplit
      simp only [List.length_append, List.length_cons, List.length_nil]
      omega
    · intro hle
      have hwhole : unlines pre ++ (l ++ ['\n']) <+: new :=
        List.prefix_of_prefix_length_le (List.prefix_append _ _) hnew hle
      have hfound := dbLookup_storeBody hu hv hpre []
      rw [List.append_nil, hbody] at hfound
      exact dbLookup_prefix hfound hwhole
  obtain ⟨hend, -⟩ := dbFileStore_spec me cfg s false w
  rw [hrun, Option.map_some] at hend
  constructor
  · intro hlost
    cases hend with
    | kept _ hr => exact absurd rfl hr
    | stored new hnew hfile _ _ =>
      rw [hfile, Function.update_self] at hlost
      generalize hold : w.file (dbLoc cfg s.username) = old at hnew
      cases hnew with
      | unlinked _ _ hremove => cases hremove
      | appended _ pre _ hpre _ =>
        have hfound := dbLookup_storeBody hu hv hpre []
        rw [List.append_nil] at hfound
        exact absurd hfound hlost
      | replaced pre _ post _ hpre _ _ _ =>
        exact absurd (dbLookup_storeBody hu hv hpre (unlines post)) hlost
      | duplicate pre m mid m' rest new _ hpre hm hmu hmid hm' hmu' hpref _ =>
        have htwo : TwoLines s.username pre mid _ :=
          ⟨hpre, hmid, m, m', rest, hm, hmu, hm', hmu', rfl⟩
        obtain ⟨w1, hmem, -, hnew⟩ := dbFileStore_closes hold htwo hrun
        have hfile' : w'.file (dbLoc cfg s.username) = some new := by
          rw [show w'.file = _ from hfile, Function.update_self]
        obtain rfl := Option.some.inj (hfile'.symm.trans hnew)
        have hshort := (hfinds hpre hpref).mp hlost
        refine ⟨_, pre, mid, _, w1, hold, htwo, hmem, ?_, ?_⟩
        · by_contra hok
          rw [if_pos (Bool.not_eq_false _ ▸ hok), hbody, ← htext] at hshort
          simp only [List.length_append] at hshort
          omega
        · by_contra hle
          have hok : w1.next.ok ≠ true := by
            intro hok
            rw [if_pos hok, hbody, ← htext] at hshort
            simp only [List.length_append] at hshort
            omega
          rw [if_neg hok, List.length_take, hbody, ← htext] at hshort
          simp only [List.length_append] at hshort hle
          omega
  · rintro ⟨text, pre, mid, tmp, w1, hfile, htwo, hmem, hok, hlt⟩
    obtain ⟨w2, -, honce, hnew⟩ := dbFileStore_closes hfile htwo hrun
    obtain rfl := honce tmp w1 hmem
    rw [hok] at hnew
    rw [hnew]
    refine (hfinds htwo.1 (List.take_prefix _ _)).mpr ?_
    exact (List.length_take_le _ _).trans_lt hlt

end

end Otpasswd
