import Otpasswd.Libotp.DbLoadSpec

/-!
# Otpasswd.Libotp.DbStoreSpec — what a store leaves

`Stored` relates a database to what a store can leave in its place, for every
world and therefore every outcome of every system call.

Main result: `dbFileStore_spec` (a store that succeeds leaves a `Stored`
database, one that fails leaves the old one).
-/

namespace Otpasswd

open CText Prog

/-! ## Storing -/

/-- What a store writes in place of the user's line: the part of the printed
line that fits the buffer, or nothing. -/
def storeBody (line : List Char) (remove : Bool) : List Char :=
  if remove then [] else line.take (stateEntrySize - 1)

/-- The printed line is not refused. -/
def Generates (line : List Char) (remove : Bool) : Prop :=
  remove = false → line.length ≠ stateEntrySize

theorem dbGenerateUserEntry_ret (s : State) :
    (dbGenerateUserEntry s stateEntrySize).1 =
      if (dbEntryText s).length = stateEntrySize then 1 else 0 := by
  obtain ⟨k, hk, hge, -⟩ := length_dbEntryText s
  have hnot : ¬ (dbEntryText s).length < 10 := by omega
  simp only [dbGenerateUserEntry, hnot, false_or]

/-- The text a copy leaves in the temporary file, by the shape of the old
database. The last case is a second line of the user, at which the copy stops
with the return value still zero. -/
inductive CopyEnd (u : CString) (line : List Char) (remove : Bool) (old : List Char) : Option ℕ → List Char → Prop where
  | failed (ret : ℕ) (text : List Char) (hret : ret ≠ 0) : CopyEnd u line remove old (some ret) text
  | appended (pre : List (List Char)) (hgen : Generates line remove)
      (hpre : ∀ l ∈ pre, Passed u l) (hold : old = unlines pre) :
      CopyEnd u line remove old none (unlines pre ++ storeBody line remove)
  | replaced (pre : List (List Char)) (l : List Char) (post : List (List Char))
      (hgen : Generates line remove) (hpre : ∀ l ∈ pre, Passed u l) (hl : LineOk l)
      (hu : lineUser l = some u.val) (hpost : ∀ l ∈ post, Passed u l)
      (hold : old = unlines pre ++ (l ++ '\n' :: unlines post)) :
      CopyEnd u line remove old none (unlines pre ++ storeBody line remove ++ unlines post)
  | duplicate (pre : List (List Char)) (l : List Char) (mid : List (List Char)) (l' rest : List Char)
      (hgen : Generates line remove) (hpre : ∀ l ∈ pre, Passed u l) (hl : LineOk l)
      (hu : lineUser l = some u.val) (hmid : ∀ l ∈ mid, Passed u l)
      (hl' : LineOk l') (hu' : lineUser l' = some u.val)
      (hold : old = unlines pre ++ (l ++ '\n' :: (unlines mid ++ (l' ++ '\n' :: rest)))) :
      CopyEnd u line remove old (some 0) (unlines pre ++ storeBody line remove ++ unlines mid)

/-- One search with an output file, as the copy runs it. -/
theorem dbCopyUntil_cases (u : CString) (f : InFile) (out : OutFile)
    (heof : f.eof = true → f.rest = []) :
    ∃ pre r, (∀ l ∈ pre, Passed u l) ∧ FindEnd u f r pre ∧
      dbCopyUntil u (some f) out = (r.ret, some r.f, r.out.getD out) ∧
      (r.out.getD out).text = out.text ++ unlines pre := by
  obtain ⟨pre, hpre, hend, hout⟩ := dbFindUserEntry_cases u f (some out) heof
  refine ⟨pre, dbFindUserEntry u f (some out), hpre, hend, rfl, ?_⟩
  cases ho : (dbFindUserEntry u f (some out)).out with
  | none => simp [ho] at hout
  | some o => simpa [ho] using hout

theorem fputs_cases (s : List Char) (f : OutFile) :
    (fputs s f).1 = false ∨ (fputs s f).1 = true ∧ (fputs s f).2.text = f.text ++ s := by
  unfold fputs
  split_ifs
  · exact .inl rfl
  · exact .inr ⟨rfl, rfl⟩

theorem dbWriteEntry_cases (s : State) (remove : Bool) (out : OutFile) :
    (∃ ret, ret ≠ 0 ∧ (dbWriteEntry s remove out).1 = some ret) ∨
      Generates (dbEntryText s) remove ∧ (dbWriteEntry s remove out).1 = none ∧
        (dbWriteEntry s remove out).2.text = out.text ++ storeBody (dbEntryText s) remove := by
  cases remove with
  | true => exact .inr ⟨by simp [Generates], rfl, by simp [dbWriteEntry, storeBody]⟩
  | false =>
    have hret := dbGenerateUserEntry_ret s
    simp only [dbWriteEntry, Bool.false_eq_true, if_false]
    split_ifs with hne
    · exact .inl ⟨_, hne, rfl⟩
    · have hgen : Generates (dbEntryText s) false := by
        intro _ h0
        rw [if_pos h0] at hret
        simp [hret] at hne
      have hputs := fputs_cases (dbGenerateUserEntry s stateEntrySize).2 out
      rcases hf : fputs (dbGenerateUserEntry s stateEntrySize).2 out with ⟨_ | _, out'⟩
      · exact .inl ⟨_, by simp, rfl⟩
      · rw [hf] at hputs
        refine .inr ⟨hgen, rfl, ?_⟩
        simpa [storeBody, dbGenerateUserEntry] using hputs

/-- What the copy leaves in the temporary file, whatever fails. -/
theorem dbFileCopy_cases (s : State) (remove : Bool) (text : List Char) (fault : Option ℕ)
    (out : OutFile) (hout : out.text = []) :
    CopyEnd s.username (dbEntryText s) remove text (dbFileCopy s remove (some ⟨text, false, fault⟩) out).1
      (dbFileCopy s remove (some ⟨text, false, fault⟩) out).2.text := by
  obtain ⟨pre, r, hpre, hend, hcopy, htext⟩ :=
    dbCopyUntil_cases s.username ⟨text, false, fault⟩ out (by simp)
  rw [hout, List.nil_append] at htext
  -- the second search, on what the first one left
  have hrest (f : InFile) (out' : OutFile) (heof : f.eof = true → f.rest = []) :
      ∃ mid r', (∀ l ∈ mid, Passed s.username l) ∧ FindEnd s.username f r' mid ∧
        (dbCopyRest s.username (some f) out').2.text = out'.text ++ unlines mid ∧
        (dbCopyRest s.username (some f) out').1 =
          if r'.ret = 0 then some 0 else if r'.ret ≠ stateNoUserEntry then some stateParseError
            else none := by
    obtain ⟨mid, r', hmid, hend', hcopy', htext'⟩ := dbCopyUntil_cases s.username f out' heof
    refine ⟨mid, r', hmid, hend', ?_, ?_⟩
    · simp only [dbCopyRest, hcopy']
      split_ifs <;> exact htext'
    · simp only [dbCopyRest, hcopy']
      split_ifs <;> rfl
  simp only [dbFileCopy, hcopy]
  split_ifs with herr
  · exact .failed _ _ herr.2
  · rcases dbWriteEntry_cases s remove (r.out.getD out) with ⟨ret, hne, hw⟩ | ⟨hgen, hw, hbody⟩
    · rcases hwe : dbWriteEntry s remove (r.out.getD out) with ⟨ret', out'⟩
      rw [hwe] at hw
      simp only at hw
      subst hw
      exact .failed ret _ hne
    · rcases hwe : dbWriteEntry s remove (r.out.getD out) with ⟨ret', out'⟩
      rw [hwe] at hw hbody
      simp only at hw hbody
      subst hw
      simp only
      rw [htext] at hbody
      cases hend with
      | error hret => rcases hret with hret | hret <;> simp [hret] at herr
      | absent hret hold hfin heof =>
        -- the end of the file was reached: nothing is left to copy
        obtain ⟨mid, r', hmid, hend', htext', hret'⟩ := hrest r.f out' (fun _ => hfin)
        have hloop : dbFindUserEntry s.username r.f (some out') =
            ⟨stateNoUserEntry, [], r.f, some out'⟩ := by
          simp [dbFindUserEntry, dbFindLoop, heof]
        have hfinal : dbCopyRest s.username (some r.f) out' = (none, out') := by
          simp [dbCopyRest, dbCopyUntil, hloop]
        rw [hfinal, hbody]
        exact .appended pre hgen hpre hold
      | found l hret hl hu hold hbuff heof =>
        obtain ⟨mid, r', hmid, hend', htext', hret'⟩ := hrest r.f out' (by simp [heof])
        rw [htext', hret', hbody]
        cases hend' with
        | error hret =>
          have hparse : (if r'.ret = 0 then some 0
              else if r'.ret ≠ stateNoUserEntry then some stateParseError else none) =
              some stateParseError := by
            rcases hret with hret | hret <;> simp [hret]
          rw [hparse]
          exact .failed _ _ (by simp)
        | absent hret2 hold2 _ _ =>
          rw [hret2]
          exact .replaced pre l mid hgen hpre hl hu hmid (by
            rw [← hold2]
            exact hold)
        | found l' hret2 hl' hu' hold2 _ _ =>
          rw [hret2]
          exact .duplicate pre l mid l' r'.f.rest hgen hpre hl hu hmid hl' hu' (by
            rw [← hold2]
            exact hold)

/-- What a store can leave in place of a database. A database of a user of his
own is unlinked as a whole; where the old one has two lines of the user, the
new one ends at the second, or even earlier when calls may fail (`ok` says
that they do not). -/
inductive Stored (cfg : Cfg) (u : CString) (line : List Char) (remove : Bool) (ok : Prop) :
    Option (List Char) → Option (List Char) → Prop where
  | unlinked (old : Option (List Char)) (hcfg : cfg.db = .user) (hremove : remove = true) :
      Stored cfg u line remove ok old none
  | appended (old : Option (List Char)) (pre : List (List Char)) (hgen : Generates line remove)
      (hpre : ∀ l ∈ pre, Passed u l) (hold : old.getD [] = unlines pre) :
      Stored cfg u line remove ok old (some (unlines pre ++ storeBody line remove))
  | replaced (pre : List (List Char)) (l : List Char) (post : List (List Char))
      (hgen : Generates line remove) (hpre : ∀ l ∈ pre, Passed u l) (hl : LineOk l)
      (hu : lineUser l = some u.val) (hpost : ∀ l ∈ post, Passed u l) :
      Stored cfg u line remove ok (some (unlines pre ++ (l ++ '\n' :: unlines post)))
        (some (unlines pre ++ storeBody line remove ++ unlines post))
  | duplicate (pre : List (List Char)) (l : List Char) (mid : List (List Char))
      (l' rest new : List Char) (hgen : Generates line remove) (hpre : ∀ l ∈ pre, Passed u l)
      (hl : LineOk l) (hu : lineUser l = some u.val) (hmid : ∀ l ∈ mid, Passed u l)
      (hl' : LineOk l') (hu' : lineUser l' = some u.val)
      (hnew : new <+: unlines pre ++ storeBody line remove ++ unlines mid)
      (hok : ok → new = unlines pre ++ storeBody line remove ++ unlines mid) :
      Stored cfg u line remove ok
        (some (unlines pre ++ (l ++ '\n' :: (unlines mid ++ (l' ++ '\n' :: rest))))) (some new)

/-- What was stored was not refused. -/
theorem Stored.generates {cfg : Cfg} {u : CString} {line : List Char} {remove : Bool} {ok : Prop}
    {old new : Option (List Char)} (h : Stored cfg u line remove ok old new) :
    Generates line remove := by
  cases h with
  | unlinked _ _ hremove => simp [Generates, hremove]
  | appended _ _ hgen => exact hgen
  | replaced _ _ _ hgen => exact hgen
  | duplicate _ _ _ _ _ _ hgen => exact hgen

/-- How a store of `db` ends: with a new database, or with the old ones and
no success reported. A program that is stopped has done one or the other. -/
inductive WriteEnd (cfg : Cfg) (db : DbLoc) (u : CString) (line : List Char) (remove : Bool)
    (w : World) (r : Option ℕ) (w' : World) : Prop where
  | stored (new : Option (List Char)) (hnew : Stored cfg u line remove w.AllOk (w.file db) new)
      (hfile : w'.file = Function.update w.file db new) (hio : w'.io = w.io)
      (hr : ∀ ret, r = some ret → ret = 0)
  | kept (hkeeps : w'.Keeps w) (hr : r ≠ some 0)

section WriteEnd

variable {cfg : Cfg} {db : DbLoc} {u : CString} {line : List Char} {remove : Bool}
  {w w' w'' : World} {r : Option ℕ}

theorem WriteEnd.of_keeps_left (h : WriteEnd cfg db u line remove w' r w'') (hw' : w'.Keeps w) :
    WriteEnd cfg db u line remove w r w'' := by
  cases h with
  | stored new hnew hfile hio hr =>
    rw [hw'.allOk, hw'.file] at hnew
    exact .stored new hnew (hw'.file ▸ hfile) (hio.trans hw'.io) hr
  | kept hkeeps hr => exact .kept (hkeeps.trans hw') hr

theorem WriteEnd.of_keeps_right (h : WriteEnd cfg db u line remove w r w') (hw' : w''.Keeps w') :
    WriteEnd cfg db u line remove w r w'' := by
  cases h with
  | stored new hnew hfile hio hr =>
    exact .stored new hnew (hw'.file.trans hfile) (hw'.io.trans hio) hr
  | kept hkeeps hr => exact .kept (hw'.trans hkeeps) hr

/-- A store that is stopped after it wrote. -/
theorem WriteEnd.stopped (h : WriteEnd cfg db u line remove w r w') :
    WriteEnd cfg db u line remove w none w' := by
  cases h with
  | stored new hnew hfile hio hr => exact .stored new hnew hfile hio (by simp)
  | kept hkeeps hr => exact .kept hkeeps (by simp)

end WriteEnd

/-- Cleaning up after an error leaves the databases. -/
theorem dbFileCleanup_error (me : Pid) (cfg : Cfg) (db : DbLoc) {ret : ℕ} (hret : ret ≠ 0)
    (out : Option OutFile) (w : World) :
    wp (Sys.exec me) (dbFileCleanup cfg db ret out)
      (fun r w' => w'.Keeps w ∧ r ≠ some 0) w := by
  have hsat : Meets cfg (w.uid me) true w.AllOk Sys.Calm (· = ret) (dbFileCleanup cfg db ret out) := by
    rcases out with _ | o <;> simp [dbFileCleanup, hret, Sys.Calm, Sys.Quiet, Sys.Locking]
  refine wp_mono (wp_quiet hsat Sys.Calm.quiet (.refl w)) fun r w' h => ⟨h.1, ?_⟩
  rintro rfl
  exact hret (h.2.2 0 rfl).symm

/-- Renaming: the temporary file takes the place of the database, or nothing
happens. -/
theorem dbFileCleanup_rename (me : Pid) (cfg : Cfg) (db : DbLoc) (w : World) :
    wp (Sys.exec me) (dbFileCleanup cfg db 0 none)
      (fun r w' => w'.file = Function.update w.file db (w.tmp db) ∧ w'.io = w.io ∧
          (∀ ret, r = some ret → ret = 0) ∨
        w'.Keeps w ∧ r ≠ some 0) w := by
  simp only [dbFileCleanup, pure_eq_ret, if_true, wp_issue_bind]
  by_cases hok : w.next.ok = true ∧ (w.tmp db).isSome = true
  · have hexec : Sys.exec me (.renameTmp db) w = (true, { w with
        tick := w.tick + 1
        file := Function.update w.file db (w.tmp db)
        tmp := Function.update w.tmp db none }) := by
      simp only [Sys.exec, hok, and_self, if_true]
    rw [hexec]
    simp only [if_true]
    refine wp_quiet_seq (@dbFilePermissions_sat cfg _ true _ db none) Sys.Calm.quiet (.refl _)
      (fun w' hw' _ => .inl ⟨hw'.file, hw'.io, by simp⟩) fun _ w' _ hw' =>
        .inl ⟨hw'.file, hw'.io, fun _ h => (Option.some.inj h).symm⟩
  · have hexec : Sys.exec me (.renameTmp db) w = (false, { w with tick := w.tick + 1 }) := by
      simp only [Sys.exec, hok, if_false]
    rw [hexec]
    exact .inr ⟨⟨rfl, rfl, rfl⟩, fun h => absurd (Option.some.inj h) (by simp)⟩

theorem closeTmp_cases (me : Pid) (db : DbLoc) (text : List Char) (w : World) :
    ∃ ok k, (w.AllOk → ok = true) ∧ Sys.exec me (.closeTmp db text) w = (ok, { w with
      tick := w.tick + 1
      tmp := Function.update w.tmp db (some (if ok then text else text.take k)) }) := by
  have hok (h : w.AllOk) : w.next.ok = true := h w.tick
  simp only [Sys.exec]
  revert hok
  cases w.next.ok with
  | true => exact fun _ => ⟨true, 0, fun _ => rfl, rfl⟩
  | false => exact fun hok => ⟨false, w.next.fault.getD 0, hok, rfl⟩

theorem dbFileCopy_none (s : State) (remove : Bool) (out : OutFile) (hout : out.text = []) :
    CopyEnd s.username (dbEntryText s) remove [] (dbFileCopy s remove none out).1 (dbFileCopy s remove none out).2.text := by
  have hne : ¬ (0 ≠ stateNoUserEntry ∧ 0 ≠ 0) := by simp
  simp only [dbFileCopy, dbCopyUntil, hne, if_false]
  rcases hwe : dbWriteEntry s remove out with ⟨ret', out'⟩
  rcases dbWriteEntry_cases s remove out with ⟨ret, hne, hw⟩ | ⟨hgen, hw, hbody⟩
  · rw [hwe] at hw
    simp only at hw
    subst hw
    exact .failed ret _ hne
  · rw [hwe] at hw hbody
    simp only at hw hbody
    subst hw
    simp only [dbCopyRest, hbody, hout]
    exact .appended [] hgen (by simp) rfl

theorem dbOwnTmp_sat (cfg : Cfg) (uid : Uid) (named : Bool) (ok : Prop) (db : DbLoc) :
    Meets cfg uid named ok Sys.Calm (fun _ => True) (dbOwnTmp cfg db) := by
  refine meets_call ⟨trivial, id⟩ fun euid _ => ?_
  by_cases hroot : euid ≠ 0
  · rw [if_pos hroot]
    trivial
  rw [if_neg hroot]
  refine meets_call ⟨trivial, id⟩ fun st _ => ?_
  rcases st with _ | st
  · by_cases hdb : cfg.db ≠ .user
    · simp only [if_pos hdb]
      trivial
    · simp only [if_neg hdb]
      exact ⟨⟨trivial, id⟩, fun _ _ => trivial⟩
  · exact ⟨⟨trivial, id⟩, fun _ _ => trivial⟩

/-- Everything after the database was opened or found missing. -/
theorem dbFileWriteTmp_spec (me : Pid) (cfg : Cfg) (db : DbLoc) (s : State) (remove : Bool)
    (inp : Option InFile) (w : World)
    (hinp : inp = none ∧ w.file db = none ∨
      ∃ text fault, w.file db = some text ∧ inp = some ⟨text, false, fault⟩) :
    wp (Sys.exec me) (dbFileWrite.dbFileWriteTmp cfg db s remove inp)
      (WriteEnd cfg db s.username (dbEntryText s) remove w) w := by
  have herror (ret : ℕ) (hret : ret ≠ 0) (out : Option OutFile) (w' : World)
      (hw' : w'.Keeps w) :
      wp (Sys.exec me) (dbFileCleanup cfg db ret out) (WriteEnd cfg db s.username (dbEntryText s) remove w) w' :=
    wp_mono (dbFileCleanup_error me cfg db hret out w') fun _ _ ⟨h1, h2⟩ => .kept (h1.trans hw') h2
  -- renaming a complete temporary file
  have hrename (text : List Char) (w' : World) (hw' : w'.Keeps w)
      (htmp : w'.tmp db = some text) (h : Stored cfg s.username (dbEntryText s) remove w.AllOk (w.file db) (some text)) :
      wp (Sys.exec me) (dbFileCleanup cfg db 0 none) (WriteEnd cfg db s.username (dbEntryText s) remove w) w' := by
    refine wp_mono (dbFileCleanup_rename me cfg db w') ?_
    rintro r w'' (⟨h1, h2, h3⟩ | ⟨h1, h2⟩)
    · rw [htmp, hw'.file] at h1
      exact .stored _ h h1 (h2.trans hw'.io) h3
    · exact .kept (h1.trans hw') h2
  rw [dbFileWrite.dbFileWriteTmp, wp_issue_bind]
  have hw1 : (Sys.exec me (.fopenTmp db) w).2.Keeps w :=
    exec_keeps (by simp [Sys.Quiet]) me w
  rcases hopen : (Sys.exec me (.fopenTmp db) w).1 with _ | out
  · exact herror _ (by simp) _ _ hw1
  have hout : out.text = [] := by
    simp only [Sys.exec] at hopen
    split at hopen
    · rw [← Option.some.inj hopen]
    · simp at hopen
  refine wp_quiet_seq (dbOwnTmp_sat cfg _ true _ db) Sys.Calm.quiet hw1
    (fun w2 hw2 _ => .kept hw2 (by simp)) fun owned w2 _ hw2 => ?_
  split_ifs
  · exact herror _ (by simp) _ _ hw2
  have hcopy : CopyEnd s.username (dbEntryText s) remove ((w.file db).getD []) (dbFileCopy s remove inp out).1
      (dbFileCopy s remove inp out).2.text := by
    rcases hinp with ⟨rfl, hfile⟩ | ⟨text, fault, hfile, rfl⟩ <;> rw [hfile]
    · exact dbFileCopy_none s remove out hout
    · exact dbFileCopy_cases s remove text fault out hout
  have hsome (text : List Char) (hne : text ≠ []) (h : (w.file db).getD [] = text) :
      w.file db = some text := by
    cases hfile : w.file db with
    | none =>
      rw [hfile] at h
      exact absurd h.symm hne
    | some t =>
      rw [hfile] at h
      exact congrArg some h
  have hne (pre : List (List Char)) (l rest : List Char) : unlines pre ++ (l ++ '\n' :: rest) ≠ [] := by
    simp
  rcases hres : dbFileCopy s remove inp out with ⟨_ | ret, out'⟩ <;> rw [hres] at hcopy <;>
    simp only at hcopy ⊢
  · -- all of the file was copied
    have hstored : Stored cfg s.username (dbEntryText s) remove w.AllOk (w.file db)
        (some out'.text) := by
      generalize out'.text = text at hcopy
      generalize hold' : (w.file db).getD [] = old at hcopy
      cases hcopy with
      | appended pre hgen hpre hold => exact .appended _ pre hgen hpre (hold'.trans hold)
      | replaced pre l post hgen hpre hl hu hpost hold =>
        rw [hsome _ (hne _ _ _) (hold'.trans hold)]
        exact .replaced pre l post hgen hpre hl hu hpost
    rw [wp_issue_bind]
    obtain ⟨ok, k, -, hclose⟩ := closeTmp_cases me db out'.text w2
    rw [hclose]
    cases ok with
    | true => exact hrename out'.text _ ⟨hw2.file, hw2.io, hw2.uid⟩ (by simp) hstored
    | false => exact herror stateIoError (by simp) none _ ⟨hw2.file, hw2.io, hw2.uid⟩
  · generalize htext : out'.text = text at hcopy
    generalize hold' : (w.file db).getD [] = old at hcopy
    cases hcopy with
    | failed _ _ hret => exact herror ret hret _ _ hw2
    | duplicate pre l mid l' rest hgen hpre hl hu hmid hl' hu' hold =>
      -- the return value is still zero: what was copied so far is renamed
      obtain ⟨ok, k, hok, hclose⟩ := closeTmp_cases me db out'.text w2
      have hstored : Stored cfg s.username (dbEntryText s) remove w.AllOk (w.file db)
          (some (if ok then out'.text else out'.text.take k)) := by
        rw [hsome _ (hne _ _ _) (hold'.trans hold)]
        refine .duplicate pre l mid l' rest _ hgen hpre hl hu hmid hl' hu' ?_ fun h => ?_
        · rw [htext]
          split_ifs
          · exact List.prefix_refl _
          · exact List.take_prefix _ _
        · have hw2ok : w2.AllOk := by rwa [World.AllOk, hw2.io]
          rw [hok hw2ok, if_pos rfl, htext]
      have hbind : dbFileCleanup cfg db 0 (some out') =
          sys (.closeTmp db out'.text) >>= fun _ => dbFileCleanup cfg db 0 none := rfl
      rw [hbind, wp_issue_bind, hclose]
      exact hrename _ _ ⟨hw2.file, hw2.io, hw2.uid⟩ (by simp) hstored

/-- Whatever fails: a store under the lock ends with a `Stored` database and
zero, or with the old one. -/
theorem dbFileWrite_spec (me : Pid) (cfg : Cfg) (db : DbLoc) (s : State) (remove : Bool)
    (w : World) :
    wp (Sys.exec me) (dbFileWrite cfg db s remove) (WriteEnd cfg db s.username (dbEntryText s) remove w) w := by
  rw [dbFileWrite]
  split_ifs with hunlink
  · rw [wp_issue_bind]
    by_cases hok : w.next.ok = true ∧ (w.file db).isSome = true
    · have hexec : Sys.exec me (.unlinkDb db) w = (true, { w with
          tick := w.tick + 1
          file := Function.update w.file db none }) := by
        simp only [Sys.exec, hok, and_self, if_true]
      rw [hexec]
      exact .stored none (.unlinked _ hunlink.1 hunlink.2) rfl rfl
        fun _ h => (Option.some.inj h).symm
    · have hexec : Sys.exec me (.unlinkDb db) w = (false, { w with tick := w.tick + 1 }) := by
        simp only [Sys.exec, hok, if_false]
      rw [hexec]
      exact .kept ⟨rfl, rfl, rfl⟩ fun h => absurd (Option.some.inj h) (by simp)
  · have hw1 : (Sys.exec me (.fopenDb db) w).2.Keeps w :=
      exec_keeps (by simp [Sys.Quiet]) me w
    rw [wp_issue_bind]
    rcases fopenDb_cases me db w with ⟨hfile, hr⟩ | hr | ⟨text, hfile, hr⟩ <;> rw [hr]
    · exact wp_mono (dbFileWriteTmp_spec me cfg db s remove none _ (.inl ⟨rfl, hw1.file ▸ hfile⟩))
        fun _ _ h => h.of_keeps_left hw1
    · exact wp_mono (dbFileCleanup_error me cfg db (by simp) none _)
        fun _ _ h => .kept (h.1.trans hw1) h.2
    · exact wp_mono (dbFileWriteTmp_spec me cfg db s remove _ _
        (.inr ⟨text, w.next.fault, hw1.file ▸ hfile, rfl⟩)) fun _ _ h => h.of_keeps_left hw1

/-- A store that is given an unlocked state locks the database itself. -/
theorem dbFileStore_spec (me : Pid) (cfg : Cfg) (s : State) (remove : Bool) (w : World) :
    wp (Sys.exec me) (dbFileStore cfg s remove)
      (fun r w' =>
        WriteEnd cfg (dbLoc cfg s.username) s.username (dbEntryText s) remove w (r.map Prod.fst) w' ∧
          ∀ ret s', r = some (ret, s') → ∃ lock, s' = s.setLock lock ∧ (0 < s.lock → lock = s.lock))
      w := by
  set db := dbLoc cfg s.username
  set Q : Option (ℕ × State) → World → Prop := fun r w' =>
    WriteEnd cfg db s.username (dbEntryText s) remove w (r.map Prod.fst) w' ∧
      ∀ ret s', r = some (ret, s') → ∃ lock, s' = s.setLock lock ∧ (0 < s.lock → lock = s.lock)
  have habort {S : Prop} (w' : World) (hw : w'.Keeps w) (_ : S) : Q none w' :=
    ⟨.kept hw (by simp), by simp⟩
  have hfail (ret : ℕ) (w' : World) (hw : w'.Keeps w) (h : ret ≠ 0) :
      wp (Sys.exec me) (pure (ret, s) : SysM (ℕ × State)) Q w' := by
    refine ⟨.kept hw fun h0 => h (Option.some.inj h0), ?_⟩
    rintro _ _ ⟨rfl, rfl⟩
    exact ⟨s.lock, rfl, fun _ => rfl⟩
  -- the paths, and with no lock held the lock
  refine wp_quiet_seq (dbPath_risks s.username false) Sys.Calm.quiet (.refl w) habort
    fun r w1 hr hw1 => ?_
  rcases hr with rfl | ⟨ret, rfl, hne, -⟩
  swap
  · exact hfail ret w1 hw1 hne.1
  simp only
  split_ifs with hlock
  · refine wp_quiet_seq (dbFileLock_sat s) (fun _ h => h) hw1 habort ?_
    rintro ⟨ret, s1⟩ w2 hl hw2
    simp only
    split_ifs with hret0
    · rcases hl with ⟨-, h0, -⟩ | ⟨-, rfl⟩
      · exact absurd h0 hret0
      · exact hfail ret w2 hw2 hret0
    rcases hl with ⟨hunlocked, -, fd, rfl⟩ | ⟨hne, -⟩
    swap
    · exact absurd hne.1 hret0
    -- under it the file is written
    refine wp_seq (dbFileWrite_spec me cfg db (s.setLock fd.val) remove w2)
      (fun w3 h3 => ⟨h3.of_keeps_left hw2, by simp⟩) fun ret2 w3 h3 => ?_
    have h3 : WriteEnd cfg db s.username (dbEntryText s) remove w (some ret2) w3 :=
      h3.of_keeps_left hw2
    -- giving the lock back does not change what was written
    refine wp_quiet_seq (dbFileUnlock_sat _) Sys.Calm.quiet (.refl w3)
      (fun w4 hw4 _ => ⟨h3.stopped.of_keeps_right hw4, by simp⟩) ?_
    rintro ⟨unlocked, s2⟩ w4 hu hw4
    refine ⟨h3.of_keeps_right hw4, ?_⟩
    rintro _ _ ⟨rfl, rfl⟩
    rcases hu.1 with ⟨h, -⟩ | ⟨-, h⟩ <;> simp only at h <;> rw [h]
    · exact ⟨fd.val, rfl, by omega⟩
    · exact ⟨-1, rfl, by omega⟩
  · -- the caller holds the lock
    refine wp_seq (dbFileWrite_spec me cfg db s remove w1)
      (fun w3 h3 => ⟨h3.of_keeps_left hw1, by simp⟩) fun ret2 w3 h3 => ?_
    refine ⟨h3.of_keeps_left hw1, ?_⟩
    rintro _ _ ⟨rfl, rfl⟩
    exact ⟨s.lock, rfl, fun _ => rfl⟩

end Otpasswd
