import Otpasswd.Libotp.DbWriter
import Otpasswd.Libotp.StoreLog

/-!
# Otpasswd.Libotp.StoreAtomic — what a store does to the other users

`db_file_store` copies the database line by line, with one return variable for
everything. At a second line of its user it jumps to the cleanup with that
variable still zero, and renames what it has copied so far; a line that did
not fit the buffer is written without its newline.

Main results: `storeAtomic_iff` (when a store leaves the lines of others
alone) and `duplicate_drops_others`.
-/

namespace Otpasswd

open CText Prog

/-! ## Lines of any text -/

/-- The lines of a text; characters after the last newline are one more. -/
def textLines : List Char → List (List Char)
  | [] => []
  | c :: cs =>
    if c = '\n' then [] :: textLines cs
    else
      match textLines cs with
      | [] => [[c]]
      | l :: ls => (c :: l) :: ls

theorem textLines_line {l : List Char} (h : '\n' ∉ l) (rest : List Char) :
    textLines (l ++ '\n' :: rest) = l :: textLines rest := by
  induction l with
  | nil => simp [textLines]
  | cons c l ih =>
    simp only [List.mem_cons, not_or] at h
    rw [List.cons_append, textLines, if_neg (Ne.symm h.1), ih h.2]

theorem textLines_unlines {ls : List (List Char)} (h : ∀ l ∈ ls, '\n' ∉ l) (rest : List Char) :
    textLines (unlines ls ++ rest) = ls ++ textLines rest := by
  induction ls with
  | nil => rfl
  | cons l ls ih =>
    obtain ⟨hl, hls⟩ := List.forall_mem_cons.mp h
    rw [unlines_cons, List.append_assoc, List.cons_append, textLines_line hl, ih hls]
    rfl

/-- Text without a newline is one line, or none. -/
theorem textLines_partial {t : List Char} (h : '\n' ∉ t) :
    textLines t = if t = [] then [] else [t] := by
  induction t with
  | nil => rfl
  | cons c t ih =>
    simp only [List.mem_cons, not_or] at h
    rw [textLines, if_neg (Ne.symm h.1), ih h.2, if_neg (List.cons_ne_nil c t)]
    rcases t with _ | ⟨d, t⟩
    · rfl
    · rfl

/-! ## Whose line it is -/

/-- The line belongs to `u`. -/
def isLineOf (u : CString) (l : List Char) : Bool := lineUser l = some u.val

/-- The line belongs to somebody else. -/
def isOtherLine (u : CString) (l : List Char) : Bool := (lineUser l).any (· ≠ u.val)

/-! ## What a store finds -/

/-- The call is one of these, and fails. -/
def Sys.FailsOnFile : (c : Sys) → c.Reply → Prop
  | .fopenDb _, x => x = .error
  | .fopenTmp _, x => x = none
  | .chownTmp _, x => x = false
  | .closeTmp _ _, x => x = false
  | .renameTmp _, x => x = false
  | _, _ => False

/-- A store with these calls has found no error: none of those on the files
failed, and copying met no malformed line, no second line of the user, no
fault, and an entry that can be generated. -/
structure FindsNothing (me : Pid) (s : State) (remove : Bool) (log : List (Sys × World)) :
    Prop where
  calls : ∀ c w, (c, w) ∈ log → ¬ c.FailsOnFile (c.exec me w).1
  copy : ∀ w f w' out, (.fopenDb .global, w) ∈ log →
    (Sys.exec me (.fopenDb .global) w).1 = .opened f → (.fopenTmp .global, w') ∈ log →
    (Sys.exec me (.fopenTmp .global) w').1 = some out → (dbFileCopy s remove (some f) out).1 = none

/-- What a store of `s` must do to a database with this text. With success it
has found no error, and leaves all lines of other users in their order and at
most one of its own user; otherwise it leaves the text. -/
def StoreAtomic (cfg : Cfg) (s : State) (remove : Bool) (text : List Char) : Prop :=
  ∀ (me : Pid) (w : World) (ret : ℕ) (s' : State), w.file .global = some text →
    ((dbFileStore cfg s remove).run (Sys.exec me) w).1 = some (ret, s') →
    let file := ((dbFileStore cfg s remove).run (Sys.exec me) w).2.file .global
    (ret = 0 → FindsNothing me s remove (storeLog me cfg s remove w) ∧ ∃ new, file = some new ∧
        ((textLines text).filter (isOtherLine s.username)).Sublist (textLines new) ∧
        ((textLines new).filter (isLineOf s.username)).length ≤ 1) ∧
      (ret ≠ 0 → file = some text)

/-- The two ways in which a store that is not refused goes wrong: a second
line of its user is reached, or a line that does not fit the buffer comes in
front of one of somebody else. -/
structure KeepsOthers (s : State) (remove : Bool) (text : List Char) : Prop where
  unique : ∀ pre l mid l' rest, (∀ l ∈ pre, Passed s.username l) → LineOk l →
    lineUser l = some s.username.val → (∀ l ∈ mid, Passed s.username l) → LineOk l' →
    lineUser l' = some s.username.val →
    text ≠ unlines pre ++ (l ++ '\n' :: (unlines mid ++ (l' ++ '\n' :: rest)))
  fits : remove = false → stateEntrySize < (dbEntryText s).length → ∀ pre l x post,
    (∀ l ∈ pre, Passed s.username l) → LineOk l → lineUser l = some s.username.val →
    (∀ l ∈ x :: post, Passed s.username l) →
    text = unlines pre ++ (l ++ '\n' :: unlines (x :: post)) → isOtherLine s.username x = false

theorem Sys.FailsOnFile.onFile {c : Sys} {x : c.Reply} (h : c.FailsOnFile x) : c.OnFile := by
  cases c <;> trivial

theorem FindsNothing.aside {me : Pid} {s : State} {remove : Bool} {log more : List (Sys × World)}
    (h : FindsNothing me s remove log) (haside : Aside more) :
    FindsNothing me s remove (log ++ more) where
  calls c w hmem := (List.mem_append.mp hmem).elim (h.calls c w) fun hmem hfails =>
    haside _ hmem hfails.onFile
  copy w f w' out hmem hdb hmem' htmp := by
    have hleft {c : Sys} {w : World} (hc : c.OnFile) (hmem : (c, w) ∈ log ++ more) : (c, w) ∈ log :=
      (List.mem_append.mp hmem).resolve_right fun hmem => haside _ hmem hc
    exact h.copy w f w' out (hleft trivial hmem) hdb (hleft trivial hmem') htmp

/-- Every time the files were opened the store got these, and nothing failed. -/
structure OpenedAs (me : Pid) (f : InFile) (out : OutFile) (log : List (Sys × World)) : Prop where
  calls : ∀ c w, (c, w) ∈ log → ¬ c.FailsOnFile (c.exec me w).1
  db : ∀ w, (.fopenDb .global, w) ∈ log → (Sys.exec me (.fopenDb .global) w).1 = .opened f
  tmp : ∀ w, (.fopenTmp .global, w) ∈ log → (Sys.exec me (.fopenTmp .global) w).1 = some out

section

variable {me : Pid} {f : InFile} {out : OutFile} {log more : List (Sys × World)} {s : State}
  {remove : Bool} {cfg : Cfg} {w : World}

/-- The two files are opened. -/
theorem OpenedAs.start {w1 : World} (haside : Aside log)
    (hdb : (Sys.exec me (.fopenDb .global) w).1 = .opened f)
    (htmp : (Sys.exec me (.fopenTmp .global) w1).1 = some out) :
    OpenedAs me f out (log ++ [(.fopenDb .global, w)] ++ [(.fopenTmp .global, w1)]) := by
  constructor
  · intro c w2 hmem
    simp only [List.append_assoc, List.mem_append, List.mem_singleton, Prod.mk.injEq] at hmem
    rcases hmem with hmem | ⟨rfl, rfl⟩ | ⟨rfl, rfl⟩
    · exact fun hfails => haside _ hmem hfails.onFile
    · simp only [Sys.FailsOnFile]
      rw [hdb]
      exact OpenReply.noConfusion
    · simp only [Sys.FailsOnFile]
      rw [htmp]
      exact Option.some_ne_none _
  · intro w2 hmem
    simp only [List.append_assoc, List.mem_append, List.mem_singleton, Prod.mk.injEq, reduceCtorEq,
      false_and, or_false, true_and] at hmem
    rcases hmem with hmem | rfl
    · exact (haside _ hmem trivial).elim
    · exact hdb
  · intro w2 hmem
    simp only [List.append_assoc, List.mem_append, List.mem_singleton, Prod.mk.injEq, reduceCtorEq,
      false_and, false_or, true_and] at hmem
    rcases hmem with hmem | rfl
    · exact (haside _ hmem trivial).elim
    · exact htmp

theorem OpenedAs.aside (h : OpenedAs me f out log) (haside : Aside more) :
    OpenedAs me f out (log ++ more) where
  calls c w' hmem := (List.mem_append.mp hmem).elim (h.calls c w') fun hmem hfails =>
    haside _ hmem hfails.onFile
  db w' hmem := (List.mem_append.mp hmem).elim (h.db w') fun hmem => (haside _ hmem trivial).elim
  tmp w' hmem := (List.mem_append.mp hmem).elim (h.tmp w') fun hmem => (haside _ hmem trivial).elim

/-- A call that opens none of the files succeeds. -/
theorem OpenedAs.call (h : OpenedAs me f out log) {c : Sys} (hdb : c ≠ .fopenDb .global)
    (htmp : c ≠ .fopenTmp .global) (hc : ¬ c.FailsOnFile (c.exec me w).1) :
    OpenedAs me f out (log ++ [(c, w)]) := by
  constructor
  · intro c' w' hmem
    rcases List.mem_append.mp hmem with hmem | hmem
    · exact h.calls c' w' hmem
    · obtain ⟨rfl, rfl⟩ := Prod.mk.inj (List.mem_singleton.mp hmem)
      exact hc
  · intro w' hmem
    rcases List.mem_append.mp hmem with hmem | hmem
    · exact h.db w' hmem
    · exact absurd (Prod.mk.inj (List.mem_singleton.mp hmem)).1.symm hdb
  · intro w' hmem
    rcases List.mem_append.mp hmem with hmem | hmem
    · exact h.tmp w' hmem
    · exact absurd (Prod.mk.inj (List.mem_singleton.mp hmem)).1.symm htmp

theorem OpenedAs.finds (h : OpenedAs me f out log)
    (hcopy : (dbFileCopy s remove (some f) out).1 = none) : FindsNothing me s remove log := by
  refine ⟨h.calls, fun w1 f1 w2 out1 hmem1 hdb hmem2 htmp => ?_⟩
  rw [h.db w1 hmem1] at hdb
  rw [h.tmp w2 hmem2] at htmp
  rwa [← OpenReply.opened.inj hdb, ← Option.some.inj htmp]

theorem dbOwnTmp_finds {w : World × List (Sys × World)} (h : OpenedAs me f out w.2) :
    wp (logged (Sys.exec me)) (dbOwnTmp cfg .global)
      (fun r w' => r = some true → OpenedAs me f out w'.2) w := by
  have hcall (c : Sys) (hc : ¬ c.OnFile) (w : World × List (Sys × World))
      (h : OpenedAs me f out w.2) : OpenedAs me f out (logged (Sys.exec me) c w).2.2 :=
    h.aside fun e he => List.mem_singleton.mp he ▸ hc
  have hchown (w : World × List (Sys × World)) (h : OpenedAs me f out w.2) :
      wp (logged (Sys.exec me)) (sys (.chownTmp .global))
        (fun r w' => r = some true → OpenedAs me f out w'.2) w := by
    refine (wp_issue _).mpr fun hr => h.call (by simp) (by simp) ?_
    simp only [Sys.FailsOnFile, Bool.not_eq_false]
    exact Option.some.inj hr
  rw [dbOwnTmp, wp_issue_bind]
  by_cases hroot : (logged (Sys.exec me) .geteuid w).1 ≠ 0
  · rw [if_pos hroot]
    exact fun _ => hcall .geteuid id w h
  rw [if_neg hroot, wp_issue_bind]
  have h2 := hcall (.stat (.db .global)) id _ (hcall .geteuid id w h)
  rcases (logged (Sys.exec me) (.stat (.db .global)) _).1 with _ | st
  · by_cases hdb : cfg.db ≠ .user
    · simp only [if_pos hdb]
      exact fun hr => absurd (Option.some.inj hr) (by simp)
    · simp only [if_neg hdb]
      exact hchown _ h2
  · exact hchown _ h2

/-- The rename, after a copy that found no error. -/
theorem dbFileCleanup_finds {w : World × List (Sys × World)} (h : OpenedAs me f out w.2)
    (hcopy : (dbFileCopy s remove (some f) out).1 = none) :
    wp (logged (Sys.exec me)) (dbFileCleanup cfg .global 0 none)
      (fun r w' => r = some 0 → FindsNothing me s remove w'.2) w := by
  simp only [dbFileCleanup, pure_eq_ret, if_true, wp_issue_bind]
  by_cases hrenamed : (logged (Sys.exec me) (.renameTmp .global) w).1 = true
  · rw [if_pos hrenamed]
    have h2 : OpenedAs me f out (logged (Sys.exec me) (.renameTmp .global) w).2.2 := by
      refine h.call (by simp) (by simp) ?_
      simp only [Sys.FailsOnFile, Bool.not_eq_false]
      exact hrenamed
    refine wp_seq (Issues.wp_log (P := fun c => ¬ c.OnFile)
      (dbFilePermissions_issues id (fun _ => id) (fun _ => id) _ _) _)
      (fun _ _ hr => absurd hr (by simp)) fun _ w' hw' _ => ?_
    obtain ⟨more, hlog, haside⟩ := hw'
    change FindsNothing me s remove w'.2
    rw [hlog]
    exact (h2.aside haside).finds hcopy
  · rw [if_neg hrenamed]
    exact fun hr => absurd (Option.some.inj hr) (by simp)

/-- A store that is given an error reports one. -/
theorem dbFileCleanup_reports {ret : ℕ} (hret : ret ≠ 0) (o : Option OutFile)
    (w : World × List (Sys × World)) :
    wp (logged (Sys.exec me)) (dbFileCleanup cfg .global ret o)
      (fun r w' => r = some 0 → FindsNothing me s remove w'.2) w :=
  wp_mono (wp_logged (dbFileCleanup_error me cfg .global hret o w.1)) fun _ _ h hr =>
    absurd hr h.2

/-- The two passes of a store that reaches no second line of its user. -/
theorem dbFileWrite_finds (hdb : cfg.db = .global) {text : List Char}
    (hunique : ∀ fault out, out.text = [] →
      (dbFileCopy s remove (some ⟨text, false, fault⟩) out).1 ≠ some 0)
    {w : World × List (Sys × World)} (hfile : w.1.file .global = some text) (haside : Aside w.2) :
    wp (logged (Sys.exec me)) (dbFileWrite cfg .global s remove)
      (fun r w' => r = some 0 → FindsNothing me s remove w'.2) w := by
  rw [dbFileWrite, if_neg (by simp [hdb]), wp_issue_bind, logged_reply]
  rcases fopenDb_cases me .global w.1 with ⟨hnone, -⟩ | hopen | ⟨text', htext, hopen⟩
  · rw [hfile] at hnone
    cases hnone
  · rw [hopen]
    exact dbFileCleanup_reports (by simp) _ _
  rw [hfile] at htext
  obtain rfl := Option.some.inj htext
  rw [hopen]
  simp only [dbFileWrite.dbFileWriteTmp, wp_issue_bind, logged_reply]
  set w1 := (logged (Sys.exec me) (.fopenDb .global) w).2
  rcases htmp : (Sys.exec me (.fopenTmp .global) w1.1).1 with _ | out
  · exact dbFileCleanup_reports (by simp) _ _
  have hout : out.text = [] := by
    simp only [Sys.exec] at htmp
    split at htmp
    · rw [← Option.some.inj htmp]
    · cases htmp
  have hopened : OpenedAs me ⟨text, false, w.1.next.fault⟩ out
      (logged (Sys.exec me) (.fopenTmp .global) w1).2.2 := .start haside hopen htmp
  simp only
  refine wp_seq (dbOwnTmp_finds hopened) (fun _ _ hr => absurd hr (by simp)) fun owned w2 h2 => ?_
  by_cases howned : owned = false
  · rw [if_pos howned]
    exact dbFileCleanup_reports (by simp) _ _
  rw [if_neg howned]
  have h2 := h2 (congrArg some (Bool.not_eq_false _ ▸ howned))
  have hne := hunique w.1.next.fault out hout
  rcases hcopy : dbFileCopy s remove (some ⟨text, false, w.1.next.fault⟩) out with ⟨_ | ret, out'⟩
  · -- all of the file was copied
    simp only [wp_issue_bind]
    by_cases hclosed : (logged (Sys.exec me) (.closeTmp .global out'.text) w2).1 = true
    · rw [if_pos hclosed]
      refine dbFileCleanup_finds (h2.call (by simp) (by simp) ?_) (congrArg Prod.fst hcopy)
      simp only [Sys.FailsOnFile, Bool.not_eq_false]
      exact hclosed
    · rw [if_neg hclosed]
      exact dbFileCleanup_reports (by simp) _ _
  · rw [hcopy] at hne
    exact dbFileCleanup_reports (fun h => hne (congrArg some h)) _ _

end

/-! ## What is written -/

/-- What is written for the user is no line, a line, or the beginning of one. -/
inductive BodyShape (line : List Char) (remove : Bool) : List Char → Prop where
  | whole (ls : List (List Char)) (hls : ∀ l ∈ ls, '\n' ∉ l) (hlen : ls.length ≤ 1) :
      BodyShape line remove (unlines ls)
  | cut (body : List Char) (hbody : '\n' ∉ body) (hremove : remove = false)
      (hlong : stateEntrySize < line.length) (hne : body ≠ []) : BodyShape line remove body

/-- A line that does not fit is cut off in front of its newline. -/
theorem storeBody_cut {l : List Char} (hl : '\n' ∉ l)
    (hlong : stateEntrySize < (l ++ ['\n']).length) :
    storeBody (l ++ ['\n']) false = l.take (stateEntrySize - 1) ∧
      '\n' ∉ l.take (stateEntrySize - 1) ∧ l.take (stateEntrySize - 1) ≠ [] := by
  rw [List.length_append, List.length_singleton] at hlong
  refine ⟨?_, fun h => hl (List.mem_of_mem_take h), fun h0 => ?_⟩
  · rw [storeBody, if_neg (by simp), List.take_append_of_le_length (by omega)]
  · have hlen := congrArg List.length h0
    simp only [List.length_take, stateEntrySize, List.length_nil] at hlen hlong
    omega

theorem bodyShape {l : List Char} (hl : '\n' ∉ l) {remove : Bool}
    (hgen : Generates (l ++ ['\n']) remove) :
    BodyShape (l ++ ['\n']) remove (storeBody (l ++ ['\n']) remove) := by
  cases remove with
  | true => exact .whole [] (by simp) (by simp)
  | false =>
    have hne := hgen rfl
    by_cases hlong : stateEntrySize < (l ++ ['\n']).length
    · obtain ⟨hbody, hnl, hne⟩ := storeBody_cut hl hlong
      rw [hbody]
      exact .cut _ hnl rfl hlong hne
    · rw [storeBody, if_neg (by simp), List.take_of_length_le (by omega)]
      have hwhole : BodyShape (l ++ ['\n']) false (unlines [l]) :=
        .whole [l] (by simpa using hl) (by simp)
      simpa using hwhole

theorem filter_passed {u : CString} {ls : List (List Char)} (h : ∀ l ∈ ls, Passed u l) :
    ls.filter (isLineOf u) = [] :=
  List.filter_eq_nil_iff.mpr fun l hl => by simpa [isLineOf] using (h l hl).2

section

variable {u : CString} {line : List Char} {remove : Bool} {pre post : List (List Char)}
  {body : List Char}

/-- The lines of what a copy leaves. -/
theorem textLines_body (hpre : ∀ l ∈ pre, Passed u l) (hpost : ∀ l ∈ post, Passed u l)
    (hbody : BodyShape line remove body) :
    (∃ mid, mid.length ≤ 1 ∧ textLines (unlines pre ++ body ++ unlines post) = pre ++ mid ++ post) ∨
      remove = false ∧ stateEntrySize < line.length ∧ ∃ x post', post = x :: post' ∧
        textLines (unlines pre ++ body ++ unlines post) = pre ++ [body ++ x] ++ post' := by
  have hnl {ls : List (List Char)} (h : ∀ l ∈ ls, Passed u l) : ∀ l ∈ ls, '\n' ∉ l :=
    fun l hl => (h l hl).1.newline
  have hlines (ls : List (List Char)) (h : ∀ l ∈ ls, Passed u l) : textLines (unlines ls) = ls := by
    have := textLines_unlines (hnl h) []
    simpa [textLines] using this
  cases hbody with
  | whole ls hls hlen =>
    refine .inl ⟨ls, hlen, ?_⟩
    rw [List.append_assoc, textLines_unlines (hnl hpre), textLines_unlines hls, hlines post hpost,
      List.append_assoc]
  | cut _ hbody hremove hlong hne =>
    cases post with
    | nil =>
      refine .inl ⟨[body], by simp, ?_⟩
      rw [unlines_nil, List.append_nil, textLines_unlines (hnl hpre), textLines_partial hbody,
        if_neg hne, List.append_nil]
    | cons x post' =>
      obtain ⟨hx, hpost'⟩ := List.forall_mem_cons.mp hpost
      refine .inr ⟨hremove, hlong, x, post', rfl, ?_⟩
      have hmerged : '\n' ∉ body ++ x := by simp [hbody, hx.1.newline]
      rw [unlines_cons, List.append_assoc, textLines_unlines (hnl hpre), ← List.append_assoc,
        textLines_line hmerged, hlines post' hpost']
      simp

/-- A copy leaves at most one line of the user. -/
theorem count_body (hpre : ∀ l ∈ pre, Passed u l) (hpost : ∀ l ∈ post, Passed u l)
    (hbody : BodyShape line remove body) :
    ((textLines (unlines pre ++ body ++ unlines post)).filter (isLineOf u)).length ≤ 1 := by
  rcases textLines_body hpre hpost hbody with ⟨mid, hmid, htext⟩ | ⟨-, -, x, post', rfl, htext⟩
  · rw [htext, List.filter_append, List.filter_append, filter_passed hpre, filter_passed hpost,
      List.nil_append, List.append_nil]
    exact (List.length_filter_le _ _).trans hmid
  · obtain ⟨-, hpost'⟩ := List.forall_mem_cons.mp hpost
    rw [htext, List.filter_append, List.filter_append, filter_passed hpre, filter_passed hpost',
      List.nil_append, List.append_nil]
    exact List.length_filter_le _ _

end

/-- Copying ends with no error, or with a return value that says so, unless a
second line of the user is reached. -/
theorem KeepsOthers.copy {s : State} {remove : Bool} {text : List Char}
    (h : Generates (dbEntryText s) remove → KeepsOthers s remove text) (fault : Option ℕ)
    (out : OutFile) (hout : out.text = []) :
    (dbFileCopy s remove (some ⟨text, false, fault⟩) out).1 ≠ some 0 := by
  intro hzero
  have hcopy := dbFileCopy_cases s remove text fault out hout
  rw [hzero] at hcopy
  generalize (dbFileCopy s remove (some ⟨text, false, fault⟩) out).2.text = new at hcopy
  cases hcopy with
  | failed _ _ hret => exact hret rfl
  | duplicate pre l mid l' rest hgen hpre hl hu hmid hl' hu' hold =>
    exact (h hgen).unique pre l mid l' rest hpre hl hu hmid hl' hu' hold

/-- A store that reports success has found no error, if it reaches no second
line of its user. -/
theorem storeLog_finds {cfg : Cfg} (hcfg : cfg.db = .global) {s s' : State} {remove : Bool}
    {text : List Char} (hkeeps : Generates (dbEntryText s) remove → KeepsOthers s remove text)
    {me : Pid} {w : World} (hfile : w.file .global = some text)
    (hret : ((dbFileStore cfg s remove).run (Sys.exec me) w).1 = some (0, s')) :
    FindsNothing me s remove (storeLog me cfg s remove w) := by
  have hloc : dbLoc cfg s.username = .global := by simp [dbLoc, hcfg]
  have hlog := @wp_storeLog me cfg s remove w (fun w' => FindsNothing me s remove w'.2)
    (fun _ _ _ h _ hlog hmore => hlog ▸ h.aside hmore) ?_
  · unfold wp at hlog
    rw [(run_logged _ _).1, hret] at hlog
    exact hlog rfl
  · intro fd w' hw haside
    rw [hloc]
    have hfinds := @dbFileWrite_finds me (s.setLock fd) remove cfg hcfg text
      (fun fault out hout => KeepsOthers.copy hkeeps fault out hout) w'
      ((congrFun hw.file _).trans hfile) haside
    exact wp_mono hfinds fun _ _ h hr => ⟨(h hr).calls, (h hr).copy⟩

/-- A store that does not lose lines of others by its shape does not lose them
whatever fails. -/
theorem storeAtomic_of_keepsOthers {cfg : Cfg} (hcfg : cfg.db = .global) {s : State}
    {remove : Bool} {text l : List Char} (hl : '\n' ∉ l) (hline : dbEntryText s = l ++ ['\n'])
    (hkeeps : Generates (dbEntryText s) remove → KeepsOthers s remove text) :
    StoreAtomic cfg s remove text := by
  intro me w ret s' hfile hret file
  have hloc : dbLoc cfg s.username = .global := by simp [dbLoc, hcfg]
  obtain ⟨hend, -⟩ := dbFileStore_spec me cfg s remove w
  rw [hret, Option.map_some, hloc] at hend
  cases hend with
  | kept hkept hr =>
    have hsame : file = some text := by
      rw [← hfile]
      exact congrFun hkept.file .global
    exact ⟨fun h0 => absurd (by rw [h0]) hr, fun _ => hsame⟩
  | stored new hnew hfile' _ hr =>
    have h0 : ret = 0 := hr ret rfl
    refine ⟨fun _ => ⟨?_, ?_⟩, fun h => absurd h0 h⟩
    · rw [h0] at hret
      exact storeLog_finds hcfg hkeeps hfile hret
    have hnew' : file = new := by
      change ((dbFileStore cfg s remove).run (Sys.exec me) w).2.file .global = new
      rw [hfile', Function.update_self]
    have hgen := hnew.generates
    have hbody : BodyShape (dbEntryText s) remove (storeBody (dbEntryText s) remove) := by
      rw [hline] at hgen ⊢
      exact bodyShape hl hgen
    obtain ⟨hunique, hfits⟩ := hkeeps hgen
    rw [hnew']
    rw [hfile] at hnew
    have hlines {ls : List (List Char)} (h : ∀ l ∈ ls, Passed s.username l) (rest : List Char) :
        textLines (unlines ls ++ rest) = ls ++ textLines rest :=
      textLines_unlines (fun l hl => (h l hl).1.newline) rest
    -- the way the file was written decides which lines it has
    generalize hold : some text = old at hnew
    cases hnew with
    | unlinked _ hdb _ => simp [hcfg] at hdb
    | appended _ pre _ hpre htext =>
      rw [← hold, Option.getD_some] at htext
      have htext' : text = unlines pre ++ [] := by rw [htext, List.append_nil]
      refine ⟨_, rfl, ?_, ?_⟩
      · rw [htext', hlines hpre, hlines hpre]
        refine (List.filter_sublist).trans ?_
        simp [textLines]
      · have hcount := @count_body _ _ _ pre [] _ hpre (by simp) hbody
        simpa using hcount
    | replaced pre l post _ hpre hl hu hpost =>
      obtain rfl := Option.some.inj hold
      refine ⟨_, rfl, ?_, count_body hpre hpost hbody⟩
      have hother : isOtherLine s.username l = false := by simp [isOtherLine, hu]
      have hpost' : textLines (unlines post) = post := by
        have := hlines hpost []
        simpa [textLines] using this
      rw [hlines hpre, textLines_line hl.newline, hpost', List.filter_append,
        List.filter_cons_of_neg (by simp [hother])]
      rcases textLines_body hpre hpost hbody with
        ⟨mid, -, hnewtext⟩ | ⟨hremove, hlong, x, post', rfl, hnewtext⟩
      · rw [hnewtext, List.append_assoc]
        refine List.Sublist.append List.filter_sublist ?_
        exact List.filter_sublist.trans (List.sublist_append_right _ _)
      · -- the line was cut off and merges with the next, which is nobody else's
        have hx := hfits hremove hlong pre l x post' hpre hl hu hpost rfl
        rw [hnewtext, List.filter_cons_of_neg (by simp [hx]), List.append_assoc]
        refine List.Sublist.append List.filter_sublist ?_
        exact List.filter_sublist.trans (List.sublist_append_right _ _)
    | duplicate pre l mid l' rest new _ hpre hl hu hmid hl' hu' hpref _ =>
      exact (hunique pre l mid l' rest hpre hl hu hmid hl' hu' (Option.some.inj hold)).elim

/-! ## Stores that lose lines -/

/-- A line that is cut off begins with the user's name, when there is already
a line of the user. -/
theorem cut_name {s : State} {line l : List Char} (htext : dbEntryText s = line ++ ['\n'])
    (hl : LineOk l) (hu : lineUser l = some s.username.val) :
    ∃ rest, line.take (stateEntrySize - 1) = s.username.val ++ ':' :: rest := by
  obtain ⟨tail, htail, -⟩ := lineUser_cases hu
  have hjoin : ∃ rest, line = s.username.val ++ ':' :: rest := by
    have hfields : ∃ rest, joinSep ':' (dbEntryFields s).toList = s.username.val ++ ':' :: rest :=
      ⟨_, by rw [Fields.toList, joinSep_cons_cons]; rfl⟩
    obtain ⟨rest, hrest⟩ := hfields
    exact ⟨rest, (List.append_cancel_right htext).symm.trans hrest⟩
  obtain ⟨rest, rfl⟩ := hjoin
  have hlen := hl.length_le
  have hshort := congrArg List.length htail
  rw [List.length_append, List.length_cons] at hshort
  have hsucc : stateEntrySize - 1 - s.username.val.length =
      stateEntrySize - 1 - s.username.val.length - 1 + 1 := by
    simp only [stateEntrySize]
    omega
  refine ⟨rest.take (stateEntrySize - 1 - s.username.val.length - 1), ?_⟩
  rw [List.take_append, List.take_of_length_le (by simp only [stateEntrySize]; omega), hsucc,
    List.take_succ_cons]
  rfl

/-- A line that does not fit swallows the line of somebody else after it. -/
theorem fits_of_storeAtomic {cfg : Cfg} (hcfg : cfg.db = .global) {s : State}
    (hn : s.named = true) (hlock : s.lock = -1 ∨ 0 < s.lock) {text line : List Char} (hline : '\n' ∉ line)
    (htext : dbEntryText s = line ++ ['\n']) (h : StoreAtomic cfg s false text)
    (hlong : stateEntrySize < (dbEntryText s).length) {pre post : List (List Char)}
    {l x : List Char} (hpre : ∀ l ∈ pre, Passed s.username l) (hl : LineOk l)
    (hu : lineUser l = some s.username.val) (hpost : ∀ l ∈ x :: post, Passed s.username l)
    (hold : text = unlines pre ++ (l ++ '\n' :: unlines (x :: post))) :
    isOtherLine s.username x = false := by
  have hloc : dbLoc cfg s.username = .global := by simp [dbLoc, hcfg]
  let w := World.boot (fun _ => some text) fun _ => Outcome.serving cfg
  have hs : w.Serves cfg 0 := World.serving_serves (.inl hcfg) _ 0
  have hcopy : CopyableFile s.username (w.file (dbLoc cfg s.username)) := by
    refine ⟨text, rfl, ?_⟩
    rw [hold]
    exact .once pre l (x :: post) hpre hl hu hpost
  have hgen : Generates (dbEntryText s) false := fun _ h => by omega
  obtain ⟨hr, -⟩ := dbFileStore_ok hs hn (fun _ => rfl) hlock hcopy hgen
  obtain ⟨-, new, hnew, hsub, -⟩ := (h 0 w 0 s rfl hr).1 rfl
  obtain ⟨hend, -⟩ := dbFileStore_spec 0 cfg s false w
  rw [hr, Option.map_some, hloc] at hend
  cases hend with
  | kept _ hr => simp at hr
  | stored new' hnew' hfile' _ _ =>
    have hsome : w.file .global = some (unlines pre ++ (l ++ '\n' :: unlines (x :: post))) := by
      rw [← hold]
      rfl
    rw [hfile', Function.update_self] at hnew
    rw [hsome] at hnew'
    have heq := hnew'.of_once (by simp) hpre hl hu hpost
    rw [hnew] at heq
    obtain rfl := Option.some.inj heq
    obtain ⟨hbody, hnl, -⟩ := storeBody_cut hline (htext ▸ hlong)
    rw [← htext] at hbody
    obtain ⟨hx, hpost'⟩ := List.forall_mem_cons.mp hpost
    have hlines {ls : List (List Char)} (h : ∀ l ∈ ls, Passed s.username l) (rest : List Char) :
        textLines (unlines ls ++ rest) = ls ++ textLines rest :=
      textLines_unlines (fun l hl => (h l hl).1.newline) rest
    have hpost'' : textLines (unlines post) = post := by
      have := hlines hpost' []
      simpa [textLines] using this
    obtain ⟨rest, hrest⟩ := cut_name htext hl hu
    have hcolon : ':' ∉ s.username.val := (lineUser_cases hu).choose_spec.2
    have hmerged : isOtherLine s.username (line.take (stateEntrySize - 1) ++ x) = false := by
      rw [hrest, isOtherLine, lineUser, if_pos (by simp), List.append_assoc, List.cons_append,
        takeWhile_sep hcolon]
      simp
    -- there is no line left for `x`
    by_contra hxo
    rw [Bool.not_eq_false] at hxo
    have hlo : isOtherLine s.username l = false := by simp [isOtherLine, hu]
    have hfit := (hsub.filter (isOtherLine s.username)).length_le
    rw [List.filter_filter] at hfit
    simp only [Bool.and_self] at hfit
    change (List.filter (isOtherLine s.username) (textLines text)).length ≤ _ at hfit
    have hnlx : '\n' ∉ line.take (stateEntrySize - 1) ++ x := by
      rw [List.mem_append, not_or]
      exact ⟨hnl, hx.1.newline⟩
    rw [hbody, hold, List.append_assoc, unlines_cons, ← List.append_assoc (List.take _ _),
      hlines hpre, hlines hpre, textLines_line hl.newline, textLines_line hx.1.newline,
      textLines_line hnlx, hpost'', List.filter_append, List.filter_append,
      List.filter_cons_of_neg (by simp [hlo]), List.filter_cons_of_pos hxo,
      List.filter_cons_of_neg (by rw [hmerged]; simp)] at hfit
    simp only [List.length_append, List.length_cons] at hfit
    omega

/-- A second line of the user is reached: the store ends there with success. -/
theorem not_storeAtomic_twice {cfg : Cfg} (hcfg : cfg.db = .global) {s : State}
    (hn : s.named = true) (hlock : s.lock = -1 ∨ 0 < s.lock) {remove : Bool} {text : List Char}
    (hgen : Generates (dbEntryText s) remove) {pre mid : List (List Char)} {l l' rest : List Char}
    (hpre : ∀ l ∈ pre, Passed s.username l) (hl : LineOk l)
    (hu : lineUser l = some s.username.val) (hmid : ∀ l ∈ mid, Passed s.username l)
    (hl' : LineOk l') (hu' : lineUser l' = some s.username.val)
    (hold : text = unlines pre ++ (l ++ '\n' :: (unlines mid ++ (l' ++ '\n' :: rest)))) :
    ¬ StoreAtomic cfg s remove text := by
  intro h
  have hloc : dbLoc cfg s.username = .global := by simp [dbLoc, hcfg]
  let w := World.boot (fun _ => some text) fun _ => Outcome.serving cfg
  have hs : w.Serves cfg 0 := World.serving_serves (.inl hcfg) _ 0
  have hcopyable : CopyableFile s.username (w.file (dbLoc cfg s.username)) := by
    refine ⟨text, rfl, ?_⟩
    rw [hold]
    exact .twice pre l mid l' rest hpre hl hu hmid hl' hu'
  obtain ⟨hr, -⟩ := dbFileStore_ok hs hn (fun _ => rfl) hlock hcopyable hgen
  obtain ⟨hfinds, -⟩ := (h 0 w 0 s rfl hr).1 rfl
  -- the files that were opened
  have hopens := @wp_storeLog 0 cfg s remove w (fun w' => ∃ w1 w2,
    (.fopenDb .global, w1) ∈ w'.2 ∧
    (Sys.exec 0 (.fopenDb .global) w1).1 = .opened ⟨text, false, none⟩ ∧
    (.fopenTmp .global, w2) ∈ w'.2 ∧ (Sys.exec 0 (.fopenTmp .global) w2).1 = some ⟨[], none⟩) ?_ ?_
  · unfold wp at hopens
    rw [(run_logged _ _).1, hr] at hopens
    obtain ⟨w1, w2, hmem1, hdb, hmem2, htmp⟩ := hopens rfl
    have hnone := hfinds.copy w1 _ w2 _ hmem1 hdb hmem2 htmp
    rw [hold, dbFileCopy_twice hgen hpre hl hu hmid hl' hu'] at hnone
    cases hnone
  · rintro _ w3 more ⟨w1, w2, hmem1, hdb, hmem2, htmp⟩ - hlog -
    rw [hlog]
    exact ⟨w1, w2, List.mem_append_left _ hmem1, hdb, List.mem_append_left _ hmem2, htmp⟩
  · intro fd w' hw haside
    have hs' := hw.serves hs
    have hdb : (Sys.exec 0 (.fopenDb .global) w'.1).1 = .opened ⟨text, false, none⟩ := by
      have hfile : w'.1.file .global = some text := congrFun hw.file _
      simp only [Sys.exec, World.next, hfile, (hs'.outcomes _).ok, (hs'.outcomes _).fault, if_true]
    have htmp (w1 : World) (hs1 : w1.Serves cfg 0) :
        (Sys.exec 0 (.fopenTmp .global) w1).1 = some ⟨[], none⟩ := by
      simp only [Sys.exec, World.next, (hs1.outcomes _).ok, (hs1.outcomes _).fault, if_true]
    rw [hloc, dbFileWrite, if_neg (by simp [hcfg]), wp_issue_bind, logged_reply, hdb]
    simp only [dbFileWrite.dbFileWriteTmp, wp_issue_bind]
    refine wp_mono (wp_log _ _) fun _ w2 hlog _ => ?_
    exact ⟨w'.1, _, hlog.subset (by simp [logged]), hdb, hlog.subset (by simp [logged]), htmp _
      ((exec_keeps (c := .fopenDb .global) trivial 0 w'.1).serves hs')⟩

/-! ## The exact condition -/

/-- A store into the global database keeps what is not its own, or everything
when it fails, exactly when it is refused or its shape keeps the lines of
others. -/
theorem storeAtomic_iff (cfg : Cfg) (hcfg : cfg.db = .global) (s : State)
    (hn : s.named = true) (hlock : s.lock = -1 ∨ 0 < s.lock) (hname : '\n' ∉ s.username.val)
    (hlabel : '\n' ∉ s.label.val) (hcontact : '\n' ∉ s.contact.val) (remove : Bool)
    (text : List Char) :
    StoreAtomic cfg s remove text ↔
      (Generates (dbEntryText s) remove → KeepsOthers s remove text) := by
  have hline : '\n' ∉ joinSep ':' (dbEntryFields s).toList := by
    intro hc
    rcases mem_dbEntryFields s hc with h | h | h | h | ⟨base, hd⟩
    · simp at h
    · exact hname h
    · exact hlabel h
    · exact hcontact h
    · obtain ⟨-, -, -, -, h, -⟩ := digit_plain hd
      exact h rfl
  constructor
  · intro h hgen
    constructor
    · intro pre l mid l' rest hpre hl hu hmid hl' hu' hold
      exact not_storeAtomic_twice hcfg hn hlock hgen hpre hl hu hmid hl' hu' hold h
    · rintro rfl hlong pre l x post hpre hl hu hpost hold
      exact fits_of_storeAtomic hcfg hn hlock hline rfl h hlong hpre hl hu hpost hold
  · exact storeAtomic_of_keepsOthers hcfg hline rfl

theorem storeAtomic_iff_alice :
    let text := "bobby:2222\nalice:0000\ncarol:3333\n".toList
    StoreAtomic configRoot aliceState false text ↔
      (Generates (dbEntryText aliceState) false → KeepsOthers aliceState false text) :=
  storeAtomic_iff configRoot rfl aliceState rfl (.inl rfl) (by decide) (by decide +kernel)
    (by decide +kernel) false "bobby:2222\nalice:0000\ncarol:3333\n".toList

/-- Two lines of alice: a store of hers drops the line of bobby after them and
reports success. -/
theorem duplicate_drops_others :
    ¬ ∀ (cfg : Cfg) (s : State) (remove : Bool) (text : List Char), cfg.db = .global →
      StoreAtomic cfg s remove text := by
  intro h
  let text := "alice:0000\nalice:1111\nbobby:2222\n".toList
  have hatomic := h configRoot aliceState false text rfl
  have hr : ((dbFileStore configRoot aliceState false).run (Sys.exec 0)
      (World.boot (fun _ => some text) fun _ => .good)).1 = some (0, aliceState) := by
    decide +kernel
  have hfile : ((dbFileStore configRoot aliceState false).run (Sys.exec 0)
      (World.boot (fun _ => some text) fun _ => .good)).2.file .global =
        some (dbEntryText aliceState) := by decide +kernel
  obtain ⟨-, new, hnew, hsub, -⟩ := (hatomic 0 _ 0 aliceState rfl hr).1 rfl
  rw [hfile] at hnew
  obtain rfl := Option.some.inj hnew
  have hmem : "bobby:2222".toList ∈ (textLines text).filter (isOtherLine aliceState.username) := by
    decide +kernel
  have hnot : "bobby:2222".toList ∉ textLines (dbEntryText aliceState) := by decide +kernel
  exact hnot (hsub.subset hmem)

end Otpasswd
