import Otpasswd.Libotp.EntryText

/-!
# Otpasswd.Libotp.Lines — finding a user's line

`_db_find_user_entry` reads a file line by line up to the line of a user, and
copies what it passes. The file says what the loop does in terms of lines:
`dbFindUserEntry_cases` splits the text it has read into the lines it passed
and the one it stopped at, for every file and every failing call, and
`dbFindUserEntry_found`, `dbFindUserEntry_absent` are its result on a file
that can be read.
-/

namespace Otpasswd

open CText

/-! ## The loop -/

/-- The checks on a line in the buffer: it is complete and has at least ten
characters. (For an empty string the source looks in front of the buffer, and
fails with the same code whatever is there.) -/
def lineCheck (buff : List Char) : Bool :=
  (cstr buff).getLast? = some '\n' ∧ 10 ≤ (cstr buff).length

/-- The comparison of the first field with the user's name. -/
def lineIs (username : CString) (buff : List Char) : Bool :=
  ':' ∈ cstr buff ∧ (cstr buff).takeWhile (· ≠ ':') = username.val

/-- The result of `_db_find_user_entry`, with what it leaves in the buffer and
in the two files. -/
structure FindResult where
  ret : ℕ
  buff : List Char
  f : InFile
  out : Option OutFile

/-- The `while` loop; `n` bounds the number of lines. -/
def dbFindLoop (username : CString) : ℕ → InFile → Option OutFile → FindResult
  | 0, f, out => ⟨stateIoError, [], f, out⟩
  | n + 1, f, out =>
    if f.eof then ⟨stateNoUserEntry, [], f, out⟩
    else
      match fgets stateEntrySize f with
      | (none, f) => ⟨if f.eof then stateNoUserEntry else stateIoError, [], f, out⟩
      | (some buff, f) =>
        if lineCheck buff = false then ⟨stateParseError, buff, f, out⟩
        else if lineIs username buff then ⟨0, buff, f, out⟩
        else
          match out with
          | none => dbFindLoop username n f none
          | some o =>
            match fputs (cstr buff) o with
            | (true, o) => dbFindLoop username n f (some o)
            | (false, o) => ⟨stateIoError, buff, f, some o⟩

/-- `_db_find_user_entry`. Every iteration reads a character, so the bound on
the loop is never reached. -/
def dbFindUserEntry (username : CString) (f : InFile) (out : Option OutFile) : FindResult :=
  dbFindLoop username (f.rest.length + 1) f out

/-! ## Lines -/

/-- A line without its newline that the reader accepts. -/
structure LineOk (l : List Char) : Prop where
  newline : '\n' ∉ l
  nul : '\x00' ∉ l
  length_ge : 9 ≤ l.length
  length_le : l.length ≤ 510

instance (l : List Char) : Decidable (LineOk l) :=
  decidable_of_iff ('\n' ∉ l ∧ '\x00' ∉ l ∧ 9 ≤ l.length ∧ l.length ≤ 510)
    ⟨fun ⟨h1, h2, h3, h4⟩ => ⟨h1, h2, h3, h4⟩, fun ⟨h1, h2, h3, h4⟩ => ⟨h1, h2, h3, h4⟩⟩

/-- The first field of a line, if it has a separator. -/
def lineUser (l : List Char) : Option (List Char) :=
  if ':' ∈ l then some (l.takeWhile (· ≠ ':')) else none

theorem lineUser_cases {l u : List Char} (h : lineUser l = some u) :
    ∃ rest, l = u ++ ':' :: rest ∧ ':' ∉ u := by
  rw [lineUser] at h
  split_ifs at h with hc
  have hu : l.takeWhile (· ≠ ':') = u := Option.some.inj h
  have hmem : ':' ∉ u := by
    intro h0
    rw [← hu] at h0
    simpa using List.mem_takeWhile_imp h0
  obtain ⟨rest, hrest⟩ := eq_takeWhile_append hc
  rw [hu] at hrest
  exact ⟨rest, hrest, hmem⟩

/-- Lines, each with its newline. -/
def unlines (ls : List (List Char)) : List Char := ls.flatMap (· ++ ['\n'])

@[simp] theorem unlines_nil : unlines [] = [] := rfl

@[simp] theorem unlines_cons (l : List Char) (ls : List (List Char)) :
    unlines (l :: ls) = l ++ '\n' :: unlines ls := by
  simp [unlines]

theorem unlines_append (ls ls' : List (List Char)) :
    unlines (ls ++ ls') = unlines ls ++ unlines ls' := by
  simp [unlines]

/-- Lines without newlines can be told from their text. -/
theorem unlines_split {pre ls : List (List Char)} {rest : List Char}
    (hpre : ∀ l ∈ pre, '\n' ∉ l) (hls : ∀ l ∈ ls, '\n' ∉ l) (h : unlines ls = unlines pre ++ rest) :
    ∃ post, ls = pre ++ post ∧ rest = unlines post := by
  induction pre generalizing ls with
  | nil => exact ⟨ls, rfl, by simpa using h.symm⟩
  | cons l pre ih =>
    obtain ⟨hl, hpre⟩ := List.forall_mem_cons.mp hpre
    cases ls with
    | nil => simp at h
    | cons l' ls =>
      obtain ⟨hl', hls⟩ := List.forall_mem_cons.mp hls
      simp only [unlines_cons, List.append_assoc, List.cons_append] at h
      -- the first newline ends the first line on both sides
      have htake := congrArg (List.takeWhile (· ≠ '\n')) h
      have hdrop := congrArg (List.dropWhile (· ≠ '\n')) h
      rw [takeWhile_sep hl, takeWhile_sep hl'] at htake
      rw [dropWhile_sep hl, dropWhile_sep hl'] at hdrop
      obtain ⟨post, rfl, hrest⟩ := ih hpre hls (List.cons.inj hdrop).2
      exact ⟨post, by rw [htake]; rfl, hrest⟩

theorem unlines_line_split {pre ls : List (List Char)} {l rest : List Char}
    (hpre : ∀ l ∈ pre, '\n' ∉ l) (hl : '\n' ∉ l) (hls : ∀ l ∈ ls, '\n' ∉ l)
    (h : unlines ls = unlines pre ++ (l ++ '\n' :: rest)) :
    ∃ post, ls = pre ++ l :: post ∧ rest = unlines post := by
  have h' : unlines ls = unlines (pre ++ [l]) ++ rest := by
    rw [h, unlines_append]
    simp
  have hpre' : ∀ l' ∈ pre ++ [l], '\n' ∉ l' := by
    intro l' hl'
    rcases List.mem_append.mp hl' with hl' | hl'
    · exact hpre l' hl'
    · rw [List.mem_singleton.mp hl']
      exact hl
  obtain ⟨post, rfl, hrest⟩ := unlines_split hpre' hls h'
  exact ⟨post, by simp, hrest⟩

/-- The loop passes this line on its way to `u`. -/
def Passed (u : CString) (l : List Char) : Prop := LineOk l ∧ lineUser l ≠ some u.val

/-- There is one way to take a text apart at the first line of `u`. -/
theorem unlines_first {u : CString} {pre pre' : List (List Char)} {l l' rest rest' : List Char}
    (hpre : ∀ m ∈ pre, Passed u m) (hl : LineOk l) (hu : lineUser l = some u.val)
    (hpre' : ∀ m ∈ pre', Passed u m) (hl' : LineOk l') (hu' : lineUser l' = some u.val)
    (h : unlines pre ++ (l ++ '\n' :: rest) = unlines pre' ++ (l' ++ '\n' :: rest')) :
    pre = pre' ∧ l = l' ∧ rest = rest' := by
  -- the texts begin with the same line
  have hhead {m m' : List Char} {t t' : List Char} (hm : LineOk m) (hm' : LineOk m')
      (h : m ++ '\n' :: t = m' ++ '\n' :: t') : m = m' ∧ t = t' := by
    have htake := congrArg (List.takeWhile (· ≠ '\n')) h
    have hdrop := congrArg (List.dropWhile (· ≠ '\n')) h
    rw [takeWhile_sep hm.newline, takeWhile_sep hm'.newline] at htake
    rw [dropWhile_sep hm.newline, dropWhile_sep hm'.newline] at hdrop
    exact ⟨htake, (List.cons.inj hdrop).2⟩
  induction pre generalizing pre' with
  | nil =>
    cases pre' with
    | nil => exact ⟨rfl, hhead hl hl' h⟩
    | cons m pre' =>
      obtain ⟨hm, -⟩ := List.forall_mem_cons.mp hpre'
      rw [unlines_cons, List.append_assoc, List.cons_append] at h
      obtain ⟨rfl, -⟩ := hhead hl hm.1 h
      exact absurd hu hm.2
  | cons m pre ih =>
    obtain ⟨hm, hpre⟩ := List.forall_mem_cons.mp hpre
    rw [unlines_cons, List.append_assoc, List.cons_append] at h
    cases pre' with
    | nil =>
      obtain ⟨rfl, -⟩ := hhead hm.1 hl' h
      exact absurd hu' hm.2
    | cons m' pre' =>
      obtain ⟨hm', hpre''⟩ := List.forall_mem_cons.mp hpre'
      rw [unlines_cons, List.append_assoc, List.cons_append] at h
      obtain ⟨rfl, htail⟩ := hhead hm.1 hm'.1 h
      obtain ⟨rfl, h1, h2⟩ := ih hpre hpre'' htail
      exact ⟨rfl, h1, h2⟩

theorem cstr_line {l : List Char} (h : LineOk l) : cstr (l ++ ['\n']) = l ++ ['\n'] :=
  cstr_eq_self (by simp [h.nul])

theorem lineCheck_line {l : List Char} (h : LineOk l) : lineCheck (l ++ ['\n']) = true := by
  have := h.length_ge
  rw [lineCheck, cstr_line h]
  simpa using this

theorem lineIs_line (u : CString) {l : List Char} (h : LineOk l) :
    lineIs u (l ++ ['\n']) = true ↔ lineUser l = some u.val := by
  rw [lineIs, cstr_line h, lineUser]
  by_cases hc : ':' ∈ l
  · have htake : (l ++ ['\n']).takeWhile (· ≠ ':') = l.takeWhile (· ≠ ':') := by
      rw [List.takeWhile_append, if_neg]
      intro hlen
      have hall := List.takeWhile_eq_self_iff.mp
        (( List.takeWhile_prefix (p := fun c => decide (c ≠ ':')) (l := l)).eq_of_length hlen)
      simpa using hall _ hc
    rw [htake]
    simp [hc]
  · simp [hc]

/-- What `fgets` returns and the checks accept is a line. -/
theorem fgets_lineCheck {f f' : InFile} {buff : List Char}
    (h : fgets stateEntrySize f = (some buff, f')) (hc : lineCheck buff = true) :
    ∃ l, buff = l ++ ['\n'] ∧ LineOk l ∧ f.rest = l ++ '\n' :: f'.rest ∧ f'.eof = f.eof := by
  unfold fgets at h
  split at h
  · simp at h
  simp only at h
  split at h
  · simp at h
  obtain ⟨hbuff, hf'⟩ := Prod.mk.inj h
  simp only [Option.some.injEq] at hbuff
  simp only [lineCheck, Bool.decide_and, Bool.and_eq_true, decide_eq_true_eq] at hc
  obtain ⟨hlast, hlen⟩ := hc
  have hmem : '\n' ∈ cstr buff := List.mem_of_getLast? hlast
  have hinit : cstr buff <+: buff := List.takeWhile_prefix _
  by_cases hend : (lineSplit (stateEntrySize - 1) f.rest).1.getLast? = some '\n'
  · obtain ⟨l, hl, hline⟩ := lineSplit_newline _ _ hend
    have hbl : buff = l ++ ['\n'] := by rw [← hbuff, hline]
    -- the newline is the last character, so the string is the whole buffer
    have hwhole : cstr buff = buff := by
      rw [hbl, List.prefix_concat_iff] at hinit
      rcases hinit with heq | hpre
      · rw [hbl, heq]
      · rw [← hbl] at hpre
        exact absurd (hpre.subset hmem) hl
    have hle := lineSplit_length_le (stateEntrySize - 1) f.rest
    have happ := lineSplit_append (stateEntrySize - 1) f.rest
    have hnul : '\x00' ∉ l := by
      intro h0
      have := nul_not_mem_cstr buff
      rw [hwhole, hbl] at this
      exact this (by simp [h0])
    rw [hwhole, hbl, List.length_append, List.length_singleton] at hlen
    rw [hline, List.length_append, List.length_singleton] at hle
    refine ⟨l, hbl, ⟨hl, hnul, by omega, by simp at hle; omega⟩, ?_, ?_⟩
    · rw [← happ, hline, ← hf']
      simp
    · rw [← hf', hend]
      simp
  · have hno := lineSplit_no_newline _ _ hend
    rw [hbuff] at hno
    exact absurd (hinit.subset hmem) hno

theorem fgets_none_eof {f f' : InFile} {size : ℕ} (hsize : 1 < size)
    (h : fgets size f = (none, f')) (heof : f.eof = false) (heof' : f'.eof = true) :
    f.rest = [] ∧ f'.rest = [] := by
  unfold fgets at h
  split at h
  · obtain ⟨-, rfl⟩ := Prod.mk.inj h
    simp [heof] at heof'
  simp only at h
  split at h
  · rename_i hline
    obtain ⟨-, rfl⟩ := Prod.mk.inj h
    have hrest : f.rest = [] := by
      obtain ⟨n, hn⟩ : ∃ n, size - 1 = n + 1 := ⟨size - 2, by omega⟩
      rw [hn] at hline
      cases hr : f.rest with
      | nil => rfl
      | cons c s =>
        rw [hr, lineSplit] at hline
        split at hline <;> simp at hline
    exact ⟨hrest, hrest⟩
  · simp at h

/-! ## What the loop does -/

/-- How a search ends: at a line of the user, at the end of the file, or with
an error. `pre` are the lines it passed. -/
inductive FindEnd (u : CString) (f : InFile) (r : FindResult) (pre : List (List Char)) : Prop where
  | found (l : List Char) (hret : r.ret = 0) (hl : LineOk l) (hu : lineUser l = some u.val)
      (hrest : f.rest = unlines pre ++ (l ++ '\n' :: r.f.rest)) (hbuff : r.buff = l ++ ['\n'])
      (heof : r.f.eof = false)
  | absent (hret : r.ret = stateNoUserEntry) (hrest : f.rest = unlines pre)
      (hend : r.f.rest = []) (heof : r.f.eof = true)
  | error (hret : r.ret = stateParseError ∨ r.ret = stateIoError)

/-- Whatever the file holds and whichever call fails: the search passes lines
of others, copies just these, and ends in one of three ways. -/
theorem dbFindLoop_cases (u : CString) (n : ℕ) (f : InFile) (out : Option OutFile)
    (heof : f.eof = true → f.rest = []) :
    ∃ pre, (∀ l ∈ pre, Passed u l) ∧ FindEnd u f (dbFindLoop u n f out) pre ∧
      (dbFindLoop u n f out).out.map OutFile.text = out.map fun o => o.text ++ unlines pre := by
  induction n generalizing f out with
  | zero => exact ⟨[], by simp, .error (.inr rfl), by simp [dbFindLoop]⟩
  | succ n ih =>
    rw [dbFindLoop]
    cases he : f.eof with
    | true => exact ⟨[], by simp, .absent rfl (heof he) (heof he) he, by simp⟩
    | false =>
      simp only [Bool.false_eq_true, if_false]
      rcases hg : fgets stateEntrySize f with ⟨_ | buff, f'⟩
      · -- NULL: the end of the file, or a read error
        refine ⟨[], by simp, ?_, by simp⟩
        cases he' : f'.eof with
        | true =>
          obtain ⟨h1, h2⟩ := fgets_none_eof (by simp) hg he he'
          exact .absent (by simp [he']) h1 h2 he'
        | false => exact .error (.inr (by simp [he']))
      · simp only
        cases hc : lineCheck buff with
        | false => exact ⟨[], by simp, .error (.inl rfl), by simp⟩
        | true =>
          obtain ⟨l, hbuff, hl, hrest, hfe⟩ := fgets_lineCheck hg hc
          simp only [Bool.true_eq_false, if_false]
          by_cases hu : lineIs u buff = true
          · have hu' := (lineIs_line u hl).mp (hbuff ▸ hu)
            rw [if_pos hu]
            exact ⟨[], by simp, .found l rfl hl hu' hrest hbuff (hfe.trans he), by simp⟩
          · have hp : Passed u l := ⟨hl, fun h => hu (hbuff ▸ (lineIs_line u hl).mpr h)⟩
            rw [if_neg hu]
            -- the line is passed; the rest is the loop on what follows it
            have hcons (r : FindResult) (pre : List (List Char)) (h : FindEnd u f' r pre) :
                FindEnd u f r (l :: pre) := by
              cases h with
              | found l' hret hl' hu' hr hb hfin =>
                exact .found l' hret hl' hu' (by rw [hrest, hr]; simp) hb hfin
              | absent hret hr hend hfin => exact .absent hret (by rw [hrest, hr]; simp) hend hfin
              | error hret => exact .error hret
            have heof' : f'.eof = true → f'.rest = [] := by simp [hfe, he]
            rcases out with _ | o
            · obtain ⟨pre, h1, h2, h3⟩ := ih f' none heof'
              exact ⟨l :: pre, List.forall_mem_cons.mpr ⟨hp, h1⟩, hcons _ _ h2, by simpa using h3⟩
            · have hcs : cstr buff = buff := hbuff ▸ cstr_line hl
              simp only [hcs, fputs]
              split
              · rename_i o' ho'
                split at ho'
                · simp at ho'
                · obtain ⟨-, rfl⟩ := Prod.mk.inj ho'
                  obtain ⟨pre, h1, h2, h3⟩ := ih f' (some _) heof'
                  refine ⟨l :: pre, List.forall_mem_cons.mpr ⟨hp, h1⟩, hcons _ _ h2, ?_⟩
                  rw [h3, hbuff]
                  simp
              · rename_i o' ho'
                split at ho'
                · obtain ⟨-, rfl⟩ := Prod.mk.inj ho'
                  exact ⟨[], by simp, .error (.inr rfl), by simp⟩
                · simp at ho'

theorem dbFindUserEntry_cases (u : CString) (f : InFile) (out : Option OutFile)
    (heof : f.eof = true → f.rest = []) :
    ∃ pre, (∀ l ∈ pre, Passed u l) ∧ FindEnd u f (dbFindUserEntry u f out) pre ∧
      (dbFindUserEntry u f out).out.map OutFile.text = out.map fun o => o.text ++ unlines pre :=
  dbFindLoop_cases u _ f out heof

/-! ## The result on readable files -/

/-- Passing one line. -/
theorem dbFindLoop_passed {u : CString} {l : List Char} (h : Passed u l) (n : ℕ)
    (rest : List Char) (out : Option (List Char)) :
    dbFindLoop u (n + 1) ⟨l ++ '\n' :: rest, false, none⟩ (out.map (⟨·, none⟩)) =
      dbFindLoop u n ⟨rest, false, none⟩ (out.map fun t => ⟨t ++ (l ++ ['\n']), none⟩) := by
  have hlen := h.1.length_le
  have hg := @fgets_line stateEntrySize ⟨l ++ '\n' :: rest, false, none⟩ l rest (by simp)
    h.1.newline (by simp; omega) rfl
  have hne : ¬ lineIs u (l ++ ['\n']) = true := fun hi => h.2 ((lineIs_line u h.1).mp hi)
  rw [dbFindLoop]
  simp only [Bool.false_eq_true, if_false, hg, lineCheck_line h.1, Bool.true_eq_false, hne]
  cases out with
  | none => rfl
  | some t => simp [fputs, cstr_line h.1]

theorem dbFindLoop_unlines {u : CString} {pre : List (List Char)} (h : ∀ l ∈ pre, Passed u l)
    (n : ℕ) (rest : List Char) (out : Option (List Char)) :
    dbFindLoop u (pre.length + n) ⟨unlines pre ++ rest, false, none⟩ (out.map (⟨·, none⟩)) =
      dbFindLoop u n ⟨rest, false, none⟩ (out.map fun t => ⟨t ++ unlines pre, none⟩) := by
  induction pre generalizing out with
  | nil =>
    cases out <;> simp
  | cons l pre ih =>
    obtain ⟨hl, hpre⟩ := List.forall_mem_cons.mp h
    have hsucc : (l :: pre).length + n = pre.length + n + 1 := by
      simp only [List.length_cons]
      omega
    have htext : unlines (l :: pre) ++ rest = l ++ '\n' :: (unlines pre ++ rest) := by simp
    have hout (t : List Char) : t ++ unlines (l :: pre) = t ++ (l ++ ['\n']) ++ unlines pre := by
      simp
    rw [hsucc, htext, dbFindLoop_passed hl]
    have hih := ih hpre (out.map (· ++ (l ++ ['\n'])))
    simp only [Option.map_map, Function.comp_def] at hih
    rw [hih]
    simp only [hout]

theorem length_unlines_ge (ls : List (List Char)) : ls.length ≤ (unlines ls).length := by
  induction ls with
  | nil => simp
  | cons l ls ih =>
    simp only [unlines_cons, List.length_cons, List.length_append]
    omega

/-- The search finds the first line of the user, past lines of others. -/
theorem dbFindUserEntry_found {u : CString} {pre : List (List Char)} {l : List Char}
    (h : ∀ l ∈ pre, Passed u l) (hl : LineOk l) (hu : lineUser l = some u.val)
    (rest : List Char) (out : Option (List Char)) :
    dbFindUserEntry u ⟨unlines pre ++ (l ++ '\n' :: rest), false, none⟩ (out.map (⟨·, none⟩)) =
      ⟨0, l ++ ['\n'], ⟨rest, false, none⟩, out.map fun t => ⟨t ++ unlines pre, none⟩⟩ := by
  have hge := length_unlines_ge pre
  obtain ⟨n, hn⟩ : ∃ n, (unlines pre ++ (l ++ '\n' :: rest)).length + 1 = pre.length + (n + 1) :=
    ⟨(unlines pre ++ (l ++ '\n' :: rest)).length - pre.length, by
      simp only [List.length_append]
      omega⟩
  have hlen := hl.length_le
  have hg := @fgets_line stateEntrySize ⟨l ++ '\n' :: rest, false, none⟩ l rest (by simp)
    hl.newline (by simp; omega) rfl
  rw [dbFindUserEntry, hn, dbFindLoop_unlines h, dbFindLoop]
  simp only [Bool.false_eq_true, if_false, hg, lineCheck_line hl, Bool.true_eq_false,
    (lineIs_line u hl).mpr hu, if_true, Option.map_none]

/-- A search among lines of others ends at the end of the file. -/
theorem dbFindUserEntry_absent {u : CString} {pre : List (List Char)}
    (h : ∀ l ∈ pre, Passed u l) (out : Option (List Char)) :
    dbFindUserEntry u ⟨unlines pre, false, none⟩ (out.map (⟨·, none⟩)) =
      ⟨stateNoUserEntry, [], ⟨[], true, none⟩, out.map fun t => ⟨t ++ unlines pre, none⟩⟩ := by
  have hge := length_unlines_ge pre
  obtain ⟨n, hn⟩ : ∃ n, (unlines pre ++ []).length + 1 = pre.length + (n + 1) :=
    ⟨(unlines pre).length - pre.length, by simp only [List.append_nil]; omega⟩
  rw [← List.append_nil (unlines pre), dbFindUserEntry, hn, dbFindLoop_unlines h, dbFindLoop]
  simp [fgets, lineSplit]

end Otpasswd
