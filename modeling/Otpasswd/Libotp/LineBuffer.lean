import Otpasswd.Libotp.Lines

/-!
# Otpasswd.Libotp.LineBuffer — the buffer of the search for a line

`_db_find_user_entry` again, on the cells of its line buffer. Every access is
recorded with its index. A line that starts with a NUL has no last character,
and the search then looks in front of the buffer.

Main results: `dbFindCells_eq` (it computes what `dbFindUserEntry` says, and
ends) and `dbFindCells_safe_iff`.
-/

namespace Otpasswd

open CText

/-! ## Accesses -/

/-- A buffer, and the indices at which it was read or written. -/
structure Cells where
  cells : List Char
  touched : List ℤ

namespace Cells

/-- The first `n` cells are accessed. -/
def touch (b : Cells) (n : ℕ) : Cells := { b with touched := b.touched ++ (List.range n).map (↑) }

/-- `fgets` stores a line and a NUL behind it. -/
def store (b : Cells) (line : List Char) : Cells :=
  touch { b with cells := line ++ '\x00' :: b.cells.drop (line.length + 1) } (line.length + 1)

/-- `strlen`. -/
def strlen (b : Cells) : ℕ × Cells :=
  ((cstr b.cells).length, b.touch ((cstr b.cells).length + 1))

/-- `buff[i]`; the byte in front of the buffer is `before`. -/
def get (b : Cells) (before : Char) (i : ℤ) : Char × Cells :=
  (if i < 0 then before else b.cells.getD i.toNat '\x00', { b with touched := b.touched ++ [i] })

/-- `buff[i] = c`. -/
def set (b : Cells) (i : ℕ) (c : Char) : Cells :=
  { cells := b.cells.set i c, touched := b.touched ++ [(i : ℤ)] }

/-- `strchr(buff, c)`. -/
def strchr (b : Cells) (c : Char) : Option ℕ × Cells :=
  if c ∈ cstr b.cells then
    let sep := ((cstr b.cells).takeWhile (· ≠ c)).length
    (some sep, b.touch (sep + 1))
  else (none, b.touch ((cstr b.cells).length + 1))

/-- `strcmp(buff, s) == 0`, which may read the whole string. -/
def strcmp (b : Cells) (s : CString) : Bool × Cells :=
  (decide (cstr b.cells = s.val), b.touch ((cstr b.cells).length + 1))

/-- `fputs(buff, out)`. -/
def fputs (b : Cells) (out : OutFile) : (Bool × OutFile) × Cells :=
  (CText.fputs (cstr b.cells) out, b.touch ((cstr b.cells).length + 1))

/-- The name in front of the first separator is compared in place. -/
def isUser (b : Cells) (username : CString) : Bool × Cells :=
  match b.strchr ':' with
  | (none, b) => (false, b)
  | (some sep, b) =>
    let (found, b) := (b.set sep '\x00').strcmp username
    (found, b.set sep ':')

/-- A line is stored and checked: it is complete and has at least ten
characters. -/
def check (b : Cells) (before : Char) (line : List Char) : Bool × Cells :=
  let (lineLength, b) := (b.store line).strlen
  let (last, b) := b.get before (lineLength - 1)
  (last = '\n' ∧ 10 ≤ lineLength, b)

/-- No access leaves the buffer. -/
def Safe (b : Cells) : Prop := ∀ i ∈ b.touched, 0 ≤ i ∧ i < stateEntrySize

end Cells

/-! ## The loop -/

/-- What the search leaves. -/
structure CellsResult where
  ret : ℕ
  f : InFile
  out : Option OutFile
  buff : Cells

/-- The loop of `_db_find_user_entry`, `none` after `n` rounds without an end. -/
def dbFindCells (username : CString) (before : Char) :
    ℕ → InFile → Option OutFile → Cells → Option CellsResult
  | 0, _, _, _ => none
  | n + 1, f, out, b =>
    if f.eof then some ⟨stateNoUserEntry, f, out, b⟩
    else
      match fgets stateEntrySize f with
      | (none, f) => some ⟨if f.eof then stateNoUserEntry else stateIoError, f, out, b⟩
      | (some line, f) =>
        match b.check before line with
        | (false, b) => some ⟨stateParseError, f, out, b⟩
        | (true, b) =>
          match b.isUser username with
          | (true, b) => some ⟨0, f, out, b⟩
          | (false, b) =>
            match out with
            | none => dbFindCells username before n f none b
            | some o =>
              match b.fputs o with
              | ((true, o), b) => dbFindCells username before n f (some o) b
              | ((false, o), b) => some ⟨stateIoError, f, some o, b⟩

/-! ## One line in the buffer -/

namespace Cells

variable {b : Cells} {line : List Char} {before c : Char} {i n : ℕ} {username : CString}

theorem touch_safe (hn : n ≤ stateEntrySize) : (b.touch n).Safe ↔ b.Safe := by
  unfold touch Safe
  simp only [List.forall_mem_append, List.forall_mem_map, List.mem_range]
  constructor
  · intro h
    exact h.1
  · intro h
    refine ⟨h, fun i hi => ⟨Int.natCast_nonneg i, ?_⟩⟩
    exact_mod_cast lt_of_lt_of_le hi hn

theorem set_safe (hi : i < stateEntrySize) : (b.set i c).Safe ↔ b.Safe := by
  unfold set Safe
  simp only [List.forall_mem_append, List.forall_mem_singleton]
  constructor
  · intro h
    exact h.1
  · intro h
    exact ⟨h, Int.natCast_nonneg i, by exact_mod_cast hi⟩

theorem get_safe {j : ℤ} (h : 0 ≤ j ∧ j < stateEntrySize) : (b.get before j).2.Safe ↔ b.Safe := by
  unfold get Safe
  simp only [List.forall_mem_append, List.forall_mem_singleton]
  constructor
  · intro h'
    exact h'.1
  · intro h'
    exact ⟨h', h⟩

/-- In front of the buffer. -/
theorem get_unsafe : ¬ (b.get before (-1)).2.Safe := by
  intro h
  have hmem : (-1 : ℤ) ∈ (b.get before (-1)).2.touched := by simp [get]
  exact absurd (h _ hmem).1 (by decide)

theorem cstr_store : cstr (b.store line).cells = cstr line := cstr_append_nul _ _

theorem length_cstr_le (s : List Char) : (cstr s).length ≤ s.length :=
  (List.takeWhile_prefix _).length_le

/-- The check is that of `dbFindUserEntry`; it stays within the buffer unless
the line starts with a NUL. -/
theorem check_spec (b : Cells) (before : Char) (hline : line.length < stateEntrySize) :
    (b.check before line).1 = lineCheck line ∧
      (b.check before line).2.cells = line ++ '\x00' :: b.cells.drop (line.length + 1) ∧
      ((b.check before line).2.Safe ↔ b.Safe ∧ cstr line ≠ []) := by
  have hle := length_cstr_le line
  have hstored : (b.store line).Safe ↔ b.Safe := touch_safe (by omega)
  have hstr : (b.store line).strlen.2.Safe ↔ b.Safe := by
    rw [← hstored]
    refine touch_safe ?_
    rw [cstr_store]
    omega
  unfold check
  simp only [show (b.store line).strlen.1 = (cstr line).length by rw [strlen, cstr_store]]
  rcases List.eq_nil_or_concat (cstr line) with hnil | ⟨init, last, hlast⟩
  · refine ⟨?_, rfl, ?_⟩
    · simp [lineCheck, hnil]
    · rw [hnil]
      exact iff_of_false get_unsafe fun h => h.2 rfl
  · rw [List.concat_eq_append] at hlast
    have hlen : (cstr line).length = init.length + 1 := by simp [hlast]
    have hindex : ((cstr line).length : ℤ) - 1 = init.length := by
      rw [hlen]
      push_cast
      ring
    obtain ⟨post, hpost⟩ : cstr line <+: (b.store line).strlen.2.cells := by
      rw [← @cstr_store b line]
      exact List.takeWhile_prefix _
    have hget : ((b.store line).strlen.2.get before ((cstr line).length - 1)).1 = last := by
      unfold get
      rw [hindex, if_neg (not_lt.mpr (Int.natCast_nonneg _)), Int.toNat_natCast, ← hpost, hlast]
      simp
    refine ⟨?_, rfl, ?_⟩
    · rw [hget, lineCheck, hlast]
      simp
    · rw [get_safe ⟨by omega, by omega⟩, hstr, hlast]
      simp

/-- The comparison finds the user, leaves the buffer as it was, and stays
within the string. -/
theorem isUser_spec {str rest : List Char} (hstr : '\x00' ∉ str)
    (hcells : b.cells = str ++ '\x00' :: rest) (hlen : str.length < stateEntrySize) :
    (b.isUser username).1 = decide (':' ∈ str ∧ str.takeWhile (· ≠ ':') = username.val) ∧
      (b.isUser username).2.cells = b.cells ∧ ((b.isUser username).2.Safe ↔ b.Safe) := by
  have hcstr : cstr b.cells = str := by rw [hcells, cstr_append_nul, cstr_eq_self hstr]
  unfold isUser strchr
  rw [hcstr]
  by_cases hmem : ':' ∈ str
  · obtain ⟨post, hpost⟩ := eq_takeWhile_append hmem
    rw [if_pos hmem]
    generalize hpre : str.takeWhile (· ≠ ':') = pre at hpost ⊢
    have hpre0 : '\x00' ∉ pre := fun h0 => hstr (by rw [hpost]; exact List.mem_append_left _ h0)
    have hlt : pre.length < stateEntrySize := by
      rw [hpost, List.length_append] at hlen
      omega
    have hset (c d : Char) (tail : List Char) :
        (pre ++ c :: tail).set pre.length d = pre ++ d :: tail := by simp
    have hcut : cstr ((b.touch (pre.length + 1)).set pre.length '\x00').cells = pre := by
      change cstr (b.cells.set pre.length '\x00') = pre
      rw [hcells, hpost, List.append_assoc, List.cons_append, hset, cstr_append_nul,
        cstr_eq_self hpre0]
    unfold strcmp
    simp only [hcut]
    refine ⟨by simp [hmem], ?_, ?_⟩
    · change (b.cells.set pre.length '\x00').set pre.length ':' = b.cells
      rw [hcells, hpost, List.append_assoc, List.cons_append, hset, hset]
    · rw [set_safe hlt, touch_safe hlt, set_safe hlt, touch_safe hlt]
  · rw [if_neg hmem]
    exact ⟨by simp [hmem], rfl, touch_safe hlen⟩

end Cells

/-! ## Lines that start with a NUL -/

/-- The search gets to a line that starts with a NUL: it is the first that is
no line of another user, and no call fails before it. -/
def NulLine (username : CString) (f : InFile) (out : Option OutFile) : Prop :=
  ∃ pre rest, (∀ l ∈ pre, Passed username l) ∧ f.rest = unlines pre ++ '\x00' :: rest ∧
    (∀ k, f.fault = some k → pre.length < k) ∧
    ∀ o k, out = some o → o.fault = some k → pre.length ≤ k

section

variable {username : CString} {f f' : InFile} {out : Option OutFile} {line : List Char}

theorem fgets_some (h : fgets stateEntrySize f = (some line, f')) :
    f.fault ≠ some 0 ∧ f'.fault = f.fault.map (· - 1) ∧ line ≠ [] ∧
      line.length < stateEntrySize ∧ f.rest = line ++ f'.rest := by
  unfold fgets at h
  split at h
  · cases h
  rename_i hfault
  simp only at h
  split at h
  · cases h
  rename_i hline
  obtain ⟨hsome, rfl⟩ := Prod.mk.inj h
  obtain rfl := Option.some.inj hsome
  have hle := lineSplit_length_le (stateEntrySize - 1) f.rest
  exact ⟨hfault, rfl, hline, lt_of_le_of_lt hle (by decide), (lineSplit_append _ _).symm⟩

/-- A search that reads nothing gets to no line. -/
theorem NulLine.fgets (h : NulLine username f out) :
    ∃ line f', CText.fgets stateEntrySize f = (some line, f') := by
  obtain ⟨pre, rest, -, hrest, hfault, -⟩ := h
  have hfault : f.fault ≠ some 0 := fun h0 => absurd (hfault 0 h0) (Nat.not_lt_zero _)
  have hne : (lineSplit (stateEntrySize - 1) f.rest).1 ≠ [] := by
    intro hnil
    have hcons : ∃ c s, f.rest = c :: s := by
      rw [hrest]
      cases pre with
      | nil => exact ⟨_, _, rfl⟩
      | cons l pre =>
        rcases l with _ | ⟨c, l⟩
        · exact ⟨_, _, rfl⟩
        · exact ⟨_, _, rfl⟩
    obtain ⟨c, s, hcons⟩ := hcons
    rw [hcons, show stateEntrySize - 1 = 510 + 1 from rfl, lineSplit] at hnil
    split_ifs at hnil
  unfold CText.fgets
  rw [if_neg hfault]
  simp only [hne, if_false]
  exact ⟨_, _, rfl⟩

/-- The line is read next, or is behind a line that is passed. -/
theorem nulLine_iff (h : CText.fgets stateEntrySize f = (some line, f')) :
    NulLine username f out ↔ cstr line = [] ∨
      ∃ l, Passed username l ∧ line = l ++ ['\n'] ∧ (∀ o, out = some o → o.fault ≠ some 0) ∧
        NulLine username f' (out.map fun o => ⟨o.text ++ line, o.fault.map (· - 1)⟩) := by
  obtain ⟨hfault, hfault', hne, -, hrest⟩ := fgets_some h
  constructor
  · rintro ⟨pre, rest, hpre, htext, hread, hwrite⟩
    -- the line with the NUL is read now, or behind the first of the lines in front
    cases pre with
    | nil =>
      rcases line with _ | ⟨c, line⟩
      · exact absurd rfl hne
      · rw [htext] at hrest
        obtain ⟨rfl, -⟩ := List.cons.inj hrest
        exact .inl (by simp [cstr])
    | cons l pre =>
      obtain ⟨hl, hpre⟩ := List.forall_mem_cons.mp hpre
      have hlen := hl.1.length_le
      have hsplit : f.rest = l ++ '\n' :: (unlines pre ++ '\x00' :: rest) := by
        rw [htext]
        simp
      rw [fgets_line hfault hl.1.newline (by simp; omega) hsplit] at h
      obtain ⟨hsome, rfl⟩ := Prod.mk.inj h
      obtain rfl := Option.some.inj hsome
      refine .inr ⟨l, hl, rfl, ?_, pre, rest, hpre, rfl, ?_, ?_⟩
      · intro o ho hzero
        exact absurd (hwrite o 0 ho hzero) (by simp)
      · intro k hk
        obtain ⟨k', hk', rfl⟩ := Option.map_eq_some_iff.mp hk
        have := hread k' hk'
        simp only [List.length_cons] at this
        omega
      · intro o k ho hk
        obtain ⟨o', ho', rfl⟩ := Option.map_eq_some_iff.mp ho
        obtain ⟨k', hk', rfl⟩ := Option.map_eq_some_iff.mp hk
        have := hwrite o' k' ho' hk'
        simp only [List.length_cons] at this
        omega
  · rintro (hnil | ⟨l, hl, hline, hout, pre, rest, hpre, htext, hread, hwrite⟩)
    · -- it is read now: the string in the buffer is empty
      rcases line with _ | ⟨c, line⟩
      · exact absurd rfl hne
      · have hc : c = '\x00' := by
          by_contra hc
          simp [cstr, hc] at hnil
        refine ⟨[], line ++ f'.rest, List.forall_mem_nil _, by rw [hrest, hc]; rfl, ?_, ?_⟩
        · intro k hk
          rcases Nat.eq_zero_or_pos k with rfl | hpos
          · exact absurd hk hfault
          · exact hpos
        · intro o k _ _
          exact Nat.zero_le _
    · -- it is further on: the faults are counted from one line later
      refine ⟨l :: pre, rest, List.forall_mem_cons.mpr ⟨hl, hpre⟩, ?_, ?_, ?_⟩
      · rw [hrest, htext, hline]
        simp
      · intro k hk
        rcases Nat.eq_zero_or_pos k with rfl | hpos
        · exact absurd hk hfault
        · have := hread (k - 1) (by rw [hfault', hk]; rfl)
          simp only [List.length_cons]
          omega
      · intro o k ho hk
        rcases Nat.eq_zero_or_pos k with rfl | hpos
        · exact absurd hk (hout o ho)
        · have := hwrite _ (k - 1) (by rw [ho]; rfl) (by simp only [hk]; rfl)
          simp only [List.length_cons]
          omega

end

/-! ## The search -/

/-- What the search on the cells has to do with the search on lines. -/
structure CellsAgree (username : CString) (f : InFile) (out : Option OutFile) (b : Cells)
    (r : CellsResult) (r' : FindResult) : Prop where
  code : r.ret = r'.ret
  input : r.f = r'.f
  output : r.out = r'.out
  buff : r.ret = 0 → ∃ rest, r.buff.cells = r'.buff ++ '\x00' :: rest
  safe : r.buff.Safe ↔ b.Safe ∧ ¬ NulLine username f out

/-- The search ends, with the result of the search on lines, and leaves the
buffer only at a line that starts with a NUL. -/
theorem dbFindCells_agree (username : CString) (before : Char) (n : ℕ) (f : InFile)
    (out : Option OutFile) (b : Cells) (hn : f.rest.length < n) (he : f.eof = false) :
    ∃ r, dbFindCells username before n f out b = some r ∧
      CellsAgree username f out b r (dbFindLoop username n f out) := by
  -- both searches make the same rounds; the buffer of one is the line of the other
  induction n generalizing f out b with
  | zero => exact absurd hn (Nat.not_lt_zero _)
  | succ n ih =>
    unfold dbFindCells dbFindLoop
    simp only [he, Bool.false_eq_true, if_false]
    rcases hg : fgets stateEntrySize f with ⟨_ | line, f'⟩
    · -- the input ends, or reading fails
      refine ⟨_, rfl, rfl, rfl, rfl, ?_, ?_⟩
      · intro hret
        split_ifs at hret
      · refine (and_iff_left fun hnul => ?_).symm
        obtain ⟨line, f'', hsome⟩ := hnul.fgets
        rw [hg] at hsome
        cases hsome
    · obtain ⟨hfault, hfault', hne, hlen, hrest⟩ := fgets_some hg
      obtain ⟨hcheck, hcells, hsafe⟩ := b.check_spec before hlen
      have hnul := @nulLine_iff username f f' out line hg
      rcases hb : b.check before line with ⟨ok, b1⟩
      rw [hb] at hcheck hcells hsafe
      simp only at hcheck hcells hsafe
      simp only [hb, ← hcheck]
      cases ok with
      | false =>
        -- the line is malformed, or starts with a NUL
        refine ⟨_, rfl, rfl, rfl, rfl, by simp, ?_⟩
        rw [hsafe, hnul]
        refine and_congr_right fun _ => not_congr (or_iff_left ?_).symm
        rintro ⟨l, hl, rfl, -⟩
        rw [lineCheck_line hl.1] at hcheck
        cases hcheck
      | true =>
        -- a whole line, which the comparison leaves in the buffer as it is
        obtain ⟨l, rfl, hl, -, heof⟩ := fgets_lineCheck hg hcheck.symm
        have hcstr := cstr_line hl
        have hnul0 : '\x00' ∉ l ++ ['\n'] := by
          rw [← hcstr]
          exact nul_not_mem_cstr _
        obtain ⟨huser, hkept, hsafe'⟩ := @Cells.isUser_spec b1 username _ _ hnul0 hcells hlen
        have hsafe1 : b1.Safe ↔ b.Safe := by
          rw [hsafe, hcstr]
          exact and_iff_left (by simp)
        have huser : (b1.isUser username).1 = lineIs username (l ++ ['\n']) := by
          rw [huser, lineIs, hcstr]
        simp only [Bool.true_eq_false, if_false, ← huser]
        rcases hb1 : b1.isUser username with ⟨found, b2⟩
        rw [hb1] at huser hkept hsafe'
        simp only at huser hkept hsafe' ⊢
        have hpassed : (∃ l', Passed username l' ∧ l ++ ['\n'] = l' ++ ['\n']) ↔ found = false := by
          rw [huser, ← Bool.not_eq_true, lineIs_line username hl]
          constructor
          · rintro ⟨l', hl', heq⟩
            rw [List.append_cancel_right heq]
            exact hl'.2
          · intro hne'
            exact ⟨l, ⟨hl, hne'⟩, rfl⟩
        cases found with
        | true =>
          -- the line is that of the user
          refine ⟨_, rfl, rfl, rfl, rfl, fun _ => ⟨_, hkept.trans hcells⟩, ?_⟩
          rw [hsafe', hsafe1, hnul, hcstr]
          refine (and_iff_left ?_).symm
          rintro (hnil | ⟨l', hl', heq, -⟩)
          · simp at hnil
          · cases hpassed.mp ⟨l', hl', heq⟩
        | false =>
          -- it is passed, and copied if there is an output
          obtain ⟨l', hl', heq⟩ := hpassed.mpr rfl
          have hshort : f'.rest.length < n := by
            rw [hrest, List.length_append, List.length_append, List.length_singleton] at hn
            omega
          have hnul' : NulLine username f out ↔ (∀ o, out = some o → o.fault ≠ some 0) ∧
              NulLine username f'
                (out.map fun o => ⟨o.text ++ (l ++ ['\n']), o.fault.map (· - 1)⟩) := by
            rw [hnul, hcstr, or_iff_right (by simp)]
            constructor
            · rintro ⟨-, -, -, hrest'⟩
              exact hrest'
            · intro hrest'
              exact ⟨l', hl', heq, hrest'⟩
          have hstep {o' : Option OutFile} {b3 : Cells} (hsafe3 : b3.Safe ↔ b.Safe)
              (hiff : NulLine username f out ↔ NulLine username f' o') :
              ∃ r, dbFindCells username before n f' o' b3 = some r ∧
                CellsAgree username f out b r (dbFindLoop username n f' o') := by
            obtain ⟨r, hr, hagree⟩ := ih f' o' b3 hshort (heof.trans he)
            refine ⟨r, hr, hagree.code, hagree.input, hagree.output, hagree.buff, ?_⟩
            rw [hagree.safe, hsafe3, hiff]
          cases out with
          | none => exact hstep (hsafe'.trans hsafe1) (by rw [hnul']; simp)
          | some o =>
            have hputs : (b2.fputs o).2.Safe ↔ b.Safe := by
              rw [← hsafe1, ← hsafe']
              refine Cells.touch_safe ?_
              rw [hkept, hcells, cstr_append_nul, hcstr]
              exact hlen
            have hstr : cstr b2.cells = l ++ ['\n'] := by
              rw [hkept, hcells, cstr_append_nul, hcstr]
            rcases hb2 : b2.fputs o with ⟨⟨done, o'⟩, b3⟩
            rw [hb2] at hputs
            have hfputs : CText.fputs (l ++ ['\n']) o = (done, o') := by
              rw [← hstr]
              exact (Prod.mk.inj hb2).1
            simp only [hb2, hcstr, hfputs, Bool.false_eq_true, if_false]
            unfold CText.fputs at hfputs
            split_ifs at hfputs with hzero
            · obtain ⟨rfl, rfl⟩ := Prod.mk.inj hfputs
              refine ⟨_, rfl, rfl, rfl, rfl, by simp, ?_⟩
              refine hputs.trans (and_iff_left ?_).symm
              rw [hnul']
              rintro ⟨hok, -⟩
              exact hok o rfl hzero
            · obtain ⟨rfl, rfl⟩ := Prod.mk.inj hfputs
              refine hstep hputs ?_
              rw [hnul']
              refine and_iff_right ?_
              intro o' ho'
              rw [← Option.some.inj ho']
              exact hzero

/-- More rounds than it takes change nothing. -/
theorem dbFindCells_mono {username : CString} {before : Char} {n m : ℕ} {f : InFile}
    {out : Option OutFile} {b : Cells} {r : CellsResult}
    (h : dbFindCells username before n f out b = some r) (hm : n ≤ m) :
    dbFindCells username before m f out b = some r := by
  induction n generalizing m f out b with
  | zero => cases h
  | succ n ih =>
    obtain ⟨m, rfl⟩ := Nat.exists_eq_add_of_le' (Nat.one_le_of_lt hm)
    have hm : n ≤ m := Nat.le_of_succ_le_succ hm
    unfold dbFindCells at h ⊢
    split_ifs at h ⊢
    · exact h
    · split at h
      · exact h
      · split at h
        · exact h
        · split at h
          · exact h
          · split at h
            · exact ih h hm
            · split at h
              · exact ih h hm
              · exact h

/-- The buffer holds one complete line of the text, whose first field is the
name. -/
def HoldsLine (username : CString) (text : List Char) (b : Cells) : Prop :=
  ∃ pre l rest, (∀ l ∈ pre, '\n' ∉ l) ∧ text = unlines pre ++ (l ++ '\n' :: rest) ∧ '\n' ∉ l ∧
    cstr b.cells = l ++ ['\n'] ∧ ':' ∈ l ∧ l.takeWhile (· ≠ ':') = username.val

/-- The search of a text ends, within the buffer, and a zero is right. -/
def SearchSafe (username : CString) (before : Char) (f : InFile) (out : Option OutFile)
    (cells : List Char) : Prop :=
  ∃ r, (∀ n, f.rest.length < n → dbFindCells username before n f out ⟨cells, []⟩ = some r) ∧
    r.buff.Safe ∧ (r.ret = 0 → HoldsLine username f.rest r.buff)

/-- The search is safe for every file, name and failing call, unless it gets to
a line that starts with a NUL. -/
theorem dbFindCells_safe_iff (username : CString) (before : Char) (text cells : List Char)
    (fault : Option ℕ) (out : Option OutFile) :
    SearchSafe username before ⟨text, false, fault⟩ out cells ↔
      ¬ NulLine username ⟨text, false, fault⟩ out := by
  set f : InFile := ⟨text, false, fault⟩
  obtain ⟨r, hr, hagree⟩ :=
    dbFindCells_agree username before (f.rest.length + 1) f out ⟨cells, []⟩ (Nat.lt_succ_self _) rfl
  have hsafe : r.buff.Safe ↔ ¬ NulLine username f out :=
    hagree.safe.trans (and_iff_right (List.forall_mem_nil _))
  constructor
  · rintro ⟨r', hr', hsafe', -⟩
    obtain rfl := Option.some.inj (hr.symm.trans (hr' _ (Nat.lt_succ_self _)))
    exact hsafe.mp hsafe'
  · intro hnul
    refine ⟨r, fun n hn => dbFindCells_mono hr hn, hsafe.mpr hnul, fun hret => ?_⟩
    obtain ⟨pre, hpre, hend, -⟩ := dbFindUserEntry_cases username f out (by simp [f])
    rw [hagree.code] at hret
    cases hend with
    | found l _ hl huser hrest hbuff _ =>
      obtain ⟨post, hcells⟩ := hagree.buff (hagree.code.trans hret)
      have hcells : r.buff.cells = l ++ ['\n'] ++ '\x00' :: post := by
        rw [hcells]
        exact congrArg (· ++ '\x00' :: post) hbuff
      obtain ⟨field, hfield, hcolon⟩ := lineUser_cases huser
      refine ⟨pre, l, _, fun l hl => (hpre l hl).1.newline, hrest, hl.newline, ?_, ?_, ?_⟩
      · rw [hcells, cstr_append_nul, cstr_line hl]
      · rw [hfield]
        simp
      · rw [hfield, takeWhile_sep hcolon]
    | absent hret' _ _ _ =>
      exact absurd (hret.symm.trans hret') (by decide)
    | error hret' =>
      rcases hret' with hret' | hret'
      · exact absurd (hret.symm.trans hret') (by decide)
      · exact absurd (hret.symm.trans hret') (by decide)

/-- A file of a single NUL makes the search look in front of the buffer. -/
theorem nul_line_unsafe :
    ¬ ∀ (username : CString) (before : Char) (text cells : List Char),
      SearchSafe username before ⟨text, false, none⟩ none cells := by
  intro h
  obtain ⟨r, hr, hsafe, -⟩ := h ⟨"alice".toList, by decide⟩ 'x' ['\x00'] []
  have hrun := hr 2 (by decide)
  have hmem : (-1 : ℤ) ∈ r.buff.touched := by
    have hsome : (dbFindCells ⟨"alice".toList, by decide⟩ 'x' 2 ⟨['\x00'], false, none⟩ none
        ⟨[], []⟩).map (fun r => decide ((-1 : ℤ) ∈ r.buff.touched)) = some true := by
      decide +kernel
    rw [hrun] at hsome
    exact of_decide_eq_true (Option.some.inj hsome)
  exact absurd (hsafe _ hmem).1 (by decide)

end Otpasswd
