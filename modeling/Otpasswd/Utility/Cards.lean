import Otpasswd.Libotp.Lookup
import Otpasswd.Utility.Passcard

/-!
# Otpasswd.Utility.Cards — the cells of a printed card

`card_ascii` moves a pointer over a buffer of blanks. What it has written is
in front of the pointer, so a card is put together line by line, and a cell is
found by its distance from the start.

Main result: `passcards_agree`.
-/

namespace Otpasswd

open CText

/-! ## Cells -/

/-- `cell` is in `text` at `off`. -/
def Cell (text : List Char) (off : ℕ) (cell : List Char) : Prop :=
  ∃ before behind, text = before ++ cell ++ behind ∧ before.length = off

theorem cell_self (cell behind : List Char) : Cell (cell ++ behind) 0 cell :=
  ⟨[], behind, rfl, rfl⟩

theorem Cell.append {text cell : List Char} {off : ℕ} (h : Cell text off cell)
    (behind : List Char) : Cell (text ++ behind) off cell := by
  obtain ⟨before, rest, rfl, hoff⟩ := h
  exact ⟨before, rest ++ behind, by rw [List.append_assoc _ rest], hoff⟩

theorem Cell.shift {text cell : List Char} {off : ℕ} (h : Cell text off cell)
    (before : List Char) : Cell (before ++ text) (before.length + off) cell := by
  obtain ⟨front, behind, rfl, hoff⟩ := h
  refine ⟨before ++ front, behind, by simp only [List.append_assoc], ?_⟩
  rw [List.length_append, hoff]

/-- A cell of a cell. -/
theorem Cell.trans {text line cell : List Char} {off off' : ℕ} (h : Cell text off line)
    (h' : Cell line off' cell) : Cell text (off + off') cell := by
  obtain ⟨before, behind, rfl, rfl⟩ := h
  exact (h'.shift before).append behind

/-- The tokens of a line, all of one length. -/
theorem cell_joinSep {len k : ℕ} {delim : Char} {codes : List (List Char)} {code : List Char}
    (hlen : ∀ code ∈ codes, code.length = len) (hk : codes[k]? = some code) :
    Cell (joinSep delim codes) (k * (len + 1)) code := by
  induction codes generalizing k with
  | nil => cases hk
  | cons code' codes ih =>
    obtain ⟨hcode, hlen⟩ := List.forall_mem_cons.mp hlen
    cases k with
    | zero =>
      obtain rfl := Option.some.inj hk
      rw [Nat.zero_mul]
      rcases codes with _ | ⟨code2, codes⟩
      · exact ⟨[], [], (List.append_nil _).symm, rfl⟩
      · exact cell_self _ _
    | succ k =>
      have hin := ih hlen hk
      rcases codes with _ | ⟨code2, codes⟩
      · cases hk
      · have hshift := hin.shift (code' ++ [delim])
        rw [List.length_append, hcode, List.length_singleton, List.append_assoc] at hshift
        rw [Nat.add_mul, Nat.one_mul, Nat.add_comm]
        exact hshift

/-- The lines of a text, all of one length. -/
theorem cell_unlines {width k : ℕ} {ls : List (List Char)} {l : List Char}
    (hwidth : ∀ l ∈ ls, l.length = width) (hk : ls[k]? = some l) :
    Cell (unlines ls) (k * (width + 1)) l := by
  induction ls generalizing k with
  | nil => cases hk
  | cons l' ls ih =>
    obtain ⟨hl, hwidth⟩ := List.forall_mem_cons.mp hwidth
    rw [unlines_cons]
    cases k with
    | zero =>
      obtain rfl := Option.some.inj hk
      rw [Nat.zero_mul]
      exact cell_self _ _
    | succ k =>
      have hshift := (ih hwidth hk).shift (l' ++ ['\n'])
      rw [List.length_append, hl, List.length_singleton, List.append_assoc] at hshift
      rw [Nat.add_mul, Nat.one_mul, Nat.add_comm]
      exact hshift

theorem length_unlines {width : ℕ} {ls : List (List Char)} (h : ∀ l ∈ ls, l.length = width) :
    (unlines ls).length = ls.length * (width + 1) := by
  induction ls with
  | nil => exact (Nat.zero_mul _).symm
  | cons l ls ih =>
    obtain ⟨hl, h⟩ := List.forall_mem_cons.mp h
    rw [unlines_cons, List.length_append, List.length_cons, ih h, hl, List.length_cons]
    ring

/-! ## The pointer -/

/-- The pen behind what it has written, on a buffer of blanks. -/
def Pen.behind (size : ℕ) (text : List Char) : Pen :=
  ⟨text ++ List.replicate (size - text.length) ' ', text.length⟩

section

variable {size : ℕ} {text new old : List Char}

theorem Pen.length_behind (h : text.length ≤ size) : (Pen.behind size text).buf.length = size := by
  simp only [Pen.behind, List.length_append, List.length_replicate]
  omega

theorem Pen.put_behind (h : (text ++ new).length ≤ size) :
    (Pen.behind size text).put new = .ok (Pen.behind size (text ++ new)) := by
  have hlen := h
  rw [List.length_append] at hlen
  have hroom : (Pen.behind size text).card + new.length ≤ (Pen.behind size text).buf.length := by
    rw [Pen.length_behind (by omega)]
    exact hlen
  rw [Pen.put, if_pos hroom]
  simp only [Pen.behind, List.take_left, List.drop_length_add_append, List.drop_replicate,
    List.length_append, Nat.sub_sub]

theorem Pen.skip_behind {n : ℕ} (h : text.length + n ≤ size) :
    (Pen.behind size text).skip n = Pen.behind size (text ++ List.replicate n ' ') := by
  have hsum : size - text.length = n + (size - (text.length + n)) := by omega
  simp only [Pen.skip, Pen.behind, List.length_append, List.length_replicate, List.append_assoc,
    List.replicate_append_replicate, ← hsum]

/-- What is written over is gone. -/
theorem Pen.put_back (hold : old.length ≤ new.length) (h : (text ++ new).length ≤ size) :
    ((Pen.behind size (text ++ old)).back old.length).put new =
      .ok (Pen.behind size (text ++ new)) := by
  have hlen := h
  rw [List.length_append] at hlen
  have hcard : ((Pen.behind size (text ++ old)).back old.length).card = text.length := by
    simp only [Pen.back, Pen.behind, List.length_append, Nat.add_sub_cancel]
  have hbuf : ((Pen.behind size (text ++ old)).back old.length).buf =
      (Pen.behind size (text ++ old)).buf := rfl
  have hroom : ((Pen.behind size (text ++ old)).back old.length).card + new.length ≤
      ((Pen.behind size (text ++ old)).back old.length).buf.length := by
    rw [hcard, hbuf, Pen.length_behind (by rw [List.length_append]; omega)]
    exact hlen
  have hdrop : List.drop new.length old = [] := List.drop_eq_nil_of_le hold
  have hrest : size - (text.length + old.length) - (new.length - old.length) =
      size - (text.length + new.length) := by omega
  rw [Pen.put, if_pos hroom, hcard, hbuf]
  simp only [Pen.behind, List.append_assoc, List.take_left, List.drop_length_add_append,
    List.length_append]
  rw [List.drop_append, hdrop, List.nil_append, List.drop_replicate, hrest]

end

/-! ## Rows and columns -/

section

variable {a : Getters} {len size : ℕ}

theorem length_cardCode (hlen : len ≤ 16) (passcode : List Char) :
    (cardCode len passcode).length = len := by
  rw [cardCode, List.length_take, List.length_append, List.length_replicate]
  omega

/-- The passcodes of a row, from the answers for `start` and the numbers behind it. -/
structure RowCodes (a : Getters) (len n start : ℕ) (codes : List (List Char)) : Prop where
  length : codes.length = n
  width : ∀ code ∈ codes, code.length = len
  codes : ∀ k < n, ∃ m passcode, m.toNat = (start + k) % 2 ^ 128 ∧
    a.getPasscode m = .ok passcode ∧ codes[k]? = some (cardCode len passcode)

theorem RowCodes.length_line {n start : ℕ} {codes : List (List Char)} (delim : Char)
    (h : RowCodes a len (n + 1) start codes) :
    (joinSep delim codes).length + 1 = (n + 1) * (len + 1) := by
  have hmap : codes.map List.length = List.replicate (n + 1) len := by
    refine List.eq_replicate_iff.mpr ⟨by rw [List.length_map, h.length], fun m hm => ?_⟩
    obtain ⟨code, hcode, rfl⟩ := List.mem_map.mp hm
    exact h.width code hcode
  rw [length_joinSep, hmap, List.sum_replicate, h.length, smul_eq_mul]
  simp only [Nat.add_sub_cancel]
  ring

/-- The cells of a row: every one has the answer for its number, and the pen
is behind the line. -/
theorem cardCells_spec (h16 : len ≤ 16) (n : ℕ) (codeNum : Num) (p : Pen)
    (text : List Char) {next : Num} {p' : Pen}
    (hput : ∀ code : List Char, code.length = len →
      p.put code = .ok (Pen.behind size (text ++ code)))
    (hroom : text.length + (n + 1) * (len + 1) ≤ size)
    (h : cardCells a len (n + 1) codeNum p = .ok (next, p')) :
    ∃ codes, p' = Pen.behind size (text ++ (joinSep ' ' codes ++ ['\n'])) ∧
      next.toNat = (codeNum.toNat + (n + 1)) % 2 ^ 128 ∧
      RowCodes a len (n + 1) codeNum.toNat codes := by
  have hone : (1 : Word64).toNat = 1 := rfl
  have hself (m : Num) : m.toNat = (m.toNat + 0) % 2 ^ 128 := by
    rw [Nat.add_zero, Nat.mod_eq_of_lt m.toNat_lt]
  -- one cell, then the rest of the row; the pen is always behind what is written
  induction n generalizing codeNum p text with
  | zero =>
    rw [cardCells] at h
    cases hget : a.getPasscode codeNum with
    | error e => rw [hget] at h; cases h
    | ok passcode =>
      have hcode := length_cardCode h16 passcode
      -- the last cell of a row is followed by the newline
      have hend : (Pen.behind size (text ++ cardCode len passcode)).put ['\n'] =
          .ok (Pen.behind size (text ++ (cardCode len passcode ++ ['\n']))) := by
        rw [← List.append_assoc]
        refine Pen.put_behind ?_
        simp only [List.length_append, hcode, List.length_singleton]
        omega
      simp only [hget, bind, Except.bind, hput _ hcode, ne_eq, not_true_eq_false, if_false, hend,
        cardCells] at h
      cases h
      refine ⟨[cardCode len passcode], rfl, ?_, rfl, ?_, fun k hk => ?_⟩
      · rw [Num.toNat_numAddI, hone]
      · exact List.forall_mem_singleton.mpr hcode
      · obtain rfl : k = 0 := by omega
        exact ⟨codeNum, passcode, hself codeNum, hget, rfl⟩
  | succ n ih =>
    rw [cardCells] at h
    cases hget : a.getPasscode codeNum with
    | error e => rw [hget] at h; cases h
    | ok passcode =>
      have hcode := length_cardCode h16 passcode
      have hsize : text.length + (len + 1) + (n + 1) * (len + 1) ≤ size := by
        have : (n + 1 + 1) * (len + 1) = (len + 1) + (n + 1) * (len + 1) := by ring
        omega
      -- between two cells the pen skips a blank
      have hskip : (Pen.behind size (text ++ cardCode len passcode)).skip 1 =
          Pen.behind size (text ++ (cardCode len passcode ++ [' '])) := by
        rw [Pen.skip_behind (by rw [List.length_append, hcode]; omega), List.append_assoc]
        rfl
      simp only [hget, bind, Except.bind, hput _ hcode, ne_eq, Nat.add_eq_zero_iff, one_ne_zero,
        and_false, not_false_eq_true, if_true, hskip] at h
      have hcell : (cardCode len passcode ++ [' ']).length = len + 1 := by
        rw [List.length_append, hcode, List.length_singleton]
      obtain ⟨codes, hp', hnext, hcodes⟩ := ih (numAddI codeNum 1) _
        (text ++ (cardCode len passcode ++ [' ']))
        (fun code hc => Pen.put_behind (by
          rw [List.length_append, List.length_append, hcell, hc]
          have : len + 1 ≤ (n + 1) * (len + 1) := Nat.le_mul_of_pos_left _ (Nat.succ_pos n)
          omega))
        (by rw [List.length_append, hcell]; exact hsize) h
      have hjoin : joinSep ' ' (cardCode len passcode :: codes) =
          cardCode len passcode ++ ' ' :: joinSep ' ' codes := by
        have hne := hcodes.length
        rcases codes with _ | ⟨code2, codes⟩
        · cases hne
        · exact joinSep_cons_cons _ _ _ _
      refine ⟨cardCode len passcode :: codes, ?_, ?_, ?_, ?_, fun k hk => ?_⟩
      · rw [hp', hjoin]
        simp only [List.append_assoc, List.cons_append, List.nil_append]
      · rw [hnext, Num.toNat_numAddI, hone, Nat.mod_add_mod]
        ring_nf
      · rw [List.length_cons, hcodes.length]
      · exact List.forall_mem_cons.mpr ⟨hcode, hcodes.width⟩
      · cases k with
        | zero => exact ⟨codeNum, passcode, hself codeNum, hget, rfl⟩
        | succ k =>
          obtain ⟨m, code, hm, hcode', hin⟩ := hcodes.codes k (by omega)
          refine ⟨m, code, ?_, hcode', hin⟩
          rw [hm, Num.toNat_numAddI, hone, Nat.mod_add_mod]
          ring_nf

theorem length_rowLabel {i : ℕ} (h : i < 100) : (rowLabel i).length = 4 := by
  have hdigits : (Nat.toDigits 10 i).length ≤ 2 := (Nat.length_toDigits_le_iff (by decide) (by decide)).mpr h
  simp only [rowLabel, List.length_append, List.length_replicate, List.length_cons,
    List.length_nil]
  omega

/-- The rows from `i` on: their labels and their passcodes. -/
theorem cardRows_spec (h1 : 0 < len) (h16 : len ≤ 16) (c n i : ℕ) (codeNum : Num)
    (text : List Char) {p' : Pen} (hi : i + n ≤ 100)
    (hroom : text.length + n * (4 + (c + 1) * (len + 1)) ≤ size)
    (h : cardRows a len (c + 1) n i codeNum (Pen.behind size text) = .ok p') :
    ∃ rows, p' = Pen.behind size (text ++ unlines rows) ∧ rows.length = n ∧
      (∀ l ∈ rows, l.length + 1 = 4 + (c + 1) * (len + 1)) ∧
      ∀ r < n, ∃ codes, rows[r]? = some (rowLabel (i + r) ++ joinSep ' ' codes) ∧
        RowCodes a len (c + 1) (codeNum.toNat + r * (c + 1)) codes := by
  induction n generalizing i codeNum text with
  | zero =>
    cases h
    exact ⟨[], by rw [unlines_nil, List.append_nil], rfl, List.forall_mem_nil _,
      fun r hr => absurd hr (Nat.not_lt_zero r)⟩
  | succ n ih =>
    have hlabel := length_rowLabel (show i < 100 by omega)
    have hsize : text.length + (4 + (c + 1) * (len + 1)) +
        n * (4 + (c + 1) * (len + 1)) ≤ size := by
      rw [Nat.add_mul, Nat.one_mul] at hroom
      omega
    have hfirst : len + 1 ≤ (c + 1) * (len + 1) := Nat.le_mul_of_pos_left _ (Nat.succ_pos c)
    -- the NUL of the label is overwritten by the first cell
    have hput : (Pen.behind size text).put (rowLabel i ++ ['\x00']) =
        .ok (Pen.behind size (text ++ rowLabel i ++ ['\x00'])) := by
      rw [List.append_assoc]
      refine Pen.put_behind ?_
      simp only [List.length_append, hlabel, List.length_singleton]
      omega
    rw [cardRows] at h
    simp only [hput, bind, Except.bind] at h
    cases hcells : cardCells a len (c + 1) codeNum
        ((Pen.behind size (text ++ rowLabel i ++ ['\x00'])).back 1) with
    | error e => rw [hcells] at h; cases h
    | ok r =>
      obtain ⟨next, p⟩ := r
      rw [hcells] at h
      -- one row is written, the others start where it ends
      obtain ⟨codes, rfl, hnext, hcodes⟩ := @cardCells_spec a len size h16 c codeNum _
        (text ++ rowLabel i) next p
        (fun code hc => @Pen.put_back size (text ++ rowLabel i) code ['\x00']
          (by rw [List.length_singleton, hc]; exact h1)
          (by rw [List.length_append, List.length_append, hlabel, hc]; omega))
        (by rw [List.length_append, hlabel]; omega) hcells
      have hline := hcodes.length_line ' '
      have hwidth : (rowLabel i ++ joinSep ' ' codes).length + 1 = 4 + (c + 1) * (len + 1) := by
        rw [List.length_append, hlabel, ← hline, Nat.add_assoc]
      have htext : text ++ rowLabel i ++ (joinSep ' ' codes ++ ['\n']) =
          text ++ (rowLabel i ++ joinSep ' ' codes ++ ['\n']) := by
        simp only [List.append_assoc]
      rw [htext] at h
      obtain ⟨rows, hp', hrows, hwidths, hrest⟩ := ih (i + 1) next _ (by omega)
        (by rw [List.length_append, List.length_append, List.length_singleton, hwidth]
            exact hsize) h
      refine ⟨(rowLabel i ++ joinSep ' ' codes) :: rows, ?_, by rw [List.length_cons, hrows],
        List.forall_mem_cons.mpr ⟨hwidth, hwidths⟩, fun r hr => ?_⟩
      · rw [hp', unlines_cons]
        simp only [List.append_assoc, List.cons_append, List.nil_append]
      · cases r with
        | zero =>
          simp only [Nat.zero_mul, Nat.add_zero]
          exact ⟨codes, rfl, hcodes⟩
        | succ r =>
          obtain ⟨codes', hrow, hcodes'⟩ := hrest r (by omega)
          refine ⟨codes', ?_, hcodes'.length, hcodes'.width, fun k hk => ?_⟩
          · rw [List.getElem?_cons_succ, hrow, Nat.add_assoc, Nat.add_comm 1 r]
          · obtain ⟨m, passcode, hm, hget, hin⟩ := hcodes'.codes k hk
            refine ⟨m, passcode, ?_, hget, hin⟩
            rw [hm, hnext, Nat.add_assoc, Nat.mod_add_mod]
            ring_nf

/-- The letters of the columns; the last blank is to become the end of the line. -/
theorem cardColumns_spec (n i : ℕ) (text : List Char)
    (hroom : text.length + (n + 1) * (len + 2) ≤ size) :
    ∃ line, cardColumns (len + 1) (n + 1) i (Pen.behind size text) =
        .ok (Pen.behind size (text ++ (line ++ [' ']))) ∧
      line.length + 1 = (n + 1) * (len + 2) ∧
      (∀ x ∈ line, x = ' ' ∨ ∃ k ≤ n, x = "ABCDEFGHIJKLMNOP".toList.getD (i + k) '\x00') ∧
      ∀ k ≤ n, Cell line (k * (len + 2)) ["ABCDEFGHIJKLMNOP".toList.getD (i + k) '\x00'] := by
  have hcolumn : ∀ (text : List Char) (c : Char), text.length + (len + 2) ≤ size →
      (Pen.behind size text).put [c] = .ok (Pen.behind size (text ++ [c])) ∧
        (Pen.behind size (text ++ [c])).skip (len + 1) =
          Pen.behind size (text ++ [c] ++ List.replicate (len + 1) ' ') := by
    intro text c h
    constructor
    · exact Pen.put_behind (by rw [List.length_append, List.length_singleton]; omega)
    · exact Pen.skip_behind (by rw [List.length_append, List.length_singleton]; omega)
  -- one letter and the blanks of its column, then the columns behind it
  induction n generalizing i text with
  | zero =>
    obtain ⟨hput, hskip⟩ := hcolumn text ("ABCDEFGHIJKLMNOP".toList.getD i '\x00') (by omega)
    refine ⟨["ABCDEFGHIJKLMNOP".toList.getD i '\x00'] ++ List.replicate len ' ', ?_, ?_, ?_, ?_⟩
    · rw [cardColumns, hput]
      simp only [bind, Except.bind, cardColumns, hskip, List.append_assoc]
      rw [List.replicate_succ']
    · simp only [List.length_append, List.length_singleton, List.length_replicate]
      omega
    · intro x hx
      rcases List.mem_append.mp hx with h | h
      · exact .inr ⟨0, le_rfl, List.mem_singleton.mp h⟩
      · exact .inl (List.eq_of_mem_replicate h)
    · intro k hk
      obtain rfl : k = 0 := by omega
      rw [Nat.zero_mul]
      exact cell_self _ _
  | succ n ih =>
    have hsize : text.length + (len + 2) + (n + 1) * (len + 2) ≤ size := by
      rw [Nat.add_mul, Nat.one_mul] at hroom
      omega
    obtain ⟨hput, hskip⟩ := hcolumn text ("ABCDEFGHIJKLMNOP".toList.getD i '\x00') (by omega)
    have hwidth : (["ABCDEFGHIJKLMNOP".toList.getD i '\x00'] ++
        List.replicate (len + 1) ' ').length = len + 2 := by
      simp only [List.length_append, List.length_singleton, List.length_replicate]
      omega
    obtain ⟨line, hrun, hline, hchars, hcells⟩ := ih (i + 1)
      (text ++ (["ABCDEFGHIJKLMNOP".toList.getD i '\x00'] ++ List.replicate (len + 1) ' '))
      (by rw [List.length_append, hwidth]; exact hsize)
    refine ⟨["ABCDEFGHIJKLMNOP".toList.getD i '\x00'] ++ List.replicate (len + 1) ' ' ++ line,
      ?_, ?_, ?_, ?_⟩
    · rw [cardColumns, hput]
      simp only [bind, Except.bind, hskip]
      rw [List.append_assoc text, hrun]
      simp only [List.append_assoc]
    · rw [List.length_append, hwidth, Nat.add_assoc, hline]
      ring
    · intro x hx
      rcases List.mem_append.mp hx with h | h
      · rcases List.mem_append.mp h with h | h
        · exact .inr ⟨0, Nat.zero_le _, List.mem_singleton.mp h⟩
        · exact .inl (List.eq_of_mem_replicate h)
      · rcases hchars x h with rfl | ⟨k, hk, rfl⟩
        · exact .inl rfl
        · exact .inr ⟨k + 1, Nat.succ_le_succ hk, by rw [Nat.add_assoc, Nat.add_comm 1 k]⟩
    · intro k hk
      cases k with
      | zero =>
        rw [Nat.zero_mul, List.append_assoc]
        exact cell_self _ _
      | succ k =>
        have hshift := (hcells k (by omega)).shift
          (["ABCDEFGHIJKLMNOP".toList.getD i '\x00'] ++ List.replicate (len + 1) ' ')
        rw [hwidth, Nat.add_assoc i 1 k, Nat.add_comm 1 k] at hshift
        rw [Nat.add_mul, Nat.one_mul, Nat.add_comm (k * (len + 2))]
        exact hshift

end

/-! ## The card -/

section

variable {a : Getters} {len : ℕ} {label number host out : List Char} {passcard : Num}

theorem cardWidth_range (hlen : 2 ≤ len ∧ len ≤ 16) : 27 ≤ cardWidth len := by
  obtain ⟨h1, h2⟩ := hlen
  interval_cases len <;> decide

/-- The label leaves room for five digits. -/
theorem length_cardLabel {width : ℕ} (hwidth : 27 ≤ width) (label : List Char) :
    (cardLabel width label).length + 8 ≤ width := by
  rw [cardLabel]
  by_cases h : width - 8 < label.length
  · rw [if_pos h]
    simp only [List.length_append, List.length_take, List.length_cons, List.length_nil]
    omega
  · rw [if_neg h]
    omega

theorem length_cardNumber {width labelLen : ℕ} (hlabel : labelLen + 8 ≤ width)
    (number : List Char) : (cardNumber width labelLen number).length + 3 + labelLen ≤ width := by
  rw [cardNumber]
  by_cases h : width < number.length + 3 + labelLen
  · rw [if_pos h]
    simp only [List.length_cons, List.length_drop]
    omega
  · rw [if_neg h]
    omega

/-- The pointer goes back over the label and on to the number. -/
theorem Pen.skip_back {size k n : ℕ} {text : List Char} (h : k = text.length) (hk : k ≤ n)
    (hn : n ≤ size) :
    ((Pen.behind size text).back k).skip n =
      Pen.behind size (text ++ List.replicate (n - k) ' ') := by
  rw [← Pen.skip_behind (by omega)]
  simp only [Pen.skip, Pen.back, Pen.behind, h, Nat.sub_self, Nat.zero_add, Pen.mk.injEq, true_and]
  omega

theorem columnChar_eq {k : ℕ} (h : k < 12) :
    "ABCDEFGHIJKLMNOP".toList.getD k '\x00' = columnChar k := by
  interval_cases k <;> rfl

/-- The first line: the label, and the number in brackets at the end. -/
def cardTop (width : ℕ) (label number : List Char) : List Char :=
  label ++ List.replicate (width - number.length - 2 - label.length) ' ' ++
    (['['] ++ number ++ [']'])

/-- The second line: the letters of the columns, above the cells. -/
structure Columns (len c width : ℕ) (line : List Char) : Prop where
  length : line.length = width
  chars : ∀ x ∈ line, x = ' ' ∨ ∃ k < c, x = columnChar k
  letters : ∀ k < c, Cell line (4 + k * (len + 1)) [columnChar k]

theorem length_cardTop {width : ℕ} (h : number.length + 3 + label.length ≤ width) :
    (cardTop width label number).length = width := by
  simp only [cardTop, List.length_append, List.length_replicate, List.length_cons, List.length_nil]
  omega

/-- The lines above the rows fit. -/
theorem cardHead_spec {size width c : ℕ} {label number : List Char} (hc : c < 12)
    (hlabel : label.length + 8 ≤ width) (hnumber : number.length + 3 + label.length ≤ width)
    (hwidth : width + 1 = 4 + (c + 1) * (len + 2)) (hsize : 2 * (width + 1) ≤ size) :
    ∃ columns, cardHead (len + 1) (c + 1) width size label number =
        .ok (Pen.behind size (unlines [cardTop width label number, columns])) ∧
      Columns (len + 1) (c + 1) width columns := by
  have hstart : (⟨List.replicate size ' ', 0⟩ : Pen) = Pen.behind size [] := rfl
  -- the label, the blanks up to the number, and the number
  have hput : (Pen.behind size []).put label = .ok (Pen.behind size label) :=
    Pen.put_behind (by rw [List.nil_append]; omega)
  have hskip : ((Pen.behind size label).back label.length).skip (width - number.length - 2) =
      Pen.behind size
        (label ++ List.replicate (width - number.length - 2 - label.length) ' ') :=
    Pen.skip_back rfl (by omega) (by omega)
  have htop := length_cardTop hnumber
  have hline : label ++ List.replicate (width - number.length - 2 - label.length) ' ' ++
      (['['] ++ number ++ [']', '\n']) = cardTop width label number ++ ['\n'] := by
    simp only [cardTop, List.append_assoc, List.cons_append, List.nil_append]
  have hputTop : (Pen.behind size
      (label ++ List.replicate (width - number.length - 2 - label.length) ' ')).put
        (['['] ++ number ++ [']', '\n']) =
      .ok (Pen.behind size (cardTop width label number ++ ['\n'])) := by
    rw [← hline]
    refine Pen.put_behind ?_
    rw [hline, List.length_append, htop, List.length_singleton]
    omega
  generalize cardTop width label number = top at htop hputTop
  -- the second line starts under the labels of the rows
  have hindent : (Pen.behind size (top ++ ['\n'])).skip 4 =
      Pen.behind size (top ++ ['\n'] ++ List.replicate 4 ' ') :=
    Pen.skip_behind (by rw [List.length_append, htop, List.length_singleton]; omega)
  have hmargin : (top ++ ['\n'] ++ List.replicate 4 ' ').length = width + 1 + 4 := by
    rw [List.length_append, List.length_append, htop, List.length_replicate, List.length_singleton]
  obtain ⟨line, hcolumns, hlength, hchars, hcells⟩ := @cardColumns_spec len size c 0
    (top ++ ['\n'] ++ List.replicate 4 ' ') (by rw [hmargin]; omega)
  -- its last blank becomes the newline
  have hend : ((Pen.behind size (top ++ ['\n'] ++ List.replicate 4 ' ' ++
      (line ++ [' ']))).back 1).put ['\n'] =
      .ok (Pen.behind size (unlines [top, List.replicate 4 ' ' ++ line])) := by
    have htext : unlines [top, List.replicate 4 ' ' ++ line] =
        top ++ ['\n'] ++ List.replicate 4 ' ' ++ line ++ ['\n'] := by
      simp only [unlines_cons, unlines_nil, List.append_assoc, List.cons_append, List.nil_append]
    rw [htext, ← List.append_assoc]
    refine @Pen.put_back size _ ['\n'] [' '] (Nat.le_refl 1) ?_
    rw [List.length_append, List.length_append, hmargin, List.length_singleton]
    omega
  refine ⟨List.replicate 4 ' ' ++ line, ?_, ?_, fun x hx => ?_, fun k hk => ?_⟩
  · rw [cardHead, hstart]
    simp only [bind, Except.bind, hput, hskip, hputTop, hindent, hcolumns, hend]
  · rw [List.length_append, List.length_replicate]
    omega
  · rcases List.mem_append.mp hx with h | h
    · exact .inl (List.eq_of_mem_replicate h)
    · rcases hchars x h with rfl | ⟨k, hk, rfl⟩
      · exact .inl rfl
      · rw [Nat.zero_add]
        exact .inr ⟨k, Nat.lt_succ_of_le hk, columnChar_eq (by omega)⟩
  · have hcell := (hcells k (Nat.le_of_lt_succ hk)).shift (List.replicate 4 ' ')
    rw [Nat.zero_add, columnChar_eq (by omega)] at hcell
    exact hcell

/-- The rows of a card, with the answers for their numbers. -/
structure Rows (a : Getters) (len c : ℕ) (passcard : Num) (rows : List (List Char)) : Prop where
  length : rows.length = rowsPerCard
  width : ∀ l ∈ rows, l.length = cardWidth len
  codes : ∀ r < rowsPerCard, ∃ codes, rows[r]? = some (rowLabel (r + 1) ++ joinSep ' ' codes) ∧
    RowCodes a len c (numberAt c ((2 ^ 128 + passcard.toNat - 1) % 2 ^ 128) r 0) codes

theorem cardWidth_eq (len : ℕ) : cardWidth len + 1 = 4 + codesPerRow len * (len + 1) := by
  rw [cardWidth]
  ring

/-- The buffer of a card: its lines, and the byte behind them. -/
theorem cardSize_eq (width : ℕ) :
    (width + 1) * (rowsPerCard + 2) + 1 = 2 * (width + 1) + rowsPerCard * (width + 1) + 1 := by
  rw [show rowsPerCard = 10 from rfl]
  ring

/-- The lines above the rows of a card. -/
theorem cardText_head (hlen : 2 ≤ len ∧ len ≤ 16) (label number : List Char) :
    let width := cardWidth len
    let size := (width + 1) * (rowsPerCard + 2) + 1
    let label := cardLabel width label
    let number := cardNumber width label.length number
    ∃ columns, cardHead len (codesPerRow len) width size label number =
        .ok (Pen.behind size (unlines [cardTop width label number, columns])) ∧
      Columns len (codesPerRow len) width columns ∧
      (unlines [cardTop width label number, columns]).length = 2 * (width + 1) := by
  obtain ⟨hc2, hc11⟩ := codesPerRow_bounds hlen.1 hlen.2
  have hlabel := length_cardLabel (cardWidth_range hlen) label
  have hnumber := length_cardNumber hlabel number
  have hwidth := cardWidth_eq len
  obtain ⟨c, hc⟩ : ∃ c, codesPerRow len = c + 1 := ⟨codesPerRow len - 1, by omega⟩
  obtain ⟨l, rfl⟩ : ∃ l, len = l + 1 := ⟨len - 1, by omega⟩
  rw [hc] at hwidth hc11 ⊢
  obtain ⟨columns, hhead, hcolumns⟩ := @cardHead_spec l
    ((cardWidth (l + 1) + 1) * (rowsPerCard + 2) + 1) _ c _ _ (by omega) hlabel hnumber hwidth (by
      rw [cardSize_eq]
      omega)
  refine ⟨columns, hhead, hcolumns, length_unlines ?_⟩
  exact List.forall_mem_cons.mpr ⟨length_cardTop hnumber,
    List.forall_mem_singleton.mpr hcolumns.length⟩

/-- The lines of a card that is returned. -/
theorem cardText_lines (hlen : 2 ≤ len ∧ len ≤ 16)
    (h : cardText a len label number passcard = .ok out) :
    ∃ columns rows, out = cstr (unlines (cardTop (cardWidth len) (cardLabel (cardWidth len) label)
        (cardNumber (cardWidth len) (cardLabel (cardWidth len) label).length number) ::
          columns :: rows) ++ ['\x00']) ∧
      Columns len (codesPerRow len) (cardWidth len) columns ∧
      Rows a len (codesPerRow len) passcard rows := by
  obtain ⟨hc2, hc11⟩ := codesPerRow_bounds hlen.1 hlen.2
  have hwidthEq := cardWidth_eq len
  have hsize := cardSize_eq (cardWidth len)
  have hten : rowsPerCard = 10 := rfl
  obtain ⟨columns, hhead, hcolumns, hheadLen⟩ := cardText_head hlen label number
  obtain ⟨c, hc⟩ : ∃ c, codesPerRow len = c + 1 := ⟨codesPerRow len - 1, by omega⟩
  rw [cardText] at h
  simp only [bind, Except.bind, hhead] at h
  generalize hnum : numMulI (numSubI passcard 1) (BitVec.ofNat 64 (codesPerRow len * rowsPerCard)) =
    codeNum at h
  generalize hW : cardWidth len = W at *
  generalize cardTop W (cardLabel W label) (cardNumber W (cardLabel W label).length number) =
    top at *
  rw [hc] at h hwidthEq hc11 hnum hcolumns ⊢
  -- the rows take up the rest of the buffer, up to its last byte
  cases hrun : cardRows a len (c + 1) rowsPerCard 1 codeNum
      (Pen.behind ((W + 1) * (rowsPerCard + 2) + 1) (unlines [top, columns])) with
  | error e => rw [hrun] at h; cases h
  | ok p =>
    rw [hrun] at h
    obtain ⟨rows, rfl, hrowsLen, hwidths, hrows⟩ := cardRows_spec (by omega) hlen.2 c
      rowsPerCard 1 codeNum _ (by rw [hten]; omega)
      (by rw [hheadLen, ← hwidthEq, hsize]; omega) hrun
    have hwidths : ∀ l ∈ rows, l.length = W := fun l hl =>
      Nat.succ.inj ((hwidths l hl).trans hwidthEq.symm)
    rw [← unlines_append] at h
    have htext : (unlines ([top, columns] ++ rows)).length + 1 =
        (W + 1) * (rowsPerCard + 2) + 1 := by
      rw [unlines_append, List.length_append, hheadLen, length_unlines hwidths, hrowsLen, hsize]
    generalize hlines : unlines ([top, columns] ++ rows) = lines at h htext
    have hpage : (Pen.behind (lines.length + 1) lines).buf.set (lines.length + 1 - 1) '\x00' =
        lines ++ ['\x00'] := by
      rw [Pen.behind, Nat.add_sub_cancel, Nat.add_sub_cancel_left,
        List.set_append_right _ _ (Nat.le_refl _), Nat.sub_self]
      rfl
    rw [← htext] at h
    simp only [hpage] at h
    cases h
    refine ⟨columns, rows, by rw [← hlines]; rfl, hcolumns, hrowsLen, ?_, fun r hr => ?_⟩
    · rw [hW]
      exact hwidths
    · obtain ⟨codes, hrow, hcodes⟩ := hrows r hr
      refine ⟨codes, by rw [hrow, Nat.add_comm 1 r], hcodes.length, hcodes.width, fun k hk => ?_⟩
      obtain ⟨m, passcode, hm, hget, hin⟩ := hcodes.codes k hk
      refine ⟨m, passcode, ?_, hget, hin⟩
      -- the product of the C code is the number of the first cell, modulo the width of a number
      have hsmall : (c + 1) * rowsPerCard < 2 ^ 64 := by
        rw [hten]
        omega
      have hone : (1 : Word64).toNat = 1 := rfl
      rw [hm, ← hnum, Num.toNat_numMulI, Num.toNat_numSubI, hone, BitVec.toNat_ofNat,
        Nat.mod_eq_of_lt hsmall, numberAt, Nat.add_assoc, Nat.mod_add_mod]
      simp only [Nat.add_zero, Nat.add_assoc]

/-- The width of the lines of a card. -/
theorem Rows.lines_width {columns : List Char} {rows : List (List Char)} {c : ℕ}
    (hrows : Rows a len c passcard rows) (hlen : 2 ≤ len ∧ len ≤ 16)
    (hcolumns : Columns len c (cardWidth len) columns) (label number : List Char) :
    ∀ l ∈ cardTop (cardWidth len) (cardLabel (cardWidth len) label)
        (cardNumber (cardWidth len) (cardLabel (cardWidth len) label).length number) ::
          columns :: rows, l.length = cardWidth len := by
  have hlabel := length_cardLabel (cardWidth_range hlen) label
  exact List.forall_mem_cons.mpr ⟨length_cardTop (length_cardNumber hlabel number),
    List.forall_mem_cons.mpr ⟨hcolumns.length, hrows.width⟩⟩

/-- Every cell of a card that is returned is filled from the answer for its
number; the rows and the columns are where their labels are. -/
theorem cardText_cells (hlen : 2 ≤ len ∧ len ≤ 16)
    (h : cardText a len label number passcard = .ok out) :
    ∃ page, out = cstr page ∧ ∀ r < rowsPerCard, ∀ k < codesPerRow len,
      Cell page ((r + 2) * (cardWidth len + 1)) (rowLabel (r + 1)) ∧
      Cell page (cardWidth len + 1 + (4 + k * (len + 1))) [columnChar k] ∧
      ∀ m : Num, m.toNat = numberAt (codesPerRow len) ((2 ^ 128 + passcard.toNat - 1) % 2 ^ 128)
          r k % 2 ^ 128 →
        ∃ passcode, a.getPasscode m = .ok passcode ∧
          Cell page ((r + 2) * (cardWidth len + 1) + (4 + k * (len + 1)))
            (cardCode len passcode) := by
  obtain ⟨columns, rows, rfl, hcolumns, hrows⟩ := cardText_lines hlen h
  refine ⟨_, rfl, fun r hr k hk => ?_⟩
  have hwidth := hrows.lines_width hlen hcolumns label number
  obtain ⟨codes, hrow, hcodes⟩ := hrows.codes r hr
  have hline := (cell_unlines (k := r + 2) hwidth hrow).append ['\x00']
  have hlabel : Cell (rowLabel (r + 1) ++ joinSep ' ' codes) 0 (rowLabel (r + 1)) := cell_self _ _
  refine ⟨hline.trans hlabel, ?_, fun m hm => ?_⟩
  · have htop := (cell_unlines (k := 1) hwidth rfl).append ['\x00']
    rw [Nat.one_mul] at htop
    exact htop.trans (hcolumns.letters k hk)
  · obtain ⟨m', passcode, hm', hget, hin⟩ := hcodes.codes k hk
    obtain rfl : m' = m := Num.ext_toNat (by rw [hm', hm]; rfl)
    have htoken : Cell (joinSep ' ' codes) (k * (len + 1)) (cardCode len passcode) :=
      cell_joinSep hcodes.width hin
    have hcell := htoken.shift (rowLabel (r + 1))
    have hten : rowsPerCard = 10 := rfl
    rw [length_rowLabel (by omega)] at hcell
    exact ⟨passcode, hget, hline.trans hcell⟩

/-- The cells of the card that `card_ascii` returns. -/
theorem cardAscii_cells {codeLength : Word32} (hget : a.getInt .codeLength = .ok codeLength)
    (hlen : 2 ≤ codeLength.toNat ∧ codeLength.toNat ≤ 16)
    (h : cardAscii a host passcard = .ok out) :
    ∃ page, out = cstr page ∧ ∀ r < rowsPerCard, ∀ k < codesPerRow codeLength.toNat,
      Cell page ((r + 2) * (cardWidth codeLength.toNat + 1)) (rowLabel (r + 1)) ∧
      Cell page (cardWidth codeLength.toNat + 1 + (4 + k * (codeLength.toNat + 1)))
        [columnChar k] ∧
      ∀ m : Num, m.toNat = numberAt (codesPerRow codeLength.toNat)
          ((2 ^ 128 + passcard.toNat - 1) % 2 ^ 128) r k % 2 ^ 128 →
        ∃ passcode, a.getPasscode m = .ok passcode ∧
          Cell page ((r + 2) * (cardWidth codeLength.toNat + 1) + (4 + k * (codeLength.toNat + 1)))
            (cardCode codeLength.toNat passcode) := by
  rw [cardAscii, hget] at h
  simp only at h
  cases hstr : a.getStr .label with
  | error e => rw [hstr] at h; cases h
  | ok label =>
    rw [hstr, numExportDec_eq] at h
    exact cardText_cells hlen h

/-! ## Agreement -/

/-- The counter that has the number `m` and the salt of the state. -/
theorem justCounter_addSalt (s : State) (hsalt : s.saltMask = saltMask)
    (hcode : s.codeMask = codeMask) {m : Num}
    (hm : s.flags &&& flagSalted ≠ 0 → m.toNat < 2 ^ 32) :
    (s.setCounter (pppAddSalt s m)).justCounter = m := by
  have hflags : (s.setCounter (pppAddSalt s m)).flags = s.flags := rfl
  have hmask : (s.setCounter (pppAddSalt s m)).codeMask = codeMask := hcode
  have hcounter : (s.setCounter (pppAddSalt s m)).counter = pppAddSalt s m := rfl
  rw [State.justCounter, hflags, hmask, hcounter, pppAddSalt, hsalt, hcode]
  by_cases h : s.flags &&& flagSalted = 0
  · rw [if_neg (not_not.mpr h), if_neg (not_not.mpr h)]
  · rw [if_pos h, if_pos h]
    refine Num.ext_toNat ?_
    have hlt := hm h
    have hsaltLt := s.counter.toNat_lt
    rw [toNat_and_codeMask, Num.toNat_numAdd, toNat_and_codeMask, toNat_and_saltMask]
    omega

theorem pppGetInt_codesOnCard {s : State} {v : Word32} (h : s.codesOnCard = v) (hv : v ≠ 0) :
    pppGetInt s .codesOnCard = .ret v := by
  subst h
  rw [pppGetInt, Prog.assert, if_pos hv]
  exact Prog.ret_bind _ _

theorem pppGetInt_codesInRow {s : State} {v : Word32} (h : s.codesInRow = v) (hv : v ≠ 0) :
    pppGetInt s .codesInRow = .ret v := by
  subst h
  rw [pppGetInt, Prog.assert, if_pos hv]
  exact Prog.ret_bind _ _

/-- The getters of a state that `ppp_calculate` has gone over. -/
theorem Getters.Of.rows {s : State} (ha : a.Of (calculate s))
    (hlen : 2 ≤ s.codeLength.toNat ∧ s.codeLength.toNat ≤ 16) :
    a.Rows (codesPerRow s.codeLength.toNat) ∧ a.getInt .codeLength = .ok s.codeLength := by
  obtain ⟨-, -, -, hcodes, hrow⟩ := calculate_position hlen rfl
  obtain ⟨h2, h11⟩ := codesPerRow_bounds hlen.1 hlen.2
  have hpos : 0 < codesPerRow s.codeLength.toNat * rowsPerCard :=
    Nat.mul_pos (by omega) (by decide)
  have hlt : codesPerRow s.codeLength.toNat * rowsPerCard < 2 ^ 32 :=
    lt_of_le_of_lt (Nat.mul_le_mul_right rowsPerCard h11) (by decide)
  have hnz : ∀ n : ℕ, 0 < n → n < 2 ^ 32 → BitVec.ofNat 32 n ≠ 0 := by
    intro n hpos hlt h
    have hzero : (BitVec.ofNat 32 n).toNat = (0 : Word32).toNat := congrArg BitVec.toNat h
    rw [BitVec.toNat_ofNat, Nat.mod_eq_of_lt hlt] at hzero
    exact hpos.ne' hzero
  have hlength : pppGetInt (calculate s) .codeLength = .ret s.codeLength := by
    have h : (calculate s).codeLength = s.codeLength := by simp only [calculate]
    rw [pppGetInt, h]
    rfl
  refine ⟨⟨ha.getInt _ _ ?_, ha.getInt _ _ ?_⟩, ha.getInt _ _ hlength⟩
  · exact pppGetInt_codesOnCard hcodes (hnz _ hpos hlt)
  · exact pppGetInt_codesInRow hrow (hnz _ (by omega) (by omega))

end

/-- The getters of a state, with stars for passcodes. -/
def starGetters (s : State) : Getters where
  getInt field := match pppGetInt s field with
    | .ret v => .ok v
    | _ => .error 1
  getNum field := match pppGetNum s field with
    | .ret v => .ok v
    | _ => .error 1
  getStr _ := .ok []
  getPasscode _ := .ok ['*', '*', '*', '*']

theorem starGetters_of (s : State) : (starGetters s).Of s where
  getInt field v h := by simp only [starGetters, h]
  getNum field v h := by simp only [starGetters, h]

/-- A state that has used up its first card. -/
def usedAlice : State := aliceState.setCounter (numII 1 85)

end Otpasswd
