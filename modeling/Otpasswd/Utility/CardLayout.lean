import Otpasswd.Utility.Cards

/-!
# Otpasswd.Utility.CardLayout — the layout of a printed card

As long as the agent answers with passcodes of the length of the state,
`card_ascii` stays in its buffer and returns twelve lines of one width.

Main results: `cardRows_total` and `cardAscii_layout`.
-/

namespace Otpasswd

open CText

section

variable {a : Getters} {len size : ℕ}

/-! ## Cards that are returned -/

/-- The number is answered with a passcode of this length. -/
def Answered (a : Getters) (len : ℕ) (m : Num) : Prop :=
  ∃ passcode, a.getPasscode m = .ok passcode ∧ passcode.length = len ∧ '\x00' ∉ passcode

theorem cardCode_self {passcode : List Char} (h : passcode.length = len) :
    cardCode len passcode = passcode := List.take_left' h

/-- A row is printed when its numbers are answered. -/
theorem cardCells_total (h16 : len ≤ 16) (n : ℕ) (codeNum : Num) (p : Pen) (text : List Char)
    (hput : ∀ code : List Char, code.length = len →
      p.put code = .ok (Pen.behind size (text ++ code)))
    (hroom : text.length + (n + 1) * (len + 1) ≤ size)
    (hcodes : ∀ k ≤ n, ∀ m : Num, m.toNat = (codeNum.toNat + k) % 2 ^ 128 → Answered a len m) :
    ∃ next p', cardCells a len (n + 1) codeNum p = .ok (next, p') := by
  obtain ⟨passcode, hget, hlen, -⟩ := hcodes 0 (Nat.zero_le n) codeNum (by
    rw [Nat.add_zero, Nat.mod_eq_of_lt codeNum.toNat_lt])
  have hcode := length_cardCode h16 passcode
  induction n generalizing codeNum p text passcode with
  | zero =>
    have hend : (Pen.behind size (text ++ cardCode len passcode)).put ['\n'] =
        .ok (Pen.behind size (text ++ cardCode len passcode ++ ['\n'])) := by
      refine Pen.put_behind ?_
      rw [List.length_append, List.length_append, hcode, List.length_singleton]
      omega
    refine ⟨numAddI codeNum 1, Pen.behind size (text ++ cardCode len passcode ++ ['\n']), ?_⟩
    rw [cardCells]
    simp only [hget, bind, Except.bind, hput _ hcode, ne_eq, not_true_eq_false, if_false, hend,
      cardCells]
  | succ n ih =>
    have hsize : (n + 1 + 1) * (len + 1) = len + 1 + (n + 1) * (len + 1) := by ring
    have hnext : len + 1 ≤ (n + 1) * (len + 1) := Nat.le_mul_of_pos_left _ (Nat.succ_pos n)
    have hskip : (Pen.behind size (text ++ cardCode len passcode)).skip 1 =
        Pen.behind size (text ++ cardCode len passcode ++ [' ']) :=
      Pen.skip_behind (by rw [List.length_append, hcode]; omega)
    have htext : (text ++ cardCode len passcode ++ [' ']).length = text.length + (len + 1) := by
      rw [List.length_append, List.length_append, hcode, List.length_singleton, Nat.add_assoc]
    have hrest : ∀ k ≤ n, ∀ m : Num,
        m.toNat = ((numAddI codeNum 1).toNat + k) % 2 ^ 128 → Answered a len m := by
      intro k hk m hm
      refine hcodes (k + 1) (Nat.succ_le_succ hk) m ?_
      have hone : (1 : Word64).toNat = 1 := rfl
      rw [hm, Num.toNat_numAddI, hone, Nat.mod_add_mod, Nat.add_assoc, Nat.add_comm 1 k]
    obtain ⟨passcode', hget', hlen', -⟩ := hrest 0 (Nat.zero_le n) (numAddI codeNum 1) (by
      rw [Nat.add_zero, Nat.mod_eq_of_lt (numAddI codeNum 1).toNat_lt])
    obtain ⟨next, p', hrun⟩ := ih (numAddI codeNum 1) _ _
      (fun code hc => Pen.put_behind (by rw [List.length_append, htext, hc]; omega))
      (by rw [htext]; omega) hrest passcode' hget' hlen' (length_cardCode h16 passcode')
    refine ⟨next, p', ?_⟩
    rw [cardCells]
    simp only [hget, bind, Except.bind, hput _ hcode, ne_eq, Nat.add_eq_zero_iff, one_ne_zero,
      and_false, not_false_eq_true, if_true, hskip]
    exact hrun

/-- The rows are printed when their numbers are answered. -/
theorem cardRows_total (h1 : 0 < len) (h16 : len ≤ 16) (c n i : ℕ) (codeNum : Num)
    (text : List Char) (hi : i + n ≤ 100)
    (hroom : text.length + n * (4 + (c + 1) * (len + 1)) ≤ size)
    (hcodes : ∀ r < n, ∀ k ≤ c, ∀ m : Num,
      m.toNat = (codeNum.toNat + (r * (c + 1) + k)) % 2 ^ 128 → Answered a len m) :
    ∃ p', cardRows a len (c + 1) n i codeNum (Pen.behind size text) = .ok p' := by
  induction n generalizing i codeNum text with
  | zero => exact ⟨_, rfl⟩
  | succ n ih =>
    have hlabel := length_rowLabel (show i < 100 by omega)
    have hsize : text.length + (4 + (c + 1) * (len + 1)) +
        n * (4 + (c + 1) * (len + 1)) ≤ size := by
      rw [Nat.add_mul, Nat.one_mul] at hroom
      omega
    have hfirst : len + 1 ≤ (c + 1) * (len + 1) := Nat.le_mul_of_pos_left _ (Nat.succ_pos c)
    have hput : (Pen.behind size text).put (rowLabel i ++ ['\x00']) =
        .ok (Pen.behind size (text ++ rowLabel i ++ ['\x00'])) := by
      rw [List.append_assoc]
      refine Pen.put_behind ?_
      simp only [List.length_append, hlabel, List.length_singleton]
      omega
    have hback : ∀ code : List Char, code.length = len →
        ((Pen.behind size (text ++ rowLabel i ++ ['\x00'])).back 1).put code =
          .ok (Pen.behind size (text ++ rowLabel i ++ code)) := fun code hc =>
      @Pen.put_back size (text ++ rowLabel i) code ['\x00']
        (by rw [List.length_singleton, hc]; exact h1)
        (by rw [List.length_append, List.length_append, hlabel, hc]; omega)
    have hfits : (text ++ rowLabel i).length + (c + 1) * (len + 1) ≤ size := by
      rw [List.length_append, hlabel]
      omega
    obtain ⟨next, p, hcells⟩ := cardCells_total h16 c codeNum _ _ hback hfits fun k hk m hm =>
      hcodes 0 (Nat.succ_pos n) k hk m (by rw [hm, Nat.zero_mul, Nat.zero_add])
    obtain ⟨codes, rfl, hnext, hrow⟩ := cardCells_spec h16 c codeNum _ _ hback hfits hcells
    have hline := hrow.length_line ' '
    obtain ⟨p', hrest⟩ := ih (i + 1) next (text ++ rowLabel i ++ (joinSep ' ' codes ++ ['\n']))
      (by omega)
      (by simp only [List.length_append, hlabel, List.length_singleton]; omega)
      fun r hr k hk m hm => hcodes (r + 1) (Nat.succ_lt_succ hr) k hk m (by
        rw [hm, hnext, Nat.mod_add_mod]
        ring_nf)
    refine ⟨p', ?_⟩
    rw [cardRows]
    simp only [hput, bind, Except.bind, hcells]
    exact hrest

/-! ## The layout -/

variable {label host : List Char} {passcard : Num}

/-- The number of a passcode on this card. -/
def OnCard (c : ℕ) (passcard m : Num) : Prop :=
  ∃ r < rowsPerCard, ∃ k < c, m.toNat = numberAt c (passcard.toNat - 1) r k % 2 ^ 128

/-- The label in full, or its beginning and three dots. -/
def Shortened (full shown : List Char) : Prop :=
  shown = full ∨ ∃ n, n + 3 < full.length ∧ shown = full.take n ++ ['.', '.', '.']

/-- The digits in full, or a star and the last ones. -/
def Truncated (full shown : List Char) : Prop :=
  shown = full ∨ ∃ tail, tail ≠ [] ∧ tail <:+ full ∧ tail.length < full.length ∧ shown = '*' :: tail

/-- The lines of a card. Rows and lines count from one, columns from zero. -/
structure CardLayout (a : Getters) (len : ℕ) (label : List Char) (passcard : Num)
    (lines : List (List Char)) : Prop where
  count : lines.length = 12
  width : ∀ l ∈ lines, l.length = cardWidth len
  header : ∃ shown digits blanks, lines[0]? = some (shown ++ List.replicate (blanks + 1) ' ' ++
      ('[' :: digits ++ [']'])) ∧
    Shortened label shown ∧ Truncated (Nat.toDigits 10 passcard.toNat) digits
  codes : ∀ i, 1 ≤ i → i ≤ 10 → ∀ y < codesPerRow len, ∃ line m passcode,
    lines[i + 2 - 1]? = some line ∧
    m.toNat = numberAt (codesPerRow len) (passcard.toNat - 1) (i - 1) y % 2 ^ 128 ∧
    a.getPasscode m = .ok passcode ∧ passcode.length = len ∧
    Cell line (4 + y * (len + 1)) passcode
  newlines : '\n' ∉ label → (∀ m, OnCard (codesPerRow len) passcard m →
    ∀ passcode, a.getPasscode m = .ok passcode → '\n' ∉ passcode) → ∀ l ∈ lines, '\n' ∉ l

theorem shortened_cardLabel {width : ℕ} (hwidth : 27 ≤ width) (label : List Char) :
    Shortened label (cardLabel width label) := by
  unfold cardLabel
  split_ifs with h
  · exact .inr ⟨width - 8 - 3, by omega, rfl⟩
  · exact .inl rfl

theorem truncated_cardNumber {width labelLen : ℕ} (hlabel : labelLen + 8 ≤ width)
    (number : List Char) : Truncated number (cardNumber width labelLen number) := by
  unfold cardNumber
  split_ifs with h
  · rw [List.drop_drop]
    refine .inr ⟨_, ?_, List.drop_suffix _ _, ?_, rfl⟩
    · rw [← List.length_pos_iff, List.length_drop]
      omega
    · rw [List.length_drop]
      omega
  · exact .inl rfl

theorem cardText_total {number : List Char} (hlen : 2 ≤ len ∧ len ≤ 16)
    (hcard : 1 ≤ passcard.toNat)
    (hcodes : ∀ m, OnCard (codesPerRow len) passcard m → Answered a len m) :
    ∃ out, cardText a len label number passcard = .ok out := by
  obtain ⟨hc2, hc11⟩ := codesPerRow_bounds hlen.1 hlen.2
  have hwidth := cardWidth_eq len
  have hten : rowsPerCard = 10 := rfl
  obtain ⟨columns, hhead, -, hheadLen⟩ := cardText_head hlen label number
  obtain ⟨c, hc⟩ : ∃ c, codesPerRow len = c + 1 := ⟨codesPerRow len - 1, by omega⟩
  have hsmall : (c + 1) * rowsPerCard < 2 ^ 64 := by
    rw [hten]
    omega
  have hone : (1 : Word64).toNat = 1 := rfl
  rw [cardText]
  simp only [bind, Except.bind, hhead]
  rw [hc] at hwidth hcodes ⊢
  obtain ⟨p, hrows⟩ := @cardRows_total a len ((cardWidth len + 1) * (rowsPerCard + 2) + 1) (by omega) hlen.2 c rowsPerCard 1
    (numMulI (numSubI passcard 1) (BitVec.ofNat 64 ((c + 1) * rowsPerCard))) _ (by rw [hten]; omega)
    (by rw [hheadLen, ← hwidth, cardSize_eq]; omega) fun r hr k hk m hm =>
      hcodes m ⟨r, hr, k, Nat.lt_succ_of_le hk, by
        rw [hm, Num.toNat_numMulI, Num.toNat_numSubI, hone, card_pred passcard hcard,
          BitVec.toNat_ofNat, Nat.mod_eq_of_lt hsmall, numberAt, Nat.mod_add_mod, Nat.add_assoc]⟩
  rw [hrows]
  exact ⟨_, rfl⟩

/-- The row labels are plain text. -/
theorem rowLabel_plain {i : ℕ} (hi : 1 ≤ i ∧ i ≤ 10) :
    '\x00' ∉ rowLabel i ∧ '\n' ∉ rowLabel i := by
  obtain ⟨h1, h10⟩ := hi
  interval_cases i <;> decide

theorem columnChar_plain {k : ℕ} (hk : k < 12) : columnChar k ≠ '\x00' ∧ columnChar k ≠ '\n' := by
  interval_cases k <;> decide

/-- A character of the columns is neither a NUL nor a newline. -/
theorem Columns.plain {c width : ℕ} {line : List Char} (h : Columns len c width line)
    (hc : c ≤ 12) : '\x00' ∉ line ∧ '\n' ∉ line := by
  constructor
  · intro hx
    rcases h.chars _ hx with h0 | ⟨k, hk, h0⟩
    · exact absurd h0 (by decide)
    · exact (columnChar_plain (by omega)).1 h0.symm
  · intro hx
    rcases h.chars _ hx with h0 | ⟨k, hk, h0⟩
    · exact absurd h0 (by decide)
    · exact (columnChar_plain (by omega)).2 h0.symm

theorem Shortened.mem {full shown : List Char} {x : Char} (h : Shortened full shown)
    (hx : x ∈ shown) : x ∈ full ∨ x = '.' := by
  rcases h with rfl | ⟨n, -, rfl⟩
  · exact .inl hx
  · rcases List.mem_append.mp hx with h | h
    · exact .inl (List.mem_of_mem_take h)
    · simp only [List.mem_cons, List.not_mem_nil, or_false, or_self] at h
      exact .inr h

theorem Truncated.mem {full shown : List Char} {x : Char} (h : Truncated full shown)
    (hx : x ∈ shown) : x ∈ full ∨ x = '*' := by
  rcases h with rfl | ⟨tail, -, hsuffix, -, rfl⟩
  · exact .inl hx
  · rcases List.mem_cons.mp hx with rfl | h
    · exact .inr rfl
    · exact .inl (hsuffix.subset h)

/-- The label and the number do not touch. -/
theorem cardTop_eq {width : ℕ} {shown digits : List Char}
    (h : digits.length + 3 + shown.length ≤ width) :
    ∃ blanks, cardTop width shown digits =
      shown ++ List.replicate (blanks + 1) ' ' ++ ('[' :: digits ++ [']']) := by
  refine ⟨width - digits.length - 2 - shown.length - 1, ?_⟩
  rw [Nat.sub_add_cancel (by omega)]
  rfl

/-- The first line has a character of the label, or one that is printed. -/
theorem cardTop_mem {width n : ℕ} {shown digits : List Char} {x : Char}
    (hlabel : Shortened label shown) (hdigits : Truncated (Nat.toDigits 10 n) digits)
    (hx : x ∈ cardTop width shown digits) : x ∈ label ∨ x ≠ '\x00' ∧ x ≠ '\n' := by
  unfold cardTop at hx
  rcases List.mem_append.mp hx with h | h
  · rcases List.mem_append.mp h with h | h
    · rcases hlabel.mem h with h | rfl
      · exact .inl h
      · exact .inr (by decide)
    · rw [List.eq_of_mem_replicate h]
      exact .inr (by decide)
  · refine .inr ?_
    rcases List.mem_append.mp h with h | h
    · rcases List.mem_append.mp h with h | h
      · rw [List.mem_singleton.mp h]
        decide
      · rcases hdigits.mem h with h | rfl
        · obtain ⟨-, -, -, -, hnewline, hnul, -⟩ := digit_plain
            (isDigitOf_of_mem_toDigits (by decide) (by decide) h)
          exact ⟨hnul, hnewline⟩
        · decide
    · rw [List.mem_singleton.mp h]
      decide

/-- A character of a row is printed there, or it is one of a passcode. -/
theorem Rows.mem {c : ℕ} {rows : List (List Char)} (hrows : Rows a len c passcard rows)
    (hcard : 1 ≤ passcard.toNat) (hcodes : ∀ m, OnCard c passcard m → Answered a len m)
    {l : List Char} (hl : l ∈ rows) {x : Char} (hx : x ∈ l) : (x ≠ '\x00' ∧ x ≠ '\n') ∨
      ∃ m passcode, OnCard c passcard m ∧ a.getPasscode m = .ok passcode ∧ '\x00' ∉ passcode ∧
        x ∈ passcode := by
  have hten : rowsPerCard = 10 := rfl
  obtain ⟨r, hr, rfl⟩ := List.getElem_of_mem hl
  rw [hrows.length] at hr
  obtain ⟨codes, hrow, hrowCodes⟩ := hrows.codes r hr
  obtain ⟨_, hline⟩ := List.getElem?_eq_some_iff.mp hrow
  rw [hline] at hx
  rcases List.mem_append.mp hx with h | h
  · obtain ⟨hnul, hnewline⟩ := @rowLabel_plain (r + 1) (by omega)
    exact .inl ⟨fun h0 => hnul (h0 ▸ h), fun h0 => hnewline (h0 ▸ h)⟩
  · rcases mem_joinSep h with rfl | ⟨code, hcode, hx⟩
    · exact .inl (by decide)
    · obtain ⟨k, hk, rfl⟩ := List.getElem_of_mem hcode
      rw [hrowCodes.length] at hk
      obtain ⟨m, passcode, hm, hget, hin⟩ := hrowCodes.codes k hk
      have hon : OnCard c passcard m := by
        refine ⟨r, hr, k, hk, ?_⟩
        rw [hm, card_pred passcard hcard]
        rfl
      obtain ⟨passcode', hget', hlen, hnul⟩ := hcodes m hon
      obtain rfl := Except.ok.inj (hget.symm.trans hget')
      obtain ⟨_, hcode⟩ := List.getElem?_eq_some_iff.mp hin
      rw [hcode, cardCode_self hlen] at hx
      exact .inr ⟨m, passcode, hon, hget, hnul, hx⟩

/-- The passcode of a row and a column. -/
theorem Rows.code {c : ℕ} {rows : List (List Char)} (hrows : Rows a len c passcard rows)
    (hcard : 1 ≤ passcard.toNat) (hcodes : ∀ m, OnCard c passcard m → Answered a len m)
    {r y : ℕ} (hr : r < rowsPerCard) (hy : y < c) :
    ∃ line m passcode, rows[r]? = some line ∧
      m.toNat = numberAt c (passcard.toNat - 1) r y % 2 ^ 128 ∧
      a.getPasscode m = .ok passcode ∧ passcode.length = len ∧
      Cell line (4 + y * (len + 1)) passcode := by
  have hten : rowsPerCard = 10 := rfl
  obtain ⟨codes, hrow, hrowCodes⟩ := hrows.codes r hr
  obtain ⟨m, passcode, hm, hget, hin⟩ := hrowCodes.codes y hy
  have hm : m.toNat = numberAt c (passcard.toNat - 1) r y % 2 ^ 128 := by
    rw [hm, card_pred passcard hcard]
    rfl
  obtain ⟨passcode', hget', hlen, -⟩ := hcodes m ⟨r, hr, y, hy, hm⟩
  obtain rfl := Except.ok.inj (hget.symm.trans hget')
  have htoken : Cell (joinSep ' ' codes) (y * (len + 1)) (cardCode len passcode) :=
    cell_joinSep hrowCodes.width hin
  have hcell := htoken.shift (rowLabel (r + 1))
  rw [length_rowLabel (by omega), cardCode_self hlen] at hcell
  exact ⟨_, m, passcode, hrow, hm, hget, hlen, hcell⟩

/-- What is printed for a label: the host name, where there is none. -/
def cardName (host label : List Char) : List Char :=
  if label = [] then host.take stateLabelSize else label

/-- A card is returned, and has its layout. -/
theorem cardAscii_layout (a : Getters) (host label : List Char) (passcard : Num)
    (codeLength : Word32) (hget : a.getInt .codeLength = .ok codeLength)
    (hlen : 2 ≤ codeLength.toNat ∧ codeLength.toNat ≤ 16) (hlabel : a.getStr .label = .ok label)
    (hnul : '\x00' ∉ label) (hhost : '\x00' ∉ host) (hcard : 1 ≤ passcard.toNat)
    (hcodes : ∀ m, OnCard (codesPerRow codeLength.toNat) passcard m →
      Answered a codeLength.toNat m) :
    ∃ lines, cardAscii a host passcard = .ok (unlines lines) ∧
      CardLayout a codeLength.toNat (cardName host label) passcard lines := by
  obtain ⟨hc2, hc11⟩ := codesPerRow_bounds hlen.1 hlen.2
  have hc12 : codesPerRow codeLength.toNat ≤ 12 := hc11.trans (by decide)
  have hwidth := cardWidth_range hlen
  have hname : '\x00' ∉ cardName host label := by
    unfold cardName
    split_ifs
    · exact fun h => hhost (List.mem_of_mem_take h)
    · exact hnul
  have hrun : cardAscii a host passcard = cardText a codeLength.toNat (cardName host label)
      (Nat.toDigits 10 passcard.toNat) passcard := by
    rw [cardAscii, hget]
    simp only
    rw [hlabel, numExportDec_eq]
    rfl
  generalize hL : cardName host label = name at hname hrun ⊢
  generalize codeLength.toNat = len at *
  -- the text is complete, since every code on the card has an answer
  obtain ⟨out, htext⟩ := @cardText_total a len name passcard (Nat.toDigits 10 passcard.toNat) hlen hcard hcodes
  obtain ⟨columns, rows, rfl, hcolumns, hrows⟩ := cardText_lines hlen htext
  have hroom := length_cardLabel hwidth name
  have hwidths := hrows.lines_width hlen hcolumns name (Nat.toDigits 10 passcard.toNat)
  have hshown := shortened_cardLabel hwidth name
  have hdigits := truncated_cardNumber hroom (Nat.toDigits 10 passcard.toNat)
  have hnumLen := length_cardNumber hroom (Nat.toDigits 10 passcard.toNat)
  set top := cardTop (cardWidth len) (cardLabel (cardWidth len) name)
    (cardNumber (cardWidth len) (cardLabel (cardWidth len) name).length (Nat.toDigits 10 passcard.toNat))
  -- no NUL is printed, so the string ends where the text does
  have hplain : ∀ l ∈ top :: columns :: rows, '\x00' ∉ l := by
    refine List.forall_mem_cons.mpr ⟨fun h => ?_,
      List.forall_mem_cons.mpr ⟨(hcolumns.plain hc12).1, fun l hl h => ?_⟩⟩
    · rcases cardTop_mem hshown hdigits h with h | h
      · exact hname h
      · exact h.1 rfl
    · rcases hrows.mem hcard hcodes hl h with h | ⟨m, passcode, -, -, hpass, hx⟩
      · exact h.1 rfl
      · exact hpass hx
  have hout : '\x00' ∉ unlines (top :: columns :: rows) := by
    intro h
    obtain ⟨l, hl, h⟩ := List.mem_flatMap.mp h
    rcases List.mem_append.mp h with h | h
    · exact hplain l hl h
    · exact absurd (List.mem_singleton.mp h) (by decide)
  refine ⟨top :: columns :: rows, ?_, ?_⟩
  · rw [hrun, htext, cstr_append_nul, cstr_eq_self hout]
  · -- the lines, their width, the top line, the codes, and where newlines may be
    refine ⟨?_, hwidths, ?_, fun i h1 h10 y hy => ?_, fun hlabelLine hcodeLine => ?_⟩
    · rw [List.length_cons, List.length_cons, hrows.length]
    · obtain ⟨blanks, hblanks⟩ := cardTop_eq hnumLen
      exact ⟨_, _, blanks, congrArg some hblanks, hshown, hdigits⟩
    · have hi : i - 1 < rowsPerCard := Nat.lt_of_lt_of_le (Nat.sub_one_lt_of_lt h1) h10
      have hindex : i + 2 - 1 = i - 1 + 2 := by omega
      obtain ⟨line, hline⟩ := hrows.code hcard hcodes hi hy
      rw [hindex]
      exact ⟨line, hline⟩
    · refine List.forall_mem_cons.mpr ⟨fun h => ?_,
        List.forall_mem_cons.mpr ⟨(hcolumns.plain hc12).2, fun l hl h => ?_⟩⟩
      · rcases cardTop_mem hshown hdigits h with h | h
        · exact hlabelLine h
        · exact h.2 rfl
      · rcases hrows.mem hcard hcodes hl h with h | ⟨m, passcode, hon, hgetCode, -, hx⟩
        · exact h.2 rfl
        · exact hcodeLine m hon passcode hgetCode hx

end

/-- The last card of alice's key, on a host of a long name. -/
theorem cardAscii_layout_alice :
    ∃ lines, cardAscii (starGetters aliceState) (List.replicate 64 'h')
        (numII (BitVec.allOnes 64) (BitVec.allOnes 64)) = .ok (unlines lines) ∧
      CardLayout (starGetters aliceState) 4 (List.replicate 30 'h')
        (numII (BitVec.allOnes 64) (BitVec.allOnes 64)) lines :=
  cardAscii_layout (starGetters aliceState) (List.replicate 64 'h') []
    (numII (BitVec.allOnes 64) (BitVec.allOnes 64)) 4 (by decide +kernel) (by decide) rfl
    (by decide) (by decide) (by decide) fun _ _ => ⟨['*', '*', '*', '*'], rfl, rfl, by decide⟩

end Otpasswd
