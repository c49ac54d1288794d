import Otpasswd.Lib.CText

/-!
# Otpasswd.Lib.Scan — conversions of `sscanf` that leave a rest

`%d` and scan sets, each with what is left of the string after it. A
conversion is characterized by how it splits the string: `scanSet_eq_some` and
`scanInt_eq_some`, with `scanSet_run` and `scanInt_digits` the other way.
`scanUnsigned_ne_none` says from which strings an unsigned number is read.
-/

namespace CText

/-- `strcasecmp(spec, word) == 0`. -/
def sameWord (spec word : List Char) : Prop := spec.map Char.toLower = word.map Char.toLower

instance (spec word : List Char) : Decidable (sameWord spec word) :=
  inferInstanceAs (Decidable (_ = _))

/-! ## Runs of characters -/

/-- A run of characters of the class `p` stops in front of `s`. -/
def Stops (p : Char → Bool) (s : List Char) : Prop := ∀ c ∈ s.head?, p c = false

section

variable {p : Char → Bool} {xs ys xs' ys' s run rest : List Char} {width : ℕ}

theorem stops_nil : Stops p [] := fun _ h => by cases h

theorem stops_cons {c : Char} (h : p c = false) : Stops p (c :: s) := by
  intro x hx
  obtain rfl := Option.some.inj hx
  exact h

theorem stops_dropWhile (p : Char → Bool) (s : List Char) : Stops p (s.dropWhile p) := by
  intro c hc
  have := List.head?_dropWhile_not p s
  rw [Option.mem_def.mp hc] at this
  simpa using this

theorem takeWhile_run (hrun : ∀ c ∈ xs, p c = true) (hstop : Stops p ys) :
    (xs ++ ys).takeWhile p = xs := by
  rw [List.takeWhile_append_of_pos hrun]
  cases ys with
  | nil => rw [List.takeWhile_nil, List.append_nil]
  | cons c ys =>
    rw [List.takeWhile_cons_of_neg (by rw [hstop c rfl]; exact Bool.false_ne_true), List.append_nil]

theorem dropWhile_run (hrun : ∀ c ∈ xs, p c = true) (hstop : Stops p ys) :
    (xs ++ ys).dropWhile p = ys := by
  rw [List.dropWhile_append_of_pos hrun]
  cases ys with
  | nil => rfl
  | cons c ys =>
    rw [List.dropWhile_cons_of_neg (by rw [hstop c rfl]; exact Bool.false_ne_true)]

/-- A run and the rest after it are determined by the string. -/
theorem run_unique (hrun : ∀ c ∈ xs, p c = true) (hstop : Stops p ys)
    (hrun' : ∀ c ∈ xs', p c = true) (hstop' : Stops p ys') (h : xs ++ ys = xs' ++ ys') :
    xs = xs' ∧ ys = ys' := by
  have hxs : xs = xs' := by
    rw [← takeWhile_run hrun hstop, h, takeWhile_run hrun' hstop']
  subst hxs
  exact ⟨rfl, List.append_cancel_left h⟩

/-! ## Scan sets -/

/-- `%<width>[...]`: the longest run of at most `width` characters of the set, and
the rest; `none` if the run is empty. -/
def scanSet (width : ℕ) (p : Char → Bool) (s : List Char) : Option (List Char × List Char) :=
  let run := (s.takeWhile p).take width
  if run = [] then none else some (run, s.drop run.length)

/-- A scan set takes all of a short run and the front of a long one. -/
theorem scanSet_run (hrun : ∀ c ∈ run, p c = true) (hne : run ≠ []) (hle : run.length ≤ width)
    (hstop : run.length < width → Stops p rest) :
    scanSet width p (run ++ rest) = some (run, rest) := by
  have htake : ((run ++ rest).takeWhile p).take width = run := by
    rcases Nat.lt_or_ge run.length width with hlt | hge
    · rw [takeWhile_run hrun (hstop hlt), List.take_of_length_le hle]
    · rw [List.takeWhile_append_of_pos hrun, List.take_append_of_le_length hge,
        List.take_of_length_le hle]
  rw [scanSet]
  simp only [htake, if_neg hne, List.drop_left]

theorem scanSet_eq_some (h : scanSet width p s = some (run, rest)) :
    s = run ++ rest ∧ run ≠ [] ∧ (∀ c ∈ run, p c = true) ∧ run.length ≤ width ∧
      (run.length < width → Stops p rest) := by
  have hs : s = s.takeWhile p ++ s.dropWhile p := List.takeWhile_append_dropWhile.symm
  have hall : ∀ c ∈ s.takeWhile p, p c = true := List.all_eq_true.mp List.all_takeWhile
  have hstop := stops_dropWhile p s
  rw [scanSet] at h
  generalize s.takeWhile p = front at *
  generalize s.dropWhile p = back at *
  subst hs
  by_cases hempty : front.take width = []
  · rw [if_pos hempty] at h
    cases h
  rw [if_neg hempty] at h
  obtain ⟨rfl, rfl⟩ := Prod.mk.inj (Option.some.inj h)
  have hlen : (front.take width).length = min width front.length := List.length_take
  refine ⟨?_, hempty, fun c hc => hall c (List.mem_of_mem_take hc), by omega, fun hlt => ?_⟩
  · have hpre : front.take width = (front ++ back).take (front.take width).length := by
      rw [hlen, List.take_append_of_le_length (Nat.min_le_right _ _), ← List.take_eq_take_min]
    conv_lhs => rw [← List.take_append_drop (front.take width).length (front ++ back)]
    rw [← hpre]
  · have hfront : front.take width = front := List.take_of_length_le (by omega)
    rw [hfront, List.drop_left]
    exact hstop

/-! ## Signed numbers -/

/-- The value that `%d` stores: `strtol` keeps to the range of `long`, of which
the low 32 bits go to the `int`. -/
def intOfDigits (neg : Bool) (ds : List Char) : ℤ :=
  let v : ℤ := digitsVal 10 ds 0
  (BitVec.ofInt 32 (if neg then max (-2 ^ 63) (-v) else min (2 ^ 63 - 1) v)).toInt

/-- `%d`: blanks, a sign and digits. -/
def scanInt (s : List Char) : Option (ℤ × List Char) :=
  let (neg, _, s) := scanSign 0 (s.dropWhile isSpace)
  if s.takeWhile (isDigitOf 10) = [] then none
  else some (intOfDigits neg (s.takeWhile (isDigitOf 10)), s.dropWhile (isDigitOf 10))

/-- What `%d` skips in front of the digits: blanks, then a sign, which is negative
if `neg`. -/
inductive Pad : Bool → List Char → Prop
  | plain (blanks : List Char) (h : ∀ c ∈ blanks, isSpace c = true) : Pad false blanks
  | plus (blanks : List Char) (h : ∀ c ∈ blanks, isSpace c = true) : Pad false (blanks ++ ['+'])
  | minus (blanks : List Char) (h : ∀ c ∈ blanks, isSpace c = true) : Pad true (blanks ++ ['-'])

/-- Characters that are all decimal digits, one at least. -/
def Digits (ds : List Char) : Prop := ds ≠ [] ∧ ∀ c ∈ ds, isDigitOf 10 c = true

theorem Digits.stops_space {ds : List Char} (h : Digits ds) (s : List Char) :
    Stops isSpace (ds ++ s) := by
  obtain ⟨hne, hall⟩ := h
  obtain ⟨d, ds, rfl⟩ := List.exists_cons_of_ne_nil hne
  exact stops_cons (digit_plain (hall d (List.mem_cons_self ..))).1

theorem scanInt_digits {neg : Bool} {pad ds : List Char} (hpad : Pad neg pad) (hds : Digits ds)
    (hstop : Stops (isDigitOf 10) rest) :
    scanInt (pad ++ (ds ++ rest)) = some (intOfDigits neg ds, rest) := by
  have hsign : ∀ neg n, (scanSign 0 ((pad ++ (ds ++ rest)).dropWhile isSpace)) =
      (neg, n, ds ++ rest) → scanInt (pad ++ (ds ++ rest)) = some (intOfDigits neg ds, rest) := by
    intro neg n h
    rw [scanInt, h]
    simp only [takeWhile_run hds.2 hstop, dropWhile_run hds.2 hstop, if_neg hds.1]
  cases hpad with
  | plain _ h =>
    refine hsign false 0 ?_
    rw [dropWhile_run h (hds.stops_space rest)]
    obtain ⟨d, ds, rfl⟩ := List.exists_cons_of_ne_nil hds.1
    exact scanSign_digit _ (hds.2 d (List.mem_cons_self ..))
  | plus blanks h =>
    refine hsign false 0 ?_
    rw [List.append_assoc, List.singleton_append, dropWhile_run h (stops_cons (by decide))]
    rfl
  | minus blanks h =>
    refine hsign true 0 ?_
    rw [List.append_assoc, List.singleton_append, dropWhile_run h (stops_cons (by decide))]
    rfl

theorem scanSign_cases (width : ℕ) (s : List Char) :
    (∃ r, s = '-' :: r ∧ scanSign width s = (true, width - 1, r)) ∨
      (∃ r, s = '+' :: r ∧ scanSign width s = (false, width - 1, r)) ∨
      scanSign width s = (false, width, s) := by
  unfold scanSign
  split
  · exact .inl ⟨_, rfl, rfl⟩
  · exact .inr (.inl ⟨_, rfl, rfl⟩)
  · exact .inr (.inr rfl)

theorem scanInt_eq_some {v : ℤ} (h : scanInt s = some (v, rest)) :
    ∃ neg pad ds, s = pad ++ (ds ++ rest) ∧ Pad neg pad ∧ Digits ds ∧ v = intOfDigits neg ds ∧
      Stops (isDigitOf 10) rest := by
  have hall : ∀ u : List Char, ∀ c ∈ u.takeWhile (isDigitOf 10), isDigitOf 10 c = true :=
    fun u => List.all_eq_true.mp List.all_takeWhile
  have hdigits : ∀ neg (u : List Char),
      (if u.takeWhile (isDigitOf 10) = [] then none
        else some (intOfDigits neg (u.takeWhile (isDigitOf 10)), u.dropWhile (isDigitOf 10))) =
        some (v, rest) →
      ∃ ds, u = ds ++ rest ∧ Digits ds ∧ v = intOfDigits neg ds ∧
        Stops (isDigitOf 10) rest := by
    intro neg u h
    by_cases hne : u.takeWhile (isDigitOf 10) = []
    · rw [if_pos hne] at h
      cases h
    rw [if_neg hne] at h
    obtain ⟨hv, rfl⟩ := Prod.mk.inj (Option.some.inj h)
    exact ⟨u.takeWhile (isDigitOf 10), List.takeWhile_append_dropWhile.symm, ⟨hne, hall u⟩,
      hv.symm, stops_dropWhile _ u⟩
  have hs : s = s.takeWhile isSpace ++ s.dropWhile isSpace :=
    List.takeWhile_append_dropWhile.symm
  have hblank : ∀ c ∈ s.takeWhile isSpace, isSpace c = true :=
    List.all_eq_true.mp List.all_takeWhile
  rw [scanInt] at h
  generalize s.takeWhile isSpace = blanks at *
  generalize s.dropWhile isSpace = u at *
  subst hs
  rcases scanSign_cases 0 u with ⟨r, rfl, hsign⟩ | ⟨r, rfl, hsign⟩ | hsign
  · rw [hsign] at h
    obtain ⟨ds, rfl, hds, hv, hstop⟩ := hdigits true _ h
    exact ⟨true, blanks ++ ['-'], ds, by rw [List.append_assoc]; rfl, .minus blanks hblank,
      hds, hv, hstop⟩
  · rw [hsign] at h
    obtain ⟨ds, rfl, hds, hv, hstop⟩ := hdigits false _ h
    exact ⟨false, blanks ++ ['+'], ds, by rw [List.append_assoc]; rfl, .plus blanks hblank,
      hds, hv, hstop⟩
  · rw [hsign] at h
    obtain ⟨ds, rfl, hds, hv, hstop⟩ := hdigits false _ h
    exact ⟨false, blanks, ds, rfl, .plain blanks hblank, hds, hv, hstop⟩

/-! ## Unsigned numbers -/

theorem scanPrefix_cases (base width : ℕ) (s : List Char) :
    (∃ r, s = '0' :: r ∧ base = 16 ∧ (scanPrefix base width s).1 = true) ∨
      scanPrefix base width s = (false, width, s) := by
  unfold scanPrefix
  split
  · split_ifs with h
    · exact .inl ⟨_, rfl, h.1, rfl⟩
    · exact .inr rfl
  · exact .inr rfl

/-- A text that a number is read from: blanks and a sign, then a digit. -/
def Numeral (base : ℕ) (s : List Char) : Prop :=
  ∃ neg pad d rest, s = pad ++ d :: rest ∧ Pad neg pad ∧ isDigitOf base d = true

/-- Behind the sign there is a digit, and the field width has room for it. -/
theorem scanUnsigned_sign {base n : ℕ} {neg : Bool} {t : List Char}
    (hsign : scanSign width (s.dropWhile isSpace) = (neg, n, t)) (hn : t ≠ [] → 1 ≤ n) :
    scanUnsigned base width s ≠ none ↔ ∃ d rest, t = d :: rest ∧ isDigitOf base d = true := by
  unfold scanUnsigned
  rw [hsign]
  simp only
  rcases scanPrefix_cases base n t with ⟨r, rfl, rfl, hzero⟩ | hplain
  · rw [if_neg (by rw [hzero]; simp)]
    refine iff_of_true ?_ ⟨'0', r, rfl, by decide⟩
    split_ifs
    all_goals exact Option.some_ne_none _
  · rw [hplain]
    simp only [and_true]
    rcases t with _ | ⟨d, rest⟩
    · rw [if_pos (by simp)]
      exact iff_of_false (fun h => h rfl) fun ⟨_, _, h, _⟩ => nomatch h
    · obtain ⟨n, rfl⟩ := Nat.exists_eq_add_of_le' (hn (List.cons_ne_nil d rest))
      by_cases hd : isDigitOf base d = true
      · rw [if_neg (by simp [hd])]
        refine iff_of_true ?_ ⟨d, rest, rfl, hd⟩
        split_ifs
        all_goals exact Option.some_ne_none _
      · rw [if_pos (by simp [hd])]
        refine iff_of_false (fun h => h rfl) ?_
        rintro ⟨d', rest', heq, hd'⟩
        rw [(List.cons.inj heq).1] at hd
        exact hd hd'

/-- What a field of two or more characters, or of the text's length, converts. -/
theorem scanUnsigned_ne_none {base : ℕ} (hwidth : 2 ≤ width ∨ width = s.length) :
    scanUnsigned base width s ≠ none ↔ Numeral base s := by
  -- the text is blanks and the rest
  have hs : s = s.takeWhile isSpace ++ s.dropWhile isSpace :=
    List.takeWhile_append_dropWhile.symm
  have hblank : ∀ c ∈ s.takeWhile isSpace, isSpace c = true :=
    List.all_eq_true.mp List.all_takeWhile
  have hlen : s.length = (s.takeWhile isSpace).length + (s.dropWhile isSpace).length := by
    rw [← List.length_append, ← hs]
  constructor
  · -- a sign, or none, and then a digit
    intro h
    rcases scanSign_cases width (s.dropWhile isSpace) with ⟨r, hr, hsign⟩ | ⟨r, hr, hsign⟩ | hsign
    · rw [hr, List.length_cons] at hlen
      obtain ⟨d, rest, rfl, hd⟩ := (scanUnsigned_sign hsign fun hne => by
        have := List.length_pos_of_ne_nil hne
        omega).mp h
      refine ⟨true, s.takeWhile isSpace ++ ['-'], d, rest, ?_, .minus _ hblank, hd⟩
      rw [List.append_assoc, List.singleton_append, ← hr]
      exact hs
    · rw [hr, List.length_cons] at hlen
      obtain ⟨d, rest, rfl, hd⟩ := (scanUnsigned_sign hsign fun hne => by
        have := List.length_pos_of_ne_nil hne
        omega).mp h
      refine ⟨false, s.takeWhile isSpace ++ ['+'], d, rest, ?_, .plus _ hblank, hd⟩
      rw [List.append_assoc, List.singleton_append, ← hr]
      exact hs
    · obtain ⟨d, rest, hr, hd⟩ := (scanUnsigned_sign hsign fun hne => by
        have := List.length_pos_of_ne_nil hne
        omega).mp h
      refine ⟨false, s.takeWhile isSpace, d, rest, ?_, .plain _ hblank, hd⟩
      rw [← hr]
      exact hs
  · -- the padding is skipped, so the digit is reached
    rintro ⟨neg, pad, d, rest, rfl, hpad, hd⟩
    have hspace := (digit_plain hd).1
    simp only [List.length_append, List.length_cons] at hwidth
    cases hpad with
    | plain _ hblanks =>
      have hdrop : (pad ++ d :: rest).dropWhile isSpace = d :: rest :=
        dropWhile_run hblanks (stops_cons hspace)
      exact (scanUnsigned_sign (by rw [hdrop, scanSign_digit rest hd]) fun _ => by omega).mpr
        ⟨d, rest, rfl, hd⟩
    | plus blanks hblanks =>
      have hdrop : (blanks ++ ['+'] ++ d :: rest).dropWhile isSpace = '+' :: d :: rest := by
        rw [List.append_assoc]
        exact dropWhile_run hblanks (stops_cons (by decide))
      rw [List.length_append, List.length_singleton] at hwidth
      exact (scanUnsigned_sign (by rw [hdrop]; rfl) fun _ => by omega).mpr ⟨d, rest, rfl, hd⟩
    | minus blanks hblanks =>
      have hdrop : (blanks ++ ['-'] ++ d :: rest).dropWhile isSpace = '-' :: d :: rest := by
        rw [List.append_assoc]
        exact dropWhile_run hblanks (stops_cons (by decide))
      rw [List.length_append, List.length_singleton] at hwidth
      exact (scanUnsigned_sign (by rw [hdrop]; rfl) fun _ => by omega).mpr ⟨d, rest, rfl, hd⟩

end

end CText
