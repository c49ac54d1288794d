import Mathlib.Data.List.Basic
import Mathlib.Tactic

/-!
# Otpasswd.Lib.ExactRead — reading a stream in pieces

A reader takes the next `n` elements of a stream, or fails, and then nothing
of the stream is left. This is what a buffered reader implements, however its
buffer is filled.

Main results: `delivered_readAll` and `readAll_rest` say what a run of reads
delivers and leaves.
-/

universe u

variable {α : Type u}

/-- The next `n` elements, and what is left. A read that fails leaves nothing. -/
def readExact (rest : List α) (n : ℕ) : Option (List α) × List α :=
  if n ≤ rest.length then (some (rest.take n), rest.drop n) else (none, [])

/-- One read after another. -/
def readAll : List α → List ℕ → List (Option (List α)) × List α
  | rest, [] => ([], rest)
  | rest, n :: ns =>
    let r := readExact rest n
    let rs := readAll r.2 ns
    (r.1 :: rs.1, rs.2)

/-- What the reads that succeeded delivered. -/
def delivered (rs : List (Option (List α))) : List α := rs.flatMap fun r => r.getD []

theorem readExact_of_le {rest : List α} {n : ℕ} (h : n ≤ rest.length) :
    readExact rest n = (some (rest.take n), rest.drop n) := if_pos h

theorem readExact_of_lt {rest : List α} {n : ℕ} (h : rest.length < n) :
    readExact rest n = (none, []) := if_neg (Nat.not_le.mpr h)

/-- What is delivered is the stream from its beginning. -/
theorem delivered_readAll (rest : List α) (ns : List ℕ) :
    delivered (readAll rest ns).1 <+: rest := by
  induction ns generalizing rest with
  | nil => exact List.nil_prefix
  | cons n ns ih =>
    have hstep : delivered (readAll rest (n :: ns)).1 =
        (readExact rest n).1.getD [] ++ delivered (readAll (readExact rest n).2 ns).1 := rfl
    rw [hstep]
    by_cases h : n ≤ rest.length
    · rw [readExact_of_le h]
      have hrest := ih (rest.drop n)
      calc rest.take n ++ delivered (readAll (rest.drop n) ns).1
          <+: rest.take n ++ rest.drop n := (List.prefix_append_right_inj _).mpr hrest
        _ = rest := List.take_append_drop n rest
    · rw [readExact_of_lt (Nat.not_le.mp h)]
      rw [List.prefix_nil.mp (ih [])]
      exact List.nil_prefix

/-- What is left after a run of reads: as long as all succeed, the stream less
what was delivered, and then nothing. -/
theorem readAll_rest (rest : List α) (ns : List ℕ) :
    (readAll rest ns).2 =
      if (readAll rest ns).1.all Option.isSome = true then rest.drop ns.sum else [] := by
  have hend (ns : List ℕ) : (readAll ([] : List α) ns).2 = [] := by
    induction ns with
    | nil => rfl
    | cons n ns ih =>
      have hnil : (readExact ([] : List α) n).2 = [] := by
        unfold readExact
        split_ifs
        · exact List.drop_nil
        · rfl
      change (readAll (readExact ([] : List α) n).2 ns).2 = []
      rw [hnil, ih]
  induction ns generalizing rest with
  | nil => exact (if_pos rfl).symm
  | cons n ns ih =>
    change (readAll (readExact rest n).2 ns).2 = if ((readExact rest n).1.isSome &&
      (readAll (readExact rest n).2 ns).1.all Option.isSome) = true then _ else _
    by_cases h : n ≤ rest.length
    · rw [readExact_of_le h]
      simp only [Option.isSome_some, Bool.true_and]
      rw [ih, List.drop_drop, List.sum_cons]
    · rw [readExact_of_lt (Nat.not_le.mp h)]
      simp only [Option.isSome_none, Bool.false_and, Bool.false_eq_true, if_false]
      exact hend ns
