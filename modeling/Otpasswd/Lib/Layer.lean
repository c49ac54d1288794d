import Otpasswd.Lib.Prog

/-!
# Otpasswd.Lib.Layer — programs over an interface

A program over the calls of an interface, where every call is itself a program
over a lower signature. `expand` puts the implementations in place of the
calls; `runOver` runs them and keeps the list of the calls made so far with
their answers and the states around them, which is what a specification of the
upper program speaks of.

The history changes nothing of what the expanded program does (`run_expand`).

`wpOver` is the weakest precondition of `runOver`: `wpOver_call` takes a
specification of the implementation, and `wpOver_seq` composes.

An interpretation (`interpret`) gives the calls a meaning on a state of their
own, where a call may fail to return. Two of them that agree call by call, up
to a relation on the states, agree on every program (`interpret_agree`).
-/

universe u v

namespace Prog

variable {C : Type u} {R : C → Type u} {D : Type u} {S : D → Type u} {α β : Type u} {W : Type v}

/-- A call that was made, with its answer and the states around it. -/
structure Made (C : Type u) (R : C → Type u) (W : Type v) where
  c : C
  before : W
  reply : R c
  after : W

/-- The calls made so far, the last one at the end. -/
abbrev History (C : Type u) (R : C → Type u) (W : Type v) := List (Made C R W)

/-- Put the implementations in place of the calls. -/
def expand (impl : (c : C) → Prog D S (R c)) : Prog C R α → Prog D S α
  | ret a => ret a
  | stop why => stop why
  | call c k => impl c >>= fun x => (k x).expand impl

/-- Run the implementations of the calls, and add each call to the history. A
call whose implementation stops is not added. -/
def runOver (impl : (c : C) → Prog D S (R c)) (h : (d : D) → W → S d × W) :
    Prog C R α → W → History C R W → Option α × W × History C R W
  | ret a, w, tr => (some a, w, tr)
  | stop _, w, tr => (none, w, tr)
  | call c k, w, tr =>
    match (impl c).run h w with
    | (none, w') => (none, w', tr)
    | (some x, w') => (k x).runOver impl h w' (tr ++ [⟨c, w, x, w'⟩])

section Rules

variable {impl : (c : C) → Prog D S (R c)} {h : (d : D) → W → S d × W} {w : W}
  {tr : History C R W}

/-- The expanded program does the same, without a history. -/
theorem run_expand (p : Prog C R α) :
    (p.expand impl).run h w = ((p.runOver impl h w tr).1, (p.runOver impl h w tr).2.1) := by
  induction p generalizing w tr with
  | ret a => rfl
  | stop why => rfl
  | call c k ih =>
    change (impl c >>= fun x => (k x).expand impl).run h w = _
    rw [run_bind]
    simp only [runOver]
    rcases (impl c).run h w with ⟨_ | x, w'⟩
    · rfl
    · exact ih x

/-- Running `p` from `w`, after the calls of `tr`, ends with `Q`. -/
def wpOver (impl : (c : C) → Prog D S (R c)) (h : (d : D) → W → S d × W) (p : Prog C R α)
    (Q : Option α → W → History C R W → Prop) (w : W) (tr : History C R W) : Prop :=
  Q (p.runOver impl h w tr).1 (p.runOver impl h w tr).2.1 (p.runOver impl h w tr).2.2

variable {p : Prog C R α} {Q : Option α → W → History C R W → Prop}

@[simp] theorem wpOver_ret (a : α) : wpOver impl h (ret a) Q w tr ↔ Q (some a) w tr := Iff.rfl

@[simp] theorem wpOver_stop (why : Stop) :
    wpOver impl h (stop why : Prog C R α) Q w tr ↔ Q none w tr := Iff.rfl

theorem wpOver_mono {Q' : Option α → W → History C R W → Prop} (hp : wpOver impl h p Q w tr)
    (hQ : ∀ r w' tr', Q r w' tr' → Q' r w' tr') : wpOver impl h p Q' w tr :=
  hQ _ _ _ hp

theorem wpOver_and {Q' : Option α → W → History C R W → Prop} (hp : wpOver impl h p Q w tr)
    (hp' : wpOver impl h p Q' w tr) :
    wpOver impl h p (fun r w' tr' => Q r w' tr' ∧ Q' r w' tr') w tr :=
  ⟨hp, hp'⟩

/-- A call, by a specification of its implementation. -/
theorem wpOver_call {c : C} {k : R c → Prog C R α} {P : Option (R c) → W → Prop}
    (hc : wp h (impl c) P w) (hstop : ∀ w', P none w' → Q none w' tr)
    (hnext : ∀ x w', P (some x) w' → wpOver impl h (k x) Q w' (tr ++ [⟨c, w, x, w'⟩])) :
    wpOver impl h (issue c >>= k) Q w tr := by
  unfold wp at hc
  unfold wpOver
  change Q (runOver impl h (call c k) w tr).1 (runOver impl h (call c k) w tr).2.1
    (runOver impl h (call c k) w tr).2.2
  simp only [runOver]
  rcases hrun : (impl c).run h w with ⟨_ | x, w'⟩
  · rw [hrun] at hc
    exact hstop w' hc
  · rw [hrun] at hc
    exact hnext x w' hc

theorem wpOver_seq {f : α → Prog C R β} {Q : Option β → W → History C R W → Prop}
    {P : Option α → W → History C R W → Prop} (hp : wpOver impl h p P w tr)
    (hstop : ∀ w' tr', P none w' tr' → Q none w' tr')
    (hnext : ∀ a w' tr', P (some a) w' tr' → wpOver impl h (f a) Q w' tr') :
    wpOver impl h (p >>= f) Q w tr := by
  induction p generalizing w tr with
  | ret a => exact hnext a w tr hp
  | stop why => exact hstop w tr hp
  | call c k ih =>
    unfold wpOver at hp ⊢
    change Q (runOver impl h (call c fun x => k x >>= f) w tr).1
      (runOver impl h (call c fun x => k x >>= f) w tr).2.1
      (runOver impl h (call c fun x => k x >>= f) w tr).2.2
    simp only [runOver] at hp ⊢
    rcases hrun : (impl c).run h w with ⟨_ | x, w'⟩
    · rw [hrun] at hp
      exact hstop w' tr hp
    · rw [hrun] at hp
      exact ih x hp

@[simp] theorem wpOver_assert_bind (b : Prop) [Decidable b] {f : PUnit → Prog C R α} :
    wpOver impl h (assert b >>= f) Q w tr ↔
      if b then wpOver impl h (f ⟨⟩) Q w tr else Q none w tr := by
  by_cases hb : b <;> simp [assert, hb]

/-- A run only adds to the history. -/
theorem wpOver_behind : wpOver impl h p (fun _ _ tr' => ∃ post, tr' = tr ++ post) w tr := by
  induction p generalizing w tr with
  | ret a => exact ⟨[], (List.append_nil tr).symm⟩
  | stop why => exact ⟨[], (List.append_nil tr).symm⟩
  | call c k ih =>
    change wpOver impl h (issue c >>= k) _ w tr
    refine wpOver_call (P := fun _ _ => True) trivial (fun w' _ => ?_) fun x w' _ => ?_
    · exact ⟨[], (List.append_nil tr).symm⟩
    · refine wpOver_mono (ih x) fun r w'' tr' hpost => ?_
      obtain ⟨post, rfl⟩ := hpost
      exact ⟨⟨c, w, x, w'⟩ :: post, by simp⟩

end Rules

/-! ## Interpretations -/

/-- Run a program on a meaning of its calls; a call that has no reply does not
return. -/
def interpret (m : (c : C) → W → Option (R c) × W) : Prog C R α → W → Option α × W
  | ret a, w => (some a, w)
  | stop _, w => (none, w)
  | call c k, w =>
    match m c w with
    | (none, w') => (none, w')
    | (some x, w') => (k x).interpret m w'

/-- The calls that the run makes, in order. -/
def calls (m : (c : C) → W → Option (R c) × W) : Prog C R α → W → List C
  | ret _, _ => []
  | stop _, _ => []
  | call c k, w =>
    match m c w with
    | (none, _) => [c]
    | (some x, w') => c :: (k x).calls m w'

section Interpret

variable {V : Type v} {m : (c : C) → W → Option (R c) × W} {n : (c : C) → V → Option (R c) × V}

/-- Two meanings agree up to a relation on their states. -/
def Agree (m : (c : C) → W → Option (R c) × W) (n : (c : C) → V → Option (R c) × V)
    (rel : W → V → Prop) : Prop :=
  ∀ c w v, rel w v → (m c w).1 = (n c v).1 ∧ rel (m c w).2 (n c v).2

/-- Meanings that agree on the calls agree on the programs. -/
theorem interpret_agree {rel : W → V → Prop} (hagree : Agree m n rel) (p : Prog C R α) {w : W}
    {v : V} (hrel : rel w v) :
    (p.interpret m w).1 = (p.interpret n v).1 ∧
      rel (p.interpret m w).2 (p.interpret n v).2 := by
  induction p generalizing w v with
  | ret a => exact ⟨rfl, hrel⟩
  | stop why => exact ⟨rfl, hrel⟩
  | call c k ih =>
    have hcall := hagree c w v hrel
    unfold interpret
    rcases hm : m c w with ⟨x, w'⟩
    rcases hn : n c v with ⟨y, v'⟩
    rw [hm, hn] at hcall
    obtain ⟨rfl, hrel'⟩ := hcall
    cases x with
    | none => exact ⟨rfl, hrel'⟩
    | some x => exact ih x hrel'

theorem calls_agree {rel : W → V → Prop} (hagree : Agree m n rel) (p : Prog C R α) {w : W}
    {v : V} (hrel : rel w v) : p.calls m w = p.calls n v := by
  induction p generalizing w v with
  | ret a => rfl
  | stop why => rfl
  | call c k ih =>
    have hcall := hagree c w v hrel
    unfold calls
    rcases hm : m c w with ⟨x, w'⟩
    rcases hn : n c v with ⟨y, v'⟩
    rw [hm, hn] at hcall
    obtain ⟨rfl, hrel'⟩ := hcall
    cases x with
    | none => rfl
    | some x => exact congrArg (c :: ·) (ih x hrel')

/-- A program whose calls all return, and that does not stop by itself. -/
theorem interpret_returns {P : C → Prop} {w : W} (hm : ∀ c w, P c → (m c w).1 ≠ none)
    {p : Prog C R α} (hp : p.Sat (fun _ _ => True) P (fun _ => False) (fun _ => True)) :
    (p.interpret m w).1 ≠ none := by
  induction p generalizing w with
  | ret a => exact Option.some_ne_none a
  | stop why => exact hp.elim
  | call c k ih =>
    have hc := hm c w hp.1
    unfold interpret
    rcases hrun : m c w with ⟨x, w'⟩
    rw [hrun] at hc
    cases x with
    | none => exact absurd rfl hc
    | some x => exact ih x (hp.2 x trivial)

end Interpret

end Prog
