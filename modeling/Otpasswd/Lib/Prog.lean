import Mathlib.Logic.Function.Basic

/-!
# Otpasswd.Lib.Prog — command trees

A program over a signature of commands is a tree: it returns a value, stops
before its end, or issues a command and goes on with the reply. `run` answers
every command with a handler on a state `W`, from the first command to the
last; `Otpasswd.Lib.Pool` interleaves several trees on one state. `logged`
keeps the commands of a run.

`wp` is the weakest precondition of `run`; the rules below (`wp_call`,
`wp_seq`, `wp_mono`, `wp_of_sat`) are how specifications of programs are
composed. `stopped` tells what stopped a run: a failed assertion or a fault.
-/

universe u v

/-- What ends a program before it returns. -/
inductive Stop where
  /-- An assertion was evaluated with a false condition. -/
  | assertion
  /-- Memory was accessed that the program does not have. -/
  | fault
deriving DecidableEq

/-- Programs that issue commands `c : C` and are answered in `R c`. -/
inductive Prog (C : Type u) (R : C → Type u) (α : Type u) : Type u where
  /-- Return a value. -/
  | ret (a : α)
  /-- End here, without a value. -/
  | stop (why : Stop)
  /-- Issue a command and continue with its reply. -/
  | call (c : C) (k : R c → Prog C R α)

namespace Prog

variable {C : Type u} {R : C → Type u} {α β : Type u}

/-- Stop at a failed assertion. -/
abbrev abort : Prog C R α := stop .assertion

/-- Stop at an invalid access to memory. -/
abbrev crash : Prog C R α := stop .fault

/-- Sequencing; a program that has stopped does not go on. -/
def bind : Prog C R α → (α → Prog C R β) → Prog C R β
  | ret a, f => f a
  | stop why, _ => stop why
  | call c k, f => call c fun x => (k x).bind f

instance : Monad (Prog C R) where
  pure := ret
  bind := bind

@[simp] theorem ret_bind (a : α) (f : α → Prog C R β) : (ret a >>= f) = f a := rfl

@[simp] theorem stop_bind (why : Stop) (f : α → Prog C R β) :
    ((stop why : Prog C R α) >>= f) = stop why := rfl

@[simp] theorem call_bind (c : C) (k : R c → Prog C R α) (f : α → Prog C R β) :
    (call c k >>= f) = call c fun x => k x >>= f := rfl

theorem ret_pair {x x' : α} {y y' : β}
    (h : (ret (x, y) : Prog C R (α × β)) = ret (x', y')) : x = x' ∧ y = y' := by
  injection h with h
  exact Prod.mk.inj h

theorem call_ne_ret (c : C) (k : R c → Prog C R α) (a : α) : call c k ≠ ret a := by
  intro h
  cases h

@[simp] theorem pure_eq_ret (a : α) : (pure a : Prog C R α) = ret a := rfl

theorem id_map (p : Prog C R α) : id <$> p = p := by
  induction p with
  | ret a => rfl
  | stop why => rfl
  | call c k ih => exact congrArg (call c) (funext ih)

theorem bind_assoc {γ : Type u} (p : Prog C R α) (f : α → Prog C R β) (g : β → Prog C R γ) :
    p >>= f >>= g = p >>= fun a => f a >>= g := by
  induction p with
  | ret a => rfl
  | stop why => rfl
  | call c k ih => exact congrArg (call c) (funext ih)

instance : LawfulMonad (Prog C R) := LawfulMonad.mk' _ id_map (fun _ _ => rfl) bind_assoc

/-- Issue one command and return its reply. -/
def issue (c : C) : Prog C R (R c) := call c ret

/-- `assert` of C: go on if the condition holds, stop otherwise. -/
def assert (b : Prop) [Decidable b] : Prog C R PUnit := if b then ret ⟨⟩ else abort

/-! ## Execution -/

variable {W : Type v}

/-- Run a program to its end under a handler; `none` marks a run that stopped. -/
def run (h : (c : C) → W → R c × W) : Prog C R α → W → Option α × W
  | ret a, w => (some a, w)
  | stop _, w => (none, w)
  | call c k, w => (k (h c w).1).run h (h c w).2

/-- `wp h p Q w`: running `p` from `w` ends with `Q` of its result and state. -/
def wp (h : (c : C) → W → R c × W) (p : Prog C R α) (Q : Option α → W → Prop) (w : W) : Prop :=
  Q (p.run h w).1 (p.run h w).2

section Rules

variable {h : (c : C) → W → R c × W} {p : Prog C R α} {f : α → Prog C R β} {w : W}
  {Q : Option α → W → Prop}

@[simp] theorem wp_ret (a : α) : wp h (ret a) Q w ↔ Q (some a) w := Iff.rfl

@[simp] theorem wp_stop (why : Stop) : wp h (stop why : Prog C R α) Q w ↔ Q none w := Iff.rfl

@[simp] theorem wp_call (c : C) (k : R c → Prog C R α) :
    wp h (call c k) Q w ↔ wp h (k (h c w).1) Q (h c w).2 := Iff.rfl

@[simp] theorem wp_issue (c : C) {Q : Option (R c) → W → Prop} :
    wp h (issue c) Q w ↔ Q (some (h c w).1) (h c w).2 := Iff.rfl

theorem wp_mono {Q' : Option α → W → Prop} (hp : wp h p Q w) (hQ : ∀ r w', Q r w' → Q' r w') :
    wp h p Q' w :=
  hQ _ _ hp

theorem wp_and {Q' : Option α → W → Prop} (hp : wp h p Q w) (hp' : wp h p Q' w) :
    wp h p (fun r w' => Q r w' ∧ Q' r w') w :=
  ⟨hp, hp'⟩

theorem wp_run : wp h p (fun r w' => p.run h w = (r, w')) w := rfl

theorem run_bind :
    (p >>= f).run h w =
      match p.run h w with
      | (some a, w') => (f a).run h w'
      | (none, w') => (none, w') := by
  induction p generalizing w with
  | ret a => rfl
  | stop why => rfl
  | call c k ih => exact ih (h c w).1

/-- The rule of sequencing: a postcondition of the first program is the
precondition of the second. -/
theorem wp_seq {Q : Option β → W → Prop} {P : Option α → W → Prop} (hp : wp h p P w)
    (hstop : ∀ w', P none w' → Q none w')
    (hnext : ∀ a w', P (some a) w' → wp h (f a) Q w') : wp h (p >>= f) Q w := by
  unfold wp at hp ⊢
  rw [run_bind]
  rcases hrun : p.run h w with ⟨_ | a, w'⟩
  · rw [hrun] at hp
    exact hstop w' hp
  · rw [hrun] at hp
    exact hnext a w' hp

/-- The run is not stopped, and its result and state satisfy `V`. -/
def Returns (V : α → W → Prop) (r : Option α) (w : W) : Prop := ∃ a, r = some a ∧ V a w

/-- The rule of sequencing after a program that does not stop. -/
theorem wp_returns_seq {Q : Option β → W → Prop} {V : α → W → Prop} (hp : wp h p (Returns V) w)
    (hnext : ∀ a w', V a w' → wp h (f a) Q w') : wp h (p >>= f) Q w := by
  refine wp_seq hp (fun w' h => ?_) fun a w' h => ?_
  · obtain ⟨a, ha, -⟩ := h
    exact absurd ha.symm (Option.some_ne_none a)
  · obtain ⟨a', ha, hv⟩ := h
    exact hnext a w' (Option.some.inj ha ▸ hv)

/-- A first program whose run is known. -/
theorem wp_run_bind {Q : Option β → W → Prop} {a : α} {w' : W} (hp : p.run h w = (some a, w'))
    (hnext : wp h (f a) Q w') : wp h (p >>= f) Q w := by
  unfold wp at hnext ⊢
  rw [run_bind, hp]
  exact hnext

@[simp] theorem wp_issue_bind (c : C) {f : R c → Prog C R α} :
    wp h (issue c >>= f) Q w ↔ wp h (f (h c w).1) Q (h c w).2 := Iff.rfl

@[simp] theorem wp_assert_bind (b : Prop) [Decidable b] {f : PUnit → Prog C R α} :
    wp h (assert b >>= f) Q w ↔ if b then wp h (f ⟨⟩) Q w else Q none w := by
  by_cases hb : b <;> simp [assert, hb]

end Rules

/-! ## What a run stops for -/

/-- What stops the run, if it does not return. -/
def stopped {W : Type v} (h : (c : C) → W → R c × W) : Prog C R α → W → Option Stop
  | ret _, _ => none
  | stop why, _ => some why
  | call c k, w => (k (h c w).1).stopped h (h c w).2

/-- If the run stops, then for what satisfies `S`. -/
def StopsFor {W : Type v} (h : (c : C) → W → R c × W) (S : Stop → Prop) (p : Prog C R α) (w : W) :
    Prop :=
  ∀ why, p.stopped h w = some why → S why

section Stopped

variable {W : Type v} {h : (c : C) → W → R c × W} {p : Prog C R α} {w : W} {S : Stop → Prop}

theorem stopped_of_run_none (hrun : (p.run h w).1 = none) : ∃ why, p.stopped h w = some why := by
  induction p generalizing w with
  | ret a => exact absurd hrun (Option.some_ne_none a)
  | stop why => exact ⟨why, rfl⟩
  | call c k ih => exact ih _ hrun

theorem stopsFor_ret (a : α) : StopsFor h S (ret a : Prog C R α) w :=
  fun _ hwhy => absurd hwhy.symm (Option.some_ne_none _)

theorem StopsFor.mono {S' : Stop → Prop} (hp : StopsFor h S p w) (hS : ∀ why, S why → S' why) :
    StopsFor h S' p w :=
  fun why hwhy => hS why (hp why hwhy)

/-- A sequence stops where its first program does, or else in the second one. -/
theorem stopped_bind (f : α → Prog C R β) : (p >>= f).stopped h w =
    match p.run h w with
    | (some a, w') => (f a).stopped h w'
    | (none, _) => p.stopped h w := by
  induction p generalizing w with
  | ret a => rfl
  | stop why => rfl
  | call c k ih => exact ih (h c w).1

/-- The rule of sequencing. -/
theorem stopsFor_seq {f : α → Prog C R β} (hp : StopsFor h S p w)
    (hf : wp h p (fun r w' => ∀ a, r = some a → StopsFor h S (f a) w') w) :
    StopsFor h S (p >>= f) w := by
  intro why hwhy
  rw [stopped_bind] at hwhy
  unfold wp at hf
  rcases hrun : p.run h w with ⟨_ | a, w'⟩
  · rw [hrun] at hwhy
    exact hp why hwhy
  · rw [hrun] at hwhy hf
    exact hf a rfl why hwhy

end Stopped

/-! ## Runs with a log -/

/-- A handler that also notes each command, with the state it was issued in. -/
def logged (h : (c : C) → W → R c × W) (c : C) (w : W × List (C × W)) :
    R c × (W × List (C × W)) :=
  ((h c w.1).1, (h c w.1).2, w.2 ++ [(c, w.1)])

theorem logged_reply (h : (c : C) → W → R c × W) (c : C) (w : W × List (C × W)) :
    (logged h c w).1 = (h c w.1).1 := rfl

/-- The log is only written. -/
theorem run_logged {h : (c : C) → W → R c × W} (p : Prog C R α) (w : W × List (C × W)) :
    (p.run (logged h) w).1 = (p.run h w.1).1 ∧ (p.run (logged h) w).2.1 = (p.run h w.1).2 := by
  induction p generalizing w with
  | ret a => exact ⟨rfl, rfl⟩
  | stop why => exact ⟨rfl, rfl⟩
  | call c k ih => exact ih (h c w.1).1 (logged h c w).2

/-- Nothing is taken out of the log. -/
theorem wp_log {h : (c : C) → W → R c × W} (p : Prog C R α) (w : W × List (C × W)) :
    wp (logged h) p (fun _ w' => w.2 <+: w'.2) w := by
  induction p generalizing w with
  | ret a => exact List.prefix_refl _
  | stop why => exact List.prefix_refl _
  | call c k ih => exact (List.prefix_append _ _).trans (ih (h c w.1).1 (logged h c w).2)

theorem wp_logged {h : (c : C) → W → R c × W} {p : Prog C R α} {Q : Option α → W → Prop}
    {w : W × List (C × W)} (hp : wp h p Q w.1) : wp (logged h) p (fun r w' => Q r w'.1) w := by
  obtain ⟨hr, hw⟩ := run_logged (h := h) p w
  simp only [wp] at hp ⊢
  rwa [hr, hw]

/-! ## Facts that hold on every path -/

/-- A program stops at an assertion only if `S`, and crashes only if `K`. -/
def Stops (S K : Prop) : Stop → Prop
  | .assertion => S
  | .fault => K

theorem Stops.or {S K : Prop} (h : ∃ why, Stops S K why) : S ∨ K := by
  obtain ⟨_ | _, h⟩ := h
  · exact .inl h
  · exact .inr h

theorem Stops.mono {S S' K K' : Prop} (hS : S → S') (hK : K → K') (why : Stop)
    (h : Stops S K why) : Stops S' K' why := by
  cases why with
  | assertion => exact hS h
  | fault => exact hK h

/-- What is true of a program on every path along which the replies satisfy
`A`: the commands satisfy `P`, the values returned satisfy `V`, and it stops
only for what satisfies `S`. -/
def Sat (A : (c : C) → R c → Prop) (P : C → Prop) (S : Stop → Prop) (V : α → Prop) :
    Prog C R α → Prop
  | ret a => V a
  | stop why => S why
  | call c k => P c ∧ ∀ x, A c x → (k x).Sat A P S V

section Sat

variable {A : (c : C) → R c → Prop} {P : C → Prop} {S : Stop → Prop} {V : α → Prop}

@[simp] theorem sat_ret (a : α) : (ret a : Prog C R α).Sat A P S V ↔ V a := Iff.rfl

@[simp] theorem sat_stop (why : Stop) : (stop why : Prog C R α).Sat A P S V ↔ S why := Iff.rfl

@[simp] theorem sat_call (c : C) (k : R c → Prog C R α) :
    (call c k).Sat A P S V ↔ P c ∧ ∀ x, A c x → (k x).Sat A P S V := Iff.rfl

@[simp] theorem sat_issue (c : C) {V : R c → Prop} :
    (issue c : Prog C R (R c)).Sat A P S V ↔ P c ∧ ∀ x, A c x → V x := Iff.rfl

@[simp] theorem sat_issue_bind (c : C) {f : R c → Prog C R α} :
    (issue c >>= f).Sat A P S V ↔ P c ∧ ∀ x, A c x → (f x).Sat A P S V := Iff.rfl

@[simp] theorem sat_assert_bind (b : Prop) [Decidable b] {f : PUnit → Prog C R α} :
    ((assert b : Prog C R PUnit) >>= f).Sat A P S V ↔ (b → (f ⟨⟩).Sat A P S V) ∧ (¬ b → S .assertion) := by
  by_cases hb : b
  · simp only [assert, hb, if_true, ret_bind, true_imp_iff, not_true_eq_false, false_imp_iff,
      and_true]
  · simp only [assert, hb, if_false, stop_bind, sat_stop, false_imp_iff, not_false_eq_true,
      true_imp_iff, true_and]

theorem Sat.bind {V' : β → Prop} {p : Prog C R α} {f : α → Prog C R β} (hp : p.Sat A P S V)
    (hf : ∀ a, V a → (f a).Sat A P S V') : (p >>= f).Sat A P S V' := by
  induction p with
  | ret a => exact hf a hp
  | stop why => exact hp
  | call c k ih => exact ⟨hp.1, fun x hx => ih x (hp.2 x hx)⟩

theorem Sat.mono {P' : C → Prop} {S' : Stop → Prop} {V' : α → Prop} {p : Prog C R α}
    (hp : p.Sat A P S V) (hP : ∀ c, P c → P' c) (hS : ∀ y, S y → S' y) (hV : ∀ a, V a → V' a) :
    p.Sat A P' S' V' := by
  induction p with
  | ret a => exact hV a hp
  | stop why => exact hS why hp
  | call c k ih => exact ⟨hP c hp.1, fun x hx => ih x (hp.2 x hx)⟩

/-- Fewer answers are easier to deal with. -/
theorem Sat.answers {A' : (c : C) → R c → Prop} {p : Prog C R α} (hp : p.Sat A P S V)
    (hA : ∀ c x, A' c x → A c x) : p.Sat A' P S V := by
  induction p with
  | ret a => exact hp
  | stop why => exact hp
  | call c k ih => exact ⟨hp.1, fun x hx => ih x (hp.2 x (hA c x hx))⟩

/-- The invariant rule: what every permitted command preserves, the whole
program preserves, also when it stops early. -/
theorem wp_of_sat {h : (c : C) → W → R c × W} {I : W → Prop} {p : Prog C R α} {w : W}
    (hans : ∀ c w, P c → I w → A c (h c w).1) (hstep : ∀ c w, P c → I w → I (h c w).2)
    (hp : p.Sat A P S V) (hI : I w) :
    wp h p (fun r w' => I w' ∧ (r = none → ∃ y, S y) ∧ ∀ a, r = some a → V a) w := by
  induction p generalizing w with
  | ret a => exact ⟨hI, fun h => (nomatch h), fun _ h => Option.some.inj h ▸ hp⟩
  | stop why => exact ⟨hI, fun _ => ⟨why, hp⟩, fun _ h => nomatch h⟩
  | call c k ih => exact ih _ (hp.2 _ (hans c w hp.1 hI)) (hstep c w hp.1 hI)

/-- What no path stops for, no run stops for. -/
theorem Sat.stopsFor {h : (c : C) → W → R c × W} {I : W → Prop} {p : Prog C R α} {w : W}
    (hans : ∀ c w, P c → I w → A c (h c w).1) (hstep : ∀ c w, P c → I w → I (h c w).2)
    (hp : p.Sat A P S V) (hI : I w) : StopsFor h S p w := by
  induction p generalizing w with
  | ret a => exact stopsFor_ret a
  | stop why =>
    intro why' hwhy
    obtain rfl : why = why' := Option.some.inj hwhy
    exact hp
  | call c k ih => exact ih _ (hp.2 _ (hans c w hp.1 hI)) (hstep c w hp.1 hI)

/-- The values a program can return, whatever it is answered. -/
abbrev Yields (V : α → Prop) (p : Prog C R α) : Prop :=
  p.Sat (fun _ _ => True) (fun _ => True) (fun _ => True) V

theorem Yields.run {h : (c : C) → W → R c × W} {p : Prog C R α} (hp : p.Yields V) {w w' : W} {a : α}
    (hrun : p.run h w = (some a, w')) : V a := by
  have hwp := wp_of_sat (h := h) (I := fun _ => True) (w := w) (fun _ _ _ _ => trivial)
    (fun _ _ _ _ => trivial) hp trivial
  rw [wp, hrun] at hwp
  exact hwp.2.2 a rfl

/-- The commands a program can issue, whatever it is answered. -/
abbrev Issues (P : C → Prop) (p : Prog C R α) : Prop :=
  p.Sat (fun _ _ => True) P (fun _ => True) (fun _ => True)

/-- What a program adds to the log are such commands. -/
theorem Issues.wp_log {P : C → Prop} {h : (c : C) → W → R c × W} {p : Prog C R α}
    (hp : p.Issues P) (w : W × List (C × W)) :
    wp (logged h) p (fun _ w' => ∃ more, w'.2 = w.2 ++ more ∧ ∀ e ∈ more, P e.1) w := by
  induction p generalizing w with
  | ret a => exact ⟨[], (List.append_nil _).symm, List.forall_mem_nil _⟩
  | stop why => exact ⟨[], (List.append_nil _).symm, List.forall_mem_nil _⟩
  | call c k ih =>
    obtain ⟨more, hlog, hmore⟩ := ih (h c w.1).1 (hp.2 _ trivial) (logged h c w).2
    refine ⟨(c, w.1) :: more, hlog.trans ?_, List.forall_mem_cons.mpr ⟨hp.1, hmore⟩⟩
    exact List.append_assoc ..

theorem Sat.and_issues {P' : C → Prop} {p : Prog C R α} (hp : p.Sat A P S V) (hq : p.Issues P') :
    p.Sat A (fun c => P c ∧ P' c) S V := by
  induction p with
  | ret a => exact hp
  | stop why => exact hp
  | call c k ih => exact ⟨⟨hp.1, hq.1⟩, fun x hx => ih x (hp.2 x hx) (hq.2 x trivial)⟩

theorem issues_call {P : C → Prop} {c : C} {f : R c → Prog C R α} (hc : P c)
    (h : ∀ x, (f x).Issues P) : (issue c >>= f).Issues P :=
  ⟨hc, fun x _ => h x⟩

theorem Issues.bind {P : C → Prop} {p : Prog C R α} {f : α → Prog C R β} (hp : p.Issues P)
    (hf : ∀ a, (f a).Issues P) : (p >>= f).Issues P :=
  Sat.bind hp fun a _ => hf a

/-- Every program satisfies what says nothing. -/
theorem sat_true (p : Prog C R α) :
    p.Sat A (fun _ => True) (fun _ => True) (fun _ => True) := by
  induction p with
  | ret a => trivial
  | stop why => trivial
  | call c k ih => exact ⟨trivial, fun x _ => ih x⟩

/-- Continuations that agree on the values of a program. -/
theorem Yields.bind_congr {p : Prog C R α} {f g : α → Prog C R β} (hp : p.Yields V)
    (h : ∀ a, V a → f a = g a) : p >>= f = p >>= g := by
  induction p with
  | ret a => exact h a hp
  | stop why => rfl
  | call c k ih => exact congrArg (call c) (funext fun x => ih x (hp.2 x trivial))

end Sat

/-- As `Sat`, up to the first reply that `acq` singles out. From there on the
program, and the command that was answered, satisfy `F`. -/
def Until (A : (c : C) → R c → Prop) (P : C → Prop) (S : Stop → Prop)
    (acq : (c : C) → R c → Prop) (F : C → Prog C R α → Prop) (V : α → Prop) : Prog C R α → Prop
  | ret a => V a
  | stop why => S why
  | call c k => P c ∧ ∀ x, A c x →
      (acq c x → F c (k x)) ∧ (¬ acq c x → (k x).Until A P S acq F V)

section Until

variable {A : (c : C) → R c → Prop} {P : C → Prop} {S : Stop → Prop} {acq : (c : C) → R c → Prop}
  {F : C → Prog C R α → Prop} {V : α → Prop}

@[simp] theorem until_ret (a : α) : (ret a : Prog C R α).Until A P S acq F V ↔ V a := Iff.rfl

@[simp] theorem until_stop (why : Stop) :
    (stop why : Prog C R α).Until A P S acq F V ↔ S why := Iff.rfl

@[simp] theorem until_issue_bind (c : C) {f : R c → Prog C R α} :
    (issue c >>= f).Until A P S acq F V ↔ P c ∧ ∀ x, A c x →
      (acq c x → F c (f x)) ∧ (¬ acq c x → (f x).Until A P S acq F V) := Iff.rfl

@[simp] theorem until_assert_bind (b : Prop) [Decidable b] {f : PUnit → Prog C R α} :
    ((assert b : Prog C R PUnit) >>= f).Until A P S acq F V ↔
      (b → (f ⟨⟩).Until A P S acq F V) ∧ (¬ b → S .assertion) := by
  by_cases hb : b
  · simp only [assert, hb, if_true, ret_bind, true_imp_iff, not_true_eq_false, false_imp_iff,
      and_true]
  · simp only [assert, hb, if_false, stop_bind, until_stop, false_imp_iff, not_false_eq_true,
      true_imp_iff, true_and]

theorem Until.bind {F' : C → Prog C R β → Prop} {V' : β → Prop} {p : Prog C R α}
    {f : α → Prog C R β} (hp : p.Until A P S acq F V) (hF : ∀ c q, F c q → F' c (q >>= f))
    (hf : ∀ a, V a → (f a).Until A P S acq F' V') : (p >>= f).Until A P S acq F' V' := by
  induction p with
  | ret a => exact hf a hp
  | stop why => exact hp
  | call c k ih =>
    refine ⟨hp.1, fun x hx => ⟨fun ha => hF c _ ((hp.2 x hx).1 ha), fun ha => ?_⟩⟩
    exact ih x ((hp.2 x hx).2 ha)

theorem Until.mono {P' : C → Prop} {S' : Stop → Prop} {F' : C → Prog C R α → Prop} {V' : α → Prop}
    {p : Prog C R α} (hp : p.Until A P S acq F V) (hP : ∀ c, P c → P' c) (hS : ∀ y, S y → S' y)
    (hF : ∀ c q, F c q → F' c q) (hV : ∀ a, V a → V' a) : p.Until A P' S' acq F' V' := by
  induction p with
  | ret a => exact hV a hp
  | stop why => exact hS why hp
  | call c k ih =>
    refine ⟨hP c hp.1, fun x hx => ⟨fun ha => hF c _ ((hp.2 x hx).1 ha), fun ha => ?_⟩⟩
    exact ih x ((hp.2 x hx).2 ha)

/-- A program in front that gets no such reply. -/
theorem Sat.bind_until {P' : C → Prop} {F' : C → Prog C R β → Prop} {V' : β → Prop}
    {p : Prog C R α} {f : α → Prog C R β} (hp : p.Sat A P' S V)
    (hP : ∀ c, P' c → P c ∧ ∀ x, ¬ acq c x)
    (hf : ∀ a, V a → (f a).Until A P S acq F' V') : (p >>= f).Until A P S acq F' V' := by
  induction p with
  | ret a => exact hf a hp
  | stop why => exact hp
  | call c k ih =>
    refine ⟨(hP c hp.1).1, fun x hx => ⟨fun ha => absurd ha ((hP c hp.1).2 x), fun _ => ?_⟩⟩
    exact ih x (hp.2 x hx)

/-- Fewer replies. -/
theorem Until.answers {A' : (c : C) → R c → Prop} {p : Prog C R α} (hp : p.Until A P S acq F V)
    (hA : ∀ c x, A' c x → A c x) : p.Until A' P S acq F V := by
  induction p with
  | ret a => exact hp
  | stop why => exact hp
  | call c k ih =>
    exact ⟨hp.1, fun x hx =>
      ⟨(hp.2 x (hA c x hx)).1, fun hacq => ih x ((hp.2 x (hA c x hx)).2 hacq)⟩⟩

theorem Until.sat {V' : α → Prop} {p : Prog C R α} (hp : p.Until A P S acq F V)
    (hF : ∀ c q, F c q → q.Sat A P S V') (hV : ∀ a, V a → V' a) : p.Sat A P S V' := by
  induction p with
  | ret a => exact hV a hp
  | stop why => exact hp
  | call c k ih =>
    refine ⟨hp.1, fun x hx => ?_⟩
    by_cases ha : acq c x
    · exact hF c _ ((hp.2 x hx).1 ha)
    · exact ih x ((hp.2 x hx).2 ha)

/-! ## Runs with given answers -/

/-- Every call of the run is answered as `A` says. -/
def Answered {W : Type v} (h : (c : C) → W → R c × W) (A : (c : C) → R c → Prop) :
    Prog C R α → W → Prop
  | ret _, _ => True
  | stop _, _ => True
  | call c k, w => A c (h c w).1 ∧ (k (h c w).1).Answered h A (h c w).2

/-- From the first reply on that `acq` singles out, every call of the run is
answered as `A` says. -/
def AnsweredAfter {W : Type v} (h : (c : C) → W → R c × W) (acq A : (c : C) → R c → Prop) :
    Prog C R α → W → Prop
  | ret _, _ => True
  | stop _, _ => True
  | call c k, w =>
    (acq c (h c w).1 → (k (h c w).1).Answered h A (h c w).2) ∧
      (¬ acq c (h c w).1 → (k (h c w).1).AnsweredAfter h acq A (h c w).2)

/-- Both can be checked on a run. -/
instance Answered.decidable {W : Type v} {h : (c : C) → W → R c × W} {A : (c : C) → R c → Prop}
    [∀ c x, Decidable (A c x)] : ∀ (p : Prog C R α) (w : W), Decidable (p.Answered h A w)
  | ret _, _ => isTrue trivial
  | stop _, _ => isTrue trivial
  | call c k, w =>
    have : Decidable ((k (h c w).1).Answered h A (h c w).2) :=
      Answered.decidable (k (h c w).1) (h c w).2
    inferInstanceAs (Decidable (A c (h c w).1 ∧ (k (h c w).1).Answered h A (h c w).2))

instance AnsweredAfter.decidable {W : Type v} {h : (c : C) → W → R c × W}
    {acq A : (c : C) → R c → Prop} [∀ c x, Decidable (acq c x)] [∀ c x, Decidable (A c x)] :
    ∀ (p : Prog C R α) (w : W), Decidable (p.AnsweredAfter h acq A w)
  | ret _, _ => isTrue trivial
  | stop _, _ => isTrue trivial
  | call c k, w =>
    have : Decidable ((k (h c w).1).AnsweredAfter h acq A (h c w).2) :=
      AnsweredAfter.decidable (k (h c w).1) (h c w).2
    inferInstanceAs (Decidable ((acq c (h c w).1 → (k (h c w).1).Answered h A (h c w).2) ∧
      (¬ acq c (h c w).1 → (k (h c w).1).AnsweredAfter h acq A (h c w).2)))

section Answered

variable {W : Type v} {h : (c : C) → W → R c × W} {I : W → Prop} {Q : Option α → W → Prop}
  {w : W} {A' : (c : C) → R c → Prop}

/-- What holds on every path with such answers holds of the run. -/
theorem wp_of_answered {p : Prog C R α} (hans : ∀ c w, I w → A c (h c w).1)
    (hstep : ∀ c w, I w → I (h c w).2)
    (hp : p.Sat (fun c x => A c x ∧ A' c x) P S V) (hA : p.Answered h A' w) (hI : I w) :
    wp h p (fun r w' => I w' ∧ (r = none → ∃ y, S y) ∧ ∀ a, r = some a → V a) w := by
  induction p generalizing w with
  | ret a => exact ⟨hI, fun h => (nomatch h), fun _ h => Option.some.inj h ▸ hp⟩
  | stop why => exact ⟨hI, fun _ => ⟨why, hp⟩, fun _ h => nomatch h⟩
  | call c k ih => exact ih _ (hp.2 _ ⟨hans c w hI, hA.1⟩) hA.2 (hstep c w hI)

/-- The rule for `Until`: the run before the reply ends with `V` or stops with
`S`, or the reply comes and the rest of the run is left. -/
theorem wp_of_until {p : Prog C R α} (hans : ∀ c w, I w → A c (h c w).1)
    (hstep : ∀ c w, I w → I (h c w).2) (hp : p.Until A P S acq F V)
    (hA : p.AnsweredAfter h acq A' w) (hI : I w)
    (hF : ∀ c q w', F c q → I w' → q.Answered h A' w' → wp h q Q w')
    (hS : ∀ y w', I w' → S y → Q none w') (hV : ∀ a w', I w' → V a → Q (some a) w') :
    wp h p Q w := by
  induction p generalizing w with
  | ret a => exact hV a w hI hp
  | stop why => exact hS why w hI hp
  | call c k ih =>
    have hx := hp.2 _ (hans c w hI)
    by_cases hacq : acq c (h c w).1
    · exact hF c (k (h c w).1) (h c w).2 (hx.1 hacq) (hstep c w hI) (hA.1 hacq)
    · exact ih _ (hx.2 hacq) (hA.2 hacq) (hstep c w hI)

/-- What no path with such answers stops for, the run does not stop for. -/
theorem Sat.stopsFor_answered {p : Prog C R α} (hans : ∀ c w, I w → A c (h c w).1)
    (hstep : ∀ c w, I w → I (h c w).2)
    (hp : p.Sat (fun c x => A c x ∧ A' c x) P S V) (hA : p.Answered h A' w) (hI : I w) :
    StopsFor h S p w := by
  induction p generalizing w with
  | ret a => exact stopsFor_ret a
  | stop why =>
    intro why' hwhy
    obtain rfl : why = why' := Option.some.inj hwhy
    exact hp
  | call c k ih => exact ih _ (hp.2 _ ⟨hans c w hI, hA.1⟩) hA.2 (hstep c w hI)

theorem Until.stopsFor {S' : Stop → Prop} {B : (c : C) → R c → Prop} {p : Prog C R α}
    (hans : ∀ c w, I w → A c (h c w).1) (hstep : ∀ c w, I w → I (h c w).2)
    (hp : p.Until (fun c x => A c x ∧ B c x) P S acq F V) (hB : p.Answered h B w)
    (hA : p.AnsweredAfter h acq A' w) (hI : I w)
    (hF : ∀ c q w', F c q → I w' → q.Answered h B w' → q.Answered h A' w' → StopsFor h S' q w')
    (hS : ∀ why, S why → S' why) : StopsFor h S' p w := by
  induction p generalizing w with
  | ret a => exact stopsFor_ret a
  | stop why =>
    intro why' hwhy
    obtain rfl : why = why' := Option.some.inj hwhy
    exact hS why hp
  | call c k ih =>
    have hx := hp.2 _ ⟨hans c w hI, hB.1⟩
    by_cases hacq : acq c (h c w).1
    · exact hF c (k (h c w).1) (h c w).2 (hx.1 hacq) (hstep c w hI) hB.2 (hA.1 hacq)
    · exact ih _ (hx.2 hacq) hB.2 (hA.2 hacq) (hstep c w hI)

theorem Answered.and {p : Prog C R α} (hA : p.Answered h A w) (hA' : p.Answered h A' w) :
    p.Answered h (fun c x => A c x ∧ A' c x) w := by
  induction p generalizing w with
  | ret a => trivial
  | stop why => trivial
  | call c k ih => exact ⟨⟨hA.1, hA'.1⟩, ih _ hA.2 hA'.2⟩

theorem Answered.of_bind {p : Prog C R α} {f : α → Prog C R β} (hA : (p >>= f).Answered h A w) :
    p.Answered h A w := by
  induction p generalizing w with
  | ret a => trivial
  | stop why => trivial
  | call c k ih => exact ⟨hA.1, ih _ hA.2⟩

theorem AnsweredAfter.of_bind {p : Prog C R α} {f : α → Prog C R β}
    (hA : (p >>= f).AnsweredAfter h acq A w) : p.AnsweredAfter h acq A w := by
  induction p generalizing w with
  | ret a => trivial
  | stop why => trivial
  | call c k ih => exact ⟨fun hacq => (hA.1 hacq).of_bind, fun hacq => ih _ (hA.2 hacq)⟩

end Answered

end Until

end Prog
