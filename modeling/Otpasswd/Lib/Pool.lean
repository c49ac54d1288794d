import Otpasswd.Lib.Prog

/-!
# Otpasswd.Lib.Pool — interleaved programs

A pool has one program for each process, and all of them are answered on one
state. A schedule says which process takes the next step; nothing is assumed
of it, so that a theorem over every schedule is one over every interleaving.

* `Path` and `Replays` describe a program and a handler by the answers given
  so far; `run_of_path` puts them together;
* a `Discipline` is an automaton over the calls, and `Follows` says that a
  program keeps to it on every path;
* `poolRun_induct` and `poolRun_always` are the rules for what every step of a
  run preserves.
-/

universe u v

namespace Prog

variable {C : Type u} {R : C → Type u} {α β : Type u} {W : Type v}

/-! ## Answers -/

/-- Calls with their answers, the first one in front. -/
abbrev Answers (C : Type u) (R : C → Type u) := List (Σ c : C, R c)

/-- `p` gets to `q` when its first calls are answered in this way. -/
inductive Path : Prog C R α → Answers C R → Prog C R α → Prop where
  | nil (p : Prog C R α) : Path p [] p
  | cons (c : C) (k : R c → Prog C R α) (x : R c) {tr : Answers C R} {q : Prog C R α}
      (h : Path (k x) tr q) : Path (call c k) (⟨c, x⟩ :: tr) q

/-- The handler gives these answers from `w` on, and ends in `w'`. -/
def Replays (h : (c : C) → W → R c × W) : Answers C R → W → W → Prop
  | [], w, w' => w' = w
  | ⟨c, x⟩ :: tr, w, w' => (h c w).1 = x ∧ Replays h tr (h c w).2 w'

section Answers

variable {p q : Prog C R α} {tr : Answers C R} {h : (c : C) → W → R c × W} {w w' : W}

theorem Path.snoc {c : C} {k : R c → Prog C R α} (hp : Path p tr (call c k)) (x : R c) :
    Path p (tr ++ [⟨c, x⟩]) (k x) := by
  generalize hq : call c k = q at hp
  induction hp with
  | nil p =>
    subst hq
    exact .cons c k x (.nil (k x))
  | cons c' k' x' hp ih => exact .cons c' k' x' (ih hq)

theorem replays_snoc (c : C) (x : R c) :
    Replays h (tr ++ [⟨c, x⟩]) w w' ↔ ∃ v, Replays h tr w v ∧ (h c v).1 = x ∧ w' = (h c v).2 := by
  induction tr generalizing w with
  | nil =>
    constructor
    · intro hr
      exact ⟨w, rfl, hr.1, hr.2⟩
    · intro hr
      obtain ⟨v, rfl, hx, hw⟩ := hr
      exact ⟨hx, hw⟩
  | cons ev tr ih =>
    obtain ⟨c', x'⟩ := ev
    constructor
    · intro hr
      obtain ⟨v, hv, hlast⟩ := ih.mp hr.2
      exact ⟨v, ⟨hr.1, hv⟩, hlast⟩
    · intro hr
      obtain ⟨v, hv, hlast⟩ := hr
      exact ⟨hv.1, ih.mpr ⟨v, hv.2, hlast⟩⟩

/-- A handler that gives the answers of a path runs the program along it. -/
theorem run_of_path (hp : Path p tr q) (hr : Replays h tr w w') : p.run h w = q.run h w' := by
  induction hp generalizing w with
  | nil p =>
    obtain rfl : w' = w := hr
    rfl
  | cons c k x hp ih =>
    obtain ⟨hx, hrest⟩ := hr
    subst hx
    exact ih hrest

end Answers

/-- Every answer satisfies `A`. -/
def Answers.All (A : (c : C) → R c → Prop) (tr : Answers C R) : Prop := ∀ ev ∈ tr, A ev.1 ev.2

/-! ## Disciplines -/

/-- An automaton with the phases `P` over the calls; `known` is what the
answers are known to satisfy. -/
structure Discipline (C : Type u) (R : C → Type u) (P : Type v) where
  known : (c : C) → R c → Prop
  allows : P → C → Prop
  next : P → (c : C) → R c → P

/-- The phase after these answers. -/
def Discipline.after {P : Type v} (D : Discipline C R P) (ph : P) (tr : Answers C R) : P :=
  tr.foldl (fun ph ev => D.next ph ev.1 ev.2) ph

/-- The program keeps to the discipline from the phase on, and what it returns
fits the phase it ends in. -/
def Follows {P : Type v} (D : Discipline C R P) (E : P → α → Prop) : P → Prog C R α → Prop
  | ph, ret a => E ph a
  | _, stop _ => True
  | ph, call c k => D.allows ph c ∧ ∀ x, D.known c x → Follows D E (D.next ph c x) (k x)

section Follows

variable {P : Type v} {D : Discipline C R P} {E : P → α → Prop} {ph : P}

theorem follows_issue_bind {c : C} {f : R c → Prog C R α} (hc : D.allows ph c)
    (hf : ∀ x, D.known c x → Follows D E (D.next ph c x) (f x)) :
    Follows D E ph (issue c >>= f) :=
  ⟨hc, hf⟩

theorem follows_assert_bind {b : Prop} [Decidable b] {f : PUnit → Prog C R α}
    (hf : b → Follows D E ph (f ⟨⟩)) : Follows D E ph (assert b >>= f) := by
  by_cases hb : b
  · simp only [assert, if_pos hb, ret_bind]
    exact hf hb
  · simp only [assert, if_neg hb, stop_bind]
    trivial

theorem Follows.bind {E' : P → β → Prop} {p : Prog C R α} {f : α → Prog C R β}
    (hp : Follows D E ph p) (hf : ∀ ph' a, E ph' a → Follows D E' ph' (f a)) :
    Follows D E' ph (p >>= f) := by
  induction p generalizing ph with
  | ret a => exact hf ph a hp
  | stop why => trivial
  | call c k ih => exact ⟨hp.1, fun x hx => ih x (hp.2 x hx)⟩

theorem Follows.mono {E' : P → α → Prop} {p : Prog C R α} (hp : Follows D E ph p)
    (hE : ∀ ph' a, E ph' a → E' ph' a) : Follows D E' ph p := by
  induction p generalizing ph with
  | ret a => exact hE ph a hp
  | stop why => trivial
  | call c k ih => exact ⟨hp.1, fun x hx => ih x (hp.2 x hx)⟩

/-- A program whose calls leave the phase as it is. -/
theorem Follows.stay {A : (c : C) → R c → Prop} {Q : C → Prop} {S : Stop → Prop} {V : α → Prop}
    {p : Prog C R α} (hp : p.Sat A Q S V) (hA : ∀ c x, D.known c x → A c x)
    (hallows : ∀ c, Q c → D.allows ph c) (hnext : ∀ c x, Q c → D.next ph c x = ph) :
    Follows D (fun ph' a => ph' = ph ∧ V a) ph p := by
  induction p with
  | ret a => exact ⟨rfl, hp⟩
  | stop why => trivial
  | call c k ih =>
    refine ⟨hallows c hp.1, fun x hx => ?_⟩
    rw [hnext c x hp.1]
    exact ih x (hp.2 x (hA c x hx))

theorem Discipline.after_snoc (tr : Answers C R) (c : C) (x : R c) :
    D.after ph (tr ++ [⟨c, x⟩]) = D.next (D.after ph tr) c x := by
  rw [Discipline.after, List.foldl_append]
  rfl

/-- What is left of a program keeps to the discipline, too. -/
theorem Follows.path {p q : Prog C R α} {tr : Answers C R} (hp : Follows D E ph p)
    (hpath : Path p tr q) (hknown : tr.All D.known) : Follows D E (D.after ph tr) q := by
  induction hpath generalizing ph with
  | nil p => exact hp
  | cons c k x hpath ih =>
    have hx : D.known c x := hknown ⟨c, x⟩ List.mem_cons_self
    exact ih (hp.2 x hx) fun ev hev => hknown ev (List.mem_cons_of_mem _ hev)

end Follows

/-! ## Pools -/

/-- The processes `I`: what is left of their programs, what they were answered
so far, and the state they share. -/
structure Pool (C : Type u) (R : C → Type u) (I : Type) (α : Type u) (W : Type v) where
  prog : I → Prog C R α
  seen : I → Answers C R
  world : W

/-- The call that a program makes next. -/
def firstCall : Prog C R α → Option C
  | call c _ => some c
  | _ => none

/-- What a program that has ended returns. -/
def result? : Prog C R α → Option α
  | ret a => some a
  | _ => none

theorem result?_eq_some {p : Prog C R α} {a : α} : p.result? = some a ↔ p = ret a := by
  cases p with
  | ret b =>
    constructor
    · intro h
      exact congrArg ret (Option.some.inj h)
    · intro h
      cases h
      rfl
  | stop why =>
    constructor
    · intro h
      cases h
    · intro h
      cases h
  | call c k =>
    constructor
    · intro h
      cases h
    · intro h
      cases h

/-- A pool in which nothing was done yet. -/
def Pool.start {I : Type} (prog : I → Prog C R α) (w : W) : Pool C R I α W :=
  ⟨prog, fun _ => [], w⟩

section Pool

variable {I : Type} [DecidableEq I]

/-- Process `i` takes a step, if its program has a call left. -/
def poolStep (h : I → (c : C) → W → R c × W) (i : I) (x : Pool C R I α W) : Pool C R I α W :=
  match x.prog i with
  | call c k =>
    { prog := Function.update x.prog i (k (h i c x.world).1)
      seen := Function.update x.seen i (x.seen i ++ [⟨c, (h i c x.world).1⟩])
      world := (h i c x.world).2 }
  | ret _ => x
  | stop _ => x

/-- The run of a pool, by the processes that take the steps. -/
def poolRun (h : I → (c : C) → W → R c × W) : List I → Pool C R I α W → Pool C R I α W
  | [], x => x
  | i :: sched, x => poolRun h sched (poolStep h i x)

/-- Every step of the run is one that `good` allows. -/
def poolAlong (h : I → (c : C) → W → R c × W) (good : I → Pool C R I α W → Prop) :
    List I → Pool C R I α W → Prop
  | [], _ => True
  | i :: sched, x => good i x ∧ poolAlong h good sched (poolStep h i x)

variable {h : I → (c : C) → W → R c × W} {good : I → Pool C R I α W → Prop} {i : I}
  {x : Pool C R I α W}

/-- What every good step preserves, a run of good steps preserves. -/
theorem poolRun_induct {J : Pool C R I α W → Prop}
    (hstep : ∀ i x, good i x → J x → J (poolStep h i x)) {sched : List I}
    (hgood : poolAlong h good sched x) (hx : J x) : J (poolRun h sched x) := by
  induction sched generalizing x with
  | nil => exact hx
  | cons i sched ih => exact ih hgood.2 (hstep i x hgood.1 hx)

/-- What every step preserves, every run preserves. -/
theorem poolRun_always {J : Pool C R I α W → Prop} (hstep : ∀ i x, J x → J (poolStep h i x))
    (sched : List I) (hx : J x) : J (poolRun h sched x) := by
  induction sched generalizing x with
  | nil => exact hx
  | cons i sched ih => exact ih (hstep i x hx)

theorem poolStep_call {c : C} {k : R c → Prog C R α} (hi : x.prog i = call c k) :
    poolStep h i x =
      { prog := Function.update x.prog i (k (h i c x.world).1)
        seen := Function.update x.seen i (x.seen i ++ [⟨c, (h i c x.world).1⟩])
        world := (h i c x.world).2 } := by
  unfold poolStep
  rw [hi]

/-- A process takes a step, or it has ended or was stopped. -/
theorem poolStep_cases (i : I) (x : Pool C R I α W) :
    (∃ c k, x.prog i = call c k) ∨ poolStep h i x = x := by
  unfold poolStep
  cases hp : x.prog i with
  | ret a => exact .inr rfl
  | stop why => exact .inr rfl
  | call c k => exact .inl ⟨c, k, rfl⟩

instance poolAlong.decidable [∀ i x, Decidable (good i x)] :
    ∀ sched x, Decidable (poolAlong h good sched x)
  | [], _ => isTrue trivial
  | i :: sched, x =>
    have := poolAlong.decidable sched (poolStep h i x)
    inferInstanceAs (Decidable (good i x ∧ poolAlong h good sched (poolStep h i x)))

theorem poolStep_other {j : I} (hij : i ≠ j) : (poolStep h j x).seen i = x.seen i := by
  rcases poolStep_cases j x with ⟨c, k, hj⟩ | hdone
  · rw [poolStep_call hj]
    exact Function.update_of_ne hij _ _
  · rw [hdone]

/-- A process that takes no step is not answered anything. -/
theorem poolRun_other {sched : List I} (hi : i ∉ sched) :
    (poolRun h sched x).seen i = x.seen i := by
  induction sched generalizing x with
  | nil => rfl
  | cons j sched ih =>
    rw [List.mem_cons, not_or] at hi
    exact (ih hi.2).trans (poolStep_other hi.1)

/-- Each process gets along its program by its own answers. -/
theorem poolRun_path (sched : List I) (prog : I → Prog C R α) (w : W) (i : I) :
    Path (prog i) ((poolRun h sched (Pool.start prog w)).seen i)
      ((poolRun h sched (Pool.start prog w)).prog i) := by
  have hstep (j : I) (x : Pool C R I α W) (hx : Path (prog i) (x.seen i) (x.prog i)) :
      Path (prog i) ((poolStep h j x).seen i) ((poolStep h j x).prog i) := by
    rcases poolStep_cases j x with ⟨c, k, hj⟩ | hdone
    · rw [poolStep_call hj]
      by_cases hij : i = j
      · subst hij
        simp only [Function.update_self]
        rw [hj] at hx
        exact hx.snoc _
      · simp only [Function.update_of_ne hij]
        exact hx
    · rw [hdone]
      exact hx
  exact poolRun_always hstep sched (.nil (prog i))

end Pool

end Prog
