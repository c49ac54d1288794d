import Otpasswd.Libotp.PppSpec

/-!
# Otpasswd.Libotp.OneTime — passcode numbers are used once

Runs of `ppp_increment` and `ppp_skip` on one stored entry, by any processes
with any memory and with calls that may fail.

Main results: `oneTime_of_forward` (the stored number never goes down, and no
number is reserved twice, when every skip that passes the checks goes
forward) and `skip_breaks_oneTime` (`ppp_skip` itself does not require that).
-/

namespace Otpasswd

open CText Prog

/-- A call on the user's entry: by a process, with what it has in memory. -/
structure CounterCall where
  me : Pid
  mem : State
  /-- The argument of `ppp_skip`; `none` is `ppp_increment`. -/
  skipTo : Option Num

namespace CounterCall

def prog (cfg : Cfg) (x : CounterCall) : SysM (ℕ × State) :=
  match x.skipTo with
  | none => pppIncrement cfg x.mem
  | some skipTo => pppSkip cfg x.mem skipTo

/-- What the call returns, and the world after it. -/
def exec (cfg : Cfg) (x : CounterCall) (w : World) : Option (ℕ × State) × World :=
  (x.prog cfg).run (Sys.exec x.me) w

/-- The counter that a successful increment leaves in `s->counter`. -/
def reserves (x : CounterCall) (r : Option (ℕ × State)) : Option Num :=
  match x.skipTo, r with
  | none, some (0, s) => some s.counter
  | _, _ => none

theorem reserves_eq_some {x : CounterCall} {r : Option (ℕ × State)} {c : Num} :
    x.reserves r = some c ↔ x.skipTo = none ∧ ∃ s, r = some (0, s) ∧ s.counter = c := by
  unfold reserves
  split
  · rename_i s h
    simp [h]
  · rename_i h
    constructor
    · intro h0
      cases h0
    · rintro ⟨hskip, s, hr, -⟩
      exact (h s hskip hr).elim

/-- A skip that passes the checks of `ppp_skip` does not go back. -/
def Forward (cfg : Cfg) (u : CString) (x : CounterCall) (w : World) : Prop :=
  ∀ skipTo e, x.skipTo = some skipTo → dbLookup (w.file (dbLoc cfg u)) u = some e →
    e.Allowed cfg → skipTo.toNat < e.maxCode → e.justCounter.toNat ≤ skipTo.toNat

end CounterCall

section Runs

variable (cfg : Cfg) (u : CString)

/-- The world after a sequence of calls. -/
def runCalls : List CounterCall → World → World
  | [], w => w
  | x :: xs, w => runCalls xs (x.exec cfg w).2

/-- The counters reserved on the way. -/
def reserved : List CounterCall → World → List Num
  | [], _ => []
  | x :: xs, w =>
    (x.reserves (x.exec cfg w).1).toList ++ reserved xs (x.exec cfg w).2

def SkipsForward : List CounterCall → World → Prop
  | [], _ => True
  | x :: xs, w => x.Forward cfg u w ∧ SkipsForward xs (x.exec cfg w).2

/-- The one-time law of a run: the stored number never goes down between two
points of it, and the counters reserved are different. -/
def OneTime (calls : List CounterCall) (w : World) : Prop :=
  (∀ i j e e', i ≤ j →
    dbLookup ((runCalls cfg (calls.take i) w).file (dbLoc cfg u)) u = some e →
    dbLookup ((runCalls cfg (calls.take j) w).file (dbLoc cfg u)) u = some e' →
    e.justCounter.toNat ≤ e'.justCounter.toNat) ∧
  (reserved cfg calls w).Nodup

end Runs

/-! ## One step -/

/-- The number in a counter, under these flags. -/
def codeOf (flags : Word32) (n : Num) : ℕ :=
  if flags &&& flagSalted ≠ 0 then n.toNat % 2 ^ 32 else n.toNat

theorem toNat_justCounter (e : Entry) : e.justCounter.toNat = codeOf e.flags e.counter := by
  by_cases hs : e.flags &&& flagSalted ≠ 0
  · have hsalted : e.Salted := hs
    rw [Entry.justCounter, codeOf, if_pos hsalted, if_pos hs]
    exact toNat_and_codeMask _
  · have hsalted : ¬ e.Salted := hs
    rw [Entry.justCounter, codeOf, if_neg hsalted, if_neg hs]

/-- Adding one to a counter in range neither wraps nor carries into the salt. -/
theorem codeOf_succ {e : Entry} (h : e.InRange) :
    codeOf e.flags (numAdd e.counter (numI 1)) = codeOf e.flags e.counter + 1 := by
  have hmax : maxCounter.toNat + 1 < 2 ^ 128 := by decide
  have hone : (numI 1).toNat = 1 := rfl
  obtain ⟨hle, hlt⟩ := h
  rw [toNat_justCounter] at hlt
  rw [codeOf, codeOf, Num.toNat_numAdd, hone]
  by_cases hs : e.flags &&& flagSalted ≠ 0
  · have hspace : e.maxCode < 2 ^ 32 := Entry.maxCode_lt hs
    rw [codeOf, if_pos hs] at hlt
    rw [if_pos hs, if_pos hs]
    omega
  · rw [if_neg hs, if_neg hs]
    omega

/-- A number in the number space has no salt. -/
theorem codeOf_of_lt {e : Entry} {n : Num} (h : n.toNat < e.maxCode) :
    codeOf e.flags n = n.toNat := by
  rw [codeOf]
  split_ifs with hs
  · exact Nat.mod_eq_of_lt (h.trans (Entry.maxCode_lt hs))
  · rfl

/-- What one call does to the entry and to the list of reserved counters. -/
inductive CallEnd (cfg : Cfg) (u : CString) (x : CounterCall) (w : World) : Prop where
  | kept (hfile : (x.exec cfg w).2.file = w.file) (hres : x.reserves (x.exec cfg w).1 = none)
  | incremented (e : Entry) (hskip : x.skipTo = none) (hallowed : e.Allowed cfg)
      (h : Replaced cfg u e { e with counter := numAdd e.counter (numI 1) } w (x.exec cfg w).2)
      (hres : ∀ c ∈ x.reserves (x.exec cfg w).1, c = e.counter)
  | skipped (e : Entry) (skipTo : Num) (hskip : x.skipTo = some skipTo) (hallowed : e.Allowed cfg)
      (hlt : skipTo.toNat < e.maxCode)
      (h : Replaced cfg u e { e with counter := skipTo } w (x.exec cfg w).2)
      (hres : x.reserves (x.exec cfg w).1 = none)

theorem callEnd (cfg : Cfg) {u : CString} {x : CounterCall} (hx : x.mem.For u) (w : World) :
    CallEnd cfg u x w := by
  obtain rfl := hx.username
  have hnone (h : ∀ s', (x.exec cfg w).1 ≠ some (0, s')) :
      x.reserves (x.exec cfg w).1 = none := by
    refine Option.eq_none_iff_forall_ne_some.mpr fun c hc => ?_
    obtain ⟨-, s', hr, -⟩ := CounterCall.reserves_eq_some.mp hc
    exact h s' hr
  cases hskip : x.skipTo with
  | none =>
    have hspec := pppIncrement_spec x.me cfg x.mem hx.codeMask w
    have hprog : x.prog cfg = pppIncrement cfg x.mem := by rw [CounterCall.prog, hskip]
    rw [← hprog] at hspec
    cases hspec with
    | kept hkeeps hr => exact .kept hkeeps.file (hnone hr)
    | replaced fd e hallowed h hr =>
      refine .incremented e hskip hallowed h ?_
      intro c hc
      obtain ⟨-, s', hs', rfl⟩ := CounterCall.reserves_eq_some.mp hc
      obtain ⟨-, lock, newKey, rfl⟩ := hr 0 s' hs'
      rfl
  | some skipTo =>
    have hspec := pppSkip_spec x.me cfg x.mem skipTo hx.saltMask hx.codeMask w
    have hprog : x.prog cfg = pppSkip cfg x.mem skipTo := by rw [CounterCall.prog, hskip]
    rw [← hprog] at hspec
    cases hspec with
    | kept hkeeps hr => exact .kept hkeeps.file (hnone hr)
    | replaced fd e hguard h hr =>
      refine .skipped e skipTo hskip hguard.1 hguard.2 h ?_
      refine Option.eq_none_iff_forall_ne_some.mpr fun c hc => ?_
      simp [CounterCall.reserves_eq_some, hskip] at hc

/-! ## Runs -/

/-- What a run that skips forward does to an entry `e`. -/
structure RunFrom (cfg : Cfg) (u : CString) (e : Entry) (calls : List CounterCall) (w : World) :
    Prop where
  flags : ∀ e', dbLookup ((runCalls cfg calls w).file (dbLoc cfg u)) u = some e' →
    e'.flags = e.flags
  le : ∀ e', dbLookup ((runCalls cfg calls w).file (dbLoc cfg u)) u = some e' →
    codeOf e.flags e.counter ≤ codeOf e.flags e'.counter
  reserved_ge : ∀ c ∈ reserved cfg calls w, codeOf e.flags e.counter ≤ codeOf e.flags c
  nodup : (reserved cfg calls w).Nodup

theorem Entry.Valid.setCounter {e : Entry} (h : e.Valid) (n : Num) :
    ({ e with counter := n } : Entry).Valid := ⟨h.1, h.2, h.3, h.4, h.5⟩

/-- Without an entry to load, nothing happens. -/
theorem run_of_none (cfg : Cfg) {u : CString} {calls : List CounterCall}
    (hmem : ∀ x ∈ calls, x.mem.For u) {w : World}
    (h : dbLookup (w.file (dbLoc cfg u)) u = none) :
    dbLookup ((runCalls cfg calls w).file (dbLoc cfg u)) u = none ∧ reserved cfg calls w = [] := by
  induction calls generalizing w with
  | nil => exact ⟨h, rfl⟩
  | cons x xs ih =>
    obtain ⟨hx, hxs⟩ := List.forall_mem_cons.mp hmem
    cases callEnd cfg hx w with
    | kept hfile hres =>
      rw [runCalls, reserved, hres]
      exact ih hxs (hfile ▸ h)
    | incremented e _ _ hrep => simp [hrep.before] at h
    | skipped e _ _ _ _ hrep => simp [hrep.before] at h

/-- The step of the run: what holds after an entry `e'` with no smaller number
holds after `e`. -/
theorem RunFrom.cons {cfg : Cfg} {u : CString} {x : CounterCall} {xs : List CounterCall}
    {w : World} {e e' : Entry} (hflags : e'.flags = e.flags)
    (hle : codeOf e.flags e.counter ≤ codeOf e.flags e'.counter)
    (hres : ∀ c ∈ x.reserves (x.exec cfg w).1,
      c = e.counter ∧ codeOf e.flags e.counter < codeOf e.flags e'.counter)
    (h : RunFrom cfg u e' xs (x.exec cfg w).2) : RunFrom cfg u e (x :: xs) w := by
  obtain ⟨h1, h2, h3, h4⟩ := h
  rw [hflags] at h1 h2 h3
  have hrest (c : Num) (hc : c ∈ reserved cfg xs (x.exec cfg w).2) :
      codeOf e.flags e.counter ≤ codeOf e.flags c := hle.trans (h3 c hc)
  refine ⟨h1, fun e'' he => hle.trans (h2 e'' he), ?_, ?_⟩
  · rw [reserved]
    cases hr : x.reserves (x.exec cfg w).1 with
    | none => exact hrest
    | some c => exact List.forall_mem_cons.mpr ⟨by rw [(hres c hr).1], hrest⟩
  · rw [reserved]
    cases hr : x.reserves (x.exec cfg w).1 with
    | none => exact h4
    | some c =>
      obtain ⟨rfl, hlt⟩ := hres c hr
      refine List.nodup_cons.mpr ⟨fun hc => ?_, h4⟩
      exact absurd (h3 _ hc) (Nat.not_le.mpr hlt)

theorem runFrom (cfg : Cfg) {u : CString} {calls : List CounterCall}
    (hmem : ∀ x ∈ calls, x.mem.For u) {w : World} (hf : SkipsForward cfg u calls w) {e : Entry}
    (he : dbLookup (w.file (dbLoc cfg u)) u = some e) : RunFrom cfg u e calls w := by
  induction calls generalizing w e with
  | nil =>
    have hsame (e' : Entry) (he' : dbLookup (w.file (dbLoc cfg u)) u = some e') : e' = e :=
      Option.some.inj (he'.symm.trans he)
    exact ⟨fun e' h => by rw [hsame e' h], fun e' h => by rw [hsame e' h], by simp [reserved],
      by simp [reserved]⟩
  | cons x xs ih =>
    obtain ⟨hx, hxs⟩ := List.forall_mem_cons.mp hmem
    obtain ⟨hfx, hfxs⟩ := hf
    have hv := dbLookup_valid he
    -- what the rest of the run does to the entry this call stored
    have hrest {e' : Entry} (hv' : e'.Valid) (h : Replaced cfg u e e' w (x.exec cfg w).2) :
        RunFrom cfg u e' xs (x.exec cfg w).2 := by
      cases hl : dbLookup ((x.exec cfg w).2.file (dbLoc cfg u)) u with
      | none =>
        obtain ⟨h1, h2⟩ := run_of_none cfg hxs hl
        exact ⟨by simp [h1], by simp [h1], by simp [h2], by simp [h2]⟩
      | some e'' =>
        obtain rfl := h.lookup hv' hl
        exact ih hxs hfxs hl
    cases callEnd cfg hx w with
    | kept hfile hres =>
      exact .cons rfl le_rfl (by simp [hres]) (ih hxs hfxs (hfile ▸ he))
    | incremented e' hskip hallowed h hres =>
      obtain rfl : e' = e := Option.some.inj (h.before.symm.trans he)
      have hsucc := codeOf_succ hallowed.range
      have htail := hrest (hv.setCounter _) h
      refine RunFrom.cons ?_ ?_ (fun c hc => ⟨hres c hc, ?_⟩) htail
      · rfl
      · exact (Nat.le_succ _).trans hsucc.ge
      · exact (Nat.lt_succ_self _).trans_eq hsucc.symm
    | skipped e' skipTo hskip hallowed hlt h hres =>
      obtain rfl : e' = e := Option.some.inj (h.before.symm.trans he)
      have hle := hfx skipTo e' hskip he hallowed hlt
      rw [toNat_justCounter, ← codeOf_of_lt hlt] at hle
      have htail := hrest (hv.setCounter _) h
      refine RunFrom.cons ?_ ?_ ?_ htail
      · rfl
      · exact hle
      · simp [hres]

theorem runCalls_append (cfg : Cfg) (xs ys : List CounterCall) (w : World) :
    runCalls cfg (xs ++ ys) w = runCalls cfg ys (runCalls cfg xs w) := by
  induction xs generalizing w with
  | nil => rfl
  | cons x xs ih => exact ih _

theorem skipsForward_append (cfg : Cfg) (u : CString) (xs ys : List CounterCall) (w : World) :
    SkipsForward cfg u (xs ++ ys) w ↔
      SkipsForward cfg u xs w ∧ SkipsForward cfg u ys (runCalls cfg xs w) := by
  induction xs generalizing w with
  | nil => simp [SkipsForward, runCalls]
  | cons x xs ih => simp [SkipsForward, runCalls, ih, and_assoc]

/-- The one-time law holds in every run whose skips go forward. -/
theorem oneTime_of_forward (cfg : Cfg) (u : CString) (calls : List CounterCall)
    (hmem : ∀ x ∈ calls, x.mem.For u) (w : World) (hf : SkipsForward cfg u calls w) :
    OneTime cfg u calls w := by
  constructor
  · intro i j e e' hij he he'
    -- the calls between the two points
    have hsplit : calls.take j = calls.take i ++ (calls.take j).drop i := by
      have := (List.take_append_drop i (calls.take j)).symm
      rwa [List.take_take, Nat.min_eq_left hij] at this
    have htake : calls = calls.take j ++ calls.drop j := (List.take_append_drop j calls).symm
    rw [htake, skipsForward_append, hsplit, skipsForward_append] at hf
    rw [hsplit, runCalls_append] at he'
    have hmid : ∀ x ∈ (calls.take j).drop i, x.mem.For u := fun x hx =>
      hmem x (List.mem_of_mem_take (List.mem_of_mem_drop hx))
    have hrun := runFrom cfg hmid hf.1.2 he
    rw [toNat_justCounter, toNat_justCounter, hrun.flags e' he']
    exact hrun.le e' he'
  · cases he : dbLookup (w.file (dbLoc cfg u)) u with
    | none => simp [(run_of_none cfg hmem he).2]
    | some e => exact (runFrom cfg hmem hf he).nodup

/-! ## A run that skips back -/

/-- A database with one salted key, of which no passcode was used. -/
def aliceWorld : World :=
  World.boot (fun db => if db = .global then some (dbEntryText aliceState) else none)
    fun _ => .good

theorem oneTime_of_forward_skip_five :
    OneTime configRoot alice
      [⟨0, aliceState, none⟩, ⟨0, aliceState, some (numI 5)⟩, ⟨0, aliceState, none⟩] aliceWorld := by
  have hmem := (State.initial_fresh configRoot Outcome.good.junk alice).toFor
  refine oneTime_of_forward configRoot alice _ (by simp [aliceState, hmem]) aliceWorld ?_
  refine ⟨fun n e hn => by simp at hn, fun n e hn he _ _ => ?_, fun n e hn => by simp at hn, trivial⟩
  obtain rfl : numI 5 = n := Option.some.inj hn
  have hval : (dbLookup ((CounterCall.exec configRoot ⟨0, aliceState, none⟩ aliceWorld).2.file
      (dbLoc configRoot alice)) alice).map (fun e => decide (e.justCounter.toNat ≤ 5)) =
      some true := by decide +kernel
  rw [he] at hval
  simpa using hval

/-- Increment, skip to zero, increment: the same number is reserved twice. -/
theorem skip_breaks_oneTime :
    ¬ ∀ (cfg : Cfg) (u : CString) (calls : List CounterCall) (w : World),
      (∀ x ∈ calls, x.mem.For u) → OneTime cfg u calls w := by
  intro h
  have hmem := (State.initial_fresh configRoot Outcome.good.junk alice).toFor
  have hlaw := (h configRoot alice
    [⟨0, aliceState, none⟩, ⟨0, aliceState, some (numI 0)⟩, ⟨0, aliceState, none⟩] aliceWorld
    (by simp [aliceState, hmem])).2
  have htwice : reserved configRoot
      [⟨0, aliceState, none⟩, ⟨0, aliceState, some (numI 0)⟩, ⟨0, aliceState, none⟩] aliceWorld =
      [numI 0, numI 0] := by decide +kernel
  rw [htwice] at hlaw
  exact absurd hlaw (by decide)

end Otpasswd
