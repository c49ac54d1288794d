import Otpasswd.Libotp.OneTime
import Otpasswd.Libotp.PppOk

/-!
# Otpasswd.Libotp.Budget — how many passcodes a key has

With no failing calls and nothing else at work, an allowed entry with number
`c` and `max_code` `m` can be incremented exactly `m - c` times.

Main results: `increments_exact` (in a database without malformed lines) and
`malformed_stops_increments` (a malformed line after the user's own is enough
to refuse the first increment).
-/

namespace Otpasswd

open CText Prog

/-- A process that may call `ppp_increment` on the entry of `u`: its memory is
a state of that user, with its name, that is not locked and has no new key. -/
structure Incrementer (cfg : Cfg) (u : CString) (w : World) (x : CounterCall) : Prop where
  increments : x.skipTo = none
  mem : x.mem.For u
  named : x.mem.named = true
  unlocked : x.mem.lock = -1
  old : x.mem.newKey = false
  serves : w.Serves cfg x.me

/-- The world after the first `k` calls. -/
def worldAfter (cfg : Cfg) (calls : ℕ → CounterCall) (w : World) : ℕ → World
  | 0 => w
  | k + 1 => ((calls k).exec cfg (worldAfter cfg calls w k)).2

/-- The entry `e` with `k` numbers used, as far as anything but the counter is
concerned literally the same, and with the same salt. -/
structure Entry.Advanced (e : Entry) (k : ℕ) (e' : Entry) : Prop where
  rest : e' = { e with counter := e'.counter }
  counter : e'.counter.toNat = e.counter.toNat + k
  salt : e.Salted → numAnd e'.counter saltMask = numAnd e.counter saltMask

/-- The passcode budget of entry `e` of `u`: of the calls made one after the
other from `w`, the first `m - c` succeed and add one each, and the others
report that the number space is used up and leave the database as it is, with
no lock on it. `m` and `c` are what `ppp_calculate` makes of the entry. -/
def ExactBudget (cfg : Cfg) (u : CString) (calls : ℕ → CounterCall) (w : World) (e : Entry) :
    Prop :=
  let loaded := (calls 0).mem.loaded (-1) e
  let budget := loaded.maxCode.toNat - loaded.justCounter.toNat
  let world := worldAfter cfg calls w
  let result (k : ℕ) := ((calls k).exec cfg (world k)).1
  (∀ k < budget, (∃ s', result k = some (0, s')) ∧
    ∃ e', dbLookup ((world (k + 1)).file (dbLoc cfg u)) u = some e' ∧ e.Advanced (k + 1) e') ∧
  ∀ k, budget ≤ k → (∃ s', result k = some (stateNumspace, s')) ∧
    (world (k + 1)).file = (world k).file ∧ (world (k + 1)).Free

/-! ## The arithmetic of one increment -/

namespace Entry

theorem numberSpace_le {salted : Bool} {codes : ℕ} : numberSpace salted codes < 2 ^ 120 := by
  have h (n : ℕ) : (n / codes - 1) * codes ≤ n := by
    have hle := Nat.div_mul_le_self n codes
    have := Nat.mul_le_mul_right codes (Nat.sub_le (n / codes) 1)
    omega
  unfold numberSpace
  cases salted with
  | true =>
    have := h (2 ^ 32 - 1)
    simp only [if_true]
    omega
  | false =>
    have hmax : maxCardUnsalted.toNat = 2 ^ 120 - 1 := by decide
    have := h maxCardUnsalted.toNat
    rw [hmax] at this
    simp only [Bool.false_eq_true, if_false, hmax]
    omega

/-- An entry that was advanced within its number space has advanced its
number, stays below the counter taken for corruption, and keeps its salt. -/
theorem advanced_code {e : Entry} (h : e.InRange) {c : Num} {k : ℕ}
    (hk : e.justCounter.toNat + k ≤ e.maxCode) (hc : c.toNat = e.counter.toNat + k) :
    codeOf e.flags c = e.justCounter.toNat + k ∧ c.toNat ≤ maxCounter.toNat ∧
      (e.Salted → numAnd c saltMask = numAnd e.counter saltMask) := by
  have hmax : maxCounter.toNat = (2 ^ 64 - 1) * 2 ^ 64 + (2 ^ 60 - 1) := by decide
  have hspace : e.maxCode < 2 ^ 120 := numberSpace_le
  obtain ⟨hle, -⟩ := h
  rw [toNat_justCounter] at hk ⊢
  rw [hmax] at hle ⊢
  unfold codeOf at hk ⊢
  by_cases hs : e.flags &&& flagSalted ≠ 0
  · have hlt : e.maxCode < 2 ^ 32 := maxCode_lt hs
    rw [if_pos hs] at hk ⊢
    rw [if_pos hs]
    refine ⟨by omega, by omega, fun _ => Num.ext_toNat ?_⟩
    rw [toNat_and_saltMask, toNat_and_saltMask, hc]
    omega
  · rw [if_neg hs] at hk ⊢
    rw [if_neg hs]
    exact ⟨hc, by omega, fun hsalt => absurd hsalt hs⟩

theorem Advanced.refl (e : Entry) : e.Advanced 0 e where
  rest := by cases e; rfl
  counter := (Nat.add_zero _).symm
  salt _ := by rfl

variable {cfg : Cfg} {e e' : Entry} {k : ℕ}

theorem Advanced.flags (h : e.Advanced k e') : e'.flags = e.flags := by rw [h.rest]

theorem Advanced.maxCode (h : e.Advanced k e') : e'.maxCode = e.maxCode := by rw [h.rest]; rfl

theorem Advanced.valid (h : e.Advanced k e') (hv : e.Valid) : e'.Valid := by
  rw [h.rest]
  exact hv.setCounter _

theorem Advanced.justCounter (h : e.Advanced k e') (hr : e.InRange)
    (hk : e.justCounter.toNat + k ≤ e.maxCode) :
    e'.justCounter.toNat = e.justCounter.toNat + k := by
  rw [toNat_justCounter, h.flags]
  exact (advanced_code hr hk h.counter).1

/-- There are numbers left. -/
theorem Advanced.allowed (h : e.Advanced k e') (ha : e.Allowed cfg)
    (hk : e.justCounter.toNat + k < e.maxCode) : e'.Allowed cfg := by
  have hcode := h.justCounter ha.range hk.le
  have hmax := (advanced_code ha.range hk.le h.counter).2.1
  have hrange : e'.InRange := ⟨hmax, by rw [hcode, h.maxCode]; exact hk⟩
  rw [h.rest]
  rw [h.rest] at hrange
  exact ⟨ha.flags, ha.alphabet, ha.codeLength, hrange, ha.enabled⟩

/-- One more. -/
theorem Advanced.succ (h : e.Advanced k e') (hr : e.InRange)
    (hk : e.justCounter.toNat + k < e.maxCode) :
    e.Advanced (k + 1) { e' with counter := numAdd e'.counter (numI 1) } := by
  have hmax : maxCounter.toNat + 1 < 2 ^ 128 := by decide
  have hbound := (advanced_code hr hk.le h.counter).2.1
  have hone : (numI 1).toNat = 1 := rfl
  have hcounter : (numAdd e'.counter (numI 1)).toNat = e.counter.toNat + (k + 1) := by
    have := h.counter
    rw [Num.toNat_numAdd, hone, Nat.mod_eq_of_lt (by omega)]
    omega
  refine ⟨?_, hcounter, (advanced_code hr (by omega) hcounter).2.2⟩
  rw [h.rest]

end Entry

/-! ## Runs -/

section

variable {cfg : Cfg} {u : CString} {calls : ℕ → CounterCall} {w : World} {e : Entry}

/-- What holds of the world after `k` calls that all succeeded. -/
structure BudgetInv (cfg : Cfg) (u : CString) (w w' : World) (e : Entry) (k : ℕ) : Prop where
  done : w'.Done w
  entry : ∃ e', dbLookup (w'.file (dbLoc cfg u)) u = some e' ∧ e.Advanced k e'
  copyable : CopyableFile u (w'.file (dbLoc cfg u))

theorem Incrementer.prog {x : CounterCall} (h : Incrementer cfg u w x) :
    x.prog cfg = pppIncrement cfg x.mem := by
  rw [CounterCall.prog, h.increments]

/-- One call with a number left. -/
theorem BudgetInv.step {x : CounterCall} {w' : World} {k : ℕ} (hx : Incrementer cfg u w x)
    (hallowed : e.Allowed cfg) (hv : e.Valid) (h : BudgetInv cfg u w w' e k)
    (hk : e.justCounter.toNat + k < e.maxCode) :
    (∃ s', (x.exec cfg w').1 = some (0, s')) ∧
      BudgetInv cfg u w (x.exec cfg w').2 e (k + 1) := by
  obtain ⟨hdone, ⟨e', he', hadv⟩, hcopy⟩ := h
  obtain rfl := hx.mem.username
  have hs := hdone.serves hx.serves
  have hspec := pppIncrement_ok hs hx.named hdone.free hx.unlocked hx.old hx.mem.codeMask he'
    (hadv.allowed hallowed hk) hcopy
  rw [← hx.prog] at hspec
  obtain ⟨⟨s', hr, -⟩, hrep, hdone'⟩ := hspec
  have hsucc := hadv.succ hallowed.range hk
  refine ⟨⟨s', hr⟩, hdone'.trans hdone, ⟨_, ?_, hsucc⟩, ?_⟩
  · exact hrep.lookup_eq (hsucc.valid hv) hs.allOk
  · exact hrep.copyable (hsucc.valid hv) hs.allOk

/-- A call on a key that is used up. -/
theorem BudgetInv.last {x : CounterCall} {w' : World} {k : ℕ} (hx : Incrementer cfg u w x)
    (hallowed : e.Allowed cfg) (h : BudgetInv cfg u w w' e k)
    (hk : e.justCounter.toNat + k = e.maxCode) :
    (∃ s', (x.exec cfg w').1 = some (stateNumspace, s')) ∧
      (x.exec cfg w').2.file = w'.file ∧ BudgetInv cfg u w (x.exec cfg w').2 e k := by
  obtain ⟨hdone, ⟨e', he', hadv⟩, hcopy⟩ := h
  obtain rfl := hx.mem.username
  have hs := hdone.serves hx.serves
  have hcode := hadv.justCounter hallowed.range hk.le
  have hmax := (Entry.advanced_code hallowed.range hk.le hadv.counter).2.1
  have hout : ¬ e'.InRange := by
    rintro ⟨-, hlt⟩
    rw [hcode, hadv.maxCode] at hlt
    omega
  have hspec := pppIncrement_range hs hx.named hdone.free hx.unlocked hx.mem.codeMask he' hout
  rw [← hx.prog, if_pos hmax] at hspec
  obtain ⟨⟨s', hr⟩, hkeeps, hfree⟩ := hspec
  refine ⟨⟨s', hr⟩, hkeeps.file, (hkeeps.done hfree).trans hdone, ⟨e', ?_, hadv⟩, ?_⟩
  · rw [show (x.exec cfg w').2.file = w'.file from hkeeps.file]
    exact he'
  · rw [show (x.exec cfg w').2.file = w'.file from hkeeps.file]
    exact hcopy

/-- The invariant along the run, until and after the last number. -/
theorem budgetInv_run (hcalls : ∀ k, Incrementer cfg u w (calls k)) (hfree : w.Free)
    (he : dbLookup (w.file (dbLoc cfg u)) u = some e) (hallowed : e.Allowed cfg)
    (hcopy : CopyableFile u (w.file (dbLoc cfg u))) (k : ℕ) :
    BudgetInv cfg u w (worldAfter cfg calls w k) e (min k (e.maxCode - e.justCounter.toNat)) := by
  have hlt := hallowed.range.2
  induction k with
  | zero =>
    rw [Nat.zero_min]
    exact ⟨⟨rfl, rfl, hfree⟩, ⟨e, he, .refl e⟩, hcopy⟩
  | succ k ih =>
    by_cases hk : k < e.maxCode - e.justCounter.toNat
    · rw [Nat.min_eq_left hk.le] at ih
      rw [Nat.min_eq_left (by omega)]
      exact (ih.step (hcalls k) hallowed (dbLookup_valid he) (by omega)).2
    · rw [Nat.min_eq_right (by omega)] at ih
      rw [Nat.min_eq_right (by omega)]
      exact (ih.last (hcalls k) hallowed (by omega)).2.2

end

/-- In a database without malformed lines, an allowed entry has exactly the
budget its `max_code` promises. -/
theorem increments_exact (cfg : Cfg) (u : CString) (calls : ℕ → CounterCall) (w : World)
    (e : Entry) (hcalls : ∀ k, Incrementer cfg u w (calls k)) (hfree : w.Free)
    (he : dbLookup (w.file (dbLoc cfg u)) u = some e) (hallowed : e.Allowed cfg)
    (hcopy : CopyableFile u (w.file (dbLoc cfg u))) : ExactBudget cfg u calls w e := by
  have hmask := (hcalls 0).mem.codeMask
  have hv := dbLookup_valid he
  have hinv := budgetInv_run hcalls hfree he hallowed hcopy
  have hlt := hallowed.range.2
  unfold ExactBudget
  simp only [loaded_maxCode _ _ e hmask hv, loaded_justCounter _ _ e hmask]
  constructor
  · intro k hk
    have hk' := hinv k
    rw [Nat.min_eq_left hk.le] at hk'
    obtain ⟨hret, hnext⟩ := hk'.step (hcalls k) hallowed hv (by omega)
    exact ⟨hret, hnext.entry⟩
  · intro k hk
    have hk' := hinv k
    rw [Nat.min_eq_right hk] at hk'
    obtain ⟨hret, hfile, hnext⟩ := hk'.last (hcalls k) hallowed (by omega)
    exact ⟨hret, hfile, hnext.done.free⟩

/-! ## Two databases -/

/-- Calls by one process of root, with memory that was just set up. -/
def aliceCalls (_ : ℕ) : CounterCall := ⟨0, aliceState, none⟩

theorem aliceCalls_incrementer (file : DbLoc → Option (List Char)) (k : ℕ) :
    Incrementer configRoot alice (World.boot file fun _ => .good) (aliceCalls k) where
  increments := rfl
  mem := (State.initial_fresh configRoot Outcome.good.junk alice).toFor
  named := rfl
  unlocked := rfl
  old := rfl
  serves := World.boot_serves file 0

theorem aliceEntry_allowed : aliceState.entry.Allowed configRoot where
  flags := by decide +kernel
  alphabet := by decide +kernel
  codeLength := by decide +kernel
  range := ⟨by decide +kernel, by decide +kernel⟩
  enabled := by decide +kernel

/-- The database with one entry: it can be loaded, and copied. -/
theorem aliceWorld_loads :
    dbLookup (aliceWorld.file (dbLoc configRoot alice)) alice = some aliceState.entry ∧
      CopyableFile alice (aliceWorld.file (dbLoc configRoot alice)) := by
  have hlook := @dbLookup_storeBody aliceState alice_readable aliceEntry_valid [] (by simp) []
  obtain ⟨l, htext, hl, hlu, hbody⟩ := dbEntryText_line aliceState alice_readable aliceEntry_valid
  have hfile : aliceWorld.file (dbLoc configRoot alice) =
      some (unlines [] ++ (l ++ '\n' :: unlines [])) := by
    rw [← htext] at hbody
    simp only [unlines_nil, List.nil_append]
    rw [← htext]
    rfl
  constructor
  · rw [hbody, List.append_nil] at hlook
    rw [hfile]
    exact hlook
  · exact ⟨_, hfile, .once [] l [] (by simp) hl hlu (by simp)⟩

theorem increments_exact_alice :
    ExactBudget configRoot alice aliceCalls aliceWorld aliceState.entry :=
  increments_exact configRoot alice aliceCalls aliceWorld aliceState.entry
    (aliceCalls_incrementer _) (fun _ => rfl) aliceWorld_loads.1 aliceEntry_allowed
    aliceWorld_loads.2

/-- A malformed line after the user's own does not keep the entry from being
loaded, but the first increment from being stored. -/
theorem malformed_stops_increments :
    ¬ ∀ (cfg : Cfg) (u : CString) (calls : ℕ → CounterCall) (w : World) (e : Entry),
      (∀ k, Incrementer cfg u w (calls k)) → w.Free →
      dbLookup (w.file (dbLoc cfg u)) u = some e → e.Allowed cfg →
      ExactBudget cfg u calls w e := by
  intro h
  let file : DbLoc → Option (List Char) := fun db =>
    if db = .global then some (dbEntryText aliceState ++ "short\n".toList) else none
  have hlook : dbLookup ((World.boot file fun _ => .good).file (dbLoc configRoot alice)) alice =
      some aliceState.entry := by decide +kernel
  have hlaw := h configRoot alice aliceCalls (World.boot file fun _ => .good) aliceState.entry
    (aliceCalls_incrementer file) (fun _ => by rfl) hlook aliceEntry_allowed
  have hbudget : 0 < ((aliceCalls 0).mem.loaded (-1) aliceState.entry).maxCode.toNat -
      ((aliceCalls 0).mem.loaded (-1) aliceState.entry).justCounter.toNat := by decide +kernel
  unfold ExactBudget at hlaw
  obtain ⟨⟨s', hr⟩, -⟩ := hlaw.1 0 hbudget
  have hret : ((aliceCalls 0).exec configRoot (World.boot file fun _ => .good)).1.map Prod.fst =
      some stateParseError := by decide +kernel
  simp only [worldAfter] at hr
  rw [hr] at hret
  simp at hret

end Otpasswd
