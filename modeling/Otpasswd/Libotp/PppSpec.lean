import Otpasswd.Libotp.Lookup
import Otpasswd.Libotp.Ppp

/-!
# Otpasswd.Libotp.PppSpec — what the atomic operations do to an entry

Every operation of `ppp.c` loads the user's entry under the lock, checks it
and stores a changed one, or leaves the databases as they were. `Replaced`
says the former; `pppIncrement_spec`, `pppSkip_spec` and `pppUpdate_spec` say
of each operation what it stores and when, for every outcome of every call.
-/

namespace Otpasswd

open CText Prog

/-! ## Salt and code -/

theorem toNat_and_codeMask (n : Num) : (numAnd n codeMask).toNat = n.toNat % 2 ^ 32 := by
  rw [Num.toNat_numAnd, codeMask_eq]
  exact Nat.and_two_pow_sub_one_eq_mod n.toNat 32

theorem toNat_and_saltMask (n : Num) : (numAnd n saltMask).toNat = n.toNat / 2 ^ 32 * 2 ^ 32 := by
  have hmask : saltMask.toNat = (2 ^ 96 - 1) <<< 32 := by rw [saltMask_eq]; rfl
  rw [Num.toNat_numAnd, hmask, ← Nat.shiftRight_eq_div_pow, ← Nat.shiftLeft_eq]
  refine Nat.eq_of_testBit_eq fun i => ?_
  simp only [Nat.testBit_and, Nat.testBit_shiftLeft, Nat.testBit_two_pow_sub_one,
    Nat.testBit_shiftRight]
  by_cases h32 : 32 ≤ i
  · by_cases h128 : i < 128
    · simp [h32, show i - 32 < 96 by omega, show 32 + (i - 32) = i by omega]
    · have hzero : n.toNat.testBit i = false :=
        Nat.testBit_lt_two_pow (n.toNat_lt.trans_le (Nat.pow_le_pow_right (by simp) (by omega)))
      simp [h32, hzero, show 32 + (i - 32) = i by omega]
  · simp [h32]

theorem toNat_salt_add_code (n : Num) :
    (numAnd n saltMask).toNat + (numAnd n codeMask).toNat = n.toNat := by
  rw [toNat_and_codeMask, toNat_and_saltMask]
  omega

/-! ## Cards -/

theorem codesPerRow_bounds {n : ℕ} (h2 : 2 ≤ n) (h16 : n ≤ 16) :
    2 ≤ codesPerRow n ∧ codesPerRow n ≤ 11 := by
  interval_cases n <;> decide

/-- The number space of a key, whole cards of it. -/
def numberSpace (salted : Bool) (codes : ℕ) : ℕ :=
  ((if salted then 2 ^ 32 - 1 else maxCardUnsalted.toNat) / codes - 1) * codes

/-- `max_card`, one less than the cards that can be counted. -/
theorem toNat_maxCard (n : Num) {codes : ℕ} (hcodes : 0 < codes) (h110 : codes ≤ 110)
    (hn : codes ≤ n.toNat) :
    (numSubI (numDivI n (BitVec.ofNat 64 codes)).1 1).toNat = n.toNat / codes - 1 := by
  have hc : (BitVec.ofNat 64 codes).toNat = codes := by
    rw [BitVec.toNat_ofNat]
    omega
  have hne : BitVec.ofNat 64 codes ≠ 0 := by
    intro h
    rw [h] at hc
    simp at hc
    omega
  have hdiv := (numDivI_spec n (BitVec.ofNat 64 codes) hne).1
  have hlt := n.toNat_lt
  have hq : 1 ≤ n.toNat / codes := (Nat.one_le_div_iff hcodes).mpr hn
  have hle := Nat.div_le_self n.toNat codes
  have hone : (1 : Word64).toNat = 1 := rfl
  rw [Num.toNat_numSubI, hdiv, hc, hone]
  omega

/-- `max_card * codes_on_card`, without overflow. -/
theorem toNat_maxCode (n : Num) {codes : ℕ} (hcodes : 0 < codes) (h110 : codes ≤ 110)
    (hn : codes ≤ n.toNat) :
    (numMulI (numSubI (numDivI n (BitVec.ofNat 64 codes)).1 1) (BitVec.ofNat 64 codes)).toNat =
      (n.toNat / codes - 1) * codes := by
  have hc : (BitVec.ofNat 64 codes).toNat = codes := by
    rw [BitVec.toNat_ofNat]
    omega
  have hlt := n.toNat_lt
  have hle : n.toNat / codes * codes ≤ n.toNat := Nat.div_mul_le_self _ _
  rw [Num.toNat_numMulI, toNat_maxCard n hcodes h110 hn, hc, Nat.mod_eq_of_lt]
  have := Nat.mul_le_mul_right codes (Nat.sub_le (n.toNat / codes) 1)
  omega

theorem calculate_maxCode {s : State} (h2 : 2 ≤ s.codeLength.toNat) (h16 : s.codeLength.toNat ≤ 16)
    (hmask : s.codeMask = codeMask) :
    (calculate s).maxCode.toNat =
      numberSpace (s.flags &&& flagSalted ≠ 0) (codesPerRow s.codeLength.toNat * rowsPerCard) := by
  obtain ⟨hge, hle⟩ := codesPerRow_bounds h2 h16
  simp only [calculate, numberSpace, rowsPerCard, hmask]
  by_cases hsalt : s.flags &&& flagSalted ≠ 0
  · simp only [hsalt, ne_eq, not_false_eq_true, if_true, decide_true]
    have hcode : codeMask.toNat = 2 ^ 32 - 1 := by rw [codeMask_eq]; rfl
    rw [toNat_maxCode codeMask (by omega) (by omega) (by omega), hcode]
  · simp only [hsalt, if_false, decide_false, Bool.false_eq_true]
    have hmax : 110 ≤ maxCardUnsalted.toNat := by decide
    rw [toNat_maxCode maxCardUnsalted (by omega) (by omega) (by omega)]

theorem calculate_codesOnCard {s : State} (h2 : 2 ≤ s.codeLength.toNat)
    (h16 : s.codeLength.toNat ≤ 16) : 0 < (calculate s).codesOnCard := by
  obtain ⟨hge, hle⟩ := codesPerRow_bounds h2 h16
  have hzero : (0 : Word32).toNat = 0 := rfl
  simp only [calculate, rowsPerCard, BitVec.lt_def, BitVec.toNat_ofNat, hzero]
  omega

/-- A salted number space leaves room in the code part of the counter. -/
theorem numberSpace_salted_lt {codes : ℕ} : numberSpace true codes < 2 ^ 32 := by
  have hle := Nat.div_mul_le_self (2 ^ 32 - 1) codes
  have := Nat.mul_le_mul_right codes (Nat.sub_le ((2 ^ 32 - 1) / codes) 1)
  simp only [numberSpace, if_true]
  omega

/-! ## Loaded states -/

/-- A state that `state_init` set up for the user. -/
structure State.For (s : State) (u : CString) : Prop where
  username : s.username = u
  saltMask : s.saltMask = Otpasswd.saltMask
  codeMask : s.codeMask = Otpasswd.codeMask

/-- The state after a load under the lock `fd`. -/
def State.loaded (s : State) (fd : ℤ) (e : Entry) : State := calculate ((s.setLock fd).load e)

namespace Entry

def Salted (e : Entry) : Prop := e.flags &&& flagSalted ≠ 0

instance (e : Entry) : Decidable e.Salted := inferInstanceAs (Decidable (_ ≠ _))

/-- The counter without its salt. -/
def justCounter (e : Entry) : Num := if e.Salted then numAnd e.counter codeMask else e.counter

/-- The bound on the numbers of the key. -/
def maxCode (e : Entry) : ℕ :=
  numberSpace e.Salted (codesPerRow e.codeLength.toNat * rowsPerCard)

theorem maxCode_lt {e : Entry} (h : e.Salted) : e.maxCode < 2 ^ 32 := by
  rw [maxCode, decide_eq_true h]
  exact numberSpace_salted_lt

/-- The checks of `ppp_verify_range` on the entry. -/
def InRange (e : Entry) : Prop :=
  e.counter.toNat ≤ maxCounter.toNat ∧ e.justCounter.toNat < e.maxCode

end Entry

theorem calculate_entry (s : State) : (calculate s).entry = s.entry := by
  have hset : (calculate s).spassSet = s.spassSet := by simp only [calculate]
  simp only [State.entry, hset]
  simp only [calculate]

section Loaded

variable (s : State) (fd : ℤ) (e : Entry)

@[simp] theorem loaded_username : (s.loaded fd e).username = s.username := rfl
@[simp] theorem loaded_lock : (s.loaded fd e).lock = fd := rfl
@[simp] theorem loaded_newKey : (s.loaded fd e).newKey = s.newKey := rfl
@[simp] theorem loaded_counter : (s.loaded fd e).counter = e.counter := rfl
@[simp] theorem loaded_flags : (s.loaded fd e).flags = e.flags := rfl
@[simp] theorem loaded_codeMask : (s.loaded fd e).codeMask = s.codeMask := rfl
@[simp] theorem loaded_saltMask : (s.loaded fd e).saltMask = s.saltMask := rfl

theorem verifyRange_setLock (s : State) (fd : ℤ) : verifyRange (s.setLock fd) = verifyRange s := by
  obtain ⟨⟩ := s
  rfl

theorem calculate_setLock (s : State) (fd : ℤ) :
    calculate (s.setLock fd) = (calculate s).setLock fd := by
  dsimp only [calculate, State.setLock, State.justCounter]

theorem loaded_setLock (fd' : ℤ) : (s.loaded fd e).setLock fd' = s.loaded fd' e := by
  have hload : ((s.setLock fd).load e).setLock fd' = (s.setLock fd').load e := rfl
  rw [State.loaded, ← calculate_setLock, hload, State.loaded]

@[simp] theorem loaded_entry : (s.loaded fd e).entry = e :=
  (calculate_entry _).trans (State.entry_load (s.setLock fd) e)

theorem loaded_justCounter (hs : s.codeMask = codeMask) :
    (s.loaded fd e).justCounter = e.justCounter := by
  simp only [State.justCounter, loaded_flags, loaded_counter, loaded_codeMask, hs,
    Entry.justCounter, Entry.Salted]
  congr

theorem loaded_maxCode (hs : s.codeMask = codeMask) (hv : e.Valid) :
    (s.loaded fd e).maxCode.toNat = e.maxCode :=
  calculate_maxCode hv.codeLength_ge hv.codeLength_le hs

theorem loaded_verifyRange (hs : s.codeMask = codeMask) (hv : e.Valid) :
    verifyRange (s.loaded fd e) = 0 ↔ e.InRange := by
  rw [verifyRange, Entry.InRange, loaded_counter, loaded_justCounter s fd e hs]
  simp only [numCmp_pos_iff, numCmp_nonneg_iff, loaded_maxCode s fd e hs hv]
  split_ifs <;> simp <;> omega

end Loaded

/-! ## Loading and releasing -/

/-- How the part of `ppp_state_load` after the lock ends. -/
inductive ReadEnd (file : Option (List Char)) (s : State) : ℕ → State → Prop where
  | loaded (e : Entry) (hlock : 0 < s.lock ∨ s.lock = -1) (h : dbLookup file s.username = some e) :
      ReadEnd file s (verifyRange (calculate (s.load e))) (calculate (s.load e))
  | failed (ret : ℕ) (s' : State) (hret : LoadError ret) (h : s.SameUser s')
      (hheld : 0 < s.lock → s'.lock = s.lock ∧ (Intact file s.username → s' = s))
      (hlock : s.lock = -1 → s'.LockOk) : ReadEnd file s ret s'

theorem pppCalculate_eq {s : State} (h2 : 2 ≤ s.codeLength.toNat) (h16 : s.codeLength.toNat ≤ 16) :
    pppCalculate s = .ret (calculate s) := by
  simp only [pppCalculate, assert, h2, h16, and_self, if_true, numSgn_nonneg, ret_bind, pure_eq_ret]

theorem pppVerifyRange_eq {s : State} (h : 0 < s.codesOnCard) :
    pppVerifyRange s = .ret (verifyRange s) := by
  simp only [pppVerifyRange, assert, h, if_true, ret_bind, pure_eq_ret]

/-- What `ppp_state_load` does with an entry it has read. -/
theorem pppCalculate_load (s : State) {e : Entry} (hv : e.Valid) :
    (pppCalculate (s.load e) >>= fun s => do return (← pppVerifyRange s, s)) =
      (.ret (verifyRange (calculate (s.load e)), calculate (s.load e)) : SysM (ℕ × State)) := by
  have hcodes := calculate_codesOnCard (s := s.load e) hv.codeLength_ge hv.codeLength_le
  rw [pppCalculate_eq hv.codeLength_ge hv.codeLength_le, ret_bind, pppVerifyRange_eq hcodes]
  rfl

theorem pppStateRead_spec (me : Pid) (cfg : Cfg) (s : State) (w : World) :
    wp (Sys.exec me) (pppStateRead cfg s)
      (fun r w' => w'.Keeps w ∧ (r = none → ¬ (Runs cfg (w.uid me) s.named ∧ s.LockOk ∧ w.AllOk)) ∧
        ∀ ret s', r = some (ret, s') → ReadEnd (w.file (dbLoc cfg s.username)) s ret s') w := by
  have hload : wp (Sys.exec me) (stateLoad cfg s)
      (fun r w' => w'.Keeps w ∧ (r = none → ¬ (Runs cfg (w.uid me) s.named ∧ s.LockOk ∧ w.AllOk)) ∧
        ∀ ret s', r = some (ret, s') → DbLoadEnd (w.file (dbLoc cfg s.username)) s ret s') w := by
    unfold stateLoad
    split
    · exact dbFileLoad_spec me cfg s w
    · exact dbFileLoad_spec me cfg s w
    · rename_i h1 h2
      exact ⟨.refl w, fun _ h => h.1.db.elim h2 h1, fun _ _ h => absurd h.symm (Option.some_ne_none _)⟩
  refine wp_seq hload (fun w' hw' => ⟨hw'.1, hw'.2.1, by simp⟩) ?_
  rintro ⟨ret, s1⟩ w1 ⟨hw1, -, hend⟩
  have hread (e : Entry) (hlock : 0 < s.lock ∨ s.lock = -1)
      (h : dbLookup (w.file (dbLoc cfg s.username)) s.username = some e) :
      wp (Sys.exec me) (pppCalculate (s.load e) >>= fun s => do return (← pppVerifyRange s, s))
        (fun r w' => w'.Keeps w ∧ (r = none → ¬ (Runs cfg (w.uid me) s.named ∧ s.LockOk ∧ w.AllOk)) ∧
          ∀ ret s', r = some (ret, s') → ReadEnd (w.file (dbLoc cfg s.username)) s ret s') w1 := by
    rw [pppCalculate_load s (dbLookup_valid h)]
    refine ⟨hw1, fun h0 => absurd h0 (Option.some_ne_none _), ?_⟩
    rintro _ _ ⟨rfl, rfl⟩
    exact .loaded e hlock h
  cases hend ret s1 rfl with
  | locked e hlock h => exact hread e (.inl hlock) h
  | unlocked e hlock h => exact hread e (.inr hlock) h
  | failed _ _ hret hsame hheld hlock =>
    simp only
    rw [if_pos hret.1]
    refine ⟨hw1, fun h => absurd h (Option.some_ne_none _), ?_⟩
    rintro _ _ ⟨rfl, rfl⟩
    exact .failed ret s1 hret hsame hheld hlock

theorem stateLock_sat {cfg : Cfg} {uid : Uid} {ok : Prop} (s : State) :
    (stateLock cfg s).Sat (Sys.Answers uid ok) Sys.Quiet
      (Stops (¬ (Runs cfg uid s.named ∧ s.lock = -1)) False)
      (fun r => s.lock = -1 ∧ r.1 = 0 ∧ (∃ fd : Fd, r.2 = s.setLock fd.val) ∨
        LoadError r.1 ∧ r.2 = s) := by
  unfold stateLock
  split
  · exact dbFileLock_sat s
  · exact dbFileLock_sat s
  · rename_i h1 h2
    exact fun h => h.1.db.elim h2 h1

theorem stateUnlock_sat {cfg : Cfg} {uid : Uid} {ok : Prop} (s : State) :
    Risks cfg uid s.named ok Sys.Calm
      (fun r => (r.2 = s ∧ (r.1 = 0 → s.lock < 0) ∨ 0 ≤ s.lock ∧ r.2 = s.setLock (-1)) ∧
        (ok → r.1 = 0))
      (stateUnlock cfg s) := by
  unfold stateUnlock
  split
  · exact dbFileUnlock_sat s
  · exact dbFileUnlock_sat s
  · rename_i h1 h2
    exact fun h => h.db.elim h2 h1

/-- How `ppp_state_load` with a lock ends. A key that has run out is loaded,
but not locked any more (the lock may also be stuck). -/
inductive LoadLockEnd (file : Option (List Char)) (s : State) : ℕ → State → Prop where
  | loaded (fd : Fd) (e : Entry) (hlock : s.lock = -1) (h : dbLookup file s.username = some e)
      (hrange : verifyRange (s.loaded fd.val e) = 0) : LoadLockEnd file s 0 (s.loaded fd.val e)
  | exhausted (lock : ℤ) (e : Entry) (h : dbLookup file s.username = some e)
      (hrange : verifyRange (s.loaded lock e) ≠ 0) (hlock : (s.loaded lock e).LockOk) :
      LoadLockEnd file s (verifyRange (s.loaded lock e)) (s.loaded lock e)
  | failed (ret : ℕ) (s' : State) (hret : LoadError ret) (h : s.SameUser s')
      (hlock : s.lock = -1 → s'.LockOk)
      (hkept : Intact file s.username → ∃ lock, s' = s.setLock lock) :
      LoadLockEnd file s ret s'

theorem State.setLock_self (s : State) : s.setLock s.lock = s := by
  obtain ⟨⟩ := s
  rfl

theorem pppStateLoad_spec (me : Pid) (cfg : Cfg) (s : State) (w : World) :
    wp (Sys.exec me) (pppStateLoad cfg s {})
      (fun r w' => w'.Keeps w ∧ (r = none → ¬ (Runs cfg (w.uid me) s.named ∧ s.lock = -1 ∧ w.AllOk)) ∧
        ∀ ret s', r = some (ret, s') → LoadLockEnd (w.file (dbLoc cfg s.username)) s ret s') w := by
  set Q : Option (ℕ × State) → World → Prop := fun r w' => w'.Keeps w ∧
    (r = none → ¬ (Runs cfg (w.uid me) s.named ∧ s.lock = -1 ∧ w.AllOk)) ∧
    ∀ ret s', r = some (ret, s') → LoadLockEnd (w.file (dbLoc cfg s.username)) s ret s'
  have hstop (w' : World) (hw : w'.Keeps w)
      (h : ∃ why, Stops (¬ Runs cfg (w.uid me) s.named) (¬ w.AllOk) why) : Q none w' :=
    ⟨hw, fun _ h' => (Stops.or h).elim (absurd h'.1) (absurd h'.2.2), by simp⟩
  have hret (ret : ℕ) (s' : State) (w' : World) (hw : w'.Keeps w)
      (h : LoadLockEnd (w.file (dbLoc cfg s.username)) s ret s') :
      wp (Sys.exec me) (pure (ret, s') : SysM (ℕ × State)) Q w' :=
    ⟨hw, fun h0 => absurd h0 (Option.some_ne_none _), by rintro _ _ ⟨rfl, rfl⟩; exact h⟩
  rw [pppStateLoad, if_neg (by simp)]
  refine wp_quiet_seq (stateLock_sat s) (fun _ h => h) (.refl w)
    (fun w1 hw1 h => ⟨hw1, fun _ h' => (Stops.or h).elim (fun hn => hn ⟨h'.1, h'.2.1⟩) id,
      by simp⟩) ?_
  rintro ⟨ret, s1⟩ w1 hl hw1
  simp only
  split_ifs with hret0
  · rcases hl with ⟨-, h0, -⟩ | ⟨hne, rfl⟩
    · exact absurd h0 hret0
    · exact hret ret _ w1 hw1 (.failed ret _ hne (.refl _) .inl fun _ => ⟨_, (s1.setLock_self).symm⟩)
  rcases hl with ⟨hlock, -, fd, rfl⟩ | ⟨hne, -⟩
  swap
  · exact absurd hne.1 hret0
  -- the lock is held while the entry is read and its range is checked
  have hfd : (0 : ℤ) < fd.val := by
    have := fd.property
    omega
  refine wp_seq (pppStateRead_spec me cfg _ w1)
    (fun w2 hw2 => ⟨hw2.1.trans hw1, fun _ h =>
      hw2.2.1 rfl ⟨hw1.uid ▸ h.1, .inr hfd, hw1.allOk ▸ h.2.2⟩, by simp⟩) ?_
  rintro ⟨ret2, s2⟩ w2 ⟨hw2, -, hend⟩
  replace hw2 := hw2.trans hw1
  replace hend := hend ret2 s2 rfl
  rw [hw1.file] at hend
  simp only
  split_ifs with hret2
  · -- the load failed: the lock is given back
    have hnamed : s2.named = s.named := by
      cases hend with
      | loaded => rfl
      | failed _ _ _ h => exact h.named
    refine wp_quiet_seq (stateUnlock_sat s2) Sys.Calm.quiet hw2 (by rw [hnamed]; exact hstop) ?_
    rintro ⟨unlocked, s3⟩ w3 hu hw3
    refine hret ret2 s3 w3 hw3 ?_
    have hlock2 : s2.lock = fd.val := by
      cases hend with
      | loaded e => rfl
      | failed _ _ _ _ hheld => exact (hheld hfd).1
    have hs3 : ∃ lock, s3 = s2.setLock lock ∧ (s2.setLock lock).LockOk := by
      rcases hu.1 with ⟨h, -⟩ | ⟨-, h⟩ <;> simp only at h <;> rw [h]
      · exact ⟨_, (s2.setLock_self).symm, .inr (by rw [State.setLock_self, hlock2]; exact hfd)⟩
      · exact ⟨-1, rfl, .inl rfl⟩
    obtain ⟨lock, rfl, hok⟩ := hs3
    cases hend with
    | loaded e _ h =>
      have hrange : verifyRange (s.loaded fd.val e) ≠ 0 := hret2
      have heq : verifyRange (s.loaded lock e) = verifyRange (s.loaded fd.val e) := by
        rw [← loaded_setLock s fd.val e lock, verifyRange_setLock]
      have hstate : (s.loaded fd.val e).setLock lock = s.loaded lock e := loaded_setLock s _ e lock
      change LoadLockEnd _ s (verifyRange (s.loaded fd.val e)) ((s.loaded fd.val e).setLock lock)
      rw [← heq, hstate]
      exact .exhausted lock e h (heq ▸ hrange) (hstate ▸ hok)
    | failed _ _ hne h hheld _ =>
      refine .failed ret2 _ hne (((s.sameUser_setLock _).trans h).trans (s2.sameUser_setLock _))
        (fun _ => hok) fun hintact => ⟨lock, ?_⟩
      rw [(hheld hfd).2 hintact]
      rfl
  · -- the load keeps the lock
    refine hret 0 s2 w2 hw2 ?_
    cases hend with
    | loaded e _ h => exact .loaded fd e hlock h (not_not.mp hret2)
    | failed _ _ hne => exact absurd hne.1 hret2

/-- The database of the user of `s` in `w'` is one that a store of `s` left in
place of the one in `w`. -/
structure Updated (cfg : Cfg) (s : State) (remove : Bool) (w w' : World) : Prop where
  db : ∃ new, Stored cfg s.username (dbEntryText s) remove w.AllOk
    (w.file (dbLoc cfg s.username)) new ∧
      w'.file = Function.update w.file (dbLoc cfg s.username) new
  io : w'.io = w.io

section Updated

variable {cfg : Cfg} {s : State} {remove : Bool} {w w' w'' : World}

theorem Updated.of_keeps_left (h : Updated cfg s remove w' w'') (hw : w'.Keeps w) :
    Updated cfg s remove w w'' := by
  obtain ⟨⟨new, hnew, hfile⟩, hio⟩ := h
  rw [hw.allOk, hw.file] at hnew
  exact ⟨⟨new, hnew, hw.file ▸ hfile⟩, hio.trans hw.io⟩

theorem Updated.of_keeps_right (h : Updated cfg s remove w w') (hw : w''.Keeps w') :
    Updated cfg s remove w w'' := by
  obtain ⟨⟨new, hnew, hfile⟩, hio⟩ := h
  exact ⟨⟨new, hnew, hw.file.trans hfile⟩, hw.io.trans hio⟩

/-- What can be looked up after an update is the entry of the state. -/
theorem Updated.lookup (h : Updated cfg s false w w') (hu : ReadableName s.username)
    (hv : s.entry.Valid) {x : Entry}
    (hx : dbLookup (w'.file (dbLoc cfg s.username)) s.username = some x) : x = s.entry := by
  obtain ⟨⟨new, hnew, hfile⟩, -⟩ := h
  rw [hfile, Function.update_self] at hx
  exact hnew.lookup_self hu hv hx

theorem Updated.lookup_eq (h : Updated cfg s false w w') (hu : ReadableName s.username)
    (hv : s.entry.Valid) (hok : w.AllOk) :
    dbLookup (w'.file (dbLoc cfg s.username)) s.username = some s.entry := by
  obtain ⟨⟨new, hnew, hfile⟩, -⟩ := h
  rw [hfile, Function.update_self]
  exact hnew.lookup_eq hu hv hok

theorem Updated.lookup_remove (h : Updated cfg s true w w') :
    dbLookup (w'.file (dbLoc cfg s.username)) s.username = none := by
  obtain ⟨⟨new, hnew, hfile⟩, -⟩ := h
  rw [hfile, Function.update_self]
  exact hnew.lookup_remove

end Updated

/-- `s'` is `s` after it was locked, unlocked or stored. -/
def State.Handled (s s' : State) : Prop := ∃ lock newKey, s' = (s.setNewKey newKey).setLock lock

theorem State.Handled.refl (s : State) : s.Handled s := ⟨s.lock, s.newKey, rfl⟩

theorem State.Handled.setLock {s s' : State} (h : s.Handled s') (lock : ℤ) :
    s.Handled (s'.setLock lock) := by
  obtain ⟨_, newKey, rfl⟩ := h
  exact ⟨lock, newKey, rfl⟩

theorem State.Handled.trans {s s' s'' : State} (h : s.Handled s') (h' : s'.Handled s'') :
    s.Handled s'' := by
  obtain ⟨_, _, rfl⟩ := h
  obtain ⟨lock, newKey, rfl⟩ := h'
  exact ⟨lock, newKey, rfl⟩

/-- How a store ends: with the database updated, or with an error. -/
inductive StoreEnd (cfg : Cfg) (s : State) (remove : Bool) (w : World) (r : Option (ℕ × State))
    (w' : World) : Prop where
  | stored (h : Updated cfg s remove w w') (hr : ∀ ret s', r = some (ret, s') →
      (w.AllOk → ret = 0) ∧ s.Handled s' ∧ s'.newKey = false)
  | kept (h : w'.Keeps w) (hr : ∀ ret s', r = some (ret, s') → ret ≠ 0 ∧ s.Handled s')

theorem StoreEnd.of_keeps {cfg : Cfg} {s : State} {remove : Bool} {w w' w'' : World}
    {r : Option (ℕ × State)} (h : StoreEnd cfg s remove w' r w'') (hw : w'.Keeps w) :
    StoreEnd cfg s remove w r w'' := by
  cases h with
  | stored h hr => exact .stored (h.of_keeps_left hw) (hw.allOk ▸ hr)
  | kept h hr => exact .kept (h.trans hw) hr

/-- The write of `state_store`, for a state that says it is locked. -/
theorem stateWrite_spec (me : Pid) (cfg : Cfg) (s : State) (remove : Bool) (w : World) :
    wp (Sys.exec me) (stateWrite cfg (s.setNewKey false) remove) (StoreEnd cfg s remove w) w := by
  have hstore : wp (Sys.exec me) (dbFileStore cfg (s.setNewKey false) remove)
      (StoreEnd cfg s remove w) w := by
    refine wp_mono (dbFileStore_spec me cfg (s.setNewKey false) remove w) ?_
    rintro r w' ⟨hend, hs⟩
    have hhandled (ret : ℕ) (s' : State) (h : r = some (ret, s')) :
        s.Handled s' ∧ s'.newKey = false := by
      obtain ⟨lock, rfl, -⟩ := hs ret s' h
      exact ⟨⟨lock, false, rfl⟩, rfl⟩
    cases hend with
    | stored new hnew hfile hio hr =>
      refine .stored ⟨⟨new, hnew, hfile⟩, hio⟩ fun ret s' h => ⟨fun _ => hr ret ?_, hhandled ret s' h⟩
      rw [h]
      rfl
    | kept hkeeps hr =>
      refine .kept hkeeps fun ret s' h => ⟨fun h0 => hr ?_, (hhandled ret s' h).1⟩
      rw [h, Option.map_some, h0]
  unfold stateWrite
  split
  · exact hstore
  · exact hstore
  · exact .kept (.refl w) fun _ _ h => absurd h.symm (Option.some_ne_none _)

theorem stateStore_spec (me : Pid) (cfg : Cfg) (s : State) (remove : Bool) (w : World) :
    wp (Sys.exec me) (stateStore cfg s remove) (StoreEnd cfg s remove w) w := by
  have habort {S : Prop} (w' : World) (hw : w'.Keeps w) (_ : S) : StoreEnd cfg s remove w none w' :=
    .kept hw (by simp)
  have hfail (ret : ℕ) (s' : State) (w' : World) (hw : w'.Keeps w) (hne : ret ≠ 0)
      (h : s.Handled s') :
      wp (Sys.exec me) (pure (ret, s') : SysM (ℕ × State)) (StoreEnd cfg s remove w) w' :=
    .kept hw (by rintro _ _ ⟨rfl, rfl⟩; exact ⟨hne, h⟩)
  rw [stateStore, wp_assert_bind]
  by_cases h1 : s.newKey = true ∧ remove = true
  · rw [if_neg (not_not.mpr h1)]
    exact habort w (.refl w) trivial
  rw [if_pos h1]
  by_cases hnew : s.newKey = true
  · -- a new key: the lock is taken for the store
    rw [if_pos hnew, wp_assert_bind]
    split_ifs
    swap
    · exact habort w (.refl w) trivial
    refine wp_quiet_seq (stateLock_sat s) (fun _ h => h) (.refl w) habort ?_
    rintro ⟨ret, s1⟩ w1 hl hw1
    have hs1 : s.Handled s1 ∧ s1.username = s.username ∧ dbEntryText s1 = dbEntryText s := by
      rcases hl with ⟨-, -, fd, h⟩ | ⟨-, h⟩ <;> simp only at h <;> rw [h]
      · exact ⟨(State.Handled.refl s).setLock _, rfl, rfl⟩
      · exact ⟨.refl s, rfl, rfl⟩
    simp only
    split_ifs
    · exact hfail _ s1 w1 hw1 (by simp) hs1.1
    · exact hfail _ s1 w1 hw1 (by simp) hs1.1
    -- the store, and the end of it seen from `s`
    have hend (r : Option (ℕ × State)) (w2 : World) (h : StoreEnd cfg s1 remove w1 r w2) :
        StoreEnd cfg s remove w r w2 := by
      refine StoreEnd.of_keeps ?_ hw1
      cases h with
      | stored h hr =>
        obtain ⟨hdb, hio⟩ := h
        rw [hs1.2.1, hs1.2.2] at hdb
        exact .stored ⟨hdb, hio⟩ fun ret s' h =>
          ⟨(hr ret s' h).1, hs1.1.trans (hr ret s' h).2.1, (hr ret s' h).2.2⟩
      | kept h hr => exact .kept h fun ret s' h => ⟨(hr ret s' h).1, hs1.1.trans (hr ret s' h).2⟩
    refine wp_seq (stateWrite_spec me cfg s1 remove w1) (fun w2 h2 => hend _ w2 h2) ?_
    rintro ⟨ret2, s2⟩ w2 h2
    replace h2 := hend _ w2 h2
    refine wp_quiet_seq (stateUnlock_sat s2) Sys.Calm.quiet (.refl w2) (fun w3 hw3 _ => ?_) ?_
    · cases h2 with
      | stored h hr => exact .stored (h.of_keeps_right hw3) (by simp)
      | kept h hr => exact .kept (hw3.trans h) (by simp)
    rintro ⟨ret3, s3⟩ w3 ⟨hu, -⟩ hw3
    have hs3 : s2.Handled s3 ∧ s3.newKey = s2.newKey := by
      rcases hu with ⟨h, -⟩ | ⟨-, h⟩ <;> simp only at h <;> rw [h]
      · exact ⟨.refl _, rfl⟩
      · exact ⟨(State.Handled.refl s2).setLock _, rfl⟩
    cases h2 with
    | stored h hr =>
      refine .stored (h.of_keeps_right hw3) ?_
      rintro _ _ ⟨rfl, rfl⟩
      obtain ⟨hok, hh, hn⟩ := hr ret2 s2 rfl
      exact ⟨hok, hh.trans hs3.1, hs3.2.trans hn⟩
    | kept h hr =>
      refine .kept (hw3.trans h) ?_
      rintro _ _ ⟨rfl, rfl⟩
      exact ⟨(hr ret2 s2 rfl).1, (hr ret2 s2 rfl).2.trans hs3.1⟩
  · rw [if_neg hnew]
    split_ifs
    · exact hfail 2 s w (.refl w) (by simp) (.refl s)
    · exact stateWrite_spec me cfg s remove w

/-- A release that stores or removes ends like its store. -/
theorem pppStateRelease_spec (me : Pid) (cfg : Cfg) (s : State) (flags : PppOptions)
    (hflags : flags.store = !flags.remove) (w : World) :
    wp (Sys.exec me) (pppStateRelease cfg s flags) (StoreEnd cfg s flags.remove w) w := by
  have hstore : pppReleaseStore cfg s flags = stateStore cfg s flags.remove := by
    rw [pppReleaseStore, hflags]
    cases flags.remove <;> rfl
  rw [pppStateRelease, wp_assert_bind, if_pos (by rw [hflags]; simp), hstore]
  split_ifs with hpolicy
  · exact .kept (.refl w) (by rintro _ _ ⟨rfl, rfl⟩; exact ⟨by simp, .refl s⟩)
  refine wp_seq (stateStore_spec me cfg s flags.remove w) (fun w1 h1 => h1) ?_
  rintro ⟨ret1, s1⟩ w1 h1
  -- giving the lock back neither stores nor names another user
  have hunlock : Risks cfg (w1.uid me) s1.named w1.AllOk Sys.Calm
      (fun r => s1.Handled r.2 ∧ r.2.newKey = s1.newKey ∧ (w1.AllOk → r.1 = 0))
      (pppReleaseUnlock cfg s1 flags) := by
    unfold pppReleaseUnlock
    split_ifs
    · refine (stateUnlock_sat s1).mono (fun _ h => h) (fun _ h => h) ?_
      rintro ⟨ret2, s2⟩ ⟨hu, hok⟩
      rcases hu with ⟨h, -⟩ | ⟨-, h⟩ <;> simp only at h <;> rw [h]
      · exact ⟨.refl _, rfl, hok⟩
      · exact ⟨(State.Handled.refl s1).setLock _, rfl, hok⟩
    · exact ⟨.refl _, rfl, fun _ => rfl⟩
  refine wp_quiet_seq hunlock Sys.Calm.quiet (.refl w1) (fun w2 hw2 _ => ?_) ?_
  · cases h1 with
    | stored h hr => exact .stored (h.of_keeps_right hw2) (by simp)
    | kept h hr => exact .kept (hw2.trans h) (by simp)
  rintro ⟨ret2, s2⟩ w2 ⟨hh, hnew, hok⟩ hw2
  cases h1 with
  | stored h hr =>
    obtain ⟨hret, hh1, hnew1⟩ := hr ret1 s1 rfl
    refine .stored (h.of_keeps_right hw2) ?_
    rintro _ _ ⟨rfl, rfl⟩
    refine ⟨fun hall => ?_, hh1.trans hh, hnew.trans hnew1⟩
    have hall1 : w1.AllOk := by rwa [World.AllOk, h.io]
    rw [hret hall, if_neg (by simp)]
    exact hok hall1
  | kept h hr =>
    obtain ⟨hret, hh1⟩ := hr ret1 s1 rfl
    refine .kept (hw2.trans h) ?_
    rintro _ _ ⟨rfl, rfl⟩
    rw [if_pos hret]
    exact ⟨hret, hh1.trans hh⟩

/-- A release that only unlocks. -/
theorem pppStateRelease_sat {cfg : Cfg} {uid : Uid} {ok : Prop} (s : State) :
    Risks cfg uid s.named ok Sys.Calm (fun r => s.Handled r.2)
      (pppStateRelease cfg s { unlock := true }) := by
  have hrel : pppStateRelease cfg s { unlock := true } =
      stateUnlock cfg s >>= fun r => pure (r.1, r.2) := by
    simp [pppStateRelease, pppReleaseStore, pppReleaseUnlock, assert]
  rw [hrel]
  refine (stateUnlock_sat s).bind fun r hr => ?_
  rcases hr.1 with ⟨h, -⟩ | ⟨-, h⟩
  · rw [h]
    exact .refl s
  · rw [h]
    exact (State.Handled.refl s).setLock _

/-! ## Checked entries -/

/-- The checks of `ppp_state_verify`. -/
def StateOk (cfg : Cfg) (s : State) : Prop :=
  pppVerifyFlags cfg s.flags = 0 ∧ pppVerifyAlphabet cfg s.alphabet.toInt = 0 ∧
    pppVerifyCodeLength cfg s.codeLength.toInt = 0 ∧ verifyRange s = 0

instance (cfg : Cfg) (s : State) : Decidable (StateOk cfg s) :=
  inferInstanceAs (Decidable (_ ∧ _ ∧ _ ∧ _))

theorem pppStateVerify_eq {cfg : Cfg} {s : State} (h : 0 < s.codesOnCard) :
    pppStateVerify cfg s = .ret (if StateOk cfg s then 0 else pppErrorPolicy) := by
  simp only [pppStateVerify, pppVerifyRange, assert, h, if_true, StateOk, pure_eq_ret, ret_bind]
  split_ifs <;> simp_all

/-- An entry with which the operations go on after their checks. -/
structure Entry.Allowed (cfg : Cfg) (e : Entry) : Prop where
  flags : pppVerifyFlags cfg e.flags = 0
  alphabet : pppVerifyAlphabet cfg e.alphabet.toInt = 0
  codeLength : pppVerifyCodeLength cfg e.codeLength.toInt = 0
  range : e.InRange
  enabled : e.flags &&& flagDisabled = 0

theorem pppFlagCheck_eq_false {s : State} {flag : Word32} :
    pppFlagCheck s flag = false ↔ s.flags &&& flag = 0 := by
  rw [pppFlagCheck, decide_eq_false_iff_not, not_not]

theorem loaded_allowed {cfg : Cfg} {s : State} {fd : ℤ} {e : Entry}
    (hs : s.codeMask = codeMask) (hv : e.Valid) :
    StateOk cfg (s.loaded fd e) ∧ pppFlagCheck (s.loaded fd e) flagDisabled = false ↔
      e.Allowed cfg := by
  have hrange := loaded_verifyRange s fd e hs hv
  rw [pppFlagCheck_eq_false]
  constructor
  · rintro ⟨⟨h1, h2, h3, h4⟩, h5⟩
    exact ⟨h1, h2, h3, hrange.mp h4, h5⟩
  · intro h
    exact ⟨⟨h.flags, h.alphabet, h.codeLength, hrange.mpr h.range⟩, h.enabled⟩

/-! ## Changes of an entry -/

/-- The database of `u` in `w` had entry `e`, and a store put `e'` in its
place. -/
structure Replaced (cfg : Cfg) (u : CString) (e e' : Entry) (w w' : World) : Prop where
  before : dbLookup (w.file (dbLoc cfg u)) u = some e
  after : ∃ s : State, s.username = u ∧ s.entry = e' ∧ Updated cfg s false w w'

theorem Replaced.lookup {cfg : Cfg} {u : CString} {e e' : Entry} {w w' : World}
    (h : Replaced cfg u e e' w w') (hv : e'.Valid) {x : Entry}
    (hx : dbLookup (w'.file (dbLoc cfg u)) u = some x) : x = e' := by
  obtain ⟨hbefore, s, rfl, rfl, hup⟩ := h
  exact hup.lookup (dbLookup_readable hbefore) hv hx

theorem Replaced.lookup_eq {cfg : Cfg} {u : CString} {e e' : Entry} {w w' : World}
    (h : Replaced cfg u e e' w w') (hv : e'.Valid) (hok : w.AllOk) :
    dbLookup (w'.file (dbLoc cfg u)) u = some e' := by
  obtain ⟨hbefore, s, rfl, rfl, hup⟩ := h
  exact hup.lookup_eq (dbLookup_readable hbefore) hv hok

/-- How an operation on memory `s` ends: without success and with the
databases as they were, or with the user's entry replaced by `change` of it.
`mem` is what the operation leaves in the loaded memory. -/
inductive OpEnd (cfg : Cfg) (s : State) (guard : Entry → Prop) (change : Entry → Entry)
    (mem : State → State) (w : World) (r : Option (ℕ × State)) (w' : World) : Prop where
  | kept (hkeeps : w'.Keeps w) (hr : ∀ s', r ≠ some (0, s'))
  | replaced (fd : Fd) (e : Entry) (hguard : guard e)
      (h : Replaced cfg s.username e (change e) w w')
      (hr : ∀ ret s', r = some (ret, s') →
        (w.AllOk → ret = 0) ∧ (mem (s.loaded fd.val e)).Handled s')

/-- The rule for what follows `ppp_state_load`. -/
theorem wp_load {me : Pid} {cfg : Cfg} {s : State} {w : World} {α : Type}
    {f : ℕ × State → SysM α} {Q : Option α → World → Prop}
    (habort : ∀ w', w'.Keeps w → Q none w')
    (hfail : ∀ ret s' w', ret ≠ 0 → s.SameUser s' → w'.Keeps w → wp (Sys.exec me) (f (ret, s')) Q w')
    (hload : ∀ (fd : Fd) e w', dbLookup (w.file (dbLoc cfg s.username)) s.username = some e →
      verifyRange (s.loaded fd.val e) = 0 → 0 < (s.loaded fd.val e).codesOnCard →
      w'.Keeps w → wp (Sys.exec me) (f (0, s.loaded fd.val e)) Q w') :
    wp (Sys.exec me) (pppStateLoad cfg s {} >>= f) Q w := by
  refine wp_seq (pppStateLoad_spec me cfg s w) (fun w1 h1 => habort w1 h1.1) ?_
  rintro ⟨ret, s1⟩ w1 ⟨hw1, -, hend⟩
  cases hend ret s1 rfl with
  | failed _ _ hret h => exact hfail ret s1 w1 hret.1 h hw1
  | exhausted lock e _ hrange => exact hfail _ _ w1 hrange ⟨rfl, rfl, rfl, rfl, rfl⟩ hw1
  | loaded fd e hlock hlook hrange =>
    have hv := dbLookup_valid hlook
    exact hload fd e w1 hlook hrange
      (calculate_codesOnCard hv.codeLength_ge hv.codeLength_le) hw1

section Ops

variable {cfg : Cfg} {s : State} {guard : Entry → Prop} {change : Entry → Entry}
  {mem : State → State} {me : Pid} {w w1 : World}

theorem OpEnd.stopped (hw : w1.Keeps w) : OpEnd cfg s guard change mem w none w1 :=
  .kept hw (by simp)

theorem wp_opFailed {ret : ℕ} {s1 : State} (hret : ret ≠ 0) (hw : w1.Keeps w) :
    wp (Sys.exec me) (pure (ret, s1) : SysM (ℕ × State)) (OpEnd cfg s guard change mem w) w1 :=
  .kept hw fun _ h => hret (Prod.mk.inj (Option.some.inj h)).1

/-- Leaving an operation that fails its checks. -/
theorem wp_opRefused {ret : ℕ} {s1 : State} (hret : ret ≠ 0) (hw : w1.Keeps w) :
    wp (Sys.exec me)
      (pppStateRelease cfg s1 { unlock := true } >>= fun r => (pure (ret, r.2) : SysM (ℕ × State)))
      (OpEnd cfg s guard change mem w) w1 :=
  wp_quiet_seq (pppStateRelease_sat s1) Sys.Calm.quiet hw (fun _ hw' _ => .stopped hw')
    fun _ _ _ hw' => wp_opFailed hret hw'

end Ops

/-- The verdict of the checks of `ppp_increment` and `ppp_skip`, the last one
of which is `last`. -/
def verdict (cfg : Cfg) (s : State) (last : ℕ) : ℕ :=
  let verify := if StateOk cfg s then 0 else pppErrorPolicy
  if verify ≠ 0 then verify else if pppFlagCheck s flagDisabled then pppErrorDisabled else last

theorem verdict_eq_zero {cfg : Cfg} {s : State} {fd : ℤ} {e : Entry} {last : ℕ}
    (hs : s.codeMask = codeMask) (hv : e.Valid) :
    verdict cfg (s.loaded fd e) last = 0 ↔ e.Allowed cfg ∧ last = 0 := by
  rw [← @loaded_allowed cfg s fd e hs hv, verdict]
  by_cases h1 : StateOk cfg (s.loaded fd e)
  · cases h2 : pppFlagCheck (s.loaded fd e) flagDisabled <;> simp [h1]
  · simp [h1]

/-- The rule for the store at the end of an operation. -/
theorem wp_opStore {me : Pid} {cfg : Cfg} {s s1 : State} {guard : Entry → Prop}
    {change : Entry → Entry} {mem fin : State → State} {w w1 : World} (fd : Fd) (e : Entry)
    (hlook : dbLookup (w.file (dbLoc cfg s.username)) s.username = some e) (hguard : guard e)
    (hu : s1.username = s.username) (hentry : s1.entry = change e) (hw1 : w1.Keeps w)
    (hfin : ∀ s2, s1.Handled s2 → (mem (s.loaded fd.val e)).Handled (fin s2)) :
    wp (Sys.exec me)
      (pppStateRelease cfg s1 { store := true, unlock := true } >>= fun r =>
        (pure (r.1, fin r.2) : SysM (ℕ × State)))
      (OpEnd cfg s guard change mem w) w1 := by
  have hreplaced {w2 : World} (h : Updated cfg s1 false w w2) :
      Replaced cfg s.username e (change e) w w2 := ⟨hlook, s1, hu, hentry, h⟩
  refine wp_seq (pppStateRelease_spec me cfg s1 { store := true, unlock := true } rfl w1) ?_ ?_
  · intro w2 h2
    cases h2.of_keeps hw1 with
    | stored h hr => exact .replaced fd e hguard (hreplaced h) (by simp)
    | kept h hr => exact .stopped h
  · rintro ⟨ret2, s2⟩ w2 h2
    cases h2.of_keeps hw1 with
    | stored h hr =>
      refine .replaced fd e hguard (hreplaced h) ?_
      rintro _ _ ⟨rfl, rfl⟩
      obtain ⟨hok, hh, -⟩ := hr ret2 s2 rfl
      exact ⟨hok, hfin s2 hh⟩
    | kept h hr => exact wp_opFailed (hr ret2 s2 rfl).1 h

/-- Putting the counter back. -/
theorem State.Handled.restore {s s' : State} {n : Num} (h : (s.setCounter n).Handled s') :
    s.Handled (s'.setCounter s.counter) := by
  obtain ⟨lock, newKey, rfl⟩ := h
  obtain ⟨⟩ := s
  exact ⟨lock, newKey, rfl⟩

theorem setCounter_setCounter (n m : Num) (s : State) :
    (s.setCounter n).setCounter m = s.setCounter m := rfl

theorem setCounter_entry (n : Num) (s : State) :
    (s.setCounter n).entry = { s.entry with counter := n } := rfl

/-- `ppp_increment`: the counter goes up by one, and the memory keeps the old
value. -/
theorem pppIncrement_spec (me : Pid) (cfg : Cfg) (s : State) (hs : s.codeMask = codeMask)
    (w : World) :
    wp (Sys.exec me) (pppIncrement cfg s)
      (OpEnd cfg s (·.Allowed cfg) (fun e => { e with counter := numAdd e.counter (numI 1) }) id w)
      w := by
  refine wp_load (fun _ => .stopped) (fun ret s1 w1 hret _ hw1 => ?_) ?_
  · simp only
    rw [if_pos hret]
    exact wp_opFailed hret hw1
  intro fd e w1 hlook hrange hcodes hw1
  have hverdict := @verdict_eq_zero cfg s fd.val e 0 hs (dbLookup_valid hlook)
  simp only
  rw [if_neg (by simp), pppStateVerify_eq hcodes, ret_bind]
  change wp _ (if verdict cfg (s.loaded fd.val e) 0 ≠ 0 then _ else _) _ _
  by_cases hret : verdict cfg (s.loaded fd.val e) 0 = 0
  swap
  · rw [if_pos hret]
    exact wp_opRefused hret hw1
  · rw [if_neg (not_not.mpr hret)]
    refine wp_opStore fd e hlook (hverdict.mp hret).1 rfl ?_ hw1 fun s2 h2 => h2.restore
    rw [setCounter_entry, loaded_entry, loaded_counter]

/-- The salt that `ppp_skip` adds is that of the number skipped to. -/
theorem pppAddSalt_self (s : State) (hsalt : s.saltMask = saltMask) (hcode : s.codeMask = codeMask) :
    pppAddSalt s s.counter = s.counter := by
  rw [pppAddSalt, hsalt, hcode]
  split_ifs
  · refine Num.ext_toNat ?_
    have hlt := s.counter.toNat_lt
    have hsum := toNat_salt_add_code s.counter
    rw [Num.toNat_numAdd, Nat.add_comm, hsum, Nat.mod_eq_of_lt hlt]
  · rfl

/-- `ppp_skip`: the counter becomes the number skipped to, salt and all. -/
theorem pppSkip_spec (me : Pid) (cfg : Cfg) (s : State) (skipTo : Num)
    (hsalt : s.saltMask = saltMask) (hs : s.codeMask = codeMask) (w : World) :
    wp (Sys.exec me) (pppSkip cfg s skipTo)
      (OpEnd cfg s (fun e => e.Allowed cfg ∧ skipTo.toNat < e.maxCode)
        (fun e => { e with counter := skipTo }) (State.setCounter skipTo) w) w := by
  refine wp_load (fun _ => .stopped) (fun ret s1 w1 hret _ hw1 => ?_) ?_
  · simp only
    rw [if_pos hret]
    exact wp_opFailed hret hw1
  intro fd e w1 hlook hrange hcodes hw1
  have hv := dbLookup_valid hlook
  let last := if 0 ≤ numCmp skipTo (s.loaded fd.val e).maxCode then pppErrorRange else 0
  have hverdict := @verdict_eq_zero cfg s fd.val e last hs hv
  simp only
  rw [if_neg (by simp), pppStateVerify_eq hcodes, ret_bind]
  change wp _ (if verdict cfg (s.loaded fd.val e) last ≠ 0 then _ else _) _ _
  by_cases hret : verdict cfg (s.loaded fd.val e) last = 0
  swap
  · rw [if_pos hret]
    exact wp_opRefused hret hw1
  · rw [if_neg (not_not.mpr hret)]
    obtain ⟨hallowed, hlast⟩ := hverdict.mp hret
    have hlt : skipTo.toNat < e.maxCode := by
      simp only [last, numCmp_nonneg_iff, loaded_maxCode s fd.val e hs hv] at hlast
      by_contra h
      rw [if_pos (Nat.not_lt.mp h)] at hlast
      simp at hlast
    have hadd : pppAddSalt ((s.loaded fd.val e).setCounter skipTo)
        ((s.loaded fd.val e).setCounter skipTo).counter = skipTo :=
      pppAddSalt_self _ hsalt hs
    rw [hadd, setCounter_setCounter, ← bind_pure (pppStateRelease cfg _ _)]
    refine @wp_opStore me cfg s _ _ _ (State.setCounter skipTo) id w w1 fd e hlook ⟨hallowed, hlt⟩
      rfl ?_ hw1 ?_
    · rw [setCounter_entry, loaded_entry]
    · exact fun s2 h2 => h2

/-! ## Operations on a state of their own -/

/-- A state as `state_init` leaves it. -/
structure State.Fresh (s : State) (u : CString) : Prop extends s.For u where
  lock : s.lock = -1
  newKey : s.newKey = false

theorem State.initial_fresh (cfg : Cfg) (junk : Junk) (u : CString) :
    (State.initial cfg junk u).Fresh u where
  username := rfl
  saltMask := by dsimp only [State.initial]
  codeMask := by dsimp only [State.initial]
  lock := rfl
  newKey := rfl

theorem State.Fresh.setNamed {s : State} {u : CString} (h : s.Fresh u) (v : Bool) :
    (s.setNamed v).Fresh u :=
  ⟨⟨h.username, h.saltMask, h.codeMask⟩, h.lock, h.newKey⟩

theorem stateInit_sat {cfg : Cfg} {uid : Uid} {ok : Prop} (junk : Junk) (named : Bool)
    (u : CString) : (stateInit cfg junk (namePtr named u)).Sat (Sys.Answers uid ok) Sys.Calm
      (fun _ => True) (·.Fresh u) := by
  cases named with
  | false => trivial
  | true =>
    refine (sat_assert_bind _).mpr ⟨fun _ => ?_, fun _ => trivial⟩
    exact ⟨⟨trivial, id⟩, fun copied _ => (State.initial_fresh cfg junk u).setNamed copied⟩

theorem pppStateInit_sat {cfg : Cfg} {uid : Uid} {ok : Prop} (named : Bool) (u : CString) :
    (pppStateInit cfg (namePtr named u)).Sat (Sys.Answers uid ok) Sys.Calm (fun _ => True)
      (fun r => r = .error stateNomem ∨ ∃ s, r = .ok s ∧ s.Fresh u) := by
  refine (sat_issue_bind _).mpr ⟨⟨trivial, id⟩, fun junk _ => ?_⟩
  rcases junk with _ | junk
  · exact .inl rfl
  · exact (stateInit_sat junk named u).bind fun s hs => .inr ⟨s, rfl, hs⟩

theorem stateFini_sat {cfg : Cfg} {uid : Uid} {ok : Prop} (s : State) :
    Risks cfg uid s.named ok Sys.Calm (fun _ => True) (stateFini cfg s) := by
  unfold stateFini
  split_ifs
  · exact (stateUnlock_sat s).bind fun _ _ => trivial
  · trivial

/-- `ppp_failures` and `ppp_oob_time`: the entry is changed as `change` says,
whatever the caller has in memory. -/
theorem pppUpdate_spec (me : Pid) (cfg : Cfg) (named : Bool) (u : CString)
    (change : State → SysM State) (C : Entry → Entry → Prop)
    (hchange : ∀ s uid ok, Meets cfg uid true ok Sys.Calm
      (fun s' => s'.username = s.username ∧ C s.entry s'.entry) (change s)) (w : World) :
    wp (Sys.exec me) (pppUpdate cfg (namePtr named u) change)
      (fun r w' => w'.Keeps w ∧ r ≠ some 0 ∨
        ∃ e e', C e e' ∧ Replaced cfg u e e' w w' ∧ (w.AllOk → ∀ ret, r = some ret → ret = 0)) w := by
  set Q : Option ℕ → World → Prop := fun r w' => w'.Keeps w ∧ r ≠ some 0 ∨
    ∃ e e', C e e' ∧ Replaced cfg u e e' w w' ∧ (w.AllOk → ∀ ret, r = some ret → ret = 0)
  have habort {S : Prop} (w' : World) (hw : w'.Keeps w) (_ : S) : Q none w' := .inl ⟨hw, by simp⟩
  have hfini (s : State) (ret : ℕ) (hret : ret ≠ 0) (w' : World) (hw : w'.Keeps w) :
      wp (Sys.exec me) (stateFini cfg s >>= fun _ => (pure ret : SysM ℕ)) Q w' :=
    wp_quiet_seq (stateFini_sat s) Sys.Calm.quiet hw habort fun _ w1 _ hw1 =>
      .inl ⟨hw1, fun h => hret (Option.some.inj h)⟩
  refine wp_quiet_seq (pppStateInit_sat named u) Sys.Calm.quiet (.refl w) habort fun r w1 hr hw1 => ?_
  rcases hr with rfl | ⟨s, rfl, hs⟩
  · exact .inl ⟨hw1, fun h => absurd (Option.some.inj h) (by simp)⟩
  obtain rfl := hs.username
  -- the entry is loaded under the lock, whatever the caller has in memory
  refine wp_load (w := w1) (fun w2 hw2 => habort w2 (hw2.trans hw1) trivial)
    (fun ret s1 w2 hret _ hw2 => ?_) fun fd e w2 hlook _ _ hw2 => ?_
  · simp only
    rw [if_pos hret]
    exact hfini s1 ret hret w2 (hw2.trans hw1)
  simp only
  rw [if_neg (by simp)]
  rw [hw1.file] at hlook
  refine wp_quiet_seq (hchange _ _ _) Sys.Calm.quiet (hw2.trans hw1) habort fun s2 w3 h2 hw3 => ?_
  obtain ⟨hu2, hC⟩ := h2
  rw [loaded_entry] at hC
  have hreplaced {w' : World} (h : Updated cfg s2 false w w') :
      Replaced cfg s.username e s2.entry w w' := ⟨hlook, s2, hu2, rfl, h⟩
  -- changed, and stored with the lock given back
  refine wp_seq (pppStateRelease_spec me cfg s2 { store := true, unlock := true } rfl w3) ?_ ?_
  · intro w4 h4
    cases h4.of_keeps hw3 with
    | stored h hr => exact .inr ⟨e, _, hC, hreplaced h, by simp⟩
    | kept h hr => exact habort w4 h trivial
  · rintro ⟨ret, s3⟩ w4 h4
    cases h4.of_keeps hw3 with
    | kept h hr => exact hfini s3 ret (hr ret s3 rfl).1 w4 h
    | stored h hr =>
      refine wp_quiet_seq (stateFini_sat s3) Sys.Calm.quiet (.refl w4) (fun w5 hw5 _ => ?_)
        fun _ w5 _ hw5 => ?_
      · exact .inr ⟨e, _, hC, hreplaced (h.of_keeps_right hw5), by simp⟩
      · refine .inr ⟨e, _, hC, hreplaced (h.of_keeps_right hw5), ?_⟩
        rintro hall _ ⟨rfl⟩
        exact (hr ret s3 rfl).1 hall

end Otpasswd
