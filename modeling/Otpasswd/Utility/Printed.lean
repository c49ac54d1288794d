import Otpasswd.Agent.Agreement
import Otpasswd.Libotp.KeyKept
import Otpasswd.Utility.PrintNext

/-!
# Otpasswd.Utility.Printed — printed passcodes are the ones that authenticate

A passcard is printed through `GET_PASSCODE`, which adds the salt of the held
state to a plain number; a login reserves the stored counter and compares with
its passcode. Both come to the same block of the cipher.

Main result: `printed_authenticates`.
-/

namespace Otpasswd

open CText Prog

/-! ## Keys -/

/-- The state has the key of the entry, and its salt. -/
structure State.HasKey (s : State) (e : Entry) : Prop where
  sequenceKey : s.sequenceKey = e.sequenceKey
  alphabet : s.alphabet = e.alphabet
  codeLength : s.codeLength = e.codeLength
  flags : s.flags = e.flags
  salt : e.Salted → numAnd s.counter Otpasswd.saltMask = numAnd e.counter Otpasswd.saltMask
  saltMask : s.saltMask = Otpasswd.saltMask
  codeMask : s.codeMask = Otpasswd.codeMask

section

variable {crypto : Crypto} {cfg : Cfg} {u : CString} {s s' mem : State} {e e' : Entry} {n : Num}

/-- A state that was loaded, whatever logins there were before. -/
theorem State.For.hasKey (hmem : mem.For u) (h : e.SameKey e') (fd : ℤ) :
    (mem.loaded fd e').HasKey e where
  sequenceKey := h.sequenceKey
  alphabet := h.alphabet
  codeLength := h.codeLength
  flags := h.flags
  salt := h.salt
  saltMask := hmem.saltMask
  codeMask := hmem.codeMask

theorem State.HasKey.handled (h : s.HasKey e) (hs : s.Handled s') : s'.HasKey e := by
  obtain ⟨lock, newKey, rfl⟩ := hs
  exact ⟨h.1, h.2, h.3, h.4, h.5, h.6, h.7⟩

/-- States with one key have the same passcodes. -/
theorem State.HasKey.passcodeOf_eq (h : s.HasKey e) (h' : s'.HasKey e) (counter : Num) :
    passcodeOf crypto cfg s counter = passcodeOf crypto cfg s' counter := by
  unfold passcodeOf
  rw [h.sequenceKey, h'.sequenceKey, h.alphabet, h'.alphabet, h.codeLength, h'.codeLength]

/-- The number of a passcode, with the salt of the key, is the counter that
the entry gets to. -/
theorem State.HasKey.addSalt (h : s.HasKey e) (hsame : e.SameKey e')
    (hn : n.toNat = codeOf e.flags e'.counter) : pppAddSalt s n = e'.counter := by
  refine Num.ext_toNat ?_
  have hlt := e'.counter.toNat_lt
  unfold codeOf at hn
  unfold pppAddSalt
  rw [h.flags, h.codeMask, h.saltMask]
  by_cases hsalted : e.flags &&& flagSalted ≠ 0
  · rw [if_pos hsalted] at hn
    rw [if_pos hsalted, h.salt hsalted, ← hsame.salt hsalted, Num.toNat_numAdd,
      toNat_and_codeMask, toNat_and_saltMask]
    omega
  · rw [if_neg hsalted] at hn
    rw [if_neg hsalted]
    exact hn

/-! ## Authentication -/

/-- The checks do not look at the lock. -/
theorem StateOk.handled (h : StateOk cfg s) (hs : s.Handled s') : StateOk cfg s' := by
  obtain ⟨lock, newKey, rfl⟩ := hs
  obtain ⟨⟩ := s
  exact h

/-- On a state that passes its checks, one passcode is accepted. -/
theorem pppAuthenticate_accepts (hok : StateOk cfg s)
    (henabled : pppFlagCheck s flagDisabled = false)
    (hcodes : 0 < s.codesOnCard) (hlen : 2 ≤ s.codeLength.toNat ∧ s.codeLength.toNat ≤ 16)
    (hsalt : pppAddSalt s s.counter = s.counter) (passcode : List Char) :
    pppAuthenticate crypto cfg s passcode =
      .ret (if passcode ≠ passcodeOf crypto cfg s s.counter then 3 else 0) := by
  have hget : pppGetPasscode crypto cfg s s.counter =
      .ret (0, passcodeOf crypto cfg s s.counter) := by
    rw [pppGetPasscode, assert, if_pos hlen, ret_bind, if_neg (not_not.mpr hok.2.1), hsalt]
    rfl
  unfold pppAuthenticate
  rw [henabled, if_neg Bool.false_ne_true, pppStateVerify_eq hcodes, if_pos hok, ret_bind,
    if_neg (not_not.mpr rfl), hget, ret_bind]
  simp only
  rw [if_neg (not_not.mpr rfl)]
  split
  · rfl
  · rfl

/-- What a successful increment leaves in memory accepts the passcode of the
counter that it reserved, and no other. -/
theorem State.For.authenticates {fd : ℤ} (hmem : mem.For u) (hallowed : e'.Allowed cfg)
    (hv : e'.Valid) (hs : (mem.loaded fd e').Handled s') (passcode : List Char) :
    pppAuthenticate crypto cfg s' passcode =
      .ret (if passcode ≠ passcodeOf crypto cfg s' e'.counter then 3 else 0) := by
  obtain ⟨hok, henabled⟩ := (@loaded_allowed cfg mem fd e' hmem.codeMask hv).mpr hallowed
  have hcodes : 0 < (mem.loaded fd e').codesOnCard :=
    calculate_codesOnCard hv.codeLength_ge hv.codeLength_le
  have hlen : 2 ≤ (mem.loaded fd e').codeLength.toNat ∧
      (mem.loaded fd e').codeLength.toNat ≤ 16 := ⟨hv.codeLength_ge, hv.codeLength_le⟩
  have hcounter : (mem.loaded fd e').counter = e'.counter := rfl
  have hsalt : (mem.loaded fd e').saltMask = Otpasswd.saltMask := hmem.saltMask
  have hcode : (mem.loaded fd e').codeMask = Otpasswd.codeMask := hmem.codeMask
  generalize mem.loaded fd e' = t at hs hok henabled hcodes hlen hcounter hsalt hcode
  have hok' := hok.handled hs
  obtain ⟨lock, newKey, rfl⟩ := hs
  have hcounter' : ((t.setNewKey newKey).setLock lock).counter = e'.counter := hcounter
  have hadd : pppAddSalt ((t.setNewKey newKey).setLock lock)
      ((t.setNewKey newKey).setLock lock).counter = ((t.setNewKey newKey).setLock lock).counter :=
    pppAddSalt_self _ hsalt hcode
  rw [pppAuthenticate_accepts hok' henabled hcodes hlen hadd, hcounter']

/-- What an increment that was given a number leaves in memory. -/
theorem State.For.reserves {me : Pid} {w w' : World} (hmem : mem.For u)
    (hkey : KeepsKey cfg u w w') (he : dbLookup (w.file (dbLoc cfg u)) u = some e)
    (hr : ((pppIncrement cfg mem).run (Sys.exec me) w').1 = some (0, s')) :
    ∃ fd e', e.SameKey e' ∧ e'.Allowed cfg ∧ e'.Valid ∧ (mem.loaded fd e').Handled s' := by
  obtain rfl := hmem.username
  cases pppIncrement_spec me cfg mem hmem.codeMask w' with
  | kept hkeeps hne => exact absurd hr (hne s')
  | replaced fd e' hallowed hreplaced hhandled =>
    obtain ⟨e0, he0, hsame⟩ := hkey e' hreplaced.before
    obtain rfl := Option.some.inj (he.symm.trans he0)
    exact ⟨fd.val, e', hsame, hallowed, dbLookup_valid hreplaced.before, (hhandled 0 s' hr).2⟩

end

/-- Whatever logins there were before, of this user and of others, and whatever
failed: the login that is given a number accepts the passcode that is printed
for it, and nothing else. It does not matter when it was printed. -/
theorem printed_authenticates (crypto : Crypto) (cfg : Cfg) (u : CString)
    (calls : List LoginCall) (w : World) (e : Entry) (hcalls : ∀ c ∈ calls, c.op.For c.user)
    (he : dbLookup (w.file (dbLoc cfg u)) u = some e) (me : Pid) (mem s' : State)
    (hmem : mem.For u)
    (hr : ((pppIncrement cfg mem).run (Sys.exec me) (afterLogins cfg calls w)).1 = some (0, s'))
    (a : Agent) (s : State) (agent : Pid) (printing : World) (hprints : a.Prints cfg s)
    (hkey : s.HasKey e) (n : Num) (hn : n.toNat = codeOf e.flags s'.counter) :
    ∃ passcode, (a.getters crypto cfg agent printing).getPasscode n = .ok passcode ∧
      ∀ response, pppAuthenticate crypto cfg s' response = .ret 0 ↔ response = passcode := by
  obtain ⟨fd, e', hsame, hallowed, hv, hhandled⟩ :=
    hmem.reserves (afterLogins_keepsKey cfg u calls w hcalls) he hr
  have hcounter : s'.counter = e'.counter := by
    obtain ⟨lock, newKey, rfl⟩ := hhandled
    rfl
  have hkey' : s'.HasKey e := (hmem.hasKey hsame fd).handled hhandled
  rw [hcounter] at hn
  refine ⟨_, hprints.getPasscode n, fun response => ?_⟩
  rw [hmem.authenticates hallowed hv hhandled, hkey.addSalt hsame hn, hkey.passcodeOf_eq hkey']
  split
  · rename_i hne
    constructor
    · intro h
      cases h
    · intro h
      exact absurd h hne
  · rename_i heq
    constructor
    · intro _
      exact not_not.mp heq
    · intro _
      rfl

/-! ## Two users -/

/-- A database of alice and bobby; the 25th call does not succeed. -/
def sharedWorld : World :=
  World.boot (fun db => if db = .global then some (unlines sharedLines) else none) fun n =>
    { Outcome.good with ok := n ≠ 24 }

/-- Two logins of bobby, the first of which cannot store its number, a login of
alice and one that fails. -/
def sharedLogins : List LoginCall :=
  [⟨0, bobby, .increment bobbyState⟩, ⟨1, bobby, .increment bobbyState⟩,
    ⟨0, alice, .increment aliceState⟩, ⟨2, alice, .failures aliceState false⟩]

theorem sharedLogins_for : ∀ c ∈ sharedLogins, c.op.For c.user := by
  have halice := State.initial_fresh configRoot Outcome.good.junk alice
  have hbobby := State.initial_fresh configRoot Outcome.good.junk bobby
  intro c hc
  simp only [sharedLogins, List.mem_cons, List.not_mem_nil, or_false] at hc
  rcases hc with rfl | rfl | rfl | rfl
  · exact ⟨hbobby.toFor, hbobby.lock⟩
  · exact ⟨hbobby.toFor, hbobby.lock⟩
  · exact ⟨halice.toFor, halice.lock⟩
  · exact halice.username

/-- The login of alice that comes after these is given the second number. -/
theorem sharedLogins_next : ∃ s',
    ((pppIncrement configRoot aliceState).run (Sys.exec 0)
      (afterLogins configRoot sharedLogins sharedWorld)).1 = some (0, s') ∧
    (numI 1).toNat = codeOf aliceState.entry.flags s'.counter := by
  have hr : ((pppIncrement configRoot aliceState).run (Sys.exec 0)
      (afterLogins configRoot sharedLogins sharedWorld)).1.map
        (fun r => (r.1, codeOf aliceState.entry.flags r.2.counter)) = some (0, 1) := by
    decide +kernel
  obtain ⟨⟨ret, s'⟩, hrun, hret⟩ := Option.map_eq_some_iff.mp hr
  obtain ⟨rfl, hnumber⟩ := Prod.mk.inj hret
  exact ⟨s', hrun, hnumber.symm⟩

/-- The second passcode of alice. -/
theorem printed_authenticates_alice : ∃ s' passcode,
    ((pppIncrement configRoot aliceState).run (Sys.exec 0)
      (afterLogins configRoot sharedLogins sharedWorld)).1 = some (0, s') ∧
    (aliceHeld.getters plainCrypto configRoot 0 sharedWorld).getPasscode (numI 1) = .ok passcode ∧
    ∀ response, pppAuthenticate plainCrypto configRoot s' response = .ret 0 ↔
      response = passcode := by
  have hmem : aliceState.For alice := (State.initial_fresh configRoot Outcome.good.junk alice).toFor
  have hprints : aliceHeld.Prints configRoot aliceLoaded := by
    constructor
    · rfl
    · rfl
    · exact .inl rfl
    · decide +kernel
    · decide +kernel
    · decide +kernel
    · decide +kernel
  have hkey : aliceLoaded.HasKey aliceState.entry := hmem.hasKey (.refl _) (-1)
  obtain ⟨s', hr, hn⟩ := sharedLogins_next
  obtain ⟨passcode, hprinted, haccepts⟩ := printed_authenticates plainCrypto configRoot alice
    sharedLogins sharedWorld aliceState.entry sharedLogins_for (by decide +kernel) 0 aliceState s'
    hmem hr aliceHeld aliceLoaded 0 sharedWorld hprints hkey (numI 1) hn
  exact ⟨s', passcode, hr, hprinted, haccepts⟩

end Otpasswd
