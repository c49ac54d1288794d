import Otpasswd.Agent.Prepare
import Otpasswd.Agent.Handle
import Otpasswd.Libotp.OneTime
import Otpasswd.Libotp.StoreCode
import Otpasswd.Libotp.StoreCut

/-!
# Otpasswd.Agent.Agreement — memory and database after a change that failed

A change of a stored entry that is reported as not made leaves the entry as it
was, and so is the state that is still held, if any: unless the change passed
its checks and was lost in the store, as the state in memory keeps it.

Main result: `rolledBack_iff`.
-/

namespace Otpasswd

open CText Prog

/-- The reply says that the change was not made. -/
def Agent.ReportsUndone (a a' : Agent) (req : Request) : Prop :=
  ∃ h, a'.sent = a.sent ++ [h] ∧ h.status ≠ agentOk ∧
    (req.type = .setSpass → ¬ SpassChanged h.status)

/-- The entry of the user is the one of before, and that of the state held. -/
structure InAgreement (cfg : Cfg) (a a' : Agent) (w w' : World) : Prop where
  unchanged : dbLookup (w'.file (dbLoc cfg a.username)) a.username =
    dbLookup (w.file (dbLoc cfg a.username)) a.username
  memory : ∀ s, a'.s = some s →
    dbLookup (w'.file (dbLoc cfg a.username)) a.username = some s.entry

/-- A request that is answered as not done leaves memory and database in
agreement. -/
def RolledBack (crypto : Crypto) (cfg : Cfg) (me : Pid) (a : Agent) (w : World) (req : Request) :
    Prop :=
  ∀ retval a' w', handled crypto cfg me a w req = (some (retval, a'), w') →
    a.ReportsUndone a' req → InAgreement cfg a a' w w'

section

variable (crypto : Crypto) (cfg : Cfg) (me : Pid) (a : Agent) (s : State) (w : World)
  (req : Request)

/-- The request gets to its store: it loaded `s₁`, made `s₂` of it, and will be
answered with `code` if nothing fails. -/
def Comes (s₁ s₂ : State) (code : ℕ) (w₁ : World) : Prop :=
  ∃ b, (req.prepare crypto cfg a s).run (Sys.exec me) w = (some (.storing b s₁ s₂ code), w₁)

/-- If the request gets to its store, the lock is given back afterwards. -/
def UnlockSucceeds : Prop :=
  ∀ s₁ s₂ code w₁ retval s₃ w₂, Comes crypto cfg me a s w req s₁ s₂ code w₁ →
    (stateStore cfg s₂ false).run (Sys.exec me) w₁ = (some (retval, s₃), w₂) →
    ∃ s₄ w₃, (stateUnlock cfg s₃).run (Sys.exec me) w₂ = (some (0, s₄), w₃)

/-- The request passes its checks and changes something, and the store fails. -/
def StoreFails : Prop :=
  ∃ s₁ s₂ code w₁ retval s₃ w₂, Comes crypto cfg me a s w req s₁ s₂ code w₁ ∧
    s₂.entry ≠ s₁.entry ∧ retval ≠ 0 ∧
    (stateStore cfg s₂ false).run (Sys.exec me) w₁ = (some (retval, s₃), w₂)

/-- A `SET_SPASS` that fails its checks is stored all the same, and the store
is cut short. -/
def RewriteLoses : Prop :=
  ∃ s₁ s₂ code w₁ s₃, Comes crypto cfg me a s w req s₁ s₂ code w₁ ∧
    req.type = .setSpass ∧ ¬ SpassChanged code ∧
    ((stateStore cfg s₂ false).run (Sys.exec me) w₁).1 = some (0, s₃) ∧ CutShort me cfg s₂ w₁

end

section

variable {crypto : Crypto} {cfg : Cfg} {me : Pid} {a : Agent} {s : State} {w : World}
  {req : Request}

theorem pppStateRelease_stored (s : State) :
    pppStateRelease cfg s { store := true, unlock := true } =
      stateStore cfg s false >>= fun r => stateUnlock cfg r.2 >>= fun q =>
        .ret (if r.1 ≠ 0 then r.1 else q.1, q.2) := by
  simp only [pppStateRelease, pppReleaseStore, pppReleaseUnlock, assert, Bool.false_eq_true,
    and_false, not_false_eq_true, false_and, if_true, if_false, ret_bind, pure_eq_ret]

/-- A store of a locked state that succeeds is one of the database. -/
theorem stateStore_zero {s s' : State} {w w' : World} (hkey : s.newKey = true → 0 < s.lock)
    (h : (stateStore cfg s false).run (Sys.exec me) w = (some (0, s'), w')) :
    (dbFileStore cfg s false).run (Sys.exec me) w = (some (0, s'), w') := by
  have hassert : ¬ (s.newKey = true ∧ false = true) := by simp
  rw [stateStore, assert, if_pos hassert, ret_bind] at h
  by_cases hnew : s.newKey = true
  · rw [if_pos hnew, assert, if_neg (not_le.mpr (hkey hnew))] at h
    cases (Prod.mk.inj h).1
  rw [if_neg hnew] at h
  by_cases hlock : s.lock ≤ 0
  · rw [if_pos hlock] at h
    obtain ⟨h2, -⟩ := Prod.mk.inj (Option.some.inj (Prod.mk.inj h).1)
    cases h2
  have hsame : s.setNewKey false = s := by
    obtain ⟨⟩ := s
    simp only [Bool.not_eq_true] at hnew
    subst hnew
    rfl
  rw [if_neg hlock, hsame, stateWrite] at h
  split at h
  · exact h
  · exact h
  · cases (Prod.mk.inj h).1

theorem finish_run {b : Agent} {s₁ s₂ s₃ s₄ : State} {code retval : ℕ} {w₁ w₂ w₃ : World}
    (hstore : (stateStore cfg s₂ false).run (Sys.exec me) w₁ = (some (retval, s₃), w₂))
    (hunlock : (stateUnlock cfg s₃).run (Sys.exec me) w₂ = (some (0, s₄), w₃)) :
    ((Prepared.storing b s₁ s₂ code).finish cfg).run (Sys.exec me) w₁ =
      (some (agentOk, (b.setS (some s₄)).sendReply (if retval = 0 then code else retval)), w₃) := by
  rw [Prepared.finish, pppStateRelease_stored]
  simp only [LawfulMonad.bind_assoc, run_bind, hstore, hunlock]
  by_cases h : retval = 0
  · subst h
    rfl
  · rw [if_pos h]
    rfl

/-- An unlock that succeeds. -/
theorem stateUnlock_done {s s' : State} {w' : World}
    (h : (stateUnlock cfg s).run (Sys.exec me) w = (some (0, s'), w')) :
    w'.Keeps w ∧ s'.entry = s.entry ∧ ¬ 0 < s'.lock := by
  have hwp : wp (Sys.exec me) (stateUnlock cfg s) _ w :=
    wp_quiet (stateUnlock_sat s) Sys.Calm.quiet (.refl w)
  rw [wp, h] at hwp
  obtain ⟨hw, -, hr⟩ := hwp
  refine ⟨hw, ?_⟩
  rcases (hr _ rfl).1 with ⟨hs, hlock⟩ | ⟨-, hs⟩ <;> simp only at hs <;> subst hs
  · exact ⟨rfl, by have := hlock rfl; omega⟩
  · exact ⟨rfl, by simp [State.setLock]⟩

theorem sendReply_sent {a : Agent} (h : a.locked = false) (status : ℕ) :
    ∃ hdr, (a.sendReply status).sent = a.sent ++ [hdr] ∧ hdr.status = status := by
  have hl : ({ a with shdr := { a.shdr with status := status } } : Agent).locked = false := h
  refine ⟨{ a.shdr with status := status }, ?_, rfl⟩
  unfold Agent.sendReply
  simp only
  rw [if_neg (by simp [hl])]

/-- What the reply of a request that was stored says. -/
theorem reportsUndone_iff {b : Agent} {s : State} (hsent : b.sent = a.sent) (hlock : ¬ 0 < s.lock)
    (status : ℕ) : a.ReportsUndone ((b.setS (some s)).sendReply status) req ↔
      status ≠ agentOk ∧ (req.type = .setSpass → ¬ SpassChanged status) := by
  have hl : (b.setS (some s)).locked = false := by simp [Agent.locked, Agent.setS, hlock]
  obtain ⟨hdr, hhdr, hstatus⟩ := sendReply_sent hl status
  have hhdr' : ((b.setS (some s)).sendReply status).sent = a.sent ++ [hdr] := by
    rw [hhdr, ← hsent]
    rfl
  constructor
  · rintro ⟨h, hh, h1, h2⟩
    rw [hhdr'] at hh
    have heq := List.singleton_inj.mp (List.append_cancel_left hh)
    rw [← heq, hstatus] at h1 h2
    exact ⟨h1, h2⟩
  · rintro ⟨h1, h2⟩
    exact ⟨hdr, hhdr', by rwa [hstatus], by rwa [hstatus]⟩

theorem not_storeFails (h : ∀ s₁ s₂ code w₁, ¬ Comes crypto cfg me a s w req s₁ s₂ code w₁) :
    ¬ StoreFails crypto cfg me a s w req ∧ ¬ RewriteLoses crypto cfg me a s w req := by
  constructor
  · rintro ⟨s₁, s₂, code, w₁, -, -, -, hcomes, -⟩
    exact h s₁ s₂ code w₁ hcomes
  · rintro ⟨s₁, s₂, code, w₁, -, hcomes, -⟩
    exact h s₁ s₂ code w₁ hcomes

/-- The request that gets to its store. -/
theorem storing_rolledBack_iff {b : Agent} {s₁ s₂ : State} {code : ℕ} {w₁ : World}
    (hhandled : handled crypto cfg me a w req =
      ((Prepared.storing b s₁ s₂ code).finish cfg).run (Sys.exec me) w₁) (hw₁ : w₁.Keeps w)
    (he : dbLookup (w.file (dbLoc cfg a.username)) a.username = some s.entry)
    (hprep : (req.prepare crypto cfg a s).run (Sys.exec me) w =
      (some (.storing b s₁ s₂ code), w₁))
    (hsent : b.sent = a.sent) (hentry : s₁.entry = s.entry) (hname : s₂.username = a.username)
    (hkey : s₂.newKey = true → 0 < s₂.lock)
    (hset : req.type ≠ .setSpass → code = 0)
    (hspass : req.type = .setSpass → code ≠ 0 ∧ (¬ SpassChanged code → s₂ = s₁))
    (hunlock : UnlockSucceeds crypto cfg me a s w req) :
    RolledBack crypto cfg me a w req ↔
      ¬ StoreFails crypto cfg me a s w req ∧ ¬ RewriteLoses crypto cfg me a s w req := by
  -- the request gets to one store only, so the conditions speak of this one
  have hcomes : Comes crypto cfg me a s w req s₁ s₂ code w₁ := ⟨b, hprep⟩
  have hinj {s₁' s₂' : State} {code' : ℕ} {w₁' : World}
      (h : Comes crypto cfg me a s w req s₁' s₂' code' w₁') :
      s₁' = s₁ ∧ s₂' = s₂ ∧ code' = code ∧ w₁' = w₁ := by
    obtain ⟨b', h⟩ := h
    obtain ⟨h, hw⟩ := Prod.mk.inj (h.symm.trans hprep)
    obtain ⟨-, h1, h2, h3⟩ := Prepared.storing.inj (Option.some.inj h)
    exact ⟨h1, h2, h3, hw⟩
  rcases hstore : (stateStore cfg s₂ false).run (Sys.exec me) w₁ with ⟨_ | ⟨retval, s₃⟩, w₂⟩
  · -- the store is aborted, and so is the request
    have hnone : ((Prepared.storing b s₁ s₂ code).finish cfg).run (Sys.exec me) w₁ =
        (none, w₂) := by
      rw [Prepared.finish, pppStateRelease_stored]
      simp only [LawfulMonad.bind_assoc, run_bind, hstore]
    refine iff_of_true (fun retval a' w' h => ?_) ⟨?_, ?_⟩
    · rw [hhandled, hnone] at h
      cases (Prod.mk.inj h).1
    · rintro ⟨_, _, _, _, _, _, _, h, -, -, hrun⟩
      obtain ⟨-, rfl, -, rfl⟩ := hinj h
      rw [hstore] at hrun
      cases (Prod.mk.inj hrun).1
    · rintro ⟨_, _, _, _, _, h, -, -, hrun, -⟩
      obtain ⟨-, rfl, -, rfl⟩ := hinj h
      rw [hstore] at hrun
      cases hrun
  -- the store returned: the lock is given back and the status is sent
  obtain ⟨s₄, w₃, hfreed⟩ := hunlock _ _ _ _ _ _ _ hcomes hstore
  obtain ⟨hw₃, hs₄, hfree⟩ := stateUnlock_done hfreed
  have hend := @stateStore_end cfg s₂ me w₁ hkey
  rw [wp, hstore] at hend
  obtain ⟨hcode, ⟨lock, rfl⟩, hdone⟩ := hend retval s₃ rfl
  replace hs₄ : s₄.entry = s₂.entry := hs₄
  rw [finish_run hstore hfreed] at hhandled
  set status := if retval = 0 then code else retval with hstatus
  have hreport := @reportsUndone_iff a req b s₄ hsent hfree status
  -- each side says in its own way what the store made of the entry
  have hrolled : RolledBack crypto cfg me a w req ↔
      (status ≠ agentOk ∧ (req.type = .setSpass → ¬ SpassChanged status) →
        dbLookup (w₂.file (dbLoc cfg a.username)) a.username = some s.entry ∧
          s₂.entry = s.entry) := by
    rw [← hreport]
    constructor
    · intro h hr
      obtain ⟨h1, h2⟩ := h _ _ _ hhandled hr
      rw [hw₃.file, he] at h1
      have h3 := h2 s₄ (by rw [sendReply_s]; rfl)
      rw [hw₃.file, h1, hs₄] at h3
      exact ⟨h1, (Option.some.inj h3).symm⟩
    · intro h retval' a' w' hh hr
      obtain ⟨hres, rfl⟩ := Prod.mk.inj (hhandled.symm.trans hh)
      obtain ⟨-, rfl⟩ := Prod.mk.inj (Option.some.inj hres)
      obtain ⟨h1, h2⟩ := h hr
      refine ⟨by rw [hw₃.file, h1, he], fun s' hs' => ?_⟩
      rw [sendReply_s] at hs'
      obtain rfl := Option.some.inj hs'
      rw [hw₃.file, h1, hs₄, h2]
  have hfails : StoreFails crypto cfg me a s w req ↔ retval ≠ 0 ∧ s₂.entry ≠ s.entry := by
    constructor
    · rintro ⟨_, _, _, _, retval', _, _, h, hne, hret, hrun⟩
      obtain ⟨rfl, rfl, -, rfl⟩ := hinj h
      rw [hstore] at hrun
      obtain ⟨rfl, -⟩ := Prod.mk.inj (Option.some.inj (Prod.mk.inj hrun).1)
      exact ⟨hret, hentry ▸ hne⟩
    · rintro ⟨hret, hne⟩
      exact ⟨_, _, _, _, _, _, _, hcomes, hentry ▸ hne, hret, hstore⟩
  have hloses : RewriteLoses crypto cfg me a s w req ↔ retval = 0 ∧ req.type = .setSpass ∧
      ¬ SpassChanged code ∧
        dbLookup (w₂.file (dbLoc cfg a.username)) a.username ≠ some s.entry := by
    -- a password that was refused is stored with the old entry
    have hcut (hret : retval = 0) (htype : req.type = .setSpass) (hchanged : ¬ SpassChanged code) :
        dbLookup (w₂.file (dbLoc cfg a.username)) a.username ≠ some s.entry ↔
          CutShort me cfg s₂ w₁ := by
      have hs₂ : s₂.entry = s.entry := by rw [(hspass htype).2 hchanged, hentry]
      have hrun := stateStore_zero hkey (hret ▸ hstore)
      rw [← hs₂, ← hname]
      refine dbFileStore_cutShort ?_ ?_ hrun
      · rw [hname]
        exact dbLookup_readable he
      · rw [hs₂]
        exact dbLookup_valid he
    constructor
    · rintro ⟨_, _, _, _, _, h, htype, hchanged, hrun, hshort⟩
      obtain ⟨rfl, rfl, rfl, rfl⟩ := hinj h
      rw [hstore] at hrun
      obtain ⟨hret, -⟩ := Prod.mk.inj (Option.some.inj hrun)
      exact ⟨hret, htype, hchanged, (hcut hret htype hchanged).mpr hshort⟩
    · rintro ⟨hret, htype, hchanged, hlook⟩
      refine ⟨s₁, s₂, code, w₁, s₂.setLock lock, hcomes, htype, hchanged, ?_,
        (hcut hret htype hchanged).mp hlook⟩
      rw [hstore, hret]
  -- the rest compares the status with what was stored
  rw [hrolled, hfails, hloses]
  by_cases hret : retval = 0
  · have hst : status = code := by rw [hstatus, if_pos hret]
    rw [hst]
    by_cases htype : req.type = .setSpass
    · by_cases hchanged : SpassChanged code
      · simp [hret, htype, hchanged]
      · obtain ⟨hcode0, hsame⟩ := hspass htype
        have hs₂ : s₂.entry = s.entry := by rw [hsame hchanged, hentry]
        simp [hret, htype, hchanged, hcode0, hs₂]
    · simp [hret, htype, hset htype]
  · have hst : status = retval := by rw [hstatus, if_neg hret]
    have hw₂ : w₂.Keeps w := (hdone.resolve_left fun h => hret h.1).2.trans hw₁
    have hchanged : ¬ SpassChanged retval := by
      simp only [StoreCode] at hcode
      simp only [SpassChanged, pppErrorSpassSet, pppErrorSpassUnset]
      omega
    rw [hst, hw₂.file]
    simp [hret, hchanged, he]

/-- The memory and the database agree after a change that is reported as not
made, unless its store fails or loses the line. -/
theorem rolledBack_iff (hok : a.Ok) (hs : a.s = some s) (hnew : a.newState = false)
    (he : dbLookup (w.file (dbLoc cfg a.username)) a.username = some s.entry)
    (hreq : req.IsChange) (hunlock : UnlockSucceeds crypto cfg me a s w req) :
    RolledBack crypto cfg me a w req ↔
      ¬ StoreFails crypto cfg me a s w req ∧ ¬ RewriteLoses crypto cfg me a s w req := by
  have hspec : wp (Sys.exec me) (req.prepare crypto cfg a s) (Stands a req s.entry w) w :=
    prepare_spec hok hreq hnew hs rfl he
  have hhandled : handled crypto cfg me a w req =
      (req.prepare crypto cfg a s >>= Prepared.finish cfg).run (Sys.exec me) w := by
    rw [handled, requestHandle_prepare hreq hnew hs]
  rcases hprep : (req.prepare crypto cfg a s).run (Sys.exec me) w with ⟨_ | p, w₁⟩
  · rw [run_bind, hprep] at hhandled
    refine iff_of_true (fun retval a' w' h => ?_) (not_storeFails ?_)
    · rw [hhandled] at h
      cases (Prod.mk.inj h).1
    · rintro s₁ s₂ code w₁ ⟨b, hb⟩
      rw [hprep] at hb
      cases (Prod.mk.inj hb).1
  rw [wp, hprep] at hspec
  obtain ⟨hw₁, hend⟩ := hspec
  rw [run_bind, hprep] at hhandled
  cases hend p rfl with
  | ended retval a' hmem =>
    replace hhandled : handled crypto cfg me a w req = (some (retval, a'), w₁) := hhandled
    refine iff_of_true (fun retval' a'' w' h _ => ?_) (not_storeFails ?_)
    · obtain ⟨hres, rfl⟩ := Prod.mk.inj (hhandled.symm.trans h)
      obtain ⟨-, rfl⟩ := Prod.mk.inj (Option.some.inj hres)
      refine ⟨by rw [hw₁.file], fun s' hs' => ?_⟩
      rw [hw₁.file, he, hmem s' hs']
    · rintro s₁ s₂ code w₂ ⟨b, hb⟩
      rw [hprep] at hb
      cases Option.some.inj (Prod.mk.inj hb).1
  | storing b s₁ s₂ code hsent hentry hname hvalid hkey hset hspass =>
    exact storing_rolledBack_iff hhandled hw₁ he hprep hsent hentry hname hkey hset hspass hunlock

/-- Whether the unlock succeeds is found by running the request up to it. -/
instance : Decidable (UnlockSucceeds crypto cfg me a s w req) :=
  match hprep : (req.prepare crypto cfg a s).run (Sys.exec me) w with
  | (some (.storing b s₁ s₂ code), w₁) =>
    match hstore : (stateStore cfg s₂ false).run (Sys.exec me) w₁ with
    | (some (_, s₃), w₂) =>
      decidable_of_iff (((stateUnlock cfg s₃).run (Sys.exec me) w₂).1.map Prod.fst = some 0) <| by
        constructor
        · rintro h _ _ _ _ _ _ _ ⟨_, hc⟩ hs
          obtain ⟨hp, rfl⟩ := Prod.mk.inj (hprep.symm.trans hc)
          obtain ⟨-, rfl, rfl, rfl⟩ := Prepared.storing.inj (Option.some.inj hp)
          obtain ⟨hr, rfl⟩ := Prod.mk.inj (hstore.symm.trans hs)
          obtain ⟨rfl, rfl⟩ := Prod.mk.inj (Option.some.inj hr)
          obtain ⟨⟨_, s₄⟩, hu, rfl⟩ := Option.map_eq_some_iff.mp h
          exact ⟨s₄, _, Prod.ext hu rfl⟩
        · intro h
          obtain ⟨s₄, w₃, hu⟩ := h _ _ _ _ _ _ _ ⟨b, hprep⟩ hstore
          rw [hu]
          rfl
    | (none, _) => isTrue <| by
      rintro _ _ _ _ _ _ _ ⟨_, hc⟩ hs
      obtain ⟨hp, rfl⟩ := Prod.mk.inj (hprep.symm.trans hc)
      obtain ⟨-, rfl, rfl, rfl⟩ := Prepared.storing.inj (Option.some.inj hp)
      cases (Prod.mk.inj (hstore.symm.trans hs)).1
  | (some (.ended _ _), _) => isTrue <| by
    rintro _ _ _ _ _ _ _ ⟨_, hc⟩ _
    cases Option.some.inj (Prod.mk.inj (hprep.symm.trans hc)).1
  | (none, _) => isTrue <| by
    rintro _ _ _ _ _ _ _ ⟨_, hc⟩ _
    cases (Prod.mk.inj (hprep.symm.trans hc)).1

end

/-! ## A store that fails -/

/-- What `STATE_LOAD` leaves of Alice's entry. -/
def aliceLoaded : State := aliceState.loaded (-1) aliceState.entry

/-- The agent of an administrator after it. -/
def aliceHeld : Agent := (Agent.start alice true).setS (some aliceLoaded)

def disableKey : Request := { Request.plain .flagAdd with int := flagDisabled }

/-- `rename` of the temporary file fails. -/
def renameFails : World :=
  { aliceWorld with io := fun n => { Outcome.good with ok := n ≠ 25 } }

theorem aliceHeld_ok : aliceHeld.Ok := by
  refine .hold (fun s hs => ?_) rfl
  obtain rfl := Option.some.inj hs
  exact (State.initial_fresh configRoot Outcome.good.junk alice).loaded_held _ (.inl (loaded_lock ..))

theorem renameFails_lookup : dbLookup (renameFails.file (dbLoc configRoot aliceHeld.username))
    aliceHeld.username = some aliceLoaded.entry := by
  rw [aliceLoaded, loaded_entry]
  decide +kernel

theorem rolledBack_iff_alice :
    RolledBack plainCrypto configRoot 0 aliceHeld renameFails disableKey ↔
      ¬ StoreFails plainCrypto configRoot 0 aliceHeld aliceLoaded renameFails disableKey ∧
        ¬ RewriteLoses plainCrypto configRoot 0 aliceHeld aliceLoaded renameFails disableKey :=
  rolledBack_iff aliceHeld_ok rfl rfl renameFails_lookup (by decide) (by decide +kernel)

/-- The key is disabled in memory only. -/
theorem failed_flagAdd_kept :
    ¬ ∀ (crypto : Crypto) (cfg : Cfg) (me : Pid) (a : Agent) (s : State) (w : World)
      (req : Request), a.Ok → a.s = some s → a.newState = false →
      dbLookup (w.file (dbLoc cfg a.username)) a.username = some s.entry → req.IsChange →
      UnlockSucceeds crypto cfg me a s w req → RolledBack crypto cfg me a w req := by
  intro h
  have hrolled := h plainCrypto configRoot 0 aliceHeld aliceLoaded renameFails disableKey
    aliceHeld_ok rfl rfl renameFails_lookup (by decide) (by decide +kernel)
  have hreply : (handled plainCrypto configRoot 0 aliceHeld renameFails disableKey).1.map (fun r =>
      (r.2.sent.map (·.status), r.2.s.map (·.flags))) =
      some ([stateIoError], some (flagSalted ||| flagDisabled)) := by decide +kernel
  have hfile : (dbLookup ((handled plainCrypto configRoot 0 aliceHeld renameFails disableKey).2.file
      (dbLoc configRoot alice)) alice).map (·.flags) = some flagSalted := by decide +kernel
  unfold RolledBack at hrolled
  generalize handled plainCrypto configRoot 0 aliceHeld renameFails disableKey = run at *
  obtain ⟨⟨retval, a'⟩, hr, hval⟩ := Option.map_eq_some_iff.mp hreply
  obtain ⟨hsent, hflags⟩ := Prod.mk.inj hval
  obtain ⟨hdr, hlist, hstatus⟩ := List.map_eq_singleton_iff.mp hsent
  obtain ⟨s', hs', hflags⟩ := Option.map_eq_some_iff.mp hflags
  have hagree := hrolled retval a' run.2 (Prod.ext hr rfl)
    ⟨hdr, hlist, by simp [hstatus], fun h => nomatch h⟩
  have hmem : dbLookup (run.2.file (dbLoc configRoot alice)) alice = some s'.entry :=
    hagree.memory s' hs'
  rw [hmem, Option.map_some] at hfile
  have hsame : s'.flags = flagSalted := Option.some.inj hfile
  rw [hsame] at hflags
  exact absurd hflags (by decide)

end Otpasswd
