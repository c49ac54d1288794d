import Otpasswd.Agent.Handling

/-!
# Otpasswd.Agent.CardData — the card data of the state held

The state the agent holds carries seven fields that `ppp_calculate` computes.
Loading computes them; a setter of the flags or of the code length, `SKIP` and
`KEY_GENERATE` change what they depend on and do not compute them again.

Main result: `cards_match`.
-/

namespace Otpasswd

open CText Prog

/-! ## One request -/

/-- The request leaves what the cards of the stored entry `e` depend on. -/
def Request.KeepsEntry (req : Request) (e : Entry) : Prop :=
  match req.type with
  | .flagAdd => (e.flags ||| req.int) &&& flagSalted = 0 ↔ e.flags &&& flagSalted = 0
  | .flagClear => (e.flags &&& ~~~req.int) &&& flagSalted = 0 ↔ e.flags &&& flagSalted = 0
  | .setInt =>
    (PppField.ofNum req.int = .flags →
      (req.int2 &&& flagSalted = 0 ↔ e.flags &&& flagSalted = 0)) ∧
    (PppField.ofNum req.int = .codeLength →
      codesPerRow req.int2.toNat = codesPerRow e.codeLength.toNat)
  | .skip => Entry.justCounter { e with counter := req.num } = e.justCounter
  | _ => True

/-- The request leaves what the cards of the stored state held depend on. -/
def KeepsCards (cfg : Cfg) (a : Agent) (w : World) (req : Request) : Prop :=
  a.newState = false →
    (∀ e, dbLookup (w.file (dbLoc cfg a.username)) a.username = some e → req.KeepsEntry e) ∧
      (req.type = .keyGenerate → ∀ s, a.s = some s → s.justCounter = numI 0)

section

variable {crypto : Crypto} {cfg : Cfg} {me : Pid} {a a' : Agent} {s s' : State} {req : Request}
  {w w' : World} {u : CString} {retval : ℕ}

theorem State.Derived.setPrompt (h : s.Derived) (prompt : Option (List Char)) :
    (s.setPrompt prompt).Derived := by
  rw [State.Derived, calculate_setPrompt, h]

theorem State.Derived.setLock (h : s.Derived) (lock : ℤ) : (s.setLock lock).Derived := by
  rw [State.Derived, calculate_setLock, h]

theorem derived_loaded (s : State) (lock : ℤ) (e : Entry) : (s.loaded lock e).Derived :=
  derived_calculate _

theorem justCounter_congr {t : State} (hsalt : s.flags &&& flagSalted = 0 ↔ t.flags &&& flagSalted = 0)
    (hmask : s.codeMask = t.codeMask) (hcounter : s.counter = t.counter) :
    s.justCounter = t.justCounter := by
  unfold State.justCounter
  rw [hmask, hcounter]
  by_cases h : s.flags &&& flagSalted = 0
  · rw [if_neg (not_not.mpr h), if_neg (not_not.mpr (hsalt.mp h))]
  · rw [if_pos h, if_pos fun h' => h (hsalt.mpr h')]

/-- New flags with the same salt bit. -/
theorem State.Derived.setFlags (h : s.Derived) {flags : Word32}
    (hsalt : flags &&& flagSalted = 0 ↔ s.flags &&& flagSalted = 0) : (s.setFlags flags).Derived :=
  h.congr rfl rfl hsalt.symm rfl (justCounter_congr hsalt.symm rfl rfl)

theorem State.Derived.setCodeLength (h : s.Derived) {len : Word32}
    (hrow : codesPerRow len.toNat = codesPerRow s.codeLength.toNat) :
    (s.setCodeLength len).Derived :=
  h.congr rfl hrow.symm Iff.rfl rfl rfl

/-- A setter that leaves what the cards depend on. -/
theorem Request.Changes.derived {lock : ℤ} {e : Entry}
    (h : req.Changes cfg (s.loaded lock e) s') (hkeeps : req.KeepsEntry e) : s'.Derived := by
  have hloaded := derived_loaded s lock e
  have hflags : (s.loaded lock e).flags = e.flags := rfl
  have hlen : (s.loaded lock e).codeLength = e.codeLength := rfl
  unfold Request.KeepsEntry at hkeeps
  generalize s.loaded lock e = t at h hloaded hflags hlen
  cases h with
  | flagAdd htype _ =>
    simp only [htype, ← hflags] at hkeeps
    exact hloaded.setFlags hkeeps
  | flagClear htype _ =>
    simp only [htype, ← hflags] at hkeeps
    exact hloaded.setFlags hkeeps
  | flags htype hfield _ _ =>
    simp only [htype, ← hflags] at hkeeps
    exact hloaded.setFlags (hkeeps.1 hfield)
  | codeLength htype hfield _ =>
    simp only [htype, ← hlen] at hkeeps
    exact hloaded.setCodeLength (hkeeps.2 hfield)
  | _ => exact hloaded.congr rfl rfl Iff.rfl rfl rfl

theorem or_and_flagSalted (flags : Word32) : (flags ||| flagSalted) &&& flagSalted = flagSalted := by
  ext i hi
  simp only [BitVec.getElem_and, BitVec.getElem_or]
  cases flags[i] <;> cases flagSalted[i] <;> rfl

/-- A salt has no number in it. -/
theorem and_salt_code (n : Num) : numAnd (numAnd n saltMask) codeMask = numI 0 := by
  refine Num.ext_toNat ?_
  rw [toNat_and_codeMask, toNat_and_saltMask, Nat.mul_mod_left]
  rfl

/-- A key generated over a counter at its start. -/
theorem State.Derived.generated (h : s.Derived) (hs : s.Held u) (hzero : s.justCounter = numI 0)
    (pool : List Byte) : (s.generated crypto pool).Derived := by
  unfold State.generated
  by_cases hsalt : s.flags &&& flagSalted = 0
  · rw [if_pos hsalt]
    have hclear : s.flags &&& ~~~flagSalted &&& flagSalted = 0 := by
      rw [BitVec.and_assoc]
      simp
    refine h.congr rfl rfl ⟨fun _ => hclear, fun _ => hsalt⟩ rfl (hzero.trans ?_)
    simp only [State.justCounter, hclear, ne_eq, not_true_eq_false, if_false]
  · rw [if_neg hsalt]
    have hset : (s.flags ||| flagSalted) &&& flagSalted ≠ 0 := by
      rw [or_and_flagSalted]
      decide
    refine h.congr rfl rfl ⟨fun h => absurd h hsalt, fun h => absurd h hset⟩ rfl (hzero.trans ?_)
    simp only [State.justCounter, hset, ne_eq, not_false_eq_true, if_true]
    rw [hs.saltMask, hs.codeMask]
    exact (and_salt_code _).symm

/-- Skipping to where the counter is. -/
theorem State.Derived.skipped (hs : s.Held u) {lock : ℤ} {e : Entry} {n : Num}
    (h : Entry.justCounter { e with counter := n } = e.justCounter) :
    ((s.loaded lock e).setCounter n).Derived := by
  have hloaded := derived_loaded s lock e
  have hflags : (s.loaded lock e).flags = e.flags := rfl
  have hmask : (s.loaded lock e).codeMask = Otpasswd.codeMask := hs.codeMask
  have hcounter := loaded_justCounter s lock e hs.codeMask
  generalize s.loaded lock e = t at hloaded hflags hmask hcounter
  refine hloaded.congr rfl rfl Iff.rfl rfl (hcounter.trans (h.symm.trans ?_))
  have htflags : (t.setCounter n).flags = e.flags := hflags
  have htmask : (t.setCounter n).codeMask = Otpasswd.codeMask := hmask
  unfold State.justCounter Entry.justCounter Entry.Salted
  rw [htflags, htmask]
  rfl

/-- Every effect of a request that is answered with `AGENT_OK`. -/
theorem Effect.derived (hok : a.Ok) (hinv : a.newState = false → ∀ s, a.s = some s → s.Derived)
    (hkeeps : KeepsCards cfg a w req) (hanswer : a.AnsweredOk a')
    (h : Effect crypto cfg me a w req (some (retval, a')) w') :
    a'.newState = false → ∀ s, a'.s = some s → s.Derived := by
  have hsame (h : a.Holds a' a.s a.newState) : a'.newState = false → ∀ s, a'.s = some s → s.Derived := by
    intro hnew s hs
    exact hinv (h.newState.symm.trans hnew) s (h.s.symm.trans hs)
  have hnone (h : a'.s = none) : a'.newState = false → ∀ s, a'.s = some s → s.Derived := by
    intro _ s hs
    rw [h] at hs
    cases hs
  have hsome {s1 : State} {new : Bool} (h : a.Holds a' (some s1) new) (hs1 : new = false → s1.Derived) :
      a'.newState = false → ∀ s, a'.s = some s → s.Derived := by
    intro hnew s hs
    obtain rfl := Option.some.inj (h.s.symm.trans hs)
    exact hs1 (h.newState.symm.trans hnew)
  -- what is not answered with success is out; the rest loads, changes or drops the state
  cases h with
  | refused hw hr => exact absurd hanswer (hr _ _ rfl).1
  | unset s s' lock e retval hnew hfresh hlook hsets hb hw hr => exact absurd hanswer (hr _ _ rfl).1
  | tried htype s hs hw hr => exact absurd hanswer (hr _ _ rfl).1
  | read hro hw hr =>
    obtain ⟨s', hholds, hs' | ⟨s, s1, hs, rfl, hend⟩⟩ := hr _ _ rfl
    · subst hs'
      exact hsame hholds
    · refine hsome hholds fun hnew => ?_
      unfold ReadEnds at hend
      split_ifs at hend
      · -- the counter is set back and the cards are calculated again
        obtain ⟨prompt, rfl⟩ := hend
        have hrewound : s.rewound.Derived := derived_calculate _
        exact hrewound.setPrompt prompt
      · obtain ⟨prompt, rfl⟩ := hend
        exact (hinv hnew s hs).setPrompt prompt
  | dropped hwhy hw hr => exact hnone (hr _ _ rfl).2.s
  | switched htype hw hr => exact hnone (hr _ _ rfl).1
  | put htype s hs hkey h hr => exact hnone (hr _ _ rfl).s
  | removed htype hs s lock e hfresh hlook h hr => exact hnone (hr _ _ rfl).s
  | created htype hs hw hr =>
    obtain ⟨junk, named, hholds⟩ := hr _ _ rfl
    exact hsome hholds fun h => nomatch h
  | changed s s' retval hnew hs hsets hb hw hr =>
    exact hsome (hr _ _ rfl).2 fun h => nomatch h
  | loaded htype hs s e hfresh hlook hw hr => exact hsome (hr _ _ rfl) fun _ => derived_loaded s (-1) e
  | generated htype s pool hs hcheck hw hr =>
    -- a new key starts with counter zero, and so the key in use must
    refine hsome (hr _ _ rfl) fun hnew => ?_
    exact (hinv hnew s hs).generated (hok.held s hs) ((hkeeps hnew).2 htype s hs) pool
  | set s s' lock e hnew hfresh hsets hb h hr =>
    obtain ⟨lock', -, hholds⟩ := hr _ _ rfl
    refine hsome hholds fun _ => State.Derived.setLock ?_ lock'
    exact hsets.changes.derived ((hkeeps hnew).1 e h.before)
  | counted htype s hs e hnew hallowed hskip h hr =>
    obtain ⟨lock, -, hholds⟩ := hr _ _ rfl
    refine hsome hholds fun hnew => ?_
    have hentry := (hkeeps hnew).1 e h.before
    rcases htype with htype | htype
    · simp only [Request.leaves, htype, reduceCtorEq, if_false]
      exact derived_loaded s lock e
    · simp only [Request.leaves, htype, if_true]
      simp only [Request.KeepsEntry, htype] at hentry
      exact .skipped (hok.held s hs) hentry
  | cleared htype e h hr => exact hsame (hr _ _ rfl)

end

/-! ## Runs -/

/-- In a run from an agent without a state, every request of which is answered
with `AGENT_OK` and leaves what the cards depend on, the card data of a stored
state that is held is what `ppp_calculate` computes from it. -/
theorem cards_match (crypto : Crypto) (cfg : Cfg) (me : Pid) (w w' : World) (a a' : Agent)
    (reqs : List Request) (retval : ℕ) (s : State) (hnone : a.s = none)
    (hnew : a.newState = false)
    (hsteps : Along crypto cfg me
      (fun a w req => RepliesOk crypto cfg me a w req ∧ KeepsCards cfg a w req) a w reqs)
    (hrun : (mainLoop crypto cfg a reqs).run (Sys.exec me) w = (some (retval, a'), w'))
    (hs : a'.s = some s) (hstored : a'.newState = false) : s.Derived := by
  have hinit : a.Ok := .hold (fun s h => by simp [hnone] at h) hnew
  have hstep : ∀ (n : ℕ) a w req,
      a.Ok ∧ (a.newState = false → ∀ s, a.s = some s → s.Derived) →
      RepliesOk crypto cfg me a w req ∧ KeepsCards cfg a w req →
      wp (Sys.exec me) (requestHandle crypto cfg a req) (fun r w' =>
        (∃ a', r = some (0, a') ∧ a'.Ok ∧ (a'.newState = false → ∀ s, a'.s = some s → s.Derived)) ∨
          (∀ a', r ≠ some (0, a')) ∧ ∀ retval a', r = some (retval, a') → a'.newState = false →
            ∀ s, a'.s = some s → s.Derived) w := by
    rintro n a w req ⟨hok, hinv⟩ ⟨⟨a1, w1, hhandled, hanswer⟩, hkeeps⟩
    refine wp_mono (wp_and (requestHandle_effect hok) wp_run) ?_
    rintro r w2 ⟨heffect, hr⟩
    obtain ⟨rfl, rfl⟩ := Prod.mk.inj (hr.symm.trans hhandled)
    refine .inl ⟨a1, rfl, ?_⟩
    rcases heffect with ⟨-, hrefused⟩ | ⟨-, -, heffect⟩
    · exact absurd hanswer (hrefused _ _ rfl).1
    · exact ⟨heffect.ok hok, heffect.derived hok hinv hkeeps hanswer⟩
  have hwp := wp_mainLoop (I := fun _ a _ => a.Ok ∧ (a.newState = false → ∀ s, a.s = some s →
      s.Derived)) (Q := fun r _ => ∀ retval a', r = some (retval, a') → a'.newState = false →
        ∀ s, a'.s = some s → s.Derived) hstep (n := 0) (w := w)
    ⟨hinit, fun _ s h => by simp [hnone] at h⟩ hsteps ?_
  · rw [wp, hrun] at hwp
    exact hwp retval a' rfl hstored s hs
  · rintro a1 w1 ⟨-, hinv⟩ _ _ ⟨rfl, rfl⟩
    exact hinv

instance (req : Request) (e : Entry) : Decidable (req.KeepsEntry e) := by
  obtain ⟨type⟩ := req
  cases type <;> (dsimp only [Request.KeepsEntry]; infer_instance)

instance (cfg : Cfg) (a : Agent) (w : World) (req : Request) : Decidable (KeepsCards cfg a w req) :=
  inferInstanceAs (Decidable (a.newState = false →
    (∀ e ∈ dbLookup (w.file (dbLoc cfg a.username)) a.username, req.KeepsEntry e) ∧
      (req.type = .keyGenerate → ∀ s ∈ a.s, s.justCounter = numI 0)))

/-- Changes that the cards do not depend on, and a passcode that is used. -/
def cardRequests : List Request :=
  [.plain .stateLoad, .setInt 3 4, { Request.plain .flagAdd with int := flagSalted },
    { Request.plain .updateLatest with num := numI 1 }, .plain .getPasscode, .plain .skip,
    { Request.plain .authenticate with str := alicePasscode },
    .plain .clearRecentFailures]

theorem cards_match_alice : ∃ s,
    ((mainLoop plainCrypto configRoot (Agent.start alice true) cardRequests).run (Sys.exec 0)
      aliceWorld).1.map (fun r => (r.1, r.2.sent.length, r.2.s)) =
        some (0, cardRequests.length, some s) ∧ s.latestCard = numI 1 ∧ s.Derived := by
  have hsteps : Along plainCrypto configRoot 0 (fun a w req =>
      RepliesOk plainCrypto configRoot 0 a w req ∧ KeepsCards configRoot a w req)
      (Agent.start alice true) aliceWorld cardRequests := by decide +kernel
  have hheld : ((mainLoop plainCrypto configRoot (Agent.start alice true) cardRequests).run
      (Sys.exec 0) aliceWorld).1.map (fun r => (r.1, r.2.sent.length, r.2.newState,
        r.2.s.map State.latestCard)) = some (0, cardRequests.length, false, some (numI 1)) := by
    decide +kernel
  rcases hrun : (mainLoop plainCrypto configRoot (Agent.start alice true) cardRequests).run
    (Sys.exec 0) aliceWorld with ⟨_ | ⟨retval, a'⟩, w'⟩
  · rw [hrun] at hheld
    cases hheld
  rw [hrun] at hheld
  obtain ⟨hret, hrest⟩ := Prod.mk.inj (Option.some.inj hheld)
  obtain ⟨hlen, hrest⟩ := Prod.mk.inj hrest
  obtain ⟨hnew, hlatest⟩ := Prod.mk.inj hrest
  obtain ⟨s, hs, hlatest⟩ := Option.map_eq_some_iff.mp hlatest
  refine ⟨s, ?_, hlatest, cards_match plainCrypto configRoot 0 aliceWorld w'
    (Agent.start alice true) a' cardRequests retval s rfl rfl hsteps hrun hs hnew⟩
  exact congrArg some (Prod.ext hret (Prod.ext hlen hs))

/-- `SET_INT` of the code length does not compute the cards again. -/
theorem codeLength_breaks_cards :
    ¬ ∀ (crypto : Crypto) (cfg : Cfg) (me : Pid) (w w' : World) (a a' : Agent)
      (reqs : List Request) (retval : ℕ) (s : State), a.s = none → a.newState = false →
      Along crypto cfg me (RepliesOk crypto cfg me) a w reqs →
      (mainLoop crypto cfg a reqs).run (Sys.exec me) w = (some (retval, a'), w') →
      a'.s = some s → a'.newState = false → s.Derived := by
  intro h
  have hsteps : Along plainCrypto configRoot 0 (RepliesOk plainCrypto configRoot 0)
      (Agent.start alice false) aliceWorld [.plain .stateLoad, .setInt 3 5] := by decide +kernel
  have hheld : ((mainLoop plainCrypto configRoot (Agent.start alice false)
      [.plain .stateLoad, .setInt 3 5]).run (Sys.exec 0) aliceWorld).1.bind (fun r =>
        r.2.s.map fun s => (r.2.newState, decide s.Derived)) = some (false, false) := by
    decide +kernel
  rcases hrun : (mainLoop plainCrypto configRoot (Agent.start alice false)
    [.plain .stateLoad, .setInt 3 5]).run (Sys.exec 0) aliceWorld with ⟨_ | ⟨retval, a'⟩, w'⟩
  · rw [hrun] at hheld
    cases hheld
  rw [hrun, Option.bind_some] at hheld
  rcases hs : a'.s with _ | s
  · rw [hs] at hheld
    cases hheld
  rw [hs, Option.map_some] at hheld
  obtain ⟨hnew, hderived⟩ := Prod.mk.inj (Option.some.inj hheld)
  have hmatch := h plainCrypto configRoot 0 aliceWorld w' (Agent.start alice false) a'
    [.plain .stateLoad, .setInt 3 5] retval s rfl rfl hsteps hrun hs hnew
  exact of_decide_eq_false hderived hmatch

end Otpasswd
