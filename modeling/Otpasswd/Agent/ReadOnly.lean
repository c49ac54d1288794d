import Otpasswd.Agent.Serve
import Otpasswd.Libotp.OneTime
import Otpasswd.Libotp.Cards

/-!
# Otpasswd.Agent.ReadOnly — requests that only read

What the getters leave of the state the agent holds. All but `GET_PROMPT`
change nothing but the prompt; `GET_PROMPT` ends with the counter cleared and
the card data of the first passcode.

Main result: `readOnly_keeps_iff`.
-/

namespace Otpasswd

open CText Prog

/-- The requests that are meant to read only. -/
def Request.ReadOnly (req : Request) : Prop :=
  req.type ∈ [.flagGet, .getNum, .getInt, .getStr, .getPasscode, .getPrompt, .getWarnings,
    .getAlphabet]

/-- What `GET_PROMPT` makes of a state, the prompt aside. -/
def State.rewound (s : State) : State := calculate (s.setCounter (numI 0))

section

variable {crypto : Crypto} {cfg : Cfg} {me : Pid} {a a' : Agent} {s s' : State} {req : Request}
  {w w' : World}

/-! ## One request -/

theorem pppGetStr_yields (field : PppField) :
    (pppGetStr s field).Yields fun r => ∃ prompt, r.2 = s.setPrompt prompt := by
  have hself : s = s.setPrompt s.prompt := by
    obtain ⟨⟩ := s
    rfl
  cases field with
  | prompt =>
    have hprompt : (pppGetPrompt s true numZero).Yields
        fun r => ∃ prompt, r.2 = s.setPrompt prompt := by
      simp only [pppGetPrompt, if_true]
      exact (sat_assert_bind _).mpr ⟨fun _ => ⟨trivial, fun _ _ => ⟨_, rfl⟩⟩, fun _ => trivial⟩
    refine hprompt.bind ?_
    rintro ⟨prompt, s'⟩ hr
    exact hr
  | username | contact | label | key => exact ⟨_, hself⟩
  | _ => trivial

/-- Computing the cards a second time, with the counter cleared. -/
theorem calculate_rewound (t : State) (prompt : Option (List Char)) (n : Num) :
    calculate (((calculate t).setPrompt prompt |>.setCounter n).setCounter (numI 0)) =
      t.rewound.setPrompt prompt := by
  have hstate (c : Cards) : (((t.setCards c).setPrompt prompt).setCounter n).setCounter (numI 0) =
      ((t.setCounter (numI 0)).setPrompt prompt).setCards c := rfl
  rw [calculate_eq t, hstate, calculate_setCards, calculate_setPrompt]
  rfl

theorem rewound_setPrompt (prompt : Option (List Char)) :
    (s.setPrompt prompt).rewound = s.rewound.setPrompt prompt :=
  calculate_setPrompt (s.setCounter (numI 0)) prompt

theorem counter_setPrompt (prompt : Option (List Char)) : (s.setPrompt prompt).counter = s.counter :=
  rfl

theorem cards_setPrompt (prompt : Option (List Char)) : (s.setPrompt prompt).cards = s.cards := rfl

theorem setPrompt_setPrompt (prompt prompt' : Option (List Char)) :
    (s.setPrompt prompt).setPrompt prompt' = s.setPrompt prompt' := rfl

theorem rewound_of_counter (h : s.counter = numI 0) : s.rewound = calculate s := by
  have hself : s.setCounter (numI 0) = s := by
    rw [← h]
    obtain ⟨⟩ := s
    rfl
  rw [State.rewound, hself]

theorem rewound_counter (s : State) : s.rewound.counter = numI 0 := by
  rw [State.rewound, calculate_eq]
  rfl

theorem rewound_rewound (s : State) : s.rewound.rewound = s.rewound := by
  have hstate (c : Cards) : ((s.setCounter (numI 0)).setCards c).setCounter (numI 0) =
      (s.setCounter (numI 0)).setCards c := rfl
  rw [State.rewound, State.rewound, calculate_eq (s.setCounter (numI 0)), hstate,
    calculate_setCards]
  exact calculate_eq _

/-- The counter that `ppp_get_prompt` restores is cleared before the cards are
computed again. -/
theorem pppGetPrompt_yields (counter : Num) :
    (pppGetPrompt s false counter).Yields fun r => ∃ prompt, r.2 = s.rewound.setPrompt prompt := by
  have hcalc (t : State) : (pppCalculate t).Yields (· = calculate t) :=
    (sat_assert_bind _).mpr ⟨fun _ => (sat_assert_bind _).mpr ⟨fun _ => rfl, fun _ => trivial⟩,
      fun _ => trivial⟩
  simp only [pppGetPrompt, Bool.false_eq_true, if_false]
  refine (hcalc _).bind ?_
  rintro _ rfl
  refine ⟨trivial, fun ok _ => (hcalc _).bind ?_⟩
  rintro _ rfl
  exact ⟨_, calculate_rewound _ _ _⟩

/-- What one request that only reads leaves of the state held. -/
def ReadEnds (s : State) (req : Request) (s' : State) : Prop :=
  if req.type = .getPrompt then ∃ prompt, s' = s.rewound.setPrompt prompt
  else ∃ prompt, s' = s.setPrompt prompt

/-- What the agent holds after such a request. -/
def Reads (s : State) (req : Request) (r : ℕ × Agent) : Prop :=
  r.1 = 0 ∧ ∃ s', r.2.s = some s' ∧ ReadEnds s req s'

theorem agentHdrSetStr_yields (a : Agent) (v : FieldStr) :
    (agentHdrSetStr a v).Yields fun a' => a'.s = a.s := by
  cases v with
  | text s => exact (sat_assert_bind _).mpr ⟨fun _ => rfl, fun _ => trivial⟩
  | null => exact rfl
  | key k => exact rfl

theorem sendReply_s (a : Agent) (status : ℕ) : (a.sendReply status).s = a.s := by
  simp only [Agent.sendReply]
  split_ifs <;> rfl

/-- A getter on the state held, which ends with `V` of it. -/
theorem withState_reads {f : State → SysM (ℕ × Agent)} (hs : a.s = some s)
    (hf : (f s).Yields fun r => ∃ s', r.2.s = some s' ∧ ReadEnds s req s') :
    (withState a f).Yields (Reads s req) := by
  simp only [withState, hs]
  refine hf.bind ?_
  rintro ⟨ret, a'⟩ ⟨s', hs', hend⟩
  exact ⟨rfl, s', (sendReply_s a' ret).trans hs', hend⟩

theorem readEnds_self (h : req.type ≠ .getPrompt) : ReadEnds s req s := by
  rw [ReadEnds, if_neg h]
  refine ⟨s.prompt, ?_⟩
  obtain ⟨⟩ := s
  rfl

theorem requestExecute_reads (hro : req.ReadOnly) (hs : a.s = some s) :
    (requestExecute crypto cfg a req).Yields (Reads s req) := by
  have hsame (h : req.type ≠ .getPrompt) {a' : Agent} (ha' : a'.s = a.s) :
      ∃ s', a'.s = some s' ∧ ReadEnds s req s' := ⟨s, ha'.trans hs, readEnds_self h⟩
  unfold Request.ReadOnly at hro
  unfold requestExecute
  cases hreq : req.type <;> simp only [hreq, List.mem_cons, List.not_mem_nil, reduceCtorEq,
    or_false, or_true, or_self] at hro
  all_goals have htype := hreq
  case getPrompt =>
    -- the one getter that does not leave the state as it is
    refine withState_reads hs ((pppGetPrompt_yields req.num).bind ?_)
    rintro ⟨prompt, s'⟩ hs'
    have hend : ReadEnds s req s' := by
      rw [ReadEnds, if_pos htype]
      exact hs'
    rcases prompt with _ | v
    · exact ⟨s', rfl, hend⟩
    · exact (agentHdrSetStr_yields _ _).bind fun a' ha' => ⟨s', ha', hend⟩
  all_goals have hne : req.type ≠ .getPrompt := by simp [htype]
  case flagGet => exact withState_reads hs (hsame hne rfl)
  case getNum =>
    have hnum (field : PppField) : (pppGetNum s field).Yields fun _ => True := by
      cases field <;> trivial
    exact withState_reads hs ((hnum _).bind fun _ _ => hsame hne rfl)
  case getInt =>
    have hint (field : PppField) : (pppGetInt s field).Yields fun _ => True := by
      cases field <;> first | trivial | exact (sat_assert_bind _).mpr ⟨fun _ => trivial, fun _ => trivial⟩
    exact withState_reads hs ((hint _).bind fun _ _ => hsame hne rfl)
  case getStr =>
    refine Sat.bind (V := Reads s req) ?_ ?_
    · refine withState_reads hs ((pppGetStr_yields _).bind ?_)
      rintro ⟨str, s'⟩ hs'
      refine (agentHdrSetStr_yields _ _).bind fun a' ha' => ⟨s', ha', ?_⟩
      rw [ReadEnds, if_neg hne]
      exact hs'
    · rintro ⟨ret, a'⟩ ⟨hret, s', hs', hend⟩
      refine ⟨hret, s', ?_, hend⟩
      simp only
      split_ifs
      · exact hs'
      · exact hs'
  case getPasscode =>
    have hpass : (pppGetPasscode crypto cfg s req.num).Yields fun _ => True := by
      refine (sat_assert_bind _).mpr ⟨fun _ => ?_, fun _ => trivial⟩
      split_ifs <;> trivial
    refine withState_reads hs (hpass.bind fun r _ => ?_)
    exact (agentHdrSetStr_yields _ _).bind fun a' ha' => hsame hne ha'
  case getWarnings =>
    refine withState_reads hs ((sat_assert_bind _).mpr ⟨fun _ => ?_, fun _ => trivial⟩)
    exact hsame hne rfl
  case getAlphabet =>
    refine Sat.bind (V := fun r : ℕ × Agent => r.2.s = a.s) ?_ ?_
    · exact (agentHdrSetStr_yields _ _).bind fun a' ha' => ha'
    · rintro ⟨ret, a'⟩ ha'
      obtain ⟨s', hs', hend⟩ := hsame hne ha'
      exact ⟨rfl, s', (sendReply_s a' ret).trans hs', hend⟩

/-- A request that only reads is answered, and the loop goes on. -/
theorem requestHandle_reads (hro : req.ReadOnly) (hs : a.s = some s) (hl : a.locked = false) :
    (requestHandle crypto cfg a req).Yields (Reads s req) := by
  have hrefused (h : req.type ≠ .getPrompt) : Reads s req (0, a.sendReply agentErrPolicy) :=
    ⟨rfl, s, (sendReply_s a _).trans hs, readEnds_self h⟩
  have hexec := @requestExecute_reads crypto cfg a s req hro hs
  have hpass (h : requestVerifyPolicy cfg a req = .ret (agentOk, a)) :
      (requestHandle crypto cfg a req).Yields (Reads s req) := by
    rw [requestHandle, if_neg (by simp [hl]), h]
    exact hexec
  have hpolicy (refused : Prop) [Decidable refused] (hne : req.type ≠ .getPrompt)
      (h : requestVerifyPolicy cfg a req = .ret (unlessPrivileged a refused, a)) :
      (requestHandle crypto cfg a req).Yields (Reads s req) := by
    by_cases hr : a.privileged = false ∧ refused
    · rw [requestHandle, if_neg (by simp [hl]), h, unlessPrivileged, if_pos hr]
      exact hrefused hne
    · refine hpass ?_
      rw [h, unlessPrivileged, if_neg hr]
  unfold requestVerifyPolicy at hpass hpolicy
  unfold Request.ReadOnly at hro
  cases hreq : req.type <;> simp only [hreq, List.mem_cons, List.not_mem_nil, reduceCtorEq,
    or_false, or_true, or_self] at hro hpass hpolicy
  case getStr => exact hpolicy _ (by simp) rfl
  case getPasscode => exact hpolicy _ (by simp) rfl
  all_goals exact hpass rfl

/-! ## Runs -/

theorem locked_of_lock (hs : a.s = some s) (hs' : a'.s = some s') (h : s'.lock = s.lock) :
    a'.locked = a.locked := by
  simp only [Agent.locked, hs, hs', Option.any_some, h]

/-- What a run of such requests leaves of the state: the first `GET_PROMPT`
rewinds it, the others change the prompt only. -/
theorem mainLoop_reads {reqs : List Request} (hro : ∀ req ∈ reqs, req.ReadOnly)
    (hs : a.s = some s) (hl : a.locked = false) :
    (mainLoop crypto cfg a reqs).Yields fun r => ∃ prompt, r.2.s = some (State.setPrompt
      (if ∀ req ∈ reqs, req.type ≠ .getPrompt then s else s.rewound) prompt) := by
  induction reqs generalizing a s with
  | nil =>
    refine ⟨s.prompt, hs.trans ?_⟩
    rw [if_pos (by simp)]
    obtain ⟨⟩ := s
    rfl
  | cons req reqs ih =>
    have hreq := hro req List.mem_cons_self
    have hreqs : ∀ req ∈ reqs, req.ReadOnly := fun r hr => hro r (List.mem_cons_of_mem _ hr)
    refine (requestHandle_reads hreq hs hl).bind ?_
    rintro ⟨ret, a1⟩ ⟨hret, s1, hs1, hend⟩
    simp only at hret
    simp only
    rw [if_neg (not_not.mpr hret)]
    by_cases hprompt : req.type = .getPrompt
    · rw [ReadEnds, if_pos hprompt] at hend
      obtain ⟨prompt, rfl⟩ := hend
      have hl1 : a1.locked = false := (locked_of_lock hs hs1 rfl).trans hl
      refine (ih hreqs hs1 hl1).mono (fun _ h => h) (fun _ h => h) ?_
      rintro r ⟨prompt', hr⟩
      refine ⟨prompt', hr.trans ?_⟩
      have hneg : ¬ ∀ r ∈ req :: reqs, r.type ≠ .getPrompt := fun h => h req List.mem_cons_self hprompt
      rw [if_neg hneg, rewound_setPrompt, rewound_rewound, ite_self, setPrompt_setPrompt]
    · rw [ReadEnds, if_neg hprompt] at hend
      obtain ⟨prompt, rfl⟩ := hend
      have hl1 : a1.locked = false := (locked_of_lock hs hs1 rfl).trans hl
      refine (ih hreqs hs1 hl1).mono (fun _ h => h) (fun _ h => h) ?_
      rintro r ⟨prompt', hr⟩
      refine ⟨prompt', hr.trans ?_⟩
      simp only [List.forall_mem_cons, hprompt, ne_eq, not_false_eq_true, true_and]
      split_ifs
      · rw [setPrompt_setPrompt]
      · rw [rewound_setPrompt, setPrompt_setPrompt]

end

/-- The fields of the state held are those of `s`, the prompt aside, and so
are the passcodes it prints. -/
def Unread (crypto : Crypto) (cfg : Cfg) (s : State) (a' : Agent) : Prop :=
  ∃ s', a'.s = some s' ∧ (∃ prompt, s' = s.setPrompt prompt) ∧
    ∀ n, pppGetPasscode crypto cfg s' n = pppGetPasscode crypto cfg s n

/-- Requests that only read leave the state held as it was, the prompt aside,
exactly if none of them is a `GET_PROMPT` that is read, or the state is one
that `GET_PROMPT` leaves. -/
theorem readOnly_keeps_iff (crypto : Crypto) (cfg : Cfg) (me : Pid) (w w' : World) (a a' : Agent)
    (s : State) (reqs : List Request) (ret : ℕ) (hs : a.s = some s)
    (hro : ∀ req ∈ reqs, req.ReadOnly)
    (hrun : (mainLoop crypto cfg a reqs).run (Sys.exec me) w = (some (ret, a'), w')) :
    Unread crypto cfg s a' ↔
      a.locked = true ∨ (∀ req ∈ reqs, req.type ≠ .getPrompt) ∨
        s.counter = numI 0 ∧ s.Derived := by
  have hkept (prompt : Option (List Char)) (h : a'.s = some (s.setPrompt prompt)) :
      Unread crypto cfg s a' := ⟨_, h, ⟨prompt, rfl⟩, fun _ => rfl⟩
  have hself : s = s.setPrompt s.prompt := by
    obtain ⟨⟩ := s
    rfl
  cases hl : a.locked with
  | true =>
    -- the loop ends at the first request, with the state as it was
    refine ⟨fun _ => .inl rfl, fun _ => hkept s.prompt ?_⟩
    rw [← hself]
    cases reqs with
    | nil =>
      simp only [mainLoop, pure_eq_ret, run, Prod.mk.injEq, Option.some.injEq] at hrun
      rw [← hrun.1.2, hs]
    | cons req reqs =>
      rw [mainLoop, requestHandle, if_pos hl] at hrun
      simp only [pure_eq_ret, ret_bind, ne_eq, one_ne_zero, not_false_eq_true, if_true, run,
        Prod.mk.injEq, Option.some.injEq] at hrun
      rw [← hrun.1.2, hs]
  | false =>
    -- every request is read: what is held is the state, or the state set back
    obtain ⟨prompt, hs'⟩ := (mainLoop_reads hro hs hl).run hrun
    simp only at hs'
    by_cases hnone : ∀ req ∈ reqs, req.type ≠ .getPrompt
    · rw [if_pos hnone] at hs'
      exact ⟨fun _ => .inr (.inl hnone), fun _ => hkept prompt hs'⟩
    · rw [if_neg hnone] at hs'
      constructor
      · -- set back and yet the same: the counter was zero, and the cards were those of zero
        rintro ⟨s', h, ⟨prompt', rfl⟩, -⟩
        have heq : s.rewound.setPrompt prompt = s.setPrompt prompt' :=
          Option.some.inj (hs'.symm.trans h)
        have hcounter : (s.rewound.setPrompt prompt).counter = (s.setPrompt prompt').counter := by
          rw [heq]
        have hcards : (s.rewound.setPrompt prompt).cards = (s.setPrompt prompt').cards := by
          rw [heq]
        rw [counter_setPrompt, counter_setPrompt] at hcounter
        rw [cards_setPrompt, cards_setPrompt] at hcards
        rw [rewound_counter] at hcounter
        rw [rewound_of_counter hcounter.symm] at hcards
        exact .inr (.inr ⟨hcounter.symm, derived_iff.mpr hcards.symm⟩)
      · rintro (h | h | ⟨hcounter, hderived⟩)
        · cases h
        · exact absurd h hnone
        · rw [rewound_of_counter hcounter, hderived] at hs'
          exact hkept prompt hs'

/-! ### A state to try things with -/

/-- A state with a salted key, of which five passcodes were used. -/
def aliceUsed : State := calculate (aliceState.setCounter (numII 1 5))

def aliceReader : Agent := (Agent.start alice false).setS (some aliceUsed)

/-- A client that reads the flags, passcodes, the prompt and numbers. -/
def readerRequests : List Request :=
  [.plain .flagGet, .plain .getPasscode, { Request.plain .getInt with int := 6 },
    { Request.plain .getStr with int := 19 }, { Request.plain .getNum with int := 13 },
    .plain .getWarnings, { Request.plain .getPasscode with num := numI 5 }]

theorem readOnly_keeps_iff_alice : ∃ a' w',
    (mainLoop plainCrypto configRoot aliceReader readerRequests).run (Sys.exec 0) aliceWorld =
        (some (0, a'), w') ∧
      a'.sent.length = readerRequests.length ∧ Unread plainCrypto configRoot aliceUsed a' := by
  have hsent : ((mainLoop plainCrypto configRoot aliceReader readerRequests).run (Sys.exec 0)
      aliceWorld).1.map (fun r => (r.1, r.2.sent.length)) = some (0, readerRequests.length) := by
    decide +kernel
  rcases hrun : (mainLoop plainCrypto configRoot aliceReader readerRequests).run (Sys.exec 0)
    aliceWorld with ⟨_ | ⟨ret, a'⟩, w'⟩
  · rw [hrun] at hsent
    cases hsent
  rw [hrun] at hsent
  obtain ⟨hret, hlen⟩ := Prod.mk.inj (Option.some.inj hsent)
  obtain rfl : ret = 0 := hret
  have hro : ∀ req ∈ readerRequests, req.ReadOnly := by
    simp [readerRequests, Request.ReadOnly, Request.plain]
  have hkeeps := (readOnly_keeps_iff plainCrypto configRoot 0 aliceWorld w' aliceReader a'
    aliceUsed readerRequests 0 rfl hro hrun).mpr
      (.inr (.inl (by simp [readerRequests, Request.plain])))
  exact ⟨a', w', rfl, hlen, hkeeps⟩

/-- `GET_PROMPT` clears the counter, and with it the salt. -/
theorem getPrompt_rewinds :
    ¬ ∀ (crypto : Crypto) (cfg : Cfg) (me : Pid) (w w' : World) (a a' : Agent) (s : State)
      (reqs : List Request) (ret : ℕ), a.s = some s → (∀ req ∈ reqs, req.ReadOnly) →
      (mainLoop crypto cfg a reqs).run (Sys.exec me) w = (some (ret, a'), w') →
      Unread crypto cfg s a' := by
  intro h
  have hcounter : ((mainLoop plainCrypto configRoot aliceReader [.plain .getPrompt]).run
      (Sys.exec 0) aliceWorld).1.bind (fun r => r.2.s.map State.counter) = some (numI 0) := by
    decide +kernel
  rcases hrun : (mainLoop plainCrypto configRoot aliceReader [.plain .getPrompt]).run
    (Sys.exec 0) aliceWorld with ⟨_ | ⟨ret, a'⟩, w'⟩
  · rw [hrun] at hcounter
    cases hcounter
  rw [hrun] at hcounter
  obtain ⟨s', hs', ⟨prompt, rfl⟩, -⟩ := h plainCrypto configRoot 0 aliceWorld w' aliceReader a'
    aliceUsed [.plain .getPrompt] ret rfl (by simp [Request.ReadOnly, Request.plain]) hrun
  rw [Option.bind_some, hs', Option.map_some, counter_setPrompt] at hcounter
  exact absurd hcounter (by decide +kernel)

end Otpasswd
