import Otpasswd.Agent.Effect

/-!
# Otpasswd.Agent.Requests — the effect of each request

`request_execute`, request by request: the ones that only read, the ones on the
counter, and the ones that load, change, store or remove the state.

Main results: `readOnly_effect`, `skip_effect`, `authenticate_effect`,
`setSpass_effect` and `stateStore_effect`.
-/

namespace Otpasswd

open CText Prog

/-! ### Requests that only read -/

section

variable {crypto : Crypto} {cfg : Cfg} {me : Pid} {a : Agent} {s : State} {req : Request}
  {w : World}

/-- Whose the agent is, and whether its state is being created. -/
structure Agent.Frame (a a' : Agent) : Prop where
  newState : a'.newState = a.newState
  username : a'.username = a.username
  privileged : a'.privileged = a.privileged
  named : a'.named = a.named

theorem Agent.Frame.refl (a : Agent) : a.Frame a := ⟨rfl, rfl, rfl, rfl⟩

theorem Agent.Frame.reply {a' : Agent} (h : a.Frame a') (status : ℕ) :
    a.Frame (a'.sendReply status) := by
  unfold Agent.sendReply
  simp only
  split_ifs
  · exact ⟨h.newState, h.username, h.privileged, h.named⟩
  · exact ⟨h.newState, h.username, h.privileged, h.named⟩

/-- A program that neither writes nor locks, with its values. -/
abbrev Looks {α : Type} (V : α → Prop) (p : SysM α) : Prop :=
  p.Sat (fun _ _ => True) Sys.Calm (fun _ => True) V

theorem pppGetNum_looks (field : PppField) : Looks (fun _ => True) (pppGetNum s field) := by
  cases field <;> trivial

theorem pppGetInt_looks (field : PppField) : Looks (fun _ => True) (pppGetInt s field) := by
  cases field
  case codesOnCard => exact (sat_assert_bind _).mpr ⟨fun _ => trivial, fun _ => trivial⟩
  case codesInRow => exact (sat_assert_bind _).mpr ⟨fun _ => trivial, fun _ => trivial⟩
  all_goals trivial

theorem pppGetPrompt_looks (useCurrent : Bool) (counter : Num) :
    Looks (fun _ => True) (pppGetPrompt s useCurrent counter) := by
  have hcalc (t : State) : Looks (fun _ => True) (pppCalculate t) :=
    (sat_assert_bind _).mpr ⟨fun _ => (sat_assert_bind _).mpr ⟨fun _ => trivial, fun _ => trivial⟩,
      fun _ => trivial⟩
  unfold pppGetPrompt
  cases useCurrent with
  | true =>
    exact (sat_assert_bind _).mpr ⟨fun _ => ⟨⟨trivial, id⟩, fun _ _ => trivial⟩, fun _ => trivial⟩
  | false =>
    simp only [Bool.false_eq_true, if_false]
    exact (hcalc _).bind fun t _ => ⟨⟨trivial, id⟩, fun _ _ => (hcalc _).bind fun _ _ => trivial⟩

theorem pppGetStr_looks (field : PppField) : Looks (fun _ => True) (pppGetStr s field) := by
  cases field
  case prompt => exact (pppGetPrompt_looks true numZero).bind fun _ _ => trivial
  all_goals trivial

theorem pppGetPasscode_looks (num : Num) :
    Looks (fun _ => True) (pppGetPasscode crypto cfg s num) := by
  refine (sat_assert_bind _).mpr ⟨fun _ => ?_, fun _ => trivial⟩
  split_ifs
  · trivial
  · trivial

theorem agentHdrSetStr_looks {a' : Agent} (h : a.Frame a') (v : FieldStr) (retval : ℕ) :
    Looks (fun r => a.Frame r.2) (do
      let a' ← agentHdrSetStr a' v
      return (retval, a')) := by
  have hset (v : FieldStr) : a.Frame (a'.hdrSetStr v) := ⟨h.newState, h.username, h.privileged, h.named⟩
  cases v with
  | text s =>
    rw [agentHdrSetStr, LawfulMonad.bind_assoc]
    exact (sat_assert_bind _).mpr ⟨fun _ => hset _, fun _ => trivial⟩
  | null => exact hset _
  | key k => exact hset _

theorem withState_looks {f : State → SysM (ℕ × Agent)}
    (hf : ∀ s, Looks (fun r => a.Frame r.2) (f s)) :
    Looks (fun r => a.Frame r.2) (withState a f) := by
  unfold withState
  rcases a.s with _ | s
  · exact (Agent.Frame.refl a).reply _
  · exact (hf s).bind fun r hr => Agent.Frame.reply hr _

theorem requestExecute_looks (hro : req.ReadOnly) :
    Looks (fun r => a.Frame r.2) (requestExecute crypto cfg a req) := by
  have hhdr (status : ℕ) : a.Frame (a.hdrInit status) := ⟨rfl, rfl, rfl, rfl⟩
  unfold Request.ReadOnly at hro
  unfold requestExecute
  cases hreq : req.type <;> simp only [hreq, List.mem_cons, List.not_mem_nil, reduceCtorEq,
    or_false, or_true, or_self] at hro
  case flagGet => exact withState_looks fun s => (pppGetInt_looks _).bind fun _ _ => ⟨rfl, rfl, rfl, rfl⟩
  case getNum => exact withState_looks fun s => (pppGetNum_looks _).bind fun _ _ => ⟨rfl, rfl, rfl, rfl⟩
  case getInt => exact withState_looks fun s => (pppGetInt_looks _).bind fun _ _ => ⟨rfl, rfl, rfl, rfl⟩
  case getStr =>
    refine Sat.bind (V := fun r : ℕ × Agent => a.Frame r.2) ?_ ?_
    · refine withState_looks fun s => (pppGetStr_looks _).bind ?_
      rintro ⟨str, s'⟩ -
      have hframe : a.Frame ((a.setS (some s')).hdrInit 0) := ⟨rfl, rfl, rfl, rfl⟩
      exact agentHdrSetStr_looks hframe _ _
    · rintro ⟨retval, a'⟩ h
      simp only
      split_ifs
      · exact ⟨h.newState, h.username, h.privileged, h.named⟩
      · exact h
  case getAlphabet =>
    refine Sat.bind (V := fun r : ℕ × Agent => a.Frame r.2) ?_ fun r h => Agent.Frame.reply h _
    exact agentHdrSetStr_looks (hhdr 0) _ _
  case getWarnings =>
    refine withState_looks fun s => (sat_assert_bind _).mpr ⟨fun _ => ?_, fun _ => trivial⟩
    exact ⟨rfl, rfl, rfl, rfl⟩
  case getPasscode =>
    refine withState_looks fun s => (pppGetPasscode_looks _).bind ?_
    rintro ⟨retval, passcode⟩ -
    exact agentHdrSetStr_looks (hhdr 0) _ _
  case getPrompt =>
    refine withState_looks fun s => (pppGetPrompt_looks _ _).bind ?_
    rintro ⟨prompt, s'⟩ -
    have hframe : a.Frame ((a.setS (some s')).hdrInit 0) := ⟨rfl, rfl, rfl, rfl⟩
    rcases prompt with _ | v
    · exact agentHdrSetStr_looks hframe _ _
    · exact agentHdrSetStr_looks hframe _ _

/-- Without a state a getter only fails; the alphabets need none. -/
theorem requestExecute_noState (hro : req.ReadOnly) (hs : a.s = none) :
    (requestExecute crypto cfg a req).Yields fun r => r.2.s = none := by
  have hstate (f : State → SysM (ℕ × Agent)) :
      (withState a f).Yields fun r => r.2.s = none := by
    simp only [withState, hs]
    exact (sendReply_s a _).trans hs
  unfold Request.ReadOnly at hro
  unfold requestExecute
  cases hreq : req.type <;> simp only [hreq, List.mem_cons, List.not_mem_nil, reduceCtorEq,
    or_false, or_true, or_self] at hro
  case getStr =>
    refine (hstate _).bind ?_
    rintro ⟨retval, a'⟩ h
    simp only
    split_ifs
    · exact h
    · exact h
  case getAlphabet =>
    refine Sat.bind (V := fun r : ℕ × Agent => r.2.s = none) ?_
      fun r h => (sendReply_s r.2 _).trans h
    exact (agentHdrSetStr_yields (a.hdrInit 0) _).bind fun a' h => h.trans hs
  all_goals exact hstate _

theorem readOnly_effect (hro : req.ReadOnly) :
    wp (Sys.exec me) (requestExecute crypto cfg a req) (Effect crypto cfg me a w req) w := by
  have hlooks : (requestExecute crypto cfg a req).Sat (Sys.Answers (w.uid me) w.AllOk) Sys.Calm (fun _ => True)
      (fun r => a.Frame r.2) := Sat.answers (requestExecute_looks hro) fun _ _ _ => trivial
  refine wp_mono (wp_and (wp_quiet hlooks Sys.Calm.quiet (.refl w)) wp_run) ?_
  rintro r w' ⟨⟨hw, -, hframe⟩, hrun⟩
  refine .read hro hw ?_
  rintro retval a' rfl
  have hf : a.Frame a' := hframe _ rfl
  rcases hs : a.s with _ | s
  · have hnone := (requestExecute_noState hro hs).run hrun
    exact ⟨none, ⟨hnone, hf.newState, hf.username, hf.privileged, hf.named⟩, .inl rfl⟩
  · obtain ⟨-, s', hs', hend⟩ := (requestExecute_reads hro hs).run hrun
    exact ⟨some s', ⟨hs', hf.newState, hf.username, hf.privileged, hf.named⟩,
      .inr ⟨s, s', rfl, rfl, hend⟩⟩

end

/-! ### Requests on the counter -/

section

variable {crypto : Crypto} {cfg : Cfg} {me : Pid} {a : Agent} {s : State} {req : Request}
  {w : World}

/-- A program that issues no call at all. -/
def Pure {α : Type} (p : SysM α) : Prop := p = .abort ∨ ∃ x, p = .ret x

theorem Pure.bind {α β : Type} {p : SysM α} {f : α → SysM β} (hp : Pure p)
    (hf : ∀ x, Pure (f x)) : Pure (p >>= f) := by
  rcases hp with rfl | ⟨x, rfl⟩
  · exact .inl rfl
  · exact hf x

theorem pure_assert (b : Prop) [Decidable b] : Pure (assert b : SysM PUnit) := by
  by_cases hb : b
  · exact .inr ⟨⟨⟩, by rw [assert, if_pos hb]⟩
  · exact .inl (by rw [assert, if_neg hb])

theorem pppAuthenticate_pure (passcode : List Char) :
    Pure (pppAuthenticate crypto cfg s passcode) := by
  have hret {α : Type} (x : α) : Pure (pure x : SysM α) := .inr ⟨x, rfl⟩
  have hverify : Pure (pppStateVerify cfg s) := by
    unfold pppStateVerify
    split_ifs
    · exact hret _
    · exact hret _
    · exact hret _
    · refine ((pure_assert _).bind fun _ => hret _).bind fun v => ?_
      split_ifs
      · exact hret _
      · exact hret _
  have hpass : Pure (pppGetPasscode crypto cfg s s.counter) := by
    refine (pure_assert _).bind fun _ => ?_
    split_ifs
    · exact hret _
    · exact hret _
  unfold pppAuthenticate
  split_ifs
  · exact hret _
  refine hverify.bind fun v => ?_
  split_ifs
  · exact hret _
  refine hpass.bind fun r => ?_
  simp only
  split_ifs
  · exact hret _
  · exact hret _
  · exact hret _

/-- The reply to a request on the counter. -/
theorem CounterEnd.effect {last : State → ℕ} {r : Option (ℕ × State)}
    {q : Option (ℕ × Agent)} {w' : World} (htype : req.type = .authenticate ∨ req.type = .skip)
    (hs : a.s = some s) (hu : s.username = a.username)
    (h : CounterEnd cfg s last (fun e => { e with counter := req.counter e.counter }) req.leaves w r w')
    (hlast : ∀ fd e, e.Valid → last (s.loaded fd e) = 0 → req.type = .skip → req.num.toNat < e.maxCode)
    (hheld : ∀ retval s', r = some (retval, s') → s'.Held a.username)
    (hq : ∀ v a'', q = some (v, a'') → ∃ retval s' status, r = some (retval, s') ∧
      a'' = (a.setS (some s')).sendReply status ∧ (status = 0 → retval = 0)) :
    Effect crypto cfg me a w req q w' := by
  cases h with
  | attempted hw hr =>
    refine .tried htype s hs hw fun v a'' h => ?_
    obtain ⟨retval, s', status, hret, rfl, hstatus⟩ := hq v a'' h
    obtain ⟨hne, htried⟩ := hr _ _ hret
    have hholds : a.Holds (a.setS (some s')) (some s') a.newState := ⟨rfl, rfl, rfl, rfl, rfl⟩
    rw [hu] at htried
    exact ⟨fun hok => hne (hstatus (hok.status rfl)), s', hheld _ _ hret, htried,
      hholds.reply status⟩
  | moved fd e hnew hallowed hrange h hr =>
    have hv := dbLookup_valid h.before
    rw [hu] at h
    refine .counted htype s hs e hnew hallowed (hlast _ e hv hrange) h fun v a'' h => ?_
    obtain ⟨retval, s', status, hret, rfl, -⟩ := hq v a'' h
    obtain ⟨-, lock, rfl⟩ := hr _ _ hret
    have hleaves : (req.leaves (s.loaded lock e)).lock = (s.loaded lock e).lock := by
      unfold Request.leaves
      split_ifs
      · rfl
      · rfl
    have hholds : a.Holds (a.setS (some (req.leaves (s.loaded lock e))))
      (some (req.leaves (s.loaded lock e))) a.newState := ⟨rfl, rfl, rfl, rfl, rfl⟩
    refine ⟨lock, ?_, hholds.reply status⟩
    have hl := (hheld _ _ hret).lock
    rwa [State.LockOk, hleaves] at hl

/-- What `ppp_increment` and `ppp_skip` leave is a state of the same user. -/
theorem counter_held {ok : Prop} {fin : State → State} (hh : s.Held a.username)
    (hlock : s.lock = -1) (hfin : ∀ s : State, s.Beside (fin s)) {r : ℕ × State}
    (h : NotHeld s r ∨ CounterHeld ok s fin r.1 r.2) : r.2.Held a.username := by
  have hafter : a.After ok (a.setS (some r.2)) := h.elim (fun h => h.after hh hlock)
    fun h => h.after hh hfin
  exact hafter.inv.held _ rfl

theorem skipRange_lt {n : Num} {fd : ℤ} {e : Entry} (hs : s.codeMask = codeMask) (hv : e.Valid)
    (h : skipRange n (s.loaded fd e) = 0) : n.toNat < e.maxCode := by
  unfold skipRange at h
  split_ifs at h with hrange
  rwa [numCmp_nonneg_iff, loaded_maxCode s fd e hs hv, Nat.not_le] at hrange

theorem skip_effect (hok : a.Ok) (hl : a.locked = false) (htype : req.type = .skip)
    (hs : a.s = some s) :
    wp (Sys.exec me) (withState a fun s => do
      let (retval, s) ← pppSkip cfg s req.num
      return (retval, a.setS (some s))) (Effect crypto cfg me a w req) w := by
  have hh := hok.held s hs
  have hlock := hok.unlocked hl hs
  have hmoves : wp (Sys.exec me) (pppSkip cfg s req.num) (CounterEnd cfg s (skipRange req.num)
      (fun e => { e with counter := req.counter e.counter }) req.leaves w) w := by
    have hleaves : req.leaves = State.setCounter req.num := by
      funext s
      simp [Request.leaves, htype]
    simp only [Request.counter, htype, if_true, hleaves]
    exact pppSkip_moves hh.saltMask hh.codeMask req.num
  have hlocks : Locks (w.uid me) True (NotHeld s)
      (fun ok r => CounterHeld ok s (skipCounter req.num) r.1 r.2) (pppSkip cfg s req.num) :=
    pppSkip_locks (fun _ => trivial) hlock (fun _ => trivial) req.num
  have hlast (fd : ℤ) (e : Entry) (hv : e.Valid) (h : skipRange req.num (s.loaded fd e) = 0)
      (_ : req.type = .skip) : req.num.toNat < e.maxCode := skipRange_lt hh.codeMask hv h
  simp only [withState, hs, LawfulMonad.bind_assoc]
  refine wp_seq (wp_and hmoves (wp_locks hlocks)) ?_ ?_
  · rintro w' ⟨h, -⟩
    exact h.effect (.inr htype) hs hh.username hlast (by simp) (by simp)
  · rintro ⟨retval, s'⟩ w' ⟨h, hheld⟩
    refine h.effect (.inr htype) hs hh.username hlast (fun _ _ hr => ?_) ?_
    · exact counter_held hh hlock (beside_skipCounter req.num) (hheld _ hr)
    · rintro _ _ ⟨rfl, rfl⟩
      exact ⟨retval, s', retval, rfl, rfl, id⟩

theorem authenticate_effect (hok : a.Ok) (hl : a.locked = false) (htype : req.type = .authenticate)
    (hs : a.s = some s) :
    wp (Sys.exec me) (withState a fun s => do
      let (retval, s) ← pppIncrement cfg s
      let a := a.setS (some s)
      if retval ≠ 0 then return (retval, a)
      else return (← pppAuthenticate crypto cfg s req.str.val, a))
      (Effect crypto cfg me a w req) w := by
  have hh := hok.held s hs
  have hlock := hok.unlocked hl hs
  -- the counter moves as an increment does; comparing passcodes touches nothing
  have hmoves : wp (Sys.exec me) (pppIncrement cfg s) (CounterEnd cfg s (fun _ => 0)
      (fun e => { e with counter := req.counter e.counter }) req.leaves w) w := by
    have hleaves : req.leaves = id := by
      funext s
      simp [Request.leaves, htype]
    simp only [Request.counter, htype, reduceCtorEq, if_false, hleaves]
    exact pppIncrement_moves hh.codeMask
  have hlocks : Locks (w.uid me) True (NotHeld s) (fun ok r => CounterHeld ok s id r.1 r.2)
      (pppIncrement cfg s) := pppIncrement_locks (fun _ => trivial) hlock fun _ => trivial
  have hlast (fd : ℤ) (e : Entry) (_ : e.Valid) (_ : (fun _ => 0 : State → ℕ) (s.loaded fd e) = 0)
      (h : req.type = .skip) : req.num.toNat < e.maxCode := by simp [htype] at h
  simp only [withState, hs, LawfulMonad.bind_assoc]
  refine wp_seq (wp_and hmoves (wp_locks hlocks)) ?_ ?_
  · rintro w' ⟨h, -⟩
    exact h.effect (.inl htype) hs hh.username hlast (by simp) (by simp)
  · rintro ⟨retval, s'⟩ w' ⟨h, hheld⟩
    -- whatever is replied, a status of success means the increment succeeded
    have heffect {q : Option (ℕ × Agent)} (hq : ∀ v a'', q = some (v, a'') → ∃ status,
        a'' = (a.setS (some s')).sendReply status ∧ (status = 0 → retval = 0)) :
        Effect crypto cfg me a w req q w' := by
      refine h.effect (.inl htype) hs hh.username hlast (fun _ _ hr => ?_) fun v a'' hv => ?_
      · exact counter_held hh hlock (fun s => .refl s) (hheld _ hr)
      · obtain ⟨status, ha, hstatus⟩ := hq v a'' hv
        exact ⟨retval, s', status, rfl, ha, hstatus⟩
    by_cases hret : retval ≠ 0
    · simp only
      rw [if_pos hret]
      refine heffect ?_
      rintro _ _ ⟨rfl, rfl⟩
      exact ⟨retval, rfl, id⟩
    · simp only
      rw [if_neg hret]
      rcases @pppAuthenticate_pure crypto cfg s' req.str.val with hp | ⟨status, hp⟩
      · rw [hp]
        exact (wp_stop _).mpr (heffect (by simp))
      · rw [hp]
        refine heffect ?_
        rintro _ _ ⟨rfl, rfl⟩
        exact ⟨status, rfl, fun _ => not_not.mp hret⟩

end

/-! ### The remaining requests -/

section

variable {crypto : Crypto} {cfg : Cfg} {me : Pid} {a : Agent} {s : State} {req : Request}
  {w : World}

theorem setSpass_effect (hok : a.Ok) (hl : a.locked = false) (htype : req.type = .setSpass)
    (spass : Option CString) :
    wp (Sys.exec me) (replyWith (setSpass crypto cfg a spass)) (Effect crypto cfg me a w req) w := by
  -- the reply is an error, whatever becomes of the state
  have hspec : wp (Sys.exec me) (setSpass crypto cfg a spass) (fun q w' => ∃ r,
      SetterEnd cfg a (req.Sets cfg a.privileged) w r w' ∧
        ∀ v a', q = some (v, a') → v ≠ 0 ∧ ∃ retval, r = some (retval, a')) w := by
    have hstopped {w1 : World} (hw1 : w1.Keeps w) : ∃ r,
        SetterEnd cfg a (req.Sets cfg a.privileged) w r w1 ∧ ∀ v a',
          (none : Option (ℕ × Agent)) = some (v, a') → v ≠ 0 ∧ ∃ retval, r = some (retval, a') :=
      ⟨none, .failed hw1 (by simp), by simp⟩
    have hsets {s s' : State} {hash : Bytes 40} {set : Bool} {time : Word64}
        (h : s' = s.setSpass hash set time) :
        req.Sets cfg a.privileged s 0 s' ∧ s.Beside s' := by
      subst h
      refine ⟨?_, ⟨rfl, rfl, rfl, rfl, rfl⟩, rfl, rfl⟩
      simp only [Request.Sets, htype, true_and]
      exact ⟨_, _, _, rfl⟩
    have heq : setSpass crypto cfg a spass = atomical cfg a fun a s =>
        pppSetSpass crypto cfg s spass (!a.privileged) >>= fun r =>
          agentStateFiniAtomical cfg (a.setS (some r.2)) 0 >>= fun q =>
            .ret (if q.1 = 0 then r.1 else q.1, q.2) := rfl
    rw [heq]
    refine wp_atomical hok hl (fun _ => hstopped) ?_ ?_ ?_
    · intro s hnew hs
      refine wp_quiet_seq (pppSetSpass_sat spass _) Sys.Calm.quiet (.refl w)
        (fun _ hw1 _ => hstopped hw1) ?_
      rintro ⟨ret2, s'⟩ w1 ⟨hret2, hash, set, time, hs'⟩ hw1
      simp only at hret2 hs'
      simp only
      rw [agentStateFiniAtomical, if_pos (by exact hnew), assert, if_pos (by rfl), ret_bind]
      refine ⟨_, .created s s' 0 hnew hs (hsets hs').1 (hsets hs').2 hw1 rfl, ?_⟩
      rintro _ _ ⟨rfl, rfl⟩
      exact ⟨hret2, 0, rfl⟩
    · intro hnew retval w1 hret hw1
      refine ⟨some (retval, a.setS none), .failed hw1 ?_, ?_⟩
      · rintro _ _ ⟨rfl, rfl⟩
        exact ⟨hnew, hret, rfl⟩
      · rintro _ _ ⟨rfl, rfl⟩
        exact ⟨hret, retval, rfl⟩
    · intro hnew s lock e w1 hfresh hlook hlock hw1
      refine wp_quiet_seq (pppSetSpass_sat spass _) Sys.Calm.quiet hw1
        (fun _ hw2 _ => hstopped hw2) ?_
      rintro ⟨ret2, s'⟩ w2 ⟨hret2, hash, set, time, hs'⟩ hw2
      simp only at hret2 hs'
      simp only
      refine wp_seq (agentStateFiniAtomical_spec hnew hfresh hlook hlock (hsets hs').1
        (hsets hs').2 hw2) (fun w3 h3 => ⟨none, h3, by simp⟩) ?_
      rintro ⟨retval, a'⟩ w3 h3
      refine ⟨_, h3, ?_⟩
      rintro _ _ ⟨rfl, rfl⟩
      refine ⟨?_, retval, rfl⟩
      by_cases hret : retval = 0
      · rw [if_pos hret]
        exact hret2
      · rw [if_neg hret]
        exact hret
  refine wp_replyWith hspec ?_ ?_
  · rintro w' ⟨r, h, -⟩
    exact h.effect (by simp)
  · rintro v a' w' ⟨r, h, hr⟩
    obtain ⟨hv, retval, hret⟩ := hr v a' rfl
    refine h.effect ?_
    rintro _ _ ⟨rfl, rfl⟩
    exact ⟨retval, a', v, hret, rfl, fun h => absurd h hv⟩

theorem stateLoad_effect (hok : a.Ok) (htype : req.type = .stateLoad) (hs : a.s = none) :
    wp (Sys.exec me) (replyWith (agentStateInit cfg a true false))
      (Effect crypto cfg me a w req) w := by
  have hnew := hok.newState_none hs
  refine wp_replyWith (agentStateInit_spec hs hnew false) (fun w' h => .stopped h.1) ?_
  rintro retval a' w' ⟨hw, hend⟩
  cases hend retval a' rfl with
  | failed _ hret => exact .error hw (.refl a) rfl hret
  | held s lock e hfresh hlook _ hfree =>
    obtain rfl := hfree rfl
    refine .loaded htype hs s e hfresh hlook hw ?_
    rintro _ _ ⟨rfl, rfl⟩
    have hholds : a.Holds (a.setS (some (s.loaded (-1) e))) (some (s.loaded (-1) e)) false :=
      ⟨rfl, hnew, rfl, rfl, rfl⟩
    exact hholds.reply _

/-- A state without a new key that is not locked is not stored. -/
theorem pppStateRelease_refused (hnew : s.newKey = false) (hlock : s.lock = -1) :
    pppStateRelease cfg s { store := true } = .ret (2, s) := by
  have hneg : s.lock ≤ 0 := by omega
  simp [pppStateRelease, pppReleaseStore, pppReleaseUnlock, stateStore, assert, hnew, hneg]

/-- Dropping a state, after a release that left `s`. -/
theorem Agent.Holds.dropped (a : Agent) (s : Option State) (status : ℕ) :
    a.Holds ((((a.setS s).setNewState false).setS none).sendReply status) none false := by
  have hholds : a.Holds (((a.setS s).setNewState false).setS none) none false :=
    ⟨rfl, rfl, rfl, rfl, rfl⟩
  exact hholds.reply status

/-- A state that is dropped with an error. -/
theorem Effect.dropped_error (hwhy : req.type ∈ [.disconnect, .stateStore, .stateDrop] ∨
      a.newState = false) {q : Option (ℕ × Agent)} {w' : World} (hw : w'.Keeps w)
    (hq : ∀ v a', q = some (v, a') → ∃ retval s', retval ≠ 0 ∧
      a' = (((a.setS (some s')).setNewState false).setS none).sendReply retval) :
    Effect crypto cfg me a w req q w' := by
  refine .dropped hwhy hw fun v a' h => ?_
  obtain ⟨retval, s', hret, rfl⟩ := hq v a' h
  exact ⟨fun _ hok => hret (hok.status rfl), .dropped a _ _⟩

theorem stateStore_effect (hok : a.Ok) (hl : a.locked = false) (htype : req.type = .stateStore) :
    wp (Sys.exec me) (replyWith (agentStateFini cfg a { store := true }))
      (Effect crypto cfg me a w req) w := by
  rcases hs : a.s with _ | s
  · rw [agentStateFini_none hs (by simp)]
    exact .error (.refl w) (.refl a) rfl (by simp)
  have hlock := hok.unlocked hl hs
  have hwhy : req.type ∈ [.disconnect, .stateStore, .stateDrop] ∨ a.newState = false :=
    .inl (by simp [htype])
  simp only [replyWith, agentStateFini, assert, Bool.false_eq_true, and_false, not_false_eq_true,
    if_true, ret_bind, hs, if_false, LawfulMonad.bind_assoc]
  -- a state without a new key was stored by each of its setters
  cases hnew : s.newKey with
  | false =>
    rw [pppStateRelease_refused hnew hlock, ret_bind, stateFini_unlocked hlock, ret_bind]
    refine .dropped_error hwhy (.refl w) ?_
    rintro _ _ ⟨rfl, rfl⟩
    exact ⟨2, s, by simp, rfl⟩
  | true =>
    refine wp_seq (pppStateRelease_spec me cfg s { store := true } rfl w) ?_ ?_
    · intro w1 h1
      cases h1 with
      | kept h hr => exact .stopped h
      | stored h hr => exact .put htype s hs hnew h (by simp)
    rintro ⟨retval, s1⟩ w1 h1
    cases h1 with
    | kept h hr =>
      -- not stored: the state is dropped all the same
      refine wp_quiet_seq (stateFini_sat s1) Sys.Calm.quiet h (fun _ hw _ => .stopped hw)
        fun _ w2 _ hw2 => .dropped_error hwhy hw2 ?_
      rintro _ _ ⟨rfl, rfl⟩
      exact ⟨retval, s1, (hr _ _ rfl).1, rfl⟩
    | stored h hr =>
      refine wp_quiet_seq (stateFini_sat s1) Sys.Calm.quiet (.refl w1)
        (fun _ hw _ => .put htype s hs hnew (h.of_keeps_right hw) (by simp))
        fun _ w2 _ hw2 => .put htype s hs hnew (h.of_keeps_right hw2) ?_
      rintro _ _ ⟨rfl, rfl⟩
      exact .dropped a _ _

theorem stateDrop_effect (hok : a.Ok) (hl : a.locked = false) (htype : req.type = .stateDrop) :
    wp (Sys.exec me) (replyWith (agentStateFini cfg a {})) (Effect crypto cfg me a w req) w := by
  rcases hs : a.s with _ | s
  · rw [agentStateFini_none hs (by simp)]
    exact .error (.refl w) (.refl a) rfl (by simp)
  · rw [agentStateFini_drop hs (hok.unlocked hl hs)]
    refine .dropped (.inl (by simp [htype])) (.refl w) ?_
    rintro _ _ ⟨rfl, rfl⟩
    have hself : (a.setNewState false).setS none =
        ((a.setS (some s)).setNewState false).setS none := rfl
    rw [hself]
    exact ⟨fun h => absurd htype h, .dropped a _ _⟩

theorem keyRemove_effect (hok : a.Ok) (htype : req.type = .keyRemove) (hs : a.s = none) :
    wp (Sys.exec me) (replyWith do
        let (retval, a) ← agentStateInit cfg a true true
        if retval ≠ 0 then return (retval, a) else agentStateFini cfg a { remove := true })
      (Effect crypto cfg me a w req) w := by
  have hnew := hok.newState_none hs
  simp only [replyWith, LawfulMonad.bind_assoc]
  refine wp_seq (agentStateInit_spec hs hnew true) (fun w' h => .stopped h.1) ?_
  rintro ⟨retval, a1⟩ w1 ⟨hw1, hend⟩
  cases hend retval a1 rfl with
  | failed _ hret =>
    simp only
    rw [if_pos hret]
    exact .error hw1 (.refl a) rfl hret
  -- the entry is held only until it is removed, or not
  | held s lock e hfresh hlook _ _ =>
    simp only
    rw [if_neg (by simp)]
    simp only [agentStateFini, assert, Bool.false_eq_true, false_and, not_false_eq_true, if_true,
      ret_bind, Agent.setS, if_false, LawfulMonad.bind_assoc]
    refine wp_seq (pppStateRelease_spec me cfg (s.loaded lock e) { remove := true } rfl w1) ?_ ?_
    · intro w2 h2
      cases h2.of_keeps hw1 with
      | kept h hr => exact .stopped h
      | stored h hr => exact .removed htype hs s lock e hfresh hlook h (by simp)
    rintro ⟨retval, s1⟩ w2 h2
    cases h2.of_keeps hw1 with
    | kept h hr =>
      refine wp_quiet_seq (stateFini_sat s1) Sys.Calm.quiet h (fun _ hw _ => .stopped hw)
        fun _ w3 _ hw3 => .dropped_error (.inr hnew) hw3 ?_
      rintro _ _ ⟨rfl, rfl⟩
      exact ⟨retval, s1, (hr _ _ rfl).1, rfl⟩
    | stored h hr =>
      refine wp_quiet_seq (stateFini_sat s1) Sys.Calm.quiet (.refl w2)
        (fun _ hw _ => .removed htype hs s lock e hfresh hlook (h.of_keeps_right hw) (by simp))
        fun _ w3 _ hw3 => .removed htype hs s lock e hfresh hlook (h.of_keeps_right hw3) ?_
      rintro _ _ ⟨rfl, rfl⟩
      exact .dropped a (some s1) _

theorem disconnect_effect (hok : a.Ok) (hl : a.locked = false) (htype : req.type = .disconnect) :
    wp (Sys.exec me) (if a.s.isSome then do
        let (_, a) ← agentStateFini cfg a {}
        return (agentReqDisconnect, a)
      else return (agentReqDisconnect, a) : SysM (ℕ × Agent))
      (Effect crypto cfg me a w req) w := by
  rcases hs : a.s with _ | s
  · refine .refused (.refl w) ?_
    rintro _ _ ⟨rfl, rfl⟩
    exact ⟨Agent.not_answeredOk_self rfl, hs ▸ .refl a⟩
  · simp only [Option.isSome_some, if_true, agentStateFini_drop hs (hok.unlocked hl hs), ret_bind]
    refine .dropped (.inl (by simp [htype])) (.refl w) ?_
    rintro _ _ ⟨rfl, rfl⟩
    exact ⟨fun _ => Agent.not_answeredOk_self rfl, rfl, rfl, rfl, rfl, rfl⟩

theorem userSet_effect (hok : a.Ok) (hl : a.locked = false) (htype : req.type = .userSet)
    (spec : CString) :
    wp (Sys.exec me) (replyWith (userSet cfg a spec)) (Effect crypto cfg me a w req) w := by
  have hswitched {a1 : Agent} {w1 : World} (hw : w1.Keeps w) (h : a1.s = none)
      (hnew : a1.newState = false) (hpriv : a1.privileged = a.privileged) (status : ℕ) :
      Effect crypto cfg me a w req (some (0, a1.sendReply status)) w1 := by
    refine .switched htype hw ?_
    rintro _ _ ⟨rfl, rfl⟩
    have hreply := (Agent.Holds.refl a1).reply status
    exact ⟨hreply.s.trans h, hreply.newState.trans hnew, hreply.privileged.trans hpriv⟩
  have hparse : ((Sys.parseUser spec).exec me w).2.Keeps w :=
    @exec_keeps (.parseUser spec) trivial me w
  refine wp_replyWith (P := fun r w1 => w1.Keeps w ∧ ∀ v a1, r = some (v, a1) →
      (v ≠ 0 ∧ a1 = a) ∨ a1.s = none ∧ a1.newState = false ∧ a1.privileged = a.privileged) ?_
    (fun w' h => .stopped h.1) ?_
  · unfold userSet
    refine (wp_issue_bind _).mpr ?_
    rcases ((Sys.parseUser spec).exec me w).1 with _ | username
    · refine ⟨hparse, ?_⟩
      rintro _ _ ⟨rfl, rfl⟩
      exact .inl ⟨by simp, rfl⟩
    refine (wp_issue_bind _).mpr ?_
    have hkeeps := (@exec_keeps .strdup trivial me ((Sys.parseUser spec).exec me w).2).trans hparse
    generalize (Sys.exec me .strdup ((Sys.parseUser spec).exec me w).2).1 = named
    rcases hs : a.s with _ | s
    · have hs' : (a.setUsername username named).s = none := hs
      simp only [hs', Option.isSome_none, Bool.false_eq_true, if_false]
      refine ⟨hkeeps, ?_⟩
      rintro _ _ ⟨rfl, rfl⟩
      exact .inr ⟨hs, hok.newState_none hs, rfl⟩
    · have hs' : (a.setUsername username named).s = some s := hs
      simp only [hs', Option.isSome_some, if_true, agentStateFini_drop hs' (hok.unlocked hl hs),
        ret_bind]
      refine ⟨hkeeps, ?_⟩
      rintro _ _ ⟨rfl, rfl⟩
      exact .inr ⟨rfl, rfl, rfl⟩
  · rintro v a1 w1 ⟨hw, hr⟩
    rcases hr v a1 rfl with ⟨hv, rfl⟩ | ⟨hs, hnew, hpriv⟩
    · exact .error hw (.refl a1) rfl hv
    · exact hswitched hw hs hnew hpriv v

theorem keyGenerate_effect (hok : a.Ok) (hl : a.locked = false) (htype : req.type = .keyGenerate)
    (hs : a.s = some s) :
    wp (Sys.exec me) (do
        let (retval, s) ← pppKeyGenerate crypto cfg s { checkPolicy := !a.privileged }
        return (agentOk, (a.setS (some s)).sendReply retval))
      (Effect crypto cfg me a w req) w := by
  refine wp_seq (pppKeyGenerate_spec _ (hok.unlocked hl hs)) (fun w1 h1 => .stopped h1.1) ?_
  rintro ⟨retval, s1⟩ w1 ⟨hw1, hr⟩
  rcases hr retval s1 rfl with ⟨hret, rfl⟩ | ⟨rfl, ⟨pool, rfl⟩, hcheck⟩
  · have hholds : a.Holds (a.setS (some s1)) a.s a.newState := ⟨hs.symm, rfl, rfl, rfl, rfl⟩
    exact .error hw1 hholds rfl hret
  · refine .generated htype s pool hs (fun hp hregen => hcheck ⟨by simp [hp], hregen⟩) hw1 ?_
    rintro _ _ ⟨rfl, rfl⟩
    have hholds : a.Holds (a.setS (some (s.generated crypto pool)))
      (some (s.generated crypto pool)) a.newState := ⟨rfl, rfl, rfl, rfl, rfl⟩
    exact hholds.reply _

theorem clear_effect (hok : a.Ok) (htype : req.type = .clearRecentFailures) (hs : a.s = some s) :
    wp (Sys.exec me) (withState a fun s => do return (← pppFailures cfg s true, a))
      (Effect crypto cfg me a w req) w := by
  have hu := (hok.held s hs).username
  simp only [withState, hs, LawfulMonad.bind_assoc, pppFailures, State.name, hu]
  have hzero (s : State) (uid : Uid) (ok : Prop) : Meets cfg uid true ok Sys.Calm
      (fun s' => s'.username = s.username ∧ s'.entry = { s.entry with recentFailures := 0 })
      (if true = true then (pure (s.setRecentFailures 0) : SysM State) else
        pure ((s.setFailures (s.failures + 1)).setRecentFailures (s.recentFailures + 1))) :=
    ⟨rfl, rfl⟩
  refine wp_seq (pppUpdate_spec me cfg s.named a.username _
    (fun e e' => e' = { e with recentFailures := 0 })
    hzero w) ?_ ?_
  · rintro w1 (⟨hw, -⟩ | ⟨e, _, rfl, h, -⟩)
    · exact .stopped hw
    · exact .cleared htype e h (by simp)
  · rintro retval w1 (⟨hw, hret⟩ | ⟨e, _, rfl, h, -⟩)
    · exact .error hw (.refl a) rfl fun h => hret (congrArg some h)
    · refine .cleared htype e h ?_
      rintro _ _ ⟨rfl, rfl⟩
      exact (Agent.Holds.refl a).reply _

end

end Otpasswd
