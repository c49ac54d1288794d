import Otpasswd.Agent.Stored
import Otpasswd.Libotp.Spass

/-!
# Otpasswd.Agent.Prepare — a change of the stored entry, up to its store

The requests that change a stored entry check, load under the lock and change
the state in memory before they store it. Here they are cut in two at the
store: `Request.prepare` is all that comes before, `Prepared.finish` the store
with the reply.

Main results: `requestHandle_prepare` and `prepare_spec`.
-/

namespace Otpasswd

open CText Prog

/-! ## The two halves -/

/-- The requests that set a field. -/
def Request.IsSetter (req : Request) : Prop :=
  req.type ∈ [.flagAdd, .flagClear, .setInt, .setStr, .setSpass, .updateLatest]

/-- The requests that change the stored entry on purpose, but for its key. -/
def Request.IsChange (req : Request) : Prop := req.IsSetter ∨ req.type = .skip

instance (req : Request) : Decidable req.IsSetter := inferInstanceAs (Decidable (_ ∈ _))
instance (req : Request) : Decidable req.IsChange := inferInstanceAs (Decidable (_ ∨ _))

/-- The change that a setter makes of the state in memory. -/
def Request.change (crypto : Crypto) (cfg : Cfg) (privileged : Bool) (req : Request) (s : State) :
    SysM (ℕ × State) :=
  match req.type with
  | .flagAdd => changeFlags cfg (· ||| req.int) s
  | .flagClear => changeFlags cfg (· &&& ~~~req.int) s
  | .setInt => pppSetInt cfg s (.ofNum req.int) req.int2
  | .setStr => pppSetStr cfg s (.ofNum req.int) req.str (!privileged)
  | .updateLatest => updateLatest req.num s
  | .setSpass =>
    pppSetSpass crypto cfg s (if req.int ≠ 0 then none else some req.str) (!privileged)
  | _ => .abort

/-- Where a request stands before its store. -/
inductive Prepared where
  /-- It is not going to store anything. -/
  | ended (retval : ℕ) (a : Agent)
  /-- It is about to store `s'`, which it made of the state `s` that it loaded;
  `code` is the reply if nothing else fails. -/
  | storing (a : Agent) (s s' : State) (code : ℕ)

/-- A setter up to its store. -/
def setterPrepare (crypto : Crypto) (cfg : Cfg) (a : Agent) (req : Request) : SysM Prepared := do
  let (retval, a') ← agentStateInitAtomical cfg a
  if retval ≠ 0 then return .ended agentOk (a'.sendReply retval)
  else
    match a'.s with
    | none => .abort
    | some s =>
      let (retval, s') ← req.change crypto cfg a.privileged s
      if retval = 0 ∨ req.type = .setSpass then return .storing a' s s' retval
      else
        let (_, a') ← agentStateFini cfg (a'.setS (some s')) { keep := true }
        return .ended agentOk (a'.sendReply retval)

/-- `SKIP` up to its store. -/
def skipPrepare (cfg : Cfg) (a : Agent) (s : State) (skipTo : Num) : SysM Prepared := do
  let (retval, s) ← pppStateLoad cfg s {}
  if retval ≠ 0 then return .ended agentOk ((a.setS (some s)).sendReply retval)
  else
    let verify ← pppStateVerify cfg s
    let retval := if verify ≠ 0 then verify
      else if pppFlagCheck s flagDisabled then pppErrorDisabled else skipRange skipTo s
    if retval ≠ 0 then
      let (_, s) ← pppStateRelease cfg s { unlock := true }
      return .ended agentOk ((a.setS (some s)).sendReply retval)
    else return .storing a s (skipCounter skipTo s) 0

/-- A change of the stored entry up to its store, for an agent that holds `s`. -/
def Request.prepare (crypto : Crypto) (cfg : Cfg) (a : Agent) (s : State) (req : Request) :
    SysM Prepared := do
  if a.locked then return .ended 1 a
  else
    let (retval, a) ← requestVerifyPolicy cfg a req
    if retval = agentErrPolicy then return .ended 0 (a.sendReply agentErrPolicy)
    else if retval ≠ 0 then return .ended retval (a.sendReply retval)
    else if req.type = .skip then skipPrepare cfg a s req.num
    else if req.type = .updateLatest ∧ latestOk s req.num = false then
      return .ended agentOk (a.sendReply agentErrReqArg)
    else setterPrepare crypto cfg a req

/-- The store, and the reply. -/
def Prepared.finish (cfg : Cfg) : Prepared → SysM (ℕ × Agent)
  | .ended retval a => return (retval, a)
  | .storing a _ s' code => do
    let (retval, s) ← pppStateRelease cfg s' { store := true, unlock := true }
    return (agentOk, (a.setS (some s)).sendReply (if retval = 0 then code else retval))

section

variable {crypto : Crypto} {cfg : Cfg} {a : Agent} {s : State} {req : Request}

/-- A load leaves an agent that is not creating a state. -/
theorem agentStateInit_yields (lock : Bool) (hnew : a.newState = false) :
    (agentStateInit cfg a true lock).Yields
      (fun r => r.2.newState = false ∧ r.2.privileged = a.privileged) := by
  refine (sat_assert_bind _).mpr ⟨fun _ => ?_, fun _ => trivial⟩
  refine Sat.bind (V := fun _ => True) (sat_true _) fun r _ => ?_
  rcases r with retval | s
  · exact ⟨hnew, rfl⟩
  simp only [Bool.true_eq_false, if_false]
  refine Sat.bind (V := fun _ => True) (sat_true _) fun r _ => ?_
  split_ifs
  · exact ⟨rfl, rfl⟩
  · exact Sat.bind (V := fun _ => True) (sat_true _) fun _ _ => ⟨rfl, rfl⟩

theorem agentStateInitAtomical_yields (hnew : a.newState = false) :
    (agentStateInitAtomical cfg a).Yields
      (fun r => r.2.newState = false ∧ r.2.privileged = a.privileged) := by
  rw [agentStateInitAtomical, if_neg (by simp [hnew])]
  by_cases hs : a.s.isSome = true
  · rw [if_pos hs]
    have hfini : (agentStateFini cfg a {}).Yields
        (fun r => r.2.newState = false ∧ r.2.privileged = a.privileged) := by
      refine (sat_assert_bind _).mpr ⟨fun _ => ?_, fun _ => trivial⟩
      rcases a.s with _ | s
      · exact ⟨hnew, rfl⟩
      refine Sat.bind (V := fun _ => True) (sat_true _) fun r _ => ?_
      exact Sat.bind (V := fun _ => True) (sat_true _) fun _ _ => ⟨rfl, rfl⟩
    refine hfini.bind ?_
    rintro ⟨retval, a'⟩ ⟨hnew', hp⟩
    simp only at hnew' hp ⊢
    split_ifs
    · exact ⟨hnew', hp⟩
    · rw [← hp]
      exact agentStateInit_yields true hnew'
  · rw [if_neg hs]
    exact agentStateInit_yields true hnew

/-- Storing what was changed is the release, with the reply of `finish`. -/
theorem storing_finish {a : Agent} (hnew : a.newState = false) (s s' : State) (code : ℕ) :
    (agentStateFiniAtomical cfg (a.setS (some s')) 0 >>= fun r =>
      (pure (agentOk, r.2.sendReply (if r.1 = 0 then code else r.1)) : SysM (ℕ × Agent))) =
      (Prepared.storing a s s' code).finish cfg := by
  rw [agentStateFiniAtomical, if_neg (by simp [Agent.setS, hnew]), if_pos rfl]
  simp only [agentStateFini, assert, Agent.setS, Bool.false_eq_true, and_false, not_false_eq_true,
    if_true, ret_bind, LawfulMonad.bind_assoc, pure_eq_ret, Prepared.finish]
  refine congrArg _ (funext fun r => ?_)
  have hself : ({ a with s := some r.2 }).setNewState false = { a with s := some r.2 } :=
    setNewState_false (a := { a with s := some r.2 }) hnew
  rw [hself]

theorem setter_prepare (hnew : a.newState = false) (hreq : req.type ≠ .setSpass) :
    replyWith (atomically cfg a (req.change crypto cfg a.privileged)) =
      setterPrepare crypto cfg a req >>= Prepared.finish cfg := by
  simp only [replyWith, atomically, setterPrepare, LawfulMonad.bind_assoc]
  refine (agentStateInitAtomical_yields hnew).bind_congr ?_
  rintro ⟨retval, a'⟩ ⟨hnew', -⟩
  simp only at hnew' ⊢
  by_cases hret : retval ≠ 0
  · rw [if_pos hret, if_pos hret]
    rfl
  rw [if_neg hret, if_neg hret]
  rcases a'.s with _ | s
  · rfl
  simp only [LawfulMonad.bind_assoc]
  refine congrArg _ (funext fun r => ?_)
  obtain ⟨retval, s'⟩ := r
  simp only [hreq, or_false]
  by_cases hchange : retval = 0
  · subst hchange
    rw [if_pos rfl, pure_bind, ← storing_finish hnew']
    refine congrArg _ (funext fun r => ?_)
    by_cases h : r.1 = 0
    · rw [if_pos h, h]
    · rw [if_neg h]
  · rw [if_neg hchange, agentStateFiniAtomical, if_neg (by simp [Agent.setS, hnew']),
      if_neg hchange]
    simp only [LawfulMonad.bind_assoc, pure_eq_ret, ret_bind]
    rfl

theorem setSpass_prepare (hnew : a.newState = false) (hreq : req.type = .setSpass) :
    replyWith (setSpass crypto cfg a (if req.int ≠ 0 then none else some req.str)) =
      setterPrepare crypto cfg a req >>= Prepared.finish cfg := by
  simp only [replyWith, setSpass, setterPrepare, LawfulMonad.bind_assoc]
  refine (agentStateInitAtomical_yields hnew).bind_congr ?_
  rintro ⟨retval, a'⟩ ⟨hnew', hp⟩
  simp only at hnew' hp ⊢
  by_cases hret : retval ≠ 0
  · rw [if_pos hret, if_pos hret]
    rfl
  rw [if_neg hret, if_neg hret, hp]
  rcases a'.s with _ | s
  · rfl
  simp only [Request.change, hreq, LawfulMonad.bind_assoc]
  refine congrArg _ (funext fun r => ?_)
  obtain ⟨retval, s'⟩ := r
  simp only [or_true, if_true]
  rw [pure_bind, ← storing_finish hnew']
  rfl

theorem skip_prepare (hs : a.s = some s) :
    (withState a fun s => do
      let (retval, s) ← pppSkip cfg s req.num
      return (retval, a.setS (some s))) =
      skipPrepare cfg a s req.num >>= Prepared.finish cfg := by
  simp only [withState, hs, pppSkip_eq, counterOp, skipPrepare, LawfulMonad.bind_assoc]
  refine congrArg _ (funext fun r => ?_)
  obtain ⟨retval, s1⟩ := r
  simp only
  by_cases hret : retval ≠ 0
  · rw [if_pos hret, if_pos hret]
    rfl
  rw [if_neg hret, if_neg hret]
  simp only [LawfulMonad.bind_assoc]
  refine congrArg _ (funext fun verify => ?_)
  generalize hlast : (if verify ≠ 0 then verify
    else if pppFlagCheck s1 flagDisabled then pppErrorDisabled else skipRange req.num s1) = last
  have hlast' : (if verify ≠ 0 then verify
      else if pppFlagCheck s1 flagDisabled = true then pppErrorDisabled
      else if 0 ≤ numCmp req.num s1.maxCode then pppErrorRange else 0) = last := hlast
  rw [hlast']
  by_cases h : last ≠ 0
  · rw [if_pos h, if_pos h]
    simp only [LawfulMonad.bind_assoc]
    rfl
  · rw [if_neg h, if_neg h]
    simp only [pure_eq_ret, ret_bind, Prepared.finish, LawfulMonad.bind_assoc]
    refine congrArg _ (funext fun r => ?_)
    by_cases h : r.1 = 0
    · rw [if_pos h, h]
    · rw [if_neg h]

/-- The policy looks at nothing but the request and the configuration. -/
theorem requestVerifyPolicy_pure (hreq : req.IsChange) :
    ∃ code, requestVerifyPolicy cfg a req = .ret (code, a) := by
  unfold Request.IsChange Request.IsSetter at hreq
  unfold requestVerifyPolicy
  cases htype : req.type <;> simp only [htype, List.mem_cons, List.not_mem_nil, reduceCtorEq,
    or_false, or_true, or_self] at hreq <;> exact ⟨_, rfl⟩

/-- Handling a change of a stored state that is held: all up to the store, and
the store. -/
theorem requestHandle_prepare (hreq : req.IsChange) (hnew : a.newState = false)
    (hs : a.s = some s) :
    requestHandle crypto cfg a req = req.prepare crypto cfg a s >>= Prepared.finish cfg := by
  obtain ⟨code, hpolicy⟩ := @requestVerifyPolicy_pure cfg a req hreq
  rw [requestHandle, Request.prepare]
  -- what refuses the request ends both sides alike
  by_cases hl : a.locked = true
  · rw [if_pos hl, if_pos hl]
    rfl
  rw [if_neg hl, if_neg hl, hpolicy]
  simp only [ret_bind]
  by_cases hrefused : code = agentErrPolicy
  · rw [if_pos hrefused, if_pos hrefused]
    rfl
  rw [if_neg hrefused, if_neg hrefused]
  by_cases hcode : code ≠ 0
  · rw [if_pos hcode, if_pos hcode]
    rfl
  rw [if_neg hcode, if_neg hcode]
  unfold requestExecute
  -- past the policy each setter is its change and a store
  have hset (htype : req.type ≠ .setSpass) := @setter_prepare crypto cfg a req hnew htype
  have hother (hskip : req.type ≠ .skip) (hlatest : req.type ≠ .updateLatest) :
      (if req.type = .skip then skipPrepare cfg a s req.num
      else if req.type = .updateLatest ∧ latestOk s req.num = false then
        (pure (.ended agentOk (a.sendReply agentErrReqArg)) : SysM Prepared)
      else setterPrepare crypto cfg a req) = setterPrepare crypto cfg a req := by
    rw [if_neg hskip, if_neg fun h => hlatest h.1]
  unfold Request.IsChange Request.IsSetter at hreq
  cases htype : req.type <;> simp only [htype, List.mem_cons, List.not_mem_nil, reduceCtorEq,
    or_false, or_true, or_self] at hreq
  case skip =>
    simp only [if_true]
    exact skip_prepare hs
  case updateLatest =>
    simp only [reduceCtorEq, if_false, true_and, hs, Option.any_some, Bool.not_eq_true']
    by_cases hlatest : latestOk s req.num = false
    · rw [if_pos hlatest, if_pos hlatest]
      rfl
    · rw [if_neg hlatest, if_neg hlatest, ← hset (by simp [htype])]
      unfold Request.change
      simp only [htype]
  case setSpass =>
    simp only [reduceCtorEq, if_false, false_and]
    exact setSpass_prepare hnew htype
  all_goals
    simp only [reduceCtorEq, if_false, false_and]
    rw [← hset (by simp [htype])]
    unfold Request.change
    simp only [htype]

end

/-! ## What comes before the store -/

/-- The replies of `SET_SPASS` that say the password was changed. -/
def SpassChanged (status : ℕ) : Prop := pppErrorSpassSet ≤ status ∧ status ≤ pppErrorSpassUnset

instance (status : ℕ) : Decidable (SpassChanged status) := inferInstanceAs (Decidable (_ ∧ _))

section

variable {crypto : Crypto} {cfg : Cfg} {me : Pid} {a : Agent} {s : State} {req : Request}
  {w : World} {e : Entry}

/-- What `ppp_set_spass` makes of the state `s`: it refuses and leaves it, it
removes the password, or it sets a hash, which is that of the password unless
hashing failed. -/
inductive SpassEnd (cfg : Cfg) (s : State) : Option CString → ℕ → State → Prop where
  | refused (spass : Option CString) (code : ℕ) (hcode : code ≠ 0)
      (hchanged : ¬ SpassChanged code) : SpassEnd cfg s spass code s
  | unset : SpassEnd cfg s none pppErrorSpassUnset (s.setSpass (Bytes.zero 40) false s.spassTime)
  | set (spass : CString) (hash : Bytes 40) (time : Word64) :
      SpassEnd cfg s (some spass) (verifySpass cfg spass.val + pppErrorSpassSet)
        (s.setSpass hash true time)

theorem pppSetSpass_ends {uid : Uid} {ok : Prop} (spass : Option CString) (checkPolicy : Bool) :
    (pppSetSpass crypto cfg s spass checkPolicy).Sat (Sys.Answers uid ok) Sys.Calm (fun _ => False)
      (fun r => SpassEnd cfg s spass r.1 r.2) := by
  unfold pppSetSpass
  by_cases hpolicy : checkPolicy = true ∧ cfg.spassChange = configDisallow
  · rw [if_pos hpolicy]
    exact .refused _ _ (by simp) (by simp [SpassChanged])
  rw [if_neg hpolicy]
  rcases spass with _ | spass
  · exact .unset
  simp only
  by_cases herrors : checkPolicy = true ∧ verifySpass cfg spass.val ≠ 0
  · rw [if_pos herrors]
    refine .refused _ _ herrors.2 fun h => ?_
    have hlt := verifySpass_lt cfg spass.val
    exact absurd (h.1.trans_lt hlt) (by decide)
  rw [if_neg herrors]
  refine (sat_issue_bind _).mpr ⟨⟨trivial, id⟩, fun buf _ => ?_⟩
  refine Sat.bind (V := fun _ => True) ?_ fun hash _ => ?_
  · refine (sat_issue_bind _).mpr ⟨⟨trivial, id⟩, fun ok _ => ?_⟩
    split_ifs
    · trivial
    · refine (sat_issue_bind _).mpr ⟨⟨trivial, id⟩, fun salt _ => ?_⟩
      rcases salt with _ | salt <;> trivial
  · exact ⟨⟨trivial, id⟩, fun time _ => .set spass hash time⟩

/-- Its result says whether the password was changed. -/
theorem SpassEnd.told {spass : Option CString} {code : ℕ} {s' : State}
    (h : SpassEnd cfg s spass code s') : code ≠ 0 ∧ (¬ SpassChanged code → s' = s) ∧
      ∃ hash set time, s' = s.setSpass hash set time := by
  have hself : s = s.setSpass s.spass s.spassSet s.spassTime := by
    obtain ⟨⟩ := s
    rfl
  cases h with
  | refused spass code hcode hchanged => exact ⟨hcode, fun _ => rfl, _, _, _, hself⟩
  | unset => exact ⟨by simp, fun h => absurd (by simp [SpassChanged]) h, _, _, _, rfl⟩
  | set spass hash time =>
    have hlt := verifySpass_lt cfg spass.val
    refine ⟨?_, fun h => absurd ?_ h, _, _, _, rfl⟩
    · simp only [pppErrorSpassSet]
      omega
    · simp only [SpassChanged, pppErrorSpassSet, pppErrorSpassUnset] at hlt ⊢
      omega

/-- What a setter makes of its state. -/
structure Request.Changed (cfg : Cfg) (privileged : Bool) (req : Request) (s : State) (code : ℕ)
    (s' : State) : Prop where
  beside : s.Beside s'
  sets : req.type ≠ .setSpass → req.Sets cfg privileged s code s'
  spass : req.type = .setSpass → code ≠ 0 ∧ (¬ SpassChanged code → s' = s)
  valid : s.entry.Valid → s'.entry.Valid

theorem Request.change_sat {uid : Uid} {ok : Prop} (hreq : req.IsSetter) (privileged : Bool) :
    (req.change crypto cfg privileged s).Sat (Sys.Answers uid ok) Sys.Calm (fun _ => True)
      (fun r => req.Changed cfg privileged s r.1 r.2) := by
  have hret {p : SysM (ℕ × State)} (htype : req.type ≠ .setSpass)
      (h : ∀ r, p = .ret r → req.Sets cfg privileged s r.1 r.2)
      (hp : p = .abort ∨ ∃ r, p = .ret r ∧ s.Beside r.2) :
      p.Sat (Sys.Answers uid ok) Sys.Calm (fun _ => True) (fun r => req.Changed cfg privileged s r.1 r.2) := by
    rcases hp with rfl | ⟨r, rfl, hb⟩
    · trivial
    · have hsets := h r rfl
      exact ⟨hb, fun _ => hsets, fun h => absurd h htype, hsets.valid⟩
  unfold Request.IsSetter at hreq
  unfold Request.change
  cases htype : req.type <;> simp only [htype, List.mem_cons, List.not_mem_nil, reduceCtorEq,
    or_false, or_true, or_self] at hreq
  case flagAdd =>
    refine hret (by simp [htype]) (fun r h => ?_) (.inr (State.Beside.changeFlags _))
    simpa only [Request.Sets, htype] using h
  case flagClear =>
    refine hret (by simp [htype]) (fun r h => ?_) (.inr (State.Beside.changeFlags _))
    simpa only [Request.Sets, htype] using h
  case updateLatest =>
    refine hret (by simp [htype]) (fun r h => ?_) (.inr (State.Beside.updateLatest _))
    simpa only [Request.Sets, htype] using h
  case setInt =>
    refine hret (by simp [htype]) (fun r h => ?_) (pppSetInt_ends _ _)
    simpa only [Request.Sets, htype] using h
  case setStr =>
    refine hret (by simp [htype]) (fun r h => ?_) (pppSetStr_ends _ _ _)
    simpa only [Request.Sets, htype] using h
  case setSpass =>
    refine (pppSetSpass_ends _ _).mono (fun _ h => h) (fun _ h => h.elim) ?_
    rintro ⟨code, s'⟩ hend
    change SpassEnd cfg s _ code s' at hend
    obtain ⟨hcode, hsame, hash, set, time, rfl⟩ := hend.told
    exact ⟨⟨⟨rfl, rfl, rfl, rfl, rfl⟩, rfl, rfl⟩, fun h => absurd htype h, fun _ => ⟨hcode, hsame⟩,
      fun hv => ⟨hv.1, hv.2, hv.3, hv.4, hv.5⟩⟩

/-- How far a change of the entry `e` gets before its store. -/
inductive PreparedEnd (a : Agent) (req : Request) (e : Entry) : Prepared → Prop where
  | ended (retval : ℕ) (a' : Agent) (hs : ∀ s, a'.s = some s → s.entry = e) :
      PreparedEnd a req e (.ended retval a')
  | storing (a' : Agent) (s s' : State) (code : ℕ) (hsent : a'.sent = a.sent)
      (hentry : s.entry = e) (hname : s'.username = a.username) (hvalid : s'.entry.Valid)
      (hkey : s'.newKey = true → 0 < s'.lock) (hset : req.type ≠ .setSpass → code = 0)
      (hspass : req.type = .setSpass → code ≠ 0 ∧ (¬ SpassChanged code → s' = s)) :
      PreparedEnd a req e (.storing a' s s' code)

/-- Where a change of the entry `e` stands before its store, with the databases
of `w`. -/
def Stands (a : Agent) (req : Request) (e : Entry) (w : World) (r : Option Prepared)
    (w' : World) : Prop :=
  w'.Keeps w ∧ ∀ p, r = some p → PreparedEnd a req e p

theorem Stands.aborted {w' : World} (hw : w'.Keeps w) : Stands a req e w none w' := ⟨hw, by simp⟩

theorem PreparedEnd.stands {p : Prepared} (h : PreparedEnd a req e p) {w' : World}
    (hw : w'.Keeps w) : wp (Sys.exec me) (.ret p) (Stands a req e w) w' :=
  ⟨hw, fun _ hp => Option.some.inj hp ▸ h⟩

/-- A reply from an agent that holds the entry. -/
theorem PreparedEnd.replied {a' : Agent} (hs : ∀ s, a'.s = some s → s.entry = e)
    (retval status : ℕ) : PreparedEnd a req e (.ended retval (a'.sendReply status)) := by
  refine .ended _ _ fun s h => hs s ?_
  rwa [sendReply_s] at h

theorem setterPrepare_spec (hok : a.Ok) (hl : a.locked = false) (hreq : req.IsSetter)
    (hnew : a.newState = false)
    (he : dbLookup (w.file (dbLoc cfg a.username)) a.username = some e) :
    wp (Sys.exec me) (setterPrepare crypto cfg a req) (Stands a req e w) w := by
  rw [setterPrepare, agentStateInitAtomical_stored hok hl hnew]
  refine wp_seq (agentStateInit_spec (a := a.setS none) rfl hnew true)
    (fun w1 h1 => .aborted h1.1) ?_
  rintro ⟨retval, a1⟩ w1 ⟨hw1, hend⟩
  cases hend retval a1 rfl with
  | failed _ hret =>
    simp only
    rw [if_pos hret]
    refine (PreparedEnd.replied (fun s hs => ?_) _ _).stands hw1
    cases (hs : (none : Option State) = some s)
  | held s lock e' hs hlook hlock _ =>
    obtain rfl : e' = e := Option.some.inj (hlook.symm.trans he)
    simp only [ne_eq, not_true_eq_false, if_false, Agent.setS]
    refine wp_quiet_seq (Request.change_sat hreq _) Sys.Calm.quiet hw1
      (fun w2 hw2 _ => .aborted hw2) ?_
    rintro ⟨code, s'⟩ w2 hchanged hw2
    have hname : s'.username = a.username := hchanged.beside.username.trans hs.username
    have hkey : s'.newKey = false := hchanged.beside.newKey.trans hs.newKey
    have hlock' : s'.LockOk := by
      rw [State.LockOk, hchanged.beside.lock]
      exact hlock
    simp only at hchanged ⊢
    by_cases hstore : code = 0 ∨ req.type = .setSpass
    · rw [if_pos hstore]
      have hv : (s.loaded lock e').entry.Valid := by
        rw [loaded_entry]
        exact dbLookup_valid hlook
      have hend : PreparedEnd a req e' (.storing (a.setS (some (s.loaded lock e')))
          (s.loaded lock e') s' code) :=
        .storing _ _ _ _ rfl (loaded_entry ..) hname (hchanged.valid hv)
          (fun h => absurd (hkey.symm.trans h) (by simp)) (fun h => hstore.resolve_right h)
          hchanged.spass
      exact hend.stands hw2
    · rw [if_neg hstore]
      obtain ⟨hcode, htype⟩ := not_or.mp hstore
      have hsame := (hchanged.sets htype).error hcode
      subst hsame
      -- the change was refused: the lock is given back
      have hrelease := @pppStateRelease_ends cfg (w2.uid me) False (s.loaded lock e') True
        (fun _ => trivial) { unlock := true } (by simp) rfl rfl (by simp) hlock
      simp only [agentStateFini, assert, Bool.false_eq_true, and_false, not_false_eq_true, if_true,
        ret_bind, LawfulMonad.bind_assoc]
      refine wp_seq (wp_and (wp_quiet (@pppStateRelease_sat _ _ w.AllOk _) Sys.Calm.quiet hw2)
        (wp_ends hrelease)) (fun w3 h3 => .aborted h3.1.1) ?_
      rintro ⟨ret2, s2⟩ w3 ⟨⟨hw3, -⟩, hs2⟩
      obtain ⟨lock2, h, -⟩ := hs2 _ rfl
      simp only at h
      subst h
      refine (PreparedEnd.replied (fun s3 hs3 => ?_) _ _).stands hw3
      obtain rfl := Option.some.inj hs3
      rw [loaded_setLock, loaded_entry]

theorem skipCounter_entry (skipTo : Num) (s : State) : (skipCounter skipTo s).entry =
    { s.entry with counter := pppAddSalt (s.setCounter skipTo) skipTo } := by
  rw [skipCounter, setCounter_entry, setCounter_entry]

theorem skipPrepare_spec (hh : s.Held a.username) (hs : s.entry = e) (hreq : req.type = .skip)
    (he : dbLookup (w.file (dbLoc cfg a.username)) a.username = some e) :
    wp (Sys.exec me) (skipPrepare cfg a s req.num) (Stands a req e w) w := by
  refine wp_seq (pppStateLoad_spec me cfg s w) (fun w1 h1 => .aborted h1.1) ?_
  rintro ⟨retval, s1⟩ w1 ⟨hw1, -, hend⟩
  replace hend : LoadLockEnd (w.file (dbLoc cfg s.username)) s retval s1 := hend retval s1 rfl
  rw [hh.username] at hend
  have hreply (s' : State) (h : s'.entry = e) {w2 : World} (hw2 : w2.Keeps w) (status : ℕ) :
      wp (Sys.exec me) (.ret (.ended agentOk ((a.setS (some s')).sendReply status)))
        (Stands a req e w) w2 := by
    refine (PreparedEnd.replied (fun s'' hs'' => ?_) _ _).stands hw2
    obtain rfl := Option.some.inj hs''
    exact h
  -- the entry that is loaded is the one held: nobody else wrote
  have hsame {e' : Entry} (hlook : dbLookup (w.file (dbLoc cfg a.username)) s.username = some e') :
      e' = e := by
    rw [hh.username] at hlook
    exact Option.some.inj (hlook.symm.trans he)
  cases hend with
  | exhausted lock e' hlook hrange =>
    obtain rfl := hsame hlook
    simp only
    rw [if_pos hrange]
    exact hreply _ (loaded_entry ..) hw1 _
  | failed _ _ hret h _ hkept =>
    simp only
    rw [if_pos hret.1]
    have hintact : Intact (w.file (dbLoc cfg a.username)) s.username := by
      rw [hh.username]
      exact Intact.of_lookup he
    obtain ⟨lock, rfl⟩ := hkept hintact
    exact hreply (s.setLock lock) hs hw1 _
  | loaded fd e' _ hlook hrange =>
    obtain rfl := hsame hlook
    have hv := dbLookup_valid hlook
    have hcodes : 0 < (s.loaded fd.val e').codesOnCard :=
      calculate_codesOnCard hv.codeLength_ge hv.codeLength_le
    have hfd : (0 : ℤ) < fd.val := by
      have := fd.property
      omega
    simp only
    rw [if_neg (by simp), pppStateVerify_eq hcodes, ret_bind]
    change wp _ (if verdict cfg (s.loaded fd.val e') (skipRange req.num (s.loaded fd.val e')) ≠ 0
      then _ else _) _ _
    by_cases hret : verdict cfg (s.loaded fd.val e') (skipRange req.num (s.loaded fd.val e')) = 0
    · -- the checks pass: the moved counter goes to the store
      rw [if_neg (not_not.mpr hret)]
      have hend : PreparedEnd a req e' (.storing a (s.loaded fd.val e')
          (skipCounter req.num (s.loaded fd.val e')) 0) := by
        have hb := beside_skipCounter req.num (s.loaded fd.val e')
        have hlock : 0 < (skipCounter req.num (s.loaded fd.val e')).lock := by
          rw [hb.lock]
          exact hfd
        refine .storing _ _ _ _ rfl (loaded_entry ..) (hb.username.trans hh.username) ?_
          (fun _ => hlock) (fun _ => rfl) fun h => by simp [hreq] at h
        rw [skipCounter_entry, loaded_entry]
        exact ⟨hv.1, hv.2, hv.3, hv.4, hv.5⟩
      exact hend.stands hw1
    · -- a check fails: the lock is given back, with the entry in memory
      rw [if_pos hret]
      have hrelease := @pppStateRelease_ends cfg (w1.uid me) False (s.loaded fd.val e') True
        (fun _ => trivial) { unlock := true } (by simp) rfl rfl (by simp) (.inr hfd)
      refine wp_seq (wp_and (wp_quiet (@pppStateRelease_sat _ _ w.AllOk _) Sys.Calm.quiet hw1)
        (wp_ends hrelease)) (fun w2 h2 => .aborted h2.1.1) ?_
      rintro ⟨ret2, s2⟩ w2 ⟨⟨hw2, -⟩, h2⟩
      obtain ⟨lock, h, -⟩ := h2 _ rfl
      simp only at h
      subst h
      rw [loaded_setLock]
      exact hreply _ (loaded_entry ..) hw2 _

theorem prepare_spec (hok : a.Ok) (hreq : req.IsChange) (hnew : a.newState = false)
    (hs : a.s = some s) (hentry : s.entry = e)
    (he : dbLookup (w.file (dbLoc cfg a.username)) a.username = some e) :
    wp (Sys.exec me) (req.prepare crypto cfg a s) (Stands a req e w) w := by
  have hsame (s' : State) (hs' : a.s = some s') : s'.entry = e := by
    obtain rfl := Option.some.inj (hs.symm.trans hs')
    exact hentry
  obtain ⟨code, hpolicy⟩ := @requestVerifyPolicy_pure cfg a req hreq
  rw [Request.prepare]
  by_cases hl : a.locked = true
  · rw [if_pos hl]
    exact (PreparedEnd.ended 1 a hsame).stands (.refl w)
  rw [if_neg hl, hpolicy]
  simp only [ret_bind]
  split_ifs with hrefused hcode hskip hlatest
  · exact (PreparedEnd.replied hsame _ _).stands (.refl w)
  · exact (PreparedEnd.replied hsame _ _).stands (.refl w)
  · exact skipPrepare_spec (hok.held s hs) hentry hskip he
  · exact (PreparedEnd.replied hsame _ _).stands (.refl w)
  · exact setterPrepare_spec hok (by simpa using hl) (hreq.resolve_right hskip) hnew he

end

end Otpasswd
