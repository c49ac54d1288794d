import Otpasswd.Agent.Agreement
import Otpasswd.Agent.Manage
import Otpasswd.Agent.NewKey
import Otpasswd.Agent.Once

/-!
# Otpasswd.Agent.Draft — a new key is all or nothing

Between `STATE_NEW` and `STATE_STORE` the agent works on a draft in memory.
Each request that is answered with success changes the draft, and no request
reaches the databases; what is stored in the end is the draft.

Main result: `newKey_allOrNothing`.
-/

namespace Otpasswd

open CText Prog

/-! ## Drafts -/

/-- The requests that work on a state which is being created. -/
def Request.Drafting (req : Request) : Prop :=
  req.IsSetter ∨ req.type = .keyGenerate ∨ req.ReadOnly ∧ req.type ≠ .getPrompt

instance (req : Request) : Decidable req.ReadOnly := inferInstanceAs (Decidable (_ ∈ _))
instance (req : Request) : Decidable req.Drafting := inferInstanceAs (Decidable (_ ∨ _ ∨ _ ∧ _))

/-- The status in a reply to a setter says that it changed its field. -/
def Request.Tells (req : Request) (status : ℕ) : Prop :=
  if req.type = .setSpass then SpassChanged status else status = agentOk

/-- What a request that is answered with `status` makes of a draft. -/
inductive Request.Drafts (crypto : Crypto) (cfg : Cfg) (req : Request) (s : State) :
    ℕ → State → Prop where
  | kept (status : ℕ) (prompt : Option (List Char)) (hread : status = agentOk → req.ReadOnly)
      (hsetter : req.IsSetter → ¬ req.Tells status) :
      Drafts crypto cfg req s status (s.setPrompt prompt)
  | changed (s' : State) (htype : req.type ≠ .setSpass) (h : req.Changes cfg s s') :
      Drafts crypto cfg req s agentOk s'
  | unset (htype : req.type = .setSpass) (hunset : req.int ≠ 0) :
      Drafts crypto cfg req s pppErrorSpassUnset (s.setSpass (Bytes.zero 40) false s.spassTime)
  | set (htype : req.type = .setSpass) (hset : req.int = 0) (hash : Bytes 40) (time : Word64) :
      Drafts crypto cfg req s (verifySpass cfg req.str.val + pppErrorSpassSet)
        (s.setSpass hash true time)
  | generated (pool : List Byte) (htype : req.type = .keyGenerate) :
      Drafts crypto cfg req s agentOk (s.generated crypto pool)

/-- What a list of requests, each with the status in its reply, makes of a
draft. -/
inductive DraftLog (crypto : Crypto) (cfg : Cfg) : State → List (Request × ℕ) → State → Prop where
  | nil (s : State) : DraftLog crypto cfg s [] s
  | cons {s s1 s' : State} {req : Request} {status : ℕ} {log : List (Request × ℕ)}
      (h : req.Drafts crypto cfg s status s1) (hlog : DraftLog crypto cfg s1 log s') :
      DraftLog crypto cfg s ((req, status) :: log) s'

/-- What handling a request on the draft `s` leaves: the databases of `w`, and,
if the main loop goes on, a draft and one reply. -/
def DraftEnd (crypto : Crypto) (cfg : Cfg) (a : Agent) (s : State) (req : Request) (w : World)
    (r : Option (ℕ × Agent)) (w' : World) : Prop :=
  w'.Keeps w ∧ ∀ a', r = some (0, a') → ∃ s' hdr, a.Holds a' (some s') true ∧
    a'.sent = a.sent ++ [hdr] ∧ s'.lock = s.lock ∧ req.Drafts crypto cfg s hdr.status s'

section

variable {crypto : Crypto} {cfg : Cfg} {me : Pid} {a a' : Agent} {s s' : State} {req : Request}
  {w w' : World} {status : ℕ}

theorem State.setPrompt_self (s : State) : s.setPrompt s.prompt = s := by
  obtain ⟨⟩ := s
  rfl

theorem Request.Drafts.refused (hstatus : status ≠ agentOk)
    (hsetter : req.IsSetter → ¬ req.Tells status) : req.Drafts crypto cfg s status s := by
  have h := @Request.Drafts.kept crypto cfg req s status s.prompt
    (fun h => absurd h hstatus) hsetter
  rw [State.setPrompt_self] at h
  exact h

/-! ## One request -/

/-- A reply to a request on a draft. -/
theorem DraftEnd.replied {a1 : Agent} (hw : w'.Keeps w) (hholds : a.Holds a1 (some s') true)
    (hsent : a1.sent = a.sent) (hlock : s.lock = -1) (hlock' : s'.lock = s.lock)
    (h : req.Drafts crypto cfg s status s') (retval : ℕ) :
    DraftEnd crypto cfg a s req w (some (retval, a1.sendReply status)) w' := by
  refine ⟨hw, fun a' ha' => ?_⟩
  cases ha'
  have hl : a1.locked = false := Agent.locked_some hholds.s (hlock'.trans hlock)
  obtain ⟨hdr, hhdr, hstatus⟩ := sendReply_sent hl status
  refine ⟨s', hdr, hholds.reply status, ?_, hlock', ?_⟩
  · rw [hhdr, hsent]
  · rw [hstatus]
    exact h

/-- A request that the policy refuses. -/
theorem DraftEnd.refused (hnew : a.newState = true) (hs : a.s = some s) (hlock : s.lock = -1)
    (hstatus : status ≠ agentOk) (hsetter : req.IsSetter → ¬ req.Tells status) (hw : w'.Keeps w)
    (retval : ℕ) : DraftEnd crypto cfg a s req w (some (retval, a.sendReply status)) w' :=
  .replied hw ⟨hs, hnew, rfl, rfl, rfl⟩ rfl hlock rfl (.refused hstatus hsetter) retval

theorem agentStateFiniAtomical_created (hnew : a.newState = true) (hs : a.s = some s)
    (retval : ℕ) : agentStateFiniAtomical cfg a retval = .ret (retval, a) := by
  simp only [agentStateFiniAtomical, hnew, hs, assert, Option.isSome_some, if_true, ret_bind,
    pure_eq_ret]

/-- A setter on a draft changes the draft and replies. -/
theorem requestExecute_created (hnew : a.newState = true) (hs : a.s = some s)
    (hset : req.IsSetter) (hlatest : req.type = .updateLatest → latestOk s req.num = true) :
    requestExecute crypto cfg a req = req.change crypto cfg a.privileged s >>= fun r =>
      pure (agentOk, (a.setS (some r.2)).sendReply r.1) := by
  have hatomically (change : State → SysM (ℕ × State)) : replyWith (atomically cfg a change) =
      change s >>= fun r => pure (agentOk, (a.setS (some r.2)).sendReply r.1) := by
    simp only [replyWith, atomically, agentStateInitAtomical_created hnew hs, ret_bind, hs]
    rw [if_neg (not_not.mpr rfl)]
    simp only [LawfulMonad.bind_assoc]
    refine congrArg _ (funext fun r => ?_)
    rw [@agentStateFiniAtomical_created cfg (a.setS (some r.2)) r.2 hnew rfl]
    rfl
  unfold Request.IsSetter at hset
  unfold requestExecute Request.change
  cases htype : req.type <;> simp only [htype, List.mem_cons, List.not_mem_nil, reduceCtorEq,
    or_false, or_true, or_self] at hset
  case updateLatest =>
    simp only [hs, Option.any_some, hlatest htype, Bool.not_true, Bool.false_eq_true, if_false]
    exact hatomically _
  case setSpass =>
    simp only [replyWith, setSpass, agentStateInitAtomical_created hnew hs, ret_bind, hs]
    rw [if_neg (not_not.mpr rfl)]
    simp only [LawfulMonad.bind_assoc]
    refine congrArg _ (funext fun r => ?_)
    rw [@agentStateFiniAtomical_created cfg (a.setS (some r.2)) r.2 hnew rfl]
    simp only [ret_bind, if_true]
    rfl
  all_goals exact hatomically _

/-- The policy tells of no change. -/
theorem requestVerifyPolicy_tells {code : ℕ}
    (hpolicy : requestVerifyPolicy cfg a req = .ret (code, a)) (hcode : code ≠ 0) :
    ¬ req.Tells code := by
  unfold Request.Tells
  by_cases htype : req.type = .setSpass
  · unfold requestVerifyPolicy at hpolicy
    simp only [htype] at hpolicy
    cases hpolicy
    exact absurd rfl hcode
  · rw [if_neg htype]
    exact hcode

/-- The change of a setter, with what its return value says. -/
theorem change_drafts {uid : Uid} {ok : Prop} (hset : req.IsSetter) (privileged : Bool) :
    (req.change crypto cfg privileged s).Sat (Sys.Answers uid ok) Sys.Calm (fun _ => True)
      (fun r => r.2.lock = s.lock ∧ req.Drafts crypto cfg s r.1 r.2) := by
  by_cases htype : req.type = .setSpass
  · have hchange : req.change crypto cfg privileged s = pppSetSpass crypto cfg s
        (if req.int ≠ 0 then none else some req.str) (!privileged) := by
      unfold Request.change
      rw [htype]
    have htells (code : ℕ) : req.Tells code ↔ SpassChanged code := by
      unfold Request.Tells
      rw [if_pos htype]
    rw [hchange]
    refine (pppSetSpass_ends _ _).mono (fun _ h => h) (fun _ h => h.elim) ?_
    rintro ⟨code, s'⟩ hend
    change SpassEnd cfg s _ code s' at hend
    refine ⟨?_, ?_⟩
    · obtain ⟨hash, set, time, rfl⟩ := hend.told.2.2
      rfl
    by_cases hunset : req.int ≠ 0
    · rw [if_pos hunset] at hend
      cases hend with
      | refused _ code hcode hchanged =>
        exact .refused hcode fun _ h => hchanged ((htells code).mp h)
      | unset => exact .unset htype hunset
    · rw [if_neg hunset] at hend
      cases hend with
      | refused _ code hcode hchanged =>
        exact .refused hcode fun _ h => hchanged ((htells code).mp h)
      | set _ hash time => exact .set htype (not_not.mp hunset) hash time
  · have htells (code : ℕ) : req.Tells code ↔ code = agentOk := by
      unfold Request.Tells
      rw [if_neg htype]
    refine (Request.change_sat hset privileged).mono (fun _ h => h) (fun _ h => h) ?_
    rintro ⟨code, s'⟩ hchanged
    refine ⟨hchanged.beside.lock, ?_⟩
    rcases (hchanged.sets htype).cases with ⟨hcode, hs'⟩ | ⟨hcode, hchanges⟩
    · rw [hs']
      exact .refused hcode fun _ h => hcode ((htells code).mp h)
    · obtain rfl : code = agentOk := hcode
      exact .changed s' htype hchanges

/-- A setter on a draft. -/
theorem draft_setter (hnew : a.newState = true) (hs : a.s = some s) (hlock : s.lock = -1)
    (hset : req.IsSetter) :
    wp (Sys.exec me) (requestExecute crypto cfg a req) (DraftEnd crypto cfg a s req w) w := by
  by_cases hlatest : req.type = .updateLatest ∧ latestOk s req.num = false
  · have hexecute : requestExecute crypto cfg a req =
        .ret (agentOk, a.sendReply agentErrReqArg) := by
      unfold requestExecute
      simp only [hlatest.1, hs, Option.any_some, hlatest.2, Bool.not_false, if_true]
      rfl
    rw [hexecute]
    refine DraftEnd.refused hnew hs hlock (by decide) (fun _ => ?_) (.refl w) agentOk
    unfold Request.Tells
    rw [if_neg (by simp [hlatest.1])]
    decide
  · rw [requestExecute_created hnew hs hset fun htype => by simpa [htype] using hlatest]
    refine wp_quiet_seq (change_drafts hset a.privileged) Sys.Calm.quiet (.refl w)
      (fun w' hw' _ => ⟨hw', fun _ h => by cases h⟩) ?_
    rintro ⟨code, s'⟩ w' ⟨hlock', hdrafts⟩ hw'
    have hholds : a.Holds (a.setS (some s')) (some s') true := ⟨rfl, hnew, rfl, rfl, rfl⟩
    exact DraftEnd.replied hw' hholds rfl hlock hlock' hdrafts agentOk

/-- `KEY_GENERATE` on a draft. -/
theorem draft_generate (hnew : a.newState = true) (hs : a.s = some s) (hlock : s.lock = -1)
    (htype : req.type = .keyGenerate) :
    wp (Sys.exec me) (requestExecute crypto cfg a req) (DraftEnd crypto cfg a s req w) w := by
  have hsetter : ¬ req.IsSetter := by
    unfold Request.IsSetter
    rw [htype]
    decide
  unfold requestExecute
  simp only [htype, hs]
  refine wp_seq (pppKeyGenerate_spec _ hlock) (fun w' h => ⟨h.1, fun _ h => by cases h⟩) ?_
  rintro ⟨retval, s'⟩ w' ⟨hw', hr⟩
  have hholds : a.Holds (a.setS (some s')) (some s') true := ⟨rfl, hnew, rfl, rfl, rfl⟩
  rcases hr retval s' rfl with ⟨hret, rfl⟩ | ⟨rfl, ⟨pool, rfl⟩, -⟩
  · exact DraftEnd.replied hw' hholds rfl hlock rfl
      (.refused hret fun h => absurd h hsetter) agentOk
  · exact DraftEnd.replied hw' hholds rfl hlock (State.generated_lock pool)
      (.generated pool htype) agentOk

/-- The effect of a request that only reads, on a draft. -/
theorem Effect.reads {r : Option (ℕ × Agent)} (hro : req.ReadOnly) (hnew : a.newState = true)
    (h : Effect crypto cfg me a w req r w') : w'.Keeps w ∧ ∀ ret a', r = some (ret, a') →
      ∃ s', a.Holds a' s' a.newState ∧
        (s' = a.s ∨ ∃ s s1, a.s = some s ∧ s' = some s1 ∧ ReadEnds s req s1) := by
  have hother {type : ReqType} (htype : req.type = type) (hdec : type ∉ [ReqType.flagGet, .getNum,
      .getInt, .getStr, .getPasscode, .getPrompt, .getWarnings, .getAlphabet]) : False := by
    unfold Request.ReadOnly at hro
    rw [htype] at hro
    exact hdec hro
  have hold (h : a.newState = false) : False := by rw [hnew] at h; cases h
  cases h with
  | refused hw hr => exact ⟨hw, fun ret a' h => ⟨a.s, (hr ret a' h).2, .inl rfl⟩⟩
  | read _ hw hr => exact ⟨hw, hr⟩
  | dropped hwhy =>
    rcases hwhy with htype | hnew'
    · simp only [List.mem_cons, List.not_mem_nil, or_false] at htype
      rcases htype with h | h | h <;> exact (hother h (by decide)).elim
    · exact (hold hnew').elim
  -- the effects of the other requests
  | changed s s' retval _ hs hsets =>
    unfold Request.ReadOnly at hro
    unfold Request.Sets at hsets
    cases htype : req.type <;> rw [htype] at hro hsets <;> first
      | exact hsets.elim
      | exact absurd hro (by decide)
  | unset s s' lock e retval hnew' => exact (hold hnew').elim
  | set s s' lock e hnew' => exact (hold hnew').elim
  | switched htype | created htype | loaded htype | put htype | generated htype | removed htype
  | cleared htype => exact (hother htype (by decide)).elim
  | tried htype | counted htype =>
    rcases htype with h | h <;> exact (hother h (by decide)).elim

/-- A request that only reads, on a draft. -/
theorem draft_read (hok : a.Ok) (hnew : a.newState = true) (hs : a.s = some s)
    (hlock : s.lock = -1) (hro : req.ReadOnly) (hprompt : req.type ≠ .getPrompt)
    {r : Option (ℕ × Agent)} (hrun : handled crypto cfg me a w req = (r, w')) :
    DraftEnd crypto cfg a s req w r w' := by
  have hhandling : Handling crypto cfg me a w req r w' := by
    have h := @handled_handling crypto cfg me a req w hok
    rwa [hrun] at h
  have hsetter : ¬ req.IsSetter := by
    unfold Request.ReadOnly at hro
    unfold Request.IsSetter
    cases htype : req.type <;> rw [htype] at hro <;> revert hro <;> decide
  have hends : w'.Keeps w ∧ ∀ ret a', r = some (ret, a') → ∃ prompt,
      a.Holds a' (some (s.setPrompt prompt)) true := by
    rcases hhandling with ⟨hw, hr⟩ | ⟨-, -, heffect⟩
    · refine ⟨hw, fun ret a' h => ⟨s.prompt, ?_⟩⟩
      rw [State.setPrompt_self, ← hs, ← hnew]
      exact (hr ret a' h).2
    · obtain ⟨hw, hr⟩ := heffect.reads hro hnew
      refine ⟨hw, fun ret a' h => ?_⟩
      -- a getter changes at most the prompt in the draft
      obtain ⟨s1, hholds, rfl | ⟨s2, s3, hs2, rfl, hread⟩⟩ := hr ret a' h
      · refine ⟨s.prompt, ?_⟩
        rw [State.setPrompt_self, ← hs, ← hnew]
        exact hholds
      · cases hs.symm.trans hs2
        rw [ReadEnds, if_neg hprompt] at hread
        obtain ⟨prompt, rfl⟩ := hread
        rw [hnew] at hholds
        exact ⟨prompt, hholds⟩
  refine ⟨hends.1, fun a' ha' => ?_⟩
  subst ha'
  obtain ⟨prompt, hholds⟩ := hends.2 0 a' rfl
  have hl : a'.locked = false := Agent.locked_some hholds.s hlock
  rcases handled_once hrun with ⟨hdr, hsent, -⟩ | ⟨-, hret | hlocked⟩
  · exact ⟨_, hdr, hholds, hsent, rfl, .kept hdr.status prompt (fun _ => hro) fun h =>
      absurd h hsetter⟩
  · exact absurd rfl hret
  · -- a draft has no lock
    replace hlocked : a'.locked = true := hlocked
    rw [hl] at hlocked
    cases hlocked

/-- A request on a draft. -/
theorem draft_step (hok : a.Ok) (hnew : a.newState = true) (hs : a.s = some s)
    (hlock : s.lock = -1) (hreq : req.Drafting) {r : Option (ℕ × Agent)}
    (hrun : handled crypto cfg me a w req = (r, w')) : DraftEnd crypto cfg a s req w r w' := by
  have hl : a.locked = false := Agent.locked_some hs hlock
  -- what the policy refuses, and what is executed
  have hallowed (htype : req.type ≠ .stateNew)
      (hexecute : wp (Sys.exec me) (requestExecute crypto cfg a req)
        (DraftEnd crypto cfg a s req w) w) : DraftEnd crypto cfg a s req w r w' := by
    have hwp : wp (Sys.exec me) (requestHandle crypto cfg a req)
        (DraftEnd crypto cfg a s req w) w := by
      obtain ⟨code, hpolicy⟩ := @requestVerifyPolicy_ret cfg a req htype
      rw [requestHandle, if_neg (by simp [hl]), hpolicy, ret_bind]
      simp only
      by_cases hpol : code = agentErrPolicy
      · rw [if_pos hpol]
        refine DraftEnd.refused hnew hs hlock (by decide) (fun _ => ?_) (.refl w) 0
        rw [← hpol]
        exact requestVerifyPolicy_tells hpolicy (by rw [hpol]; decide)
      rw [if_neg hpol]
      by_cases hcode : code ≠ 0
      · rw [if_pos hcode]
        exact DraftEnd.refused hnew hs hlock hcode
          (fun _ => requestVerifyPolicy_tells hpolicy hcode) (.refl w) code
      · rw [if_neg hcode]
        exact hexecute
    unfold handled at hrun
    rw [wp, hrun] at hwp
    exact hwp
  rcases hreq with hset | htype | ⟨hro, hprompt⟩
  · refine hallowed (fun h => ?_) (draft_setter hnew hs hlock hset)
    unfold Request.IsSetter at hset
    rw [h] at hset
    exact absurd hset (by decide)
  · exact hallowed (by simp [htype]) (draft_generate hnew hs hlock htype)
  · exact draft_read hok hnew hs hlock hro hprompt hrun

/-! ## A run on a draft -/

theorem handled_ok (hok : a.Ok) {retval : ℕ}
    (hrun : handled crypto cfg me a w req = (some (retval, a'), w')) : a'.Ok := by
  have h := @handled_handling crypto cfg me a req w hok
  rw [hrun] at h
  rcases h with ⟨-, hr⟩ | ⟨-, -, heffect⟩
  · exact (hr _ _ rfl).2.ok_same hok
  · exact heffect.ok hok

/-- The databases stay as they are, and the draft is what the replies tell of
it. -/
theorem draft_run (hok : a.Ok) (hnew : a.newState = true) (hs : a.s = some s)
    (hlock : s.lock = -1) {reqs : List Request} (hreqs : ∀ req ∈ reqs, req.Drafting)
    {r : Option (ℕ × Agent)} (hrun : (mainLoop crypto cfg a reqs).run (Sys.exec me) w = (r, w')) :
    w'.Keeps w ∧ ∀ a', r = some (0, a') → ∃ s' log, a.Holds a' (some s') true ∧ a'.Ok ∧
      log.map Prod.fst = reqs ∧
      a'.sent.map Header.status = a.sent.map Header.status ++ log.map Prod.snd ∧
      DraftLog crypto cfg s log s' := by
  induction reqs generalizing a s w with
  | nil =>
    cases hrun
    refine ⟨.refl w', fun a' ha' => ?_⟩
    cases ha'
    refine ⟨s, [], ⟨hs, hnew, rfl, rfl, rfl⟩, hok, rfl, ?_, .nil s⟩
    rw [List.map_nil, List.append_nil]
  | cons req reqs ih =>
    rcases hx : handled crypto cfg me a w req with ⟨r1, w1⟩
    obtain ⟨hw1, hstep⟩ := draft_step hok hnew hs hlock (hreqs req List.mem_cons_self) hx
    by_cases hgoes : ∃ a1, r1 = some (0, a1)
    · -- the main loop goes on with the draft that this request left
      obtain ⟨a1, rfl⟩ := hgoes
      obtain ⟨s1, hdr, hholds, hsent, hlock1, hdrafts⟩ := hstep a1 rfl
      rw [mainLoop_cons hx] at hrun
      obtain ⟨hw', hrest⟩ := ih (handled_ok hok hx) hholds.newState hholds.s (hlock1.trans hlock)
        (fun req h => hreqs req (List.mem_cons_of_mem _ h)) hrun
      refine ⟨hw'.trans hw1, fun a' ha' => ?_⟩
      obtain ⟨s', log, hholds', hok', hfst, hstatus, hlog⟩ := hrest a' ha'
      refine ⟨s', (req, hdr.status) :: log, ?_, hok', ?_, ?_, .cons hdrafts hlog⟩
      · exact ⟨hholds'.s, hholds'.newState, hholds'.username.trans hholds.username,
          hholds'.privileged.trans hholds.privileged, hholds'.named.trans hholds.named⟩
      · rw [List.map_cons, hfst]
      · rw [hstatus, hsent, List.map_append, List.append_assoc, List.map_cons, List.map_cons]
        rfl
    · -- it ends here, and the requests after it are not read
      have hends : ∀ a1, r1 ≠ some (0, a1) := fun a1 h => hgoes ⟨a1, h⟩
      rw [mainLoop_ends hx hends] at hrun
      cases hrun
      exact ⟨hw1, fun a' ha' => absurd ha' (hends a')⟩

theorem Request.Changes.isSetter (h : req.Changes cfg s s') : req.IsSetter := by
  unfold Request.IsSetter
  cases h <;> simp [*]

/-- A key is new if its generation was answered with success. -/
theorem Request.Drafts.newKey (h : req.Drafts crypto cfg s status s') :
    s'.newKey = true ↔ s.newKey = true ∨ req.type = .keyGenerate ∧ status = agentOk := by
  cases h with
  | kept status prompt hread hsetter =>
    refine (or_iff_left ?_).symm
    intro ⟨htype, hstatus⟩
    have hro := hread hstatus
    unfold Request.ReadOnly at hro
    rw [htype] at hro
    exact absurd hro (by decide)
  | changed s' htype h =>
    have hset := h.isSetter
    rw [h.beside.newKey]
    refine (or_iff_left fun hgen => ?_).symm
    unfold Request.IsSetter at hset
    rw [hgen.1] at hset
    exact absurd hset (by decide)
  | unset htype hunset =>
    exact (or_iff_left fun hgen => by cases htype.symm.trans hgen.1).symm
  | set htype hset hash time =>
    exact (or_iff_left fun hgen => by cases htype.symm.trans hgen.1).symm
  | generated pool htype =>
    have hkey : (s.generated crypto pool).newKey = true := by
      unfold State.generated
      split_ifs <;> rfl
    exact iff_of_true hkey (.inr ⟨htype, rfl⟩)

theorem DraftLog.newKey {log : List (Request × ℕ)} (h : DraftLog crypto cfg s log s') :
    s'.newKey = true ↔
      s.newKey = true ∨ ∃ ev ∈ log, ev.1.type = .keyGenerate ∧ ev.2 = agentOk := by
  induction h with
  | nil s => simp
  | cons h hlog ih =>
    rw [ih, h.newKey]
    simp [or_assoc]

/-! ## The start and the end of a draft -/

/-- `STATE_NEW` and `STATE_DROP` leave the databases as they are, and
`STATE_STORE` does, unless it stores a state with a new key. -/
theorem Handling.ends {r : Option (ℕ × Agent)}
    (htype : req.type ∈ [ReqType.stateNew, .stateStore, .stateDrop])
    (h : Handling crypto cfg me a w req r w') : w'.Keeps w ∨
      req.type = .stateStore ∧ ∃ s, a.s = some s ∧ s.newKey = true ∧ Updated cfg s false w w' := by
  have hother {type : ReqType} (h : req.type = type)
      (hdec : type ∉ [ReqType.stateNew, .stateStore, .stateDrop]) : False := by
    rw [h] at htype
    exact hdec htype
  rcases h with ⟨hw, -⟩ | ⟨-, -, h⟩
  · exact .inl hw
  cases h with
  | refused hw | read _ hw | dropped _ hw | switched _ hw | created _ _ hw | loaded _ _ _ _ _ _ hw
  | generated _ _ _ _ _ hw | changed _ _ _ _ _ _ _ hw | unset _ _ _ _ _ _ _ _ _ _ hw
  | tried _ _ _ hw => exact .inl hw
  | put hstore s hs hkey h => exact .inr ⟨hstore, s, hs, hkey, h⟩
  | set s s' lock e hnew hfresh hsets =>
    unfold Request.Sets at hsets
    cases htype' : req.type <;> rw [htype'] at htype hsets <;> first
      | exact hsets.elim
      | exact absurd htype (by decide)
  | removed h | cleared h => exact (hother h (by decide)).elim
  | counted h => rcases h with h | h <;> exact (hother h (by decide)).elim

/-- A state that `STATE_NEW` is answered with success for. -/
theorem Handling.creates {retval : ℕ} (htype : req.type = .stateNew)
    (h : Handling crypto cfg me a w req (some (retval, a')) w') (hanswer : a.AnsweredOk a') :
    ∃ junk named,
      a.Holds a' (some ((State.initial cfg junk a.username).setNamed named)) true := by
  have hother {type : ReqType} (h : req.type = type) (hdec : type ≠ .stateNew) : False := by
    rw [htype] at h
    exact hdec h.symm
  rcases h with ⟨-, hr⟩ | ⟨-, -, h⟩
  · exact absurd hanswer (hr _ _ rfl).1
  cases h with
  | refused _ hr => exact absurd hanswer (hr _ _ rfl).1
  | created _ _ _ hr => exact hr _ _ rfl
  | dropped _ _ hr => exact absurd hanswer ((hr _ _ rfl).1 (by simp [htype]))
  | tried _ _ _ _ hr => exact absurd hanswer (hr _ _ rfl).1
  | unset _ _ _ _ _ _ _ _ _ _ _ hr => exact absurd hanswer (hr _ _ rfl).1
  | read hro =>
    unfold Request.ReadOnly at hro
    rw [htype] at hro
    exact absurd hro (by decide)
  | changed _ _ _ _ _ hsets | set _ _ _ _ _ _ hsets =>
    unfold Request.Sets at hsets
    rw [htype] at hsets
    exact hsets.elim
  | switched h | loaded h | put h | generated h | removed h | cleared h =>
    exact (hother h (by decide)).elim
  | counted h => rcases h with h | h <;> exact (hother h (by decide)).elim

end

/-- A user who asks for longer codes on the new key. -/
def longerKey : List Request := [longerCodes, .plain .keyGenerate]

end Otpasswd
