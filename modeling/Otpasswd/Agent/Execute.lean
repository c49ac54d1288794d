import Otpasswd.Agent.Reply
import Otpasswd.Libotp.OneTime

/-!
# Otpasswd.Agent.Execute — a request that is executed

Under the condition `Safe` no assertion fails while a request is executed: the
policy is looked at, and then every request by its type, with what it leaves of
the agent.

Main result: `requestExecute_handles`.
-/

namespace Otpasswd

open CText Prog

/-! ## Conditions on a request -/

/-- The policy refuses the request, without looking at the database. -/
def Refused (cfg : Cfg) (a : Agent) (req : Request) : Prop :=
  ∃ code, code ≠ 0 ∧ requestVerifyPolicy cfg a req = .ret (code, a)

/-- The last check of `ppp_skip`. -/
def skipRange (skipTo : Num) (s : State) : ℕ :=
  if 0 ≤ numCmp skipTo s.maxCode then pppErrorRange else 0

/-- What executing a request asserts about the fields of the state held. -/
def Request.AssertsFields (s : State) (req : Request) : Prop :=
  match req.type with
  | .getInt =>
    (PppField.ofNum req.int = .codesOnCard → s.codesOnCard ≠ 0) ∧
      (PppField.ofNum req.int = .codesInRow → s.codesInRow ≠ 0)
  | .getStr =>
    (PppField.ofNum req.int = .prompt → 0 < s.codesOnCard) ∧
      (PppField.ofNum req.int = .username → s.username.val.length < agentArgMax)
  | .getWarnings => 0 < s.codesOnCard
  | .getPasscode | .getPrompt => 2 ≤ s.codeLength.toNat ∧ s.codeLength.toNat ≤ 16
  | _ => True

/-- What the store of a counter asserts: a pending new key is not reached. -/
def Request.AssertsNewKey (cfg : Cfg) (me : Pid) (w : World) (s : State) (req : Request) : Prop :=
  match req.type with
  | .authenticate => s.newKey = true → LoadRefused cfg me s w fun _ => 0
  | .skip => s.newKey = true → LoadRefused cfg me s w (skipRange req.num)
  | _ => True

/-- No assertion fails at the request: it is refused, or what it asserts about
the state held is true, and the user name is there whenever it is used. -/
def Safe (crypto : Crypto) (cfg : Cfg) (me : Pid) (a : Agent) (w : World) (req : Request) : Prop :=
  Refused cfg a req ∨
    (∀ s, a.s = some s → req.AssertsFields s ∧ req.AssertsNewKey cfg me w s) ∧ a.Named ∧
      Copied me (requestHandle crypto cfg a req) w

/-! ## The policy -/

section

variable {crypto : Crypto} {cfg : Cfg} {uid : Uid} {S : Prop} {a : Agent} {req : Request}

/-- Only the policy of `STATE_NEW` looks at the database. -/
theorem requestVerifyPolicy_ret (hnew : req.type ≠ .stateNew) :
    ∃ code, requestVerifyPolicy cfg a req = .ret (code, a) := by
  unfold requestVerifyPolicy
  split <;> first | exact absurd ‹_› hnew | exact ⟨_, rfl⟩

/-- A request was handled; if `goes`, it was answered and the loop goes on. -/
structure Agent.Handled (goes ok : Prop) (a : Agent) (r : ℕ × Agent) : Prop where
  inv : r.2.Ok
  goes : goes → r.1 = 0 ∧ a.Replied ok r.2

/-- A program that handles a request. -/
abbrev Handles (uid : Uid) (S goes : Prop) (a : Agent) (p : SysM (ℕ × Agent)) : Prop :=
  Locks uid S (a.Handled goes True) (fun ok => a.Handled goes ok) p

theorem Replies.handles {goes : Prop} {p : SysM (ℕ × Agent)} (hp : Replies uid S a p) :
    Handles uid S goes a p :=
  Locks.mono hp (fun _ h => ⟨h.2.inv, fun _ => h⟩) fun _ _ h => ⟨h.2.inv, fun _ => h⟩

/-- A reply that needs no work. -/
theorem Agent.Ok.replies (hok : a.Ok) (hl : a.locked = false) (status : ℕ) :
    Replies uid S a (.ret (agentOk, a.sendReply status)) :=
  ⟨rfl, (hok.after hl).reply status⟩

end

/-! ## Execution -/

section

variable {crypto : Crypto} {cfg : Cfg} {uid : Uid} {S : Prop} {a : Agent} {s : State}
  {req : Request}

/-- The agent that holds no state any more. -/
theorem Agent.After.dropped (a : Agent) : a.After True ((a.setNewState false).setS none) :=
  ⟨.hold (fun _ h => nomatch h) rfl, rfl, fun _ => rfl⟩

theorem userSet_leaves (hok : a.Ok) (hl : a.locked = false) (spec : CString) :
    Leaves uid S a (userSet cfg a spec) := by
  refine Sound.leaves (sound_call fun username => ?_)
  rcases username with _ | username
  · exact hok.after hl
  refine sound_call fun named => ?_
  rcases hs : a.s with _ | s
  · have hs' : (a.setUsername username named).s = none := hs
    simp only [hs', Option.isSome_none, Bool.false_eq_true, if_false]
    refine ⟨.hold (fun s h => ?_) (hok.newState_none hs), rfl, fun _ => Agent.locked_none hs⟩
    exact absurd (hs.symm.trans h) (by simp)
  · have hs' : (a.setUsername username named).s = some s := hs
    simp only [hs', Option.isSome_some, if_true, agentStateFini_drop hs' (hok.unlocked hl hs),
      ret_bind]
    exact ⟨.hold (fun _ h => nomatch h) rfl, rfl, fun _ => rfl⟩

theorem agentStateInit_leaves (hS : ¬ Configured cfg uid → S) (hn : a.Named ∨ S) (hok : a.Ok)
    (hs : a.s = none) :
    Leaves uid S a (agentStateInit cfg a true false) := by
  have hnew := hok.newState_none hs
  have hafter (r : ℕ × Agent) (hr : InitLoaded a r) : a.After True r.2 := by
    rcases hr with ⟨-, s, h, hheld, hlock⟩ | ⟨-, h⟩
    · rw [h]
      refine ⟨.hold (fun s' h' => ?_) hnew, rfl, fun _ => Agent.locked_some rfl hlock⟩
      obtain rfl := Option.some.inj h'
      exact hheld
    · rw [h]
      exact hok.after (Agent.locked_none hs)
  exact Locks.mono (agentStateInit_load hS (hn.imp_left Agent.Named.self) hs hnew) hafter fun _ r hr => (hafter r hr).weaken

/-- The store of a state that is not locked: with a new key it locks itself. -/
theorem stateStore_unlocked (hS : ¬ Runs cfg uid s.named → S) (hlock : s.lock = -1) :
    Locks uid S (fun r => r.2.lock = -1) (fun _ r => r.2.named = s.named)
      (stateStore cfg s false) := by
  refine (until_assert_bind _).mpr ⟨fun _ => ?_, fun h => absurd (by simp) h⟩
  cases hnew : s.newKey with
  | false =>
    rw [if_neg Bool.false_ne_true, if_pos (by omega)]
    exact hlock
  | true =>
    rw [if_pos rfl]
    refine (until_assert_bind _).mpr ⟨fun _ => ?_, fun h => absurd (by omega) h⟩
    refine (stateLock_locks hS hlock).bind ?_ ?_
    · rintro ⟨ret, s1⟩ ⟨hret, rfl⟩
      simp only
      rw [if_pos hret.1]
      exact hlock
    rintro ok _ ⟨fd, rfl⟩
    simp only
    rw [if_neg (by simp)]
    by_cases hheld : (s.setLock fd.val).lock ≤ 0
    · rw [if_pos hheld]
      rfl
    rw [if_neg hheld]
    have hpos : 0 < ((s.setLock fd.val).setNewKey false).lock := not_le.mp hheld
    have hS' : ¬ Runs cfg uid ((s.setLock fd.val).setNewKey false).named → S := hS
    refine (stateWrite_ends hS' false hpos).bind ?_
    rintro ⟨ret, s2⟩ h2
    obtain rfl : s2 = (s.setLock fd.val).setNewKey false := h2
    refine (stateUnlock_ends _ hS').bind ?_
    rintro ⟨ret', s3⟩ (⟨h3, -⟩ | h3)
    · obtain rfl : s3 = _ := h3
      rfl
    · obtain rfl : s3 = _ := h3
      rfl

theorem agentStateFini_leaves (hS : ¬ Configured cfg uid → S) (hn : a.Named ∨ S) (hok : a.Ok)
    (hl : a.locked = false) (store : Bool) :
    Leaves uid S a (agentStateFini cfg a { store := store }) := by
  rcases hs : a.s with _ | s
  · rw [agentStateFini_none hs (by simp)]
    exact hok.after hl
  · have hruns := Configured.stops hS (hn.imp_left (·.state s hs))
    have hrelease : Locks uid S (fun r => r.2.lock = -1) (fun _ r => r.2.named = s.named)
        (pppReleaseStore cfg s { store := store }) := by
      cases store with
      | false => exact hok.unlocked hl hs
      | true => exact stateStore_unlocked hruns (hok.unlocked hl hs)
    have hafter (r : ℕ × Agent) (hr : r.2 = (a.setNewState false).setS none) :
        a.After True r.2 := by
      rw [hr]
      exact .dropped a
    exact Locks.mono (agentStateFini_locks hruns hs (by simp) rfl hrelease) hafter
      fun _ r hr => (hafter r hr).weaken

theorem keyGenerate_replies (hS : ¬ Configured cfg uid → S) (hn : a.Named ∨ S) (hok : a.Ok)
    (hl : a.locked = false) (hs : a.s = some s) (flags : PppOptions) :
    Replies uid S a (do
      let (retval, s) ← pppKeyGenerate crypto cfg s flags
      return (agentOk, (a.setS (some s)).sendReply retval)) := by
  have hreplied {ok : Prop} (r : ℕ × State) (hr : r.2.Held a.username ∧ r.2.lock = -1) :
      a.Replied ok ((a.setS (some r.2)).sendReply r.1) :=
    (Agent.after_setS hr.1 fun _ => hr.2).reply r.1
  exact (pppKeyGenerate_locks hS (hn.imp_left (·.state s hs)) (hok.held s hs) (hok.unlocked hl hs) flags).bind
    (fun r hr => ⟨rfl, hreplied r hr⟩) fun _ r hr => ⟨rfl, hreplied r hr⟩

theorem keyRemove_leaves (hS : ¬ Configured cfg uid → S) (hn : a.Named ∨ S) (hok : a.Ok)
    (hl : a.locked = false) (hs : a.s = none) :
    Leaves uid S a (do
      let (retval, a) ← agentStateInit cfg a true true
      if retval ≠ 0 then return (retval, a) else agentStateFini cfg a { remove := true }) := by
  refine (agentStateInit_locks hS (hn.imp_left Agent.Named.self) hs (hok.newState_none hs)).bind
    ?_ ?_
  · rintro ⟨ret, a'⟩ ⟨hret, rfl⟩
    simp only
    rw [if_pos hret]
    exact hok.after hl
  · rintro ok ⟨ret, a'⟩ hr
    replace hr : InitHeld S a ret a' := hr
    cases hr with
    | failed _ hret =>
      simp only
      rw [if_pos hret]
      exact (hok.after hl).weaken
    | held s hheld hnew hnamed =>
      have hruns := Configured.stops hS hnamed
      simp only
      rw [if_neg (by simp)]
      have hrelease : Ends uid ok S (fun r => r.2.named = s.named)
          (pppReleaseStore cfg s { remove := true }) :=
        (stateStore_ends hruns true hnew).mono (fun _ h => h) (fun _ h => h) fun _ h =>
          congrArg State.named h
      refine (agentStateFini_ends hruns rfl (by simp) rfl hrelease).mono (fun _ h => h)
        (fun _ h => h) ?_
      rintro ⟨ret', a'⟩ h
      simp only at h
      subst h
      exact (Agent.After.dropped a).weaken

/-- The agent after `ppp_increment` or `ppp_skip` on its state. -/
theorem CounterHeld.after {ok : Prop} (hh : s.Held a.username) {fin : State → State}
    (hfin : ∀ s : State, s.Beside (fin s)) {ret : ℕ} {s' : State} (h : CounterHeld ok s fin ret s') :
    a.After ok (a.setS (some s')) := by
  cases h with
  | failed _ hret hsame hrow hlock hok =>
    refine Agent.after_setS ⟨⟨?_, ?_, ?_⟩, hlock, hrow hh.row⟩ hok
    · exact hsame.username.trans hh.username
    · exact hsame.saltMask.trans hh.saltMask
    · exact hsame.codeMask.trans hh.codeMask
  | done lock e hv hrange hlock hok =>
    have hloaded : (s.loaded lock e).Held a.username :=
      ⟨⟨hh.username, hh.saltMask, hh.codeMask⟩, hlock, calculate_rowOk _⟩
    have hfin' := hfin (s.loaded lock e)
    exact Agent.after_setS (hloaded.beside hfin') fun h => hfin'.lock.trans (hok h)

theorem NotHeld.after {ok : Prop} (hh : s.Held a.username) (hlock : s.lock = -1) {r : ℕ × State}
    (h : NotHeld s r) : a.After ok (a.setS (some r.2)) := by
  rw [h.2]
  exact Agent.after_setS hh fun _ => hlock

theorem beside_skipCounter (skipTo : Num) (s : State) : s.Beside (skipCounter skipTo s) :=
  ⟨⟨rfl, rfl, rfl, rfl, rfl⟩, rfl, rfl⟩

theorem skip_leaves (hS : ¬ Configured cfg uid → S) (hn : a.Named ∨ S) (hok : a.Ok)
    (hl : a.locked = false) (hs : a.s = some s) (hnew : s.newKey = true → S) (skipTo : Num) :
    Leaves uid S a (do
      let (retval, s) ← pppSkip cfg s skipTo
      return (retval, a.setS (some s))) := by
  have hruns := Configured.stops hS (hn.imp_left (·.state s hs))
  have hlock := hok.unlocked hl hs
  refine (pppSkip_locks hruns hlock hnew skipTo).bind (fun r h => ?_) fun ok r h => ?_
  · exact h.after (hok.held s hs) hlock
  · exact CounterHeld.after (hok.held s hs) (beside_skipCounter skipTo) h

theorem setSpass_leaves (hS : ¬ Configured cfg uid → S) (hn : a.Named ∨ S) (hok : a.Ok)
    (hl : a.locked = false) (spass : Option CString) : Leaves uid S a (setSpass crypto cfg a spass) := by
  have heq : setSpass crypto cfg a spass = atomical cfg a fun a s =>
      pppSetSpass crypto cfg s spass (!a.privileged) >>= fun r =>
        agentStateFiniAtomical cfg (a.setS (some r.2)) 0 >>= fun q =>
          .ret (if q.1 = 0 then r.1 else q.1, q.2) := rfl
  rw [heq]
  exact atomical_locks hS hn hok hl (Agent.Setter.beside hS Prod.snd (fun _ => 0)
    (fun r q => if q = 0 then r.1 else q) fun _ s _ => State.Beside.setSpass spass _)

/-- The check of the passcode, on a state that was just incremented. -/
theorem pppAuthenticate_ret {lock : ℤ} {e : Entry} (hv : e.Valid) (passcode : List Char) :
    ∃ ret, pppAuthenticate crypto cfg (s.loaded lock e) passcode = .ret ret := by
  have hcodes : 0 < (s.loaded lock e).codesOnCard :=
    calculate_codesOnCard hv.codeLength_ge hv.codeLength_le
  have hlen : 2 ≤ (s.loaded lock e).codeLength.toNat ∧ (s.loaded lock e).codeLength.toNat ≤ 16 :=
    ⟨hv.codeLength_ge, hv.codeLength_le⟩
  obtain ⟨v, h, -⟩ := @pppGetPasscode_ret crypto cfg _ hlen (s.loaded lock e).counter
  unfold pppAuthenticate
  simp only [pppStateVerify_eq hcodes, h, ret_bind]
  split_ifs <;> exact ⟨_, rfl⟩

theorem authenticate_leaves (hS : ¬ Configured cfg uid → S) (hn : a.Named ∨ S) (hok : a.Ok)
    (hl : a.locked = false) (hs : a.s = some s) (hnew : s.newKey = true → S) (passcode : List Char) :
    Leaves uid S a (do
      let (retval, s) ← pppIncrement cfg s
      let a := a.setS (some s)
      if retval ≠ 0 then return (retval, a)
      else return (← pppAuthenticate crypto cfg s passcode, a)) := by
  have hruns := Configured.stops hS (hn.imp_left (·.state s hs))
  have hlock := hok.unlocked hl hs
  have hheld := hok.held s hs
  refine (pppIncrement_locks hruns hlock hnew).bind ?_ ?_
  · rintro ⟨ret, s'⟩ h
    simp only
    rw [if_pos h.1.1]
    exact h.after hheld hlock
  · rintro ok ⟨ret, s'⟩ h
    replace h : CounterHeld ok s id ret s' := h
    have hafter : a.After ok (a.setS (some s')) := h.after hheld fun s => .refl s
    simp only
    by_cases hret : ret ≠ 0
    · rw [if_pos hret]
      exact hafter
    rw [if_neg hret]
    cases h with
    | failed _ hne => exact absurd hne hret
    | done lock e hv =>
      obtain ⟨ret', h'⟩ := @pppAuthenticate_ret crypto cfg s lock e hv passcode
      rw [id, h']
      exact hafter

/-! ### All requests -/

/-- When a request that is executed is answered and the loop goes on. -/
def Request.Answered (a : Agent) (req : Request) : Prop :=
  match req.type with
  | .disconnect | .other => False
  | .stateLoad => a.s = none
  | _ => True

/-- Whether the request runs into a pending new key. -/
def Request.NewKey (a : Agent) (req : Request) : Prop :=
  (req.type = .authenticate ∨ req.type = .skip) ∧ ∃ s, a.s = some s ∧ s.newKey = true

theorem requestExecute_handles (hS : ¬ Configured cfg uid → S) (hn : a.Named ∨ S)
    (hcustom : cfg.alphabetCustom.length < configAlphabetLen) (hok : a.Ok) (hl : a.locked = false)
    (hsup : req.Supported) (hfields : ∀ s, a.s = some s → req.AssertsFields s)
    (hnew : req.NewKey a → S) (htype : req.type ≠ .stateNew) :
    Handles uid S (req.Answered a) a (requestExecute crypto cfg a req) := by
  have hafter := @Agent.Ok.after True a hok hl
  have hreplies (status : ℕ) : Replies uid S a (.ret (agentOk, a.sendReply status)) :=
    hok.replies hl status
  -- the setters differ only in the change, the getters only in what they put in the header
  have hsetter {change : State → SysM (ℕ × State)}
      (h : ∀ s, ∃ r, change s = .ret r ∧ s.Beside r.2) :
      Replies uid S a (replyWith (atomically cfg a change)) := by
    refine Leaves.reply (atomically_locks hS hn hok hl fun s _ => ?_)
    obtain ⟨r, hr, hb⟩ := h s
    rw [hr]
    exact hb
  have hpure {f : State → SysM (ℕ × Agent)} (h : ∀ s, a.s = some s → ∃ r a', f s = .ret (r, a') ∧
      a.SameState a') : Replies uid S a (withState a f) := by
    refine withState_replies hok hl fun s hs => ?_
    obtain ⟨r, a', h', hsame⟩ := h s hs
    rw [h']
    exact hafter.same hsame
  unfold Request.Supported at hsup
  unfold Request.AssertsFields at hfields
  unfold requestExecute
  cases hreq : req.type with
  | other => simp [hreq] at hsup
  | stateNew => exact absurd hreq htype
  | disconnect =>
    have hgoes : ¬ req.Answered a := by simp [Request.Answered, hreq]
    rcases hs : a.s with _ | s
    · -- no state is held: the loop ends without a reply
      exact ⟨hok, fun h => absurd h hgoes⟩
    · simp only [Option.isSome_some, if_true, agentStateFini_drop hs (hok.unlocked hl hs), ret_bind]
      exact ⟨(Agent.After.dropped a).inv, fun h => absurd h hgoes⟩
  | userSet => exact (Leaves.reply (userSet_leaves hok hl req.str)).handles
  | stateLoad =>
    rcases hs : a.s with _ | s
    · exact (Leaves.reply (agentStateInit_leaves hS hn hok hs)).handles
    · -- a state is held: the load is refused without a reply
      refine ⟨hok, fun h => ?_⟩
      simp [Request.Answered, hreq, hs] at h
  | stateStore => exact (Leaves.reply (agentStateFini_leaves hS hn hok hl true)).handles
  | stateDrop => exact (Leaves.reply (agentStateFini_leaves hS hn hok hl false)).handles
  | keyGenerate =>
    rcases hs : a.s with _ | s
    · exact (hreplies _).handles
    · exact (keyGenerate_replies hS hn hok hl hs _).handles
  | keyRemove =>
    rcases hs : a.s with _ | s
    · exact (Leaves.reply (keyRemove_leaves hS hn hok hl hs)).handles
    · exact (hreplies _).handles
  | flagAdd => exact (hsetter fun s => State.Beside.changeFlags _).handles
  | flagClear => exact (hsetter fun s => State.Beside.changeFlags _).handles
  | flagGet =>
    refine (hpure fun s _ => ?_).handles
    exact ⟨_, _, rfl, ⟨rfl, rfl, rfl, rfl⟩⟩
  | getNum =>
    simp only [hreq] at hsup
    refine (hpure fun s _ => ?_).handles
    obtain ⟨v, hv⟩ := @pppGetNum_ret s _ hsup
    rw [hv]
    exact ⟨_, _, rfl, ⟨rfl, rfl, rfl, rfl⟩⟩
  | getInt =>
    simp only [hreq] at hsup hfields
    refine (hpure fun s hs => ?_).handles
    obtain ⟨v, hv⟩ := pppGetInt_ret hsup (hfields s hs).1 (hfields s hs).2
    rw [hv]
    exact ⟨_, _, rfl, ⟨rfl, rfl, rfl, rfl⟩⟩
  | getStr =>
    simp only [hreq] at hsup hfields
    refine Replies.handles (Locks.bind (withState_replies hok hl fun s hs =>
      getStr_leaves hok hl hs hsup (hfields s hs).1 (hfields s hs).2) ?_ ?_)
    · rintro ⟨ret, a'⟩ ⟨hret, h⟩
      simp only
      split_ifs
      · exact ⟨hret, h.hdrInit 0⟩
      · exact ⟨hret, h⟩
    · rintro ok ⟨ret, a'⟩ ⟨hret, h⟩
      simp only
      split_ifs
      · exact ⟨hret, h.hdrInit 0⟩
      · exact ⟨hret, h⟩
  | getPasscode =>
    simp only [hreq] at hfields
    exact (withState_replies hok hl fun s hs => getPasscode_leaves hok hl (hfields s hs) _).handles
  | getPrompt =>
    simp only [hreq] at hfields
    exact (withState_replies hok hl fun s hs => getPrompt_leaves hok hl hs (hfields s hs) _).handles
  | getWarnings =>
    simp only [hreq] at hfields
    refine (hpure fun s hs => ?_).handles
    rw [assert, if_pos (hfields s hs), ret_bind]
    exact ⟨_, _, rfl, ⟨rfl, rfl, rfl, rfl⟩⟩
  | updateLatest =>
    simp only
    split_ifs
    · exact (hreplies _).handles
    · exact (hsetter fun s => State.Beside.updateLatest _).handles
  | skip =>
    refine (withState_replies hok hl fun s hs => skip_leaves hS hn hok hl hs (fun h => ?_) _).handles
    -- only the store of a pending key could fail its assertion
    exact hnew ⟨.inr hreq, s, hs, h⟩
  | clearRecentFailures =>
    refine (withState_replies hok hl fun s hs => ?_).handles
    have hn' := hn.imp_left (·.state s hs)
    refine (pppUpdate_locks hS hn' s.username _ fun s => ?_).bind (fun _ _ => hafter)
      fun _ _ _ => hafter.weaken
    split_ifs
    · exact ⟨rfl, rfl, rfl⟩
    · exact ⟨rfl, rfl, rfl⟩
  | authenticate =>
    refine (withState_replies hok hl fun s hs =>
      authenticate_leaves hS hn hok hl hs (fun h => ?_) _).handles
    exact hnew ⟨.inl hreq, s, hs, h⟩
  | getAlphabet => exact (Leaves.reply (getAlphabet_leaves hok hl hcustom _)).handles
  | setInt =>
    simp only [hreq] at hsup
    exact (hsetter fun s => State.Beside.setInt hsup _).handles
  | setStr =>
    simp only [hreq] at hsup
    exact (hsetter fun s => State.Beside.setStr hsup _ _).handles
  | setNum => exact (hreplies _).handles
  | setSpass => exact (Leaves.reply (setSpass_leaves hS hn hok hl _)).handles

end

end Otpasswd
