import Otpasswd.Agent.Policy
import Otpasswd.Agent.SetterOk

/-!
# Otpasswd.Agent.Manage — managing a key that was loaded

`STATE_LOAD` is answered with success also for a key that has run out. What is
then asked of the key, to remove it or to change a setting, is done exactly as
long as a passcode is left: the load under the lock gives the lock back
otherwise, and the store refuses a state that is not locked.

Main result: `managed_iff`.
-/

namespace Otpasswd

open CText Prog

/-- The requests that manage a key. -/
def Request.Manages (req : Request) : Prop :=
  req.type ∈ [.keyRemove, .flagAdd, .flagClear, .setStr, .setInt]

theorem Request.Manages.setter {req : Request} (h : req.Manages) (htype : req.type ≠ .keyRemove) :
    req.Setter := by
  unfold Request.Manages at h
  unfold Request.Setter
  cases hreq : req.type <;> simp [hreq] at h htype ⊢

/-- Policy allows the request, and its arguments pass their checks on a state
with this entry. -/
structure Request.Passes (cfg : Cfg) (a : Agent) (e : Entry) (req : Request) : Prop where
  manages : req.Manages
  policy : requestVerifyPolicy cfg a req = .ret (agentOk, a)
  checks : req.type ≠ .keyRemove → ∃ s s' : State, s.entry = e ∧ req.Sets cfg a.privileged s 0 s'

/-- The request is answered with success, and done: the key is removed after
its state was dropped, the changed entry is stored. -/
def Managed (crypto : Crypto) (cfg : Cfg) (me : Pid) (a : Agent) (w : World) (e : Entry)
    (req : Request) : Prop :=
  if req.type = .keyRemove then
    ∃ a1 w1, handled crypto cfg me a w (.plain .stateDrop) = (some (0, a1), w1) ∧
      a.AnsweredOk a1 ∧ ∃ a2 w2, handled crypto cfg me a1 w1 req = (some (0, a2), w2) ∧
        a1.AnsweredOk a2 ∧ dbLookup (w2.file (dbLoc cfg a.username)) a.username = none
  else
    ∃ a1 w1, handled crypto cfg me a w req = (some (0, a1), w1) ∧ a.AnsweredOk a1 ∧
      ∃ s s' : State, s.entry = e ∧ req.Sets cfg a.privileged s 0 s' ∧
        dbLookup (w1.file (dbLoc cfg a.username)) a.username = some s'.entry

/-- The database of the user can be copied, or need not be: the one in a home
directory is removed with its key. -/
def Copies (cfg : Cfg) (u : CString) (req : Request) (w : World) : Prop :=
  CopyableFile u (w.file (dbLoc cfg u)) ∨ req.type = .keyRemove ∧ cfg.db = .user

section

variable {crypto : Crypto} {cfg : Cfg} {me : Pid} {a a' : Agent} {s s' t : State} {e : Entry}
  {req : Request} {w w' : World}

/-! ## Arguments -/

theorem pppSetInt_transfer {field : PppField} {arg : Word32}
    (h : pppSetInt cfg s field arg = .ret (0, s')) (t : State) :
    ∃ t', pppSetInt cfg t field arg = .ret (0, t') := by
  cases field <;> simp only [pppSetInt, pure_eq_ret, reduceCtorEq] at h ⊢
  case failures => exact ⟨_, rfl⟩
  case recentFailures => exact ⟨_, rfl⟩
  case codeLength =>
    split_ifs at h ⊢ with hlen
    · exact absurd (ret_pair h).1 hlen
    · exact ⟨_, rfl⟩
  case alphabet =>
    split_ifs at h ⊢ with halph
    · exact absurd (ret_pair h).1 halph
    · exact ⟨_, rfl⟩
  case flags =>
    split_ifs at h ⊢ with hle hflags
    · exact absurd (ret_pair h).1 (by simp)
    · exact absurd (ret_pair h).1 hflags
    · exact ⟨_, rfl⟩

theorem setStrField_transfer {n : ℕ} {change : ℤ} {set : CBuf n → State → State} {arg : CString}
    {checkPolicy : Bool} (h : setStrField n change set s arg checkPolicy = (0, s')) (t : State) :
    ∃ t', setStrField n change set t arg checkPolicy = (0, t') := by
  unfold setStrField at h ⊢
  split_ifs at h ⊢ with hpolicy hlen hchars
  · exact absurd (Prod.mk.inj h).1 (by simp)
  · exact absurd (Prod.mk.inj h).1 (by simp)
  · exact ⟨_, rfl⟩
  · exact absurd (Prod.mk.inj h).1 (by simp)

/-- The checks look at the arguments and the flags. -/
theorem Request.Sets.transfer (h : req.Sets cfg a.privileged s 0 s') (hmanages : req.Manages)
    (hflags : t.flags = s.flags) : ∃ t', req.Sets cfg a.privileged t 0 t' := by
  unfold Request.Sets at h ⊢
  unfold Request.Manages at hmanages
  cases htype : req.type <;> simp only [htype, List.mem_cons, List.not_mem_nil, reduceCtorEq,
    or_false, or_true, or_self] at h hmanages ⊢
  case flagAdd =>
    have hset : pppSetInt cfg s .flags (s.flags ||| req.int) = .ret (0, s') := h
    obtain ⟨t', ht⟩ := pppSetInt_transfer hset t
    rw [← hflags] at ht
    exact ⟨t', ht⟩
  case flagClear =>
    have hset : pppSetInt cfg s .flags (s.flags &&& ~~~req.int) = .ret (0, s') := h
    obtain ⟨t', ht⟩ := pppSetInt_transfer hset t
    rw [← hflags] at ht
    exact ⟨t', ht⟩
  case setInt => exact pppSetInt_transfer h t
  case setStr =>
    cases hf : PppField.ofNum req.int <;> simp only [pppSetStr, hf, pure_eq_ret, reduceCtorEq] at h ⊢
    case contact =>
      injection h with h
      obtain ⟨t', ht⟩ := setStrField_transfer h t
      exact ⟨t', by rw [ht]⟩
    case label =>
      injection h with h
      obtain ⟨t', ht⟩ := setStrField_transfer h t
      exact ⟨t', by rw [ht]⟩

/-- A setter leaves what does not belong to the entry. -/
theorem Request.Changes.beside (h : req.Changes cfg s s') : s.Beside s' := by
  cases h <;> exact ⟨⟨rfl, rfl, rfl, rfl, rfl⟩, rfl, rfl⟩

/-- The setter on a state that has just been loaded. -/
theorem Request.Passes.change (h : req.Passes cfg a e) (htype : req.type ≠ .keyRemove) (s : State)
    (lock : ℤ) : ∃ s', req.Sets cfg a.privileged (s.loaded lock e) 0 s' ∧
      (s.loaded lock e).Beside s' := by
  obtain ⟨s0, s0', hentry, hsets⟩ := h.checks htype
  have hflags : (s.loaded lock e).flags = s0.flags := by
    have hloaded : (s.loaded lock e).entry.flags = s0.entry.flags := by
      rw [loaded_entry, hentry]
    exact hloaded
  obtain ⟨s', hs'⟩ := hsets.transfer h.manages hflags
  exact ⟨s', hs', hs'.changes.beside⟩

/-- A setter is its change between `_state_init_atomical` and `_state_fini_atomical`. -/
theorem requestExecute_setter (hmanages : req.Manages) (htype : req.type ≠ .keyRemove) :
    ∃ change : State → SysM (ℕ × State),
      requestExecute crypto cfg a req = replyWith (atomically cfg a change) ∧
        ∀ s s', req.Sets cfg a.privileged s 0 s' → change s = .ret (0, s') := by
  unfold Request.Manages at hmanages
  unfold requestExecute Request.Sets
  cases hreq : req.type <;> simp only [hreq, List.mem_cons, List.not_mem_nil, reduceCtorEq,
    or_false, or_true, or_self, ne_eq, not_true_eq_false] at hmanages htype ⊢
  case flagAdd => exact ⟨_, rfl, fun _ _ h => h⟩
  case flagClear => exact ⟨_, rfl, fun _ _ h => h⟩
  case setInt => exact ⟨_, rfl, fun _ _ h => h⟩
  case setStr => exact ⟨_, rfl, fun _ _ h => h⟩

/-! ## Setters -/

/-- What was stored was copied. -/
theorem Stored.copied {u : CString} {line text : List Char} {remove : Bool} {ok : Prop}
    {new : Option (List Char)} (h : Stored cfg u line remove ok (some text) new) :
    cfg.db = .user ∧ remove = true ∨ Copyable u text := by
  cases h with
  | unlinked _ hcfg hremove => exact .inl ⟨hcfg, hremove⟩
  | appended _ pre _ hpre hold =>
    rw [show text = unlines pre from hold]
    exact .inr (.absent pre hpre)
  | replaced pre l post _ hpre hl hu hpost => exact .inr (.once pre l post hpre hl hu hpost)
  | duplicate pre l mid l' rest _ _ hpre hl hu hmid hl' hu' =>
    exact .inr (.twice pre l mid l' rest hpre hl hu hmid hl' hu')

/-- An agent that holds a loaded key, on a system that serves the library. -/
structure Manager (cfg : Cfg) (me : Pid) (a : Agent) (w : World) (e : Entry) : Prop where
  ok : a.Ok
  named : a.named = true
  unlocked : a.locked = false
  stored : a.newState = false
  defLength : 2 ≤ cfg.passcodeDefLength ∧ cfg.passcodeDefLength ≤ 16
  lookup : dbLookup (w.file (dbLoc cfg a.username)) a.username = some e
  max : e.counter.toNat ≤ maxCounter.toNat
  serves : w.Serves cfg me
  free : w.Free

theorem Manager.set (h : Manager cfg me a w e) (hpasses : req.Passes cfg a e)
    (htype : req.type ≠ .keyRemove) :
    Managed crypto cfg me a w e req ↔
      e.InRange ∧ CopyableFile a.username (w.file (dbLoc cfg a.username)) := by
  obtain ⟨change, hexecute, hchange⟩ :=
    @requestExecute_setter crypto cfg a req hpasses.manages htype
  have hchanges (s : State) (lock : ℤ) (_ : s.Fresh a.username) :
      ∃ s', change (s.loaded lock e) = .ret (0, s') ∧ (s.loaded lock e).Beside s' := by
    obtain ⟨s', hsets, hb⟩ := hpasses.change htype s lock
    exact ⟨s', hchange _ _ hsets, hb⟩
  have hhandle := @requestHandle_allowed crypto cfg a req h.unlocked hpasses.policy
  rw [Managed, if_neg htype]
  constructor
  · -- answered OK: so the entry was in range, and its line could be copied
    rintro ⟨a1, w1, hrun, hanswer, -⟩
    have hhandling : Handling crypto cfg me a w req (some (0, a1)) w1 := by
      have hspec := @handled_handling crypto cfg me a req w h.ok
      rwa [hrun] at hspec
    obtain ⟨s, s', lock, e', -, hreplaced⟩ :=
      hhandling.stores (hpasses.manages.setter htype) h.stored hanswer
    constructor
    · -- a key that has run out is refused
      by_contra hrange
      have hspent := atomically_exhausted h.serves h.free h.defLength h.ok h.named h.unlocked
        h.stored h.lookup h.max hrange hchanges
      have hreply : wp (Sys.exec me) (requestHandle crypto cfg a req)
          (fun r _ => ∃ a' : Agent, r = some (0, a'.sendReply 2) ∧ a'.sent = a.sent) w := by
        rw [hhandle, hexecute]
        refine wp_replyWith hspent (by simp) ?_
        rintro retval a2 w2 ⟨a', hr, hsent⟩
        obtain ⟨rfl, rfl⟩ := Prod.mk.inj (Option.some.inj hr)
        exact ⟨a2, rfl, hsent⟩
      obtain ⟨a2, hr, hsent⟩ := hreply
      obtain ⟨-, rfl⟩ := Prod.mk.inj (Option.some.inj ((congrArg Prod.fst hrun).symm.trans hr))
      exact absurd (hanswer.status hsent) (by decide)
    · -- every line in front of the entry was copied
      obtain ⟨-, s0, hname, -, ⟨new, hstored, -⟩, -⟩ := hreplaced
      obtain ⟨text, htext⟩ := exists_text h.lookup
      rw [hname, htext] at hstored
      exact ⟨text, htext, hstored.copied.resolve_left (by simp)⟩
  · -- in range and copied: every call succeeds, so the store does
    rintro ⟨hrange, hcopy⟩
    have hset := atomically_ok h.serves h.free h.defLength h.ok h.named h.unlocked h.stored
      h.lookup hrange hcopy hchanges
    have hreply : wp (Sys.exec me) (requestHandle crypto cfg a req)
        (fun r _ => ∃ a', r = some (0, a') ∧ a.AnsweredOk a') w := by
      rw [hhandle, hexecute]
      refine wp_replyWith hset (by simp) ?_
      rintro retval a1 w1 ⟨s', hr, hlock, -⟩
      obtain ⟨rfl, rfl⟩ := Prod.mk.inj (Option.some.inj hr)
      exact ⟨_, rfl, answeredOk_sendReply (Agent.locked_some rfl hlock) rfl⟩
    obtain ⟨a1, hrun, hanswer⟩ := hreply
    have hhandling : Handling crypto cfg me a w req (some (0, a1))
        (handled crypto cfg me a w req).2 := by
      have hspec := @handled_handling crypto cfg me a req w h.ok
      rwa [show (handled crypto cfg me a w req).1 = some (0, a1) from hrun] at hspec
    obtain ⟨s, s', lock, e', hsets, hreplaced⟩ :=
      hhandling.stores (hpasses.manages.setter htype) h.stored hanswer
    obtain rfl := Option.some.inj (hreplaced.before.symm.trans h.lookup)
    have hv : s'.entry.Valid := by
      refine hsets.valid ?_
      rw [loaded_entry]
      exact dbLookup_valid h.lookup
    exact ⟨a1, _, Prod.ext hrun rfl, hanswer, _, s', loaded_entry _ _ _, hsets,
      hreplaced.lookup_eq hv h.serves.allOk⟩

/-! ## Removal -/

theorem stateDrop_drops (hs : a.s = some s) (hl : a.locked = false) (hlock : s.lock = -1)
    (hnew : a.newState = false) :
    handled crypto cfg me a w (.plain .stateDrop) =
      (some (0, (a.setS none).sendReply agentOk), w) := by
  have hpolicy : requestVerifyPolicy cfg a (.plain .stateDrop) = .ret (agentOk, a) := rfl
  have hexecute : requestExecute crypto cfg a (.plain .stateDrop) =
      .ret (0, (a.setS none).sendReply agentOk) := by
    have hfini := @agentStateFini_drop cfg a s hs hlock
    rw [setNewState_false hnew] at hfini
    simp only [requestExecute, Request.plain, replyWith, hfini, ret_bind]
    rfl
  rw [handled, requestHandle_allowed hl hpolicy, hexecute]
  rfl

/-- What removes a key has copied the rest of the database. -/
theorem Handling.removes (h : Handling crypto cfg me a w req (some (0, a')) w')
    (htype : req.type = .keyRemove) (hanswer : a.AnsweredOk a') :
    ∃ s : State, s.username = a.username ∧ Updated cfg s true w w' := by
  have hsets {s s' : State} {retval : ℕ} (h : req.Sets cfg a.privileged s retval s') : False := by
    unfold Request.Sets at h
    rw [htype] at h
    exact h
  have hother {type : ReqType} (h : req.type = type) (hne : type ≠ .keyRemove) : False :=
    hne (h.symm.trans htype)
  rcases h with ⟨-, hr⟩ | ⟨-, -, heffect⟩
  · exact absurd hanswer (hr _ _ rfl).1
  cases heffect with
  | refused hw hr => exact absurd hanswer (hr _ _ rfl).1
  | read hro hw =>
    unfold Request.ReadOnly at hro
    rw [htype] at hro
    exact absurd hro (by decide)
  | dropped hwhy hw hr => exact absurd hanswer ((hr _ _ rfl).1 (by simp [htype]))
  | switched h => exact (hother h (by decide)).elim
  | created h => exact (hother h (by decide)).elim
  | loaded h => exact (hother h (by decide)).elim
  | put h => exact (hother h (by decide)).elim
  | generated h => exact (hother h (by decide)).elim
  | removed _ hs s lock e hfresh hlook h => exact ⟨s.loaded lock e, hfresh.username, h⟩
  | changed s s' ret hnew hs h => exact (hsets h).elim
  | unset s s' lock e ret hnew hfresh hlook h => exact (hsets h).elim
  | set s s' lock e hnew hfresh h => exact (hsets h).elim
  | tried h =>
    rcases h with h | h
    · exact (hother h (by decide)).elim
    · exact (hother h (by decide)).elim
  | counted h =>
    rcases h with h | h
    · exact (hother h (by decide)).elim
    · exact (hother h (by decide)).elim
  | cleared h => exact (hother h (by decide)).elim

/-- How `KEY_REMOVE` is answered, by whether a passcode is left. -/
theorem keyRemove_answers (h : Manager cfg me a w e) (hs : a.s = none)
    (htype : req.type = .keyRemove)
    (hpolicy : requestVerifyPolicy cfg a req = .ret (agentOk, a)) {text : List Char}
    (htext : w.file (dbLoc cfg a.username) = some text) :
    wp (Sys.exec me) (requestHandle crypto cfg a req) (fun r _ =>
      (e.InRange → cfg.db = .user ∨ Copyable a.username text →
        ∃ a', r = some (0, a') ∧ a.AnsweredOk a') ∧
      (¬ e.InRange → ∃ a' : Agent, r = some (0, a'.sendReply 2) ∧ a'.sent = a.sent)) w := by
  rw [requestHandle_allowed h.unlocked hpolicy]
  unfold requestExecute
  simp only [htype, hs, Option.isSome_none, Bool.false_eq_true, if_false]
  by_cases hrange : e.InRange
  · by_cases hcopy : cfg.db = .user ∨ Copyable a.username text
    swap
    · exact ⟨fun _ h => absurd h hcopy, fun h => absurd hrange h⟩
    refine wp_mono (Q := fun r _ => ∃ a', r = some (0, a') ∧ a.AnsweredOk a') ?_
      fun _ _ h => ⟨fun _ _ => h, fun h => absurd hrange h⟩
    refine wp_replyWith (P := fun r _ => ∃ a', r = some (0, a') ∧ a'.s = none ∧ a'.sent = a.sent)
      ?_ (by simp) ?_
    · -- the entry is loaded under the lock and removed
      refine wp_seq (agentStateInit_ok h.serves h.free h.defLength h.named hs h.stored h.lookup
        h.max) (by simp) ?_
      rintro ⟨ret, a1⟩ w1 ⟨hw1, s, fd, hfresh, hnamed, ⟨-, hr, hholds⟩ | ⟨hspent, -⟩⟩
      swap
      · exact absurd hrange hspent
      obtain ⟨rfl, rfl⟩ := Prod.mk.inj (Option.some.inj hr)
      have hname : (s.loaded fd.val e).username = a.username := hfresh.username
      have htext1 : w1.file (dbLoc cfg (s.loaded fd.val e).username) = some text := by
        rw [hname, hw1.file]
        exact htext
      rw [← hname] at hcopy
      simp only
      rw [if_neg (by simp)]
      exact agentStateFini_remove (s := s.loaded fd.val e) (hw1.serves h.serves) hnamed rfl hfresh.newKey hholds htext1 hcopy
    · rintro retval a2 w2 ⟨a', hr, hnone, hsent⟩
      obtain ⟨rfl, rfl⟩ := Prod.mk.inj (Option.some.inj hr)
      exact ⟨_, rfl, answeredOk_sendReply (Agent.locked_none hnone) hsent⟩
  · refine wp_mono (Q := fun r _ => ∃ a' : Agent, r = some (0, a'.sendReply 2) ∧ a'.sent = a.sent) ?_
      fun _ _ h => ⟨fun h => absurd h hrange, fun _ => h⟩
    refine wp_replyWith (P := fun r _ => ∃ a', r = some (2, a') ∧ a'.sent = a.sent) ?_ (by simp) ?_
    · -- the load refuses it, and the lock is gone when it is to be removed
      refine wp_seq (agentStateInit_ok h.serves h.free h.defLength h.named hs h.stored h.lookup
        h.max) (by simp) ?_
      rintro ⟨ret, a1⟩ w1 ⟨hw1, s, fd, hfresh, hnamed, ⟨hin, -⟩ | ⟨-, hr, -⟩⟩
      · exact absurd hin hrange
      obtain ⟨rfl, rfl⟩ := Prod.mk.inj (Option.some.inj hr)
      simp only
      rw [if_neg (by simp)]
      exact agentStateFini_remove_unlocked (s := (s.loaded fd.val e).setLock (-1))
        (hw1.serves h.serves) hnamed rfl hfresh.newKey rfl
    · rintro retval a2 w2 ⟨a', hr, hsent⟩
      obtain ⟨rfl, rfl⟩ := Prod.mk.inj (Option.some.inj hr)
      exact ⟨_, rfl, hsent⟩

theorem Manager.remove (h : Manager cfg me a w e) (hs : a.s = some s) (hpasses : req.Passes cfg a e)
    (htype : req.type = .keyRemove) :
    Managed crypto cfg me a w e req ↔ e.InRange ∧ Copies cfg a.username req w := by
  have hdrop := @stateDrop_drops crypto cfg me a s w hs h.unlocked (h.ok.unlocked h.unlocked hs)
    h.stored
  have hholds : a.Holds (a.setS none) none false := ⟨rfl, h.stored, rfl, rfl, rfl⟩
  have hdropped := hholds.reply agentOk
  have hdropOk : a.AnsweredOk ((a.setS none).sendReply agentOk) :=
    answeredOk_sendReply (Agent.locked_none rfl) rfl
  generalize (a.setS none).sendReply agentOk = b at *
  -- the state is dropped first, which leaves the entry alone
  have hmanager : Manager cfg me b w e := by
    refine ⟨hdropped.ok_none, hdropped.named.trans h.named, Agent.locked_none hdropped.s,
      hdropped.newState, h.defLength, ?_, h.max, h.serves, h.free⟩
    rw [hdropped.username]
    exact h.lookup
  have hpolicy : requestVerifyPolicy cfg b req = .ret (agentOk, b) := by
    have hcode := hpasses.policy
    simp only [requestVerifyPolicy, htype, unlessPrivileged, pure_eq_ret] at hcode ⊢
    rw [hdropped.privileged, (ret_pair hcode).1]
  obtain ⟨text, htext⟩ := exists_text h.lookup
  have htext' : w.file (dbLoc cfg b.username) = some text := by
    rw [hdropped.username]
    exact htext
  have hanswers := @keyRemove_answers crypto cfg me b e req w hmanager hdropped.s htype hpolicy
    text htext'
  have hcopies : Copies cfg a.username req w ↔ cfg.db = .user ∨ Copyable b.username text := by
    rw [Copies, CopyableFile, htext, hdropped.username, htype]
    constructor
    · rintro (⟨text', heq, hcopy⟩ | ⟨-, hdb⟩)
      · exact .inr (Option.some.inj heq ▸ hcopy)
      · exact .inl hdb
    · rintro (hdb | hcopy)
      · exact .inr ⟨rfl, hdb⟩
      · exact .inl ⟨text, rfl, hcopy⟩
  have hhandling := @handled_handling crypto cfg me b req w hmanager.ok
  rw [Managed, if_pos htype, hdrop, hcopies]
  constructor
  · rintro ⟨a1, w1, heq, -, a2, w2, hrun, hanswer, -⟩
    obtain ⟨hr, rfl⟩ := Prod.mk.inj heq
    obtain ⟨-, rfl⟩ := Prod.mk.inj (Option.some.inj hr)
    rw [hrun] at hhandling
    constructor
    · -- a key that has run out cannot be loaded, and so not be removed
      by_contra hrange
      obtain ⟨a', hreply, hsent⟩ := hanswers.2 hrange
      obtain ⟨-, rfl⟩ := Prod.mk.inj (Option.some.inj ((congrArg Prod.fst hrun).symm.trans hreply))
      exact absurd (hanswer.status hsent) (by decide)
    · obtain ⟨s0, hname, ⟨new, hstored, -⟩, -⟩ := hhandling.removes htype hanswer
      rw [hname, htext'] at hstored
      exact hstored.copied.imp And.left id
  · -- otherwise every call succeeds
    rintro ⟨hrange, hcopy⟩
    obtain ⟨a2, hrun, hanswer⟩ := hanswers.1 hrange hcopy
    rw [show (handled crypto cfg me b w req).1 = some (0, a2) from hrun] at hhandling
    obtain ⟨s0, hname, hupdated⟩ := hhandling.removes htype hanswer
    refine ⟨b, w, rfl, hdropOk, a2, _, Prod.ext hrun rfl, hanswer, ?_⟩
    rw [← hdropped.username, ← hname]
    exact hupdated.lookup_remove

end

/-- After a `STATE_LOAD` that is answered with success, on a system that serves
the library and with no other lock holder, a request that policy and its
arguments allow is answered and done if and only if a passcode of the key is
left and the rest of the database can be copied. -/
theorem managed_iff (crypto : Crypto) (cfg : Cfg) (me : Pid) (a a1 : Agent) (w w1 : World)
    (load req : Request) (e : Entry) (hok : a.Ok) (hload : load.type = .stateLoad)
    (hrun : handled crypto cfg me a w load = (some (0, a1), w1)) (hanswer : a.AnsweredOk a1)
    (hserves : w.Serves cfg me) (hfree : w.Free)
    (he : dbLookup (w.file (dbLoc cfg a.username)) a.username = some e)
    (hpasses : req.Passes cfg a1 e) :
    Managed crypto cfg me a1 w1 e req ↔
      e.justCounter.toNat < e.maxCode ∧ Copies cfg a.username req w1 := by
  obtain ⟨⟨hn, hdef, s, e', hfresh, hlook, hmax, hholds⟩, hw⟩ := stateLoad_loads hok hload hrun hanswer
  obtain rfl := Option.some.inj (he.symm.trans hlook)
  have hfree1 : w1.Free := by
    have h := @stateLoad_free crypto cfg me a e load w hserves hfree hdef hn hload he
    rwa [hrun] at h
  have hheld : (s.loaded (-1) e).Held a.username := hfresh.loaded_held e (.inl rfl)
  have hmanager : Manager cfg me a1 w1 e := by
    refine ⟨hholds.ok_some hheld, hholds.named.trans hn, Agent.locked_some hholds.s rfl, hholds.newState, hdef, ?_, hmax,
      hw.serves hserves, hfree1⟩
    rw [hholds.username, hw.file]
    exact he
  have hrange : e.InRange ↔ e.justCounter.toNat < e.maxCode := ⟨And.right, fun h => ⟨hmax, h⟩⟩
  rw [← hrange, ← hholds.username]
  by_cases htype : req.type = .keyRemove
  · exact hmanager.remove hholds.s hpasses htype
  · have hcopies : Copies cfg a1.username req w1 ↔
        CopyableFile a1.username (w1.file (dbLoc cfg a1.username)) :=
      or_iff_left fun h => htype h.1
    rw [hcopies]
    exact hmanager.set hpasses htype

/-- Passcodes of five characters from now on. -/
def longerCodes : Request := .setInt 3 5

theorem longerCodes_passes {a : Agent} (s : State) : longerCodes.Passes configRoot a s.entry where
  manages := by
    unfold Request.Manages
    decide
  policy := rfl
  checks _ := ⟨s, s.setCodeLength 5, rfl, rfl⟩

/-- The length of a new key's passcodes is changed. -/
theorem managed_iff_longerCodes : ∃ a1 w1,
    handled plainCrypto configRoot 0 (Agent.start alice false) aliceWorld (.plain .stateLoad) =
      (some (0, a1), w1) ∧ (Managed plainCrypto configRoot 0 a1 w1 aliceState.entry longerCodes ↔
        aliceState.entry.justCounter.toNat < aliceState.entry.maxCode ∧
          Copies configRoot alice longerCodes w1) := by
  have hloads : RepliesOk plainCrypto configRoot 0 (Agent.start alice false) aliceWorld
      (.plain .stateLoad) := by decide +kernel
  obtain ⟨a1, w1, hrun, hanswer⟩ := hloads
  refine ⟨a1, w1, hrun, managed_iff plainCrypto configRoot 0 _ a1 aliceWorld w1 _ longerCodes
    aliceState.entry (Agent.start_ok alice false) rfl hrun hanswer (World.boot_serves _ 0)
    (fun _ => rfl) (by decide +kernel) (longerCodes_passes aliceState)⟩

/-- The last passcode of the key is used up. -/
theorem exhausted_not_managed :
    ¬ ∀ (crypto : Crypto) (cfg : Cfg) (me : Pid) (a a1 : Agent) (w w1 : World)
      (load req : Request) (e : Entry), a.Ok → load.type = .stateLoad →
      handled crypto cfg me a w load = (some (0, a1), w1) → a.AnsweredOk a1 →
      w.Serves cfg me → w.Free → dbLookup (w.file (dbLoc cfg a.username)) a.username = some e →
      req.Passes cfg a1 e → Managed crypto cfg me a1 w1 e req := by
  intro h
  have hloads : RepliesOk plainCrypto configRoot 0 (Agent.start alice false) spentWorld
      (.plain .stateLoad) := by decide +kernel
  have hanswers : Along plainCrypto configRoot 0 (fun a w req => req.type = .setInt →
      ¬ RepliesOk plainCrypto configRoot 0 a w req) (Agent.start alice false) spentWorld
        [.plain .stateLoad, longerCodes] := by decide +kernel
  obtain ⟨a1, w1, hrun, hanswer⟩ := hloads
  have hmanaged := h plainCrypto configRoot 0 _ a1 spentWorld w1 _ longerCodes aliceSpent.entry
    (Agent.start_ok alice false) rfl hrun hanswer (World.boot_serves _ 0) (fun _ => rfl)
    (by decide +kernel) (longerCodes_passes aliceSpent)
  obtain ⟨a2, w2, hrun2, hanswer2, -⟩ := hmanaged
  exact (hanswers.2 a1 w1 hrun).1 rfl ⟨a2, w2, hrun2, hanswer2⟩

end Otpasswd
