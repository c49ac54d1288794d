import Otpasswd.Agent.Change
import Otpasswd.Agent.Setter
import Otpasswd.Agent.Handle
import Otpasswd.Agent.ReadOnly

/-!
# Otpasswd.Agent.Effect — the effects of requests

`Effect` lists every way in which executing a request can leave the agent and
the database. What holds over whole runs is derived from it, request by request.

Main results: `pppKeyGenerate_spec` and `keyLoad_keeps`.
-/

namespace Otpasswd

open CText Prog

/-! ## The agent after a request -/

/-- `a'` is the agent `a` with the state `s`; the header and the pipe may have
changed. -/
structure Agent.Holds (a a' : Agent) (s : Option State) (new : Bool) : Prop where
  s : a'.s = s
  newState : a'.newState = new
  username : a'.username = a.username
  privileged : a'.privileged = a.privileged
  named : a'.named = a.named

/-- The request was answered with `AGENT_OK`. -/
def Agent.AnsweredOk (a a' : Agent) : Prop := ∃ h, a'.sent = a.sent ++ [h] ∧ h.status = agentOk

section

variable {a a' a'' : Agent} {s : Option State} {new : Bool}

theorem Agent.Holds.refl (a : Agent) : a.Holds a a.s a.newState := ⟨rfl, rfl, rfl, rfl, rfl⟩

theorem Agent.Holds.reply (h : a.Holds a' s new) (status : ℕ) :
    a.Holds (a'.sendReply status) s new := by
  unfold Agent.sendReply
  simp only
  split_ifs
  · exact ⟨h.s, h.newState, h.username, h.privileged, h.named⟩
  · exact ⟨h.s, h.newState, h.username, h.privileged, h.named⟩

theorem Agent.Holds.hdrInit (h : a.Holds a' s new) (status : ℕ) :
    a.Holds (a'.hdrInit status) s new :=
  ⟨h.s, h.newState, h.username, h.privileged, h.named⟩

theorem Agent.not_answeredOk_self (h : a'.sent = a.sent) : ¬ a.AnsweredOk a' := by
  rintro ⟨hdr, hsent, -⟩
  rw [h] at hsent
  simp at hsent

/-- A reply says `AGENT_OK` only if that is its status. -/
theorem Agent.AnsweredOk.status (hsent : a'.sent = a.sent) {status : ℕ}
    (h : a.AnsweredOk (a'.sendReply status)) : status = 0 := by
  obtain ⟨hdr, hhdr, hstatus⟩ := h
  unfold Agent.sendReply at hhdr
  simp only at hhdr
  split_ifs at hhdr
  · exact absurd ⟨hdr, hhdr, hstatus⟩ (Agent.not_answeredOk_self hsent)
  · rw [hsent] at hhdr
    have heq := List.append_cancel_left hhdr
    rw [List.singleton_inj] at heq
    rw [← heq] at hstatus
    exact hstatus

end

/-- The request is answered with `AGENT_OK`, and the loop goes on. -/
def RepliesOk (crypto : Crypto) (cfg : Cfg) (me : Pid) (a : Agent) (w : World) (req : Request) :
    Prop :=
  ∃ a' w', handled crypto cfg me a w req = (some (0, a'), w') ∧ a.AnsweredOk a'

instance (a a' : Agent) : Decidable (a.AnsweredOk a') :=
  decidable_of_iff (a'.sent.dropLast = a.sent ∧ ∃ h ∈ a'.sent.getLast?, h.status = agentOk) <| by
    constructor
    · rintro ⟨hsent, hdr, hlast, hstatus⟩
      refine ⟨hdr, ?_, hstatus⟩
      rw [← hsent]
      exact (List.dropLast_append_getLast? hdr hlast).symm
    · rintro ⟨hdr, hsent, hstatus⟩
      rw [hsent]
      exact ⟨List.dropLast_concat, hdr, List.getLast?_concat, hstatus⟩

instance (crypto : Crypto) (cfg : Cfg) (me : Pid) (a : Agent) (w : World) (req : Request) :
    Decidable (RepliesOk crypto cfg me a w req) :=
  decidable_of_iff (∃ r ∈ (handled crypto cfg me a w req).1, r.1 = 0 ∧ a.AnsweredOk r.2) <| by
    constructor
    · rintro ⟨⟨_, a'⟩, hr, rfl, hok⟩
      exact ⟨a', _, Prod.ext hr rfl, hok⟩
    · rintro ⟨a', w', hr, hok⟩
      exact ⟨(0, a'), by rw [hr]; rfl, rfl, hok⟩

/-! ## Keys -/

/-- That load succeeds. -/
def KeyFound (cfg : Cfg) (me : Pid) (u : CString) (w : World) : Prop :=
  ∀ retval w', (keyLoad cfg u).run (Sys.exec me) w = (some retval, w') → retval = 0

section

variable {crypto : Crypto} {cfg : Cfg} {me : Pid} {s : State} {w : World}

/-- The check of `ppp_key_generate` leaves the databases as they are. -/
theorem keyLoad_keeps (named : Bool) (u : CString) :
    wp (Sys.exec me) (keyLoad cfg (namePtr named u)) (fun _ w' => w'.Keeps w) w := by
  refine wp_quiet_seq (V := fun _ => True) (P := Sys.Calm) (S := fun _ => False)
    ((sat_issue _).mpr ⟨⟨trivial, id⟩, fun _ _ => trivial⟩) Sys.Calm.quiet (.refl w)
    (fun _ hw _ => hw) fun junk w1 _ hw1 => ?_
  refine wp_quiet_seq (@stateInit_sat cfg _ _ junk named u) Sys.Calm.quiet hw1 (fun _ hw _ => hw)
    fun tmp w2 htmp hw2 => ?_
  refine wp_seq (pppStateRead_spec me cfg tmp w2) (fun w3 h3 => h3.1.trans hw2) ?_
  rintro ⟨ret, tmp'⟩ w3 ⟨hw3, -⟩
  exact wp_quiet_seq (stateFini_sat tmp') Sys.Calm.quiet (hw3.trans hw2) (fun _ hw _ => hw)
    fun _ _ _ hw => hw

/-- The check goes on only with a user name. -/
theorem keyLoad_named {retval : ℕ} {w' : World}
    (hrun : (keyLoad cfg s.name).run (Sys.exec me) w = (some retval, w')) :
    s.name = some s.username := by
  cases hn : s.named with
  | true => exact State.name_eq hn
  | false =>
    rw [State.name, hn] at hrun
    cases congrArg Prod.fst hrun

/-- A key is generated in memory, if the check does not find one. -/
theorem pppKeyGenerate_spec (flags : PppOptions) (hlock : s.lock = -1) :
    wp (Sys.exec me) (pppKeyGenerate crypto cfg s flags) (fun r w' => w'.Keeps w ∧
      ∀ retval s', r = some (retval, s') → retval ≠ 0 ∧ s' = s ∨
        retval = 0 ∧ (∃ pool, s' = s.generated crypto pool) ∧
          (flags.checkPolicy = true ∧ cfg.keyRegeneration = configDisallow →
            ¬ KeyFound cfg me s.username w)) w := by
  have hgen {w1 : World} (hw1 : w1.Keeps w) (hcheck : flags.checkPolicy = true ∧
      cfg.keyRegeneration = configDisallow → ¬ KeyFound cfg me s.username w) :
      wp (Sys.exec me) (stateKeyGenerate crypto s) (fun r w' => w'.Keeps w ∧
        ∀ retval s', r = some (retval, s') → retval ≠ 0 ∧ s' = s ∨
          retval = 0 ∧ (∃ pool, s' = s.generated crypto pool) ∧
            (flags.checkPolicy = true ∧ cfg.keyRegeneration = configDisallow →
              ¬ KeyFound cfg me s.username w)) w1 := by
    refine wp_mono (wp_quiet stateKeyGenerate_sat Sys.Calm.quiet hw1) ?_
    rintro r w2 ⟨hw2, -, hr⟩
    refine ⟨hw2, fun retval s' h => ?_⟩
    rcases hr _ h with hfail | ⟨pool, heq⟩
    · exact .inl hfail
    · obtain ⟨rfl, rfl⟩ := Prod.mk.inj heq
      exact .inr ⟨rfl, ⟨pool, rfl⟩, hcheck⟩
  rw [pppKeyGenerate_eq flags hlock]
  by_cases hpolicy : flags.checkPolicy = true ∧ cfg.keyRegeneration = configDisallow
  · rw [if_pos hpolicy]
    refine wp_seq (wp_and (keyLoad_keeps s.named s.username) wp_run) (fun w1 h1 => ⟨h1.1, by simp⟩) ?_
    rintro retval w1 ⟨hw1, hrun⟩
    by_cases hret : retval = 0
    · rw [if_pos hret]
      refine ⟨hw1, ?_⟩
      rintro _ _ ⟨rfl, rfl⟩
      exact .inl ⟨by simp, rfl⟩
    · rw [if_neg hret]
      have hname := keyLoad_named hrun
      change (keyLoad cfg s.name).run (Sys.exec me) w = (some retval, w1) at hrun
      rw [hname] at hrun
      exact hgen hw1 fun _ hfound => hret (hfound retval w1 hrun)
  · rw [if_neg hpolicy]
    exact hgen (.refl w) fun h => absurd h hpolicy

end

/-! ## Effects -/

/-- The counter that `AUTHENTICATE` or `SKIP` stores. -/
def Request.counter (req : Request) (n : Num) : Num :=
  if req.type = .skip then req.num else numAdd n (numI 1)

/-- What they leave of a state that was loaded. -/
def Request.leaves (req : Request) (s : State) : State :=
  if req.type = .skip then s.setCounter req.num else s

/-- What executing a request can do. The databases are those of before unless
the case says otherwise. -/
inductive Effect (crypto : Crypto) (cfg : Cfg) (me : Pid) (a : Agent) (w : World) (req : Request)
    (r : Option (ℕ × Agent)) (w' : World) : Prop where
  | refused (hw : w'.Keeps w)
      (hr : ∀ ret a', r = some (ret, a') → ¬ a.AnsweredOk a' ∧ a.Holds a' a.s a.newState)
  | read (hro : req.ReadOnly) (hw : w'.Keeps w)
      (hr : ∀ ret a', r = some (ret, a') → ∃ s', a.Holds a' s' a.newState ∧
        (s' = a.s ∨ ∃ s s1, a.s = some s ∧ s' = some s1 ∧ ReadEnds s req s1))
  | dropped (hwhy : req.type ∈ [.disconnect, .stateStore, .stateDrop] ∨ a.newState = false)
      (hw : w'.Keeps w)
      (hr : ∀ ret a', r = some (ret, a') →
        (req.type ≠ .stateDrop → ¬ a.AnsweredOk a') ∧ a.Holds a' none false)
  | switched (htype : req.type = .userSet) (hw : w'.Keeps w)
      (hr : ∀ ret a', r = some (ret, a') →
        a'.s = none ∧ a'.newState = false ∧ a'.privileged = a.privileged)
  | created (htype : req.type = .stateNew) (hs : a.s = none) (hw : w'.Keeps w)
      (hr : ∀ ret a', r = some (ret, a') →
        ∃ junk named,
          a.Holds a' (some ((State.initial cfg junk a.username).setNamed named)) true)
  | loaded (htype : req.type = .stateLoad) (hs : a.s = none) (s : State) (e : Entry)
      (hfresh : s.Fresh a.username)
      (hlook : dbLookup (w.file (dbLoc cfg a.username)) a.username = some e) (hw : w'.Keeps w)
      (hr : ∀ ret a', r = some (ret, a') → a.Holds a' (some (s.loaded (-1) e)) false)
  | put (htype : req.type = .stateStore) (s : State) (hs : a.s = some s)
      (hkey : s.newKey = true) (h : Updated cfg s false w w')
      (hr : ∀ ret a', r = some (ret, a') → a.Holds a' none false)
  | generated (htype : req.type = .keyGenerate) (s : State) (pool : List Byte)
      (hs : a.s = some s)
      (hcheck : a.privileged = false → cfg.keyRegeneration = configDisallow →
        ¬ KeyFound cfg me s.username w)
      (hw : w'.Keeps w)
      (hr : ∀ ret a', r = some (ret, a') → a.Holds a' (some (s.generated crypto pool)) a.newState)
  | removed (htype : req.type = .keyRemove) (hs : a.s = none) (s : State) (lock : ℤ) (e : Entry)
      (hfresh : s.Fresh a.username)
      (hlook : dbLookup (w.file (dbLoc cfg a.username)) a.username = some e)
      (h : Updated cfg (s.loaded lock e) true w w')
      (hr : ∀ ret a', r = some (ret, a') → a.Holds a' none false)
  | changed (s s' : State) (retval : ℕ) (hnew : a.newState = true) (hs : a.s = some s)
      (hsets : req.Sets cfg a.privileged s retval s') (hb : s.Beside s') (hw : w'.Keeps w)
      (hr : ∀ ret a', r = some (ret, a') →
        (a.AnsweredOk a' → retval = 0 ∧ req.type ≠ .setSpass) ∧ a.Holds a' (some s') true)
  | unset (s s' : State) (lock : ℤ) (e : Entry) (retval : ℕ) (hnew : a.newState = false)
      (hfresh : s.Fresh a.username)
      (hlook : dbLookup (w.file (dbLoc cfg a.username)) a.username = some e)
      (hsets : req.Sets cfg a.privileged (s.loaded lock e) retval s')
      (hb : (s.loaded lock e).Beside s') (hw : w'.Keeps w)
      (hr : ∀ ret a', r = some (ret, a') → ¬ a.AnsweredOk a' ∧
        ∃ lock, (s'.setLock lock).LockOk ∧ a.Holds a' (some (s'.setLock lock)) false)
  | set (s s' : State) (lock : ℤ) (e : Entry) (hnew : a.newState = false)
      (hfresh : s.Fresh a.username)
      (hsets : req.Sets cfg a.privileged (s.loaded lock e) 0 s')
      (hb : (s.loaded lock e).Beside s') (h : Replaced cfg a.username e s'.entry w w')
      (hr : ∀ ret a', r = some (ret, a') →
        ∃ lock, (s'.setLock lock).LockOk ∧ a.Holds a' (some (s'.setLock lock)) false)
  | tried (htype : req.type = .authenticate ∨ req.type = .skip) (s : State) (hs : a.s = some s)
      (hw : w'.Keeps w)
      (hr : ∀ ret a', r = some (ret, a') → ¬ a.AnsweredOk a' ∧ ∃ s', s'.Held a.username ∧
        Tried (w.file (dbLoc cfg a.username)) s req.leaves s' ∧ a.Holds a' (some s') a.newState)
  | counted (htype : req.type = .authenticate ∨ req.type = .skip) (s : State) (hs : a.s = some s)
      (e : Entry) (hnew : s.newKey = false) (hallowed : e.Allowed cfg)
      (hskip : req.type = .skip → req.num.toNat < e.maxCode)
      (h : Replaced cfg a.username e { e with counter := req.counter e.counter } w w')
      (hr : ∀ ret a', r = some (ret, a') → ∃ lock, (s.loaded lock e).LockOk ∧
        a.Holds a' (some (req.leaves (s.loaded lock e))) a.newState)
  | cleared (htype : req.type = .clearRecentFailures) (e : Entry)
      (h : Replaced cfg a.username e { e with recentFailures := 0 } w w')
      (hr : ∀ ret a', r = some (ret, a') → a.Holds a' a.s a.newState)

/-! ## Executing a request -/

section

variable {crypto : Crypto} {cfg : Cfg} {me : Pid} {a : Agent} {s : State} {req : Request}
  {w : World}

theorem wp_replyWith {p : SysM (ℕ × Agent)} {P Q : Option (ℕ × Agent) → World → Prop}
    (hp : wp (Sys.exec me) p P w) (habort : ∀ w', P none w' → Q none w')
    (hreply : ∀ retval a' w', P (some (retval, a')) w' → Q (some (0, a'.sendReply retval)) w') :
    wp (Sys.exec me) (replyWith p) Q w :=
  wp_seq hp habort fun r w' h => hreply r.1 r.2 w' h

theorem Effect.stopped {w' : World} (hw : w'.Keeps w) : Effect crypto cfg me a w req none w' :=
  .refused hw (by simp)

/-- A reply that is an error, and no more. -/
theorem Effect.error {a' : Agent} {retval status : ℕ} {w' : World} (hw : w'.Keeps w)
    (hholds : a.Holds a' a.s a.newState) (hsent : a'.sent = a.sent) (hstatus : status ≠ 0) :
    Effect crypto cfg me a w req (some (retval, a'.sendReply status)) w' := by
  refine .refused hw ?_
  rintro _ _ ⟨rfl, rfl⟩
  exact ⟨fun h => hstatus (h.status hsent), hholds.reply status⟩

/-- The reply to a setter. -/
theorem SetterEnd.effect {r q : Option (ℕ × Agent)} {w' : World}
    (h : SetterEnd cfg a (req.Sets cfg a.privileged) w r w')
    (hq : ∀ v a'', q = some (v, a'') → ∃ retval a' status, r = some (retval, a') ∧
      a'' = a'.sendReply status ∧ (status = 0 → retval = 0 ∧ req.type ≠ .setSpass)) :
    Effect crypto cfg me a w req q w' := by
  cases h with
  | created s s' retval hnew hs hC hb hw hr =>
    refine .changed s s' retval hnew hs hC hb hw fun v a'' h => ?_
    obtain ⟨ret', a', status, hret, rfl, hstatus⟩ := hq v a'' h
    obtain ⟨rfl, rfl⟩ := Prod.mk.inj (Option.some.inj (hr.symm.trans hret))
    have hholds : a.Holds (a.setS (some s')) (some s') true := ⟨rfl, hnew, rfl, rfl, rfl⟩
    exact ⟨fun hok => hstatus (hok.status rfl), hholds.reply status⟩
  | failed hw hr =>
    rcases r with _ | ⟨retval, a'⟩
    · refine .refused hw fun v a'' h => ?_
      obtain ⟨_, _, _, hret, -⟩ := hq v a'' h
      cases hret
    · obtain ⟨hnew, hne, rfl⟩ := hr _ _ rfl
      refine .dropped (.inr hnew) hw fun v a'' h => ?_
      obtain ⟨ret', a', status, hret, rfl, hstatus⟩ := hq v a'' h
      obtain ⟨rfl, rfl⟩ := Prod.mk.inj (Option.some.inj hret)
      have hholds : a.Holds (a.setS none) none false := ⟨rfl, hnew, rfl, rfl, rfl⟩
      exact ⟨fun _ hok => hne (hstatus (hok.status rfl)).1, hholds.reply status⟩
  | kept s s' lock e retval hnew hs hlook hC hb hw hr =>
    refine .unset s s' lock e retval hnew hs hlook hC hb hw fun v a'' h => ?_
    obtain ⟨ret', a', status, hret, rfl, hstatus⟩ := hq v a'' h
    obtain ⟨hne, lock', hl, rfl⟩ := hr _ _ hret
    have hholds : a.Holds (a.setS (some (s'.setLock lock'))) (some (s'.setLock lock')) false :=
      ⟨rfl, hnew, rfl, rfl, rfl⟩
    exact ⟨fun hok => hne (hstatus (hok.status rfl)).1, lock', hl, hholds.reply status⟩
  | stored s s' lock e hnew hs hC hb h hr =>
    refine .set s s' lock e hnew hs hC hb h fun v a'' h => ?_
    obtain ⟨ret', a', status, hret, rfl, hstatus⟩ := hq v a'' h
    obtain ⟨-, lock', hl, rfl⟩ := hr _ _ hret
    have hholds : a.Holds (a.setS (some (s'.setLock lock'))) (some (s'.setLock lock')) false :=
      ⟨rfl, hnew, rfl, rfl, rfl⟩
    exact ⟨lock', hl, hholds.reply status⟩

/-- A setter whose change is that of the request. -/
theorem setter_effect (hok : a.Ok) (hl : a.locked = false) (htype : req.type ≠ .setSpass)
    {change : State → SysM (ℕ × State)}
    (hchange : ∀ s, change s = .abort ∨ ∃ retval s', change s = .ret (retval, s') ∧
      req.Sets cfg a.privileged s retval s' ∧ s.Beside s') :
    wp (Sys.exec me) (replyWith (atomically cfg a change)) (Effect crypto cfg me a w req) w := by
  have hspec := @atomically_spec cfg me a w hok hl change (req.Sets cfg a.privileged)
    (fun s uid ok => ?_)
  · refine wp_replyWith hspec (fun w' h => h.effect (by simp)) fun retval a' w' h => h.effect ?_
    rintro _ _ ⟨rfl, rfl⟩
    exact ⟨retval, a', retval, rfl, rfl, fun h => ⟨h, htype⟩⟩
  · rcases hchange s with h | ⟨retval, s', h, hsets, hb⟩
    · rw [h]
      trivial
    · rw [h]
      exact ⟨hsets, hb⟩

theorem pppSetSpass_sat {uid : Uid} {ok : Prop} (spass : Option CString) (checkPolicy : Bool) :
    (pppSetSpass crypto cfg s spass checkPolicy).Sat (Sys.Answers uid ok) Sys.Calm (fun _ => False)
      (fun r => r.1 ≠ 0 ∧ ∃ hash set time, r.2 = s.setSpass hash set time) := by
  have hself : s = s.setSpass s.spass s.spassSet s.spassTime := by
    obtain ⟨⟩ := s
    rfl
  unfold pppSetSpass
  by_cases hpolicy : checkPolicy = true ∧ cfg.spassChange = configDisallow
  · rw [if_pos hpolicy]
    exact ⟨by simp, _, _, _, hself⟩
  rw [if_neg hpolicy]
  rcases spass with _ | spass
  · exact ⟨by simp, _, _, _, rfl⟩
  simp only
  by_cases herrors : checkPolicy = true ∧ verifySpass cfg spass.val ≠ 0
  · rw [if_pos herrors]
    exact ⟨herrors.2, _, _, _, hself⟩
  rw [if_neg herrors]
  refine (sat_issue_bind _).mpr ⟨⟨trivial, id⟩, fun buf _ => ?_⟩
  refine Sat.bind (V := fun _ => True) ?_ fun hash _ => ?_
  · refine (sat_issue_bind _).mpr ⟨⟨trivial, id⟩, fun ok _ => ?_⟩
    split_ifs
    · trivial
    · refine (sat_issue_bind _).mpr ⟨⟨trivial, id⟩, fun salt _ => ?_⟩
      rcases salt with _ | salt <;> trivial
  · refine ⟨⟨trivial, id⟩, fun time _ => ⟨?_, _, _, _, rfl⟩⟩
    simp only [pppErrorSpassSet]
    omega

end

end Otpasswd
