import Otpasswd.Agent.Held
import Otpasswd.Libotp.Passcode

/-!
# Otpasswd.Agent.Reply — a request and its reply

A request is answered with one header, which is sent unless the state is locked.

Main results: the getters, `getStr_leaves` and its like, and `Leaves.reply`.
-/

namespace Otpasswd

open CText Prog

/-! ## Replies -/

/-- The header aside, nothing of the agent changed. -/
structure Agent.SameState (a a' : Agent) : Prop where
  s : a'.s = a.s
  newState : a'.newState = a.newState
  username : a'.username = a.username
  sent : a'.sent = a.sent

/-- A request was handled: its reply was sent, if `ok`. -/
structure Agent.Replied (ok : Prop) (a a' : Agent) : Prop where
  inv : a'.Ok
  unlocked : ok → a'.locked = false
  sent : ok → ∃ h, a'.sent = a.sent ++ [h]

/-- A program that leaves the agent ready to reply. -/
abbrev Leaves (uid : Uid) (S : Prop) (a : Agent) (p : SysM (ℕ × Agent)) : Prop :=
  Locks uid S (fun r => a.After True r.2) (fun ok r => a.After ok r.2) p

/-- A program that replies and goes on. -/
abbrev Replies (uid : Uid) (S : Prop) (a : Agent) (p : SysM (ℕ × Agent)) : Prop :=
  Locks uid S (fun r => r.1 = 0 ∧ a.Replied True r.2) (fun ok r => r.1 = 0 ∧ a.Replied ok r.2) p

section

variable {cfg : Cfg} {uid : Uid} {ok S : Prop} {a a' a'' : Agent}

theorem Agent.SameState.inv (h : a.SameState a') (hok : a.Ok) : a'.Ok where
  held s hs := by
    rw [h.username]
    exact hok.held s (h.s ▸ hs)
  created hnew := by
    obtain ⟨s, hs⟩ := hok.created (h.newState ▸ hnew)
    exact ⟨s, h.s.trans hs⟩

theorem Agent.SameState.locked (h : a.SameState a') : a'.locked = a.locked := by
  rw [Agent.locked, h.s, Agent.locked]

theorem Agent.After.same (h : a.After ok a') (hs : a'.SameState a'') : a.After ok a'' :=
  ⟨hs.inv h.inv, hs.sent.trans h.sent, fun hok => hs.locked.trans (h.unlocked hok)⟩

theorem sameState_hdrInit (status : ℕ) : a.SameState (a.hdrInit status) := ⟨rfl, rfl, rfl, rfl⟩

theorem sameState_hdrSetStr (v : FieldStr) : a.SameState (a.hdrSetStr v) := ⟨rfl, rfl, rfl, rfl⟩

theorem Agent.After.reply (h : a.After ok a') (status : ℕ) : a.Replied ok (a'.sendReply status) := by
  have hlocked : (a'.sendReply status).locked = a'.locked := by
    simp only [Agent.sendReply]
    split_ifs <;> rfl
  refine ⟨?_, fun hok => hlocked.trans (h.unlocked hok), fun hok => ?_⟩
  · simp only [Agent.sendReply]
    split_ifs
    · exact ⟨h.inv.held, h.inv.created⟩
    · exact ⟨h.inv.held, h.inv.created⟩
  · have hl : ¬ Agent.locked { a' with shdr := { a'.shdr with status := status } } = true := by
      have := h.unlocked hok
      simpa [Agent.locked] using this
    unfold Agent.sendReply
    rw [if_neg hl]
    exact ⟨_, congrArg (· ++ _) h.sent⟩

theorem Agent.Replied.hdrInit (h : a.Replied ok a') (status : ℕ) :
    a.Replied ok (a'.hdrInit status) :=
  ⟨(sameState_hdrInit status).inv h.inv, h.unlocked, h.sent⟩

theorem Leaves.reply {p : SysM (ℕ × Agent)} (hp : Leaves uid S a p) :
    Replies uid S a (replyWith p) :=
  Locks.bind hp (fun _ h => ⟨rfl, h.reply _⟩) fun _ _ h => ⟨rfl, h.reply _⟩

theorem Leaves.ret {r : ℕ} (h : a.After True a') : Leaves uid S a (.ret (r, a')) := h

theorem Agent.After.weaken (h : a.After True a') : a.After ok a' :=
  ⟨h.inv, h.sent, fun _ => h.unlocked trivial⟩

theorem Sound.leaves {p : SysM (ℕ × Agent)} (hp : Sound uid S (fun r => a.After True r.2) p) :
    Leaves uid S a p :=
  Locks.mono (Sound.locks hp) (fun _ h => h) fun _ _ h => h.weaken

/-- A reply without a state is an error, but a reply. -/
theorem withState_replies (hok : a.Ok) (hl : a.locked = false)
    {f : State → SysM (ℕ × Agent)} (hf : ∀ s, a.s = some s → Leaves uid S a (f s)) :
    Replies uid S a (withState a f) := by
  unfold withState
  rcases hs : a.s with _ | s
  · exact ⟨rfl, (hok.after hl).reply _⟩
  · exact Leaves.reply (hf s hs)

/-- The agent with a changed state of the same user. -/
theorem Agent.after_setS {s' : State} (hh : s'.Held a.username) (hlock : ok → s'.lock = -1) :
    a.After ok (a.setS (some s')) := by
  refine ⟨⟨fun s2 h2 => ?_, fun _ => ⟨s', rfl⟩⟩, rfl, fun h => Agent.locked_some rfl (hlock h)⟩
  obtain rfl := Option.some.inj h2
  exact hh

theorem agentHdrSetStr_text {v : List Char} (h : v.length < agentArgMax) :
    agentHdrSetStr a (.text v) = .ret (a.hdrSetStr (.text v)) := by
  simp only [agentHdrSetStr, assert, h, if_true, ret_bind, pure_eq_ret]

end

/-! ## Fields -/

def settableInts : List PppField := [.failures, .recentFailures, .codeLength, .alphabet, .flags]

def gettableInts : List PppField := settableInts ++ [.spassSet, .codesOnCard, .codesInRow]

def gettableNums : List PppField :=
  [.counter, .unsaltedCounter, .currentCard, .latestCard, .maxCard, .maxCode, .spassTime,
    .channelTime]

def settableStrs : List PppField := [.contact, .label]

def gettableStrs : List PppField := [.username, .prompt, .contact, .label, .key]

/-- A type the agent handles, with a field that its getter or setter knows. -/
def Request.Supported (req : Request) : Prop :=
  match req.type with
  | .getInt => PppField.ofNum req.int ∈ gettableInts
  | .setInt => PppField.ofNum req.int ∈ settableInts
  | .getNum => PppField.ofNum req.int ∈ gettableNums
  | .getStr => PppField.ofNum req.int ∈ gettableStrs
  | .setStr => PppField.ofNum req.int ∈ settableStrs
  | .other => False
  | _ => True

section

variable {cfg : Cfg} {s : State} {field : PppField}

theorem State.Beside.setInt (hf : field ∈ settableInts) (arg : Word32) :
    ∃ r, pppSetInt cfg s field arg = .ret r ∧ s.Beside r.2 := by
  simp only [settableInts, List.mem_cons, List.not_mem_nil, or_false] at hf
  rcases hf with rfl | rfl | rfl | rfl | rfl
  · exact ⟨_, rfl, ⟨⟨rfl, rfl, rfl, rfl, rfl⟩, rfl, rfl⟩⟩
  · exact ⟨_, rfl, ⟨⟨rfl, rfl, rfl, rfl, rfl⟩, rfl, rfl⟩⟩
  · simp only [pppSetInt]
    split_ifs
    · exact ⟨_, rfl, .refl s⟩
    · exact ⟨_, rfl, ⟨⟨rfl, rfl, rfl, rfl, rfl⟩, rfl, rfl⟩⟩
  · simp only [pppSetInt]
    split_ifs
    · exact ⟨_, rfl, .refl s⟩
    · exact ⟨_, rfl, ⟨⟨rfl, rfl, rfl, rfl, rfl⟩, rfl, rfl⟩⟩
  · simp only [pppSetInt]
    split_ifs
    · exact ⟨_, rfl, .refl s⟩
    · exact ⟨_, rfl, .refl s⟩
    · exact ⟨_, rfl, ⟨⟨rfl, rfl, rfl, rfl, rfl⟩, rfl, rfl⟩⟩

theorem State.Beside.changeFlags (change : Word32 → Word32) :
    ∃ r, changeFlags cfg change s = .ret r ∧ s.Beside r.2 :=
  @State.Beside.setInt cfg s .flags (by simp [settableInts]) (change s.flags)

theorem State.Beside.setStrField {n : ℕ} {change : ℤ} {set : CBuf n → State → State}
    (hset : ∀ v (s : State), s.Beside (set v s)) (arg : CString) (checkPolicy : Bool) :
    s.Beside (setStrField n change set s arg checkPolicy).2 := by
  unfold Otpasswd.setStrField
  split_ifs
  · exact .refl s
  · exact .refl s
  · exact hset _ _
  · exact .refl s

theorem State.Beside.setStr (hf : field ∈ settableStrs) (arg : CString) (checkPolicy : Bool) :
    ∃ r, pppSetStr cfg s field arg checkPolicy = .ret r ∧ s.Beside r.2 := by
  simp only [settableStrs, List.mem_cons, List.not_mem_nil, or_false] at hf
  have hcontact (v : CBuf stateContactSize) (s : State) : s.Beside (s.setContact v) :=
    ⟨⟨rfl, rfl, rfl, rfl, rfl⟩, rfl, rfl⟩
  have hlabel (v : CBuf stateLabelSize) (s : State) : s.Beside (s.setLabel v) :=
    ⟨⟨rfl, rfl, rfl, rfl, rfl⟩, rfl, rfl⟩
  rcases hf with rfl | rfl
  · exact ⟨_, rfl, .setStrField hcontact arg checkPolicy⟩
  · exact ⟨_, rfl, .setStrField hlabel arg checkPolicy⟩

/-- A field without a setter is an assertion that fails. -/
theorem pppSetInt_ends (field : PppField) (arg : Word32) : pppSetInt cfg s field arg = .abort ∨
    ∃ r, pppSetInt cfg s field arg = .ret r ∧ s.Beside r.2 := by
  by_cases hf : field ∈ settableInts
  · exact .inr (State.Beside.setInt hf arg)
  · left
    cases field <;> first | rfl | exact absurd (by decide) hf

theorem pppSetStr_ends (field : PppField) (arg : CString) (checkPolicy : Bool) :
    pppSetStr cfg s field arg checkPolicy = .abort ∨
      ∃ r, pppSetStr cfg s field arg checkPolicy = .ret r ∧ s.Beside r.2 := by
  by_cases hf : field ∈ settableStrs
  · exact .inr (State.Beside.setStr hf arg checkPolicy)
  · left
    cases field <;> first | rfl | exact absurd (by decide) hf

theorem State.Beside.updateLatest (card : Num) :
    ∃ r, updateLatest card s = .ret r ∧ s.Beside r.2 := by
  unfold Otpasswd.updateLatest
  split_ifs
  · exact ⟨_, rfl, ⟨⟨rfl, rfl, rfl, rfl, rfl⟩, rfl, rfl⟩⟩
  · exact ⟨_, rfl, .refl s⟩

theorem State.Beside.setSpass {uid : Uid} {S : Prop} {crypto : Crypto} (spass : Option CString)
    (checkPolicy : Bool) :
    (pppSetSpass crypto cfg s spass checkPolicy).Sat (Sys.Answers uid False) Sys.Calm
      (Stops S False)
      (fun r => s.Beside r.2) := by
  have hset (hash : Bytes 40) (set : Bool) (time : Word64) : s.Beside (s.setSpass hash set time) :=
    ⟨⟨rfl, rfl, rfl, rfl, rfl⟩, rfl, rfl⟩
  unfold pppSetSpass
  split_ifs
  · exact .refl s
  rcases spass with _ | spass
  · exact hset _ _ _
  simp only
  split_ifs
  · exact .refl s
  refine (sat_issue_bind _).mpr ⟨⟨trivial, id⟩, fun buf _ => ?_⟩
  refine Sat.bind (V := fun _ => True) ?_ fun hash _ => ?_
  · refine (sat_issue_bind _).mpr ⟨⟨trivial, id⟩, fun ok _ => ?_⟩
    split_ifs
    · trivial
    · refine (sat_issue_bind _).mpr ⟨⟨trivial, id⟩, fun salt _ => ?_⟩
      rcases salt with _ | salt <;> trivial
  · exact ⟨⟨trivial, id⟩, fun _ _ => hset _ _ _⟩

/-! ### Getters -/

/-- A string that fits a header. -/
def FieldStr.Fits : FieldStr → Prop
  | .text v => v.length < agentArgMax
  | _ => True

theorem length_promptFormat (row card : List Char) (column : Char) :
    ("Passcode ".toList ++ List.replicate (2 - row.length) ' ' ++ row ++ [column] ++
      " [".toList ++ card ++ "]: ".toList).length =
      15 + (2 - row.length) + row.length + card.length := by
  have h9 : "Passcode ".toList.length = 9 := rfl
  have h2 : " [".toList.length = 2 := rfl
  have h3 : "]: ".toList.length = 3 := rfl
  simp only [List.length_append, List.length_replicate, List.length_singleton, h9, h2, h3]
  omega

theorem length_promptText (s : State) :
    (promptText s).length = 15 + (2 - (Nat.toDigits 10 s.currentRow).length) +
      (Nat.toDigits 10 s.currentRow).length + (Nat.toDigits 10 s.currentCard.toNat).length :=
  length_promptFormat _ _ _

theorem promptText_fits (h : s.RowOk) : (promptText s).length < agentArgMax := by
  have h128 : (2 : ℕ) ^ 128 < 10 ^ 39 := by norm_num
  have h64 : (2 : ℕ) ^ 64 < 10 ^ 20 := by norm_num
  have hrow : (Nat.toDigits 10 s.currentRow).length ≤ 20 :=
    length_toDigits_le (by omega) (by omega) (lt_of_le_of_lt h h64)
  have hcard : (Nat.toDigits 10 s.currentCard.toNat).length ≤ 39 :=
    length_toDigits_le (by omega) (by omega) (lt_trans s.currentCard.toNat_lt h128)
  have hlen := length_promptText s
  clear h64 h128
  simp only [agentArgMax]
  omega

theorem pppGetInt_ret (hf : field ∈ gettableInts)
    (hcard : field = .codesOnCard → s.codesOnCard ≠ 0)
    (hrow : field = .codesInRow → s.codesInRow ≠ 0) : ∃ v, pppGetInt s field = .ret v := by
  simp only [gettableInts, settableInts, List.cons_append, List.nil_append, List.mem_cons,
    List.not_mem_nil, or_false] at hf
  rcases hf with rfl | rfl | rfl | rfl | rfl | rfl | rfl | rfl
  · exact ⟨_, rfl⟩
  · exact ⟨_, rfl⟩
  · exact ⟨_, rfl⟩
  · exact ⟨_, rfl⟩
  · exact ⟨_, rfl⟩
  · exact ⟨_, rfl⟩
  · refine ⟨s.codesOnCard, ?_⟩
    rw [pppGetInt, assert, if_pos (hcard rfl)]
    rfl
  · refine ⟨s.codesInRow, ?_⟩
    rw [pppGetInt, assert, if_pos (hrow rfl)]
    rfl

theorem pppGetNum_ret (hf : field ∈ gettableNums) : ∃ v, pppGetNum s field = .ret v := by
  simp only [gettableNums, List.mem_cons, List.not_mem_nil, or_false] at hf
  rcases hf with rfl | rfl | rfl | rfl | rfl | rfl | rfl | rfl <;> exact ⟨_, rfl⟩

/-- `ppp_get_str`: of the state only the prompt changes. -/
theorem pppGetStr_sound {uid : Uid} {S : Prop} (hf : field ∈ gettableStrs) (hrow : s.RowOk)
    (hcard : field = .prompt → 0 < s.codesOnCard)
    (hname : field = .username → s.username.val.length < agentArgMax) :
    Sound uid S (fun r => r.1.Fits ∧ ∃ prompt, r.2 = s.setPrompt prompt) (pppGetStr s field) := by
  have hself : s = s.setPrompt s.prompt := by
    obtain ⟨⟩ := s
    rfl
  simp only [gettableStrs, List.mem_cons, List.not_mem_nil, or_false] at hf
  rcases hf with rfl | rfl | rfl | rfl | rfl
  · refine ⟨?_, _, hself⟩
    cases s.named with
    | false => trivial
    | true => exact hname rfl
  · refine Sat.bind (V := fun r => (∀ v, r.1 = some v → v.length < agentArgMax) ∧
      ∃ prompt, r.2 = s.setPrompt prompt) ?_ ?_
    · simp only [pppGetPrompt, if_true]
      refine (sat_assert_bind _).mpr ⟨fun _ => ?_, fun h => absurd (hcard rfl) h⟩
      refine sound_call fun ok => ?_
      refine ⟨fun v hv => ?_, _, rfl⟩
      cases ok with
      | false => cases hv
      | true =>
        obtain rfl : promptText s = v := Option.some.inj hv
        exact promptText_fits hrow
    · rintro ⟨prompt, s'⟩ ⟨hfits, hs'⟩
      rcases prompt with _ | v
      · exact ⟨trivial, hs'⟩
      · exact ⟨hfits v rfl, hs'⟩
  · refine ⟨?_, _, hself⟩
    have hlt : s.contact.val.length < 60 := s.contact.length_lt
    simp only [FieldStr.Fits, agentArgMax]
    omega
  · refine ⟨?_, _, hself⟩
    have hlt : s.label.val.length < 30 := s.label.length_lt
    simp only [FieldStr.Fits, agentArgMax]
    omega
  · exact ⟨trivial, _, hself⟩

end

/-! ## Getters of the agent -/

section

variable {crypto : Crypto} {cfg : Cfg} {uid : Uid} {S : Prop} {a : Agent} {s : State} {req : Request}

/-- The agent with the state of a getter in it. -/
theorem Agent.Ok.after_prompt (hok : a.Ok) (hl : a.locked = false) (hs : a.s = some s)
    {s' : State} (hh : s'.Held a.username) (hlock : s'.lock = s.lock) :
    a.After True (a.setS (some s')) := by
  exact Agent.after_setS hh fun _ => hlock.trans (hok.unlocked hl hs)

theorem State.Held.setPrompt {u : CString} (h : s.Held u) (prompt : Option (List Char)) :
    (s.setPrompt prompt).Held u :=
  ⟨⟨h.username, h.saltMask, h.codeMask⟩, h.lock, h.row⟩

theorem getStr_leaves (hok : a.Ok) (hl : a.locked = false) (hs : a.s = some s)
    {field : PppField} (hf : field ∈ gettableStrs)
    (hcard : field = .prompt → 0 < s.codesOnCard)
    (hname : field = .username → s.username.val.length < agentArgMax) :
    Leaves uid S a (do
      let (str, s) ← pppGetStr s field
      let a ← agentHdrSetStr ((a.setS (some s)).hdrInit 0) str
      return (agentOk, a)) := by
  have hheld := hok.held s hs
  refine Sound.leaves ((pppGetStr_sound hf hheld.row hcard hname).bind ?_)
  rintro ⟨str, s'⟩ ⟨hfits, prompt, rfl⟩
  have hafter : a.After True (a.setS (some (s.setPrompt prompt))) :=
    hok.after_prompt hl hs (hheld.setPrompt prompt) rfl
  have hinit := hafter.same (sameState_hdrInit 0)
  rcases str with v | _ | k
  · have hv : v.length < agentArgMax := hfits
    simp only [agentHdrSetStr_text hv, ret_bind]
    exact hinit.same (sameState_hdrSetStr _)
  · exact hinit.same (sameState_hdrSetStr _)
  · exact hinit.same (sameState_hdrSetStr _)

theorem pppGetPasscode_ret (hlen : 2 ≤ s.codeLength.toNat ∧ s.codeLength.toNat ≤ 16) (num : Num) :
    ∃ v, pppGetPasscode crypto cfg s num = .ret (0, v) ∧ v.length ≤ 16 := by
  simp only [pppGetPasscode, assert, hlen, and_self, if_true, ret_bind]
  split_ifs
  · exact ⟨[], rfl, by simp⟩
  · refine ⟨_, rfl, ?_⟩
    rw [passcodeOf, length_passcodeChars]
    exact hlen.2

theorem getPasscode_leaves (hok : a.Ok) (hl : a.locked = false)
    (hlen : 2 ≤ s.codeLength.toNat ∧ s.codeLength.toNat ≤ 16) (num : Num) :
    Leaves uid S a (do
      let (retval, passcode) ← pppGetPasscode crypto cfg s num
      let a ← agentHdrSetStr (a.hdrInit 0) (.text passcode)
      return (retval, a)) := by
  obtain ⟨v, h, hv⟩ := @pppGetPasscode_ret crypto cfg s hlen num
  have hlt : v.length < agentArgMax := by
    simp only [agentArgMax]
    omega
  simp only [h, ret_bind, agentHdrSetStr_text hlt]
  exact ((hok.after hl).same (sameState_hdrInit 0)).same (sameState_hdrSetStr _)

/-- `ppp_get_prompt` for a given counter: what becomes of the state. -/
theorem pppGetPrompt_sound {u : CString} (hh : s.Held u)
    (hlen : 2 ≤ s.codeLength.toNat ∧ s.codeLength.toNat ≤ 16) (counter : Num) :
    Sound uid S (fun r => (∀ v, r.1 = some v → v.length < agentArgMax) ∧ r.2.Held u ∧
      r.2.lock = s.lock) (pppGetPrompt s false counter) := by
  have hcalc (s' : State) (h : s'.codeLength = s.codeLength) :
      pppCalculate s' = .ret (calculate s') := by
    rw [← h] at hlen
    exact pppCalculate_eq hlen.1 hlen.2
  simp only [pppGetPrompt, Bool.false_eq_true, if_false]
  have h1 (c : Num) : pppCalculate (State.setCounter c (State.setCounter counter
      (s.setPrompt none))) = .ret (calculate _) := hcalc _ rfl
  rw [h1, ret_bind]
  refine sound_call fun ok => ?_
  have h2 (c : Num) (prompt : Option (List Char)) : pppCalculate (State.setCounter (numI 0)
      (State.setCounter s.counter ((calculate (State.setCounter c (State.setCounter counter
        (s.setPrompt none)))).setPrompt prompt))) = .ret (calculate _) := hcalc _ rfl
  have h3 : (s.setPrompt none).counter = s.counter := rfl
  rw [h3, h2, ret_bind]
  refine ⟨fun v hv => ?_, ⟨⟨hh.username, hh.saltMask, hh.codeMask⟩, hh.lock, calculate_rowOk _⟩, rfl⟩
  cases ok with
  | false => cases hv
  | true =>
    obtain rfl := Option.some.inj hv
    exact promptText_fits (calculate_rowOk _)

theorem getPrompt_leaves (hok : a.Ok) (hl : a.locked = false) (hs : a.s = some s)
    (hlen : 2 ≤ s.codeLength.toNat ∧ s.codeLength.toNat ≤ 16) (num : Num) :
    Leaves uid S a (do
      let (prompt, s) ← pppGetPrompt s false num
      let a := (a.setS (some s)).hdrInit 0
      match prompt with
      | some text => return (agentOk, ← agentHdrSetStr a (.text text))
      | none => return (agentErr, ← agentHdrSetStr a .null)) := by
  refine Sound.leaves ((pppGetPrompt_sound (hok.held s hs) hlen num).bind ?_)
  rintro ⟨prompt, s'⟩ ⟨hfits, hh, hlock⟩
  have hinit := (hok.after_prompt hl hs hh hlock).same (sameState_hdrInit 0)
  rcases prompt with _ | v
  · exact hinit.same (sameState_hdrSetStr _)
  · simp only [agentHdrSetStr_text (hfits v rfl), ret_bind]
    exact hinit.same (sameState_hdrSetStr _)

theorem length_pppAlphabet (hcustom : cfg.alphabetCustom.length < configAlphabetLen) (id : ℕ) :
    (pppAlphabet cfg id).length < agentArgMax := by
  match id with
  | 0 => exact lt_trans hcustom (by decide)
  | 1 => exact (by decide +kernel : alphabetSimple.length < agentArgMax)
  | 2 => exact (by decide +kernel : alphabetExtended.length < agentArgMax)
  | 3 => exact (by decide +kernel : alphabetSimpleNoVowels.length < agentArgMax)
  | 4 => exact (by decide +kernel : alphabetExtendedNoVowels.length < agentArgMax)
  | _ + 5 => exact (by decide +kernel : alphabetAlpha.length < agentArgMax)

theorem getAlphabet_leaves (hok : a.Ok) (hl : a.locked = false)
    (hcustom : cfg.alphabetCustom.length < configAlphabetLen) (id : ℤ) :
    Leaves uid S a (do
      let (retval, alphabet) := pppAlphabetGet cfg id
      let a ← agentHdrSetStr (a.hdrInit 0) (alphabet.elim .null .text)
      return (retval, a)) := by
  have hinit : a.After True (a.hdrInit 0) := (hok.after hl).same (sameState_hdrInit 0)
  unfold pppAlphabetGet
  by_cases hrange : pppVerifyAlphabet cfg id = pppErrorRange
  · rw [if_pos hrange]
    exact hinit.same (sameState_hdrSetStr _)
  · rw [if_neg hrange]
    simp only [Option.elim, agentHdrSetStr_text (length_pppAlphabet hcustom _), ret_bind]
    exact hinit.same (sameState_hdrSetStr _)

end

end Otpasswd
