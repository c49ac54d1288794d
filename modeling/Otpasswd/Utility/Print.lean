import Otpasswd.Agent.Pipe
import Otpasswd.Agent.SetterOk
import Otpasswd.Utility.CodeRange

/-!
# Otpasswd.Utility.Print — the print actions of the utility

`action_print` of `actions.c` picks a card or a passcode from its argument,
prints it from what the agent answers, and tells the agent afterwards which
card was the latest. `printAction` is a whole run of the utility: the agent is
started and loads the state before the action, and ends with it.

Main results: `getters_of`, the getters answer from the state the agent holds,
and `actionPrint_next`, what an action with the argument `next` prints.
-/

namespace Otpasswd

open CText Prog

/-! ## Queries -/

/-- What the client reads after a request: the reply, unless the agent has
gone without one. -/
def agentReply (a : Agent) (r : Option (ℕ × Agent)) : Except ℕ Header :=
  match r with
  | none => .error agentErrDisconnect
  | some (_, a') =>
    match a'.sent.drop a.sent.length with
    | [] => .error agentErrDisconnect
    | hdr :: _ => .ok hdr

/-- `agent_query`. -/
def queryStatus : Except ℕ Header → ℕ
  | .error code => code
  | .ok hdr => hdr.status

/-- A getter of `agent_interface.c`: the argument of a reply without error. -/
def queryArg {α : Type} (arg : Header → α) : Except ℕ Header → Except ℕ α
  | .error code => .error code
  | .ok hdr => if hdr.status ≠ 0 then .error hdr.status else .ok (arg hdr)

/-- The string argument of a header. -/
def Header.text (hdr : Header) : List Char :=
  match hdr.str with
  | .text s => s
  | .null => []
  | .key key => cstr (key.val.map fun b => Char.ofNat b.toNat)

/-- The number of a field in the protocol. -/
def PppField.num (field : PppField) : Word32 :=
  BitVec.ofNat 32 ([.other, .failures, .recentFailures, .codeLength, .alphabet, .flags,
    .codesOnCard, .codesInRow, .spassSet, .key, .counter, .unsaltedCounter, .latestCard,
    .currentCard, .maxCard, .maxCode, .spassTime, .channelTime, .username, .prompt, .contact,
    .label, .spass].idxOf field)

theorem PppField.ofNum_num (field : PppField) : PppField.ofNum field.num = field := by
  cases field <;> rfl

/-- A request with a field as its argument. -/
def Request.field (type : ReqType) (field : PppField) : Request :=
  { Request.plain type with int := field.num }

/-- A request with a number as its argument. -/
def Request.number (type : ReqType) (num : Num) : Request :=
  { Request.plain type with num := num }

/-- The getters, as long as the agent holds the state it holds now. -/
def Agent.getters (crypto : Crypto) (cfg : Cfg) (me : Pid) (a : Agent) (w : World) : Getters where
  getInt field :=
    queryArg Header.int (agentReply a (handled crypto cfg me a w (.field .getInt field)).1)
  getNum field :=
    queryArg Header.num (agentReply a (handled crypto cfg me a w (.field .getNum field)).1)
  getStr field :=
    queryArg Header.text (agentReply a (handled crypto cfg me a w (.field .getStr field)).1)
  getPasscode num :=
    queryArg (fun hdr => hdr.text.take 16)
      (agentReply a (handled crypto cfg me a w (.number .getPasscode num)).1)

/-! ## Six cards -/

/-- Three cards from the one numbered `i` places behind the first on. -/
def latexColumn (a : Getters) (host : List Char) (number : Num) (i : ℕ) :
    Except CardFault (List Char) := do
  let part1 ← cardAscii a host (numAddI number (BitVec.ofNat 64 i))
  let part2 ← cardAscii a host (numAddI number (BitVec.ofNat 64 (i + 1)))
  let part3 ← cardAscii a host (numAddI number (BitVec.ofNat 64 (i + 2)))
  return joinSep '\n' [part1, part2, part3]

/-- `card_latex`. -/
def cardLatex (a : Getters) (host : List Char) (number : Num) : Except CardFault (List Char) :=
  match a.getNum .maxCard with
  | .error _ => .error .null
  | .ok maxCard =>
    if 0 < numCmp number (numSubI maxCard 5) then .error .null
    else do
      let blockStart := "\\begin\x7bverbatim\x7d\n".toList
      let blockStop := "\\end\x7bverbatim\x7d\n\\newpage".toList
      let column1 ← latexColumn a host number 0
      let column2 ← latexColumn a host number 3
      return "\\documentclass[11pt,twocolumn,a4paper]\x7barticle\x7d\n".toList ++
        "\\usepackage\x7bfullpage\x7d\n\\pagestyle\x7bempty\x7d\n\\begin\x7bdocument\x7d\n".toList ++
        blockStart ++ column1 ++ ['\n', '\n'] ++ blockStop ++ blockStart ++ column2 ++
        blockStop ++ "\\end\x7bdocument\x7d\n".toList

/-! ## The action -/

/-- `OPTION_TEXT`, `OPTION_LATEX` and `OPTION_PROMPT`. -/
inductive PrintMode where
  | text
  | latex
  | prompt
deriving DecidableEq

/-- How many cards a mode prints. -/
def PrintMode.count : PrintMode → ℕ
  | .text => 1
  | .latex => 6
  | .prompt => 0

/-- What a print action comes to: its return value, the cards that are on the
paper now, the text, and the world. -/
structure PrintEnd where
  ret : ℤ
  cards : List Num
  out : List Char
  world : World

/-- Nothing was printed. -/
def PrintEnd.silent (ret : ℤ) (w : World) : PrintEnd := ⟨ret, [], [], w⟩

/-- `n` consecutive cards. -/
def cardsFrom (item : Num) (n : ℕ) : List Num :=
  (List.range n).map fun i => numAddI item (BitVec.ofNat 64 i)

section

variable (crypto : Crypto) (cfg : Cfg) (me : Pid)

/-- `action_print` for a user with a state, on the agent that holds it. What
other processes do between the printing and the update of the latest card is
`meanwhile`. -/
def actionPrint (mode : PrintMode) (host spec : List Char) (meanwhile : World → World)
    (a : Agent) (w : World) : PrintEnd :=
  let getters := a.getters crypto cfg me w
  -- the state that the agent holds is not changed by a getter
  let update (latest : Num) : ℕ × World :=
    let r := handled crypto cfg me a (meanwhile w) (.number .updateLatest latest)
    (queryStatus (agentReply a r.1), r.2)
  match ahParseCodeSpec getters spec (numI 0) with
  | (selected, item) =>
    if selected ≠ printCode ∧ selected ≠ printCard then .silent selected w
    else if selected = printCard then
      match mode with
      | .text =>
        match cardAscii getters host item with
        | .error _ => .silent 1 w
        | .ok card =>
          let (code, w) := update item
          ⟨if code ≠ agentErrReqArg ∧ code ≠ 0 then code else 0, cardsFrom item 1, card ++ ['\n'], w⟩
      | .latex =>
        match cardLatex getters host item with
        | .error _ => .silent 1 w
        | .ok card =>
          let (code, w) := update (numAddI item 6)
          ⟨if code ≠ agentErrReqArg then code else 0, cardsFrom item 6, card ++ ['\n'], w⟩
      | .prompt => .silent 0 w
    else
      match mode with
      | .text =>
        match getters.getPasscode item with
        | .error code => .silent code w
        | .ok passcode => ⟨0, [], passcode ++ ['\n'], w⟩
      | .latex => .silent 0 w
      | .prompt =>
        let r := handled crypto cfg me a w (.number .getPrompt item)
        match queryArg Header.text (agentReply a r.1) with
        | .error code => .silent code r.2
        | .ok prompt => ⟨0, [], prompt ++ ['\n'], r.2⟩

/-- The utility with a print action: `action_init` starts an agent that loads
the state, and gives up on an error other than that there is none. -/
def printAction (u : CString) (privileged : Bool) (mode : PrintMode) (host spec : List Char)
    (meanwhile : World → World) (w : World) : PrintEnd :=
  let start := Agent.start u privileged
  match handled crypto cfg me start w (.plain .stateLoad) with
  | (r, w) =>
    match agentReply start r, r with
    | .ok ⟨0, _, _, _, _⟩, some (_, a) => actionPrint crypto cfg me mode host spec meanwhile a w
    | reply, _ =>
      let code := queryStatus reply
      .silent (if code = stateNonExistent ∨ code = stateNoUserEntry then 1 else code) w

end

/-! ## What the getters answer -/

section

variable {crypto : Crypto} {cfg : Cfg} {me : Pid} {a a' : Agent} {s : State} {w : World}

theorem agentReply_error {r : Option (ℕ × Agent)} {code : ℕ} (h : agentReply a r = .error code) :
    code ≠ 0 := by
  rcases r with _ | ⟨retval, a'⟩
  · obtain rfl := Except.error.inj h
    decide
  · simp only [agentReply] at h
    split at h
    · obtain rfl := Except.error.inj h
      decide
    · cases h

theorem agentReply_some {r : Option (ℕ × Agent)} {hdr : Header} (h : agentReply a r = .ok hdr) :
    ∃ x, r = some x := by
  cases r with
  | none => cases h
  | some x => exact ⟨x, rfl⟩

theorem agentReply_sendReply (hl : a'.locked = false) (hsent : a'.sent = a.sent)
    (retval status : ℕ) :
    agentReply a (some (retval, a'.sendReply status)) = .ok { a'.shdr with status := status } := by
  have hl' : ¬ Agent.locked { a' with shdr := { a'.shdr with status := status } } = true := by
    rw [Bool.not_eq_true]
    exact hl
  unfold Agent.sendReply
  simp only
  rw [if_neg hl', hsent]
  simp only [agentReply, List.drop_left]

/-- The reply to a request that policy allows and that looks at the state only. -/
theorem handled_looks {req : Request} {f : State → SysM (ℕ × Agent)} {retval : ℕ}
    (hs : a.s = some s) (hl : a.locked = false)
    (hpolicy : requestVerifyPolicy cfg a req = .ret (agentOk, a))
    (hexecute : requestExecute crypto cfg a req = withState a f)
    (hf : f s = .ret (retval, a')) :
    handled crypto cfg me a w req = (some (agentOk, a'.sendReply retval), w) := by
  unfold handled
  rw [requestHandle_allowed hl hpolicy, hexecute, withState, hs]
  simp only
  rw [hf]
  rfl

/-- The getters of numbers answer from the state that the agent holds. -/
theorem getters_of (hs : a.s = some s) (hl : a.locked = false) :
    (a.getters crypto cfg me w).Of s := by
  constructor
  · intro field v hv
    have hf : (pppGetInt s (.ofNum field.num) >>= fun value =>
        (pure (agentOk, (a.hdrInit 0).hdrSetInt value 0) : SysM (ℕ × Agent))) =
          .ret (agentOk, (a.hdrInit 0).hdrSetInt v 0) := by
      rw [PppField.ofNum_num, hv]
      rfl
    have hrun := @handled_looks crypto cfg me a _ s w (.field .getInt field) _ _ hs hl rfl rfl hf
    have hreply := @agentReply_sendReply a ((a.hdrInit 0).hdrSetInt v 0) hl rfl agentOk agentOk
    simp only [Agent.getters, hrun, hreply]
    rfl
  · intro field v hv
    have hf : (pppGetNum s (.ofNum field.num) >>= fun num =>
        (pure (agentOk, (a.hdrInit 0).hdrSetNum num) : SysM (ℕ × Agent))) =
          .ret (agentOk, (a.hdrInit 0).hdrSetNum v) := by
      rw [PppField.ofNum_num, hv]
      rfl
    have hrun := @handled_looks crypto cfg me a _ s w (.field .getNum field) _ _ hs hl rfl rfl hf
    have hreply := @agentReply_sendReply a ((a.hdrInit 0).hdrSetNum v) hl rfl agentOk agentOk
    simp only [Agent.getters, hrun, hreply]
    rfl

/-! ## The next card -/

/-- The argument `next`. -/
def NextSpec (spec : List Char) : Prop :=
  sameWord spec "next".toList ∨ sameWord spec "[next]".toList

/-- The card that `next` stands for. -/
def State.nextCard (s : State) : Num :=
  if 0 < numCmp s.currentCard s.latestCard then s.currentCard else numAddI s.latestCard 1

/-- What an action with the argument `next` comes to: the cards are printed,
and the agent is asked to remember the card behind them or, of a single card,
the card itself. -/
inductive PrintsNext (crypto : Crypto) (cfg : Cfg) (me : Pid) (mode : PrintMode)
    (meanwhile : World → World) (a : Agent) (s : State) (w : World) : PrintEnd → Prop where
  | silent (ret : ℤ) (hret : mode ≠ .prompt → ret ≠ 0) :
      PrintsNext crypto cfg me mode meanwhile a s w (.silent ret w)
  | text (ret : ℤ) (out : List Char) (hmode : mode = .text) :
      PrintsNext crypto cfg me mode meanwhile a s w ⟨ret, cardsFrom s.nextCard 1, out,
        (handled crypto cfg me a (meanwhile w) (.number .updateLatest s.nextCard)).2⟩
  | latex (ret : ℤ) (out : List Char) (hmode : mode = .latex)
      (hroom : s.nextCard.toNat ≤ (numSubI s.maxCard 5).toNat) :
      PrintsNext crypto cfg me mode meanwhile a s w ⟨ret, cardsFrom s.nextCard 6, out,
        (handled crypto cfg me a (meanwhile w) (.number .updateLatest (numAddI s.nextCard 6))).2⟩

theorem actionPrint_next {mode : PrintMode} {host spec : List Char} {meanwhile : World → World}
    (hs : a.s = some s) (hl : a.locked = false) (hspec : NextSpec spec) :
    PrintsNext crypto cfg me mode meanwhile a s w
      (actionPrint crypto cfg me mode host spec meanwhile a w) := by
  have hof := @getters_of crypto cfg me a s w hs hl
  have hparse : ahParseCodeSpec (a.getters crypto cfg me w) spec (numI 0) =
      (printCard, s.nextCard) := ahParseCodeSpec_next hof.specNums hspec
  unfold actionPrint
  simp only
  rw [hparse]
  simp only [printCode, printCard]
  rw [if_neg (by decide), if_pos trivial]
  cases mode with
  | text =>
    simp only
    split
    · exact .silent 1 fun _ => by decide
    · exact .text _ _ rfl
  | latex =>
    simp only
    split
    · exact .silent 1 fun _ => by decide
    · rename_i card hcard
      refine .latex _ _ rfl ?_
      -- the first card was compared with the last but five
      rw [cardLatex, hof.getNum _ s.maxCard rfl] at hcard
      simp only at hcard
      split_ifs at hcard with hroom
      rw [numCmp_pos_iff, Nat.not_lt] at hroom
      exact hroom
  | prompt => exact .silent 0 fun h => absurd rfl h

/-! ## A run of the utility -/

/-- The agent that was started replies to `STATE_LOAD`. -/
theorem stateLoad_reply {r : Option (ℕ × Agent)} {w1 : World} (hs : a.s = none)
    (hnew : a.newState = false)
    (hrun : handled crypto cfg me a w (.plain .stateLoad) = (r, w1)) :
    w1.Keeps w ∧ ∀ hdr retval a1, agentReply a r = .ok hdr → hdr.status = 0 →
      r = some (retval, a1) → Loads cfg a a1 w := by
  have hl : a.locked = false := by
    rw [Agent.locked, hs]
    rfl
  have hwp : wp (Sys.exec me) (requestHandle crypto cfg a (.plain .stateLoad)) (fun r w1 =>
      w1.Keeps w ∧ ∀ hdr retval a1, agentReply a r = .ok hdr → hdr.status = 0 →
        r = some (retval, a1) → Loads cfg a a1 w) w := by
    rw [requestHandle_load hl rfl, hs]
    refine wp_replyWith (agentStateInit_loads hs hnew) (fun w' h => ⟨h.1, ?_⟩)
      fun status a' w' h => ⟨h.1, ?_⟩
    · intro hdr retval a1 hreply
      cases hreply
    · rintro hdr retval a1 hreply hstatus ⟨⟩
      obtain ⟨hsent, hloads⟩ := h.2 status a' rfl
      have hstatus0 : status = 0 := by
        cases hl' : a'.locked with
        | true =>
          -- nothing was sent
          have hl'' : Agent.locked { a' with shdr := { a'.shdr with status := status } } = true :=
            hl'
          unfold Agent.sendReply at hreply
          simp only at hreply
          rw [if_pos hl''] at hreply
          simp only [agentReply, hsent, List.drop_length] at hreply
          cases hreply
        | false =>
          rw [agentReply_sendReply hl' hsent] at hreply
          obtain rfl := Except.ok.inj hreply
          exact hstatus
      obtain ⟨hn, hdef, s, e, hfresh, hlook, hmax, hholds⟩ := hloads hstatus0
      exact ⟨hn, hdef, s, e, hfresh, hlook, hmax, hholds.reply status⟩
  unfold wp at hwp
  unfold handled at hrun
  rwa [hrun] at hwp

end

/-- A print action: the process, its mode, the host, the argument, and the
passcodes that other processes reserve between the printing and the update. -/
structure PrintJob where
  me : Pid
  privileged : Bool
  mode : PrintMode
  host : List Char
  spec : List Char
  meanwhile : List CounterCall

namespace PrintJob

variable (crypto : Crypto) (cfg : Cfg) (u : CString) (job : PrintJob) (w : World)

/-- The agent at the start of the action, and what loading the state leaves. -/
def started : Agent := Agent.start u job.privileged

def loaded : Option (ℕ × Agent) × World :=
  handled crypto cfg job.me (job.started u) w (.plain .stateLoad)

/-- The world in which the latest card is updated. -/
def updateWorld : World := runCalls cfg job.meanwhile (job.loaded crypto cfg u w).2

def run : PrintEnd :=
  printAction crypto cfg job.me u job.privileged job.mode job.host job.spec
    (runCalls cfg job.meanwhile) w

/-- What a job with the argument `next` comes to. -/
inductive End : PrintEnd → Prop where
  | refused (ret : ℤ) (hret : ret ≠ 0) : End (.silent ret (job.loaded crypto cfg u w).2)
  | printed (a : Agent) (s : State) (e : Entry) (p : PrintEnd) (hfresh : s.Fresh u)
      (hdef : 2 ≤ cfg.passcodeDefLength ∧ cfg.passcodeDefLength ≤ 16)
      (hlook : dbLookup (w.file (dbLoc cfg u)) u = some e)
      (hholds : (job.started u).Holds a (some (s.loaded (-1) e)) false)
      (h : PrintsNext crypto cfg job.me job.mode (runCalls cfg job.meanwhile) a
        (s.loaded (-1) e) (job.loaded crypto cfg u w).2 p) : End p

theorem run_end (hspec : NextSpec job.spec) :
    (job.loaded crypto cfg u w).2.Keeps w ∧ job.End crypto cfg u w (job.run crypto cfg u w) := by
  rcases hrun : job.loaded crypto cfg u w with ⟨r, w1⟩
  have hload : handled crypto cfg job.me (Agent.start u job.privileged) w (.plain .stateLoad) =
      (r, w1) := hrun
  have hw1 : (job.loaded crypto cfg u w).2 = w1 := by rw [hrun]
  obtain ⟨hkeeps, hok⟩ := stateLoad_reply rfl rfl hload
  refine ⟨hkeeps, ?_⟩
  unfold run printAction
  simp only
  rw [hload]
  simp only
  split
  · rename_i a hreply
    obtain ⟨-, hdef, s, e, hfresh, hlook, -, hholds⟩ := hok _ _ a hreply rfl rfl
    refine .printed a s e _ hfresh hdef hlook hholds ?_
    rw [hw1]
    refine actionPrint_next hholds.s ?_ hspec
    rw [Agent.locked, hholds.s]
    rfl
  · rename_i r _ _ hne
    rw [← hw1]
    have hstatus : queryStatus (agentReply (Agent.start u job.privileged) r) ≠ 0 := by
      intro h0
      cases hreply : agentReply (Agent.start u job.privileged) r with
      | error code =>
        rw [hreply] at h0
        exact agentReply_error hreply h0
      | ok hdr =>
        rw [hreply] at h0
        obtain ⟨⟨retval, a⟩, rfl⟩ := agentReply_some hreply
        obtain ⟨status, int, int2, num, str⟩ := hdr
        obtain rfl : status = 0 := h0
        exact hne int int2 num str retval a hreply rfl
    refine .refused _ ?_
    split_ifs
    · decide
    · exact_mod_cast hstatus

end PrintJob

end Otpasswd
