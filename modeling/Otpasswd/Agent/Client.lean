import Otpasswd.Agent.Pipe
import Otpasswd.Agent.Serve
import Otpasswd.Lib.Layer

/-!
# Otpasswd.Agent.Client — the client and the agent on their pipes

`agent_interface.c`: each function of the client fills a header, sends it down
one pipe and reads the reply from the other, behind which the agent runs its
main loop. The pipes deliver what was written in pieces of their own choice.

A program of the client is a program over `ClientCall`; `Link.call` is what
its calls do.
-/

namespace Otpasswd

open CText

/-! ## Headers of requests and replies -/

/-- `enum AGENT_REQUEST`. The number of a reply stands for those that are not
served. -/
def ReqType.number : ReqType → Word32
  | .disconnect => 2
  | .userSet => 3
  | .other => 4
  | .stateNew => 5
  | .stateLoad => 6
  | .stateStore => 7
  | .stateDrop => 8
  | .keyGenerate => 9
  | .keyRemove => 10
  | .flagAdd => 11
  | .flagClear => 12
  | .flagGet => 13
  | .getNum => 15
  | .getInt => 16
  | .getStr => 17
  | .getAlphabet => 18
  | .getWarnings => 19
  | .getPasscode => 20
  | .getPrompt => 21
  | .setNum => 22
  | .setInt => 23
  | .setStr => 24
  | .setSpass => 25
  | .authenticate => 26
  | .skip => 27
  | .updateLatest => 28
  | .clearRecentFailures => 29

/-- The request types that are served. -/
def ReqType.served : List ReqType :=
  [.disconnect, .userSet, .stateNew, .stateLoad, .stateStore, .stateDrop, .keyGenerate, .keyRemove,
    .flagAdd, .flagClear, .flagGet, .getNum, .getInt, .getStr, .getAlphabet, .getWarnings,
    .getPasscode, .getPrompt, .setNum, .setInt, .setStr, .setSpass, .authenticate, .skip,
    .updateLatest, .clearRecentFailures]

/-- The `switch` on the type of a request. -/
def ReqType.ofNumber (n : Word32) : ReqType :=
  (ReqType.served.find? fun type => type.number = n).getD .other

theorem ReqType.ofNumber_number (type : ReqType) : ReqType.ofNumber type.number = type := by
  cases type <;> rfl

/-- A byte as a `char`, and back. -/
def charByte (c : Char) : Byte := BitVec.ofNat 8 c.toNat

def byteChar (b : Byte) : Char := Char.ofNat b.toNat

/-- `str_arg` as a string. -/
def AgentHeader.text (h : AgentHeader) : CString := .ofBuffer (h.strArg.val.map byteChar)

/-- What `request_handle` takes from the header it received. -/
def Request.ofHeader (h : AgentHeader) : Request where
  type := ReqType.ofNumber h.type
  int := h.intArg
  int2 := h.intArg2
  num := h.numArg
  str := h.text

/-- The bytes that `agent_hdr_set_str` and `agent_hdr_set_bin_str` leave in a
header that was cleared. -/
def FieldStr.bytes : FieldStr → Bytes agentArgMax
  | .text s => .ofList agentArgMax (s.map charByte)
  | .null => .zero agentArgMax
  | .key k => .ofList agentArgMax k.val

/-- The header of the agent as it is sent. -/
def Header.wire (hdr : Header) : AgentHeader where
  protocolVersion := agentProtocolVersion
  type := ReqType.other.number
  status := BitVec.ofNat 32 hdr.status
  intArg := hdr.int
  intArg2 := hdr.int2
  numArg := hdr.num
  strArg := hdr.str.bytes

/-! ## The calls of the client -/

/-- `agent_hdr_init`, with status zero. -/
def AgentHeader.init (h : AgentHeader) : AgentHeader :=
  { h with
    protocolVersion := agentProtocolVersion
    status := 0
    intArg := 0
    intArg2 := 0
    numArg := numI 0
    strArg := .zero agentArgMax }

/-- `agent_hdr_set_int`. -/
def AgentHeader.setInt (h : AgentHeader) (int int2 : Word32) : AgentHeader :=
  { h with intArg := int, intArg2 := int2 }

/-- `agent_hdr_set_num`. -/
def AgentHeader.setNum (h : AgentHeader) (num : Num) : AgentHeader := { h with numArg := num }

/-- `agent_hdr_set_str` in a header that was cleared, with its assertion on the
length. -/
def AgentHeader.setStr (h : AgentHeader) (str : CString) : Option AgentHeader :=
  if str.val.length < agentArgMax then
    some { h with strArg := .ofList agentArgMax (str.val.map charByte) }
  else none

/-- A function of the client: what it does to `shdr`, which fails with an
assertion, the type of its query, and what it makes of the result of
`agent_query` and of `rhdr`. -/
structure Stub (α : Type) where
  prepare : AgentHeader → Option AgentHeader
  type : ReqType
  result : ℕ → AgentHeader → α

namespace Stub

/-- A query with the arguments that the last one left in the header. -/
def bare (type : ReqType) : Stub ℕ := ⟨some, type, fun ret _ => ret⟩

/-- A query whose result is returned. -/
def status (type : ReqType) (args : AgentHeader → Option AgentHeader) : Stub ℕ :=
  ⟨fun h => args h.init, type, fun ret _ => ret⟩

/-- A query for an argument of the reply. -/
def getter {α : Type} (type : ReqType) (args : AgentHeader → AgentHeader)
    (arg : AgentHeader → α) : Stub (Except ℕ α) :=
  ⟨fun h => some (args h.init), type, fun ret h => if ret ≠ 0 then .error ret else .ok (arg h)⟩

end Stub

/-- `agent_set_user`, of a client. -/
def agentSetUser (username : CString) : Stub ℕ := .status .userSet (·.setStr username)

/-- `agent_state_new`. -/
def agentStateNew : Stub ℕ := .bare .stateNew

/-- `agent_state_load`. -/
def agentStateLoad : Stub ℕ := .bare .stateLoad

/-- `agent_state_store`. -/
def agentStateStore : Stub ℕ := .bare .stateStore

/-- `agent_state_drop`. -/
def agentStateDrop : Stub ℕ := .bare .stateDrop

/-- `agent_key_generate`. -/
def agentKeyGenerate : Stub ℕ := .bare .keyGenerate

/-- `agent_key_remove`. -/
def agentKeyRemove : Stub ℕ := .bare .keyRemove

/-- `agent_flag_add`. -/
def agentFlagAdd (flag : Word32) : Stub ℕ := .status .flagAdd fun h => some (h.setInt flag 0)

/-- `agent_flag_clear`. -/
def agentFlagClear (flag : Word32) : Stub ℕ := .status .flagClear fun h => some (h.setInt flag 0)

/-- `agent_flag_get`. -/
def agentFlagGet : Stub (Except ℕ Word32) := .getter .flagGet id AgentHeader.intArg

/-- `agent_get_num`. -/
def agentGetNum (field : Word32) : Stub (Except ℕ Num) :=
  .getter .getNum (·.setInt field 0) AgentHeader.numArg

/-- `agent_get_int`. -/
def agentGetInt (field : Word32) : Stub (Except ℕ Word32) :=
  .getter .getInt (·.setInt field 0) AgentHeader.intArg

/-- `agent_get_str`. -/
def agentGetStr (field : Word32) : Stub (Except ℕ CString) :=
  .getter .getStr (·.setInt field 0) AgentHeader.text

/-- `PPP_FIELD_KEY`. -/
abbrev pppFieldKey : Word32 := 9

/-- `agent_get_key`. -/
def agentGetKey : Stub (Except ℕ (List Byte)) :=
  .getter .getStr (·.setInt pppFieldKey 0) fun h => h.strArg.val.take 32

/-- `agent_get_alphabet`: one that the policy forbids is returned as well. -/
def agentGetAlphabet (id : Word32) : Stub (ℕ × Option CString) where
  prepare h := some (h.init.setInt id 0)
  type := .getAlphabet
  result ret h := (ret, if ret ≠ 0 ∧ ret ≠ pppErrorPolicy then none else some h.text)

/-- `agent_set_int`. -/
def agentSetInt (field integer : Word32) : Stub ℕ :=
  .status .setInt fun h => some (h.setInt field integer)

/-- `agent_set_str`. -/
def agentSetStr (field : Word32) (str : CString) : Stub ℕ :=
  .status .setStr fun h => (h.setInt field 0).setStr str

/-- `agent_set_spass`; without a string the password is removed. -/
def agentSetSpass (str : Option CString) : Stub ℕ :=
  .status .setSpass fun h =>
    match str with
    | none => some (h.setInt 1 0)
    | some str => (h.setInt 0 0).setStr str

/-- `agent_get_warnings`: the arguments are read whatever the result is. -/
def agentGetWarnings : Stub (ℕ × Word32 × Word32) where
  prepare h := some (h.init.setInt 0 0)
  type := .getWarnings
  result ret h := (ret, h.intArg, h.intArg2)

/-- `agent_get_passcode`. -/
def agentGetPasscode (counter : Num) : Stub (Except ℕ (List Char)) :=
  .getter .getPasscode (·.setNum counter) fun h => h.text.val.take 16

/-- `agent_get_prompt`. -/
def agentGetPrompt (counter : Num) : Stub (Except ℕ CString) :=
  .getter .getPrompt (·.setNum counter) AgentHeader.text

/-- `agent_authenticate`. -/
def agentAuthenticate (passcode : CString) : Stub ℕ := .status .authenticate (·.setStr passcode)

/-- `agent_skip`. -/
def agentSkip (counter : Num) : Stub ℕ := .status .skip fun h => some (h.setNum counter)

/-- `agent_update_latest_card`. -/
def agentUpdateLatestCard (card : Num) : Stub ℕ :=
  .status .updateLatest fun h => some (h.setNum card)

/-- `agent_clear_recent_failures`. -/
def agentClearRecentFailures : Stub ℕ := .status .clearRecentFailures some

/-- The functions of the client. -/
inductive ClientCall where
  | setUser (username : CString)
  | stateNew
  | stateLoad
  | stateStore
  | stateDrop
  | keyGenerate
  | keyRemove
  | flagAdd (flag : Word32)
  | flagClear (flag : Word32)
  | flagGet
  | getNum (field : Word32)
  | getInt (field : Word32)
  | getStr (field : Word32)
  | getKey
  | getAlphabet (id : Word32)
  | setInt (field integer : Word32)
  | setStr (field : Word32) (str : CString)
  | setSpass (str : Option CString)
  | getWarnings
  | getPasscode (counter : Num)
  | getPrompt (counter : Num)
  | authenticate (passcode : CString)
  | skip (counter : Num)
  | updateLatestCard (card : Num)
  | clearRecentFailures

namespace ClientCall

@[reducible] def Reply : ClientCall → Type
  | .flagGet => Except ℕ Word32
  | .getNum _ => Except ℕ Num
  | .getInt _ => Except ℕ Word32
  | .getStr _ => Except ℕ CString
  | .getKey => Except ℕ (List Byte)
  | .getAlphabet _ => ℕ × Option CString
  | .getWarnings => ℕ × Word32 × Word32
  | .getPasscode _ => Except ℕ (List Char)
  | .getPrompt _ => Except ℕ CString
  | _ => ℕ

def stub : (c : ClientCall) → Stub c.Reply
  | .setUser username => agentSetUser username
  | .stateNew => agentStateNew
  | .stateLoad => agentStateLoad
  | .stateStore => agentStateStore
  | .stateDrop => agentStateDrop
  | .keyGenerate => agentKeyGenerate
  | .keyRemove => agentKeyRemove
  | .flagAdd flag => agentFlagAdd flag
  | .flagClear flag => agentFlagClear flag
  | .flagGet => agentFlagGet
  | .getNum field => agentGetNum field
  | .getInt field => agentGetInt field
  | .getStr field => agentGetStr field
  | .getKey => agentGetKey
  | .getAlphabet id => agentGetAlphabet id
  | .setInt field integer => agentSetInt field integer
  | .setStr field str => agentSetStr field str
  | .setSpass str => agentSetSpass str
  | .getWarnings => agentGetWarnings
  | .getPasscode counter => agentGetPasscode counter
  | .getPrompt counter => agentGetPrompt counter
  | .authenticate passcode => agentAuthenticate passcode
  | .skip counter => agentSkip counter
  | .updateLatestCard card => agentUpdateLatestCard card
  | .clearRecentFailures => agentClearRecentFailures

end ClientCall

/-- A program of the client. -/
abbrev ClientM (α : Type) := Prog ClientCall ClientCall.Reply α

/-! ## The two ends and their pipes -/

/-- How a pipe cuts what was written into the pieces that `read` returns. -/
structure Delivery where
  cut : List Byte → List Chunk
  joins : ∀ bytes, (cut bytes).flatMap Subtype.val = bytes

/-- What is left in a pipe; behind it `read` returns zero once the writer is
gone. -/
def pipeOf (chunks : List Chunk) : Pipe := ⟨chunks, fun _ => ⟨0, .inl rfl⟩⟩

/-- The variables of the client. -/
structure Client where
  shdr : AgentHeader
  rhdr : AgentHeader
  reader : Reader
  error : Bool

/-- The agent in its main loop. -/
structure Server where
  agent : Agent
  rhdr : AgentHeader
  reader : Reader

/-- The client, the agent until its main loop ends, and what is on the pipes. -/
structure Link where
  client : Client
  server : Option Server
  toServer : List Chunk
  toClient : List Chunk
  /-- How the next writes are cut. -/
  deliver : ℕ → Delivery
  world : World

section

variable (crypto : Crypto) (cfg : Cfg) (me : Pid)

/-- What an iteration of `main_loop` leaves. -/
structure Iteration where
  server : Option Server
  toServer : List Chunk
  replies : List Header
  world : World

/-- What is left once `request_handle` has ended with `r`. -/
def Server.after (srv : Server) (x : RecvResult) (r : Option (ℕ × Agent)) (w : World) :
    Iteration :=
  match r with
  | none => ⟨none, x.pipe.chunks, [], w⟩
  | some (retval, a) =>
    ⟨if retval ≠ 0 then none else some ⟨a, x.rhdr, x.reader⟩, x.pipe.chunks,
      a.sent.drop srv.agent.sent.length, w⟩

/-- One iteration of `main_loop`, on what the pipe has for the agent. -/
def Server.serve (srv : Server) (chunks : List Chunk) (w : World) : Iteration :=
  let x := agentHdrRecv srv.agent.locked srv.rhdr srv.reader (pipeOf chunks)
  if x.ret ≠ agentOk then ⟨none, x.pipe.chunks, [], w⟩
  else
    let (r, w) := handled crypto cfg me srv.agent w (Request.ofHeader x.rhdr)
    srv.after x r w

/-- Whether the agent gets to wait for a request. It does not read one while
it holds a locked state, and ends. -/
def Server.waits (srv : Server) : Bool := !srv.agent.locked

/-- The agent handles what the client wrote, and its replies are on the pipe. -/
def Link.serve (l : Link) (written : List Byte) : Link :=
  match l.server with
  | none => l
  | some srv =>
    let r := srv.serve crypto cfg me (l.toServer ++ (l.deliver 0).cut written) l.world
    { l with
      server := r.server.filter Server.waits
      toServer := r.toServer
      toClient :=
        l.toClient ++ (l.deliver 1).cut (r.replies.flatMap fun hdr => hdr.wire.fields.flatten)
      deliver := fun n => l.deliver (n + 2)
      world := r.world }

/-- The pipe to the agent. A write fails when the agent is gone, for a client
that the signal does not stop. -/
def Link.out (l : Link) : Out :=
  ⟨[], if l.server.isSome then List.replicate 7 agentHeaderSize else []⟩

/-- `a->error` is set. -/
def Link.fail (l : Link) : Link := { l with client := { l.client with error := true } }

/-- Whether a `read` of a header would wait for an agent that waits itself. -/
def Link.stuck (l : Link) : Bool :=
  l.server.isSome && decide
    (l.client.reader.buffered.toNat + (pipeOf l.toClient).stream.length < agentHeaderSize)

/-- The reply to a query; there is none if it is waited for without end. -/
def Link.receive (l : Link) : Option ℕ × Link :=
  if l.stuck then (none, l)
  else
    let x := agentHdrRecv false l.client.rhdr l.client.reader (pipeOf l.toClient)
    let l := { l with
      client := { l.client with rhdr := x.rhdr, reader := x.reader }
      toClient := x.pipe.chunks }
    if x.ret ≠ agentOk then (some x.ret, l.fail) else (some x.rhdr.status.toNat, l)

/-- `agent_query`. -/
def Link.query (l : Link) (type : ReqType) : Option ℕ × Link :=
  let shdr := { l.client.shdr with type := type.number }
  let l := { l with client := { l.client with shdr := shdr } }
  match agentHdrSend false shdr l.out with
  | (none, _) => (none, l)
  | (some ret, out) =>
    if ret ≠ agentOk then (some ret, l.fail) else (l.serve crypto cfg me out.written).receive

/-- A function of the client. -/
def Stub.run {α : Type} (f : Stub α) (l : Link) : Option α × Link :=
  match f.prepare l.client.shdr with
  | none => (none, l)
  | some shdr =>
    let (ret, l) := ({ l with client := { l.client with shdr := shdr } } : Link).query crypto cfg me f.type
    (ret.map fun ret => f.result ret l.client.rhdr, l)

/-- What a call of the client does. -/
def Link.call (c : ClientCall) (l : Link) : Option c.Reply × Link := c.stub.run crypto cfg me l

end

/-! ## The start -/

@[simp] abbrev agentErrInitEmergency : ℕ := 5006
@[simp] abbrev agentErrServerInit : ℕ := 5009

/-- `AGENT_REQ_INIT`. -/
abbrev agentReqInit : Word32 := 1

/-- A header in memory that was cleared. -/
def AgentHeader.zero : AgentHeader := ⟨0, 0, 0, 0, 0, numI 0, .zero agentArgMax⟩

/-- What `send_init_reply` sends when nothing went wrong. -/
def initReply : AgentHeader :=
  { AgentHeader.zero with protocolVersion := agentProtocolVersion, type := agentReqInit }

/-- What `agent_connect` makes of the first header. -/
def connectStatus (ret : ℕ) (rhdr : AgentHeader) : ℕ :=
  if ret ≠ agentOk then ret
  else if rhdr.type ≠ agentReqInit then agentErrServerInit
  else if rhdr.status.toNat = agentErrInitEmergency then agentErrServerInit
  else rhdr.status.toNat

/-- `agent_connect` from its first read on, with an agent that has started for
user `u`. The buffers of `agent_read` may hold anything. -/
def agentConnect (u : CString) (privileged : Bool) (buff sbuff : ℕ → Byte)
    (deliver : ℕ → Delivery) (w : World) : ℕ × Link :=
  let x := agentHdrRecv false .zero (.start buff)
    (pipeOf ((deliver 0).cut initReply.fields.flatten))
  (connectStatus x.ret x.rhdr, {
    client :=
      ⟨{ AgentHeader.zero with protocolVersion := agentProtocolVersion }, x.rhdr, x.reader, false⟩
    server := some ⟨.start u privileged, .zero, .start sbuff⟩
    toServer := []
    toClient := x.pipe.chunks
    deliver := fun n => deliver (n + 1)
    world := w })

end Otpasswd
