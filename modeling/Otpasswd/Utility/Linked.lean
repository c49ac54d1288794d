import Otpasswd.Agent.Client
import Otpasswd.Agent.Once
import Otpasswd.Utility.Print

/-!
# Otpasswd.Utility.Linked — calls of the agent through the pipes

A program of the client gets the same results through the pipes as if each of
its calls ran `request_handle` in place, however the pipes cut what is written
(`linked_direct`). The agent behind the pipes does for it what its main loop
does on a list of requests (`linked_mainLoop`).

The step is one query: both ends are between two headers with nothing in their
buffers (`Link.Shows`), and the agent replies once or ends (`requestHandle_once`).
-/

namespace Otpasswd

open CText Prog

/-! ## Headers through the pipes -/

section

variable {r : Reader} {chunks : List Chunk} {h rhdr : AgentHeader} {rest : List Byte}

/-- What is written comes behind what is there. -/
theorem Reader.Holds.write (hr : r.Holds (pipeOf chunks) rest) (d : Delivery) (bytes : List Byte) :
    r.Holds (pipeOf (chunks ++ d.cut bytes)) (rest ++ bytes) := by
  have hstream : (pipeOf (chunks ++ d.cut bytes)).stream = (pipeOf chunks).stream ++ bytes := by
    change (chunks ++ d.cut bytes).flatMap Subtype.val = chunks.flatMap Subtype.val ++ bytes
    rw [List.flatMap_append, d.joins]
  refine ⟨hr.bound, ?_, fun _ => rfl⟩
  rw [hstream, hr.rest, List.append_assoc]

theorem Reader.Holds.written (hr : r.Holds (pipeOf chunks) []) (d : Delivery)
    (bytes : List Byte) : r.Holds (pipeOf (chunks ++ d.cut bytes)) bytes := by
  have h := hr.write d bytes
  rw [List.nil_append] at h
  exact h

/-- Nothing in the buffer, and nothing in the pipe. -/
theorem Reader.Holds.empty (hr : r.Holds (pipeOf chunks) []) : r.buffered = 0 ∧ chunks = [] := by
  obtain ⟨hbytes, hstream⟩ := List.append_eq_nil_iff.mp hr.rest.symm
  constructor
  · have hlen := congrArg List.length hbytes
    rw [Reader.length_bytes] at hlen
    exact BitVec.eq_of_toNat_eq hlen
  · cases chunks with
    | nil => rfl
    | cons c chunks =>
      have hpos := c.property.1
      replace hstream : c.val ++ chunks.flatMap Subtype.val = [] := hstream
      rw [(List.append_eq_nil_iff.mp hstream).1] at hpos
      cases hpos

/-- A header in the pipe is received. -/
theorem agentHdrRecv_header (hr : r.Holds (pipeOf chunks) h.fields.flatten) :
    ∃ r' chunks', r'.Holds (pipeOf chunks') [] ∧ ∃ ends,
      agentHdrRecv false rhdr r (pipeOf chunks) = ⟨hdrCheck h, h, r', ⟨chunks', ends⟩⟩ := by
  have hsize : (rhdr.fields.map List.length).sum = agentHeaderSize := by
    rw [rhdr.lengths]
    rfl
  have hfields := recvFields_spec hr rhdr.fields
  simp only at hfields
  rw [hsize, h.length_flatten] at hfields
  rcases hfields with ⟨-, hret, hflat, hlens, hholds⟩ | ⟨hlt, -⟩
  · rw [List.take_of_length_le h.length_flatten.le] at hflat
    rw [List.drop_of_length_le h.length_flatten.le] at hholds
    have heq : (recvFields rhdr.fields r (pipeOf chunks)).fields = h.fields :=
      List.eq_iff_flatten_eq.mpr ⟨hflat, hlens.trans (rhdr.lengths.trans h.lengths.symm)⟩
    refine ⟨_, _, ⟨hholds.bound, hholds.rest, fun _ => rfl⟩,
      (recvFields rhdr.fields r (pipeOf chunks)).pipe.ends, ?_⟩
    unfold agentHdrRecv
    simp only [Bool.false_eq_true, if_false]
    rw [if_neg (not_not.mpr hret), heq, AgentHeader.ofFields_fields]
  · exact absurd hlt (lt_irrefl _)

/-- At the end of the stream nothing is received. -/
theorem agentHdrRecv_end (hr : r.Holds (pipeOf chunks) []) :
    ∃ r' chunks', r'.Holds (pipeOf chunks') [] ∧ ∃ ends,
      agentHdrRecv false rhdr r (pipeOf chunks) =
        ⟨agentErrDisconnect, rhdr, r', ⟨chunks', ends⟩⟩ := by
  obtain ⟨hbuffered, rfl⟩ := hr.empty
  have hread : agentRead r (pipeOf []) 4 =
      ⟨agentErrDisconnect, [], ⟨r.buff, 0, 0⟩, pipeOf []⟩ := by
    unfold agentRead pipeOf agentReadLoop
    simp only [Reader.copy_empty hbuffered]
    rfl
  have hfields : recvFields rhdr.fields r (pipeOf []) =
      ⟨agentErrDisconnect, rhdr.fields, ⟨r.buff, 0, 0⟩, pipeOf []⟩ := by
    unfold AgentHeader.fields recvFields
    rw [length_leBytes, hread]
    rfl
  refine ⟨⟨r.buff, 0, 0⟩, [], ⟨Nat.zero_le _, rfl, fun _ => rfl⟩, (pipeOf []).ends, ?_⟩
  unfold agentHdrRecv
  simp only [Bool.false_eq_true, if_false]
  rw [hfields, AgentHeader.ofFields_fields]
  rfl

/-- A pipe that takes enough bytes with each write takes a header. -/
theorem sendFields_all {fs : List (List Byte)} {n k : ℕ} (hfs : ∀ f ∈ fs, f.length ≤ n)
    (written : List Byte) :
    sendFields fs ⟨written, List.replicate (fs.length + k) n⟩ =
      (some agentOk, ⟨written ++ fs.flatten, List.replicate k n⟩) := by
  induction fs generalizing written with
  | nil =>
    unfold sendFields
    rw [List.flatten_nil, List.append_nil, List.length_nil, Nat.zero_add]
  | cons f fs ih =>
    have hf := hfs f List.mem_cons_self
    rw [List.length_cons, Nat.add_right_comm, List.replicate_succ]
    unfold sendFields agentWrite
    simp only
    rw [if_pos hf]
    simp only
    rw [if_neg (not_not.mpr rfl), ih fun f h => hfs f (List.mem_cons_of_mem _ h),
      List.take_of_length_le hf, List.flatten_cons, List.append_assoc]

/-- A header that is sent while the other end is there. -/
theorem agentHdrSend_all : agentHdrSend false h ⟨[], List.replicate 7 agentHeaderSize⟩ =
    (some agentOk, ⟨h.fields.flatten, []⟩) := by
  have hle : ∀ f ∈ h.fields, f.length ≤ agentHeaderSize := by
    intro f hf
    have hlen : f.length ∈ h.fields.map List.length := List.mem_map_of_mem hf
    rw [h.lengths] at hlen
    have hall : ∀ n ∈ [4, 4, 4, 4, 4, 16, 255], n ≤ agentHeaderSize := by decide
    exact hall _ hlen
  exact @sendFields_all h.fields agentHeaderSize 0 hle []

end

/-! ## Calls without pipes -/

/-- The agent, as long as its main loop runs, and the last reply that the
client got. -/
structure Direct where
  agent : Option Agent
  rhdr : AgentHeader
  world : World

/-- Whether the agent goes on after a reply. -/
def agentLeft (r : Option (ℕ × Agent)) : Option Agent :=
  r.bind fun x => if x.1 ≠ 0 then none else some x.2

/-- The request that a function of the client stands for. -/
def Stub.request {α : Type} (f : Stub α) : Option Request :=
  (f.prepare initReply).map fun h => Request.ofHeader { h with type := f.type.number }

section

variable (crypto : Crypto) (cfg : Cfg) (me : Pid)

/-- `request_handle` in place of `agent_query`. -/
def Direct.query (d : Direct) (req : Request) : ℕ × Direct :=
  match d.agent with
  | none => (agentErrDisconnect, d)
  | some a =>
    let (r, w) := handled crypto cfg me a d.world req
    match agentReply a r with
    | .error code => (code, ⟨none, d.rhdr, w⟩)
    | .ok hdr => (hdr.wire.status.toNat, ⟨agentLeft r, hdr.wire, w⟩)

/-- A call of the client, without pipes. -/
def Direct.call (c : ClientCall) (d : Direct) : Option c.Reply × Direct :=
  match c.stub.request with
  | none => (none, d)
  | some req =>
    let (code, d) := d.query crypto cfg me req
    (some (c.stub.result code d.rhdr), d)

end

/-- The two ends are between two headers: what they have is that of `d`, and
nothing is on its way. -/
structure Link.Shows (l : Link) (d : Direct) : Prop where
  world : l.world = d.world
  rhdr : l.client.rhdr = d.rhdr
  version : l.client.shdr.protocolVersion = agentProtocolVersion
  client : l.client.reader.Holds (pipeOf l.toClient) []
  agent : d.agent = l.server.map Server.agent
  server : ∀ srv, l.server = some srv →
    srv.agent.locked = false ∧ srv.reader.Holds (pipeOf l.toServer) []

section

variable {crypto : Crypto} {cfg : Cfg} {me : Pid} {l : Link} {d : Direct} {a a' : Agent}
  {srv : Server} {h : AgentHeader} {chunks : List Chunk} {w : World}

/-- The iteration of the main loop on a header that is in the pipe. -/
theorem Server.serve_header (hl : srv.agent.locked = false)
    (hr : srv.reader.Holds (pipeOf chunks) h.fields.flatten)
    (hv : h.protocolVersion = agentProtocolVersion) :
    ∃ r chunks', r.Holds (pipeOf chunks') [] ∧ ∃ ends,
      srv.serve crypto cfg me chunks w = srv.after ⟨agentOk, h, r, ⟨chunks', ends⟩⟩
        (handled crypto cfg me srv.agent w (Request.ofHeader h)).1
        (handled crypto cfg me srv.agent w (Request.ofHeader h)).2 := by
  obtain ⟨r, chunks', hr', ends, hrecv⟩ := @agentHdrRecv_header srv.reader chunks h srv.rhdr hr
  refine ⟨r, chunks', hr', ends, ?_⟩
  have hcheck : hdrCheck h = agentOk := if_neg (not_not.mpr hv)
  rw [hcheck] at hrecv
  unfold Server.serve
  rw [hl, hrecv]
  rfl

/-- The replies of an iteration: one, and the agent goes on if the main loop
does; or none, and it does not. -/
theorem Server.after_once {x : RecvResult} {r : Option (ℕ × Agent)}
    (hr : ∀ y, r = some y → srv.agent.Once y) :
    (∃ hdr, agentReply srv.agent r = .ok hdr ∧ (srv.after x r w).replies = [hdr] ∧
      ((srv.after x r w).server.filter Server.waits).map Server.agent = agentLeft r) ∨
    agentReply srv.agent r = .error agentErrDisconnect ∧ (srv.after x r w).replies = [] ∧
      (srv.after x r w).server.filter Server.waits = none := by
  cases r with
  | none => exact .inr ⟨rfl, rfl, rfl⟩
  | some y =>
    obtain ⟨retval, a'⟩ := y
    rcases hr _ rfl with ⟨hdr, hsent, hl⟩ | ⟨hsent, hend⟩
    · replace hsent : a'.sent = srv.agent.sent ++ [hdr] := hsent
      replace hl : a'.locked = false := hl
      have hdrop : a'.sent.drop srv.agent.sent.length = [hdr] := by
        rw [hsent, List.drop_left]
      refine .inl ⟨hdr, ?_, hdrop, ?_⟩
      · simp only [agentReply, hdrop]
      · unfold Server.after agentLeft
        simp only [Option.bind_some]
        by_cases hret : retval ≠ 0
        · rw [if_pos hret, if_pos hret]
          rfl
        · have hwaits : Server.waits ⟨a', x.rhdr, x.reader⟩ = true := by
            rw [Server.waits, hl]
            rfl
          rw [if_neg hret, if_neg hret, Option.filter_some, if_pos hwaits]
          rfl
    · replace hsent : a'.sent = srv.agent.sent := hsent
      have hdrop : a'.sent.drop srv.agent.sent.length = [] := by
        rw [hsent, List.drop_length]
      refine .inr ⟨?_, hdrop, ?_⟩
      · simp only [agentReply, hdrop]
      · unfold Server.after
        simp only
        by_cases hret : retval ≠ 0
        · rw [if_pos hret]
          rfl
        · have hl : a'.locked = true := hend.resolve_left hret
          have hwaits : ¬ Server.waits ⟨a', x.rhdr, x.reader⟩ = true := by
            rw [Server.waits, hl]
            decide
          rw [if_neg hret, Option.filter_some, if_neg hwaits]

theorem Reader.Holds.length {r : Reader} {rest : List Byte} (hr : r.Holds (pipeOf chunks) rest) :
    r.buffered.toNat + (pipeOf chunks).stream.length = rest.length := by
  rw [hr.rest, List.length_append, Reader.length_bytes]

/-- A reply in the pipe is received. -/
theorem Link.receive_reply (hr : l.client.reader.Holds (pipeOf l.toClient) h.fields.flatten)
    (hv : h.protocolVersion = agentProtocolVersion) :
    ∃ r chunks, r.Holds (pipeOf chunks) [] ∧ l.receive = (some h.status.toNat, { l with
      client := { l.client with rhdr := h, reader := r }
      toClient := chunks }) := by
  obtain ⟨r, chunks, hr', ends, hrecv⟩ :=
    @agentHdrRecv_header l.client.reader l.toClient h l.client.rhdr hr
  refine ⟨r, chunks, hr', ?_⟩
  have hcheck : hdrCheck h = agentOk := if_neg (not_not.mpr hv)
  rw [hcheck] at hrecv
  have hstuck : l.stuck = false := by
    unfold Link.stuck
    rw [hr.length, h.length_flatten]
    simp
  unfold Link.receive
  rw [hstuck, hrecv]
  rfl

/-- An agent that has gone leaves the client without a reply. -/
theorem Link.receive_end (hr : l.client.reader.Holds (pipeOf l.toClient) [])
    (hserver : l.server = none) :
    ∃ r chunks, r.Holds (pipeOf chunks) [] ∧ l.receive = (some agentErrDisconnect, { l with
      client := ⟨l.client.shdr, l.client.rhdr, r, true⟩
      toClient := chunks }) := by
  obtain ⟨r, chunks, hr', ends, hrecv⟩ :=
    @agentHdrRecv_end l.client.reader l.toClient l.client.rhdr hr
  refine ⟨r, chunks, hr', ?_⟩
  have hstuck : l.stuck = false := by
    unfold Link.stuck
    rw [hserver]
    rfl
  unfold Link.receive
  rw [hstuck, hrecv]
  rfl

theorem Link.out_gone (hserver : l.server = none) : l.out = ⟨[], []⟩ := by
  unfold Link.out
  rw [hserver]
  rfl

theorem Link.out_served (hserver : l.server = some srv) :
    l.out = ⟨[], List.replicate 7 agentHeaderSize⟩ := by
  unfold Link.out
  rw [hserver]
  rfl

theorem Server.after_world {x : RecvResult} {r : Option (ℕ × Agent)} :
    (srv.after x r w).world = w := by
  cases r <;> rfl

theorem Server.after_toServer {x : RecvResult} {r : Option (ℕ × Agent)} :
    (srv.after x r w).toServer = x.pipe.chunks := by
  cases r <;> rfl

/-- An agent that goes on can read the next request, behind this one. -/
theorem Server.after_server {x : RecvResult} {r : Option (ℕ × Agent)} {srv' : Server}
    (h : (srv.after x r w).server.filter Server.waits = some srv') :
    srv'.agent.locked = false ∧ srv'.reader = x.reader := by
  obtain ⟨hserver, hwaits⟩ := Option.filter_eq_some_iff.mp h
  refine ⟨by simpa [Server.waits] using hwaits, ?_⟩
  cases r with
  | none => cases hserver
  | some y =>
    replace hserver : (if y.1 ≠ 0 then none else some ⟨y.2, x.rhdr, x.reader⟩) = some srv' :=
      hserver
    by_cases hret : y.1 ≠ 0
    · rw [if_pos hret] at hserver
      cases hserver
    · rw [if_neg hret] at hserver
      cases hserver
      rfl

/-- A header that the agent reads, and its reply or its end. -/
theorem Link.Shows.exchange (hs : l.Shows d) (hserver : l.server = some srv)
    (hv : h.protocolVersion = agentProtocolVersion) :
    (l.serve crypto cfg me h.fields.flatten).receive.1 =
        some (d.query crypto cfg me (Request.ofHeader h)).1 ∧
      (l.serve crypto cfg me h.fields.flatten).receive.2.Shows
        (d.query crypto cfg me (Request.ofHeader h)).2 := by
  obtain ⟨hl, hr⟩ := hs.server srv hserver
  have hagent : d.agent = some srv.agent := by rw [hs.agent, hserver]; rfl
  obtain ⟨r, chunks, hr', ends, hserve⟩ := @Server.serve_header crypto cfg me srv h _ l.world hl
    (hr.written (l.deliver 0) h.fields.flatten) hv
  unfold Link.serve Direct.query
  rw [hserver, hagent, ← hs.world]
  simp only
  rw [hserve]
  rcases hx : handled crypto cfg me srv.agent l.world (Request.ofHeader h) with ⟨y, w⟩
  simp only
  have hend : ∀ srv', (srv.after ⟨agentOk, h, r, ⟨chunks, ends⟩⟩ y w).server.filter
      Server.waits = some srv' →
      srv'.agent.locked = false ∧ srv'.reader.Holds (pipeOf chunks) [] := by
    intro srv' h'
    obtain ⟨hl', hreader⟩ := Server.after_server h'
    rw [hreader]
    exact ⟨hl', hr'⟩
  have honce := @Server.after_once srv w ⟨agentOk, h, r, ⟨chunks, ends⟩⟩ y fun z hz =>
    handled_once (hz ▸ hx)
  rw [Server.after_world, Server.after_toServer]
  simp only
  rcases honce with ⟨hdr, hreply, hreplies, hleft⟩ | ⟨hreply, hreplies, hleft⟩
  · -- one reply, behind what the pipe held
    rw [hreply, hreplies, List.flatMap_singleton]
    generalize (srv.after ⟨agentOk, h, r, ⟨chunks, ends⟩⟩ y w).server.filter Server.waits = left
      at hend hleft ⊢
    set l1 : Link := ⟨l.client, left, chunks,
      l.toClient ++ (l.deliver 1).cut hdr.wire.fields.flatten, fun n => l.deliver (n + 2), w⟩
    obtain ⟨r1, chunks1, hr1, hreceive⟩ := @Link.receive_reply l1 hdr.wire
      (hs.client.written (l.deliver 1) hdr.wire.fields.flatten) rfl
    rw [hreceive]
    exact ⟨rfl, rfl, rfl, hs.version, hr1, hleft.symm, hend⟩
  · -- no reply: the agent has gone, and the pipe comes to its end
    rw [hreply, hreplies, hleft]
    set l1 : Link := ⟨l.client, none, chunks, l.toClient ++ (l.deliver 1).cut [],
      fun n => l.deliver (n + 2), w⟩
    obtain ⟨r1, chunks1, hr1, hreceive⟩ := @Link.receive_end l1
      (hs.client.written (l.deliver 1) []) rfl
    rw [List.flatMap_nil, hreceive]
    exact ⟨rfl, rfl, hs.rhdr, hs.version, hr1, rfl, fun _ h' => by cases h'⟩

/-- A query through the pipes comes to what the query in place does. -/
theorem Link.Shows.query (hs : l.Shows d) (type : ReqType) :
    let req := Request.ofHeader { l.client.shdr with type := type.number }
    (l.query crypto cfg me type).1 = some (d.query crypto cfg me req).1 ∧
      (l.query crypto cfg me type).2.Shows (d.query crypto cfg me req).2 := by
  intro req
  set shdr : AgentHeader := { l.client.shdr with type := type.number } with hshdr
  have hs1 : ({ l with client := { l.client with shdr := shdr } } : Link).Shows d :=
    ⟨hs.world, hs.rhdr, hs.version, hs.client, hs.agent, hs.server⟩
  unfold Link.query
  simp only
  rw [← hshdr]
  generalize ({ l with client := { l.client with shdr := shdr } } : Link) = l1 at hs1 ⊢
  cases hserver : l1.server with
  | none =>
    -- the agent has gone
    have hagent : d.agent = none := by rw [hs1.agent, hserver]; rfl
    have hsend : agentHdrSend false shdr ⟨[], []⟩ = (some agentErrDisconnect, ⟨[], []⟩) := rfl
    unfold Direct.query
    rw [Link.out_gone hserver, hsend, hagent]
    simp only
    rw [if_pos (by decide)]
    exact ⟨rfl, hs1.world, hs1.rhdr, hs1.version, hs1.client, hs1.agent, hs1.server⟩
  | some srv =>
    rw [Link.out_served hserver, agentHdrSend_all]
    simp only
    rw [if_neg (by decide)]
    exact hs1.exchange hserver hs.version

/-! ## The calls -/

/-- Requests that are handled alike. -/
def Request.Alike (req req' : Request) : Prop :=
  ∀ crypto cfg me a w, handled crypto cfg me a w req = handled crypto cfg me a w req'

/-- A function of the client makes the same of the header of any earlier call:
its assertion fails, or what it sends is handled alike. -/
def Stub.Steady {α : Type} (f : Stub α) : Prop :=
  ∀ h : AgentHeader, h.protocolVersion = agentProtocolVersion →
    f.prepare h = none ∧ f.request = none ∨
      ∃ h' req, f.prepare h = some h' ∧ f.request = some req ∧
        h'.protocolVersion = agentProtocolVersion ∧
        (Request.ofHeader { h' with type := f.type.number }).Alike req

/-- The arguments do not depend on the type that the last query left. -/
def TypeFree (args : AgentHeader → Option AgentHeader) : Prop :=
  ∀ (h : AgentHeader) (type : Word32),
    args { h with type := type } = (args h).map fun h => { h with type := type }

/-- A function that clears the header first. -/
theorem Stub.Steady.of_init {α : Type} {f : Stub α} {args : AgentHeader → Option AgentHeader}
    (hf : ∀ h, f.prepare h = args h.init) (hargs : TypeFree args)
    (hversion : ∀ h h', args h = some h' → h'.protocolVersion = h.protocolVersion) :
    f.Steady := by
  intro h _
  have hprepare : f.prepare h =
      (args initReply.init).map fun h' => { h' with type := h.type } := by
    rw [hf, ← hargs]
    rfl
  have hrequest : f.request = (args initReply.init).map fun h' =>
      Request.ofHeader { h' with type := f.type.number } := by
    unfold Stub.request
    rw [hf]
  cases hinit : args initReply.init with
  | none => exact .inl ⟨by rw [hprepare, hinit]; rfl, by rw [hrequest, hinit]; rfl⟩
  | some h' =>
    refine .inr ⟨_, _, by rw [hprepare, hinit]; rfl, by rw [hrequest, hinit]; rfl, ?_,
      fun _ _ _ _ _ => rfl⟩
    exact hversion _ _ hinit

/-- A function that sends a text, with its assertion on the length. -/
theorem setStr_steady {α : Type} {f : Stub α} {str : CString}
    (set : AgentHeader → AgentHeader) (hf : ∀ h, f.prepare h = (set h.init).setStr str)
    (hset : ∀ (h : AgentHeader) (type : Word32),
      set { h with type := type } = { set h with type := type })
    (hversion : ∀ h, (set h).protocolVersion = h.protocolVersion) : f.Steady := by
  refine @Stub.Steady.of_init _ f (fun h => (set h).setStr str) hf (fun h type => ?_)
    fun h h' heq => ?_
  · simp only
    rw [hset]
    unfold AgentHeader.setStr
    by_cases hlen : str.val.length < agentArgMax
    · rw [if_pos hlen, if_pos hlen]
      rfl
    · rw [if_neg hlen, if_neg hlen]
      rfl
  · replace heq : (set h).setStr str = some h' := heq
    unfold AgentHeader.setStr at heq
    by_cases hlen : str.val.length < agentArgMax
    · rw [if_pos hlen] at heq
      cases heq
      exact hversion h
    · rw [if_neg hlen] at heq
      cases heq

/-- A function that sends numbers. -/
theorem setArgs_steady {α : Type} {f : Stub α} (set : AgentHeader → AgentHeader)
    (hf : ∀ h, f.prepare h = some (set h.init))
    (hset : ∀ (h : AgentHeader) (type : Word32),
      set { h with type := type } = { set h with type := type })
    (hversion : ∀ h, (set h).protocolVersion = h.protocolVersion) : f.Steady := by
  refine @Stub.Steady.of_init _ f (fun h => some (set h)) hf (fun h type => ?_)
    fun h h' heq => ?_
  · simp only
    rw [hset]
    rfl
  · cases heq
    exact hversion h

/-- A request without arguments takes none from the last query. -/
theorem bare_steady {type : ReqType}
    (halike : ∀ req req' : Request, req.type = type → req'.type = type → req.Alike req') :
    (Stub.bare type).Steady := by
  intro h hv
  refine .inr ⟨h, _, rfl, rfl, hv, halike _ _ ?_ ?_⟩ <;> exact ReqType.ofNumber_number type

theorem alike_of {req req' : Request}
    (h : ∀ crypto cfg a, requestHandle crypto cfg a req = requestHandle crypto cfg a req') :
    req.Alike req' := by
  intro crypto cfg me a w
  unfold handled
  rw [h]

/-- The arguments that are not used. -/
theorem bare_alike {type : ReqType}
    (hbare : type ∈ [ReqType.stateNew, .stateLoad, .stateStore, .stateDrop, .keyGenerate,
      .keyRemove]) {req req' : Request} (h : req.type = type) (h' : req'.type = type) :
    req.Alike req' := by
  refine alike_of fun crypto cfg a => ?_
  unfold requestHandle requestVerifyPolicy requestExecute
  rw [h, h']
  simp only [List.mem_cons, List.not_mem_nil, or_false] at hbare
  rcases hbare with rfl | rfl | rfl | rfl | rfl | rfl <;> rfl

theorem ClientCall.steady (c : ClientCall) : c.stub.Steady := by
  cases c with
  | stateNew | stateLoad | stateStore | stateDrop | keyGenerate | keyRemove =>
    exact bare_steady fun _ _ => bare_alike (by decide)
  | setUser str | authenticate str =>
    exact setStr_steady id (fun _ => rfl) (fun _ _ => rfl) fun _ => rfl
  | setStr field str =>
    exact setStr_steady (·.setInt field 0) (fun _ => rfl) (fun _ _ => rfl) fun _ => rfl
  | setSpass str =>
    cases str with
    | none => exact setArgs_steady (·.setInt 1 0) (fun _ => rfl) (fun _ _ => rfl) fun _ => rfl
    | some str =>
      exact setStr_steady (·.setInt 0 0) (fun _ => rfl) (fun _ _ => rfl) fun _ => rfl
  | flagGet | clearRecentFailures =>
    exact setArgs_steady id (fun _ => rfl) (fun _ _ => rfl) fun _ => rfl
  | getKey =>
    exact setArgs_steady (·.setInt pppFieldKey 0) (fun _ => rfl) (fun _ _ => rfl) fun _ => rfl
  | getWarnings =>
    exact setArgs_steady (·.setInt 0 0) (fun _ => rfl) (fun _ _ => rfl) fun _ => rfl
  | flagAdd n | flagClear n | getNum n | getInt n | getStr n | getAlphabet n =>
    exact setArgs_steady (·.setInt n 0) (fun _ => rfl) (fun _ _ => rfl) fun _ => rfl
  | setInt field integer =>
    exact setArgs_steady (·.setInt field integer) (fun _ => rfl) (fun _ _ => rfl) fun _ => rfl
  | getPasscode n | getPrompt n | skip n | updateLatestCard n =>
    exact setArgs_steady (·.setNum n) (fun _ => rfl) (fun _ _ => rfl) fun _ => rfl

theorem Direct.query_alike {req req' : Request} (h : req.Alike req') :
    d.query crypto cfg me req = d.query crypto cfg me req' := by
  unfold Direct.query
  cases d.agent with
  | none => rfl
  | some a =>
    simp only
    rw [h]

/-- A call through the pipes comes to what the call in place does. -/
theorem link_agree : Prog.Agree (Link.call crypto cfg me) (Direct.call crypto cfg me)
    Link.Shows := by
  intro c l d hs
  unfold Link.call Direct.call Stub.run
  rcases c.steady l.client.shdr hs.version with ⟨hprepare, hrequest⟩ |
    ⟨shdr, req, hprepare, hrequest, hversion, halike⟩
  · rw [hprepare, hrequest]
    exact ⟨rfl, hs⟩
  · rw [hprepare, hrequest]
    simp only
    have hs1 : ({ l with client := { l.client with shdr := shdr } } : Link).Shows d :=
      ⟨hs.world, hs.rhdr, hversion, hs.client, hs.agent, hs.server⟩
    have hquery := @Link.Shows.query crypto cfg me _ d hs1 c.stub.type
    simp only at hquery
    rw [Direct.query_alike halike] at hquery
    obtain ⟨hret, hshows⟩ := hquery
    refine ⟨?_, hshows⟩
    rw [hret, hshows.rhdr]
    rfl

/-- The start: the agent waits, and its first reply has been read. -/
theorem agentConnect_shows (u : CString) (privileged : Bool) (buff sbuff : ℕ → Byte)
    (deliver : ℕ → Delivery) :
    (agentConnect u privileged buff sbuff deliver w).1 = agentOk ∧
      (agentConnect u privileged buff sbuff deliver w).2.Shows
        ⟨some (.start u privileged), initReply, w⟩ := by
  have hstart : ∀ buff, (Reader.start buff).Holds (pipeOf []) [] := fun buff =>
    ⟨Nat.zero_le _, rfl, fun _ => rfl⟩
  obtain ⟨r, chunks, hr, ends, hrecv⟩ := @agentHdrRecv_header (.start buff) _ initReply .zero
    ((hstart buff).written (deliver 0) initReply.fields.flatten)
  unfold agentConnect
  rw [List.nil_append] at hrecv
  rw [hrecv]
  refine ⟨rfl, rfl, rfl, rfl, hr, rfl, fun srv hsrv => ?_⟩
  cases hsrv
  exact ⟨rfl, hstart sbuff⟩

/-! ## Programs of the client -/

/-- Once the agent has gone, nothing changes. -/
theorem direct_gone {α : Type} (p : ClientM α) (hd : d.agent = none) :
    (p.interpret (Direct.call crypto cfg me) d).2.world = d.world := by
  induction p generalizing d with
  | ret x => rfl
  | stop why => rfl
  | call c k ih =>
    unfold Prog.interpret Direct.call
    cases c.stub.request with
    | none => rfl
    | some req =>
      unfold Direct.query
      rw [hd]
      exact ih _ hd

/-- What a query leaves: the agent that goes on, or one that reads no further
request, or none. -/
theorem Direct.query_cases (hd : d.agent = some a) (req : Request) :
    ∃ r w', handled crypto cfg me a d.world req = (r, w') ∧
      (d.query crypto cfg me req).2.world = w' ∧
      ((∃ a', r = some (0, a') ∧ ((d.query crypto cfg me req).2.agent = some a' ∨
          (d.query crypto cfg me req).2.agent = none ∧ a'.locked = true)) ∨
        agentLeft r = none ∧ (d.query crypto cfg me req).2.agent = none) := by
  rcases hx : handled crypto cfg me a d.world req with ⟨r, w'⟩
  refine ⟨r, w', rfl, ?_⟩
  unfold Direct.query
  rw [hd]
  simp only
  rw [hx]
  simp only
  cases hleft : agentLeft r with
  | none =>
    cases agentReply a r with
    | error code => exact ⟨rfl, .inr ⟨rfl, rfl⟩⟩
    | ok hdr => exact ⟨rfl, .inr ⟨rfl, rfl⟩⟩
  | some left =>
    -- the main loop goes on
    obtain ⟨⟨retval, a'⟩, rfl, hret⟩ := Option.bind_eq_some_iff.mp hleft
    by_cases h0 : retval ≠ 0
    · rw [if_pos h0] at hret
      cases hret
    rw [if_neg h0] at hret
    cases hret
    cases not_not.mp h0
    rcases handled_once hx with ⟨hdr, hsent, -⟩ | ⟨hsent, hend⟩
    · have hreply : agentReply a (some (0, a')) = .ok hdr := by
        replace hsent : a'.sent = a.sent ++ [hdr] := hsent
        simp only [agentReply, hsent, List.drop_left]
      rw [hreply]
      exact ⟨rfl, .inl ⟨a', rfl, .inl rfl⟩⟩
    · have hreply : agentReply a (some (0, a')) = .error agentErrDisconnect := by
        replace hsent : a'.sent = a.sent := hsent
        simp only [agentReply, hsent, List.drop_length]
      rw [hreply]
      exact ⟨rfl, .inl ⟨a', rfl, .inr ⟨rfl, hend.resolve_left (not_not.mpr rfl)⟩⟩⟩

/-- The calls of a program, in place, come to one run of the main loop. -/
theorem direct_mainLoop {α : Type} (p : ClientM α) (hd : d.agent = some a) :
    (p.interpret (Direct.call crypto cfg me) d).2.world =
      ((mainLoop crypto cfg a ((p.calls (Direct.call crypto cfg me) d).filterMap
        fun c => c.stub.request)).run (Sys.exec me) d.world).2 := by
  induction p generalizing d a with
  | ret x => rfl
  | stop why => rfl
  | call c k ih =>
    unfold Prog.interpret Prog.calls Direct.call
    cases hreq : c.stub.request with
    | none =>
      simp only
      rw [List.filterMap_cons, hreq]
      rfl
    | some req =>
      simp only
      rw [List.filterMap_cons, hreq]
      simp only
      obtain ⟨r, w', hx, hworld, ⟨a', rfl, hagent | ⟨hagent, hl⟩⟩ | ⟨hleft, hagent⟩⟩ :=
        Direct.query_cases hd req
      · rw [mainLoop_cons hx, ← hworld]
        exact ih _ hagent
      · rw [mainLoop_cons hx, mainLoop_locked hl, ← hworld]
        exact direct_gone _ hagent
      · have hends : ∀ a', r ≠ some (0, a') := by
          rintro a' rfl
          cases hleft
        rw [mainLoop_ends hx hends, ← hworld]
        exact direct_gone _ hagent

/-- A call whose texts fit in a header. -/
def ClientCall.Fits : ClientCall → Prop
  | .setUser str | .authenticate str | .setStr _ str | .setSpass (some str) =>
    str.val.length < agentArgMax
  | _ => True

theorem ClientCall.Fits.request {c : ClientCall} (hc : c.Fits) : c.stub.request ≠ none := by
  suffices hprepare : c.stub.prepare initReply ≠ none by
    unfold Stub.request
    exact fun h => hprepare (Option.map_eq_none_iff.mp h)
  have htext : ∀ (h : AgentHeader) (str : CString), str.val.length < agentArgMax →
      h.setStr str ≠ none := by
    intro h str hlen
    unfold AgentHeader.setStr
    rw [if_pos hlen]
    exact Option.some_ne_none _
  cases c with
  | setUser str | authenticate str | setStr field str => exact htext _ str hc
  | setSpass str =>
    cases str with
    | none => exact Option.some_ne_none _
    | some str => exact htext _ str hc
  | _ => exact Option.some_ne_none _

theorem direct_returns (c : ClientCall) (d : Direct) (hc : c.Fits) :
    (Direct.call crypto cfg me c d).1 ≠ none := by
  unfold Direct.call
  cases hreq : c.stub.request with
  | none => exact absurd hreq hc.request
  | some req => exact Option.some_ne_none _

end

/-- After `agent_connect`, a program of the client has the same results and the
same effect through the pipes as with its requests handled in place, however
the pipes cut what is written. It waits for no reply without end, unless it
stops by itself or a text does not fit in a header. -/
theorem linked_direct {α : Type} (crypto : Crypto) (cfg : Cfg) (me : Pid) (u : CString)
    (privileged : Bool) (buff sbuff : ℕ → Byte) (deliver : ℕ → Delivery) (w : World)
    (p : ClientM α) :
    let start := agentConnect u privileged buff sbuff deliver w
    let linked := p.interpret (Link.call crypto cfg me) start.2
    let direct := p.interpret (Direct.call crypto cfg me) ⟨some (.start u privileged), initReply, w⟩
    start.1 = agentOk ∧ linked.1 = direct.1 ∧ linked.2.world = direct.2.world ∧
      (p.Sat (fun _ _ => True) ClientCall.Fits (fun _ => False) (fun _ => True) → linked.1 ≠ none) := by
  intro start linked direct
  obtain ⟨hcode, hshows⟩ := @agentConnect_shows w u privileged buff sbuff deliver
  obtain ⟨hres, hend⟩ := Prog.interpret_agree (@link_agree crypto cfg me) p hshows
  refine ⟨hcode, hres, hend.world, fun hp => ?_⟩
  rw [hres]
  exact Prog.interpret_returns direct_returns hp

/-- What a program of the client does to the world through the pipes is what
the main loop does on the requests of its calls, in their order. -/
theorem linked_mainLoop {α : Type} (crypto : Crypto) (cfg : Cfg) (me : Pid) (u : CString)
    (privileged : Bool) (buff sbuff : ℕ → Byte) (deliver : ℕ → Delivery) (w : World)
    (p : ClientM α) :
    let l := (agentConnect u privileged buff sbuff deliver w).2
    let reqs := (p.calls (Link.call crypto cfg me) l).filterMap fun c => c.stub.request
    (p.interpret (Link.call crypto cfg me) l).2.world =
      ((mainLoop crypto cfg (.start u privileged) reqs).run (Sys.exec me) w).2 := by
  intro l reqs
  obtain ⟨-, hshows⟩ := @agentConnect_shows w u privileged buff sbuff deliver
  have hcalls := Prog.calls_agree (@link_agree crypto cfg me) p hshows
  obtain ⟨-, hend⟩ := Prog.interpret_agree (@link_agree crypto cfg me) p hshows
  rw [hend.world, direct_mainLoop p rfl, ← hcalls]

end Otpasswd
