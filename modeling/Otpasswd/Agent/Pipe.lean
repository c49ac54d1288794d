import Otpasswd.Lib.ExactRead
import Otpasswd.Agent.Request

/-!
# Otpasswd.Agent.Pipe — headers on a pipe

`agent_private.c`: `agent_read` keeps a static buffer with a position and a
signed count, and fills it with what `read` returns. A header is sent and
received field by field.

Main results: `agentRead_spec` and `recvFields_spec` refine the reader that
takes exact pieces of a stream, `sendAll_written` is what a sender leaves on
the pipe, and `framed_iff` is when the framing holds.
-/

namespace Otpasswd

/-! ## The pipe -/

/-- `sizeof(buff)`. -/
abbrev agentBuffSize : ℕ := 300

@[simp] abbrev agentErrProtocolMismatch : ℕ := 5010
@[simp] abbrev agentErrDisconnect : ℕ := 5011

/-- The bytes of one `read`. -/
abbrev Chunk := { c : List Byte // 0 < c.length ∧ c.length ≤ agentBuffSize }

/-- What `read` returns when there are no bytes: zero or a negative number. -/
abbrev Ending := { r : Word64 // r = 0 ∨ r.msb = true }

/-- What is still to be read, and what the reads behind it return. -/
structure Pipe where
  chunks : List Chunk
  ends : ℕ → Ending

/-- The bytes of the pipe. -/
def Pipe.stream (p : Pipe) : List Byte := p.chunks.flatMap Subtype.val

/-- The static variables of `agent_read`; `buff` is the memory from there on. -/
structure Reader where
  buff : ℕ → Byte
  pos : ℕ
  buffered : Word64

namespace Reader

/-- The reader of a new process. -/
def start (buff : ℕ → Byte) : Reader := ⟨buff, 0, 0⟩

/-- The next `n` bytes at the position. -/
def bytes (r : Reader) (n : ℕ) : List Byte := (List.range n).map fun i => r.buff (r.pos + i)

/-- Copy what is buffered, as far as it is wanted. The signed count is compared
and reduced as a `size_t`. -/
def copy (r : Reader) (len : ℕ) : List Byte × ℕ × Reader :=
  if r.buffered ≠ 0 then
    let toGo := if r.buffered.toNat < len then r.buffered.toNat else len
    (r.bytes toGo, len - toGo,
      { r with pos := r.pos + toGo, buffered := r.buffered - BitVec.ofNat 64 toGo })
  else
    ([], len, r)

/-- Read a chunk into the buffer. -/
def fill (r : Reader) (c : List Byte) : Reader :=
  ⟨fun i => c.getD i (r.buff i), 0, BitVec.ofNat 64 c.length⟩

end Reader

/-- How `agent_read` returns, and what it wrote to `data`. -/
structure ReadResult where
  ret : ℕ
  data : List Byte
  reader : Reader
  pipe : Pipe

/-- The loop of `agent_read`. -/
def agentReadLoop (ends : ℕ → Ending) : List Chunk → Reader → ℕ → ReadResult
  | chunks, r, len =>
    let (out, left, r1) := r.copy len
    if left = 0 then
      ⟨agentOk, out, r1, ⟨chunks, ends⟩⟩
    else
      match chunks with
      | [] =>
        -- the count keeps what `read` returned, also when that is negative
        ⟨agentErrDisconnect, out, ⟨r1.buff, 0, (ends 0).val⟩, ⟨[], fun n => ends (n + 1)⟩⟩
      | c :: chunks =>
        let rest := agentReadLoop ends chunks (r1.fill c.val) left
        { rest with data := out ++ rest.data }

/-- `agent_read`. -/
def agentRead (r : Reader) (p : Pipe) (len : ℕ) : ReadResult :=
  agentReadLoop p.ends p.chunks r len

/-! ## Headers -/

/-- `AGENT_PROTOCOL_VERSION`. -/
abbrev agentProtocolVersion : Word32 := 0xDEAD0000

/-- `struct agent_header`. -/
structure AgentHeader where
  protocolVersion : Word32
  type : Word32
  status : Word32
  intArg : Word32
  intArg2 : Word32
  numArg : Num
  strArg : Bytes agentArgMax

namespace AgentHeader

/-- The bytes of the fields in memory. -/
def fields (h : AgentHeader) : List (List Byte) :=
  [leBytes 4 h.protocolVersion.toNat, leBytes 4 h.type.toNat, leBytes 4 h.status.toNat,
    leBytes 4 h.intArg.toNat, leBytes 4 h.intArg2.toNat,
    leBytes 8 h.numArg.hi.toNat ++ leBytes 8 h.numArg.lo.toNat, h.strArg.val]

/-- The header with these bytes. -/
def ofFields (fs : List (List Byte)) : AgentHeader where
  protocolVersion := BitVec.ofNat 32 (leVal (fs.getD 0 []))
  type := BitVec.ofNat 32 (leVal (fs.getD 1 []))
  status := BitVec.ofNat 32 (leVal (fs.getD 2 []))
  intArg := BitVec.ofNat 32 (leVal (fs.getD 3 []))
  intArg2 := BitVec.ofNat 32 (leVal (fs.getD 4 []))
  numArg := ⟨BitVec.ofNat 64 (leVal ((fs.getD 5 []).take 8)),
    BitVec.ofNat 64 (leVal ((fs.getD 5 []).drop 8))⟩
  strArg := Bytes.ofList agentArgMax (fs.getD 6 [])

end AgentHeader

/-- The far end of the pipe: what was written, and how many bytes each further
`write` takes; when there is no answer left, `write` fails. -/
structure Out where
  written : List Byte
  replies : List ℕ

/-- `agent_write`; no result is a failed assertion. -/
def agentWrite (out : Out) (buf : List Byte) : Option ℕ × Out :=
  match out.replies with
  | [] => (some agentErrDisconnect, out)
  | n :: replies =>
    let out' : Out := ⟨out.written ++ buf.take n, replies⟩
    if buf.length ≤ n then (some agentOk, out') else (none, out')

/-- `_send`, field by field. -/
def sendFields : List (List Byte) → Out → Option ℕ × Out
  | [], out => (some agentOk, out)
  | f :: fs, out =>
    match agentWrite out f with
    | (some ret, out') => if ret ≠ agentOk then (some ret, out') else sendFields fs out'
    | (none, out') => (none, out')

/-- `agent_hdr_send`. -/
def agentHdrSend (locked : Bool) (h : AgentHeader) (out : Out) : Option ℕ × Out :=
  if locked then (some agentErr, out) else sendFields h.fields out

structure FieldsResult where
  ret : ℕ
  fields : List (List Byte)
  reader : Reader
  pipe : Pipe

/-- `_recv`, field by field, into the memory of the fields. -/
def recvFields : List (List Byte) → Reader → Pipe → FieldsResult
  | [], r, p => ⟨agentOk, [], r, p⟩
  | f :: fs, r, p =>
    let x := agentRead r p f.length
    if x.ret ≠ agentOk then
      ⟨x.ret, (x.data ++ f.drop x.data.length) :: fs, x.reader, x.pipe⟩
    else
      let rest := recvFields fs x.reader x.pipe
      { rest with fields := x.data :: rest.fields }

structure RecvResult where
  ret : ℕ
  rhdr : AgentHeader
  reader : Reader
  pipe : Pipe

/-- The check of the version. -/
def hdrCheck (h : AgentHeader) : ℕ :=
  if h.protocolVersion ≠ agentProtocolVersion then agentErrProtocolMismatch else agentOk

/-- `agent_hdr_recv`. -/
def agentHdrRecv (locked : Bool) (rhdr : AgentHeader) (r : Reader) (p : Pipe) : RecvResult :=
  if locked then
    ⟨agentErr, rhdr, r, p⟩
  else
    let x := recvFields rhdr.fields r p
    let h := AgentHeader.ofFields x.fields
    if x.ret ≠ agentOk then ⟨x.ret, h, x.reader, x.pipe⟩ else ⟨hdrCheck h, h, x.reader, x.pipe⟩

/-! ## Runs -/

/-- A call of `agent_read`. -/
structure ReadCall where
  len : Word64
  ret : ℕ
  data : List Byte

/-- The bytes delivered by a call that returned `AGENT_OK`. -/
def ReadCall.outcome (c : ReadCall) : Option (List Byte) :=
  if c.ret = agentOk then some c.data else none

/-- One call after another. -/
def readCalls : List Word64 → Reader → Pipe → List ReadCall × Reader × Pipe
  | [], r, p => ([], r, p)
  | len :: lens, r, p =>
    let x := agentRead r p len.toNat
    let xs := readCalls lens x.reader x.pipe
    (⟨len, x.ret, x.data⟩ :: xs.1, xs.2)

/-- Send headers until the sender is stopped. Returns those that were sent. -/
def sendAll : List AgentHeader → Out → List AgentHeader × Out
  | [], out => ([], out)
  | h :: hs, out =>
    match agentHdrSend false h out with
    | (some ret, out') =>
      let rest := sendAll hs out'
      (if ret = agentOk then h :: rest.1 else rest.1, rest.2)
    | (none, out') => ([], out')

/-- Receive one header after another. -/
def recvCalls : ℕ → AgentHeader → Reader → Pipe → List (ℕ × AgentHeader)
  | 0, _, _, _ => []
  | n + 1, rhdr, r, p =>
    let x := agentHdrRecv false rhdr r p
    (x.ret, x.rhdr) :: recvCalls n x.rhdr x.reader x.pipe

/-- The header that a call received, with the result of its check. -/
def received (x : ℕ × AgentHeader) : Option (ℕ × AgentHeader) :=
  if x.1 = agentErrDisconnect then none else some x

/-- The framing of the pipe, for any calls: what is delivered is the stream from
its beginning, a call succeeds exactly when there are enough bytes, which is
never so behind a call that failed, and the headers received are those sent. -/
structure Framed (p : Pipe) : Prop where
  delivers : ∀ buff lens,
    let calls := (readCalls lens (Reader.start buff) p).1
    delivered (calls.map ReadCall.outcome) <+: p.stream ∧
      ∀ c ∈ calls, c.ret = agentOk → c.data.length = c.len.toNat
  succeeds : ∀ buff lens (len : Word64),
    let (calls, r, p') := readCalls lens (Reader.start buff) p
    (agentRead r p' len.toNat).ret = agentOk ↔
      len = 0 ∨ (∀ c ∈ calls, c.ret = agentOk) ∧
        (lens.map BitVec.toNat).sum + len.toNat ≤ p.stream.length
  headers : ∀ buff rhdr hs replies, p.stream = (sendAll hs ⟨[], replies⟩).2.written →
    ∀ n, (recvCalls n rhdr (Reader.start buff) p).map received =
      ((sendAll hs ⟨[], replies⟩).1.map (fun h => some (hdrCheck h, h)) ++
        List.replicate n none).take n

/-! ## The reader -/

section

variable {r : Reader} {p : Pipe} {rest : List Byte}

/-- The buffer and the pipe hold what is left of the stream. -/
structure Reader.Holds (r : Reader) (p : Pipe) (rest : List Byte) : Prop where
  bound : r.pos + r.buffered.toNat ≤ agentBuffSize
  rest : rest = r.bytes r.buffered.toNat ++ p.stream
  ends : ∀ n, (p.ends n).val = 0

@[simp] theorem Reader.length_bytes (r : Reader) (n : ℕ) : (r.bytes n).length = n := by
  simp [Reader.bytes]

theorem Reader.bytes_add (r : Reader) (a b : ℕ) :
    r.bytes (a + b) = r.bytes a ++ { r with pos := r.pos + a }.bytes b := by
  unfold Reader.bytes
  rw [List.range_add, List.map_append, List.map_map]
  refine congrArg _ (List.map_congr_left fun i _ => ?_)
  simp only [Function.comp_apply, Nat.add_assoc]

theorem Reader.bytes_fill (r : Reader) (c : List Byte) : (r.fill c).bytes c.length = c := by
  refine List.ext_getElem (by simp) fun i h1 h2 => ?_
  simp only [Reader.bytes, Reader.fill, List.getElem_map, List.getElem_range, Nat.zero_add]
  rw [List.getD_eq_getElem _ _ h2]

theorem Reader.Holds.fill (r : Reader) (c : Chunk) (chunks : List Chunk) {ends : ℕ → Ending}
    (hends : ∀ n, (ends n).val = 0) :
    (r.fill c.val).Holds ⟨chunks, ends⟩ (c.val ++ (⟨chunks, ends⟩ : Pipe).stream) := by
  have hlen : c.val.length ≤ 300 := c.property.2
  have hcount : (r.fill c.val).buffered.toNat = c.val.length := by
    change c.val.length % 2 ^ 64 = c.val.length
    exact Nat.mod_eq_of_lt (by omega)
  refine ⟨?_, ?_, hends⟩
  · rw [hcount]
    change 0 + c.val.length ≤ 300
    omega
  · rw [hcount, Reader.bytes_fill]

/-- What is buffered is enough, or all of it is taken. -/
theorem Reader.Holds.copy (h : r.Holds p rest) (len : ℕ) :
    let x := r.copy len
    (len ≤ rest.length ∧ x.1 = rest.take len ∧ x.2.1 = 0 ∧ x.2.2.Holds p (rest.drop len)) ∨
      (0 < x.2.1 ∧ len = x.1.length + x.2.1 ∧ rest = x.1 ++ p.stream) := by
  have hbound := h.bound
  obtain ⟨n, hn⟩ : ∃ n, r.buffered.toNat = n := ⟨_, rfl⟩
  unfold Reader.copy
  by_cases hzero : r.buffered = 0
  · rw [if_neg (not_not.mpr hzero)]
    have hrest := h.rest
    rw [hzero] at hrest
    rcases Nat.eq_zero_or_pos len with rfl | hpos
    · exact .inl ⟨Nat.zero_le _, rfl, rfl, h⟩
    · exact .inr ⟨hpos, (Nat.zero_add len).symm, hrest⟩
  · rw [if_pos hzero]
    simp only
    by_cases hlt : r.buffered.toNat < len
    · rw [if_pos hlt]
      refine .inr ⟨Nat.sub_pos_of_lt hlt, ?_, h.rest⟩
      rw [Reader.length_bytes]
      omega
    · rw [if_neg hlt]
      obtain ⟨k, hk⟩ := Nat.exists_eq_add_of_le (Nat.not_lt.mp hlt)
      have hsplit : rest = r.bytes len ++
          ({ r with pos := r.pos + len } : Reader).bytes k ++ p.stream := by
        rw [← Reader.bytes_add, ← hk]
        exact h.rest
      have hcount : (r.buffered - BitVec.ofNat 64 len).toNat = k := by
        rw [BitVec.toNat_sub, BitVec.toNat_ofNat]
        have := r.buffered.isLt
        omega
      refine .inl ⟨?_, ?_, Nat.sub_self len, ?_, ?_, h.ends⟩
      · rw [h.rest, List.length_append, Reader.length_bytes]
        omega
      · rw [hsplit, List.append_assoc, List.take_left' (Reader.length_bytes _ _)]
      · change r.pos + len + (r.buffered - BitVec.ofNat 64 len).toNat ≤ agentBuffSize
        rw [hcount]
        omega
      · rw [hsplit, List.append_assoc, List.drop_left' (Reader.length_bytes _ _)]
        change _ = ({ r with pos := r.pos + len } : Reader).bytes
          (r.buffered - BitVec.ofNat 64 len).toNat ++ p.stream
        rw [hcount]

/-- `agent_read` takes exactly the next bytes, or fails and leaves none. -/
theorem agentRead_spec (h : r.Holds p rest) (len : ℕ) :
    let x := agentRead r p len
    (len ≤ rest.length ∧ x.ret = agentOk ∧ x.data = rest.take len ∧
        x.reader.Holds x.pipe (rest.drop len)) ∨
      (rest.length < len ∧ x.ret = agentErrDisconnect ∧ x.reader.Holds x.pipe []) := by
  obtain ⟨chunks, ends⟩ := p
  unfold agentRead
  simp only
  induction chunks generalizing r len rest with
  | nil =>
    unfold agentReadLoop
    rcases h.copy len with ⟨hle, hout, hleft, hholds⟩ | ⟨hleft, hlen, hrest⟩
    · simp only
      rw [if_pos hleft]
      exact .inl ⟨hle, rfl, hout, hholds⟩
    · simp only
      rw [if_neg (Nat.pos_iff_ne_zero.mp hleft)]
      have hrest : rest = (r.copy len).1 := hrest.trans (List.append_nil _)
      refine .inr ⟨?_, rfl, ?_⟩
      · rw [hrest]
        omega
      · refine ⟨?_, ?_, fun n => h.ends (n + 1)⟩
        · change 0 + (ends 0).val.toNat ≤ 300
          rw [h.ends 0]
          decide
        · change [] = Reader.bytes _ (ends 0).val.toNat ++ []
          rw [h.ends 0]
          rfl
  | cons c chunks ih =>
    unfold agentReadLoop
    rcases h.copy len with ⟨hle, hout, hleft, hholds⟩ | ⟨hleft, hlen, hrest⟩
    · simp only
      rw [if_pos hleft]
      exact .inl ⟨hle, rfl, hout, hholds⟩
    · simp only
      rw [if_neg (Nat.pos_iff_ne_zero.mp hleft)]
      -- the rest is read behind what was copied
      have hends : ∀ n, (ends n).val = 0 := h.ends
      have hfill := Reader.Holds.fill (r.copy len).2.2 c chunks hends
      have hstream : rest = (r.copy len).1 ++ (c.val ++ (⟨chunks, ends⟩ : Pipe).stream) := hrest
      generalize c.val ++ (⟨chunks, ends⟩ : Pipe).stream = s at hfill hstream
      have hlength := congrArg List.length hstream
      rw [List.length_append] at hlength
      have hcut := @List.take_length_add_append _ (r.copy len).1 s (r.copy len).2.1
      have hleave := @List.drop_length_add_append _ (r.copy len).1 s (r.copy len).2.1
      rw [← hlen, ← hstream] at hcut hleave
      rcases ih (r.copy len).2.1 hfill with ⟨hle, hret, hdata, hholds⟩ | ⟨hlt, hret, hholds⟩
      · refine .inl ⟨by omega, hret, ?_, ?_⟩
        · rw [hdata, hcut]
        · rw [hleave]
          exact hholds
      · exact .inr ⟨by omega, hret, hholds⟩

/-- The calls of a run are the reads of the stream. -/
theorem readCalls_spec (h : r.Holds p rest) (lens : List Word64) :
    let x := readCalls lens r p
    let y := readAll rest (lens.map BitVec.toNat)
    x.1.map ReadCall.outcome = y.1 ∧ x.2.1.Holds x.2.2 y.2 ∧
      ∀ c ∈ x.1, c.ret = agentOk → c.data.length = c.len.toNat := by
  induction lens generalizing r p rest with
  | nil => exact ⟨rfl, h, List.forall_mem_nil _⟩
  | cons len lens ih =>
    rcases agentRead_spec h len.toNat with ⟨hle, hret, hdata, hholds⟩ | ⟨hlt, hret, hholds⟩
    · obtain ⟨houts, hend, hlens⟩ := ih hholds
      refine ⟨?_, ?_, List.forall_mem_cons.mpr ⟨fun _ => ?_, hlens⟩⟩
      · change ReadCall.outcome ⟨len, _, _⟩ :: _ =
          (readExact rest len.toNat).1 :: (readAll (readExact rest len.toNat).2 _).1
        rw [readExact_of_le hle, houts, ReadCall.outcome]
        simp only
        rw [if_pos hret, hdata]
      · change Reader.Holds _ _ (readAll (readExact rest len.toNat).2 _).2
        rw [readExact_of_le hle]
        exact hend
      · simp only
        rw [hdata, List.length_take, Nat.min_eq_left hle]
    · obtain ⟨houts, hend, hlens⟩ := ih hholds
      have hbad : (agentRead r p len.toNat).ret ≠ agentOk := by
        rw [hret]
        decide
      refine ⟨?_, ?_, List.forall_mem_cons.mpr ⟨fun hok => absurd hok hbad, hlens⟩⟩
      · change ReadCall.outcome ⟨len, _, _⟩ :: _ =
          (readExact rest len.toNat).1 :: (readAll (readExact rest len.toNat).2 _).1
        rw [readExact_of_lt hlt, houts, ReadCall.outcome]
        simp only
        rw [if_neg hbad]
      · change Reader.Holds _ _ (readAll (readExact rest len.toNat).2 _).2
        rw [readExact_of_lt hlt]
        exact hend

/-- `_recv` takes the fields from the stream, or fails and leaves none of it. -/
theorem recvFields_spec (h : r.Holds p rest) (fs : List (List Byte)) :
    let x := recvFields fs r p
    let size := (fs.map List.length).sum
    (size ≤ rest.length ∧ x.ret = agentOk ∧ x.fields.flatten = rest.take size ∧
        x.fields.map List.length = fs.map List.length ∧ x.reader.Holds x.pipe (rest.drop size)) ∨
      (rest.length < size ∧ x.ret = agentErrDisconnect ∧ x.reader.Holds x.pipe []) := by
  induction fs generalizing r p rest with
  | nil => exact .inl ⟨Nat.zero_le _, rfl, rfl, rfl, h⟩
  | cons f fs ih =>
    unfold recvFields
    rw [List.map_cons, List.sum_cons]
    simp only
    rcases agentRead_spec h f.length with ⟨hle, hret, hdata, hholds⟩ | ⟨hlt, hret, hholds⟩
    · rw [if_neg (not_not.mpr hret)]
      rcases ih hholds with ⟨hle', hret', hflat, hlens, hholds'⟩ | ⟨hlt, hret', hholds'⟩
      · rw [List.length_drop] at hle'
        refine .inl ⟨by omega, hret', ?_, ?_, ?_⟩
        · rw [List.flatten_cons, hflat, hdata, List.take_add]
        · rw [List.map_cons, hlens, hdata, List.length_take, Nat.min_eq_left hle]
        · rw [List.drop_drop] at hholds'
          exact hholds'
      · rw [List.length_drop] at hlt
        exact .inr ⟨by omega, hret', hholds'⟩
    · have hbad : (agentRead r p f.length).ret ≠ agentOk := by
        rw [hret]
        decide
      rw [if_pos hbad]
      exact .inr ⟨by omega, hret, hholds⟩

/-! ## Headers that are received -/

theorem AgentHeader.ofFields_fields (h : AgentHeader) : ofFields h.fields = h := by
  have hword (x : Word32) : BitVec.ofNat 32 (leVal (leBytes 4 x.toNat)) = x := by
    have hlt := x.isLt
    rw [leVal_leBytes, Nat.mod_eq_of_lt (by omega), BitVec.ofNat_toNat, BitVec.setWidth_eq]
  have hlong (x : Word64) : BitVec.ofNat 64 (leVal (leBytes 8 x.toNat)) = x := by
    have hlt := x.isLt
    rw [leVal_leBytes, Nat.mod_eq_of_lt (by omega), BitVec.ofNat_toNat, BitVec.setWidth_eq]
  obtain ⟨version, type, status, intArg, intArg2, ⟨hi, lo⟩, strArg⟩ := h
  simp only [ofFields, fields, List.getD_cons_zero, List.getD_cons_succ, hword, Bytes.ofList_val,
    List.take_left' (length_leBytes _ _), List.drop_left' (length_leBytes _ _), hlong]

/-- The size of a header. -/
abbrev agentHeaderSize : ℕ := 291

theorem AgentHeader.lengths (h : AgentHeader) :
    h.fields.map List.length = [4, 4, 4, 4, 4, 16, 255] := by
  simp only [fields, List.map_cons, List.map_nil, length_leBytes, List.length_append,
    Bytes.length_val]

theorem AgentHeader.length_flatten (h : AgentHeader) : h.fields.flatten.length = agentHeaderSize := by
  rw [List.length_flatten, h.lengths]
  rfl

/-- Headers in the stream are received one by one, and a part of one is not. -/
theorem recvCalls_spec (n : ℕ) {hs : List AgentHeader} {t : List Byte} (rhdr : AgentHeader)
    (h : r.Holds p (hs.flatMap (fun x => x.fields.flatten) ++ t)) (ht : t.length < agentHeaderSize) :
    (recvCalls n rhdr r p).map received =
      (hs.map (fun x => some (hdrCheck x, x)) ++ List.replicate n none).take n := by
  -- one call takes one header, or fails at what is less than one
  induction n generalizing hs t rhdr r p with
  | zero => rfl
  | succ n ih =>
    have hsize : (rhdr.fields.map List.length).sum = agentHeaderSize := by
      rw [rhdr.lengths]
      rfl
    have hfields := recvFields_spec h rhdr.fields
    simp only at hfields
    rw [hsize] at hfields
    unfold recvCalls agentHdrRecv
    simp only [Bool.false_eq_true, if_false, List.map_cons]
    rcases hs with _ | ⟨hdr, hs⟩
    · -- nothing whole is left
      rw [List.flatMap_nil, List.nil_append] at hfields
      rcases hfields with ⟨hle, -⟩ | ⟨-, hret, hholds⟩
      · omega
      · have hbad : (recvFields rhdr.fields r p).ret ≠ agentOk := by
          rw [hret]
          decide
        rw [if_pos hbad]
        have hrest := @ih _ _ [] [] (.ofFields (recvFields rhdr.fields r p).fields) hholds
          (by decide)
        rw [hrest, received]
        simp only
        rw [if_pos hret]
        rfl
    · -- the next header is read, field by field
      rw [List.flatMap_cons, List.append_assoc] at hfields
      rcases hfields with ⟨-, hret, hflat, hlens, hholds⟩ | ⟨hlt, -, -⟩
      · rw [List.take_left' hdr.length_flatten] at hflat
        rw [List.drop_left' hdr.length_flatten] at hholds
        have heq : (recvFields rhdr.fields r p).fields = hdr.fields :=
          List.eq_iff_flatten_eq.mpr ⟨hflat, hlens.trans (rhdr.lengths.trans hdr.lengths.symm)⟩
        rw [if_neg (not_not.mpr hret), heq, AgentHeader.ofFields_fields, ih hdr hholds ht]
        have hcheck : hdrCheck hdr ≠ agentErrDisconnect := by
          unfold hdrCheck
          split_ifs
          · decide
          · decide
        have htail : (hs.map (fun x => some (hdrCheck x, x)) ++ List.replicate n none ++
            [none]).take n = (hs.map (fun x => some (hdrCheck x, x)) ++
              List.replicate n none).take n := by
          refine List.take_append_of_le_length ?_
          rw [List.length_append, List.length_replicate]
          exact Nat.le_add_left _ _
        rw [received, if_neg hcheck, List.map_cons, List.cons_append, List.take_succ_cons,
          List.replicate_succ', ← List.append_assoc, htail]
      · rw [List.length_append, hdr.length_flatten] at hlt
        omega

end

/-! ## Headers that are sent -/

/-- What is sent is written in full, and what is not, in part. -/
theorem sendFields_written {fs : List (List Byte)} (hfs : ∀ f ∈ fs, f ≠ []) (out : Out) :
    ∃ t, (sendFields fs out).2.written = out.written ++ t ∧
      ((sendFields fs out).1 = some agentOk ∧ t = fs.flatten ∨
        (sendFields fs out).1 ≠ some agentOk ∧ t.length < fs.flatten.length ∧
          ((sendFields fs out).1 ≠ none → (sendFields fs out).2.replies = [])) := by
  induction fs generalizing out with
  | nil => exact ⟨[], (List.append_nil _).symm, .inl ⟨rfl, rfl⟩⟩
  | cons f fs ih =>
    obtain ⟨hne, hfs⟩ := List.forall_mem_cons.mp hfs
    have hpos := List.length_pos_iff.mpr hne
    obtain ⟨written, replies⟩ := out
    rcases replies with _ | ⟨n, replies⟩
    · refine ⟨[], (List.append_nil _).symm, .inr ⟨?_, ?_, fun _ => rfl⟩⟩
      · change some agentErrDisconnect ≠ some agentOk
        decide
      · rw [List.flatten_cons, List.length_append, List.length_nil]
        omega
    · unfold sendFields agentWrite
      simp only
      by_cases hle : f.length ≤ n
      · rw [if_pos hle]
        simp only
        rw [if_neg (not_not.mpr rfl), List.take_of_length_le hle]
        obtain ⟨t, hwritten, ⟨hret, rfl⟩ | ⟨hret, hlt, hrep⟩⟩ := ih hfs ⟨written ++ f, replies⟩
        · exact ⟨f ++ fs.flatten, by rw [hwritten, List.append_assoc], .inl ⟨hret, rfl⟩⟩
        · refine ⟨f ++ t, by rw [hwritten, List.append_assoc], .inr ⟨hret, ?_, hrep⟩⟩
          rw [List.flatten_cons, List.length_append, List.length_append]
          omega
      · rw [if_neg hle]
        refine ⟨f.take n, rfl, .inr ⟨nofun, ?_, fun h => absurd rfl h⟩⟩
        rw [List.flatten_cons, List.length_append, List.length_take]
        omega

theorem AgentHeader.fields_ne_nil (h : AgentHeader) : ∀ f ∈ h.fields, f ≠ [] := by
  rintro f hf rfl
  have hlen : [].length ∈ h.fields.map List.length := List.mem_map_of_mem hf
  rw [h.lengths] at hlen
  exact absurd hlen (by decide)

/-- Nothing is sent once `write` has failed. -/
theorem sendAll_closed (hs : List AgentHeader) (written : List Byte) :
    sendAll hs ⟨written, []⟩ = ([], ⟨written, []⟩) := by
  induction hs with
  | nil => rfl
  | cons h hs ih =>
    have hsend : agentHdrSend false h ⟨written, []⟩ = (some agentErrDisconnect, ⟨written, []⟩) := rfl
    unfold sendAll
    rw [hsend]
    simp only
    rw [ih, if_neg (by decide)]

/-- A sender leaves the headers that it sent, and a part of one that it did not. -/
theorem sendAll_written (hs : List AgentHeader) (out : Out) :
    ∃ t : List Byte, t.length < agentHeaderSize ∧ (sendAll hs out).2.written =
      out.written ++ ((sendAll hs out).1.flatMap (fun x => x.fields.flatten) ++ t) := by
  induction hs generalizing out with
  | nil => exact ⟨[], by decide, (List.append_nil _).symm⟩
  | cons h hs ih =>
    have hsend := sendFields_written h.fields_ne_nil out
    rw [h.length_flatten] at hsend
    unfold sendAll agentHdrSend
    simp only [Bool.false_eq_true, if_false]
    obtain ⟨t, hwritten, hcase⟩ := hsend
    rcases hres : sendFields h.fields out with ⟨ret, out'⟩
    rw [hres] at hwritten hcase
    rcases ret with _ | ret
    · rcases hcase with ⟨hret, -⟩ | ⟨-, hlt, -⟩
      · cases hret
      · exact ⟨t, hlt, hwritten⟩
    · rcases hcase with ⟨hret, rfl⟩ | ⟨hret, hlt, hclosed⟩
      · obtain rfl := Option.some.inj hret
        obtain ⟨t, hlt, hrest⟩ := ih out'
        refine ⟨t, hlt, ?_⟩
        simp only [if_true]
        rw [hrest, hwritten, List.flatMap_cons, List.append_assoc, List.append_assoc]
      · have hne : ret ≠ agentOk := fun h => hret (congrArg some h)
        have hclosed : out' = ⟨out.written ++ t, []⟩ := by
          cases out'
          simp only at hwritten hclosed
          rw [hwritten, hclosed (Option.some_ne_none _)]
        simp only
        rw [if_neg hne, hclosed, sendAll_closed]
        exact ⟨t, hlt, rfl⟩

/-! ## Framing -/

theorem Reader.holds_start (buff : ℕ → Byte) {p : Pipe} (h : ∀ n, (p.ends n).val = 0) :
    (Reader.start buff).Holds p p.stream :=
  ⟨Nat.zero_le _, rfl, h⟩

/-- The framing holds when the stream ends without an error. -/
theorem framed_of_ends {p : Pipe} (h : ∀ n, (p.ends n).val = 0) : Framed p where
  delivers buff lens := by
    obtain ⟨houts, -, hlens⟩ := readCalls_spec (Reader.holds_start buff h) lens
    refine ⟨?_, hlens⟩
    rw [houts]
    exact delivered_readAll _ _
  succeeds buff lens len := by
    obtain ⟨houts, hend, -⟩ := readCalls_spec (Reader.holds_start buff h) lens
    rcases hcalls : readCalls lens (Reader.start buff) p with ⟨calls, r, p'⟩
    rw [hcalls] at houts hend
    simp only at houts hend ⊢
    have hall : (readAll p.stream (lens.map BitVec.toNat)).1.all Option.isSome = true ↔
        ∀ c ∈ calls, c.ret = agentOk := by
      rw [← houts, List.all_map, List.all_eq_true]
      refine forall₂_congr fun c _ => ?_
      rw [Function.comp_apply, ReadCall.outcome]
      split_ifs with hret
      · exact iff_of_true rfl hret
      · exact iff_of_false (by decide) hret
    rw [readAll_rest] at hend
    have hiff (rest : List Byte) (hr : r.Holds p' rest) :
        (agentRead r p' len.toNat).ret = agentOk ↔ len.toNat ≤ rest.length := by
      rcases agentRead_spec hr len.toNat with ⟨hle, hret, -⟩ | ⟨hlt, hret, -⟩
      · exact iff_of_true hret hle
      · refine iff_of_false ?_ (Nat.not_le.mpr hlt)
        rw [hret]
        decide
    have hzero : len = 0 ↔ len.toNat = 0 := by
      rw [← BitVec.toNat_inj]
      rfl
    rw [hiff _ hend, hzero, ← hall]
    split_ifs with hok
    · rw [List.length_drop]
      simp only [hok, true_and]
      omega
    · simp only [hok, Bool.false_eq_true, false_and, or_false]
      rw [List.length_nil, Nat.le_zero]
  headers buff rhdr hs replies hstream n := by
    obtain ⟨t, ht, hwritten⟩ := sendAll_written hs ⟨[], replies⟩
    have hholds := Reader.holds_start buff h
    rw [hstream, hwritten, List.nil_append] at hholds
    exact recvCalls_spec n rhdr hholds ht

section

variable {r : Reader} {p : Pipe}

/-- Some calls, one of which fails, after which a byte is delivered. -/
def Invents (r : Reader) (p : Pipe) : Prop :=
  ∃ lens, (∃ c ∈ (readCalls lens r p).1, c.ret ≠ agentOk) ∧
    (agentRead (readCalls lens r p).2.1 (readCalls lens r p).2.2 1).ret = agentOk

theorem Invents.cons (len : Word64) (h : Invents (agentRead r p len.toNat).reader
    (agentRead r p len.toNat).pipe) : Invents r p := by
  obtain ⟨lens, ⟨c, hc, hbad⟩, hok⟩ := h
  exact ⟨len :: lens, ⟨c, List.mem_cons_of_mem _ hc, hbad⟩, hok⟩

theorem Reader.copy_empty (h : r.buffered = 0) (len : ℕ) : r.copy len = ([], len, r) :=
  if_neg (not_not.mpr h)

/-- A count that is not zero is never too small for one byte. -/
theorem agentRead_one (h : r.buffered ≠ 0) : (agentRead r p 1).ret = agentOk := by
  have hpos : ¬ r.buffered.toNat < 1 := by
    intro hlt
    exact h (BitVec.eq_of_toNat_eq (Nat.lt_one_iff.mp hlt))
  unfold agentRead agentReadLoop Reader.copy
  rw [if_pos h]
  simp only
  rw [if_neg hpos, if_pos rfl]

/-- A read at the end fails, and keeps what `read` returned. -/
theorem agentRead_end (h : r.buffered = 0) (ends : ℕ → Ending) :
    agentRead r ⟨[], ends⟩ 1 =
      ⟨agentErrDisconnect, [], ⟨r.buff, 0, (ends 0).val⟩, ⟨[], fun n => ends (n + 1)⟩⟩ := by
  unfold agentRead agentReadLoop
  simp only [Reader.copy_empty h]
  rfl

/-- An error of `read` is taken for bytes in the buffer by the next call. -/
theorem invents_at_error {ends : ℕ → Ending} (h : r.buffered = 0) (herror : (ends 0).val ≠ 0) :
    Invents r ⟨[], ends⟩ := by
  refine ⟨[1], ⟨⟨1, _, _⟩, List.mem_cons_self .., ?_⟩, ?_⟩
  · change (agentRead r ⟨[], ends⟩ 1).ret ≠ agentOk
    rw [agentRead_end h]
    change agentErrDisconnect ≠ agentOk
    decide
  · change (agentRead (agentRead r ⟨[], ends⟩ 1).reader (agentRead r ⟨[], ends⟩ 1).pipe 1).ret =
      agentOk
    rw [agentRead_end h]
    exact agentRead_one herror

theorem invents_of_error {k : ℕ} {ends : ℕ → Ending} (h : r.buffered = 0)
    (hk : (ends k).val ≠ 0) : Invents r ⟨[], ends⟩ := by
  induction k generalizing r ends with
  | zero => exact invents_at_error h hk
  | succ k ih =>
    by_cases hzero : (ends 0).val = 0
    · refine Invents.cons 1 ?_
      change Invents (agentRead r ⟨[], ends⟩ 1).reader (agentRead r ⟨[], ends⟩ 1).pipe
      rw [agentRead_end h]
      exact ih hzero hk
    · exact invents_at_error h hzero

/-- A chunk that is read in one call. -/
theorem agentRead_chunk (h : r.buffered = 0) (c : Chunk) (chunks : List Chunk)
    (ends : ℕ → Ending) :
    ((agentRead r ⟨c :: chunks, ends⟩ c.val.length).reader).buffered = 0 ∧
      (agentRead r ⟨c :: chunks, ends⟩ c.val.length).pipe = ⟨chunks, ends⟩ := by
  obtain ⟨hpos, hle⟩ := c.property
  have hle : c.val.length ≤ 300 := hle
  have hcount : (r.fill c.val).buffered.toNat = c.val.length := by
    change c.val.length % 2 ^ 64 = c.val.length
    exact Nat.mod_eq_of_lt (by omega)
  have hcopy : (r.fill c.val).copy c.val.length = ((r.fill c.val).bytes c.val.length, 0,
      { r.fill c.val with pos := c.val.length, buffered := 0 }) := by
    have hne : (r.fill c.val).buffered ≠ 0 := by
      intro hzero
      rw [hzero] at hcount
      exact absurd hcount.symm (Nat.pos_iff_ne_zero.mp hpos)
    have hsub : (r.fill c.val).buffered - BitVec.ofNat 64 c.val.length = 0 := BitVec.sub_self _
    have hzero : (r.fill c.val).pos + c.val.length = c.val.length := Nat.zero_add _
    unfold Reader.copy
    rw [if_pos hne]
    simp only
    rw [if_neg (by omega), hsub, hzero, Nat.sub_self]
  have hrest : agentReadLoop ends chunks (r.fill c.val) c.val.length =
      ⟨agentOk, (r.fill c.val).bytes c.val.length,
        { r.fill c.val with pos := c.val.length, buffered := 0 }, ⟨chunks, ends⟩⟩ := by
    cases chunks with
    | nil =>
      unfold agentReadLoop
      simp only [hcopy]
      rfl
    | cons c' chunks =>
      unfold agentReadLoop
      simp only [hcopy]
      rfl
  unfold agentRead agentReadLoop
  simp only [Reader.copy_empty h]
  rw [if_neg (Nat.pos_iff_ne_zero.mp hpos), hrest]
  exact ⟨rfl, rfl⟩

theorem invents_of_drained {k : ℕ} {ends : ℕ → Ending} (h : r.buffered = 0)
    (hk : (ends k).val ≠ 0) (chunks : List Chunk) : Invents r ⟨chunks, ends⟩ := by
  induction chunks generalizing r with
  | nil => exact invents_of_error h hk
  | cons c chunks ih =>
    have hlen : c.val.length ≤ 300 := c.property.2
    have hcount : (BitVec.ofNat 64 c.val.length).toNat = c.val.length := by
      rw [BitVec.toNat_ofNat]
      omega
    refine Invents.cons (BitVec.ofNat 64 c.val.length) ?_
    rw [hcount]
    obtain ⟨hempty, hpipe⟩ := agentRead_chunk h c chunks ends
    rw [hpipe]
    exact ih hempty

end

/-- The framing fails when a read fails. -/
theorem Framed.ends {p : Pipe} (h : Framed p) (n : ℕ) : (p.ends n).val = 0 := by
  by_contra hn
  obtain ⟨lens, ⟨c, hc, hbad⟩, hok⟩ :=
    @invents_of_drained (Reader.start fun _ => 0) n p.ends rfl hn p.chunks
  have hsucc := h.succeeds (fun _ => 0) lens 1
  rcases hsucc.mp hok with hzero | ⟨hall, -⟩
  · exact absurd hzero (by decide)
  · exact hbad (hall c hc)

/-- The framing holds exactly for the pipes that end without an error. -/
theorem framed_iff (p : Pipe) : Framed p ↔ ∀ n, (p.ends n).val = 0 :=
  ⟨Framed.ends, framed_of_ends⟩

/-- On an empty pipe whose reads fail, the second call delivers a byte. -/
theorem failed_read_not_framed : ¬ ∀ p, Framed p := by
  intro h
  have hend := (h ⟨[], fun _ => ⟨-1, .inr (by decide)⟩⟩).ends 0
  exact absurd hend (by decide)

end Otpasswd
