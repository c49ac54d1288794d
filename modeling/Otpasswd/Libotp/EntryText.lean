import Otpasswd.Libotp.State

/-!
# Otpasswd.Libotp.EntryText — one line of the database

An entry is stored as fifteen fields separated by colons. `dbParseUserEntry`
and `dbLoadFields` are the reader of `db_file.c`, which fills a state field by
field and may stop half way; `decodeEntry` says what a line means, without a
state. `dbEntryText` is the line that `_db_generate_user_entry` prints.

Main results: `dbLoadFields_eq` (the reader computes the meaning, whatever
the state held before) and `decodeEntry_dbEntryText` (what is printed for a
valid entry is read back as that entry).
-/

namespace Otpasswd

open CText

/-! ## Splitting -/

/-- `_strtok` with `_delim`; the token is cut at a newline. -/
def strtok (position : Option (List Char)) : Option (List Char) × Option (List Char) :=
  ((strsep ':' position).1.map (·.takeWhile (· ≠ '\n')), (strsep ':' position).2)

/-- The loop of `_db_parse_user_entry` with `n` fields to go. -/
def dbParseLoop : ℕ → Option (List Char) → Option (List (List Char))
  | 0, position => if (strtok position).1.isSome then none else some []
  | n + 1, position =>
    match strtok position with
    | (none, _) => none
    | (some field, position) =>
      if stateMaxFieldSize < field.length then none
      -- the version, second of the fifteen fields, is checked at once
      else if n + 1 = 14 ∧ scanU32 10 field ≠ some 1 then none
      else (dbParseLoop n position).map (field :: ·)

/-- The array `field`, indexed by `FIELD_USER` to `FIELD_CONTACT`. -/
structure Fields where
  user : List Char
  version : List Char
  key : List Char
  counter : List Char
  latestCard : List Char
  failures : List Char
  recentFailures : List Char
  channelTime : List Char
  codeLength : List Char
  alphabet : List Char
  flags : List Char
  spass : List Char
  spassTime : List Char
  label : List Char
  contact : List Char
deriving DecidableEq

namespace Fields

def toList (f : Fields) : List (List Char) :=
  [f.user, f.version, f.key, f.counter, f.latestCard, f.failures, f.recentFailures, f.channelTime,
    f.codeLength, f.alphabet, f.flags, f.spass, f.spassTime, f.label, f.contact]

def ofList : List (List Char) → Option Fields
  | [user, version, key, counter, latestCard, failures, recentFailures, channelTime, codeLength,
      alphabet, flags, spass, spassTime, label, contact] =>
    some ⟨user, version, key, counter, latestCard, failures, recentFailures, channelTime,
      codeLength, alphabet, flags, spass, spassTime, label, contact⟩
  | _ => none

@[simp] theorem ofList_toList (f : Fields) : ofList f.toList = some f := rfl

end Fields

/-- `_db_parse_user_entry`: the fields, or `none` for `STATE_PARSE_ERROR`. -/
def dbParseUserEntry (buff : List Char) : Option Fields :=
  (dbParseLoop 15 (some buff)).bind Fields.ofList

/-! ## Reading the fields into a state -/

/-- One byte of the sequence key: two characters must be there. -/
def scanKeyByte (pos : List Char) : Option Byte := if 2 ≤ pos.length then scanHexByte pos else none

/-- The `sscanf` loop over the sequence key. -/
def dbLoadKey : List Byte → List Char → Bool × List Byte
  | [], _ => (true, [])
  | b :: bs, pos =>
    match scanKeyByte pos with
    | some v => ((dbLoadKey bs (pos.drop 2)).1, v :: (dbLoadKey bs (pos.drop 2)).2)
    | none => (false, b :: bs)

@[simp] theorem length_dbLoadKey (old : List Byte) (pos : List Char) :
    (dbLoadKey old pos).2.length = old.length := by
  induction old generalizing pos with
  | nil => rfl
  | cons b bs ih =>
    rw [dbLoadKey]
    cases scanKeyByte pos with
    | none => rfl
    | some v => simp [ih]

/-- A key that is read whole replaces all old bytes. -/
theorem dbLoadKey_ok {old old' : List Byte} {pos : List Char} (hlen : old.length = old'.length)
    (h : (dbLoadKey old pos).1 = true) : dbLoadKey old' pos = dbLoadKey old pos := by
  induction old generalizing old' pos with
  | nil =>
    rw [List.length_nil, eq_comm, List.length_eq_zero_iff] at hlen
    rw [hlen]
  | cons b bs ih =>
    obtain ⟨b', bs', rfl⟩ := List.exists_cons_of_length_eq_add_one hlen.symm
    rw [dbLoadKey] at h ⊢
    rw [dbLoadKey]
    cases hv : scanKeyByte pos with
    | none => simp [hv] at h
    | some v =>
      rw [hv] at h
      simp only
      rw [ih (by simpa using hlen) h]

/-- A key printed byte by byte is read back. -/
theorem dbLoadKey_hexBytes (old bs : List Byte) (h : old.length = bs.length) :
    dbLoadKey old (hexBytes bs) = (true, bs) := by
  induction bs generalizing old with
  | nil =>
    rw [List.length_nil, List.length_eq_zero_iff] at h
    rw [h, dbLoadKey]
  | cons b bs ih =>
    obtain ⟨o, old, rfl⟩ := List.exists_cons_of_length_eq_add_one h
    have hbyte : scanKeyByte (hexByte b ++ hexBytes bs) = some b := by
      rw [scanKeyByte, if_pos (by simp), scanHexByte_hexByte]
    rw [hexBytes_cons, dbLoadKey, hbyte]
    simp only [List.drop_left' (length_hexByte b)]
    rw [ih old (by simpa using h)]

/-- A conversion or check of the loader: whether it succeeds, and the state
with what it stored. -/
abbrev LoadStep := State → Bool × State

/-- Run conversions in order, up to the first that fails. -/
def runSteps : List LoadStep → State → ℕ × State
  | [], s => (0, s)
  | f :: fs, s => if (f s).1 then runSteps fs (f s).2 else (stateParseError, (f s).2)

/-- Store a value if its conversion succeeded. -/
def scanStep {α : Type} (value : Option α) (set : α → State → State) : LoadStep := fun s =>
  match value with
  | some v => (true, set v s)
  | none => (false, s)

def checkStep (ok : State → Bool) : LoadStep := fun s => (ok s, s)

def loadKey (field : List Char) : LoadStep := fun s =>
  ((dbLoadKey s.sequenceKey.val field).1,
    s.setSequenceKey (s.sequenceKey.update (dbLoadKey · field) (by simp)))

/-- `num_import`, which leaves the digits read so far also when it fails. -/
def loadNum (field : List Char) (set : Num → State → State) : LoadStep := fun s =>
  (decide ((numImportHex field).1 = 0), set (numImportHex field).2 s)

/-- The static password. Without one neither it nor its time is read. -/
def loadSpass (spass spassTime : List Char) : LoadStep := fun s =>
  if spass = [] then (true, s.setSpass s.spass false s.spassTime)
  else
    let bytes := s.spass.update (unhex · spass) (by simp)
    if (unhex s.spass.val spass).1 = true then
      match scanUnsigned 10 spassTime.length spassTime with
      | none => (false, s.setSpass bytes s.spassSet s.spassTime)
      | some time => (true, s.setSpass bytes true time)
    else (false, s.setSpass bytes s.spassSet s.spassTime)

/-- The field conversions of `db_file_load`, in its order. -/
def dbLoadFields (field : Fields) (s : State) : ℕ × State :=
  runSteps
    [loadKey field.key,
      loadNum field.counter State.setCounter,
      loadNum field.latestCard State.setLatestCard,
      scanStep (scanU32 10 field.failures) State.setFailures,
      scanStep (scanU32 10 field.recentFailures) State.setRecentFailures,
      scanStep (scanUnsigned 10 field.channelTime.length field.channelTime) State.setChannelTime,
      scanStep (scanU32 10 field.codeLength) State.setCodeLength,
      scanStep (scanU32 10 field.alphabet) State.setAlphabet,
      scanStep (scanU32 16 field.flags) State.setFlags,
      loadSpass field.spass field.spassTime,
      -- the last byte of both arrays is zero, so the length checks never fail
      fun s => (true, (s.setLabel (.strncpy _ field.label)).setContact (.strncpy _ field.contact)),
      checkStep fun s => stateValidateStr s.label.val,
      checkStep fun s => stateValidateStr s.contact.val,
      checkStep fun s => numCmp s.counter (numI 0) ≠ -1,
      checkStep fun s => numCmp s.latestCard (numI 0) ≠ -1,
      checkStep fun s => ¬ (s.codeLength < 2 ∨ 16 < s.codeLength),
      checkStep fun s => ¬ flagShow ||| flagSalted ||| flagDisabled < s.flags] s

/-! ## The meaning of a line -/

/-- The key a field of hexadecimal digits stands for. -/
def decodeKey (field : List Char) : Option (Bytes 32) :=
  if (dbLoadKey (Bytes.zero 32).val field).1 then
    some ((Bytes.zero 32).update (dbLoadKey · field) (by simp))
  else none

def decodeNum (field : List Char) : Option Num :=
  if (numImportHex field).1 = 0 then some (numImportHex field).2 else none

def decodeSpass (spass spassTime : List Char) : Option (Option (Bytes 40 × Word64)) :=
  if spass = [] then some none
  else if (unhex (Bytes.zero 40).val spass).1 then
    (scanUnsigned 10 spassTime.length spassTime).map fun t =>
      some ((Bytes.zero 40).update (unhex · spass) (by simp), t)
  else none

/-- The entry that fifteen fields describe. -/
def decodeEntry (field : Fields) : Option Entry := do
  let key ← decodeKey field.key
  let counter ← decodeNum field.counter
  let latestCard ← decodeNum field.latestCard
  let failures ← scanU32 10 field.failures
  let recentFailures ← scanU32 10 field.recentFailures
  let channelTime ← scanUnsigned 10 field.channelTime.length field.channelTime
  let codeLength ← scanU32 10 field.codeLength
  let alphabet ← scanU32 10 field.alphabet
  let flags ← scanU32 16 field.flags
  let spass ← decodeSpass field.spass field.spassTime
  let e : Entry :=
    ⟨key, counter, latestCard, failures, recentFailures, channelTime, codeLength, alphabet, flags,
      spass, .strncpy _ field.label, .strncpy _ field.contact⟩
  if e.Valid then some e else none

/-- Fill a state from an entry. Without a static password the bytes and the
time of an earlier one stay. -/
def State.load (s : State) (e : Entry) : State :=
  { s with
    sequenceKey := e.sequenceKey
    counter := e.counter
    latestCard := e.latestCard
    failures := e.failures
    recentFailures := e.recentFailures
    channelTime := e.channelTime
    codeLength := e.codeLength
    alphabet := e.alphabet
    flags := e.flags
    spass := (e.spass.map Prod.fst).getD s.spass
    spassSet := e.spass.isSome
    spassTime := (e.spass.map Prod.snd).getD s.spassTime
    label := e.label
    contact := e.contact }

@[simp] theorem State.entry_load (s : State) (e : Entry) : (s.load e).entry = e := by
  obtain ⟨k, c, l, f, r, ch, cl, a, fl, _ | ⟨b, t⟩, la, co⟩ := e <;> rfl

theorem decodeNum_eq (field : List Char) :
    decodeNum field = none ∧ (numImportHex field).1 ≠ 0 ∨
      ∃ n, decodeNum field = some n ∧ numImportHex field = (0, n) := by
  unfold decodeNum
  split
  · rename_i h
    exact .inr ⟨_, rfl, Prod.ext h rfl⟩
  · rename_i h
    exact .inl ⟨rfl, h⟩

/-- A step of the loader reads `value`, on whatever state. -/
def LoadStep.Reads {α : Type} (f : LoadStep) (value : Option α) (set : α → State → State) : Prop :=
  ∀ s, match value with
    | some v => f s = (true, set v s)
    | none => (f s).1 = false

theorem reads_scanStep {α : Type} (value : Option α) (set : α → State → State) :
    (scanStep value set).Reads value set := by
  intro s
  cases value <;> rfl

theorem reads_loadKey (field : List Char) :
    (loadKey field).Reads (decodeKey field) State.setSequenceKey := by
  intro s
  have hlen : s.sequenceKey.val.length = (Bytes.zero 32).val.length := by simp
  unfold decodeKey
  cases hz : (dbLoadKey (Bytes.zero 32).val field).1 with
  | true =>
    have hs : dbLoadKey s.sequenceKey.val field = dbLoadKey (Bytes.zero 32).val field :=
      dbLoadKey_ok hlen.symm hz
    simp only [if_true, loadKey, hs, hz]
    refine Prod.ext rfl ?_
    exact congrArg (State.setSequenceKey · s) (Subtype.ext (by simp [Bytes.update, hs]))
  | false =>
    cases hs : (dbLoadKey s.sequenceKey.val field).1 with
    | false => exact hs
    | true =>
      rw [dbLoadKey_ok hlen hs, hs] at hz
      exact absurd hz (by simp)

theorem reads_loadNum (field : List Char) (set : Num → State → State) :
    (loadNum field set).Reads (decodeNum field) set := by
  intro s
  rcases decodeNum_eq field with ⟨hn, h⟩ | ⟨n, hn, h⟩
  · rw [hn]
    simp [loadNum, h]
  · rw [hn]
    simp [loadNum, h]

theorem unhex_ok {old old' : List Byte} {s : List Char} (hlen : old.length = old'.length)
    (h : (unhex old s).1 = true) : unhex old' s = unhex old s := by
  induction old, s using unhex.induct generalizing old' with
  | case1 s =>
    rw [List.length_nil, eq_comm, List.length_eq_zero_iff] at hlen
    rw [hlen]
  | case2 b bs c1 c2 s d1 d2 h1 h2 ih =>
    obtain ⟨b', bs', rfl⟩ := List.exists_cons_of_length_eq_add_one hlen.symm
    simp only [unhex, h1, h2] at h ⊢
    rw [ih (by simpa using hlen) h]
  | case3 b bs c1 c2 s hno =>
    rw [unhex_bad hno] at h
    simp at h
  | case4 bs s h1 h2 =>
    unfold unhex at h
    split at h
    · exact (h1 rfl).elim
    · exact (h2 _ _ _ _ _ rfl rfl).elim
    · simp at h

theorem reads_loadSpass (spass spassTime : List Char) :
    (loadSpass spass spassTime).Reads (decodeSpass spass spassTime) fun v s =>
      s.setSpass ((v.map Prod.fst).getD s.spass) v.isSome ((v.map Prod.snd).getD s.spassTime) := by
  intro s
  have hlen : s.spass.val.length = (Bytes.zero 40).val.length := by simp
  unfold decodeSpass loadSpass
  by_cases hempty : spass = []
  · simp [hempty]
  · simp only [hempty, if_false]
    cases hz : (unhex (Bytes.zero 40).val spass).1 with
    | true =>
      have hs : unhex s.spass.val spass = unhex (Bytes.zero 40).val spass := unhex_ok hlen.symm hz
      have hup : s.spass.update (unhex · spass) (by simp) =
          (Bytes.zero 40).update (unhex · spass) (by simp) :=
        Subtype.ext (by simp [Bytes.update, hs])
      cases htime : scanUnsigned 10 spassTime.length spassTime with
      | none => simp [hs, hz]
      | some t => simp [hs, hz, hup]
    | false =>
      cases hs : (unhex s.spass.val spass).1 with
      | false => simp [hs]
      | true =>
        rw [unhex_ok hlen hs, hs] at hz
        exact absurd hz (by simp)

theorem runSteps_none {α : Type} {f : LoadStep} {value : Option α} {set : α → State → State}
    (h : f.Reads value set) (hv : value = none) (fs : List LoadStep) (s : State) :
    (runSteps (f :: fs) s).1 = stateParseError := by
  subst hv
  simp [runSteps, show (f s).1 = false from h s]

theorem runSteps_some {α : Type} {f : LoadStep} {value : Option α} {set : α → State → State}
    (h : f.Reads value set) {v : α} (hv : value = some v) (fs : List LoadStep) (s : State) :
    runSteps (f :: fs) s = runSteps fs (set v s) := by
  subst hv
  simp [runSteps, show f s = (true, set v s) from h s]

theorem runSteps_check (ok : State → Bool) (fs : List LoadStep) (s : State) :
    runSteps (checkStep ok :: fs) s = if ok s then runSteps fs s else (stateParseError, s) := rfl

theorem not_flags_lt (flags : Word32) :
    ¬ flagShow ||| flagSalted ||| flagDisabled < flags ↔ flags.toNat ≤ 7 := by
  have h7 : flagShow ||| flagSalted ||| flagDisabled = 7#32 := by decide
  rw [h7, BitVec.lt_def]
  simp

theorem not_codeLength_range (n : Word32) :
    ¬ (n < 2 ∨ 16 < n) ↔ 2 ≤ n.toNat ∧ n.toNat ≤ 16 := by
  simp only [BitVec.lt_def, BitVec.ofNat_eq_ofNat, BitVec.toNat_ofNat]
  omega

/-- The checks at the end of the loader are the validity of what was read. -/
theorem runSteps_checks (s : State) :
    runSteps
      [checkStep fun s => stateValidateStr s.label.val,
        checkStep fun s => stateValidateStr s.contact.val,
        checkStep fun s => numCmp s.counter (numI 0) ≠ -1,
        checkStep fun s => numCmp s.latestCard (numI 0) ≠ -1,
        checkStep fun s => ¬ (s.codeLength < 2 ∨ 16 < s.codeLength),
        checkStep fun s => ¬ flagShow ||| flagSalted ||| flagDisabled < s.flags] s =
      if s.entry.Valid then (0, s) else (stateParseError, s) := by
  have hneg (n : Num) : numCmp n (numI 0) ≠ -1 := by
    have := numSgn_nonneg n
    omega
  have hiff : s.entry.Valid ↔ stateValidateStr s.label.val = true ∧
      stateValidateStr s.contact.val = true ∧ (2 ≤ s.codeLength.toNat ∧ s.codeLength.toNat ≤ 16) ∧
        s.flags.toNat ≤ 7 :=
    ⟨fun ⟨h1, h2, h3, h4, h5⟩ => ⟨h4, h5, ⟨h1, h2⟩, h3⟩,
      fun ⟨h4, h5, ⟨h1, h2⟩, h3⟩ => ⟨h1, h2, h3, h4, h5⟩⟩
  simp only [runSteps_check]
  simp only [hneg, not_codeLength_range, not_flags_lt, runSteps, hiff, decide_eq_true_eq, ne_eq,
    not_false_eq_true, decide_true, if_true]
  by_cases h1 : stateValidateStr s.label.val = true
  · by_cases h2 : stateValidateStr s.contact.val = true
    · by_cases h3 : 2 ≤ s.codeLength.toNat ∧ s.codeLength.toNat ≤ 16 <;>
        simp only [h1, h2, h3, true_and, false_and, if_true, if_false]
    · simp only [h1, h2, Bool.false_eq_true, true_and, false_and, if_true, if_false]
  · simp only [h1, Bool.false_eq_true, false_and, if_false]

/-- The loader computes the meaning of the fields, on whatever state, and
fails with `STATE_PARSE_ERROR` where they have none. -/
theorem dbLoadFields_eq (field : Fields) (s : State) :
    match decodeEntry field with
    | some e => dbLoadFields field s = (0, s.load e)
    | none => (dbLoadFields field s).1 = stateParseError := by
  unfold dbLoadFields decodeEntry
  have k1 := reads_loadKey field.key
  have k2 := reads_loadNum field.counter State.setCounter
  have k3 := reads_loadNum field.latestCard State.setLatestCard
  rcases h1 : decodeKey field.key with _ | key
  · exact runSteps_none k1 h1 _ _
  rw [runSteps_some k1 h1]
  rcases h2 : decodeNum field.counter with _ | counter
  · exact runSteps_none k2 h2 _ _
  rw [runSteps_some k2 h2]
  rcases h3 : decodeNum field.latestCard with _ | latestCard
  · exact runSteps_none k3 h3 _ _
  rw [runSteps_some k3 h3]
  rcases scanU32 10 field.failures with _ | failures
  · exact runSteps_none (reads_scanStep _ _) rfl _ _
  rw [runSteps_some (reads_scanStep _ _) rfl]
  rcases scanU32 10 field.recentFailures with _ | recentFailures
  · exact runSteps_none (reads_scanStep _ _) rfl _ _
  rw [runSteps_some (reads_scanStep _ _) rfl]
  rcases scanUnsigned 10 field.channelTime.length field.channelTime with _ | channelTime
  · exact runSteps_none (reads_scanStep _ _) rfl _ _
  rw [runSteps_some (reads_scanStep _ _) rfl]
  rcases scanU32 10 field.codeLength with _ | codeLength
  · exact runSteps_none (reads_scanStep _ _) rfl _ _
  rw [runSteps_some (reads_scanStep _ _) rfl]
  rcases scanU32 10 field.alphabet with _ | alphabet
  · exact runSteps_none (reads_scanStep _ _) rfl _ _
  rw [runSteps_some (reads_scanStep _ _) rfl]
  rcases scanU32 16 field.flags with _ | flags
  · exact runSteps_none (reads_scanStep _ _) rfl _ _
  rw [runSteps_some (reads_scanStep _ _) rfl]
  have k10 := reads_loadSpass field.spass field.spassTime
  rcases h10 : decodeSpass field.spass field.spassTime with _ | spass
  · exact runSteps_none k10 h10 _ _
  rw [runSteps_some k10 h10]
  rw [runSteps, if_pos rfl, runSteps_checks]
  -- all fields are read: the assignments so far are a load of this entry
  let e : Entry :=
    ⟨key, counter, latestCard, failures, recentFailures, channelTime, codeLength, alphabet, flags,
      spass, .strncpy _ field.label, .strncpy _ field.contact⟩
  change match (if e.Valid then some e else none) with
    | some e' =>
      (if (s.load e).entry.Valid then (0, s.load e) else (stateParseError, s.load e)) =
        (0, s.load e')
    | none =>
      (if (s.load e).entry.Valid then (0, s.load e) else (stateParseError, s.load e)).1 =
        stateParseError
  rw [State.entry_load]
  by_cases hvalid : e.Valid
  · simp only [hvalid, if_true]
  · simp only [hvalid, if_false]

/-- The entry that fields mean, field by field. -/
structure Decodes (field : Fields) (e : Entry) : Prop where
  key : decodeKey field.key = some e.sequenceKey
  counter : decodeNum field.counter = some e.counter
  latestCard : decodeNum field.latestCard = some e.latestCard
  failures : scanU32 10 field.failures = some e.failures
  recentFailures : scanU32 10 field.recentFailures = some e.recentFailures
  channelTime : scanUnsigned 10 field.channelTime.length field.channelTime = some e.channelTime
  codeLength : scanU32 10 field.codeLength = some e.codeLength
  alphabet : scanU32 10 field.alphabet = some e.alphabet
  flags : scanU32 16 field.flags = some e.flags
  spass : decodeSpass field.spass field.spassTime = some e.spass
  label : CBuf.strncpy stateLabelSize field.label = e.label
  contact : CBuf.strncpy stateContactSize field.contact = e.contact
  valid : e.Valid

theorem decodeEntry_iff {field : Fields} {e : Entry} :
    decodeEntry field = some e ↔ Decodes field e := by
  constructor
  · intro h
    unfold decodeEntry at h
    simp only [Option.bind_eq_bind, Option.bind_eq_some_iff] at h
    obtain ⟨_, h1, _, h2, _, h3, _, h4, _, h5, _, h6, _, h7, _, h8, _, h9, _, h10, h⟩ := h
    split at h
    · rename_i hv
      obtain rfl := Option.some.inj h
      exact ⟨h1, h2, h3, h4, h5, h6, h7, h8, h9, h10, rfl, rfl, hv⟩
    · simp at h
  · intro h
    unfold decodeEntry
    simp only [h.key, h.counter, h.latestCard, h.failures, h.recentFailures, h.channelTime,
      h.codeLength, h.alphabet, h.flags, h.spass, h.label, h.contact, Option.bind_eq_bind,
      Option.bind_some]
    exact if_pos h.valid

theorem decodeEntry_valid {field : Fields} {e : Entry} (h : decodeEntry field = some e) :
    e.Valid :=
  (decodeEntry_iff.mp h).valid

/-! ## Printing an entry -/

/-- The arguments of the `snprintf` in `_db_generate_user_entry`, in the order
of its format. -/
def dbEntryFields (s : State) : Fields where
  user := s.username.val
  version := Nat.toDigits 10 1
  key := hexBytes s.sequenceKey.val
  counter := numExportHex s.counter
  latestCard := numExportHex s.latestCard
  failures := Nat.toDigits 10 s.failures.toNat
  recentFailures := Nat.toDigits 10 s.recentFailures.toNat
  channelTime := Nat.toDigits 10 s.channelTime.toNat
  codeLength := Nat.toDigits 10 s.codeLength.toNat
  alphabet := Nat.toDigits 10 s.alphabet.toNat
  flags := Nat.toDigits 16 s.flags.toNat
  spass := if s.spassSet then hexBytes s.spass.val else []
  spassTime := Nat.toDigits 10 s.spassTime.toNat
  label := s.label.val
  contact := s.contact.val

/-- The line that the format prints. -/
def dbEntryText (s : State) : List Char := joinSep ':' (dbEntryFields s).toList ++ ['\n']

/-- `_db_generate_user_entry`: the return code and the buffer, which holds as
much of the line as fits. -/
def dbGenerateUserEntry (s : State) (buffLength : ℕ) : ℕ × List Char :=
  let tmp := (dbEntryText s).length
  (if tmp < 10 ∨ tmp = buffLength then 1 else 0, (dbEntryText s).take (buffLength - 1))

/-! ## Reading back what was printed -/

/-- A token of a line: free of separators and line ends. -/
def Plain (tok : List Char) : Prop := ':' ∉ tok ∧ '\n' ∉ tok

theorem plain_of_digits {base : ℕ} {tok : List Char} (h : ∀ c ∈ tok, isDigitOf base c = true) :
    Plain tok :=
  ⟨fun hc => (digit_plain (h _ hc)).2.2.2.1 rfl, fun hc => (digit_plain (h _ hc)).2.2.2.2.1 rfl⟩

theorem plain_toDigits {base : ℕ} (h1 : 1 < base) (h2 : base ≤ 16) (n : ℕ) :
    Plain (Nat.toDigits base n) :=
  plain_of_digits fun _ hc => isDigitOf_of_mem_toDigits h1 h2 hc

theorem plain_hexBytes (bs : List Byte) : Plain (hexBytes bs) :=
  plain_of_digits fun _ hc => isDigitOf_of_mem_hexBytes hc

theorem takeWhile_newline {tok : List Char} (h : '\n' ∉ tok) :
    tok.takeWhile (· ≠ '\n') = tok :=
  List.takeWhile_eq_self_iff.mpr fun _ hc => decide_eq_true fun h0 => h (h0 ▸ hc)

theorem strtok_cons {tok : List Char} (h : Plain tok) (rest : List Char) :
    strtok (some (tok ++ ':' :: rest)) = (some tok, some rest) := by
  rw [strtok, strsep_cons h.1, Option.map_some, takeWhile_newline h.2]

theorem strtok_last {tok : List Char} (h : Plain tok) :
    strtok (some (tok ++ ['\n'])) = (some tok, none) := by
  have hsep : ':' ∉ tok ++ ['\n'] := by simpa using h.1
  rw [strtok, strsep_last hsep, Option.map_some, takeWhile_sep h.2]

theorem dbParseLoop_cons {n : ℕ} {tok : List Char} (h : Plain tok)
    (hlen : tok.length ≤ stateMaxFieldSize) (hver : n + 1 = 14 → scanU32 10 tok = some 1)
    (rest : List Char) :
    dbParseLoop (n + 1) (some (tok ++ ':' :: rest)) = (dbParseLoop n (some rest)).map (tok :: ·) := by
  rw [dbParseLoop, strtok_cons h]
  simp only
  rw [if_neg (Nat.not_lt.mpr hlen), if_neg]
  rintro ⟨hn, hne⟩
  exact hne (hver hn)

/-- The first field of what is split is the token in front. -/
theorem dbParseLoop_inv {n : ℕ} {tok rest : List Char} {fields : List (List Char)} (h : Plain tok)
    (hloop : dbParseLoop (n + 1) (some (tok ++ ':' :: rest)) = some fields) :
    ∃ fields', fields = tok :: fields' ∧ dbParseLoop n (some rest) = some fields' ∧
      tok.length ≤ stateMaxFieldSize := by
  rw [dbParseLoop, strtok_cons h] at hloop
  simp only at hloop
  split_ifs at hloop with hlen hver
  rw [Option.map_eq_some_iff] at hloop
  obtain ⟨fields', hrest, rfl⟩ := hloop
  exact ⟨fields', rfl, hrest, Nat.not_lt.mp hlen⟩

/-- Fields joined by separators are split again, past the version. -/
theorem dbParseLoop_joinSep {toks : List (List Char)} (hne : toks ≠ []) (hn : toks.length < 14)
    (hp : ∀ t ∈ toks, Plain t) (hlen : ∀ t ∈ toks, t.length ≤ stateMaxFieldSize) :
    dbParseLoop toks.length (some (joinSep ':' toks ++ ['\n'])) = some toks := by
  induction toks with
  | nil => exact absurd rfl hne
  | cons t ts ih =>
    have ht := hp t (by simp)
    have htl := hlen t (by simp)
    simp only [List.length_cons] at hn ⊢
    cases ts with
    | nil =>
      rw [dbParseLoop, joinSep, strtok_last ht]
      simp only
      rw [if_neg (Nat.not_lt.mpr htl), if_neg (by simp)]
      rfl
    | cons t2 ts =>
      rw [joinSep_cons_cons, List.append_assoc, List.cons_append,
        dbParseLoop_cons ht htl (by omega), ih (by simp) (by omega)
          (fun x hx => hp x (by simp only [List.mem_cons] at hx ⊢; tauto))
          (fun x hx => hlen x (by simp only [List.mem_cons] at hx ⊢; tauto))]
      rfl

theorem length_toDigits_le {base k n : ℕ} (hb : 1 < base) (hk : 0 < k) (h : n < base ^ k) :
    (Nat.toDigits base n).length ≤ k :=
  (Nat.length_toDigits_le_iff hb hk).mpr h

theorem length_dec32 (x : Word32) : (Nat.toDigits 10 x.toNat).length ≤ 10 :=
  length_toDigits_le (by omega) (by omega) (by have := x.isLt; omega)

theorem length_dec64 (x : Word64) : (Nat.toDigits 10 x.toNat).length ≤ 20 :=
  length_toDigits_le (by omega) (by omega) (by have := x.isLt; omega)

theorem length_hex32 (x : Word32) : (Nat.toDigits 16 x.toNat).length ≤ 8 :=
  length_toDigits_le (by omega) (by omega) (by have := x.isLt; omega)

/-- The part of a line after the user's name is bounded. -/
theorem length_dbEntryText (s : State) :
    ∃ k, (dbEntryText s).length = s.username.val.length + k ∧ 151 ≤ k ∧ k ≤ 400 := by
  have h1 := length_dec32 s.failures
  have h2 := length_dec32 s.recentFailures
  have h3 := length_dec64 s.channelTime
  have h4 := length_dec32 s.codeLength
  have h5 := length_dec32 s.alphabet
  have h6 := length_hex32 s.flags
  have h7 := length_dec64 s.spassTime
  have h8 := s.label.length_lt
  have h9 := s.contact.length_lt
  have h10 : (dbEntryFields s).spass.length ≤ 80 := by
    simp only [dbEntryFields]
    split <;> simp
  have hpos (b n : ℕ) : 0 < (Nat.toDigits b n).length :=
    List.length_pos_iff.mpr Nat.toDigits_ne_nil
  have p1 := hpos 10 s.failures.toNat
  have p2 := hpos 10 s.recentFailures.toNat
  have p3 := hpos 10 s.channelTime.toNat
  have p4 := hpos 10 s.codeLength.toNat
  have p5 := hpos 10 s.alphabet.toNat
  have p6 := hpos 16 s.flags.toNat
  have p7 := hpos 10 s.spassTime.toNat
  have hlen : (dbEntryText s).length = s.username.val.length + (144 +
      (Nat.toDigits 10 s.failures.toNat).length + (Nat.toDigits 10 s.recentFailures.toNat).length +
      (Nat.toDigits 10 s.channelTime.toNat).length + (Nat.toDigits 10 s.codeLength.toNat).length +
      (Nat.toDigits 10 s.alphabet.toNat).length + (Nat.toDigits 16 s.flags.toNat).length +
      (dbEntryFields s).spass.length + (Nat.toDigits 10 s.spassTime.toNat).length +
      s.label.val.length + s.contact.val.length) := by
    have hone : (Nat.toDigits 10 1).length = 1 := by decide
    rw [dbEntryText, List.length_append, length_joinSep]
    simp [Fields.toList, dbEntryFields, hone]
    omega
  refine ⟨_, hlen, ?_, ?_⟩ <;> simp only [stateLabelSize, stateContactSize] at h8 h9 <;> omega

/-- Splitting the printed line gives the printed fields. -/
theorem dbParseUserEntry_dbEntryText (s : State) (hu : Plain s.username.val)
    (hulen : s.username.val.length ≤ stateMaxFieldSize) (hl : Plain s.label.val)
    (hc : Plain s.contact.val) :
    dbParseUserEntry (dbEntryText s) = some (dbEntryFields s) := by
  have hlabel := s.label.length_lt
  have hcontact := s.contact.length_lt
  have hspass : Plain (dbEntryFields s).spass ∧
      (dbEntryFields s).spass.length ≤ stateMaxFieldSize := by
    simp only [dbEntryFields]
    split
    · exact ⟨plain_hexBytes _, by simp⟩
    · exact ⟨by simp [Plain], by simp⟩
  have hrest : dbParseLoop 13 (some (joinSep ':' ((dbEntryFields s).toList.drop 2) ++ ['\n'])) =
      some ((dbEntryFields s).toList.drop 2) := by
    have hdec (x : Word32) : Plain (Nat.toDigits 10 x.toNat) := plain_toDigits (by simp) (by simp) _
    have hdec' (x : Word64) : Plain (Nat.toDigits 10 x.toNat) :=
      plain_toDigits (by simp) (by simp) _
    apply @dbParseLoop_joinSep ((dbEntryFields s).toList.drop 2)
    · simp [Fields.toList]
    · simp [Fields.toList]
    · simp only [Fields.toList, List.drop_succ_cons, List.drop_zero, List.forall_mem_cons]
      exact ⟨plain_hexBytes _, plain_hexBytes _, plain_hexBytes _, hdec _, hdec _, hdec' _, hdec _,
        hdec _, plain_toDigits (by simp) (by simp) _, hspass.1, hdec' _, hl, hc, by simp⟩
    · have h32 (x : Word32) : (Nat.toDigits 10 x.toNat).length ≤ stateMaxFieldSize :=
        (length_dec32 x).trans (by simp)
      have h64 (x : Word64) : (Nat.toDigits 10 x.toNat).length ≤ stateMaxFieldSize :=
        (length_dec64 x).trans (by simp)
      have hhex (x : Word32) : (Nat.toDigits 16 x.toNat).length ≤ stateMaxFieldSize :=
        (length_hex32 x).trans (by simp)
      have hnum (n : Num) : (numExportHex n).length ≤ stateMaxFieldSize := by simp
      simp only [Fields.toList, List.drop_succ_cons, List.drop_zero, List.forall_mem_cons]
      exact ⟨by simp [dbEntryFields], hnum _, hnum _, h32 _, h32 _, h64 _, h32 _, h32 _, hhex _,
        hspass.2, h64 _, hlabel.le.trans (by simp), hcontact.le.trans (by simp), by simp⟩
  have hversion : scanU32 10 (Nat.toDigits 10 1) = some 1 := by decide
  have htext : dbEntryText s = s.username.val ++ ':' :: (Nat.toDigits 10 1 ++
      ':' :: (joinSep ':' ((dbEntryFields s).toList.drop 2) ++ ['\n'])) := by
    simp [dbEntryText, Fields.toList, joinSep_cons_cons, dbEntryFields]
  rw [dbParseUserEntry, htext, dbParseLoop_cons hu hulen (by simp),
    dbParseLoop_cons (plain_toDigits (by simp) (by simp) _) (by decide) (fun _ => hversion), hrest]
  rfl

theorem scanUnsigned_dec64 (x : Word64) :
    scanUnsigned 10 (Nat.toDigits 10 x.toNat).length (Nat.toDigits 10 x.toNat) = some x := by
  rw [scanUnsigned_toDigits (by omega) (by omega) x.isLt]
  simp

/-- The printed static password is read back. -/
theorem decodeSpass_dbEntryFields (s : State) :
    decodeSpass (dbEntryFields s).spass (dbEntryFields s).spassTime = some s.entry.spass := by
  simp only [dbEntryFields, State.entry]
  cases s.spassSet with
  | false => simp [decodeSpass]
  | true =>
    have hne : hexBytes s.spass.val ≠ [] := by
      intro h0
      have := congrArg List.length h0
      simp at this
    have hb := unhex_hexBytes (Bytes.zero 40).val s.spass.val (by simp)
    have hbytes : (Bytes.zero 40).update (unhex · (hexBytes s.spass.val)) (by simp) = s.spass :=
      Subtype.ext (by simp [Bytes.update, hb])
    simp only [if_true, decodeSpass, hne, if_false, hb, scanUnsigned_dec64, hbytes, Option.map_some]

/-- The printed fields mean the entry they were printed from. -/
theorem decodeEntry_dbEntryFields (s : State) (hv : s.entry.Valid) :
    decodeEntry (dbEntryFields s) = some s.entry := by
  have hkey : decodeKey (hexBytes s.sequenceKey.val) = some s.sequenceKey := by
    have hk := dbLoadKey_hexBytes (Bytes.zero 32).val s.sequenceKey.val (by simp)
    rw [decodeKey, hk, if_pos rfl]
    exact congrArg some (Subtype.ext (by simp [Bytes.update, hk]))
  have hnum (n : Num) : decodeNum (numExportHex n) = some n := by
    rw [decodeNum, numImportHex_numExportHex, if_pos rfl]
  exact decodeEntry_iff.mpr
    { key := hkey
      counter := hnum _
      latestCard := hnum _
      failures := scanU32_toDigits (by omega) (by omega) _
      recentFailures := scanU32_toDigits (by omega) (by omega) _
      channelTime := scanUnsigned_dec64 _
      codeLength := scanU32_toDigits (by omega) (by omega) _
      alphabet := scanU32_toDigits (by omega) (by omega) _
      flags := scanU32_toDigits (by omega) (by omega) _
      spass := decodeSpass_dbEntryFields s
      label := CBuf.strncpy_self _
      contact := CBuf.strncpy_self _
      valid := hv }

/-- The entry that a line of the database holds. -/
def lineEntry (line : List Char) : Option Entry := (dbParseUserEntry line).bind decodeEntry

/-- The user field is the name in front of the first separator. -/
theorem dbParseUserEntry_user {u rest : List Char} {field : Fields} (hu : Plain u)
    (h : dbParseUserEntry (u ++ ':' :: rest) = some field) :
    u.length ≤ stateMaxFieldSize ∧ field.user = u := by
  rw [dbParseUserEntry, Option.bind_eq_some_iff] at h
  obtain ⟨toks, hloop, hfield⟩ := h
  obtain ⟨ts, rfl, -, hlen⟩ := dbParseLoop_inv hu hloop
  refine ⟨hlen, ?_⟩
  unfold Fields.ofList at hfield
  split at hfield
  · rename_i heq
    rw [← Option.some.inj hfield]
    exact (List.cons.inj heq).1.symm
  · simp at hfield

/-- What is printed for a valid entry is read back as that entry. -/
theorem lineEntry_dbEntryText (s : State) (hu : Plain s.username.val)
    (hulen : s.username.val.length ≤ stateMaxFieldSize) (hv : s.entry.Valid) :
    lineEntry (dbEntryText s) = some s.entry := by
  rw [lineEntry, dbParseUserEntry_dbEntryText s hu hulen (stateValidateStr_plain hv.label_chars)
    (stateValidateStr_plain hv.contact_chars), Option.bind_some, decodeEntry_dbEntryFields s hv]

/-- A printed line that is loaded was printed for an entry in range. -/
theorem valid_of_lineEntry (s : State) (hu : Plain s.username.val)
    (hulen : s.username.val.length ≤ stateMaxFieldSize)
    (hlabel : stateValidateStr s.label.val = true)
    (hcontact : stateValidateStr s.contact.val = true) {e : Entry}
    (h : lineEntry (dbEntryText s) = some e) : s.entry.Valid := by
  rw [lineEntry, dbParseUserEntry_dbEntryText s hu hulen (stateValidateStr_plain hlabel)
    (stateValidateStr_plain hcontact), Option.bind_some] at h
  have hdec := decodeEntry_iff.mp h
  have hflags : s.entry.flags = e.flags := by
    have hread := hdec.flags
    rw [dbEntryFields, scanU32_toDigits (by decide) (by decide)] at hread
    exact Option.some.inj hread
  have hlength : s.entry.codeLength = e.codeLength := by
    have hread := hdec.codeLength
    rw [dbEntryFields, scanU32_toDigits (by decide) (by decide)] at hread
    exact Option.some.inj hread
  obtain ⟨hge, hle, hseven, -, -⟩ := hdec.valid
  rw [← hlength] at hge hle
  rw [← hflags] at hseven
  exact ⟨hge, hle, hseven, hlabel, hcontact⟩

end Otpasswd
