import Otpasswd.Libotp.Config

/-!
# Otpasswd.Libotp.State — the user state

`State` is the structure of `state.h`; `Entry` is the part of it that the
database keeps. The file has the functions of `state.c` that do not touch the
database: initialisation, character checks and key generation.
-/

namespace Otpasswd

open CText

/-- `state`. -/
structure State where
  counter : Num
  sequenceKey : Bytes 32
  latestCard : Num
  codeLength : Word32
  alphabet : Word32
  flags : Word32
  spass : Bytes 40
  spassSet : Bool
  spassTime : Word64
  label : CBuf stateLabelSize
  contact : CBuf stateContactSize
  failures : Word32
  recentFailures : Word32
  channelTime : Word64
  prompt : Option (List Char)
  saltMask : Num
  codeMask : Num
  currentCard : Num
  maxCard : Num
  maxCode : Num
  codesOnCard : Word32
  codesInRow : Word32
  currentRow : ℕ
  currentColumn : Char
  username : CString
  /-- Whether the copy of the user name was made; `username` is `NULL` otherwise. -/
  named : Bool := true
  lock : ℤ
  newKey : Bool
deriving DecidableEq

/-- The persisted fields of a state. The static password and its time stamp
are there together or not at all. -/
structure Entry where
  sequenceKey : Bytes 32
  counter : Num
  latestCard : Num
  failures : Word32
  recentFailures : Word32
  channelTime : Word64
  codeLength : Word32
  alphabet : Word32
  flags : Word32
  spass : Option (Bytes 40 × Word64)
  label : CBuf stateLabelSize
  contact : CBuf stateContactSize
deriving DecidableEq

namespace State

/-- What a store of the state keeps. -/
def entry (s : State) : Entry where
  sequenceKey := s.sequenceKey
  counter := s.counter
  latestCard := s.latestCard
  failures := s.failures
  recentFailures := s.recentFailures
  channelTime := s.channelTime
  codeLength := s.codeLength
  alphabet := s.alphabet
  flags := s.flags
  spass := if s.spassSet then some (s.spass, s.spassTime) else none
  label := s.label
  contact := s.contact

/-! ### Assignments -/

def setSequenceKey (v : Bytes 32) (s : State) : State := { s with sequenceKey := v }
def setCounter (v : Num) (s : State) : State := { s with counter := v }
def setLatestCard (v : Num) (s : State) : State := { s with latestCard := v }
def setFailures (v : Word32) (s : State) : State := { s with failures := v }
def setRecentFailures (v : Word32) (s : State) : State := { s with recentFailures := v }
def setChannelTime (v : Word64) (s : State) : State := { s with channelTime := v }
def setCodeLength (v : Word32) (s : State) : State := { s with codeLength := v }
def setAlphabet (v : Word32) (s : State) : State := { s with alphabet := v }
def setFlags (v : Word32) (s : State) : State := { s with flags := v }

/-- The three assignments that change the static password. -/
def setSpass (s : State) (spass : Bytes 40) (set : Bool) (time : Word64) : State :=
  { s with spass := spass, spassSet := set, spassTime := time }

def setLabel (s : State) (v : CBuf stateLabelSize) : State := { s with label := v }
def setContact (s : State) (v : CBuf stateContactSize) : State := { s with contact := v }
def setLock (s : State) (fd : ℤ) : State := { s with lock := fd }
def setNewKey (s : State) (v : Bool) : State := { s with newKey := v }
def setNamed (s : State) (v : Bool) : State := { s with named := v }

end State

/-- A pointer to a user name, `NULL` when its copy was not made. -/
def namePtr (named : Bool) (username : CString) : Option CString :=
  if named then some username else none

/-- `s->username`. -/
def State.name (s : State) : Option CString := namePtr s.named s.username

theorem State.name_eq {s : State} (h : s.named = true) : s.name = some s.username := by
  rw [name, namePtr, if_pos h]

/-- `isalnum` in the C locale. -/
def isAlnum (c : Char) : Bool :=
  ('0' ≤ c ∧ c ≤ '9') ∨ ('A' ≤ c ∧ c ≤ 'Z') ∨ ('a' ≤ c ∧ c ≤ 'z')

/-- A character `state_validate_str` lets pass. -/
def isStateChar (c : Char) : Bool :=
  isAlnum c || c = ' ' || c = '+' || c = '@' || c = '-' || c = '.' || c = '_' || c = '*'

/-- `state_validate_str`. -/
def stateValidateStr (str : List Char) : Bool := str.all isStateChar

/-- What the loader's checks accept. -/
structure Entry.Valid (e : Entry) : Prop where
  codeLength_ge : 2 ≤ e.codeLength.toNat
  codeLength_le : e.codeLength.toNat ≤ 16
  flags_le : e.flags.toNat ≤ 7
  label_chars : stateValidateStr e.label.val = true
  contact_chars : stateValidateStr e.contact.val = true

instance (e : Entry) : Decidable e.Valid :=
  decidable_of_iff
    (2 ≤ e.codeLength.toNat ∧ e.codeLength.toNat ≤ 16 ∧ e.flags.toNat ≤ 7 ∧
      stateValidateStr e.label.val = true ∧ stateValidateStr e.contact.val = true)
    ⟨fun ⟨h1, h2, h3, h4, h5⟩ => ⟨h1, h2, h3, h4, h5⟩,
      fun ⟨h1, h2, h3, h4, h5⟩ => ⟨h1, h2, h3, h4, h5⟩⟩

theorem isStateChar_plain {c : Char} (h : isStateChar c = true) : c ≠ ':' ∧ c ≠ '\n' := by
  constructor <;> rintro rfl <;> revert h <;> decide

theorem stateValidateStr_plain {s : List Char} (h : stateValidateStr s = true) :
    ':' ∉ s ∧ '\n' ∉ s := by
  have hall := List.all_eq_true.mp h
  exact ⟨fun hc => (isStateChar_plain (hall _ hc)).1 rfl,
    fun hc => (isStateChar_plain (hall _ hc)).2 rfl⟩

/-! ## Initialisation -/

/-- The upper 96 bits of a salted counter. -/
def saltMask : Num := (numImportHex "FFFFFFFFFFFFFFFFFFFFFFFF00000000".toList).2

/-- The passcode number in a salted counter. -/
def codeMask : Num := (numImportHex "000000000000000000000000FFFFFFFF".toList).2

theorem saltMask_eq : saltMask = ⟨0xFFFFFFFFFFFFFFFF, 0xFFFFFFFF00000000⟩ := by
  decide +kernel

theorem codeMask_eq : codeMask = ⟨0, 0xFFFFFFFF⟩ := by decide +kernel

/-- The state that `state_init` sets up. When `show_def` is off, the flags
start from what the memory held. -/
def State.initial (cfg : Cfg) (junk : Junk) (username : CString) : State :=
  let flags := if cfg.showDef = configEnabled then flagShow else junk.flags
  let flags := if cfg.saltDef = configEnabled then flags ||| flagSalted else flags
  { counter := numI 0
    sequenceKey := Bytes.zero 32
    latestCard := numI 0
    codeLength := BitVec.ofInt 32 cfg.passcodeDefLength
    alphabet := BitVec.ofInt 32 cfg.alphabetDef
    flags := flags
    spass := junk.spass
    spassSet := false
    spassTime := 0
    label := .zero _
    contact := .zero _
    failures := 0
    recentFailures := 0
    channelTime := 0
    prompt := none
    saltMask := Otpasswd.saltMask
    codeMask := Otpasswd.codeMask
    currentCard := numI 0
    maxCard := numI 0
    maxCode := numI 0
    codesOnCard := 0
    codesInRow := 0
    currentRow := 0
    currentColumn := '\x00'
    username := username
    lock := -1
    newKey := false }

/-- `state_init`. A state whose copy of the name fails is not refused. -/
def stateInit (cfg : Cfg) (junk : Junk) : Option CString → SysM State
  | none => .abort
  | some username => do
    Prog.assert (2 ≤ cfg.passcodeDefLength ∧ cfg.passcodeDefLength ≤ 16)
    return (State.initial cfg junk username).setNamed (← sys .strdup)

/-! ## Key generation -/

/-- The cipher and the hash, as far as the program uses them. -/
structure Crypto where
  /-- `crypto_aes_encrypt(key, plain, encrypted)`; it always succeeds. -/
  aesEncrypt : Bytes 32 → Bytes 16 → Bytes 16
  /-- `crypto_sha256`. -/
  sha256 : List Byte → Bytes 32

/-- A cipher and a hash that are constant. -/
def plainCrypto : Crypto := ⟨fun _ block => block, fun _ => Bytes.zero 32⟩

/-- `state_key_generate`. -/
def stateKeyGenerate (crypto : Crypto) (s : State) : SysM (ℕ × State) := do
  match ← sys (.rng 20) with
  | none => return (1, s)
  | some real =>
  match ← sys (.rng 1004) with
  | none => return (1, s)
  | some pseudo =>
    let pool := real.val ++ pseudo.val
    if s.flags &&& flagSalted = 0 then
      return (0, { s with
        sequenceKey := crypto.sha256 pool
        counter := numI 0
        latestCard := numI 0
        flags := s.flags &&& ~~~flagSalted
        newKey := true })
    else
      -- half of the entropy makes the key, half the salt
      let cntBin := crypto.sha256 (pool.drop 512)
      return (0, { s with
        sequenceKey := crypto.sha256 (pool.take 512)
        counter := numAnd (numImportBin cntBin.val) s.saltMask
        latestCard := numI 0
        flags := s.flags ||| flagSalted
        newKey := true })

end Otpasswd
