import Otpasswd.Libotp.DbFile

/-!
# Otpasswd.Libotp.Ppp — passcodes and the state of a user

The functions of `ppp.c`, and of `state.c` where they reach the database:
policy checks, passcodes and cards, loading and releasing a state, and the
atomic operations that load, change and store it.
-/

namespace Otpasswd

open CText

/-! ## Alphabets -/

def alphabetSimple : List Char :=
  "!#%+23456789:=?@ABCDEFGHJKLMNPRSTUVWXYZabcdefghijkmnopqrstuvwxyz".toList

def alphabetExtended : List Char :=
  ("!\"#$%&'()*+,-./23456789:;<=>?@ABCDEFGHJKLMNO" ++
    "PRSTUVWXYZ[\\]^_abcdefghijkmnopqrstuvwxyz\x7b|\x7d~").toList

def alphabetSimpleNoVowels : List Char :=
  "!#%+23456789:=?@BCDFGHJKLMNPRSTVWXZbcdfghjkmnpqrstvwxz".toList

def alphabetExtendedNoVowels : List Char :=
  ("!\"#$%&'()*+,-./23456789:;<=>?@BCDFGHJKLMNPRSTVWXZ[\\]^_" ++
    "bcdfghjkmnpqrstvwxz\x7b|\x7d~").toList

def alphabetAlpha : List Char := "23456789ABCDEFGHJKLMNPRSTUVWXYZabcdefghijkmnopqrstuvwxyz".toList

/-- `ppp_alphabet_count`. -/
abbrev pppAlphabetCount : ℤ := 6

/-- `alphabets[id]`, with the custom one at zero. -/
def pppAlphabet (cfg : Cfg) : ℕ → List Char
  | 0 => cfg.alphabetCustom
  | 1 => alphabetSimple
  | 2 => alphabetExtended
  | 3 => alphabetSimpleNoVowels
  | 4 => alphabetExtendedNoVowels
  | _ => alphabetAlpha

/-! ## Verification -/

/-- `ppp_verify_code_length`. -/
def pppVerifyCodeLength (cfg : Cfg) (length : ℤ) : ℕ :=
  if length < 2 ∨ 16 < length then pppErrorRange
  else if length < cfg.passcodeMinLength ∨ cfg.passcodeMaxLength < length then pppErrorPolicy
  else 0

/-- `ppp_verify_alphabet`. -/
def pppVerifyAlphabet (cfg : Cfg) (id : ℤ) : ℕ :=
  if id < 0 ∨ pppAlphabetCount ≤ id then pppErrorRange
  else if cfg.alphabetChange = configDisallow ∧ cfg.alphabetDef ≠ id then pppErrorPolicy
  else
    let len : ℤ := (pppAlphabet cfg id.toNat).length
    if len < cfg.alphabetMinLength ∨ cfg.alphabetMaxLength < len then pppErrorPolicy else 0

/-- The largest counter that is not taken for corruption. -/
def maxCounter : Num := numII 0xFFFFFFFFFFFFFFFF 0xFFFFFFFFFFFFFFF

/-- The counter without its salt. -/
def State.justCounter (s : State) : Num :=
  if s.flags &&& flagSalted ≠ 0 then numAnd s.counter s.codeMask else s.counter

/-- `ppp_verify_range`, past its assertion. -/
def verifyRange (s : State) : ℕ :=
  if 0 < numCmp s.counter maxCounter then stateParseError
  -- `max_code` counts from one, the counter from zero
  else if 0 ≤ numCmp s.justCounter s.maxCode then stateNumspace
  else 0

/-- `ppp_verify_range`. -/
def pppVerifyRange (s : State) : SysM ℕ := do
  Prog.assert (0 < s.codesOnCard)
  return verifyRange s

/-- `ppp_verify_flags`. -/
def pppVerifyFlags (cfg : Cfg) (flags : Word32) : ℕ :=
  if flags &&& flagShow ≠ 0 ∧ cfg.show = configDisallow then pppErrorPolicy
  else if flags &&& flagShow = 0 ∧ cfg.show = configEnforce then pppErrorPolicy
  else if flags &&& flagSalted ≠ 0 ∧ cfg.salt = configDisallow then pppErrorPolicy
  else if flags &&& flagSalted = 0 ∧ cfg.salt = configEnforce then pppErrorPolicy
  else 0

/-- `ppp_state_verify`. -/
def pppStateVerify (cfg : Cfg) (s : State) : SysM ℕ := do
  if pppVerifyFlags cfg s.flags ≠ 0 then return pppErrorPolicy
  else if pppVerifyAlphabet cfg s.alphabet.toInt ≠ 0 then return pppErrorPolicy
  else if pppVerifyCodeLength cfg s.codeLength.toInt ≠ 0 then return pppErrorPolicy
  else if (← pppVerifyRange s) ≠ 0 then return pppErrorPolicy
  else return 0

/-- `ppp_alphabet_get`. -/
def pppAlphabetGet (cfg : Cfg) (id : ℤ) : ℕ × Option (List Char) :=
  if pppVerifyAlphabet cfg id = pppErrorRange then (pppErrorRange, none)
  else (pppVerifyAlphabet cfg id, some (pppAlphabet cfg id.toNat))

/-! ## Passcodes -/

/-- `ppp_add_salt`: the salt in the counter of the state replaces the one in
the passcode number. -/
def pppAddSalt (s : State) (passcode : Num) : Num :=
  if s.flags &&& flagSalted ≠ 0 then
    numAdd (numAnd passcode s.codeMask) (numAnd s.counter s.saltMask)
  else passcode

/-- The characters that `n` divisions of the cipher select. -/
def passcodeChars (alphabet : List Char) : ℕ → Num → List Char
  | 0, _ => []
  | n + 1, cipher =>
    let (quotient, r) := numDivI cipher (BitVec.ofNat 64 alphabet.length)
    alphabet.getD r.toNat '\x00' :: passcodeChars alphabet n quotient

/-- The passcode of a salted counter. -/
def passcodeOf (crypto : Crypto) (cfg : Cfg) (s : State) (counter : Num) : List Char :=
  let cipher := numImportBin (crypto.aesEncrypt s.sequenceKey (numExportBin counter)).val
  passcodeChars (pppAlphabet cfg s.alphabet.toNat) s.codeLength.toNat cipher

/-- `ppp_get_passcode`. With an alphabet the policy forbids, nothing is
written to the buffer and the return value is that of the cipher, zero. -/
def pppGetPasscode (crypto : Crypto) (cfg : Cfg) (s : State) (counter : Num) :
    SysM (ℕ × List Char) := do
  Prog.assert (2 ≤ s.codeLength.toNat ∧ s.codeLength.toNat ≤ 16)
  if pppVerifyAlphabet cfg s.alphabet.toInt ≠ 0 then return (0, [])
  else return (0, passcodeOf crypto cfg s (pppAddSalt s counter))

/-- `ppp_get_current`. -/
def pppGetCurrent (crypto : Crypto) (cfg : Cfg) (s : State) : SysM (ℕ × List Char) := do
  let (ret, passcode) ← pppGetPasscode crypto cfg s s.counter
  if ret ≠ 0 then return (2, passcode) else return (0, passcode)

/-- `ppp_flag_check`. -/
def pppFlagCheck (s : State) (flag : Word32) : Bool := s.flags &&& flag ≠ 0

/-- `ppp_authenticate`. -/
def pppAuthenticate (crypto : Crypto) (cfg : Cfg) (s : State) (passcode : List Char) : SysM ℕ := do
  if pppFlagCheck s flagDisabled then return pppErrorDisabled
  else
    let retval ← pppStateVerify cfg s
    if retval ≠ 0 then return retval
    else
      let (ret, current) ← pppGetPasscode crypto cfg s s.counter
      if ret ≠ 0 then return 2
      else if passcode ≠ current then return 3
      else return 0

/-! ## Cards -/

/-- `ppp_get_codes_per_row`, past its assertions. -/
def codesPerRow (codelength : ℕ) : ℕ :=
  [0, 0, 11, 8, 7, 5, 5, 4, 3, 3, 3, 2, 2, 2, 2, 2, 2].getD codelength 0

/-- The largest number an unsalted card can be counted from. -/
def maxCardUnsalted : Num := numII 0xFFFFFFFFFFFFFF 0xFFFFFFFFFFFFFFFF

/-- `ppp_calculate`, past its assertions. -/
def calculate (s : State) : State :=
  let codesInRow := codesPerRow s.codeLength.toNat
  let codesOnCard := codesInRow * rowsPerCard
  let card := numDivI s.justCounter (BitVec.ofNat 64 codesOnCard)
  let column := card.2.toNat % codesInRow
  let maxCard := if s.flags &&& flagSalted ≠ 0 then s.codeMask else maxCardUnsalted
  -- the last code of the name space stays unused
  let maxCard := numSubI (numDivI maxCard (BitVec.ofNat 64 codesOnCard)).1 1
  { s with
    codesInRow := BitVec.ofNat 32 codesInRow
    codesOnCard := BitVec.ofNat 32 codesOnCard
    currentCard := numAddI card.1 1
    currentRow := 1 + (card.2.toNat - column) / codesInRow
    currentColumn := "ABCDEFGHIJKL".toList.getD column '\x00'
    maxCard := maxCard
    maxCode := numMulI maxCard (BitVec.ofNat 64 codesOnCard) }

/-- `ppp_calculate`. -/
def pppCalculate (s : State) : SysM State := do
  Prog.assert (2 ≤ s.codeLength.toNat ∧ s.codeLength.toNat ≤ 16)
  Prog.assert (0 ≤ numCmp s.counter (numI 0))
  return calculate s

/-! ## The database behind a state -/

/-- `state_lock`. -/
def stateLock (cfg : Cfg) (s : State) : SysM (ℕ × State) :=
  match cfg.db with
  | .user | .global => dbFileLock cfg s
  | _ => .abort

/-- `state_unlock`. -/
def stateUnlock (cfg : Cfg) (s : State) : SysM (ℕ × State) :=
  match cfg.db with
  | .user | .global => dbFileUnlock cfg s
  | _ => .abort

/-- `state_load`. -/
def stateLoad (cfg : Cfg) (s : State) : SysM (ℕ × State) :=
  match cfg.db with
  | .user | .global => dbFileLoad cfg s
  | _ => .abort

/-- The write of `state_store`, by the selected database. -/
def stateWrite (cfg : Cfg) (s : State) (remove : Bool) : SysM (ℕ × State) :=
  match cfg.db with
  | .user | .global => dbFileStore cfg s remove
  | _ => .abort

/-- `state_store`. A new key is stored under a lock taken for it. -/
def stateStore (cfg : Cfg) (s : State) (remove : Bool) : SysM (ℕ × State) := do
  Prog.assert (¬ (s.newKey = true ∧ remove = true))
  if s.newKey then
    Prog.assert (s.lock ≤ 0)
    let (ret, s) ← stateLock cfg s
    if ret ≠ 0 then return (stateLockError, s)
    else if s.lock ≤ 0 then return (2, s)
    else
      let (ret, s) ← stateWrite cfg (s.setNewKey false) remove
      let (_, s) ← stateUnlock cfg s
      return (ret, s)
  else if s.lock ≤ 0 then return (2, s)
  else stateWrite cfg (s.setNewKey false) remove

/-- `state_fini`: unlocks; the memory is gone afterwards. -/
def stateFini (cfg : Cfg) (s : State) : SysM PUnit := do
  if 0 < s.lock then
    let _ ← stateUnlock cfg s
    return ⟨⟩
  else return ⟨⟩

/-- `ppp_state_init`. -/
def pppStateInit (cfg : Cfg) (username : Option CString) : SysM (Except ℕ State) := do
  match ← sys .mallocState with
  | none => return .error stateNomem
  | some junk => return .ok (← stateInit cfg junk username)

/-- Options of the functions below (`enum ppp_options`). -/
structure PppOptions where
  checkPolicy : Bool := false
  store : Bool := false
  unlock : Bool := false
  remove : Bool := false
  dontLock : Bool := false
deriving DecidableEq

/-- The part of `ppp_state_load` after the lock. -/
def pppStateRead (cfg : Cfg) (s : State) : SysM (ℕ × State) := do
  let (retval, s) ← stateLoad cfg s
  if retval ≠ 0 then return (retval, s)
  else
    let s ← pppCalculate s
    return (← pppVerifyRange s, s)

/-- `ppp_state_load`. -/
def pppStateLoad (cfg : Cfg) (s : State) (flags : PppOptions) : SysM (ℕ × State) := do
  if flags.dontLock then pppStateRead cfg s
  else
    let (retval, s) ← stateLock cfg s
    if retval ≠ 0 then return (retval, s)
    else
      let (retval, s) ← pppStateRead cfg s
      if retval ≠ 0 then
        let (_, s) ← stateUnlock cfg s
        return (retval, s)
      else return (0, s)

/-- What `ppp_state_release` stores. -/
def pppReleaseStore (cfg : Cfg) (s : State) (flags : PppOptions) : SysM (ℕ × State) :=
  if flags.remove then stateStore cfg s true
  else if flags.store then stateStore cfg s false
  else return (0, s)

/-- Whether `ppp_state_release` unlocks. -/
def pppReleaseUnlock (cfg : Cfg) (s : State) (flags : PppOptions) : SysM (ℕ × State) :=
  if flags.unlock then stateUnlock cfg s else return (0, s)

/-- `ppp_state_release`. The earlier of two errors is returned. -/
def pppStateRelease (cfg : Cfg) (s : State) (flags : PppOptions) : SysM (ℕ × State) := do
  Prog.assert (¬ (flags.store = true ∧ flags.remove = true))
  if flags.checkPolicy = true ∧ cfg.keyRemoval = configDisallow then return (pppErrorPolicy, s)
  else
    let (ret1, s) ← pppReleaseStore cfg s flags
    let (ret2, s) ← pppReleaseUnlock cfg s flags
    return (if ret1 ≠ 0 then ret1 else ret2, s)

/-- `ppp_key_generate`. -/
def pppKeyGenerate (crypto : Crypto) (cfg : Cfg) (s : State) (flags : PppOptions) :
    SysM (ℕ × State) := do
  Prog.assert (s.lock = -1)
  let ret ←
    if flags.checkPolicy = true ∧ cfg.keyRegeneration = configDisallow then
      let tmp ← stateInit cfg (← sys .stackState) s.name
      let (ret, tmp) ← pppStateLoad cfg tmp { dontLock := true }
      stateFini cfg tmp
      -- only a load that succeeds counts as an existing key
      pure (if ret = 0 then pppErrorPolicy else 0)
    else pure 0
  if ret ≠ 0 then return (ret, s)
  else stateKeyGenerate crypto s

/-! ## Atomic operations -/

/-- `ppp_increment`. The state keeps the counter before the increment. -/
def pppIncrement (cfg : Cfg) (s : State) : SysM (ℕ × State) := do
  let (ret, s) ← pppStateLoad cfg s {}
  if ret ≠ 0 then return (ret, s)
  else
    let verify ← pppStateVerify cfg s
    let ret := if verify ≠ 0 then verify
      else if pppFlagCheck s flagDisabled then pppErrorDisabled else 0
    if ret ≠ 0 then
      let (_, s) ← pppStateRelease cfg s { unlock := true }
      return (ret, s)
    else
      let tmp := s.counter
      let (ret, s) ← pppStateRelease cfg (s.setCounter (numAdd s.counter (numI 1)))
        { store := true, unlock := true }
      return (ret, s.setCounter tmp)

/-- `ppp_skip`. -/
def pppSkip (cfg : Cfg) (s : State) (skipTo : Num) : SysM (ℕ × State) := do
  let (ret, s) ← pppStateLoad cfg s {}
  if ret ≠ 0 then return (ret, s)
  else
    let verify ← pppStateVerify cfg s
    let ret := if verify ≠ 0 then verify
      else if pppFlagCheck s flagDisabled then pppErrorDisabled
      else if 0 ≤ numCmp skipTo s.maxCode then pppErrorRange else 0
    if ret ≠ 0 then
      let (_, s) ← pppStateRelease cfg s { unlock := true }
      return (ret, s)
    else
      let s := s.setCounter skipTo
      -- the salt is looked up in the counter just overwritten
      let s := s.setCounter (pppAddSalt s s.counter)
      pppStateRelease cfg s { store := true, unlock := true }

/-- Load a second state of the user under the lock, change it, store it. -/
def pppUpdate (cfg : Cfg) (username : Option CString) (change : State → SysM State) : SysM ℕ := do
  match ← pppStateInit cfg username with
  | .error _ => return 1
  | .ok tmp =>
    let (ret, tmp) ← pppStateLoad cfg tmp {}
    if ret ≠ 0 then
      stateFini cfg tmp
      return ret
    else
      let tmp ← change tmp
      let (ret, tmp) ← pppStateRelease cfg tmp { unlock := true, store := true }
      stateFini cfg tmp
      return ret

/-- `ppp_failures`. -/
def pppFailures (cfg : Cfg) (s : State) (zero : Bool) : SysM ℕ :=
  pppUpdate cfg s.name fun tmp =>
    if zero then return tmp.setRecentFailures 0
    else return (tmp.setFailures (tmp.failures + 1)).setRecentFailures (tmp.recentFailures + 1)

/-- `ppp_oob_time`. -/
def pppOobTime (cfg : Cfg) (s : State) : SysM ℕ :=
  pppUpdate cfg s.name fun tmp => do
    return tmp.setChannelTime (← sys .time)

end Otpasswd
