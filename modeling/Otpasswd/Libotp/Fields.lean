import Otpasswd.Libotp.Ppp

/-!
# Otpasswd.Libotp.Fields — getters and setters of a state

The functions of `ppp.c` that the agent uses on the state it holds: fields by
number, flags, the prompt and the static password. A field that a function
does not know ends in an assertion.
-/

namespace Otpasswd

open CText

/-- The field numbers of `ppp_common.h`; `other` is any other number. -/
inductive PppField where
  | failures
  | recentFailures
  | codeLength
  | alphabet
  | flags
  | codesOnCard
  | codesInRow
  | spassSet
  | key
  | counter
  | unsaltedCounter
  | latestCard
  | currentCard
  | maxCard
  | maxCode
  | spassTime
  | channelTime
  | username
  | prompt
  | contact
  | label
  | spass
  | other
deriving DecidableEq

/-- The field a number of the protocol stands for. -/
def PppField.ofNum (n : Word32) : PppField :=
  [.other, .failures, .recentFailures, .codeLength, .alphabet, .flags, .codesOnCard, .codesInRow,
    .spassSet, .key, .counter, .unsaltedCounter, .latestCard, .currentCard, .maxCard, .maxCode,
    .spassTime, .channelTime, .username, .prompt, .contact, .label, .spass].getD n.toNat .other

/-! ## Numbers -/

/-- `ppp_get_int`. -/
def pppGetInt (s : State) : PppField → SysM Word32
  | .failures => return s.failures
  | .recentFailures => return s.recentFailures
  | .codeLength => return s.codeLength
  | .alphabet => return s.alphabet
  | .flags => return s.flags
  | .spassSet => return if s.spassSet then 1 else 0
  | .codesOnCard => do
    Prog.assert (s.codesOnCard ≠ 0)
    return s.codesOnCard
  | .codesInRow => do
    Prog.assert (s.codesInRow ≠ 0)
    return s.codesInRow
  | _ => .abort

/-- `ppp_set_int`. The policy of the last three fields is always checked. -/
def pppSetInt (cfg : Cfg) (s : State) (field : PppField) (arg : Word32) : SysM (ℕ × State) :=
  match field with
  | .failures => return (0, s.setFailures arg)
  | .recentFailures => return (0, s.setRecentFailures arg)
  | .codeLength =>
    let ret := pppVerifyCodeLength cfg arg.toInt
    if ret ≠ 0 then return (ret, s) else return (0, s.setCodeLength arg)
  | .alphabet =>
    let ret := pppVerifyAlphabet cfg arg.toInt
    if ret ≠ 0 then return (ret, s) else return (0, s.setAlphabet arg)
  | .flags =>
    if flagShow ||| flagSalted ||| flagDisabled < arg then return (pppError, s)
    else
      let ret := pppVerifyFlags cfg arg
      if ret ≠ 0 then return (ret, s) else return (0, s.setFlags arg)
  | _ => .abort

/-- `ppp_get_num`. -/
def pppGetNum (s : State) : PppField → SysM Num
  | .counter => return s.counter
  | .unsaltedCounter => return s.justCounter
  | .currentCard => return s.currentCard
  | .latestCard => return s.latestCard
  | .maxCard => return s.maxCard
  | .maxCode => return s.maxCode
  | .spassTime => return numI s.spassTime
  | .channelTime => return numI s.channelTime
  | _ => .abort

/-- `ppp_set_num`. -/
def pppSetNum (s : State) (field : PppField) (arg : Num) : SysM (ℕ × State) :=
  match field with
  | .latestCard => return (0, s.setLatestCard arg)
  | _ => .abort

/-! ## Strings -/

/-- The format of the prompt, `"Passcode %2d%c [%s]: "`. -/
def promptText (s : State) : List Char :=
  let row := Nat.toDigits 10 s.currentRow
  "Passcode ".toList ++ List.replicate (2 - row.length) ' ' ++ row ++ [s.currentColumn] ++
    " [".toList ++ Nat.toDigits 10 s.currentCard.toNat ++ "]: ".toList

/-- The `prompt` that `malloc` and `snprintf` leave in the state. -/
def State.setPrompt (s : State) (v : Option (List Char)) : State := { s with prompt := v }

/-- `ppp_get_prompt`. For another counter than the current one, the card data
is computed twice, and the counter is cleared after it was restored. -/
def pppGetPrompt (s : State) (useCurrent : Bool) (counter : Num) :
    SysM (Option (List Char) × State) := do
  let s := s.setPrompt none
  if useCurrent then
    Prog.assert (0 < s.codesOnCard)
    let s := s.setPrompt (if ← sys .malloc then some (promptText s) else none)
    return (s.prompt, s)
  else
    let realCounterCopy := s.counter
    let s := s.setCounter counter
    let s ← pppCalculate (s.setCounter (pppAddSalt s s.counter))
    let s := s.setPrompt (if ← sys .malloc then some (promptText s) else none)
    let s := s.setCounter realCounterCopy
    let s ← pppCalculate (s.setCounter (numI 0))
    return (s.prompt, s)

/-- What `ppp_get_str` can point to: a string or the bytes of the key. -/
inductive FieldStr where
  | text (s : List Char)
  | null
  | key (key : Bytes 32)
deriving DecidableEq

/-- `ppp_get_str`. -/
def pppGetStr (s : State) : PppField → SysM (FieldStr × State)
  | .username => return (if s.named then .text s.username.val else .null, s)
  | .prompt => do
    let (prompt, s) ← pppGetPrompt s true numZero
    return (prompt.elim .null .text, s)
  | .contact => return (.text s.contact.val, s)
  | .label => return (.text s.label.val, s)
  | .key => return (.key s.sequenceKey, s)
  | _ => .abort

/-- The checks and the copy that the two strings share. -/
def setStrField (n : ℕ) (change : ℤ) (set : CBuf n → State → State) (s : State) (arg : CString)
    (checkPolicy : Bool) : ℕ × State :=
  if checkPolicy = true ∧ change = configDisallow then (pppErrorPolicy, s)
  else if h : arg.val.length < n then
    if stateValidateStr arg.val = false then (pppErrorIllChar, s)
    else (0, set (.ofCString n arg h) s)
  else (pppErrorTooLong, s)

/-- `ppp_set_str`. -/
def pppSetStr (cfg : Cfg) (s : State) (field : PppField) (arg : CString) (checkPolicy : Bool) :
    SysM (ℕ × State) :=
  match field with
  | .contact =>
    return setStrField stateContactSize cfg.contactChange (fun v s => s.setContact v) s arg
      checkPolicy
  | .label =>
    return setStrField stateLabelSize cfg.labelChange (fun v s => s.setLabel v) s arg checkPolicy
  | _ => .abort

/-! ## Static password -/

/-- The character counts of `_verify_spass`. -/
structure SpassCount where
  digits : ℕ
  uppercase : ℕ
  special : ℕ

/-- One character of a password; an error ends the loop. -/
def SpassCount.add (n : SpassCount) (c : Char) : Except ℕ SpassCount :=
  if 128 ≤ c.toNat then .error pppErrorSpassNonAscii
  else if '0' ≤ c ∧ c ≤ '9' then .ok { n with digits := n.digits + 1 }
  else if 'A' ≤ c ∧ c ≤ 'Z' then .ok { n with uppercase := n.uppercase + 1 }
  else if 'a' ≤ c ∧ c ≤ 'z' then .ok n
  else if isSpace c then .ok n
  else if '!' ≤ c ∧ c ≤ '~' then .ok { n with special := n.special + 1 }
  else .error pppErrorSpassIllegalCharacter

/-- `_verify_spass`. The loop counts on from the length it starts with, so the
length that is checked is twice that of the password. -/
def verifySpass (cfg : Cfg) (spass : List Char) : ℕ :=
  match spass.foldlM SpassCount.add ⟨0, 0, 0⟩ with
  | .error err => err
  | .ok n =>
    let length : ℤ := 2 * spass.length
    (if cfg.spassMinLength > length then pppErrorSpassShort else 0) +
      (if n.digits < cfg.spassRequireDigit then pppErrorSpassNoDigits else 0) +
      (if n.uppercase < cfg.spassRequireUppercase then pppErrorSpassNoUppercase else 0) +
      (if n.special < cfg.spassRequireSpecial then pppErrorSpassNoSpecial else 0)

/-- `crypto_salted_sha256`: the hash in a buffer that starts as `buf`, which a
failure leaves as it was. -/
def cryptoSaltedSha256 (crypto : Crypto) (data : List Char) (buf : Bytes 40) :
    SysM (Bytes 40) := do
  if (← sys .malloc) = false then return buf
  else
    match ← sys (.rng 8) with
    | none => return buf
    | some salt =>
      let data := data.map fun c => BitVec.ofNat 8 c.toNat
      return Bytes.ofList 40 (salt.val ++ (crypto.sha256 (salt.val ++ data)).val)

/-- `ppp_set_spass`; without a password the static password is removed. That
hashing may fail is not checked. -/
def pppSetSpass (crypto : Crypto) (cfg : Cfg) (s : State) (spass : Option CString)
    (checkPolicy : Bool) : SysM (ℕ × State) := do
  if checkPolicy = true ∧ cfg.spassChange = configDisallow then return (pppErrorSpassPolicy, s)
  else
    match spass with
    | none => return (pppErrorSpassUnset, s.setSpass (Bytes.zero 40) false s.spassTime)
    | some spass =>
      let errors := verifySpass cfg spass.val
      if checkPolicy = true ∧ errors ≠ 0 then return (errors, s)
      else
        let hash ← cryptoSaltedSha256 crypto spass.val (← sys .stackHash)
        let time ← sys .time
        return (errors + pppErrorSpassSet, s.setSpass hash true time)

/-- `crypto_verify_salted_sha256`. -/
def cryptoVerifySaltedSha256 (crypto : Crypto) (saltedHash : Bytes 40) (data : List Char) :
    SysM ℕ := do
  if data.length = 0 then return 1
  else if (← sys .malloc) = false then return 1
  else
    let salt := saltedHash.val.take 8
    let data := data.map fun c => BitVec.ofNat 8 c.toNat
    let saltedHashNew := Bytes.ofList 40 (salt ++ (crypto.sha256 (salt ++ data)).val)
    return if saltedHashNew = saltedHash then 0 else 1

/-- `ppp_spass_validate`. -/
def pppSpassValidate (crypto : Crypto) (s : State) (spass : CString) : SysM ℕ := do
  if s.spassSet = false then return pppErrorSpassIncorrect
  else if (← cryptoVerifySaltedSha256 crypto s.spass spass.val) ≠ 0 then
    return pppErrorSpassIncorrect
  else return 0

/-! ## Warnings -/

/-- `ppp_get_warning_conditions`, past its assertion. -/
def warningConditions (s : State) : ℕ :=
  let tmp := numCmp s.currentCard s.latestCard
  (if tmp = 0 then pppWarnLastCard else if 0 < tmp then pppWarnNothingLeft else 0) +
    (if 0 < s.recentFailures then pppWarnRecentFailures else 0)

/-- `ppp_get_warning_conditions`. -/
def pppGetWarningConditions (s : State) : SysM ℕ := do
  Prog.assert (0 < s.codesOnCard)
  return warningConditions s

/-- `ppp_get_warning_message`: the message of one condition, and what is left
of them. The count of failures is asserted to be short. -/
def pppGetWarningMessage (s : State) (warning : ℕ) : SysM (Option (List Char) × ℕ) := do
  if warning = 0 then return (none, warning)
  else if warning &&& pppWarnRecentFailures ≠ 0 then
    let warning := warning - pppWarnRecentFailures
    if s.recentFailures = 1 then return (some "There was 1 recent auth failure!".toList, warning)
    else
      Prog.assert (s.recentFailures < 999999999)
      return (some ("There were ".toList ++ Nat.toDigits 10 s.recentFailures.toNat ++
        " recent auth failures! Are your static passwords compromised?".toList), warning)
  else if warning = pppWarnLastCard then
    return (some "You are on your last printed passcard!".toList, 0)
  else if warning = pppWarnNothingLeft then
    return (some "You have no printed passcodes left!".toList, 0)
  else .abort

end Otpasswd
