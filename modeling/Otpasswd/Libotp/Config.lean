import Otpasswd.Libotp.Sys

/-!
# Otpasswd.Libotp.Config — configuration and constants

The part of `cfg_t` that the state, passcode and agent code reads, with the
defaults of `_config_defaults`, and the constants of `ppp_common.h`. The
values of an option overlap in the source (`CONFIG_DISALLOW` is also
`CONFIG_ENABLED`), so they stay numbers.
-/

namespace Otpasswd

/-! ## Return codes -/

@[simp] abbrev stateNomem : ℕ := 1000
@[simp] abbrev stateLockError : ℕ := 1001
@[simp] abbrev stateParseError : ℕ := 1002
/-- Counter too big; the key should be regenerated. -/
@[simp] abbrev stateNumspace : ℕ := 1003
@[simp] abbrev stateIoError : ℕ := 1004
@[simp] abbrev stateNoSuchUser : ℕ := 1005
@[simp] abbrev stateNonExistent : ℕ := 1006
@[simp] abbrev stateNoUserHome : ℕ := 1007
@[simp] abbrev stateNoUserEntry : ℕ := 1008

@[simp] abbrev pppError : ℕ := 3000
@[simp] abbrev pppErrorPolicy : ℕ := 3001
@[simp] abbrev pppErrorTooLong : ℕ := 3002
@[simp] abbrev pppErrorIllChar : ℕ := 3003
@[simp] abbrev pppErrorRange : ℕ := 3004
@[simp] abbrev pppErrorDisabled : ℕ := 3005
@[simp] abbrev pppErrorSpassIncorrect : ℕ := 3006

@[simp] abbrev pppWarnLastCard : ℕ := 1
@[simp] abbrev pppWarnNothingLeft : ℕ := 2
@[simp] abbrev pppWarnRecentFailures : ℕ := 4

@[simp] abbrev pppErrorSpassShort : ℕ := 1
@[simp] abbrev pppErrorSpassNoDigits : ℕ := 2
@[simp] abbrev pppErrorSpassNoUppercase : ℕ := 4
@[simp] abbrev pppErrorSpassNoSpecial : ℕ := 8
@[simp] abbrev pppErrorSpassIllegalCharacter : ℕ := 16
@[simp] abbrev pppErrorSpassNonAscii : ℕ := 32
@[simp] abbrev pppErrorSpassPolicy : ℕ := 64
@[simp] abbrev pppErrorSpassSet : ℕ := 128
@[simp] abbrev pppErrorSpassUnset : ℕ := 256

/-! ## Sizes and flags -/

@[simp] abbrev stateLabelSize : ℕ := 30
@[simp] abbrev stateContactSize : ℕ := 60
@[simp] abbrev stateMaxFieldSize : ℕ := 80
@[simp] abbrev stateEntrySize : ℕ := 512
@[simp] abbrev rowsPerCard : ℕ := 10

instance : NeZero stateLabelSize := ⟨by decide⟩

instance : NeZero stateContactSize := ⟨by decide⟩

/-- `alphabet_custom` is an array of this size. -/
abbrev configAlphabetLen : ℕ := 90

abbrev flagShow : Word32 := 1
abbrev flagDisabled : Word32 := 2
abbrev flagSalted : Word32 := 4

/-! ## Options -/

/-- `enum CONFIG_DB_TYPE`. -/
inductive DbType where
  | global
  | user
  | mysql
  | ldap
  | unconfigured
deriving DecidableEq, Repr

@[simp] abbrev configDisallow : ℤ := 0
@[simp] abbrev configAllow : ℤ := 1
@[simp] abbrev configEnforce : ℤ := 2
@[simp] abbrev configEnabled : ℤ := 0
@[simp] abbrev configDisabled : ℤ := 1

/-- `cfg_t`, without the options no modelled function reads. -/
structure Cfg where
  userUid : Uid
  db : DbType
  keyGeneration : ℤ
  keyRegeneration : ℤ
  disabling : ℤ
  keyRemoval : ℤ
  shellAuth : ℤ
  skipping : ℤ
  passcodePrint : ℤ
  keyPrint : ℤ
  contactChange : ℤ
  labelChange : ℤ
  passcodeDefLength : ℤ
  passcodeMinLength : ℤ
  passcodeMaxLength : ℤ
  alphabetChange : ℤ
  alphabetDef : ℤ
  alphabetMinLength : ℤ
  alphabetMaxLength : ℤ
  alphabetCustom : List Char
  spassChange : ℤ
  spassMinLength : ℤ
  spassRequireDigit : ℤ
  spassRequireSpecial : ℤ
  spassRequireUppercase : ℤ
  salt : ℤ
  saltDef : ℤ
  «show» : ℤ
  showDef : ℤ
deriving DecidableEq

/-- `_config_defaults`. -/
def configDefaults : Cfg where
  userUid := -1
  db := .unconfigured
  keyGeneration := configAllow
  keyRegeneration := configAllow
  disabling := configDisallow
  keyRemoval := configAllow
  shellAuth := configAllow
  skipping := configAllow
  passcodePrint := configAllow
  keyPrint := configAllow
  contactChange := configAllow
  labelChange := configAllow
  passcodeDefLength := 4
  passcodeMinLength := 2
  passcodeMaxLength := 16
  alphabetChange := configAllow
  alphabetDef := 1
  alphabetMinLength := 32
  alphabetMaxLength := 88
  alphabetCustom := "0123456789".toList
  spassChange := configAllow
  spassMinLength := 7
  spassRequireDigit := 1
  spassRequireSpecial := 1
  spassRequireUppercase := 1
  salt := configAllow
  saltDef := configEnabled
  «show» := configEnabled
  showDef := configAllow

/-- The defaults with a global database that belongs to root. -/
def configRoot : Cfg := { configDefaults with userUid := 0, db := .global }

end Otpasswd
