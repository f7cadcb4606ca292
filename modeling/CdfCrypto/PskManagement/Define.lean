import CdfCrypto.Cryption.Define
import CdfCrypto.KeyManagement.Define
import CdfCrypto.Utils.Json

/-!
# Types of the PSK module

The records `psk_define.h` and `psk.h` declare, with the bounds the checks use,
and the two things outside the repository the module talks to: `Host`, the C
library's time functions and the JSON library, fixed over a run, and `World`,
everything else that answers during one call (the random device, the key
manager, the registered callbacks, the clock).

`uint32_t` values are natural numbers; the one place where the module lets such
a value grow, the id counter, wraps explicitly. A `time_t` is an integer: the
build traps signed overflow, so a sum that leaves 64 bits ends the process.
-/

namespace CdfCrypto.PskManagement

inductive PskManagerRC
  | ok
  | error
  | invalidParam
  | uninited
  | initFailed
  | pskNotExist
  | unsupported
  | pskHasExpired
  | encryptoFail
  | decryptoFail
  | callBackUnregisted
  | callBackExecuteFailed
  | callBackRegisterFailed
  | callBackTypeMismatch
  | callBackStandardLibraryException
  | callBackUnKnown
  deriving DecidableEq, Repr

structure PskParam where
  issuer : Bytes
  subject : Bytes
  pskLength : Nat
  beginTime : Int
  validDays : Nat
  deriving DecidableEq

structure PskMetaData where
  pskId : Nat
  issuer : Bytes
  subject : Bytes
  pskLength : Nat
  validDays : Nat
  beginTime : Int
  endTime : Int
  deriving DecidableEq

structure Psk where
  pskId : Nat
  issuer : Bytes
  subject : Bytes
  pskLength : Nat
  pskContent : Bytes
  validDays : Nat
  beginTime : Int
  endTime : Int
  deriving DecidableEq

/-- The options; a `string_view` whose `data()` is null is `none`. -/
structure PsKManagerInitOptions where
  algType : CryptoSymAlg := .aes256Gcm
  keyManagerType : KeyManagerTy := .openbao
  exePath : Option Bytes := none
  accessToken : Option Bytes := none
  domainCount : Nat := 2
  domainId : Nat := 0
  pskMaxCount : Nat := 100000
  deriving DecidableEq

def pskMaxCountLimitMin : Nat := 1
def pskMaxCountLimitMax : Nat := 4294967295
def pskIssuerLengthMin : Nat := 1
def pskIssuerLengthMax : Nat := 64
def pskSubjectLengthMin : Nat := 1
def pskSubjectLengthMax : Nat := 64
def pskLength256 : Nat := 256
def pskLength384 : Nat := 384
def pskLength512 : Nat := 512
def pskValidDaysMin : Nat := 1
def pskValidDaysMax : Nat := 365
def dayToSecondTime : Nat := 24 * 60 * 60

inductive PskCallBackType
  | createPsk
  | updatePsk
  | deletePsk
  deriving DecidableEq, Repr

/-- One invocation of a registered callback, with its arguments. -/
inductive CallbackCall
  | create (pskId : Nat) (pskCiphertext : Bytes)
  | update (pskId : Nat) (pskCiphertext : Bytes)
  | delete (pskId : Nat)
  deriving DecidableEq

/-- `std::tm`, the fields the module's formats name and the daylight flag. -/
structure Tm where
  tmYear : Int
  tmMon : Int
  tmMday : Int
  tmHour : Int
  tmMin : Int
  tmSec : Int
  tmIsdst : Int
  deriving DecidableEq

/-- The C library and the JSON library. `localtime` is `none` where it returns a
null pointer; `buffer t` is what stands in `FormatTime`'s uninitialised array
when the text of `t` does not fit into it. -/
structure Host where
  localtime : Int → Option Tm
  mktime : Tm → Int
  buffer : Int → Bytes
  json : RapidJson

/-- What the environment answers during one call. `decrypt i` answers the `i`-th
decryption of the call; `randomDev n` is what reading `n` bytes of the random
device gives, `none` if it cannot be opened. -/
structure World where
  pathAccepted : Bytes → Bool
  kmInit : KeyManagerTy → Bytes → Bytes → Nat → KeyManagerRC
  kmUnInit : KeyManagerTy → KeyManagerRC
  randomDev : Nat → Option Bytes
  encrypt : KeyManagerTy → CryptoSymAlg → Bytes → Nat → CryptionRC × Bytes
  decrypt : Nat → KeyManagerTy → CryptoSymAlg → Bytes → Nat → CryptionRC × Bytes
  registered : PskCallBackType → Bool
  trigger : CallbackCall → PskManagerRC
  time : Int

end CdfCrypto.PskManagement
