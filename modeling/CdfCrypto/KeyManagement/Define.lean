import Mathlib.Algebra.Group.Nat.Defs
import Mathlib.Algebra.Ring.Int.Defs

/-!
# Codes and types of the key-management module
-/

namespace CdfCrypto

inductive KeyManagerRC
  | ok
  | error
  | invalidParam
  | keyExpired
  | uninited
  | initFailed
  | domainCountInvalid
  | keyActiveFailed
  | unsupported
  deriving DecidableEq, Repr

inductive KeyManagerTy
  | openbao
  | vault
  | unknown
  deriving DecidableEq, Repr

end CdfCrypto
