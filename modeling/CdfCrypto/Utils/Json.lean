import CdfCrypto.Utils.Bytes

/-!
# JSON documents

The framework reads and writes JSON with rapidjson, which is not part of the
repository: the parser and the writer are the two fields of `RapidJson`, and a
result that relies on them says so in its hypotheses. What the framework does
with a parsed document is its own code and is modelled on `JsonValue`.

Strings are byte strings and may hold a NUL (a parsed string may come from the
escape of U+0000); `GetString()` hands out a `char *`, so its readers see
`cstr`.
-/

namespace CdfCrypto

/-- A parsed document. `int` is a number rapidjson keeps as an integer, `double`
any other number, with the text it came from. -/
inductive JsonValue
  | null
  | bool (b : Bool)
  | int (n : Int)
  | double (text : Bytes)
  | string (s : Bytes)
  | array (elements : List JsonValue)
  | object (members : List (Bytes × JsonValue))

/-- The library: `parse` is `none` where `HasParseError()` holds. -/
structure RapidJson where
  parse : Bytes → Option JsonValue
  write : JsonValue → Bytes

namespace JsonValue

/-- `IsObject()` with the members. -/
def members? : JsonValue → Option (List (Bytes × JsonValue))
  | object ms => some ms
  | _ => none

/-- `IsUint()` with `GetUint()`. -/
def uint? : JsonValue → Option Nat
  | int (.ofNat n) => if n < 2 ^ 32 then some n else none
  | _ => none

/-- `IsInt()` with `GetInt()`. -/
def int? : JsonValue → Option Int
  | int (.ofNat n) => if n < 2 ^ 31 then some (.ofNat n) else none
  | int (.negSucc n) => if n < 2 ^ 31 then some (.negSucc n) else none
  | _ => none

/-- `IsString()` with `GetString()`, read up to its terminator. -/
def cstr? : JsonValue → Option Bytes
  | string s => some (cstr s)
  | _ => none

/-- `IsBool()` with `GetBool()`. -/
def bool? : JsonValue → Option Bool
  | bool b => some b
  | _ => none

/-- `IsArray()` with the elements. -/
def elements? : JsonValue → Option (List JsonValue)
  | array es => some es
  | _ => none

theorem uint?_int {n : Nat} (h : n < 2 ^ 32) : uint? (int n) = some n :=
  if_pos h

end JsonValue

/-- `HasMember(name)` with `operator[](name)`: the first member of that name. -/
def findMember (members : List (Bytes × JsonValue)) (name : Bytes) : Option JsonValue :=
  members.lookup name

end CdfCrypto
