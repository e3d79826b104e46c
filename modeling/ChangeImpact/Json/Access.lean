import ChangeImpact.Json.Reader

/-!
# Members of JSON values

* `need`, `opt`, `optD`, `listOf` — members that have to be there, may be missing, have a default
  or are lists;
* `asStr?`, `asNat?`, `asBytes?` and others — values of the expected kind;
* `optJson`, `wordJson`, `floatJson`, `bytesJson` — values that have no form of their own in JSON.
-/

namespace ChangeImpact.Json

/-- A member that is there and is not null. -/
def field? (j : Json) (name : String) : Option Json :=
  match j.get? name with
  | some .null => none
  | v => v

/-- A string. -/
def asStr? : Json → Option String
  | .str s => some s
  | _ => none

/-- A truth value. -/
def asBool? : Json → Option Bool
  | .bool b => some b
  | _ => none

/-- A whole number. -/
def asInt? : Json → Option Int
  | .num (.int n) => some n
  | _ => none

/-- A whole number from 0 to below the bound. -/
def asNat? (bound : Nat) (j : Json) : Option Nat := do
  let n ← asInt? j
  if 0 ≤ n ∧ n < bound then some n.toNat else none

/-- A whole number of 32 bits. -/
def asU32? : Json → Option Nat := asNat? 4294967296

/-- A whole number of 64 bits. -/
def asU64? : Json → Option Nat := asNat? 18446744073709551616

/-- A whole number of 64 bits with a sign. -/
def asI64? (j : Json) : Option Int := do
  let n ← asInt? j
  if -9223372036854775808 ≤ n ∧ n < 9223372036854775808 then some n else none

/-- The values of an array. -/
def asArr? : Json → Option (List Json)
  | .arr l => some l
  | _ => none

/-- The members of an object. -/
def asObj? : Json → Option (List (String × Json))
  | .obj l => some l
  | _ => none

/-- A required member. -/
def need {α : Type} (dec : Json → Option α) (j : Json) (name : String) : Option α := do
  dec (← field? j name)

/-- A member that may be missing or null. -/
def opt {α : Type} (dec : Json → Option α) (j : Json) (name : String) : Option (Option α) :=
  match field? j name with
  | none => some none
  | some v => (dec v).map some

/-- A member that may be missing or null, with a value for that. -/
def optD {α : Type} (dec : Json → Option α) (j : Json) (name : String) (d : α) : Option α :=
  (opt dec j name).map (·.getD d)

/-- An array of values of one kind. -/
def asListOf {α : Type} (dec : Json → Option α) (j : Json) : Option (List α) := do
  (← asArr? j).mapM dec

/-- A list that may be missing or null. -/
def listOf {α : Type} (dec : Json → Option α) (j : Json) (name : String) : Option (List α) :=
  optD (asListOf dec) j name []

/-- A member that may be missing but not null. -/
def orDefault {α : Type} (dec : Json → Option α) (j : Json) (name : String) (d : α) : Option α :=
  match j.get? name with
  | none => some d
  | some v => dec v

/-- A member with the value that stands for it when it is missing or null. -/
def objOf (j : Json) (name : String) : Option Json :=
  optD (fun v => (asObj? v).map fun _ => v) j name (.obj [])

/-- The bytes of hexadecimal digits, two for each. -/
def hexBytes : List Char → Option (List UInt8)
  | [] => some []
  | a :: b :: rest => do
    let n := (← Text.hexDigit? a) * 16 + (← Text.hexDigit? b)
    return n.toUInt8 :: (← hexBytes rest)
  | _ => none

/-- Bytes, as a text or in hexadecimal digits. -/
def asBytes? (j : Json) : Option ByteArray :=
  match j.get? "text" with
  | some (.str s) => some s.toUTF8
  | _ => do
    let digits ← need asStr? j "hex"
    return ⟨(← hexBytes digits.toList).toArray⟩

/-- A value that may be missing, and is null then. -/
def optJson {α : Type} (enc : α → Json) : Option α → Json
  | none => .null
  | some a => enc a

/-- A number that may be missing. -/
def optNatJson : Option Nat → Json := optJson Json.nat

/-- A string that may be missing. -/
def optStrJson : Option String → Json := optJson Json.str

/-- The hexadecimal digits of a number, at least so many. -/
def hexText (width n : Nat) : String :=
  let digits := Nat.toDigits 16 n
  String.ofList (List.replicate (width - digits.length) '0' ++ digits)

/-- The sixteen digits of a word of 64 bits. -/
def wordJson (w : UInt64) : Json := .str (hexText 16 w.toNat)

/-- The digits of the bits of a floating-point number, so that nothing is lost. -/
def floatJson (x : Float) : Json := wordJson x.toBits

/-- The digits of some bytes. -/
def bytesHex (b : ByteArray) : String :=
  b.data.toList.foldl (fun s x => s ++ hexText 2 x.toNat) ""

/-- Bytes as a text if they are one, and else as digits. -/
def bytesJson (b : ByteArray) : Json :=
  match String.fromUTF8? b with
  | some s => .obj [("text", .str s)]
  | none => .obj [("hex", .str (bytesHex b))]

end ChangeImpact.Json
