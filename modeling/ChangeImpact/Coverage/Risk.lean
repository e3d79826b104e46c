import ChangeImpact.Method.Synthetic

/-!
# The risk of an untested method

Methods are judged by name. `Method.isBusiness` says which methods are worth testing at all;
`riskScore` adds points for what depends on a method and for what its owner and name suggest it
does; `RiskLevel.ofScore` puts the score into one of three levels.
-/

namespace ChangeImpact.Coverage

/-! ## What names suggest -/

/-- The text contains one of the given ones. -/
def containsAny (needles : List String) (s : String) : Bool :=
  needles.any (Text.hasInfix · s)

/-- The text starts with one of the given ones. -/
def startsWithAny (starts : List String) (s : String) : Bool :=
  starts.any (Text.hasPrefix · s)

/-- The text ends with one of the given ones. -/
def endsWithAny (ends : List String) (s : String) : Bool :=
  ends.any (Text.hasSuffix · s)

/-- Owned by a framework or the platform. -/
def isFramework (m : Method) : Bool :=
  startsWithAny
    ["java.", "javax.", "jakarta.", "org.springframework.", "org.junit.", "org.mockito."] m.owner

/-- Owned by a helper type, or one of the methods that every object has. -/
def isUtility (m : Method) : Bool :=
  Text.hasInfix ".util." m.owner || endsWithAny ["Util", "Utils", "Helper"] m.owner ||
    ["toString", "hashCode", "equals"].contains m.name

/-- Whether the text is the given start followed by an ASCII capital. -/
def startsCapital (start s : String) : Bool :=
  Text.hasPrefix start s && ((s.toList.drop start.toList.length).head?.any Char.isUpper)

/-- `getTotal`, `setName`, `isOpen`; not `issue` or `settle`. -/
def isAccessor (name : String) : Bool :=
  ["get", "set", "is"].any (startsCapital · name)

/-- A method worth testing: no test, no minted name, no framework, helper or accessor. -/
def isBusiness (tests : List Method) (m : Method) : Bool :=
  !tests.contains m && !m.isSynthetic && !isFramework m && !isUtility m && !isAccessor m.name

/-- Owners whose path marks business rules. -/
def inBusinessPackage (m : Method) : Bool :=
  containsAny [".service.", ".business."] m.owner

/-- Owners whose path marks the core. -/
def inCorePackage (m : Method) : Bool :=
  containsAny [".core.", ".main."] m.owner

/-- Reached from outside. -/
def isPublicApi (m : Method) : Bool :=
  containsAny [".controller.", ".api.", ".rest.", ".web."] m.owner

/-- Holds business rules. -/
def isBusinessLogic (m : Method) : Bool :=
  inBusinessPackage m || startsWithAny ["process", "calculate", "validate", "transform"] m.name

/-- Belongs to a central service. -/
def isCoreService (m : Method) : Bool :=
  inCorePackage m || endsWithAny ["Service", "Manager", "Engine"] m.owner

/-! ## Score and level -/

/-- Points for the number of direct callers. -/
def callerPoints (callers : Nat) : Nat :=
  if 5 ≤ callers then 3 else if 2 ≤ callers then 2 else 1

/-- The points if the condition holds, else none. -/
def pointsIf (b : Bool) (points : Nat) : Nat :=
  if b then points else 0

/-- The risk of leaving a method with that many direct callers untested. -/
def riskScore (m : Method) (callers : Nat) : Nat :=
  callerPoints callers
    + pointsIf (isPublicApi m) 2
    + pointsIf (isBusinessLogic m) 2
    + pointsIf (isCoreService m) 3
    + pointsIf (inBusinessPackage m) 2
    + pointsIf (inCorePackage m) 2
    + pointsIf (containsAny [".controller.", ".api."] m.owner) 1
    + pointsIf (startsWithAny ["save", "update", "delete", "create"] m.name) 2
    + pointsIf (startsWithAny ["process", "execute", "handle"] m.name) 1

/-- How urgent a gap is. -/
inductive RiskLevel where
  | low
  | medium
  | high
deriving DecidableEq, Repr

/-- The place of a level, the lowest first. -/
def RiskLevel.rank : RiskLevel → Nat
  | low => 0
  | medium => 1
  | high => 2

/-- The level's name in reports. -/
def RiskLevel.name : RiskLevel → String
  | low => "LOW"
  | medium => "MEDIUM"
  | high => "HIGH"

/-- The level of a name in reports. -/
def RiskLevel.ofName? : String → Option RiskLevel
  | "LOW" => some low
  | "MEDIUM" => some medium
  | "HIGH" => some high
  | _ => none

/-- 7 points are high, 4 medium. -/
def RiskLevel.ofScore (score : Nat) : RiskLevel :=
  if 7 ≤ score then high else if 4 ≤ score then medium else low

/-- The reason given for a gap. -/
def gapReason (m : Method) (callers : Nat) : String :=
  "missing test coverage, affects " ++ toString callers ++ " caller" ++
    (if callers = 1 then "" else "s") ++
    (if isPublicApi m then ", public API method" else "") ++
    (if isBusinessLogic m then ", contains business logic" else "") ++
    (if isCoreService m then ", core service method" else "")

end ChangeImpact.Coverage
