import ChangeImpact.CallGraph.Build

/-!
# Test methods

An ordinary method is a test if it carries a test annotation, or if its owner is named like a test
suite and the method is named like a test.
-/

namespace ChangeImpact

/-- Annotations that make a method a test. -/
def testAnnotations : List String :=
  ["Test", "ParameterizedTest", "RepeatedTest", "TestFactory", "TestTemplate"]

/-- Whether the declaration carries the annotation; a qualified name counts by its last segment. -/
def Declaration.carries (d : Declaration) (name : String) : Bool :=
  d.annotations.any fun a => Text.afterLast "." a == name

/-- `OrderTest`, `OrderTests`, `TestOrders`. -/
def isSuiteName (simpleOwner : String) : Bool :=
  Text.hasSuffix "Test" simpleOwner || Text.hasSuffix "Tests" simpleOwner ||
    Text.hasPrefix "Test" simpleOwner

/-- `testSave`, `saveShouldPersist`, `givenCart`, `failsWhenEmpty`. -/
def isTestName (name : String) : Bool :=
  let lower := Text.lowercase name
  Text.hasPrefix "test" name || Text.hasInfix "should" lower || Text.hasInfix "when" lower ||
    Text.hasInfix "given" lower

/-- Whether annotations or names make the declaration a test. -/
def Declaration.isTest (d : Declaration) : Bool :=
  testAnnotations.any d.carries ||
    (isSuiteName d.ownMethod.simpleOwner && isTestName d.name)

/-- The tests among the ordinary methods of a unit, each once. -/
def SourceUnit.tests (u : SourceUnit) : List Method :=
  firstOccurrences <|
    ((u.files.flatMap (·.declarations)).filter fun d => d.kind = .method && d.isTest).map
      (·.ownMethod)

end ChangeImpact
