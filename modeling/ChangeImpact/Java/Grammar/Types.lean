import ChangeImpact.Java.Grammar.Basic

/-!
# Grammar: annotations, modifiers and types
-/

namespace ChangeImpact.Java.Grammar

variable (go : Goal → Parser Tree)

/-! ## Annotations -/

/-- Any number of annotations. -/
def annotations : Piece := many (kid (go .annotationUse))

/-- Values in braces. -/
def elementValueArray (value : Parser Tree) : Parser Tree :=
  node .elementValueArray
    (seq [mark "\x7b", sepBy (kid value) (mark ","), opt (mark ","), mark "\x7d"])

/-- A value of an annotation, nested at most `n` deep in braces. -/
def elementValue : Nat → Parser Tree
  | 0, _ => none
  | n + 1, ts => firstOf [elementValueArray (elementValue n), go .annotationUse, go .condition] ts

/-- A value of an annotation. -/
def anyElementValue : Parser Tree := fun ts => elementValue go (ts.length + 1) ts

/-- `name = value`. -/
def elementValuePair : Parser Tree :=
  node .elementValuePair (seq [kid identifier, mark "=", kid (anyElementValue go)])

/-- The arguments of an annotation. -/
def annotationArguments : Parser Tree :=
  node .annotationArguments
    (seq [mark "(",
      firstOf [
        seq [sepBy1 (kid (elementValuePair go)) (mark ","), mark ")"],
        seq [opt (kid (anyElementValue go)), mark ")"]]])

/-- `@Name` or `@Name(...)`. -/
def annotationUse : Parser Tree :=
  guarded (fun ts => isMark "@" ts && !isWord "interface" (ts.drop 1)) <|
    firstOf [
      node .annotationUse
        (seq [mark "@", role .name qualifiedName, kid (annotationArguments go)]),
      node .annotationMarker (seq [mark "@", role .name qualifiedName])]

/-! ## Modifiers -/

/-- Keywords that are always modifiers. -/
def modifierWords : List String :=
  ["public", "protected", "private", "abstract", "static", "final", "strictfp", "default",
    "synchronized", "native", "transient", "volatile"]

/-- A modifier that is also a name: it must stand before another keyword. -/
def sealedModifier : Piece :=
  guarded (fun ts => match ts.drop 1 with
    | t :: _ => t.cls == .word && reserved.contains t.text
    | [] => false) (word "sealed")

/-- The keyword with a hyphen. -/
def nonSealedModifier : Piece :=
  guarded (fun ts => isWord "non" ts && isMark "-" (ts.drop 1) && isGlued (ts.drop 1) &&
      isWord "sealed" (ts.drop 2) && isGlued (ts.drop 2))
    (seq [word "non", mark "-", word "sealed"])

/-- Annotations and keywords before a declaration, at least one. -/
def modifiers : Parser Tree :=
  node .modifiers
    (many1 (firstOf [kid (go .annotationUse), oneWord modifierWords, sealedModifier,
      nonSealedModifier]))

/-- Modifiers, if there are any. -/
def optModifiers : Piece := opt (kid (modifiers go))

/-! ## Types -/

/-- Names of the primitive types. -/
def primitiveWords : List String :=
  ["byte", "short", "int", "long", "char", "float", "double", "boolean"]

/-- A primitive type or no type at all. -/
def primitiveType : Parser Tree :=
  firstOf [
    leafIf .primitiveType fun t => t.cls == .word && primitiveWords.contains t.text,
    wordLeaf .voidType "void"]

/-- `?`, `? extends T`, `? super T`. -/
def wildcard : Parser Tree :=
  node .wildcard
    (seq [annotations go, mark "?",
      opt (firstOf [seq [word "extends", kid (go .type)],
        seq [kid (wordLeaf .super "super"), kid (go .type)]])])

/-- Types in angle brackets, possibly none. -/
def typeArguments : Parser Tree :=
  node .typeArguments
    (seq [mark "<", sepBy (firstOf [kid (go .type), kid (wildcard go)]) (mark ","), mark ">"])

/-- Adds type arguments and further names to a type; at most `n` of them. -/
def extendType : Nat → Tree → Parser Tree
  | 0, t, ts => some (t, ts)
  | n + 1, t, ts =>
    match (if t.kind = .genericType then none else (kid (typeArguments go)) ts) with
    | some (args, rest) => extendType n (.node .genericType ((none, t) :: args)) rest
    | none =>
      match seq [mark ".", annotations go, kid typeIdentifier] ts with
      | some (more, rest) => extendType n (.node .scopedTypeIdentifier ((none, t) :: more)) rest
      | none => some (t, ts)

/-- A type without dimensions. -/
def simpleType : Parser Tree := fun ts =>
  firstOf [primitiveType, andThen typeIdentifier (extendType go ts.length)] ts

/-- `[]`, at least once. -/
def dimensions : Parser Tree :=
  node .dimensions (many1 (seq [annotations go, mark "[", mark "]"]))

/-- A type without annotations before it. -/
def unannotatedType : Parser Tree :=
  andThen (simpleType go) fun t =>
    firstOf [
      mapped (fun d => .node .arrayType [(none, t), (none, d)]) (dimensions go),
      succeed t]

/-- A type. -/
def type : Parser Tree :=
  firstOf [
    unannotatedType go,
    node .annotatedType (seq [many1 (kid (go .annotationUse)), kid (unannotatedType go)])]

/-- Types with commas. -/
def typeList : Parser Tree := node .typeList (sepBy1 (kid (go .type)) (mark ","))

/-- A type variable with its bounds. -/
def typeParameter : Parser Tree :=
  node .typeParameter
    (seq [annotations go, kid typeIdentifier,
      opt (kid (node .typeBound
        (seq [word "extends", sepBy1 (kid (go .type)) (mark "&")])))])

/-- Type variables in angle brackets. -/
def typeParameters : Parser Tree :=
  node .typeParameters
    (seq [mark "<", sepBy1 (kid (typeParameter go)) (mark ","), mark ">"])

/-! ## Parameters -/

/-- The name of a variable, with dimensions. -/
def variableName : Piece := seq [role .name identifier, opt (kid (dimensions go))]

/-- A parameter. -/
def formalParameter : Parser Tree :=
  node .formalParameter
    (seq [optModifiers go, role .type (unannotatedType go), variableName go])

/-- A parameter that takes any number of values. -/
def spreadParameter : Parser Tree :=
  node .spreadParameter
    (seq [optModifiers go, kid (unannotatedType go), annotations go, mark "...",
      kid (node .variableDeclarator (variableName go))])

/-- The receiver, written as a parameter. -/
def receiverParameter : Parser Tree :=
  node .receiverParameter
    (seq [annotations go, kid (unannotatedType go), many (seq [kid identifier, mark "."]),
      kid (wordLeaf .this "this")])

/-- The parameters of a method. -/
def formalParameters : Parser Tree :=
  node .formalParameters
    (seq [mark "(",
      sepBy (firstOf [kid (receiverParameter go), kid (formalParameter go),
        kid (spreadParameter go)]) (mark ","),
      mark ")"])

end ChangeImpact.Java.Grammar
