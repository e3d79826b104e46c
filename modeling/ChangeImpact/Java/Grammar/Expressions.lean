import ChangeImpact.Java.Grammar.Types

/-!
# Grammar: expressions

From the inside out: primary expressions with what may follow them, signs and casts, steps, binary
operators by precedence, the ternary operator, closures.

An assignment is read where its left side ends: a name, a field or an element followed by an
assignment operator takes everything to its right.
-/

namespace ChangeImpact.Java.Grammar

variable (go : Goal → Parser Tree)

/-! ## Arguments, literals -/

/-- Arguments in round brackets. -/
def argumentList : Parser Tree :=
  node .argumentList (seq [mark "(", sepBy (kid (go .expression)) (mark ","), mark ")"])

/-- An expression in round brackets. -/
def parenthesized : Parser Tree :=
  node .parenthesized (seq [mark "(", kid (go .expression), mark ")"])

/-- A quote. -/
def quote : Piece := kid (leafIf .token (·.cls == .quote))

/-- A string with its escapes and splices. -/
def stringLiteral : Parser Tree :=
  node .stringLiteral
    (seq [quote,
      many (firstOf [
        kid (leafIf .stringFragment (·.cls == .fragment)),
        kid (leafIf .escapeSequence (·.cls == .escape)),
        kid (node .stringSplice
          (seq [kid (leafIf .token (·.cls == .splice)), kid (go .expression), mark "\x7d"]))]),
      quote])

/-- A number, a character, a truth value, nothing, or a string. -/
def literal : Parser Tree :=
  firstOf [
    leafIf .literal fun t => t.cls == .number || t.cls == .character ||
      (t.cls == .word && ["true", "false", "null"].contains t.text),
    stringLiteral go]

/-! ## Creation -/

/-- Values in braces. -/
def arrayInitializerOf (value : Parser Tree) : Parser Tree :=
  node .arrayInitializer
    (seq [mark "\x7b", sepBy (kid value) (mark ","), opt (mark ","), mark "\x7d"])

/-- The value of a variable or of an element, nested at most `n` deep in braces. -/
def initializerWith : Nat → Parser Tree
  | 0, _ => none
  | n + 1, ts => firstOf [arrayInitializerOf (initializerWith n), go .expression] ts

/-- The value of a variable. -/
def initializer : Parser Tree := fun ts => initializerWith go (ts.length + 1) ts

/-- The elements of an array. -/
def arrayInitializer : Parser Tree := arrayInitializerOf (initializer go)

/-- `[n]`. -/
def dimensionExpression : Parser Tree :=
  node .dimensionExpression (seq [annotations go, mark "[", kid (go .expression), mark "]"])

/-- A new array. -/
def arrayCreation : Parser Tree :=
  node .arrayCreation
    (seq [word "new", annotations go, kid (simpleType go),
      firstOf [
        seq [many1 (kid (dimensionExpression go)), opt (kid (dimensions go))],
        seq [kid (dimensions go), kid (arrayInitializer go)]]])

/-- `new T(…)`, up to where a body may stand. -/
def creationHead : Piece :=
  seq [word "new", annotations go, opt (kid (typeArguments go)), annotations go,
    role .type (simpleType go), kid (argumentList go)]

/-- The children of a new object, from the keyword on. -/
def creation : Piece :=
  seq [creationHead go, opt (kid (go .classBody))]

/-! ## Primary expressions -/

/-- A reference to a method of what the first children stand for. -/
def methodReferenceTail : Piece :=
  seq [mark "::", opt (kid (typeArguments go)), firstOf [word "new", kid identifier]]

/-- A type with arguments or dimensions, before `::` or `.class`. -/
def typePrimary : Parser Tree :=
  guarded (fun ts =>
      let rest := afterName ts
      isMark "<" rest || (isMark "[" rest && isMark "]" (rest.drop 1)) ||
        (primitiveType ts).isSome) <|
    andThen (go .unannotatedType) fun t =>
      firstOf [
        mapped (fun cs => .node .methodReference ((none, t) :: cs)) (methodReferenceTail go),
        mapped (fun cs => .node .classLiteral ((none, t) :: cs))
          (seq [mark ".", word "class"])]

/-- A primary expression without what follows it. -/
def primaryBase : Parser Tree :=
  firstOf [
    literal go,
    typePrimary go,
    node .methodInvocation (seq [role .name identifier, kid (argumentList go)]),
    identifier,
    wordLeaf .this "this",
    guarded (fun ts => isMark "." (ts.drop 1) || isMark "::" (ts.drop 1)) (wordLeaf .super "super"),
    parenthesized go,
    arrayCreation go,
    node .objectCreation (creation go)]

/-- What may follow a primary expression: a tree that contains it. -/
def primaryTail (t : Tree) : Parser Tree :=
  let object : Child := (some .object, t)
  let plain : Child := (none, t)
  firstOf [
    -- A call, possibly of the super type and with type arguments.
    mapped (fun cs => .node .methodInvocation (object :: cs))
      (seq [mark ".", opt (seq [kid (wordLeaf .super "super"), mark "."]),
        opt (kid (typeArguments go)), role .name identifier, kid (argumentList go)]),
    mapped (fun cs => .node .fieldAccess (object :: cs))
      (seq [mark ".", opt (seq [kid (wordLeaf .super "super"), mark "."]),
        role .member (firstOf [identifier, wordLeaf .this "this"])]),
    guarded (fun ts => isMark "::" (ts.drop 2))
      (mapped (fun cs => .node .fieldAccess (object :: cs))
        (seq [mark ".", role .member (wordLeaf .super "super")])),
    mapped (fun cs => .node .objectCreation (plain :: cs)) (seq [mark ".", creation go]),
    mapped (fun cs => .node .classLiteral (plain :: cs)) (seq [mark ".", word "class"]),
    mapped (fun cs => .node .templateExpression (plain :: cs))
      (seq [mark ".", kid (stringLiteral go)]),
    mapped (fun cs => .node .arrayAccess (plain :: cs))
      (seq [mark "[", kid (go .expression), mark "]"]),
    mapped (fun cs => .node .methodReference (plain :: cs)) (methodReferenceTail go)]

/-- Adds at most `n` tails to a primary expression. -/
def extendPrimary : Nat → Tree → Parser Tree
  | 0, t, ts => some (t, ts)
  | n + 1, t, ts =>
    match primaryTail go t ts with
    | some (t, rest) => extendPrimary n t rest
    | none => some (t, ts)

/-- A primary expression. -/
def primary : Parser Tree := fun ts => andThen (primaryBase go) (extendPrimary go ts.length) ts

/-! ## Operators -/

/-- The tokens joined into one. -/
def joinTokens (t : Token) (ts : List Token) : Token :=
  { t with
    text := ts.foldl (fun s u => s ++ u.text) t.text
    endRow := (ts.getLast?.map (·.endRow)).getD t.endRow }

/-- Whether the token is the given mark and touches the one before it. -/
def isGluedMark (s : String) (ts : List Token) : Bool := isMark s ts && isGlued ts

/-- An operator that starts with a closing angle bracket, and the rest. -/
def angleOperator (t : Token) (ts : List Token) : Token × List Token :=
  -- How many brackets follow, and whether an equals sign ends them.
  let more := if isGluedMark ">" ts then if isGluedMark ">" (ts.drop 1) then 2 else 1 else 0
  let width := if isGluedMark "=" (ts.drop more) then more + 1 else more
  (joinTokens t (ts.take width), ts.drop width)

/-- The operator at the front. -/
def operator? : List Token → Option (Token × List Token)
  | [] => none
  | t :: ts =>
    if t.cls == .mark then
      if t.text == ">" then some (angleOperator t ts) else some (t, ts)
    else none

/-- An operator of the given spelling. -/
def operatorIf (test : String → Bool) : Piece := fun ts =>
  match operator? ts with
  | some (t, rest) => if test t.text then some ([(none, .leaf .token t)], rest) else none
  | none => none

/-- Operators that assign. -/
def assignmentOperators : List String :=
  ["=", "+=", "-=", "*=", "/=", "&=", "|=", "^=", "%=", "<<=", ">>=", ">>>="]

/-- How strongly a binary operator binds. -/
def binaryLevel? (s : String) : Option Nat :=
  match s with
  | "||" => some 4
  | "&&" => some 5
  | "|" => some 6
  | "^" => some 7
  | "&" => some 8
  | "==" | "!=" => some 9
  | "<" | ">" | "<=" | ">=" => some 10
  | "<<" | ">>" | ">>>" => some 11
  | "+" | "-" => some 12
  | "*" | "/" | "%" => some 13
  | _ => none

/-- How strongly `instanceof` binds. -/
def instanceOfLevel : Nat := 10

/-- The weakest binary operators. -/
def weakestLevel : Nat := 4

/-- Whether the tree can be assigned to. -/
def isAssignable (t : Tree) : Bool :=
  t.kind == .identifier || t.kind == .fieldAccess || t.kind == .arrayAccess

/-- A primary expression, or an assignment to it. -/
def operand : Parser Tree :=
  andThen (go .primary) fun t =>
    firstOf [
      guarded (fun _ => isAssignable t)
        (mapped (fun cs => .node .assignment ((none, t) :: cs))
          (seq [operatorIf assignmentOperators.contains, kid (go .expression)])),
      succeed t]

/-- What follows `switch`. -/
def switchExpression (block : Parser Tree) : Parser Tree :=
  node .switchExpression (seq [word "switch", kid (parenthesized go), role .body block])

/-- A type in round brackets and the value it is applied to. -/
def cast (closure : Parser Tree) : Parser Tree :=
  guarded (isMark "(") <|
    node .cast
      (seq [mark "(", sepBy1 (role .type (go .type)) (mark "&"), mark ")",
        kid (firstOf [closure, go .unary])])

/-- Signs before an operand. -/
def signed (block closure : Parser Tree) : Parser Tree :=
  firstOf [
    node .unary
      (seq [operatorIf ["+", "-", "!", "~"].contains, kid (go .signed)]),
    node .update (seq [operatorIf ["++", "--"].contains, kid (go .signed)]),
    cast go closure,
    switchExpression go block,
    operand go]

/-- Adds at most `n` steps after an operand. -/
def extendSteps : Nat → Tree → Parser Tree
  | 0, t, ts => some (t, ts)
  | n + 1, t, ts =>
    match operatorIf ["++", "--"].contains ts with
    | some (op, rest) => extendSteps n (.node .update ((none, t) :: op)) rest
    | none => some (t, ts)

/-- An operand with signs and steps. -/
def unary : Parser Tree := fun ts => andThen (go .signed) (extendSteps ts.length) ts

/-- A test of the type of a value. -/
def instanceOfTail : Piece :=
  seq [word "instanceof", opt (word "final"),
    firstOf [
      kid (go .pattern),
      seq [kid (go .type), opt (role .name identifier)]]]

/-- Adds at most `n` operators that bind at least as strongly as `level`. -/
def extendOperators (level : Nat) : Nat → Tree → Parser Tree
  | 0, t, ts => some (t, ts)
  | n + 1, t, ts =>
    match (if level ≤ instanceOfLevel then instanceOfTail go ts else none) with
    | some (cs, rest) => extendOperators level n (.node .instanceOf ((none, t) :: cs)) rest
    | none =>
      match operator? ts with
      | none => some (t, ts)
      | some (op, rest) =>
        match binaryLevel? op.text with
        | none => some (t, ts)
        | some strength =>
          if strength < level then some (t, ts)
          else
            match go (.operators (strength + 1)) rest with
            | none => some (t, ts)
            | some (u, rest) =>
              extendOperators level n
                (.node .binary [(none, t), (none, .leaf .token op), (none, u)]) rest

/-- An expression of operators that bind at least as strongly as `level`. -/
def operators (level : Nat) : Parser Tree := fun ts =>
  andThen (go .unary) (extendOperators go level ts.length) ts

/-- An expression that is no closure. -/
def condition : Parser Tree :=
  andThen (go (.operators weakestLevel)) fun t =>
    firstOf [
      mapped (fun cs => .node .ternary ((none, t) :: cs))
        (seq [mark "?", kid (go .expression), mark ":", kid (go .expression)]),
      succeed t]

/-! ## Closures -/

/-- Names in round brackets. -/
def inferredParameters : Parser Tree :=
  node .inferredParameters (seq [mark "(", sepBy1 (kid identifier) (mark ","), mark ")"])

/-- A closure: parameters, an arrow, an expression or a block. -/
def closure : Parser Tree :=
  guarded (fun ts =>
      (startsName ts && isMark "->" (ts.drop 1)) ||
        (isMark "(" ts && isMark "->" (afterRound 0 ts))) <|
    node .lambda
      (seq [role .parameters (firstOf [identifier, inferredParameters, formalParameters go]),
        mark "->", role .body (firstOf [go .block, go .expression])])

/-- An expression. -/
def expression : Parser Tree := firstOf [closure go, go .condition]

/-! ## Patterns -/

/-- `Type name`. -/
def typePattern : Parser Tree :=
  node .typePattern (seq [optModifiers go, kid (go .unannotatedType), kid identifier])

/-- A part of a record pattern. -/
def recordPatternComponent : Parser Tree :=
  firstOf [
    node .recordPatternComponent
      (seq [optModifiers go, kid (go .unannotatedType), kid identifier]),
    leafIf .recordPatternComponent fun t => t.cls == .word && t.text == "_"]

/-- `Type(part, ...)`, nested at most `n` deep. -/
def recordPatternWith : Nat → Parser Tree
  | 0, _ => none
  | n + 1, ts =>
    node .recordPattern
      (seq [kid (simpleType go),
        kid (node .recordPatternBody
          (seq [mark "(",
            sepBy (kid (firstOf [recordPatternWith n, recordPatternComponent go])) (mark ","),
            mark ")"]))]) ts

/-- A record pattern. -/
def recordPattern : Parser Tree := fun ts => recordPatternWith go (ts.length + 1) ts

end ChangeImpact.Java.Grammar
