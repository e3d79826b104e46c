import ChangeImpact.Java.Grammar.Expressions

/-!
# Grammar: statements
-/

namespace ChangeImpact.Java.Grammar

variable (go : Goal → Parser Tree)

/-! ## Variables -/

/-- A variable and its value. -/
def variableDeclarator : Parser Tree :=
  node .variableDeclarator
    (seq [variableName go, opt (seq [mark "=", kid (initializer go)])])

/-- Variables with commas. -/
def declarators : Piece := sepBy1 (kid (variableDeclarator go)) (mark ",")

/-- The declaration of local variables. -/
def localVariableDeclaration : Parser Tree :=
  node .localVariableDeclaration
    (seq [optModifiers go, role .type (go .unannotatedType), declarators go,
      kid (go .semicolon)])

/-! ## Blocks and switches -/

/-- Statements in braces. -/
def block : Parser Tree :=
  node .block (seq [mark "\x7b", many (kid (go .blockItem)), kid (go .closeBrace)])

/-- A value after `case`; `default` may stand among values. -/
def caseValue : Piece :=
  firstOf [kid (leafIf .identifier fun t => t.cls == .word && t.text == "default"),
    kid (go .condition)]

/-- A condition on a case. -/
def caseGuard : Parser Tree := node .guard (seq [word "when", kid (go .condition)])

/-- What follows `case`: a pattern or values. -/
def casePattern : Parser Tree :=
  node .pattern (firstOf [kid (go .pattern), kid (typePattern go)])

/-- The head of a case. -/
def switchLabel : Parser Tree :=
  node .switchLabel
    (firstOf [
      seq [word "case",
        firstOf [
          seq [sepBy1 (kid (casePattern go)) (mark ","), opt (kid (caseGuard go)),
            ahead fun ts => isMark "->" ts || isMark ":" ts],
          seq [sepBy1 (caseValue go) (mark ","), opt (kid (caseGuard go))]]],
      word "default"])

/-- An expression and a semicolon. -/
def expressionStatement : Parser Tree :=
  node .expressionStatement (seq [kid (go .expression), kid (go .semicolon)])

/-- `throw e;`. -/
def throwStatement : Parser Tree :=
  node .throwStatement (seq [word "throw", kid (go .expression), kid (go .semicolon)])

/-- A case with an arrow. -/
def switchRule : Parser Tree :=
  node .switchRule
    (seq [kid (switchLabel go), mark "->",
      kid (firstOf [go .block, throwStatement go, expressionStatement go])])

/-- Cases with colons and their statements. -/
def switchGroup : Parser Tree :=
  node .switchGroup
    (seq [many1 (seq [kid (switchLabel go), mark ":"]), many (kid (go .blockItem))])

/-- The cases of a switch. -/
def switchBlock : Parser Tree :=
  node .switchBlock
    (seq [mark "\x7b", many (kid (firstOf [switchRule go, switchGroup go])), mark "\x7d"])

/-! ## Control -/

/-- `if (c) s else s`. -/
def ifStatement : Parser Tree :=
  node .ifStatement
    (seq [word "if", kid (parenthesized go), kid (go .statement),
      opt (seq [word "else", kid (go .statement)])])

/-- `while (c) s`. -/
def whileStatement : Parser Tree :=
  node .whileStatement (seq [word "while", kid (parenthesized go), role .body (go .statement)])

/-- `do s while (c);`. -/
def doStatement : Parser Tree :=
  node .doStatement
    (seq [word "do", role .body (go .statement), word "while", kid (parenthesized go),
      kid (go .semicolon)])

/-- Expressions with commas. -/
def expressions : Piece := sepBy (kid (go .expression)) (mark ",")

/-- `for (init; condition; step) s`. -/
def forStatement : Parser Tree :=
  node .forStatement
    (seq [word "for", mark "(",
      firstOf [kid (localVariableDeclaration go), seq [expressions go, mark ";"]],
      opt (kid (go .expression)), mark ";", expressions go, mark ")",
      role .body (go .statement)])

/-- `for (T x : e) s`. -/
def enhancedFor : Parser Tree :=
  node .enhancedFor
    (seq [word "for", mark "(", optModifiers go, role .type (go .unannotatedType),
      variableName go, mark ":", kid (go .expression), mark ")", role .body (go .statement)])

/-- A label and its statement. -/
def labeledStatement : Parser Tree :=
  node .labeledStatement (seq [kid identifier, mark ":", kid (go .statement)])

/-- `assert c : m;`. -/
def assertStatement : Parser Tree :=
  node .assertStatement
    (seq [word "assert", kid (go .expression), opt (seq [mark ":", kid (go .expression)]),
      kid (go .semicolon)])

/-- `break` and `continue`, with or without a label. -/
def jump (k : Kind) (keyword : String) : Parser Tree :=
  node k (seq [word keyword, opt (kid identifier), kid (go .semicolon)])

/-- `return e;`. -/
def returnStatement : Parser Tree :=
  node .returnStatement (seq [word "return", opt (kid (go .expression)), kid (go .semicolon)])

/-- `yield e;`; a step or an assignment to something of that name is none. -/
def yieldStatement : Parser Tree :=
  guarded (fun ts => !isMark "++" (ts.drop 1) && !isMark "--" (ts.drop 1)) <|
    node .yieldStatement (seq [word "yield", kid (go .expression), kid (go .semicolon)])

/-- `synchronized (e) { ... }`. -/
def synchronizedStatement : Parser Tree :=
  node .synchronizedStatement
    (seq [word "synchronized", kid (parenthesized go), role .body (go .block)])

/-! ## Exceptions -/

/-- A resource of a `try`. -/
def resource : Parser Tree :=
  node .resource
    (firstOf [
      seq [optModifiers go, role .type (go .unannotatedType), variableName go, mark "=",
        kid (go .expression)],
      kid (go .primary)])

/-- The resources of a `try`. -/
def resourceSpecification : Parser Tree :=
  node .resourceSpecification
    (seq [mark "(", sepBy1 (kid (resource go)) (mark ";"), opt (mark ";"), mark ")"])

/-- What a `catch` binds. -/
def catchParameter : Parser Tree :=
  node .catchParameter
    (seq [optModifiers go,
      kid (node .catchType (sepBy1 (kid (go .unannotatedType)) (mark "|"))), variableName go])

/-- `catch (E e) { ... }`. -/
def catchClause : Parser Tree :=
  node .catchClause
    (seq [word "catch", mark "(", kid (catchParameter go), mark ")", role .body (go .block)])

/-- `finally { ... }`. -/
def finallyClause : Parser Tree :=
  node .finallyClause (seq [word "finally", kid (go .block)])

/-- Handlers after a `try`. -/
def handlers : Piece := seq [many (kid (catchClause go)), opt (kid (finallyClause go))]

/-- A `try` with its handlers. -/
def tryStatement : Parser Tree :=
  firstOf [
    node .tryWithResources
      (seq [word "try", kid (resourceSpecification go), role .body (go .block), handlers go]),
    node .tryStatement (seq [word "try", role .body (go .block), handlers go])]

/-! ## All statements -/

/-- A statement that starts with a keyword of its own. -/
def keywordStatement (keyword : String) : Parser Tree :=
  match keyword with
  | "if" => ifStatement go
  | "while" => whileStatement go
  | "do" => doStatement go
  | "for" => firstOf [enhancedFor go, forStatement go]
  | "assert" => assertStatement go
  | "break" => jump go .breakStatement keyword
  | "continue" => jump go .continueStatement keyword
  | "return" => returnStatement go
  | "throw" => throwStatement go
  | "synchronized" => synchronizedStatement go
  | "try" => tryStatement go
  | "switch" => switchExpression go (switchBlock go)
  | "yield" => yieldStatement go
  | _ => fail

/-- A statement; `declaration` reads the declarations that may stand among statements. -/
def statement (declaration : Parser Tree) : Parser Tree
  | [] => none
  | t :: ts =>
    firstOf [
      go .block,
      leafIf .token fun t => t.cls == .mark && t.text == ";",
      guarded (fun _ => t.cls == .word) (keywordStatement go t.text),
      declaration,
      labeledStatement go,
      localVariableDeclaration go,
      expressionStatement go] (t :: ts)

end ChangeImpact.Java.Grammar
