import ChangeImpact.Java.Grammar.Statements

/-!
# Grammar: declarations
-/

namespace ChangeImpact.Java.Grammar

variable (go : Goal → Parser Tree)

/-! ## Heads -/

/-- The types a class extends and implements. -/
def superclass : Parser Tree := node .superclass (seq [word "extends", kid (go .type)])

/-- `implements A, B`. -/
def superInterfaces : Parser Tree :=
  node .superInterfaces (seq [word "implements", kid (typeList go)])

/-- `extends A, B` of an interface. -/
def extendsInterfaces : Parser Tree :=
  node .extendsInterfaces (seq [word "extends", kid (typeList go)])

/-- `permits A, B`. -/
def permits : Parser Tree := node .permits (seq [word "permits", kid (typeList go)])

/-- `throws A, B`. -/
def throwsClause : Parser Tree :=
  node .throwsClause (seq [word "throws", sepBy1 (kid (go .type)) (mark ",")])

/-! ## Bodies -/

/-- Members in braces. -/
def body (k : Kind) (item : Piece) : Parser Tree :=
  node k (seq [mark "\x7b", many item, kid (go .closeBrace)])

/-- The body of a class. -/
def classBody : Parser Tree := body go .classBody (kid (go .classItem))

/-- The body of an interface. -/
def interfaceBody : Parser Tree := body go .interfaceBody (kid (go .interfaceItem))

/-- A constant of an enumeration, possibly with arguments and a body. -/
def enumConstant : Parser Tree :=
  node .enumConstant
    (seq [optModifiers go, role .name identifier, opt (kid (argumentList go)),
      opt (role .body (go .classBody))])

/-- The body of an enumeration: constants, then members. -/
def enumBody : Parser Tree :=
  node .enumBody
    (seq [mark "\x7b", sepBy (kid (enumConstant go)) (mark ","), opt (mark ","),
      opt (kid (node .enumBodyDeclarations (seq [mark ";", many (kid (go .classItem))]))),
      kid (go .closeBrace)])

/-! ## Types -/

/-- A class after its modifiers. -/
def classDeclaration (mods : List Child) : Parser Tree :=
  node .classDeclaration
    (seq [given mods, word "class", role .name identifier, opt (kid (typeParameters go)),
      opt (kid (superclass go)), opt (kid (superInterfaces go)), opt (kid (permits go)),
      role .body (go .classBody)])

/-- An interface after its modifiers. -/
def interfaceDeclaration (mods : List Child) : Parser Tree :=
  node .interfaceDeclaration
    (seq [given mods, word "interface", role .name identifier, opt (kid (typeParameters go)),
      opt (kid (extendsInterfaces go)), opt (kid (permits go)), role .body (interfaceBody go)])

/-- An enumeration after its modifiers. -/
def enumDeclaration (mods : List Child) : Parser Tree :=
  node .enumDeclaration
    (seq [given mods, word "enum", role .name identifier, opt (kid (superInterfaces go)),
      role .body (enumBody go)])

/-- A record after its modifiers. -/
def recordDeclaration (mods : List Child) : Parser Tree :=
  node .recordDeclaration
    (seq [given mods, word "record", role .name identifier, opt (kid (typeParameters go)),
      role .parameters (formalParameters go), opt (kid (superInterfaces go)),
      role .body (go .classBody)])

/-- An element of an annotation type. -/
def annotationTypeElement (mods : List Child) : Parser Tree :=
  node .annotationTypeElement
    (seq [given mods, role .type (go .unannotatedType), role .name identifier, mark "(", mark ")",
      opt (kid (dimensions go)), opt (seq [word "default", kid (anyElementValue go)]),
      kid (go .semicolon)])

/-- Fields of an interface. -/
def constantDeclaration (mods : List Child) : Parser Tree :=
  node .constantDeclaration
    (seq [given mods, role .type (go .unannotatedType), declarators go, kid (go .semicolon)])

/-- An annotation type after its modifiers; `nested` reads types inside of it. -/
def annotationTypeDeclaration (nested : List Child → Parser Tree) (mods : List Child) :
    Parser Tree :=
  let item : Parser Tree :=
    firstOf [
      leafIf .token fun t => t.cls == .mark && t.text == ";",
      andThen (optModifiers go) fun mods =>
        firstOf [nested mods, annotationTypeElement go mods, constantDeclaration go mods]]
  node .annotationTypeDeclaration
    (seq [given mods, mark "@", word "interface", role .name identifier,
      role .body (body go .annotationTypeBody (kid item))])

/-- A type after its modifiers, nested at most `n` deep in annotation types. -/
def typeDeclarationWith : Nat → List Child → Parser Tree
  | 0, _, _ => none
  | n + 1, mods, ts =>
    firstOf [
      guarded (isWord "class") (classDeclaration go mods),
      guarded (isWord "interface") (interfaceDeclaration go mods),
      guarded (isWord "enum") (enumDeclaration go mods),
      guarded (isWord "record") (recordDeclaration go mods),
      guarded (isMark "@")
        (annotationTypeDeclaration go (typeDeclarationWith n) mods)] ts

/-- A type after its modifiers. -/
def typeDeclaration (mods : List Child) : Parser Tree := fun ts =>
  typeDeclarationWith go (ts.length + 1) mods ts

/-! ## Members -/

/-- Fields. -/
def fieldDeclaration (mods : List Child) : Parser Tree :=
  node .fieldDeclaration
    (seq [given mods, role .type (go .unannotatedType), declarators go, kid (go .semicolon)])

/-- A method with a body or without. -/
def methodDeclaration (mods : List Child) : Parser Tree :=
  node .methodDeclaration
    (seq [given mods, opt (seq [kid (typeParameters go), annotations go]),
      role .type (go .unannotatedType), role .name identifier,
      role .parameters (formalParameters go), opt (kid (dimensions go)),
      opt (kid (throwsClause go)),
      firstOf [role .body (go .block), kid (go .semicolon)]])

/-- The call of another constructor at the start of one. -/
def explicitConstructorCall : Parser Tree :=
  let target : Parser Tree := firstOf [wordLeaf .this "this", wordLeaf .super "super"]
  node .explicitConstructorCall
    (seq [
      firstOf [
        seq [opt (kid (typeArguments go)), kid target, kid (argumentList go)],
        seq [role .object (go .primary), mark ".", opt (kid (typeArguments go)),
          kid (wordLeaf .super "super"), kid (argumentList go)]],
      mark ";"])

/-- The body of a constructor. -/
def constructorBody : Parser Tree :=
  node .constructorBody
    (seq [mark "\x7b", opt (kid (explicitConstructorCall go)), many (kid (go .blockItem)),
      kid (go .closeBrace)])

/-- A constructor. -/
def constructorDeclaration (mods : List Child) : Parser Tree :=
  node .constructorDeclaration
    (seq [given mods, opt (kid (typeParameters go)), role .name identifier,
      role .parameters (formalParameters go), opt (kid (throwsClause go)),
      role .body (constructorBody go)])

/-- A constructor of a record without parameters of its own. -/
def compactConstructor (mods : List Child) : Parser Tree :=
  node .compactConstructor (seq [given mods, role .name identifier, role .body (go .block)])

/-- A block that runs when the class is loaded. -/
def staticInitializer : Parser Tree :=
  node .staticInitializer (seq [word "static", kid (go .block)])

/-- A lone semicolon. -/
def loneSemicolon : Parser Tree := leafIf .token fun t => t.cls == .mark && t.text == ";"

/-- A member of a class. -/
def classMember : Parser Tree :=
  firstOf [
    loneSemicolon,
    go .block,
    staticInitializer go,
    andThen (optModifiers go) fun mods =>
      firstOf [typeDeclaration go mods, constructorDeclaration go mods, compactConstructor go mods,
        methodDeclaration go mods, fieldDeclaration go mods]]

/-- A member of an interface. -/
def interfaceMember : Parser Tree :=
  firstOf [
    loneSemicolon,
    andThen (optModifiers go) fun mods =>
      firstOf [typeDeclaration go mods, methodDeclaration go mods, constantDeclaration go mods]]

/-! ## Files -/

/-- `package a.b;`. -/
def packageDeclaration : Parser Tree :=
  node .packageDeclaration
    (seq [annotations go, word "package", kid qualifiedName, kid (go .semicolon)])

/-- `import a.b.*;`. -/
def importDeclaration : Parser Tree :=
  node .importDeclaration
    (seq [word "import", opt (word "static"), kid qualifiedName,
      opt (seq [mark ".", kid (leafIf .asterisk fun t => t.cls == .mark && t.text == "*")]),
      kid (go .semicolon)])

/-- Names with commas. -/
def names : Piece := sepBy1 (kid qualifiedName) (mark ",")

/-- A directive of a module. -/
def moduleDirective : Parser Tree :=
  node .moduleDirective
    (seq [
      firstOf [
        seq [word "requires", many (oneWord ["transitive", "static"]), kid qualifiedName],
        seq [word "requires", kid qualifiedName],
        seq [oneWord ["exports", "opens"], kid qualifiedName, opt (seq [word "to", names])],
        seq [word "uses", kid qualifiedName],
        seq [word "provides", kid qualifiedName, word "with", names]],
      kid (go .semicolon)])

/-- `module a.b { ... }`. -/
def moduleDeclaration : Parser Tree :=
  node .moduleDeclaration
    (seq [annotations go, opt (word "open"), word "module", role .name qualifiedName,
      role .body (node .moduleBody
        (seq [mark "\x7b", many (kid (moduleDirective go)), mark "\x7d"]))])

/-- A declaration that may stand among statements. -/
def declaration : Parser Tree :=
  firstOf [
    moduleDeclaration go,
    packageDeclaration go,
    importDeclaration go,
    andThen (optModifiers go) (typeDeclaration go)]

/-- A method outside of any type. -/
def looseMethod : Parser Tree := andThen (optModifiers go) (methodDeclaration go)

end ChangeImpact.Java.Grammar
