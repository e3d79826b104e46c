import ChangeImpact.Java.Token

/-!
# Syntax trees

A tree keeps every token of the text it stands for: its leaves, from left to right, are the tokens.
Children may be labelled with the role they play.

* `Kind` — what a tree is; tokens that only mark structure have the kind `token`;
* `Tree.text`, `Tree.startRow`, `Tree.endRow` — what it looks like in the text and where it stands;
* `Tree.child?`, `Tree.namedChildren` — its parts;
* `Tree.faults` — how many places the grammar did not fit.
-/

namespace ChangeImpact.Java

/-- What a tree is. -/
inductive Kind where
  -- Structure
  | program
  | token
  | error
  -- Names
  | identifier
  | scopedIdentifier
  | this
  | super
  | asterisk
  -- Types
  | typeIdentifier
  | scopedTypeIdentifier
  | genericType
  | arrayType
  | annotatedType
  | primitiveType
  | voidType
  | typeArguments
  | wildcard
  | dimensions
  | typeParameters
  | typeParameter
  | typeBound
  | typeList
  -- Literals
  | literal
  | stringLiteral
  | stringFragment
  | escapeSequence
  | stringSplice
  | classLiteral
  -- Expressions
  | parenthesized
  | cast
  | assignment
  | binary
  | instanceOf
  | lambda
  | inferredParameters
  | ternary
  | unary
  | update
  | methodInvocation
  | methodReference
  | fieldAccess
  | arrayAccess
  | objectCreation
  | arrayCreation
  | dimensionExpression
  | arrayInitializer
  | templateExpression
  | argumentList
  -- Patterns and switches
  | switchExpression
  | switchBlock
  | switchGroup
  | switchRule
  | switchLabel
  | guard
  | pattern
  | typePattern
  | recordPattern
  | recordPatternBody
  | recordPatternComponent
  -- Statements
  | block
  | expressionStatement
  | labeledStatement
  | ifStatement
  | whileStatement
  | forStatement
  | enhancedFor
  | doStatement
  | assertStatement
  | breakStatement
  | continueStatement
  | returnStatement
  | yieldStatement
  | throwStatement
  | synchronizedStatement
  | tryStatement
  | tryWithResources
  | resourceSpecification
  | resource
  | catchClause
  | catchParameter
  | catchType
  | finallyClause
  | localVariableDeclaration
  | variableDeclarator
  -- Annotations and modifiers
  | modifiers
  | annotationMarker
  | annotationUse
  | annotationArguments
  | elementValuePair
  | elementValueArray
  -- Declarations
  | packageDeclaration
  | importDeclaration
  | moduleDeclaration
  | moduleBody
  | moduleDirective
  | classDeclaration
  | interfaceDeclaration
  | enumDeclaration
  | recordDeclaration
  | annotationTypeDeclaration
  | superclass
  | superInterfaces
  | extendsInterfaces
  | permits
  | classBody
  | interfaceBody
  | enumBody
  | enumBodyDeclarations
  | enumConstant
  | annotationTypeBody
  | annotationTypeElement
  | fieldDeclaration
  | constantDeclaration
  | methodDeclaration
  | constructorDeclaration
  | constructorBody
  | explicitConstructorCall
  | compactConstructor
  | staticInitializer
  | formalParameters
  | formalParameter
  | spreadParameter
  | receiverParameter
  | throwsClause
deriving DecidableEq, Repr

/-- The role of a child. -/
inductive Field where
  | name
  | type
  | body
  | object
  | member
  | parameters
deriving DecidableEq, Repr

/-- A syntax tree. -/
inductive Tree where
  | leaf (kind : Kind) (token : Token)
  /-- A token that the grammar asks for and the text lacks. -/
  | missing
  | node (kind : Kind) (children : List (Option Field × Tree))

/-- A child with its role. -/
abbrev Child := Option Field × Tree

namespace Tree

/-- What the tree is. -/
def kind : Tree → Kind
  | leaf k _ => k
  | missing => .token
  | node k _ => k

/-- Whether it is more than a mark of structure. -/
def isNamed (t : Tree) : Bool := t.kind ≠ .token

/-- The children with their roles. -/
def labelled : Tree → List Child
  | node _ cs => cs
  | _ => []

/-- The children. -/
def children (t : Tree) : List Tree := t.labelled.map (·.2)

/-- The children that are more than marks of structure. -/
def namedChildren (t : Tree) : List Tree := t.children.filter isNamed

/-- The first child of a role. -/
def child? (t : Tree) (f : Field) : Option Tree :=
  (t.labelled.find? (·.1 == some f)).map (·.2)

/-! ## Tokens -/

mutual

/-- The tokens from left to right. -/
def tokens : Tree → List Token
  | leaf _ t => [t]
  | missing => []
  | node _ cs => tokensOf cs

/-- The tokens of a list of children. -/
def tokensOf : List Child → List Token
  | [] => []
  | (_, t) :: cs => tokens t ++ tokensOf cs

end

/-- The text of a list of tokens, with what stands between them. -/
def textOfTokens : List Token → String
  | [] => ""
  | t :: ts => ts.foldl (fun s t => s ++ t.trivia ++ t.text) t.text

/-- The text that the tree stands for. -/
def text (t : Tree) : String := textOfTokens t.tokens

/-- The row of the first token, counted from 0. -/
def startRow (t : Tree) : Nat := (t.tokens.head?.map (·.startRow)).getD 0

/-- The row where the last token ends. -/
def endRow (t : Tree) : Nat := (t.tokens.getLast?.map (·.endRow)).getD 0

/-! ## Faults -/

mutual

/-- How many errors and missing tokens there are. -/
def faults : Tree → Nat
  | leaf k _ => if k = .error then 1 else 0
  | missing => 1
  | node k cs => (if k = .error then 1 else 0) + faultsOf cs

/-- The faults of a list of children. -/
def faultsOf : List Child → Nat
  | [] => 0
  | (_, t) :: cs => faults t + faultsOf cs

end

end Tree

end ChangeImpact.Java
