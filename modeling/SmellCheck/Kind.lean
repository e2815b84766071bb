/-!
The closed set of token and node kinds of a C#-shaped tree, and the 16-bit numbers that stand for
them. Every kind is the reading of its own number, and a number outside the set reads as `error`.
-/

set_option autoImplicit false

namespace SmellCheck

inductive Kind where
  -- tokens
  | whitespace | comment | ident | keyword | punct | stringLit | numberLit | charLit | error
  -- declarations
  | compilationUnit | namespaceDecl | classDecl | structDecl | enumDecl | enumMember | fieldDecl
  | propertyDecl | accessorList | getAccessor | setAccessor | methodDecl | constructorDecl
  | modifierList | attributeList | attributeUse | attributeArgList | attributeArg | parameterList
  | parameter | variableDecl | variableDeclarator | equalsValue | arrowClause
  -- types
  | predefinedType | identifierName | genericName | qualifiedName | typeArgList
  -- statements
  | block | localDeclStmt | exprStmt | returnStmt | throwStmt | ifStmt | elseClause | forEachStmt
  | forStmt | whileStmt | switchStmt | switchSection | caseLabel | defaultLabel | breakStmt
  | usingStmt | tryStmt | catchClause | finallyClause
  -- expressions
  | literal | memberAccess | invocation | argumentList | argument | objectCreation
  | objectInitializer | collectionInitializer | arrayInitializer | assignment | simpleLambda
  | parenLambda | binaryExpr | castExpr | typeOfExpr | throwExpr | parenExpr | declarationExpr
deriving DecidableEq

abbrev RawKind := UInt16

namespace Kind

-- Every kind, at the index that is its number.
def all : Array Kind := #[
  .whitespace, .comment, .ident, .keyword, .punct, .stringLit, .numberLit, .charLit, .error,
  .compilationUnit, .namespaceDecl, .classDecl, .structDecl, .enumDecl, .enumMember, .fieldDecl,
  .propertyDecl, .accessorList, .getAccessor, .setAccessor, .methodDecl, .constructorDecl,
  .modifierList, .attributeList, .attributeUse, .attributeArgList, .attributeArg, .parameterList,
  .parameter, .variableDecl, .variableDeclarator, .equalsValue, .arrowClause, .predefinedType,
  .identifierName, .genericName, .qualifiedName, .typeArgList, .block, .localDeclStmt, .exprStmt,
  .returnStmt, .throwStmt, .ifStmt, .elseClause, .forEachStmt, .forStmt, .whileStmt, .switchStmt,
  .switchSection, .caseLabel, .defaultLabel, .breakStmt, .usingStmt, .tryStmt, .catchClause,
  .finallyClause, .literal, .memberAccess, .invocation, .argumentList, .argument, .objectCreation,
  .objectInitializer, .collectionInitializer, .arrayInitializer, .assignment, .simpleLambda,
  .parenLambda, .binaryExpr, .castExpr, .typeOfExpr, .throwExpr, .parenExpr, .declarationExpr]

def raw (kind : Kind) : RawKind := kind.ctorIdx.toUInt16

def ofRaw (raw : RawKind) : Kind := all[raw.toNat]?.getD .error

def name : Kind → String
  | .whitespace => "Whitespace"
  | .comment => "Comment"
  | .ident => "Ident"
  | .keyword => "Keyword"
  | .punct => "Punct"
  | .stringLit => "StringLit"
  | .numberLit => "NumberLit"
  | .charLit => "CharLit"
  | .error => "Error"
  | .compilationUnit => "CompilationUnit"
  | .namespaceDecl => "NamespaceDecl"
  | .classDecl => "ClassDecl"
  | .structDecl => "StructDecl"
  | .enumDecl => "EnumDecl"
  | .enumMember => "EnumMember"
  | .fieldDecl => "FieldDecl"
  | .propertyDecl => "PropertyDecl"
  | .accessorList => "AccessorList"
  | .getAccessor => "GetAccessor"
  | .setAccessor => "SetAccessor"
  | .methodDecl => "MethodDecl"
  | .constructorDecl => "ConstructorDecl"
  | .modifierList => "ModifierList"
  | .attributeList => "AttributeList"
  | .attributeUse => "Attribute"
  | .attributeArgList => "AttributeArgList"
  | .attributeArg => "AttributeArg"
  | .parameterList => "ParameterList"
  | .parameter => "Parameter"
  | .variableDecl => "VariableDecl"
  | .variableDeclarator => "VariableDeclarator"
  | .equalsValue => "EqualsValue"
  | .arrowClause => "ArrowClause"
  | .predefinedType => "PredefinedType"
  | .identifierName => "IdentifierName"
  | .genericName => "GenericName"
  | .qualifiedName => "QualifiedName"
  | .typeArgList => "TypeArgList"
  | .block => "Block"
  | .localDeclStmt => "LocalDeclStmt"
  | .exprStmt => "ExprStmt"
  | .returnStmt => "ReturnStmt"
  | .throwStmt => "ThrowStmt"
  | .ifStmt => "IfStmt"
  | .elseClause => "ElseClause"
  | .forEachStmt => "ForEachStmt"
  | .forStmt => "ForStmt"
  | .whileStmt => "WhileStmt"
  | .switchStmt => "SwitchStmt"
  | .switchSection => "SwitchSection"
  | .caseLabel => "CaseLabel"
  | .defaultLabel => "DefaultLabel"
  | .breakStmt => "BreakStmt"
  | .usingStmt => "UsingStmt"
  | .tryStmt => "TryStmt"
  | .catchClause => "CatchClause"
  | .finallyClause => "FinallyClause"
  | .literal => "Literal"
  | .memberAccess => "MemberAccess"
  | .invocation => "Invocation"
  | .argumentList => "ArgumentList"
  | .argument => "Argument"
  | .objectCreation => "ObjectCreation"
  | .objectInitializer => "ObjectInitializer"
  | .collectionInitializer => "CollectionInitializer"
  | .arrayInitializer => "ArrayInitializer"
  | .assignment => "Assignment"
  | .simpleLambda => "SimpleLambda"
  | .parenLambda => "ParenLambda"
  | .binaryExpr => "BinaryExpr"
  | .castExpr => "CastExpr"
  | .typeOfExpr => "TypeOfExpr"
  | .throwExpr => "ThrowExpr"
  | .parenExpr => "ParenExpr"
  | .declarationExpr => "DeclarationExpr"

def ofName? (name : String) : Option Kind := all.find? (·.name == name)

def isToken : Kind → Bool
  | .whitespace | .comment | .ident | .keyword | .punct | .stringLit | .numberLit | .charLit
  | .error => true
  | _ => false

def isType : Kind → Bool
  | .predefinedType | .identifierName | .genericName | .qualifiedName => true
  | _ => false

def isLambda : Kind → Bool
  | .simpleLambda | .parenLambda => true
  | _ => false

def isMethodLike : Kind → Bool
  | .methodDecl | .constructorDecl => true
  | _ => false

def isTrivia : Kind → Bool
  | .whitespace | .comment => true
  | _ => false

theorem ofRaw_raw (kind : Kind) : ofRaw kind.raw = kind := by
  cases kind <;> rfl

end Kind

end SmellCheck
