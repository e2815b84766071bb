import SmellCheck.Node
import SmellCheck.Text.Search

/-!
New trees from parts. Tokens inside a construct are one space apart where the language's usual
layout puts one, lists are separated by a comma and a space, and braced bodies read
`{ a b }`, or `{ }` when empty. Parts that are given as trees are used as they are.
-/

set_option autoImplicit false

namespace SmellCheck.Build

def token (kind : Kind) (text : String) : Element := .token kind.raw text

def keyword (text : String) : Element := token .keyword text

def punct (text : String) : Element := token .punct text

def ident (text : String) : Element := token .ident text

def whitespace (text : String) : Element := token .whitespace text

def space : Element := whitespace " "

def tree (kind : Kind) (children : List Element) : Tree := ⟨kind.raw, children⟩

def spaced (trees : List Tree) : List Element :=
  trees.flatMap fun part => [part.toElement, space]

def afterSpace (trees : List Tree) : List Element :=
  trees.flatMap fun part => [space, part.toElement]

def separatedBy (separator : List Element) : List Tree → List Element
  | [] => []
  | first :: rest => first.toElement :: rest.flatMap fun part => separator ++ [part.toElement]

def commaSeparated (trees : List Tree) : List Element := separatedBy [punct ",", space] trees

def braced (trees : List Tree) : List Element :=
  punct "\x7b" :: afterSpace trees ++ [space, punct "\x7d"]

def bracedList (trees : List Tree) : List Element :=
  if trees.isEmpty then [punct "\x7b", space, punct "\x7d"]
  else [punct "\x7b", space] ++ commaSeparated trees ++ [space, punct "\x7d"]

def compilationUnit (members : List Tree) : Tree :=
  tree .compilationUnit (separatedBy [whitespace "\n"] members)

def namespaceDecl (name : String) (members : List Tree) : Tree :=
  tree .namespaceDecl ([keyword "namespace", space, ident name, space] ++ braced members)

def keywords : List String → List Element
  | [] => []
  | first :: rest => keyword first :: rest.flatMap fun modifier => [space, keyword modifier]

def modifierList (modifiers : List String) : Tree := tree .modifierList (keywords modifiers)

def modifiersOrNone (modifiers : List String) : Option Tree :=
  if modifiers.isEmpty then none else some (modifierList modifiers)

def withModifiers (modifiers : List String) : List Element :=
  spaced (modifiersOrNone modifiers).toList

def typeDecl (kind : Kind) (word : String) (attributes : List Tree) (modifiers : List String)
    (name : String) (members : List Tree) : Tree :=
  tree kind (spaced attributes ++ withModifiers modifiers ++
    [keyword word, space, ident name, space] ++ braced members)

def classWithAttributes (attributes : List Tree) (modifiers : List String) (name : String)
    (members : List Tree) : Tree :=
  typeDecl .classDecl "class" attributes modifiers name members

def classDecl (modifiers : List String) (name : String) (members : List Tree) : Tree :=
  classWithAttributes [] modifiers name members

def structDecl (modifiers : List String) (name : String) (members : List Tree) : Tree :=
  typeDecl .structDecl "struct" [] modifiers name members

def enumDecl (modifiers : List String) (name : String) (members : List Tree) : Tree :=
  tree .enumDecl (withModifiers modifiers ++ [keyword "enum", space, ident name, space] ++
    bracedList members)

def equalsValue (value : Tree) : Tree := tree .equalsValue [punct "=", space, value]

def nameWithValue (kind : Kind) (name : String) (value : Option Tree) : Tree :=
  tree kind (ident name :: afterSpace (value.map equalsValue).toList)

def enumMember (name : String) (value : Option Tree) : Tree :=
  nameWithValue .enumMember name value

def attributeList (attributes : List Tree) : Tree :=
  tree .attributeList (punct "[" :: commaSeparated attributes ++ [punct "]"])

def identifierName (name : String) : Tree := tree .identifierName [ident name]

def attributeArg (value : Tree) : Tree := tree .attributeArg [value]

def attributeArguments (arguments : List Tree) : Tree :=
  tree .attributeArgList
    (punct "(" :: commaSeparated (arguments.map attributeArg) ++ [punct ")"])

def attributeUse (name : String) (arguments : Option (List Tree)) : Tree :=
  tree .attributeUse
    (identifierName name :: (arguments.map fun list => (attributeArguments list).toElement).toList)

def singleAttribute (name : String) (arguments : Option (List Tree)) : Tree :=
  attributeList [attributeUse name arguments]

def field (attributes : List Tree) (modifiers : Option Tree) (declaration : Tree) : Tree :=
  tree .fieldDecl (spaced attributes ++ spaced modifiers.toList ++
    [declaration.toElement, punct ";"])

def variableDeclaration (type : Tree) (declarators : List Tree) : Tree :=
  tree .variableDecl ([type.toElement, space] ++ commaSeparated declarators)

def variableDeclarator (name : String) (initializer : Option Tree) : Tree :=
  nameWithValue .variableDeclarator name initializer

def simpleField (modifiers : List String) (type : Tree) (name : String)
    (initializer : Option Tree) : Tree :=
  field [] (modifiersOrNone modifiers)
    (variableDeclaration type [variableDeclarator name initializer])

def bodyEnd (body : Tree) : List Element := if body.kind = .arrowClause then [punct ";"] else []

def property (attributes : List Tree) (modifiers : Option Tree) (type : Tree) (name : String)
    (body : Tree) : Tree :=
  tree .propertyDecl (spaced attributes ++ spaced modifiers.toList ++
    [type.toElement, space, ident name, space, body.toElement] ++ bodyEnd body)

def accessorList (accessors : List Tree) : Tree := tree .accessorList (braced accessors)

def accessor (word : String) (body : Option Tree) : Tree :=
  tree (if word = "set" then .setAccessor else .getAccessor)
    (keyword word :: match body with
      | none => [punct ";"]
      | some body => [space, body.toElement] ++ bodyEnd body)

def autoAccessors : Tree := accessorList [accessor "get" none, accessor "set" none]

def autoProperty (modifiers : List String) (type : Tree) (name : String) : Tree :=
  property [] (modifiersOrNone modifiers) type name autoAccessors

def arrowClause (expression : Tree) : Tree := tree .arrowClause [punct "=>", space, expression]

def method (attributes : List Tree) (modifiers : List String) (returnType : Tree) (name : String)
    (parameters body : Tree) : Tree :=
  tree .methodDecl (spaced attributes ++ withModifiers modifiers ++
    [returnType.toElement, space, ident name, parameters.toElement, space, body.toElement] ++
    bodyEnd body)

def constructor (modifiers : List String) (name : String) (parameters body : Tree) : Tree :=
  tree .constructorDecl (withModifiers modifiers ++
    [ident name, parameters.toElement, space, body.toElement])

def parameterList (parameters : List Tree) : Tree :=
  tree .parameterList (punct "(" :: commaSeparated parameters ++ [punct ")"])

def parameterWith (attributes : List Tree) (modifiers : List String) (type : Option Tree)
    (name : String) : Tree :=
  tree .parameter (spaced attributes ++ withModifiers modifiers ++ spaced type.toList ++
    [ident name])

def parameter (type : Tree) (name : String) : Tree := parameterWith [] [] (some type) name

def predefinedType (word : String) : Tree := tree .predefinedType [keyword word]

def typeArguments (arguments : List Tree) : Tree :=
  tree .typeArgList (punct "<" :: commaSeparated arguments ++ [punct ">"])

def genericName (name : String) (arguments : List Tree) : Tree :=
  tree .genericName [ident name, typeArguments arguments]

def qualifiedName (left right : Tree) : Tree := tree .qualifiedName [left, punct ".", right]

def block (statements : List Tree) : Tree := tree .block (braced statements)

def exprStmt (expression : Tree) : Tree := tree .exprStmt [expression, punct ";"]

def localDecl (declaration : Tree) : Tree := tree .localDeclStmt [declaration, punct ";"]

def varLocal (name : String) (initializer : Tree) : Tree :=
  localDecl
    (variableDeclaration (identifierName "var") [variableDeclarator name (some initializer)])

def keywordStmt (kind : Kind) (word : String) (expression : Option Tree) : Tree :=
  tree kind (keyword word :: afterSpace expression.toList ++ [punct ";"])

def returnStmt (expression : Option Tree) : Tree := keywordStmt .returnStmt "return" expression

def throwStmt (expression : Option Tree) : Tree := keywordStmt .throwStmt "throw" expression

def headed (word : String) (head : List Element) : List Element :=
  [keyword word, space, punct "("] ++ head ++ [punct ")", space]

def elseClause (branch : Tree) : Tree := tree .elseClause [keyword "else", space, branch]

def ifStmt (condition thenBranch : Tree) (elseBranch : Option Tree) : Tree :=
  tree .ifStmt (headed "if" [condition] ++ [thenBranch.toElement] ++
    afterSpace (elseBranch.map elseClause).toList)

def foreachStmt (type : Tree) (name : String) (expression body : Tree) : Tree :=
  tree .forEachStmt
    (headed "foreach" [type, space, ident name, space, keyword "in", space, expression] ++
      [body.toElement])

def whileStmt (condition body : Tree) : Tree :=
  tree .whileStmt (headed "while" [condition] ++ [body.toElement])

def switchStmt (expression : Tree) (sections : List Tree) : Tree :=
  tree .switchStmt (headed "switch" [expression] ++ braced sections)

def switchSection (labels statements : List Tree) : Tree :=
  tree .switchSection (separatedBy [space] (labels ++ statements))

def caseLabel (value : Tree) : Tree := tree .caseLabel [keyword "case", space, value, punct ":"]

def defaultLabel : Tree := tree .defaultLabel [keyword "default", punct ":"]

def breakStmt : Tree := tree .breakStmt [keyword "break", punct ";"]

def usingStmt (resource body : Tree) : Tree :=
  tree .usingStmt (headed "using" [resource] ++ [body.toElement])

def finallyClause (body : Tree) : Tree := tree .finallyClause [keyword "finally", space, body]

def tryStmt (body : Tree) (catches : List Tree) (finallyBody : Option Tree) : Tree :=
  tree .tryStmt ([keyword "try", space, body.toElement] ++ afterSpace catches ++
    afterSpace (finallyBody.map finallyClause).toList)

def catchClause (type : Option Tree) (name : Option String) (body : Tree) : Tree :=
  let head := match type, name with
    | none, _ => []
    | some type, none => [punct "(", type.toElement, punct ")", space]
    | some type, some name => [punct "(", type.toElement, space, ident name, punct ")", space]
  tree .catchClause ([keyword "catch", space] ++ head ++ [body.toElement])

def literal (kind : Kind) (text : String) : Tree := tree .literal [token kind text]

-- The value stands between the quotes as it is.
def stringLiteral (value : String) : Tree := literal .stringLit ("\"" ++ value ++ "\"")

def numberLiteral (text : String) : Tree := literal .numberLit text

def keywordLiteral (word : String) : Tree := literal .keyword word

def memberAccess (receiver : Tree) (name : String) : Tree :=
  tree .memberAccess [receiver, punct ".", identifierName name]

def memberChain (first : Tree) (names : List String) : Tree := names.foldl memberAccess first

-- Member accesses nested to the left, from a text with dots.
def dotted (text : String) : Tree :=
  match Text.split '.' text with
  | [] => identifierName ""
  | first :: names => memberChain (identifierName first) names

def argument (value : Tree) : Tree := tree .argument [value]

def argumentList (arguments : List Tree) : Tree :=
  tree .argumentList (punct "(" :: commaSeparated (arguments.map argument) ++ [punct ")"])

def invocation (target : Tree) (arguments : List Tree) : Tree :=
  tree .invocation [target, argumentList arguments]

def objectCreation (type : Tree) (arguments : Option (List Tree)) (initializer : Option Tree) :
    Tree :=
  tree .objectCreation ([keyword "new", space, type.toElement] ++
    (arguments.map fun list => (argumentList list).toElement).toList ++
    afterSpace initializer.toList)

def initializer (kind : Kind) (expressions : List Tree) : Tree :=
  tree kind (bracedList expressions)

def operation (kind : Kind) (left : Tree) (operator : String) (right : Tree) : Tree :=
  tree kind [left, space, punct operator, space, right]

def compoundAssignment (left : Tree) (operator : String) (right : Tree) : Tree :=
  operation .assignment left operator right

def assignment (left right : Tree) : Tree := compoundAssignment left "=" right

def simpleLambdaFrom (parameter body : Tree) : Tree := operation .simpleLambda parameter "=>" body

def simpleLambda (parameter : String) (body : Tree) : Tree :=
  simpleLambdaFrom (parameterWith [] [] none parameter) body

def parenLambda (parameters body : Tree) : Tree := operation .parenLambda parameters "=>" body

def binary (left : Tree) (operator : String) (right : Tree) : Tree :=
  operation .binaryExpr left operator right

def cast (type expression : Tree) : Tree :=
  tree .castExpr [punct "(", type, punct ")", expression]

def typeOf (type : Tree) : Tree :=
  tree .typeOfExpr [keyword "typeof", punct "(", type, punct ")"]

def throwExpr (expression : Tree) : Tree := tree .throwExpr [keyword "throw", space, expression]

def paren (expression : Tree) : Tree := tree .parenExpr [punct "(", expression, punct ")"]

def declarationExpr (type : Tree) (name : String) : Tree :=
  tree .declarationExpr [type, space, ident name]

end SmellCheck.Build
