import PackageAtlas.Parse.Failure
import PackageAtlas.Types.Basic

/-!
What a check reports. A problem is hard unless the checker could go on as if it were not there,
which holds of unused names only.
-/

set_option autoImplicit false
set_option relaxedAutoImplicit false

namespace PackageAtlas

/-- Why an import gave no package. -/
inductive ImportError where
  | notFound (path : String)
  | cycle (path : String)
  | broken (path message : String)
deriving DecidableEq, Repr

def ImportError.message : ImportError → String
  | notFound path => "cannot find package \"" ++ path ++ "\""
  | cycle path => "import cycle through \"" ++ path ++ "\""
  | broken path message => "package \"" ++ path ++ "\" has errors: " ++ message

/-- What a value is used for. -/
inductive Usage where
  | argument (callee : String)
  | assignment
  | assignmentTo (target : String)
  | returned
  | mapIndex
  | structLiteral
  | sliceLiteral
  | mapLiteral
deriving DecidableEq, Repr

def Usage.text : Usage → String
  | argument callee => "argument to " ++ callee
  | assignment => "assignment"
  | assignmentTo target => "assignment to " ++ target
  | returned => "return statement"
  | mapIndex => "map index"
  | structLiteral => "struct literal"
  | sliceLiteral => "slice literal"
  | mapLiteral => "map literal"

/-- A rule that the checked code breaks. Expressions are given by their texts. -/
inductive Problem where
  -- names and imports
  | notImported (path : String) (reason : ImportError)
  | redeclared (name : String)
  | undefined (name : String)
  | undefinedMember (package name : String)
  | notExported (package name : String)
  -- types
  | notParsed (error : ParseError)
  | noType (name : String)
  | memberNoType (package name : String)
  | noPackage (name : String)
  | badQualifiedType
  | badArrayLength
  | exprNoType
  | recursiveType (name : String)
  | badEmbedded
  | fieldRedeclared (name : String)
  | typeNoInterface (type : Ty)
  -- methods
  | badReceiver
  | badReceiverType (name : String)
  | memberClash (owner name : String)
  -- initializers
  | initCycle (name : String)
  | missingInit
  | extraInit
  | initMismatch (value target : Ty)
  | countMismatch (targets values : Nat)
  | singleMismatch (targets produced : Nat)
  -- values
  | blankValue
  | iotaOutside
  | multipleValue (expr : String) (type : Ty)
  | noValue (expr : String)
  | typeNoExpr (expr : String)
  | packageNoSelector (expr : String)
  | builtinNotCalled (name : String)
  | badUse (expr : String) (type target : Ty) (usage : Usage)
  | badTypeUse (type target : Ty) (usage : Usage)
  | keyValueOutside
  -- operations
  | noIndirection (expr : String) (type : Ty)
  | noAssertion (expr : String) (type : Ty)
  | guardOutside
  | noMethod (type : Ty) (name : String)
  | noMember (expr name : String) (type : Ty)
  | noOperator (op expr : String) (type : Ty)
  | mismatched (left op right : String) (leftType rightType : Ty)
  | divisionByZero
  | noIndex (expr : String) (type : Ty)
  -- calls
  | noFunction (expr : String) (type : Ty)
  | conversionWithout (target : Ty)
  | conversionTooMany (target : Ty)
  | tooFewArgs (callee : String)
  | tooManyArgs (callee : String)
  | builtinArity (name expected : String)
  -- composite literals
  | badFieldName
  | unknownField (name : String) (type : Ty)
  | tooManyFields (type : Ty)
  | missingKey
  | badLiteralType (type : Ty)
  -- statements
  | notUsed (expr : String)
  | nonNumeric (expr op : String) (type : Ty)
  | noDeferredCall (keyword : String)
  | nonBoolean (keyword expr : String)
  | nonName (expr : String)
  | repeatedName (name : String)
  | nothingNew
  | notAssignable (name : String)
  | tooManyReturned
  | tooFewReturned
  | badCase (expr : String) (type : Ty) (wanted : Option Ty)
  | guardNoInterface (expr : String) (type : Ty)
  | badGuard
  -- unused names
  | unusedImport (path : String)
  | unusedLocal (name : String)

namespace Problem

/-- Whether the checker could go on as if the problem were not there. -/
def isSoft : Problem → Bool
  | unusedImport _ | unusedLocal _ => true
  | _ => false

/-- An expression and the type of its value. -/
def valueText (expr : String) (type : Ty) : String :=
  expr ++ " (value of type " ++ type.text ++ ")"

def message : Problem → String
  | notImported path reason => "could not import " ++ path ++ " (" ++ reason.message ++ ")"
  | redeclared name => name ++ " redeclared in this block"
  | undefined name => "undefined: " ++ name
  | undefinedMember package name => "undefined: " ++ package ++ "." ++ name
  | notExported package name => "name " ++ name ++ " not exported by package " ++ package
  | notParsed error => error.message
  | noType name => name ++ " is not a type"
  | memberNoType package name => package ++ "." ++ name ++ " is not a type"
  | noPackage name => name ++ " is not a package"
  | badQualifiedType => "invalid qualified type"
  | badArrayLength => "array length must be a non-negative integer constant"
  | exprNoType => "expression is not a type"
  | recursiveType name => "invalid recursive type " ++ name
  | badEmbedded => "invalid embedded field type"
  | fieldRedeclared name => name ++ " redeclared"
  | typeNoInterface type => type.text ++ " is not an interface"
  | badReceiver => "invalid receiver type"
  | badReceiverType name => "invalid receiver type " ++ name
  | memberClash owner name => "field and method with the same name " ++ owner ++ "." ++ name
  | initCycle name => "initialization cycle for " ++ name
  | missingInit => "missing init expr for const declaration"
  | extraInit => "extra init expr"
  | initMismatch value target => "cannot use " ++ value.text ++ " as " ++ target.text ++ " value"
  | countMismatch targets values =>
    "assignment mismatch: " ++ toString targets ++ " variables but " ++ toString values ++ " values"
  | singleMismatch targets produced =>
    "assignment mismatch: " ++ toString targets ++ " variables but " ++ toString produced ++
      " value(s)"
  | blankValue => "cannot use _ as value"
  | iotaOutside => "cannot use iota outside constant declaration"
  | multipleValue expr type =>
    "multiple-value " ++ valueText expr type ++ " in single-value context"
  | noValue expr => expr ++ " (no value) used as value"
  | typeNoExpr expr => expr ++ " (type) is not an expression"
  | packageNoSelector expr => "use of package " ++ expr ++ " without selector"
  | builtinNotCalled name => name ++ " (built-in function) must be called"
  | badUse expr type target usage =>
    "cannot use " ++ valueText expr type ++ " as " ++ target.text ++ " value in " ++ usage.text
  | badTypeUse type target usage =>
    "cannot use " ++ type.text ++ " value as " ++ target.text ++ " value in " ++ usage.text
  | keyValueOutside => "unexpected key:value expression"
  | noIndirection expr type => "invalid operation: cannot indirect " ++ valueText expr type
  | noAssertion expr type => "invalid operation: " ++ valueText expr type ++ " is not an interface"
  | guardOutside => "use of .(type) outside type switch"
  | noMethod type name => type.text ++ " has no method " ++ name
  | noMember expr name type =>
    expr ++ "." ++ name ++ " undefined (type " ++ type.text ++ " has no field or method " ++ name ++
      ")"
  | noOperator op expr type =>
    "invalid operation: operator " ++ op ++ " not defined on " ++ valueText expr type
  | mismatched left op right leftType rightType =>
    "invalid operation: " ++ left ++ " " ++ op ++ " " ++ right ++ " (mismatched types " ++
      leftType.text ++ " and " ++ rightType.text ++ ")"
  | divisionByZero => "invalid operation: division by zero"
  | noIndex expr type => "invalid operation: cannot index " ++ valueText expr type
  | noFunction expr type => "invalid operation: cannot call non-function " ++ valueText expr type
  | conversionWithout target => "missing argument in conversion to " ++ target.text
  | conversionTooMany target => "too many arguments in conversion to " ++ target.text
  | tooFewArgs callee => "not enough arguments in call to " ++ callee
  | tooManyArgs callee => "too many arguments in call to " ++ callee
  | builtinArity name expected =>
    "wrong number of arguments to " ++ name ++ ": expected " ++ expected
  | badFieldName => "invalid field name in struct literal"
  | unknownField name type =>
    "unknown field " ++ name ++ " in struct literal of type " ++ type.text
  | tooManyFields type => "too many values in struct literal of type " ++ type.text
  | missingKey => "missing key in map literal"
  | badLiteralType type => "invalid composite literal type " ++ type.text
  | notUsed expr => expr ++ " is not used"
  | nonNumeric expr op type =>
    "invalid operation: " ++ expr ++ op ++ " (non-numeric type " ++ type.text ++ ")"
  | noDeferredCall keyword => "expression in " ++ keyword ++ " must be function call"
  | nonBoolean keyword expr => "non-boolean condition in " ++ keyword ++ " statement: " ++ expr
  | nonName expr => "non-name " ++ expr ++ " on left side of :="
  | repeatedName name => name ++ " repeated on left side of :="
  | nothingNew => "no new variables on left side of :="
  | notAssignable name => "cannot assign to " ++ name
  | tooManyReturned => "too many return values"
  | tooFewReturned => "not enough return values"
  | badCase expr type wanted =>
    "invalid case " ++ expr ++ " in switch (mismatched types " ++ type.text ++ " and " ++
      (wanted.map Ty.text).getD "bool" ++ ")"
  | guardNoInterface expr type => valueText expr type ++ " is not an interface"
  | badGuard => "invalid type switch guard"
  | unusedImport path => "\"" ++ path ++ "\" imported and not used"
  | unusedLocal name => "declared and not used: " ++ name

end Problem

/-- A problem and where it is. -/
structure Diagnostic where
  pos : Nat
  problem : Problem

namespace Diagnostic

def isSoft (diagnostic : Diagnostic) : Bool := diagnostic.problem.isSoft

def message (diagnostic : Diagnostic) : String := diagnostic.problem.message

end Diagnostic

end PackageAtlas
