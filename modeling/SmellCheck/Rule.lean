import SmellCheck.Kind

/-!
The rules, what they are called and what they report. A rule is named by its id in configurations
and answers; ids and severities are read back from exactly the names that are written.
-/

set_option autoImplicit false

namespace SmellCheck

inductive Rule where
  | encapsulateField
  | replaceMagicValues
  | useLambdaExpression
  | unnecessaryShimsContext
  | simplifyFakes
  | removeFakes
  | simplifyFakesObject
  | duplicateShims
  | simplifyShims
  | contextualKeyword
  | classNameIsNoun
  | blankBlock
  | liskovSubstitution
  | toArrayToListInForeach
  | switchWithoutDefault
  | aggregateException
  | exceptionWithoutContext
  | enumWithoutDefaultValue
  | tooManyParameters
  | boolParameter
  | preferClassOverStruct
  | inappropriateUsageOfProperty
  | nonPrivateConstants
  | singleAssertInUnitOfWork
  | testCaseArguments
  | missingParameterNullValidation
  | missingConstructorParameterNullValidation
  | parameterReassigned
  | parameterUnused
deriving DecidableEq

inductive Severity where
  | info
  | warning
deriving DecidableEq

def Severity.name : Severity → String
  | .info => "info"
  | .warning => "warning"

def Severity.ofName? : String → Option Severity
  | "info" => some .info
  | "warning" => some .warning
  | _ => none

namespace Rule

def all : List Rule := [
  .encapsulateField, .replaceMagicValues, .useLambdaExpression, .unnecessaryShimsContext,
  .simplifyFakes, .removeFakes, .simplifyFakesObject, .duplicateShims, .simplifyShims,
  .contextualKeyword, .classNameIsNoun, .blankBlock, .liskovSubstitution, .toArrayToListInForeach,
  .switchWithoutDefault, .aggregateException, .exceptionWithoutContext, .enumWithoutDefaultValue,
  .tooManyParameters, .boolParameter, .preferClassOverStruct, .inappropriateUsageOfProperty,
  .nonPrivateConstants, .singleAssertInUnitOfWork, .testCaseArguments,
  .missingParameterNullValidation, .missingConstructorParameterNullValidation,
  .parameterReassigned, .parameterUnused]

def id : Rule → String
  | .encapsulateField => "encapsulate_public_protected_field"
  | .replaceMagicValues => "replace_magic_values"
  | .useLambdaExpression => "use_lambda_expression"
  | .unnecessaryShimsContext => "unnecessary_shims_context"
  | .simplifyFakes => "simplify_fakes"
  | .removeFakes => "remove_fakes"
  | .simplifyFakesObject => "simplify_fakes_object"
  | .duplicateShims => "duplicate_shims"
  | .simplifyShims => "simplify_shims"
  | .contextualKeyword => "avoid_contextual_keywords"
  | .classNameIsNoun => "class_name_is_noun"
  | .blankBlock => "blank_block_code"
  | .liskovSubstitution => "liskov_substitution_principle"
  | .toArrayToListInForeach => "toarray_tolist_inside_foreach_declaration"
  | .switchWithoutDefault => "switch_without_default_case"
  | .aggregateException => "aggregate_exception"
  | .exceptionWithoutContext => "exception_without_context"
  | .enumWithoutDefaultValue => "enum_without_default_value"
  | .tooManyParameters => "method_with_more_than_seven_parameters"
  | .boolParameter => "method_with_bool_as_parameter"
  | .preferClassOverStruct => "prefer_class_over_struct"
  | .inappropriateUsageOfProperty => "inappropriate_usage_of_property"
  | .nonPrivateConstants => "non_private_constants"
  | .singleAssertInUnitOfWork => "shouldly_single_assert_in_uow"
  | .testCaseArguments => "test_case_arguments"
  | .missingParameterNullValidation => "missing_parameter_null_validation"
  | .missingConstructorParameterNullValidation => "missing_constructor_parameter_null_validation"
  | .parameterReassigned => "parameter_not_reassigned"
  | .parameterUnused => "parameter_unused"

def ofId? (id : String) : Option Rule := all.find? (·.id == id)

end Rule

-- What is known of a rule without running it. The detector of a rule is run on nodes of the trigger
-- kinds; detectors of semantic rules report nothing without answers about symbols.
structure Descriptor where
  rule : Rule
  category : String
  severity : Severity
  title : String
  message : String
  triggers : List Kind
  fixable : Bool
  semantic : Bool

def Rule.descriptor (rule : Rule) : Descriptor :=
  match rule with
  | .encapsulateField => {
      rule, category := "Design", severity := .warning
      title := "Encapsulate public or protected field"
      message := "This code exposes a field as public or protected. Encapsulate this field into " ++
        "a property"
      triggers := [.fieldDecl], fixable := true, semantic := false }
  | .replaceMagicValues => {
      rule, category := "Maintainability", severity := .info
      title := "Replace magic values"
      message := "Replace Magic Values inside methods with respect to defined constants"
      triggers := [.classDecl], fixable := true, semantic := false }
  | .useLambdaExpression => {
      rule, category := "Readability", severity := .info
      title := "Use lambda expressions"
      message := "Simplify Code Using Lambda Expressions"
      triggers := [.classDecl], fixable := true, semantic := false }
  | .unnecessaryShimsContext => {
      rule, category := "Testing", severity := .warning
      title := "Unnecessary shims context"
      message := "Remove Unnecessary Shims Context"
      triggers := [.usingStmt], fixable := true, semantic := false }
  | .simplifyFakes => {
      rule, category := "Testing", severity := .info
      title := "Simplify fakes"
      message := "Simplify Fakes"
      triggers := [.memberAccess], fixable := true, semantic := false }
  | .removeFakes => {
      rule, category := "Testing", severity := .info
      title := "Remove fakes"
      message := "Remove Fakes"
      triggers := [.memberAccess], fixable := true, semantic := false }
  | .simplifyFakesObject => {
      rule, category := "Testing", severity := .info
      title := "Simplify fakes object"
      message := "Simplify Fakes Object"
      triggers := [.objectCreation], fixable := false, semantic := false }
  | .duplicateShims => {
      rule, category := "Testing", severity := .warning
      title := "Duplicate shims"
      message := "Remove Duplicate Shims"
      triggers := [.memberAccess], fixable := false, semantic := false }
  | .simplifyShims => {
      rule, category := "Testing", severity := .warning
      title := "Simplify shims"
      message := "Simplify Shims using existing object instances"
      triggers := [.memberAccess], fixable := false, semantic := false }
  | .contextualKeyword => {
      rule, category := "Naming", severity := .warning
      title := "Avoid contextual keywords"
      message := "This code uses the contextual keyword as a variable or member name. An " ++
        "important improvement would be to rename this variable so that it is not named after a " ++
        "keyword"
      triggers := [.identifierName, .parameter], fixable := false, semantic := false }
  | .classNameIsNoun => {
      rule, category := "Naming", severity := .warning
      title := "Classes are nouns"
      message := "Classes are nouns. Rename this class in order to eliminate \"Processor\", " ++
        "\"Data\" or \"Info\" word and keep a high level of expressiveness and meaningfulness."
      triggers := [.classDecl], fixable := false, semantic := false }
  | .blankBlock => {
      rule, category := "Reliability", severity := .warning
      title := "Blank block"
      message := "This code has a blank block to do nothing. Sometimes this means the code " ++
        "missed to implement here"
      triggers := [.block], fixable := false, semantic := false }
  | .liskovSubstitution => {
      rule, category := "Design", severity := .warning
      title := "Liskov substitution principle"
      message := "This member publicly exposes a concrete collection type"
      triggers := [.parameter, .genericName, .predefinedType], fixable := false, semantic := false }
  | .toArrayToListInForeach => {
      rule, category := "Performance", severity := .warning
      title := "ToArray/ToList inside foreach declaration"
      message := "ToArray/ToList inside foreach declaration. Remove the `ToArray()` or " ++
        "`ToList()` call and use the `IEnumerable` instance directly"
      triggers := [.forEachStmt], fixable := false, semantic := false }
  | .switchWithoutDefault => {
      rule, category := "Reliability", severity := .warning
      title := "Switch without default case"
      message := "Missing default case for switch"
      triggers := [.switchStmt], fixable := false, semantic := false }
  | .aggregateException => {
      rule, category := "Exceptions", severity := .warning
      title := "Overly general exception"
      message := "A method raises an exception type that is too general or that is reserved by " ++
        "the runtime. Use specific or Aggregation Exception"
      triggers := [.identifierName], fixable := false, semantic := false }
  | .exceptionWithoutContext => {
      rule, category := "Exceptions", severity := .warning
      title := "Exception without context"
      message := "This exception message does not provide context description."
      triggers := [.objectCreation], fixable := false, semantic := false }
  | .enumWithoutDefaultValue => {
      rule, category := "Design", severity := .warning
      title := "Enum without a zero value"
      message := "This enumeration does not contain a value for 0 (zero)."
      triggers := [.enumDecl], fixable := false, semantic := false }
  | .tooManyParameters => {
      rule, category := "Design", severity := .warning
      title := "Method with more than seven parameters"
      message := "This method receives too many parameters (> 7)"
      triggers := [.parameterList], fixable := false, semantic := false }
  | .boolParameter => {
      rule, category := "Design", severity := .warning
      title := "Method with bool parameter"
      message := "This method receives a bool argument. This is prone to be against SRP from SOLID"
      triggers := [.parameterList], fixable := false, semantic := false }
  | .preferClassOverStruct => {
      rule, category := "Design", severity := .warning
      title := "Prefer class over struct"
      message := "This code defines a `struct` that should be a `class`"
      triggers := [.structDecl], fixable := false, semantic := false }
  | .inappropriateUsageOfProperty => {
      rule, category := "Design", severity := .warning
      title := "Inappropriate usage of property"
      message := "This code declares a property that should be a method."
      triggers := [.propertyDecl], fixable := false, semantic := false }
  | .nonPrivateConstants => {
      rule, category := "Design", severity := .warning
      title := "Non-private constants"
      message := "Avoid protected / public constants for values that might change"
      triggers := [.fieldDecl], fixable := false, semantic := false }
  | .singleAssertInUnitOfWork => {
      rule, category := "Testing", severity := .warning
      title := "Single assert in unit of work"
      message := "Shouldly - Avoid Assert Single Item With UnitOfWork"
      triggers := [.identifierName], fixable := false, semantic := false }
  | .testCaseArguments => {
      rule, category := "Testing", severity := .warning
      title := "Redundant test case arguments"
      message := "Simplify Test Code by removing same arguments across all test cases"
      triggers := [.methodDecl, .arrayInitializer, .collectionInitializer]
      fixable := false, semantic := false }
  | .missingParameterNullValidation => {
      rule, category := "Reliability", severity := .warning
      title := "Missing parameter null validation"
      message := "An important improvement would be to refactor the block so that it validates " ++
        "the parameter and throws an `ArgumentNullException` rather than letting a " ++
        "`NullReferenceException` occur or any unexpected behavior."
      triggers := [.parameter], fixable := false, semantic := true }
  | .missingConstructorParameterNullValidation => {
      rule, category := "Reliability", severity := .warning
      title := "Missing constructor parameter null validation"
      message := "An important improvement would be to refactor the block so that it validates " ++
        "the constructor parameter and throws an `ArgumentNullException` rather than letting a " ++
        "`NullReferenceException` occur or any unexpected behavior."
      triggers := [.parameter], fixable := false, semantic := true }
  | .parameterReassigned => {
      rule, category := "Maintainability", severity := .warning
      title := "Parameters are not reassigned"
      message := "A possible improvement would be to avoid such reassignment and use a local " ++
        "variable to hold the updated value."
      triggers := [.parameter], fixable := false, semantic := true }
  | .parameterUnused => {
      rule, category := "Maintainability", severity := .warning
      title := "Unused parameter"
      message := "A possible improvement would be to remove unused parameter"
      triggers := [.parameter], fixable := false, semantic := true }

theorem Rule.mem_all (rule : Rule) : rule ∈ Rule.all := by
  cases rule <;> decide

theorem Rule.descriptor_rule (rule : Rule) : rule.descriptor.rule = rule := by
  cases rule <;> rfl

theorem Rule.ofId?_id (rule : Rule) : Rule.ofId? rule.id = some rule := by
  cases rule <;> rfl

theorem Rule.id_injective (a b : Rule) (same : a.id = b.id) : a = b :=
  Option.some.inj ((Rule.ofId?_id a).symm.trans (same ▸ Rule.ofId?_id b))

theorem Rule.id_of_ofId? (id : String) (rule : Rule) (found : Rule.ofId? id = some rule) : id = rule.id := by
  have named := List.find?_some (p := fun rule : Rule => rule.id == id) found
  exact (eq_of_beq named).symm

end SmellCheck
