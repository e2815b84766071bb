import SmellCheck.Proofs.Brackets

/-!
New trees are well bracketed when their parts are. A construct either has no brackets of its own or
encloses quiet elements in one pair of them.
-/

set_option autoImplicit false

namespace SmellCheck.Build

open Written (Quiet quiet_iff quiet_append quiet_node quiet_space)

theorem well_bracketed_iff (kind : Kind) (children : List Element) :
    (tree kind children).WellBracketed ↔ Bracket.Balanced (Forest.ownWord children) ∧
      (kind = .block → Forest.Braced children) ∧ Forest.WellBracketed children := by
  have whole := node_well_bracketed_iff kind.raw children
  rw [Kind.ofRaw_raw] at whole
  exact whole

theorem quiet_tree (kind : Kind) (children : List Element) (notBlock : kind ≠ .block) (quiet : Quiet children) :
    (tree kind children).WellBracketed := by
  refine (well_bracketed_iff kind children).mpr ⟨?_, fun isBlock => absurd isBlock notBlock, quiet.1⟩
  rw [quiet.2]
  rfl

section
variable (kind : Kind) (first last : Element) (inner : List Element) (shape : BracketShape)

theorem enclosed_balanced (opens : first.bracket? = some (.opening shape)) (closes : last.bracket? = some (.closing shape))
    (quiet : Quiet inner) : Bracket.Balanced (Forest.ownWord (first :: inner ++ [last])) := by
  rw [own_word_enclosed first last inner _ _ opens closes, quiet.2]
  cases shape <;> decide

theorem enclosed_sound (opens : first.bracket? = some (.opening shape)) (closes : last.bracket? = some (.closing shape))
    (quiet : Quiet inner) : Forest.WellBracketed (first :: inner ++ [last]) := by
  have token (element : Element) (bracket : Bracket) (found : element.bracket? = some bracket) : element.WellBracketed := by
    cases element with
    | token _ _ => trivial
    | node _ _ => cases found
  rw [forest_well_bracketed_iff]
  intro element member
  rcases List.mem_cons.mp member with rfl | later
  · exact token element _ opens
  · rcases List.mem_append.mp later with within | isLast
    · exact (forest_well_bracketed_iff inner).mp quiet.1 element within
    · rw [List.mem_singleton.mp isLast]
      exact token last _ closes

theorem enclosed_tree (notBlock : kind ≠ .block) (opens : first.bracket? = some (.opening shape))
    (closes : last.bracket? = some (.closing shape)) (quiet : Quiet inner) :
    (tree kind (first :: inner ++ [last])).WellBracketed :=
  (well_bracketed_iff kind _).mpr ⟨enclosed_balanced first last inner shape opens closes quiet,
    fun isBlock => absurd isBlock notBlock, enclosed_sound first last inner shape opens closes quiet⟩

theorem braced_tree (opens : first.bracket? = some (.opening .curly)) (closes : last.bracket? = some (.closing .curly))
    (quiet : Quiet inner) : (tree kind (first :: inner ++ [last])).WellBracketed := by
  refine (well_bracketed_iff kind _).mpr ⟨enclosed_balanced first last inner .curly opens closes quiet, fun _ => ?_,
    enclosed_sound first last inner .curly opens closes quiet⟩
  exact (braced_iff _).mpr ⟨first, inner, last, rfl, opens, closes, (own_word_eq_nil_iff inner).mp quiet.2⟩

end

theorem quiet_nil : Quiet [] := ⟨trivial, rfl⟩

theorem quiet_cons (element : Element) (rest : List Element) (here : element.WellBracketed ∧ element.bracket? = none)
    (later : Quiet rest) : Quiet (element :: rest) := by
  rw [quiet_iff] at later ⊢
  intro other member
  rcases List.mem_cons.mp member with rfl | inRest
  · exact here
  · exact later other inRest

theorem quiet_token (kind : Kind) (text : String) (other : kind ≠ .punct) :
    (token kind text).WellBracketed ∧ (token kind text).bracket? = none := by
  refine ⟨trivial, ?_⟩
  simp [token, Element.bracket?, Kind.ofRaw_raw, other]

theorem quiet_punct (text : String) (noBracket : Bracket.ofText? text = none) :
    (punct text).WellBracketed ∧ (punct text).bracket? = none := by
  refine ⟨trivial, ?_⟩
  simp [punct, token, Element.bracket?, noBracket]

theorem quiet_ident (text : String) : (ident text).WellBracketed ∧ (ident text).bracket? = none :=
  quiet_token .ident text (by decide)

theorem quiet_keyword (text : String) : (keyword text).WellBracketed ∧ (keyword text).bracket? = none :=
  quiet_token .keyword text (by decide)

section
variable (trees : List Tree) (sound : ∀ part ∈ trees, part.WellBracketed)
include sound

theorem quiet_spaced : Quiet (spaced trees) := Written.quiet_leading " " trees sound

theorem quiet_after_space : Quiet (afterSpace trees) := Written.quiet_trailing " " trees sound

theorem quiet_comma_separated : Quiet (commaSeparated trees) :=
  Written.quiet_separated_by _
    (quiet_cons _ _ (quiet_punct "," (by decide)) (quiet_cons _ _ (quiet_space " ") quiet_nil)) trees sound

end

section
variable (attributes : List Tree) (modifiers : Option Tree) (attributesSound : ∀ part ∈ attributes, part.WellBracketed)
  (modifiersSound : ∀ part ∈ modifiers, part.WellBracketed)
include attributesSound modifiersSound

theorem quiet_heading : Quiet (spaced attributes ++ spaced modifiers.toList) :=
  quiet_append _ _ (quiet_spaced attributes attributesSound)
    (quiet_spaced modifiers.toList fun part member => modifiersSound part (by simpa using member))

theorem field_well_bracketed (declaration : Tree) (sound : declaration.WellBracketed) :
    (field attributes modifiers declaration).WellBracketed :=
  quiet_tree _ _ (by decide) (quiet_append _ _ (quiet_heading attributes modifiers attributesSound modifiersSound)
    (quiet_cons _ _ (quiet_node declaration sound) (quiet_cons _ _ (quiet_punct ";" (by decide)) quiet_nil)))

theorem property_well_bracketed (type body : Tree) (name : String) (typeSound : type.WellBracketed)
    (bodySound : body.WellBracketed) : (property attributes modifiers type name body).WellBracketed := by
  have ending : Quiet (bodyEnd body) := by
    by_cases arrow : body.kind = .arrowClause
    · rw [bodyEnd, if_pos arrow]
      exact quiet_cons _ _ (quiet_punct ";" (by decide)) quiet_nil
    · rw [bodyEnd, if_neg arrow]
      exact quiet_nil
  have members : Quiet [type.toElement, space, ident name, space, body.toElement] :=
    quiet_cons _ _ (quiet_node type typeSound) (quiet_cons _ _ (quiet_space " ") (quiet_cons _ _ (quiet_ident name)
      (quiet_cons _ _ (quiet_space " ") (quiet_cons _ _ (quiet_node body bodySound) quiet_nil))))
  exact quiet_tree _ _ (by decide) (quiet_append _ _ (quiet_append _ _
    (quiet_heading attributes modifiers attributesSound modifiersSound) members) ending)

end

theorem auto_accessors_well_bracketed : autoAccessors.WellBracketed := by decide

theorem equals_value_well_bracketed (value : Tree) (sound : value.WellBracketed) : (equalsValue value).WellBracketed :=
  quiet_tree _ _ (by decide) (quiet_cons _ _ (quiet_punct "=" (by decide)) (quiet_cons _ _ (quiet_space " ")
    (quiet_cons _ _ (quiet_node value sound) quiet_nil)))

theorem variable_declarator_well_bracketed (name : String) (value : Tree) (sound : value.WellBracketed) :
    (variableDeclarator name (some value)).WellBracketed :=
  quiet_tree _ _ (by decide) (quiet_cons _ _ (quiet_ident name)
    (quiet_after_space [equalsValue value] (by simpa using equals_value_well_bracketed value sound)))

theorem variable_declaration_well_bracketed (type : Tree) (declarators : List Tree) (typeSound : type.WellBracketed)
    (sound : ∀ part ∈ declarators, part.WellBracketed) : (variableDeclaration type declarators).WellBracketed :=
  quiet_tree _ _ (by decide) (quiet_append _ _
    (quiet_cons _ _ (quiet_node type typeSound) (quiet_cons _ _ (quiet_space " ") quiet_nil))
    (quiet_comma_separated declarators sound))

theorem predefined_type_well_bracketed (word : String) : (predefinedType word).WellBracketed :=
  quiet_tree _ _ (by decide) (quiet_cons _ _ (quiet_keyword word) quiet_nil)

theorem identifier_name_well_bracketed (name : String) : (identifierName name).WellBracketed :=
  quiet_tree _ _ (by decide) (quiet_cons _ _ (quiet_ident name) quiet_nil)

theorem parameter_list_well_bracketed (parameters : List Tree) (sound : ∀ part ∈ parameters, part.WellBracketed) :
    (parameterList parameters).WellBracketed :=
  enclosed_tree _ _ _ _ .round (by decide) (by decide) (by decide) (quiet_comma_separated parameters sound)

theorem expr_stmt_well_bracketed (expression : Tree) (sound : expression.WellBracketed) :
    (exprStmt expression).WellBracketed :=
  quiet_tree _ _ (by decide) (quiet_cons _ _ (quiet_node expression sound)
    (quiet_cons _ _ (quiet_punct ";" (by decide)) quiet_nil))

theorem block_well_bracketed (statements : List Tree) (sound : ∀ part ∈ statements, part.WellBracketed) :
    (block statements).WellBracketed := by
  have inner : Quiet (afterSpace statements ++ [space]) :=
    quiet_append _ _ (quiet_after_space statements sound) (quiet_cons _ _ (quiet_space " ") quiet_nil)
  have braces := braced_tree .block (punct "\x7b") (punct "\x7d") _ (by decide) (by decide) inner
  simpa [block, braced] using braces

theorem var_local_well_bracketed (name : String) (value : Tree) (sound : value.WellBracketed) :
    (varLocal name value).WellBracketed := by
  have declaration := variable_declaration_well_bracketed (identifierName "var") [variableDeclarator name (some value)]
    (identifier_name_well_bracketed "var") (by simpa using variable_declarator_well_bracketed name value sound)
  exact quiet_tree _ _ (by decide) (quiet_cons _ _ (quiet_node _ declaration)
    (quiet_cons _ _ (quiet_punct ";" (by decide)) quiet_nil))

theorem operation_well_bracketed (kind : Kind) (left right : Tree) (operator : String) (notBlock : kind ≠ .block)
    (noBracket : Bracket.ofText? operator = none) (leftSound : left.WellBracketed) (rightSound : right.WellBracketed) :
    (operation kind left operator right).WellBracketed :=
  quiet_tree _ _ notBlock (quiet_cons _ _ (quiet_node left leftSound) (quiet_cons _ _ (quiet_space " ")
    (quiet_cons _ _ (quiet_punct operator noBracket) (quiet_cons _ _ (quiet_space " ")
      (quiet_cons _ _ (quiet_node right rightSound) quiet_nil)))))

theorem assignment_well_bracketed (left right : Tree) (leftSound : left.WellBracketed) (rightSound : right.WellBracketed) :
    (assignment left right).WellBracketed :=
  operation_well_bracketed _ left right "=" (by decide) (by decide) leftSound rightSound

theorem paren_lambda_well_bracketed (parameters body : Tree) (parametersSound : parameters.WellBracketed)
    (bodySound : body.WellBracketed) : (parenLambda parameters body).WellBracketed :=
  operation_well_bracketed _ parameters body "=>" (by decide) (by decide) parametersSound bodySound

theorem simple_lambda_well_bracketed (name : String) (body : Tree) (sound : body.WellBracketed) :
    (simpleLambda name body).WellBracketed := by
  have parameter : (parameterWith [] [] none name).WellBracketed :=
    quiet_tree _ _ (by decide) (quiet_cons _ _ (quiet_ident name) quiet_nil)
  exact operation_well_bracketed _ _ body "=>" (by decide) (by decide) parameter sound

theorem member_access_well_bracketed (receiver : Tree) (name : String) (sound : receiver.WellBracketed) :
    (memberAccess receiver name).WellBracketed :=
  quiet_tree _ _ (by decide) (quiet_cons _ _ (quiet_node receiver sound) (quiet_cons _ _ (quiet_punct "." (by decide))
    (quiet_cons _ _ (quiet_node _ (identifier_name_well_bracketed name)) quiet_nil)))

theorem member_chain_well_bracketed (first : Tree) (names : List String) (sound : first.WellBracketed) :
    (memberChain first names).WellBracketed := by
  induction names generalizing first with
  | nil => exact sound
  | cons name rest ih => exact ih (memberAccess first name) (member_access_well_bracketed first name sound)

theorem dotted_well_bracketed (text : String) : (dotted text).WellBracketed := by
  unfold dotted
  split
  · exact identifier_name_well_bracketed ""
  · exact member_chain_well_bracketed _ _ (identifier_name_well_bracketed _)

theorem argument_list_well_bracketed (arguments : List Tree) (sound : ∀ part ∈ arguments, part.WellBracketed) :
    (argumentList arguments).WellBracketed := by
  refine enclosed_tree _ _ _ _ .round (by decide) (by decide) (by decide) (quiet_comma_separated _ ?_)
  intro part member
  obtain ⟨value, given, rfl⟩ := List.mem_map.mp member
  exact quiet_tree _ _ (by decide) (quiet_cons _ _ (quiet_node value (sound value given)) quiet_nil)

theorem invocation_well_bracketed (target : Tree) (arguments : List Tree) (targetSound : target.WellBracketed)
    (sound : ∀ part ∈ arguments, part.WellBracketed) : (invocation target arguments).WellBracketed :=
  quiet_tree _ _ (by decide) (quiet_cons _ _ (quiet_node target targetSound)
    (quiet_cons _ _ (quiet_node _ (argument_list_well_bracketed arguments sound)) quiet_nil))

theorem object_creation_well_bracketed (type initializer : Tree) (arguments : List Tree) (typeSound : type.WellBracketed)
    (initializerSound : initializer.WellBracketed) (sound : ∀ part ∈ arguments, part.WellBracketed) :
    (objectCreation type (some arguments) (some initializer)).WellBracketed := by
  have heading : Quiet [keyword "new", space, type.toElement] :=
    quiet_cons _ _ (quiet_keyword "new") (quiet_cons _ _ (quiet_space " ") (quiet_cons _ _ (quiet_node type typeSound) quiet_nil))
  have list : Quiet [(argumentList arguments).toElement] :=
    quiet_cons _ _ (quiet_node _ (argument_list_well_bracketed arguments sound)) quiet_nil
  exact quiet_tree _ _ (by decide) (quiet_append _ _ (quiet_append _ _ heading list)
    (quiet_after_space [initializer] (by simpa using initializerSound)))

theorem initializer_well_bracketed (kind : Kind) (expressions : List Tree)
    (sound : ∀ part ∈ expressions, part.WellBracketed) : (initializer kind expressions).WellBracketed := by
  have gap : Quiet [space] := quiet_cons _ _ (quiet_space " ") quiet_nil
  by_cases empty : expressions.isEmpty
  · have braces := braced_tree kind (punct "\x7b") (punct "\x7d") [space] (by decide) (by decide) gap
    simpa [initializer, bracedList, empty] using braces
  · have inner := quiet_append _ _ gap (quiet_append _ _ (quiet_comma_separated expressions sound) gap)
    have braces := braced_tree kind (punct "\x7b") (punct "\x7d") _ (by decide) (by decide) inner
    simpa [initializer, bracedList, empty] using braces

end SmellCheck.Build
