import SmellCheck.Proofs.ChildNodes
import SmellCheck.Proofs.NothingToName

/-!
What a new constant brings into a class: a constant field with one name and the text of its literal as
value. Its attributes and modifiers are those of the last constant of the class, so nothing in them is
a constant, and no method is around the new literal.
-/

set_option autoImplicit false

namespace SmellCheck

theorem tree_kind (kind : Kind) (children : List Element) : (Build.tree kind children).kind = kind := Kind.ofRaw_raw kind

theorem subtrees_spaced (trees : List Tree) : (Build.spaced trees).filterMap Element.asNode? = trees := by
  have space : Build.space.asNode? = none := rfl
  induction trees with
  | nil => rfl
  | cons tree rest ih =>
      rw [Build.spaced, List.flatMap_cons, List.filterMap_append]
      exact congrArg (List.cons tree) ih

theorem field_subtrees (attributes : List Tree) (modifiers : Option Tree) (declaration : Tree) :
    (Build.field attributes modifiers declaration).subtrees = attributes ++ modifiers.toList ++ [declaration] := by
  simp only [Build.field, Build.tree, Tree.subtrees, List.filterMap_append, subtrees_spaced]
  rfl

namespace Fix

def declarationOf (name : String) (literal : Tree) : Tree :=
  Build.variableDeclaration (Build.predefinedType "string") [Build.variableDeclarator name (some literal)]

section
variable (template : Node) (name : String) (literal : Tree)

theorem constant_like_subtrees : (constantLike template name literal).subtrees =
    attributeLists template ++ (modifierList? template).toList ++ [declarationOf name literal] :=
  field_subtrees _ _ _

theorem attribute_list_kind (part : Tree) (member : part ∈ attributeLists template) : part.kind = .attributeList := by
  obtain ⟨child, isChild, rfl⟩ := List.mem_map.mp member
  exact eq_of_beq (List.mem_filter.mp isChild).2

theorem modifier_list_kind (part : Tree) (found : modifierList? template = some part) : part.kind = .modifierList := by
  obtain ⟨child, isChild, rfl⟩ := Option.map_eq_some_iff.mp found
  exact (Node.child_of_kind template child _ isChild).2

theorem constant_like_modifiers : (constantLike template name literal).modifiers = template.focus.modifiers := by
  have attributes : (attributeLists template).find? (·.kind == .modifierList) = none := by
    refine List.find?_eq_none.mpr fun part member => ?_
    rw [attribute_list_kind template part member]
    decide
  have modifiers : ((modifierList? template).toList ++ [declarationOf name literal]).find? (·.kind == .modifierList) =
      modifierList? template := by
    cases found : modifierList? template with
    | none => rfl
    | some part => simp [modifier_list_kind template part found]
  rw [Tree.modifiers, constant_like_subtrees, List.append_assoc, List.find?_append, attributes, Option.none_or, modifiers,
    Tree.modifiers, ← child_of_kind_focus]
  rfl

theorem constant_like_constant (isConstant : template.focus.isConstantField) :
    (constantLike template name literal).isConstantField := by
  have kind : (constantLike template name literal).kind = .fieldDecl := tree_kind _ _
  rw [Tree.isConstantField, kind, constant_like_modifiers]
  exact Bool.and_eq_true_iff.mpr ⟨rfl, (Bool.and_eq_true_iff.mp isConstant).2⟩

theorem constant_like_declaration : (constantLike template name literal).subtrees.find? (·.kind == .variableDecl) =
    some (declarationOf name literal) := by
  have attributes : (attributeLists template).find? (·.kind == .variableDecl) = none := by
    refine List.find?_eq_none.mpr fun part member => ?_
    rw [attribute_list_kind template part member]
    decide
  have declaration : ((modifierList? template).toList ++ [declarationOf name literal]).find? (·.kind == .variableDecl) =
      some (declarationOf name literal) := by
    cases found : modifierList? template with
    | none => rfl
    | some part =>
        rw [Option.toList_some, List.singleton_append, List.find?_cons, modifier_list_kind template part found]
        rfl
  rw [constant_like_subtrees, List.append_assoc, List.find?_append, attributes, Option.none_or, declaration]

theorem constant_like_values : (constantLike template name literal).namedValues = [(name, literal.trimmed)] := by
  rw [Tree.namedValues, constant_like_declaration]
  rfl

theorem spot_of_declaration (inMethod : Bool) (spot : Tree) (leaf : literal.subtrees = []) (isLiteral : literal.kind = .literal)
    (isSpot : Tree.Spot false (declarationOf name literal) inMethod spot) :
    inMethod = false ∧ spot.isConstantField = false := by
  have single : ∀ tree : Tree, tree.subtrees = [] → ∀ inMethod', Tree.Spot false tree inMethod' spot →
      inMethod' = false ∧ spot = tree := by
    intro tree none inMethod' isSpot
    rcases (Tree.spot_iff _ _ _ _).mp isSpot with here | ⟨part, isPart, -⟩
    · exact here
    · rw [none] at isPart
      cases isPart
  -- A declaration holds a type and a declarator, the declarator a value, and the value the literal.
  rcases (Tree.spot_iff _ _ _ _).mp isSpot with ⟨rfl, rfl⟩ | ⟨part, isPart, inPart⟩
  · exact ⟨rfl, rfl⟩
  rcases List.mem_cons.mp isPart with rfl | last
  · obtain ⟨rfl, rfl⟩ := single (Build.predefinedType "string") rfl inMethod inPart
    exact ⟨rfl, rfl⟩
  obtain rfl := List.mem_singleton.mp last
  rcases (Tree.spot_iff _ _ _ _).mp inPart with ⟨rfl, rfl⟩ | ⟨equals, isEquals, inEquals⟩
  · exact ⟨rfl, rfl⟩
  obtain rfl := List.mem_singleton.mp isEquals
  rcases (Tree.spot_iff _ _ _ _).mp inEquals with ⟨rfl, rfl⟩ | ⟨value, isValue, inValue⟩
  · exact ⟨rfl, rfl⟩
  obtain rfl : value = literal := List.mem_singleton.mp isValue
  obtain ⟨rfl, rfl⟩ := single value leaf inMethod inValue
  refine ⟨rfl, ?_⟩
  rw [Tree.isConstantField, isLiteral]
  rfl

end

end Fix

end SmellCheck
