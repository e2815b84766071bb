import SmellCheck.Proofs.Copying
import SmellCheck.Proofs.NamedOnce
import SmellCheck.Proofs.NewNames

/-!
The document in which the literals of a class have got names. It is the old one with a name in the place
of each literal that has the value of a constant or of a new one, with the new constants after the last
one of the class, and with nothing else changed.
-/

set_option autoImplicit false

namespace SmellCheck.Fix

-- The name that takes the place of a node, if it is a literal of a method: that of the first constant with its value,
-- else, for a string, the new one for its text.
def nameFor? (scope : Node) (made : List (String × Node)) (node : Node) : Option String :=
  if node ∈ methodLiterals scope then
    (constantFor? (namedValues scope.constantFields) node).or
      (if isStringLiteral node then (made.find? (·.2.trimmed == node.trimmed)).map (·.1) else none)
  else none

def nameInstead? (scope : Node) (made : List (String × Node)) (node : Node) : Option Tree :=
  (nameFor? scope made node).map Build.identifierName

-- What follows the last constant: the new ones, each after what is before that constant.
def constantsAfter (scope : Node) (made : List (String × Node)) (node : Node) : List Element :=
  if scope.constantFields.getLast? = some node then
    made.flatMap fun (name, literal) =>
      [Build.whitespace (separatorAfter node.elementBefore?), (constantLike node name literal.focus).toElement]
  else []

section
variable (scope : Node)

theorem new_fields_of_made (last : Node) : (planConstants scope).newFields last =
    (made scope).map fun (name, literal) => constantLike last name literal.focus := by
  rw [ConstantPlan.newFields, made, List.map_filterMap]
  refine List.filterMap_congr fun group _ => ?_
  rw [Option.map_map]
  rfl

theorem name_of_made (name : String) (literal : Node) (member : (name, literal) ∈ made scope) :
    name = Identifier.constantName literal.trimmed :=
  (((made_new_names scope).exact name literal).mp member).2.2.2.1

theorem made_for_group (name : String) (literals : List Node) (fresh : (name, literals) ∈ (planConstants scope).fresh)
    (literal : Node) (inGroup : literal ∈ literals) :
    ((made scope).find? (·.2.trimmed == literal.trimmed)).map (·.1) = some name := by
  obtain ⟨first, -, own, group⟩ := fresh_group scope name literals fresh
  have text : literal.trimmed = first.trimmed := ((group literal).mp inGroup).2.1
  obtain ⟨head, isHead⟩ := Option.isSome_iff_exists.mp (List.isSome_head?.mpr (List.ne_nil_of_mem inGroup))
  have sameText : head.trimmed = literal.trimmed :=
    ((group head).mp (List.mem_of_head? isHead)).2.1.trans text.symm
  have isSome : ((made scope).find? (·.2.trimmed == literal.trimmed)).isSome :=
    List.find?_isSome.mpr ⟨(name, head), (mem_made scope name head).mpr ⟨literals, fresh, isHead⟩, by simpa using sameText⟩
  obtain ⟨⟨found, leader⟩, isFound⟩ := Option.isSome_iff_exists.mp isSome
  have leaderText : leader.trimmed = literal.trimmed := by simpa using List.find?_some isFound
  rw [isFound, Option.map_some, name_of_made scope found leader (List.mem_of_find?_eq_some isFound), leaderText, text, own]

theorem use_iff (name : String) (literal : Node) :
    (name, literal) ∈ (planConstants scope).uses ↔ nameFor? scope (made scope) literal = some name := by
  constructor
  · intro use
    have inMethod := used_literal scope name literal use
    rw [nameFor?, if_pos inMethod]
    rcases List.mem_append.mp use with known | new
    · obtain ⟨other, -, named⟩ := List.mem_filterMap.mp known
      obtain ⟨constant, found, same⟩ := Option.map_eq_some_iff.mp named
      obtain ⟨rfl, rfl⟩ := Prod.mk.inj same
      rw [found, Option.some_or]
    · obtain ⟨⟨group, literals⟩, fresh, member⟩ := List.mem_flatMap.mp new
      obtain ⟨other, inGroup, same⟩ := List.mem_map.mp member
      obtain ⟨rfl, rfl⟩ := Prod.mk.inj same
      obtain ⟨first, -, -, isGroup⟩ := fresh_group scope group literals fresh
      obtain ⟨-, -, unknown, isString⟩ := (isGroup other).mp inGroup
      rw [unknown, Option.none_or, if_pos isString, made_for_group scope group literals fresh other inGroup]
  · intro named
    unfold nameFor? at named
    split at named
    · rename_i inMethod
      cases known : constantFor? (namedValues scope.constantFields) literal with
      | some constant =>
          rw [known, Option.some_or] at named
          exact List.mem_append_left _ (List.mem_filterMap.mpr ⟨literal, inMethod, by rw [known, named]; rfl⟩)
      | none =>
          rw [known, Option.none_or] at named
          split at named
          · rename_i isString
            obtain ⟨⟨found, leader⟩, isFound, rfl⟩ := Option.map_eq_some_iff.mp named
            have sameText : leader.trimmed = literal.trimmed := by simpa using List.find?_some isFound
            obtain ⟨literals, fresh, isHead⟩ := (mem_made scope found leader).mp (List.mem_of_find?_eq_some isFound)
            obtain ⟨first, -, -, group⟩ := fresh_group scope found literals fresh
            have leaderText := ((group leader).mp (List.mem_of_head? isHead)).2.1
            exact fresh_use scope found literals literal fresh
              ((group literal).mpr ⟨inMethod, sameText.symm.trans leaderText, known, isString⟩)
          · cases named
    · cases named

theorem made_nil_of_fresh (none : (planConstants scope).fresh = []) : made scope = [] := by
  rw [made, none]
  rfl

theorem not_instead (node : Node) (unused : ∀ name, (name, node) ∉ (planConstants scope).uses) :
    nameInstead? scope (made scope) node = none := by
  have unnamed : nameFor? scope (made scope) node = none :=
    Option.eq_none_iff_forall_ne_some.mpr fun name named => unused name ((use_iff scope name node).mpr named)
  rw [nameInstead?, unnamed, Option.map_none]

theorem names_copy (isClass : scope.kind = .classDecl) (single : SingleTokens scope) :
    (withNames scope).edits.Copies scope (nameInstead? scope (made scope)) (constantsAfter scope (made scope)) := by
  intro node same _
  rcases edit_cases scope node same with noEdit | ⟨name, use, edit⟩ | ⟨isLast, fresh, edit⟩
  · refine copies_untouched _ _ _ node noEdit (not_instead scope node fun name use => ?_) ?_
    · obtain ⟨given, edit⟩ := edit_of_used scope single isClass node name use
      rw [noEdit] at edit
      cases edit
    · unfold constantsAfter
      split
      · rename_i isLast
        by_cases none : (planConstants scope).fresh = []
        · rw [made_nil_of_fresh scope none, List.flatMap_nil]
        · rw [edit_of_last scope single isClass node isLast none] at noEdit
          cases noEdit
      · rfl
  · have notLast : scope.constantFields.getLast? ≠ some node := fun isLast => not_both scope node name use isLast
    refine copies_replaced _ _ _ node _ edit ?_ (if_neg notLast)
    rw [nameInstead?, (use_iff scope name node).mp use, Option.map_some]
  · refine copies_followed _ _ _ node _ edit (not_instead scope node fun name use => not_both scope node name use isLast) ?_
    have found : scope.constantFields.getLast? = some node := isLast
    rw [constantsAfter, if_pos found, new_fields_of_made, List.flatMap_map]

end

end SmellCheck.Fix

namespace SmellCheck.Catalog

open SmellCheck.Fix Declared

-- The repair names exactly the literals that have a constant or get one, and declares exactly the constants that are new.
theorem literals_named_exactly (catalog : Catalog) (scope : Node) (isClass : scope.kind = .classDecl) (known : scope.KindsKnown)
    (single : SingleTokens scope) (result : Tree) (fixed : catalog.fix Rule.replaceMagicValues.id scope = .ok result) :
    ∃ made, NewNames scope made ∧ result = scope.copy (nameInstead? scope made) (constantsAfter scope made) ∧
      ∀ last ∈ scope.constantFields.getLast?, ∀ name literal, (name, literal) ∈ made →
        (constantLike last name literal.focus).isConstantField ∧
          (constantLike last name literal.focus).namedValues = [(name, literal.trimmed)] := by
  have applied := (fix_again catalog .replaceMagicValues replaceMagicValues rfl scope scope result fixed).1
  rw [names_applied, Node.class_scope_self scope (.inl isClass)] at applied
  have root : (withNames scope).root = scope.root := (Session.reached_history scope (requests scope)).root
  refine ⟨made scope, made_new_names scope, ?_, fun last isLast name literal _ => ⟨?_, ?_⟩⟩
  · rw [applied, Session.apply, root]
    exact rewrite_copies scope _ _ _ known (names_copy scope isClass single)
  · have isConstant := (constant_field_below scope last (last_constant scope last isLast)).2.2
    exact constant_like_constant last name literal.focus ((constant_field_focus last).symm.trans isConstant)
  · exact constant_like_values last name literal.focus

theorem two_literals_named :
    let home := Node.ofRoot 0 (valued [] [text "x", text "y", text "y", Build.numberLiteral "1"])
    let name := Build.identifierName
    let result := valued [constant "Y" (text "y")] [name "A", name "Y", name "Y", Build.numberLiteral "1"]
    home.kind = .classDecl ∧ home.KindsKnown ∧ SingleTokens home ∧ builtin.fix Rule.replaceMagicValues.id home = .ok result ∧
      ∃ made, NewNames home made ∧ result = home.copy (nameInstead? home made) (constantsAfter home made) := by
  intro home name result
  have known : home.KindsKnown := by decide
  have single : SingleTokens home := by unfold SingleTokens; decide
  have fixed : builtin.fix Rule.replaceMagicValues.id home = .ok result := repaired _ _ (by decide)
  obtain ⟨made, isNew, copied, -⟩ := literals_named_exactly builtin home rfl known single result fixed
  exact ⟨rfl, known, single, fixed, made, isNew, copied⟩

end SmellCheck.Catalog
