import SmellCheck.Proofs.Confinement
import SmellCheck.Proofs.NothingToName
import SmellCheck.Proofs.References

/-!
What is planned when literals get names: the new constants after the last one, and a name for each
literal that has a constant. Where literals are single tokens no request is in the way of another one, so
each target gets an edit; in a regular class neither the constants nor the literals that are left change.
-/

set_option autoImplicit false

namespace SmellCheck.Fix

open Node

def SingleTokens (scope : Node) : Prop :=
  ∀ literal ∈ scope.descendantsOrSelf, literal.kind = .literal → literal.elements.length = 1 ∧ literal.children = []

-- In a class that is well formed, literals are one token, their text says if they are strings, and no constant is in
-- a method.
structure Orderly (scope : Node) : Prop where
  single : ∀ literal ∈ scope.descendantsOrSelf, literal.kind = .literal →
    literal.elements.length = 1 ∧ literal.children = []
  agree : ∀ first ∈ scope.descendantsOrSelf, ∀ second ∈ scope.descendantsOrSelf, first.kind = .literal →
    second.kind = .literal → first.trimmed = second.trimmed → isStringLiteral first = isStringLiteral second
  outside : ∀ field ∈ scope.constantFields, field.ancestorOfKind? .methodDecl = none

-- No literal of a method is in a constant field, and the last constant field is in no other one.
structure Regular (scope : Node) : Prop extends Orderly scope where
  plain : ∀ literal ∈ methodLiterals scope, ∀ field ∈ scope.constantFields, field ∉ literal.ancestors
  last : ∀ last ∈ scope.constantFields.getLast?, ∀ field ∈ scope.constantFields, field ∉ last.ancestors

section
variable (scope : Node) (single : SingleTokens scope) (regular : Regular scope)

theorem mem_requests (request : Request) (member : request ∈ requests scope) :
    (∃ last, (planConstants scope).last? = some last ∧ (planConstants scope).fresh ≠ [] ∧
      request = .insertAfter last ((planConstants scope).newFields last)) ∨
    ∃ use ∈ (planConstants scope).uses, request = naming use := by
  rcases List.mem_append.mp member with declares | names
  · simp only [newConstants] at declares
    split at declares
    · rename_i last found
      split at declares
      · cases declares
      · rename_i some
        exact .inl ⟨last, found, by simpa using some, List.mem_singleton.mp declares⟩
    · cases declares
  · obtain ⟨use, present, same⟩ := List.mem_map.mp names
    exact .inr ⟨use, present, same.symm⟩

theorem declares_mem (last : Node) (found : (planConstants scope).last? = some last)
    (fresh : (planConstants scope).fresh ≠ []) : .insertAfter last ((planConstants scope).newFields last) ∈ requests scope := by
  refine List.mem_append_left _ ?_
  simp only [newConstants, found]
  rw [if_neg (by simpa using fresh)]
  exact List.mem_singleton_self _

theorem naming_mem (use : String × Node) (member : use ∈ (planConstants scope).uses) : naming use ∈ requests scope :=
  List.mem_append_right _ (List.mem_map_of_mem member)

theorem constant_field_below (field : Node) (member : field ∈ scope.constantFields) :
    field ∈ scope.descendantsOrSelf ∧ field.kind = .fieldDecl ∧ field.isConstantField := by
  obtain ⟨below, isConstant⟩ := List.mem_filter.mp member
  exact ⟨below, eq_of_beq (Bool.and_eq_true_iff.mp isConstant).1, isConstant⟩

theorem method_literal_below (literal : Node) (member : literal ∈ methodLiterals scope) :
    literal ∈ scope.descendantsOrSelf ∧ literal.kind = .literal :=
  ⟨(List.mem_filter.mp member).1, (method_literal scope literal member).2⟩

theorem no_requests (none : (planConstants scope).uses = []) : requests scope = [] := by
  have fresh : (planConstants scope).fresh = [] := by
    refine List.eq_nil_iff_forall_not_mem.mpr ?_
    rintro ⟨name, literals⟩ member
    obtain ⟨literal, inGroup, -⟩ := fresh_group scope name literals member
    have use := fresh_use scope name literals literal member inGroup
    rw [none] at use
    cases use
  simp only [requests, newConstants, none, fresh]
  cases (planConstants scope).last? <;> rfl

theorem names_applied (home : Node) : (replaceMagicValues home).getD home.root = (withNames home.classScope).apply := by
  rw [replace_magic_values_eq]
  by_cases none : (planConstants home.classScope).uses = []
  · rw [none, withNames, no_requests home.classScope none, (same_tree_of_class_scope home).2.symm]
    exact (Session.apply_nothing home.classScope).symm
  · rw [if_neg (by simpa using none)]
    rfl

theorem target_below (request : Request) (member : request ∈ requests scope) :
    request.target ∈ scope.descendantsOrSelf ∧ (request.target.kind = .fieldDecl ∨ request.target.kind = .literal) := by
  rcases mem_requests scope request member with ⟨last, found, -, rfl⟩ | ⟨use, present, rfl⟩
  · have below := constant_field_below scope last (last_constant scope last found)
    exact ⟨below.1, .inl below.2.1⟩
  · have below := method_literal_below scope use.2 (used_literal scope use.1 use.2 present)
    exact ⟨below.1, .inr below.2⟩

theorem target_strictly_below (isClass : scope.kind = .classDecl) (request : Request) (member : request ∈ requests scope) :
    scope ∈ request.target.ancestors := by
  obtain ⟨below, kind⟩ := target_below scope request member
  rcases List.mem_cons.mp ((mem_descendants_or_self_iff _ _).mp below) with same | higher
  · rw [← same, isClass] at kind
    rcases kind with kind | kind <;> cases kind
  · exact higher

include single in
theorem not_above (literal node : Node) (below : literal ∈ scope.descendantsOrSelf) (isLiteral : literal.kind = .literal) :
    literal ∉ node.ancestors := by
  intro above
  have inside := (mem_descendants_iff literal node).mpr above
  rw [descendants_eq, (single literal below isLiteral).2] at inside
  cases inside

include single in
theorem requests_apart (first : Request) (isFirst : first ∈ requests scope) (second : Request)
    (isSecond : second ∈ requests scope) (different : first.target ≠ second.target) : first.Apart second := by
  have harmless : ∀ request ∈ requests scope, request.isDestructive → ∀ node : Node, request.target ∉ node.ancestors := by
    intro request member destructive node
    rcases mem_requests scope request member with ⟨last, -, -, rfl⟩ | ⟨use, present, rfl⟩
    · cases destructive
    · obtain ⟨below, isLiteral⟩ := method_literal_below scope use.2 (used_literal scope use.1 use.2 present)
      exact not_above scope single use.2 node below isLiteral
  exact ⟨different, fun destructive => harmless first isFirst destructive _,
    fun destructive => harmless second isSecond destructive _⟩

include single in
theorem target_edited (isClass : scope.kind = .classDecl) (request : Request) (member : request ∈ requests scope) :
    (withNames scope).edits.edit? request.target.path ≠ none := by
  have above := target_strictly_below scope isClass request member
  obtain ⟨planned, present, same⟩ := Session.target_accepted scope _ (requests_apart scope single) request member
    (Node.same_tree_of_descendant scope request.target (target_below scope request member).1)
    (Node.inner_of_ancestor scope request.target above)
  have edit := Session.edit_of_planned (Session.reached_history scope (requests scope)) planned present
  rw [same] at edit
  rw [withNames, edit]
  exact Option.some_ne_none _

theorem edit_cases (node : Node) (same : node.SameTree scope) :
    (withNames scope).edits.edit? node.path = none ∨
    (∃ name, (name, node) ∈ (planConstants scope).uses ∧
      (withNames scope).edits.edit? node.path = some (.replace [Build.identifierName name])) ∨
    ((planConstants scope).last? = some node ∧ (planConstants scope).fresh ≠ [] ∧
      (withNames scope).edits.edit? node.path = some (.insertAfter ((planConstants scope).newFields node))) := by
  cases planned : (withNames scope).edits.edit? node.path with
  | none => exact .inl rfl
  | some edit =>
      obtain ⟨request, present, rfl, rfl⟩ := (Session.edit_iff (Session.reached_history scope _) node same edit).mp planned
      rcases mem_requests scope request (Session.mem_accepted _ _ _ present) with ⟨last, isLast, some, rfl⟩ | ⟨use, isUse, rfl⟩
      · exact .inr (.inr ⟨isLast, some, rfl⟩)
      · exact .inr (.inl ⟨use.1, isUse, rfl⟩)

theorem not_both (node : Node) (name : String) (use : (name, node) ∈ (planConstants scope).uses)
    (isLast : (planConstants scope).last? = some node) : False := by
  have isLiteral := (method_literal_below scope node (used_literal scope name node use)).2
  have isField := (constant_field_below scope node (last_constant scope node isLast)).2.1
  rw [isLiteral] at isField
  cases isField

include single in
theorem edit_of_used (isClass : scope.kind = .classDecl) (literal : Node) (name : String)
    (use : (name, literal) ∈ (planConstants scope).uses) :
    ∃ given, (withNames scope).edits.edit? literal.path = some (.replace [Build.identifierName given]) := by
  have some := target_edited scope single isClass _ (naming_mem scope _ use)
  have same := (method_literal scope literal (used_literal scope name literal use)).1
  rcases edit_cases scope literal same with none | ⟨given, -, edit⟩ | ⟨isLast, -, -⟩
  · exact absurd none some
  · exact ⟨given, edit⟩
  · exact (not_both scope literal name use isLast).elim

include single in
theorem edit_of_last (isClass : scope.kind = .classDecl) (last : Node) (found : (planConstants scope).last? = some last)
    (fresh : (planConstants scope).fresh ≠ []) :
    (withNames scope).edits.edit? last.path = some (.insertAfter ((planConstants scope).newFields last)) := by
  have some := target_edited scope single isClass _ (declares_mem scope last found fresh)
  rcases edit_cases scope last (same_tree_of_constant_field scope last (last_constant scope last found)) with
    none | ⟨name, use, -⟩ | ⟨-, -, edit⟩
  · exact absurd none some
  · exact (not_both scope last name use found).elim
  · exact edit

theorem names_stay_in (isClass : scope.kind = .classDecl) : (withNames scope).StaysIn scope :=
  Session.stays_in_run scope _ (target_strictly_below scope isClass)

theorem focus_kept (node : Node) (same : node.SameTree scope)
    (apart : ∀ request ∈ requests scope, node ∉ request.target.ancestors) :
    (node.rewritten (withNames scope).edits).focus = node.focus := by
  have reached := Session.reached_history scope (requests scope)
  rw [withNames, reached.edits]
  exact tree_rewrite_untouched _ _ (Session.untouched_below scope node _ same
    (fun request member => (reached.within request member).1)
    fun request member => apart request (Session.mem_accepted _ _ _ member))

include single in
theorem literal_kept (literal : Node) (below : literal ∈ scope.descendantsOrSelf) (isLiteral : literal.kind = .literal) :
    (literal.rewritten (withNames scope).edits).focus = literal.focus :=
  focus_kept scope literal (Node.same_tree_of_descendant scope literal below) fun request _ =>
    not_above scope single literal request.target below isLiteral

include regular in
theorem constant_kept (field : Node) (member : field ∈ scope.constantFields) :
    (field.rewritten (withNames scope).edits).focus = field.focus := by
  refine focus_kept scope field (same_tree_of_constant_field scope field member) ?_
  intro request asked
  rcases mem_requests scope request asked with ⟨last, found, -, rfl⟩ | ⟨use, present, rfl⟩
  · exact regular.last last found field member
  · exact regular.plain use.2 (used_literal scope use.1 use.2 present) field member

end

end SmellCheck.Fix
