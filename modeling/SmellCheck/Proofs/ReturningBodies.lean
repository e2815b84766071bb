import SmellCheck.Fix.LambdaBodies
import SmellCheck.Proofs.Places

/-!
Lambda bodies that only return: what such a block holds, and which of them are rewritten on their own
because they are inside no other one.
-/

set_option autoImplicit false

namespace SmellCheck

theorem returned_iff (block expression : Tree) :
    block.returned? = some expression ↔ block.kind = .block ∧
      ∃ statement, block.subtrees = [statement] ∧ statement.kind = .returnStmt ∧
        statement.subtrees.head? = some expression := by
  unfold Tree.returned?
  constructor
  · intro returned
    split at returned
    · rename_i isBlock
      split at returned
      · rename_i statement only
        split at returned
        · rename_i isReturn
          exact ⟨isBlock, statement, only, isReturn, returned⟩
        · cases returned
      · cases returned
    · cases returned
  · rintro ⟨isBlock, statement, only, isReturn, first⟩
    simp only [if_pos isBlock, only, if_pos isReturn, first]

theorem forest_inline_bodies_eq (inLambda : Bool) (forest : List Element) :
    Forest.inlineBodies inLambda forest = forest.map fun element => element.inlineBodies.inlineBody inLambda := by
  induction forest with
  | nil => rfl
  | cons element rest ih => rw [Forest.inlineBodies, ih, List.map_cons]

namespace Fix

theorem returned_by_iff (node : Node) (expression : Tree) :
    returnedBy? node = some expression ↔ node.parentKind?.any Kind.isLambda ∧ node.focus.returned? = some expression := by
  unfold returnedBy?
  split
  · rename_i inLambda
    simp [inLambda]
  · rename_i other
    simp [other]

theorem block_of_returned_by (node : Node) (expression : Tree) (returned : returnedBy? node = some expression) :
    node.kind = .block :=
  ((returned_iff _ _).mp ((returned_by_iff node expression).mp returned).2).1

theorem mem_returning_bodies (scope body : Node) (expression : Tree) :
    (body, expression) ∈ returningBodies scope ↔ body ∈ scope.descendantsOrSelf ∧
      returnedBy? body = some expression ∧ ∀ ancestor ∈ body.ancestors, returnedBy? ancestor = none := by
  have outermost : (body.ancestors.any fun ancestor => (returnedBy? ancestor).isSome) = false ↔
      ∀ ancestor ∈ body.ancestors, returnedBy? ancestor = none := by
    simp
  rw [← outermost, returningBodies, List.mem_filterMap]
  simp only [bind, Option.bind_eq_some_iff, pure]
  constructor
  · rintro ⟨node, below, expression', returned, same⟩
    split at same
    · cases same
    · rename_i alone
      cases same
      exact ⟨below, returned, by simpa using alone⟩
  · rintro ⟨below, returned, alone⟩
    exact ⟨body, below, expression, returned, by simp [alone]⟩

end Fix

end SmellCheck
