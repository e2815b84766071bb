import SmellCheck.Proofs.Applying
import SmellCheck.Proofs.Descent

/-!
Substitution, place by place. The children of a place that is spared stand in its child list by their
indices, and each of them is spared in its turn or has a request of its own; requests that are all below
one place leave what is around that place.
-/

set_option autoImplicit false

namespace SmellCheck

theorem forest_substitute_eq (request? : List Nat → Option Request) (index : Nat) (forest : List Element) :
    Forest.substitute request? index forest = (forest.zipIdx index).flatMap fun (element, step) =>
      if element.isNode then Request.fill (element.substitute fun path => request? (step :: path)) (request? [step])
      else [element] := by
  induction forest generalizing index with
  | nil => rfl
  | cons element rest ih => rw [Forest.substitute, ih, List.zipIdx_cons, List.flatMap_cons]

theorem substitute_below (request? : List Nat → Option Request) (focus : Tree) (context : List Frame)
    (below : ∀ path, (request? path).isSome → ∃ step rest, path = Frame.pathOf context ++ step :: rest) :
    (Frame.rise focus context).substitute request? =
      Frame.rise (focus.substitute fun path => request? (Frame.pathOf context ++ path)) context := by
  induction context generalizing focus with
  | nil => rfl
  | cons frame outer ih =>
      have elsewhere : ∀ path, ¬ (∃ step rest, path = frame.before.length :: step :: rest) →
          request? (Frame.pathOf outer ++ path) = none := by
        intro path other
        refine Option.not_isSome_iff_eq_none.mp fun planned => other ?_
        obtain ⟨step, rest, same⟩ := below _ planned
        rw [Frame.path_of_cons, List.append_assoc] at same
        exact ⟨step, rest, List.append_cancel_left same⟩
      have beside : ∀ index forest, (∀ step, index ≤ step → step < index + forest.length → step ≠ frame.before.length) →
          Forest.substitute (fun path => request? (Frame.pathOf outer ++ path)) index forest = forest := by
        intro index forest apart
        rw [forest_substitute_congr _ (fun _ => none) index forest]
        · exact forest_substitute_nothing _ (fun _ _ => rfl) index forest
        · intro step path low high
          refine elsewhere _ ?_
          rintro ⟨_, _, same⟩
          exact apart step low high (List.cons.inj same).1
      have plugged : (frame.plug focus).substitute (fun path => request? (Frame.pathOf outer ++ path)) =
          frame.plug (focus.substitute fun path => request? (Frame.pathOf (frame :: outer) ++ path)) := by
        have here := elsewhere [frame.before.length] (by rintro ⟨_, _, same⟩; cases same)
        have split := node_substitute_split (fun path => request? (Frame.pathOf outer ++ path)) frame.raw
          frame.before.reverse frame.after focus.toElement rfl
        rw [List.length_reverse, here, beside 0 _ (fun step _ high => by simp at high; omega),
          beside _ frame.after (fun step low _ => by omega)] at split
        refine to_element_injective _ _ (split.trans ?_)
        simp only [Frame.path_of_cons, List.append_assoc, List.singleton_append]
        rfl
      have outerBelow : ∀ path, (request? path).isSome → ∃ step rest, path = Frame.pathOf outer ++ step :: rest := by
        intro path planned
        obtain ⟨step, rest, same⟩ := below path planned
        exact ⟨frame.before.length, step :: rest, by rw [same, Frame.path_of_cons, List.append_assoc]; rfl⟩
      exact (ih (frame.plug focus) outerBelow).trans (congrArg (Frame.rise · outer) plugged)

namespace Node

theorem child_at (node : Node) (index : Nat) (tree : Tree) (found : node.elements[index]? = some tree.toElement) :
    ∃ child ∈ node.children, child.focus = tree ∧ child.path = node.path ++ [index] := by
  obtain ⟨front, back, split, rfl⟩ := split_at_index node.elements index _ found
  refine ⟨⟨node.snapshot, tree, ⟨node.focus.raw, front.reverse ++ [], back⟩ :: node.context⟩,
    (mem_children_from _ _ _ _ _ _).mpr ⟨front, tree, back, split, rfl⟩, rfl, ?_⟩
  rw [path_eq, Frame.path_of_cons]
  simp [path_eq]

theorem child_split (node child : Node) (isChild : child ∈ node.children) :
    ∃ front back, node.elements = front ++ child.focus.toElement :: back ∧ child.path = node.path ++ [front.length] := by
  obtain ⟨front, tree, back, split, rfl⟩ := (mem_children_from _ _ _ _ _ _).mp isChild
  refine ⟨front, back, split, ?_⟩
  rw [path_eq, Frame.path_of_cons]
  simp [path_eq]

def Spared (done : List Request) (node : Node) : Prop := ∀ request ∈ done, request.target ∉ node.ancestorsOrSelf

theorem spared_child (done : List Request) (node : Node) (within : ∀ request ∈ done, request.target.SameTree node)
    (spared : node.Spared done) (index : Nat) (tree : Tree) (found : node.elements[index]? = some tree.toElement) :
    ∃ child ∈ node.children, child.focus = tree ∧ child.path = node.path ++ [index] ∧
      (∀ request ∈ done, request.target.SameTree child) ∧
      ((∃ request ∈ done, request.target = child ∧ Request.on? done child.path = some request) ∨
        Request.on? done child.path = none ∧ child.Spared done) := by
  obtain ⟨child, isChild, focus, path⟩ := node.child_at index tree found
  have tree := Node.same_tree_symm (same_tree_of_child node child isChild)
  refine ⟨child, isChild, focus, path, fun request member => same_tree_trans (within request member) tree, ?_⟩
  cases planned : Request.on? done child.path with
  | some request =>
      obtain ⟨member, atChild⟩ := Session.on_eq_some _ _ planned
      exact .inl ⟨request, member, eq_of_path _ _ (same_tree_trans (within request member) tree) atChild, rfl⟩
  | none =>
      refine .inr ⟨rfl, fun request member above => ?_⟩
      rcases List.mem_cons.mp above with same | higher
      · exact List.find?_eq_none.mp planned request member (beq_iff_eq.mpr (congrArg Node.path same))
      · rw [ancestors_of_parent child node (parent_of_child node child isChild)] at higher
        exact spared request member higher

end Node

theorem Session.accepted_at (home node : Node) (history : List Request)
    (ordered : history.Pairwise fun earlier later => later.target ∉ earlier.target.ancestors)
    (spared : node.Spared ((start home).accepted history)) (request : Request) (member : request ∈ history)
    (same : request.target.SameTree home) (isParent : request.target.parent = some node) :
    ∃ planned ∈ (start home).accepted history, planned.target = request.target := by
  obtain ⟨planned, goes, above⟩ := accepted_above home history ordered request member same (Node.inner_of_parent _ node isParent)
  refine ⟨planned, goes, (List.mem_cons.mp above).resolve_right fun higher => spared planned goes ?_⟩
  rw [Node.ancestors_of_parent _ node isParent] at higher
  exact higher

end SmellCheck
