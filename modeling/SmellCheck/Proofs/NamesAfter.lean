import Mathlib.Data.List.Find
import SmellCheck.Proofs.AfterExchange
import SmellCheck.Proofs.Covering
import SmellCheck.Proofs.Named

/-!
Names after one node is exchanged for another tree. A name outside is looked up in the places of the
scopes in which it was looked up before, and a scope that has nothing to do with the node declares
what it declared before.
-/

set_option autoImplicit false

namespace SmellCheck

theorem take_while_map {α β : Type} (f : α → β) (p : α → Bool) (q : β → Bool) (items : List α)
    (agree : ∀ item ∈ items, q (f item) = p item) : (items.map f).takeWhile q = (items.takeWhile p).map f := by
  induction items with
  | nil => rfl
  | cons item rest ih =>
      have later := ih fun other member => agree other (List.mem_cons_of_mem _ member)
      rw [List.map_cons, List.takeWhile_cons, List.takeWhile_cons, agree item List.mem_cons_self, later]
      cases p item <;> rfl

theorem find_map {α β : Type} (f : α → β) (p : α → Bool) (q : β → Bool) (items : List α)
    (agree : ∀ item ∈ items, q (f item) = p item) : (items.map f).find? q = (items.find? p).map f :=
  List.find?_map.trans (congrArg (Option.map f) (List.find?_congr agree))

theorem filter_map {α β : Type} (f : α → β) (p : α → Bool) (q : β → Bool) (items : List α)
    (agree : ∀ item ∈ items, q (f item) = p item) : (items.map f).filter q = (items.filter p).map f :=
  List.filter_map.trans (congrArg (List.map f) (List.filter_congr agree))

section
variable (target : Node) (tree : Tree)

namespace Node

theorem aside_of_shorter (node : Node) (outside : target.Outside node) (short : node.focus.length < target.focus.length) :
    target.AsideOf node := by
  refine ⟨outside.inTree, fun above => ?_, fun above => ?_⟩
  · rcases List.mem_cons.mp above with same | higher
    · exact absurd short (by rw [same]; exact Nat.lt_irrefl _)
    · exact outside.notBelow higher
  · have within := length_of_below node target ((mem_descendants_or_self_iff node target).mpr (List.mem_cons_of_mem _ above))
    omega

theorem aside_of_below_parent (type node : Node) (isParent : target.parent = some type) (below : type ∈ node.ancestors)
    (notBelow : target ∉ node.ancestorsOrSelf) : target.AsideOf node := by
  have inTree := same_tree_of_ancestor type node below
  refine ⟨same_tree_trans (same_tree_symm inTree) (same_tree_of_parent target type isParent), notBelow, fun above => ?_⟩
  rw [ancestors_of_parent target type isParent] at above
  have around : type ∈ type.ancestors := by
    rcases List.mem_cons.mp above with rfl | higher
    · exact below
    · exact ancestors_trans _ _ _ below higher
  exact not_above_self type around

theorem aside_of_member (type member : Node) (isParent : target.parent = some type) (isChild : member ∈ type.children)
    (other : member ≠ target) : target.AsideOf member := by
  have above := ancestors_of_parent member type (parent_of_child type member isChild)
  refine aside_of_below_parent target type member isParent (above ▸ List.mem_cons_self) fun higher => ?_
  rw [ancestorsOrSelf, above, ← ancestors_of_parent target type isParent] at higher
  exact (List.mem_cons.mp higher).elim (fun same => other same.symm) (not_above_self target)

theorem after_kind_above (node above : Node) (outside : target.Outside node) (higher : above ∈ node.ancestors) :
    (target.after tree above).kind = above.kind :=
  after_kind target tree above fun same => outside.notBelow (same ▸ higher)

theorem after_body_owner (node : Node) (outside : target.Outside node) :
    (target.after tree node).bodyOwner? = node.bodyOwner?.map (target.after tree) := by
  have kinds (above : Node) := after_kind_above target tree node above outside
  unfold bodyOwner?
  rw [after_ancestors target tree node outside, take_while_map _ _ _ _ fun above higher => by rw [kinds above higher]]
  exact find_map _ _ _ _ fun above member => by rw [kinds above (List.takeWhile_prefix _ |>.subset member)]

theorem after_enclosing_type (node : Node) (outside : target.Outside node) (other : node ≠ target) :
    (target.after tree node).enclosingType? = node.enclosingType?.map (target.after tree) := by
  unfold enclosingType?
  rw [after_ancestors_or_self target tree node outside]
  refine find_map _ _ _ _ fun above member => ?_
  rcases List.mem_cons.mp member with rfl | higher
  · rw [after_kind target tree above other]
  · rw [after_kind_above target tree node above outside higher]

section
variable (node : Node) (outside : target.Outside node) (other : node ≠ target) (kind : Kind)
variable (blind : target ∈ node.children → (tree.kind == kind) = (target.kind == kind))
include blind

theorem after_is_kind (child : Node) (isChild : child ∈ node.children) :
    ((target.after tree child).kind == kind) = (child.kind == kind) := by
  by_cases here : child = target
  · rw [here, after_target]
    exact blind (here ▸ isChild)
  · rw [after_kind target tree child here]

include outside other

theorem after_children_where_blind :
    (target.after tree node).childrenOfKind kind = (node.childrenOfKind kind).map (target.after tree) := by
  unfold childrenOfKind
  rw [after_children target tree node outside other]
  exact filter_map _ _ _ _ (after_is_kind target tree node kind blind)

theorem after_child_where_blind :
    (target.after tree node).childOfKind? kind = (node.childOfKind? kind).map (target.after tree) := by
  unfold childOfKind?
  rw [after_children target tree node outside other]
  exact find_map _ _ _ _ (after_is_kind target tree node kind blind)

end

section
variable (node : Node) (aside : target.AsideOf node)
include aside

theorem aside_kind : (target.after tree node).kind = node.kind :=
  after_kind target tree node (outside_of_aside target node aside).2

theorem no_child_aside (isChild : target ∈ node.children) : False :=
  aside.notAbove (parent_mem_ancestors target node (parent_of_child node target isChild))

theorem after_children_of_kind (kind : Kind) :
    (target.after tree node).childrenOfKind kind = (node.childrenOfKind kind).map (target.after tree) := by
  obtain ⟨outside, other⟩ := outside_of_aside target node aside
  exact after_children_where_blind target tree node outside other kind fun isChild => (no_child_aside target node aside isChild).elim

theorem after_child_of_kind (kind : Kind) :
    (target.after tree node).childOfKind? kind = (node.childOfKind? kind).map (target.after tree) := by
  obtain ⟨outside, other⟩ := outside_of_aside target node aside
  exact after_child_where_blind target tree node outside other kind fun isChild => (no_child_aside target node aside isChild).elim

theorem after_descendants_of_kind (kind : Kind) :
    (target.after tree node).descendantsOfKind kind = (node.descendantsOfKind kind).map (target.after tree) := by
  have below := (List.cons.inj (after_descendants_or_self target tree node aside)).2
  unfold descendantsOfKind
  rw [below]
  exact filter_map _ _ _ _ fun child member => by
    rw [aside_kind target tree child (aside_below target node child aside (List.mem_cons_of_mem _ member))]

end

end Node

namespace Scope

open Node

section
variable (node : Node) (aside : target.AsideOf node)
include aside

theorem after_declares (name : String) : declares name (target.after tree node) = declares name node := by
  have focus := after_focus target tree node aside
  have parents : (target.after tree node).parent.isSome = node.parent.isSome := by
    rw [after_parent target tree node (outside_of_aside target node aside).1, Option.isSome_map]
  have sorts : (declaration? (target.after tree node)).isSome = (declaration? node).isSome := by
    unfold declaration?
    rw [aside_kind target tree node aside]
    split <;> simp [parents]
  rw [declares_eq, declares_eq, sorts, name?, name?, tokenTexts, tokenTexts, elements, elements, focus]

theorem after_parameter_nodes : parameterNodes (target.after tree node) = (parameterNodes node).map (target.after tree) := by
  unfold parameterNodes
  rw [aside_kind target tree node aside]
  split
  · exact after_children_of_kind target tree node aside .parameter
  · rw [after_child_of_kind target tree node aside .parameterList]
    cases found : node.childOfKind? .parameterList with
    | none => rfl
    | some list =>
        have isChild := aside_of_child target node list aside (List.mem_of_find?_eq_some found)
        exact after_children_of_kind target tree list isChild .parameter

theorem after_local_nodes : localNodes (target.after tree node) = (localNodes node).map (target.after tree) := by
  unfold localNodes
  rw [after_descendants_or_self target tree node aside]
  refine filter_map _ _ _ _ fun below member => ?_
  have belowAside := aside_below target node below aside member
  rw [aside_kind target tree below belowAside, after_body_owner target tree below (outside_of_aside target below belowAside).1]
  cases below.bodyOwner? with
  | none => rfl
  | some owner => rw [Option.map_some, Option.any_some, Option.any_some, after_same]

theorem after_member_declarations :
    memberDeclarations (target.after tree node) = (memberDeclarations node).map (target.after tree) := by
  unfold memberDeclarations
  rw [aside_kind target tree node aside]
  split
  · exact after_descendants_of_kind target tree node aside .variableDeclarator
  · rfl
  · rfl
  · rfl

theorem after_declarations : declarations (target.after tree node) = (declarations node).map (target.after tree) := by
  obtain ⟨outside, other⟩ := outside_of_aside target node aside
  unfold declarations
  rw [aside_kind target tree node aside]
  split
  · rw [after_parameter_nodes target tree node aside, after_local_nodes target tree node aside, List.map_append]
  · split
    · rw [after_children target tree node outside other]
      exact flat_map_map _ _ _ _ _ fun child isChild =>
        after_member_declarations target tree child (aside_of_child target node child aside isChild)
    · rfl

end

theorem after_member_name (node : Node) (outside : target.Outside node) :
    (target.after tree node).isMemberName = node.isMemberName := by
  unfold isMemberName
  rw [after_parent target tree node outside]
  cases isParent : node.parent with
  | none => rfl
  | some access =>
      obtain ⟨accessOutside, other⟩ := outside_parent target node access outside isParent
      have names : (target.after tree access).child? 1 = (access.child? 1).map (target.after tree) := by
        rw [child?, after_children target tree access accessOutside other, List.getElem?_map, child?]
      rw [Option.map_some]
      dsimp only
      rw [after_kind target tree access other, names]
      cases access.child? 1 with
      | none => rfl
      | some name => rw [Option.map_some, Option.any_some, Option.any_some, after_same]

theorem after_searched (node : Node) (outside : target.Outside node) (ofThis : Bool) :
    searched ofThis (target.after tree node) = (searched ofThis node).map (target.after tree) := by
  unfold searched
  rw [after_member_name target tree node outside, after_parent target tree node outside]
  split
  · split
    · cases isParent : node.parent with
      | none => rfl
      | some access =>
          obtain ⟨accessOutside, other⟩ := outside_parent target node access outside isParent
          rw [Option.map_some, Option.bind_some, Option.bind_some, after_enclosing_type target tree access accessOutside other]
          cases access.enclosingType? <;> rfl
    · rfl
  · exact after_ancestors_or_self target tree node outside

theorem after_member_of_this (node : Node) (outside : target.Outside node) (long : "this".utf8ByteSize < target.focus.length)
    (ofThis : isMemberOfThis node) : isMemberOfThis (target.after tree node) := by
  obtain ⟨memberName, this⟩ := Bool.and_eq_true_iff.mp ofThis
  obtain ⟨receiver, isReceiver, reads⟩ := (Option.any_eq_true _ _).mp this
  obtain ⟨access, isParent, isFirst⟩ := Option.bind_eq_some_iff.mp isReceiver
  obtain ⟨accessOutside, other⟩ := outside_parent target node access outside isParent
  have receiverOutside := outside_child target access receiver accessOutside other (List.mem_of_head? isFirst)
  have size : receiver.focus.length = "this".utf8ByteSize := by
    rw [← Tree.utf8ByteSize_text]
    exact congrArg String.utf8ByteSize (eq_of_beq reads)
  have aside := aside_of_shorter target receiver receiverOutside (size ▸ long)
  have first : (target.after tree access).firstChild? = some (target.after tree receiver) := by
    rw [firstChild?, after_children target tree access accessOutside other, List.head?_map]
    exact congrArg _ isFirst
  refine Bool.and_eq_true_iff.mpr ⟨(after_member_name target tree node outside).trans memberName, ?_⟩
  rw [after_parent target tree node outside, isParent, Option.map_some, Option.bind_some, first, Option.any_some, text,
    after_focus target tree receiver aside]
  exact reads

theorem after_asked (node : Node) (outside : target.Outside node) (long : "this".utf8ByteSize < target.focus.length)
    (asked : searched (isMemberOfThis node) node ≠ []) :
    searched (isMemberOfThis (target.after tree node)) (target.after tree node) =
      (searched (isMemberOfThis node) node).map (target.after tree) := by
  cases ofThis : isMemberOfThis node with
  | true =>
      rw [after_member_of_this target tree node outside long ofThis]
      exact after_searched target tree node outside true
  | false =>
      have bare : node.isMemberName = false := by
        refine Bool.eq_false_iff.mpr fun memberName => asked ?_
        rw [ofThis, searched, if_pos memberName]
        rfl
      rw [← after_searched target tree node outside]
      unfold searched
      rw [after_member_name target tree node outside, bare]
      rfl

end Scope

end

namespace Scope

theorem parameter_below (owner parameter : Node) (member : parameter ∈ parameterNodes owner) :
    parameter ∈ owner.descendants ∧ parameter.kind = .parameter := by
  unfold parameterNodes at member
  split at member
  · obtain ⟨isChild, isParameter⟩ := List.mem_filter.mp member
    exact ⟨Node.below_of_child owner owner parameter List.mem_cons_self isChild, eq_of_beq isParameter⟩
  · cases found : owner.childOfKind? .parameterList with
    | none =>
        rw [found] at member
        cases member
    | some list =>
        rw [found] at member
        obtain ⟨isChild, isParameter⟩ := List.mem_filter.mp member
        have inOwner := Node.below_of_child owner owner list List.mem_cons_self (List.mem_of_find?_eq_some found)
        have inList := Node.below_of_child owner list parameter (List.mem_cons_of_mem _ inOwner) isChild
        exact ⟨inList, eq_of_beq isParameter⟩

theorem declared_below (member node : Node) (declares : node ∈ memberDeclarations member) :
    node ∈ member.descendantsOrSelf ∧ (node.kind = .propertyDecl → node = member) := by
  unfold memberDeclarations at declares
  split at declares
  · obtain ⟨below, isDeclarator⟩ := List.mem_filter.mp declares
    refine ⟨List.mem_cons_of_mem _ below, fun isProperty => ?_⟩
    rw [isProperty] at isDeclarator
    cases isDeclarator
  · exact ⟨List.mem_singleton.mp declares ▸ List.mem_cons_self, fun _ => List.mem_singleton.mp declares⟩
  · exact ⟨List.mem_singleton.mp declares ▸ List.mem_cons_self, fun _ => List.mem_singleton.mp declares⟩
  · cases declares

theorem declarations_below (scope node : Node) (member : node ∈ declarations scope) : node ∈ scope.descendantsOrSelf := by
  unfold declarations at member
  split at member
  · rcases List.mem_append.mp member with isParameter | isLocal
    · exact List.mem_cons_of_mem _ (parameter_below scope node isParameter).1
    · exact (List.mem_filter.mp isLocal).1
  · split at member
    · obtain ⟨child, isChild, declares⟩ := List.mem_flatMap.mp member
      have inScope := Node.below_of_child scope scope child List.mem_cons_self isChild
      exact Node.below_trans scope child node (List.mem_cons_of_mem _ inScope) (declared_below child node declares).1
    · cases member

theorem property_in_type (scope property : Node) (member : property ∈ declarations scope)
    (isProperty : property.kind = .propertyDecl) : scope.kind.isTypeWithMembers ∧ property ∈ scope.children := by
  unfold declarations at member
  split at member
  · rcases List.mem_append.mp member with isParameter | isLocal
    · exact absurd (isProperty.symm.trans (parameter_below scope property isParameter).2) (by decide)
    · have sort := (Bool.and_eq_true_iff.mp (List.mem_filter.mp isLocal).2).1
      rw [isProperty] at sort
      cases sort
  · split at member
    · rename_i isType
      obtain ⟨child, isChild, declares⟩ := List.mem_flatMap.mp member
      exact ⟨isType, (declared_below child property declares).2 isProperty ▸ isChild⟩
    · cases member

theorem declarations_of_type (type : Node) (isType : type.kind.isTypeWithMembers) :
    declarations type = type.children.flatMap memberDeclarations := by
  have notOwner : type.kind.isBodyOwner = false := by
    cases kind : type.kind <;> first | rfl | (rw [kind] at isType; cases isType)
  unfold declarations
  rw [if_neg (Bool.eq_false_iff.mp notOwner), if_pos isType]

theorem searched_above (ofThis : Bool) (node scope : Node) (member : scope ∈ searched ofThis node) :
    scope ∈ node.ancestorsOrSelf := by
  unfold searched at member
  split at member
  · split at member
    · obtain ⟨access, isParent, around⟩ := Option.bind_eq_some_iff.mp (Option.mem_toList.mp member)
      rw [Node.ancestorsOrSelf, Node.ancestors_of_parent node access isParent]
      exact List.mem_cons_of_mem _ (List.mem_of_find?_eq_some around)
    · cases member
  · exact member

theorem declaration_found (identifier node : Node) (found : declaration identifier = some node) :
    (∃ scope ∈ searched (isMemberOfThis identifier) identifier, node ∈ declarations scope) ∧ node.SameTree identifier ∧
      declares identifier.text node := by
  obtain ⟨scope, asked, member⟩ := List.mem_flatMap.mp (List.mem_of_find?_eq_some found)
  refine ⟨⟨scope, asked, member⟩, ?_, by simpa using List.find?_some found⟩
  have inScope := Node.same_tree_of_descendant scope node (declarations_below scope node member)
  rcases List.mem_cons.mp (searched_above _ identifier scope asked) with rfl | above
  · exact inScope
  · exact Node.same_tree_trans inScope (Node.same_tree_of_ancestor scope identifier above)

theorem after_declaration (target : Node) (tree : Tree) (node declaring : Node) (aside : target.AsideOf node)
    (long : "this".utf8ByteSize < target.focus.length) (found : declaration node = some declaring) :
    declaration (target.after tree node) =
      visible? (fun _ => true) ((searched (isMemberOfThis node) node).map (target.after tree)) node.text := by
  obtain ⟨⟨scope, asked, -⟩, -, -⟩ := declaration_found node declaring found
  have outside := (Node.outside_of_aside target node aside).1
  have text : (target.after tree node).text = node.text := congrArg Tree.text (Node.after_focus target tree node aside)
  rw [declaration, after_asked target tree node outside long (List.ne_nil_of_mem asked), text]

theorem below_in_order (node type : Node) (front back : List Node) (split : node.ancestorsOrSelf = front ++ type :: back) :
    ∀ scope ∈ front, type ∈ scope.ancestors := by
  induction front generalizing node with
  | nil => exact List.forall_mem_nil _
  | cons first rest ih =>
      obtain ⟨rfl, above⟩ := List.cons.inj split
      rw [List.forall_mem_cons]
      refine ⟨?_, ?_⟩
      · rw [above]
        exact List.mem_append_right _ List.mem_cons_self
      · cases isParent : node.parent with
        | none =>
            obtain ⟨snapshot, focus, context⟩ := node
            cases context with
            | nil => cases rest <;> cases above
            | cons _ _ => cases isParent
        | some parent =>
            rw [Node.ancestors_of_parent node parent isParent] at above
            exact ih parent above

theorem searched_in_order (ofThis : Bool) (node type : Node) (front back : List Node)
    (split : searched ofThis node = front ++ type :: back) : ∀ scope ∈ front, type ∈ scope.ancestors := by
  unfold searched at split
  split at split
  · -- In member position, no more than one type is asked.
    have short : (front ++ type :: back).length ≤ 1 := by
      rw [← split]
      split
      · cases node.parent.bind Node.enclosingType? <;> simp
      · exact Nat.zero_le 1
    rw [List.length_append, List.length_cons] at short
    rw [List.length_eq_zero_iff.mp (by omega : front.length = 0)]
    exact List.forall_mem_nil _
  · exact below_in_order node type front back split

theorem visible_all (scopes : List Node) (name : String) :
    visible? (fun _ => true) scopes name = (scopes.flatMap declarations).find? (declares name) :=
  congrArg (List.find? · _) (funext fun _ => Bool.true_and _)

theorem asked_property (target : Node) (tree : Tree) (isProperty : (target.after tree target).kind = .propertyDecl)
    (scopes : List Node) (outside : ∀ scope ∈ scopes, target.Outside scope ∧ scope ≠ target)
    (asked : target.after tree target ∈ (scopes.map (target.after tree)).flatMap declarations) :
    ∃ type ∈ scopes, target.parent = some type ∧ type.kind.isTypeWithMembers := by
  obtain ⟨_, isScope, declares⟩ := List.mem_flatMap.mp asked
  obtain ⟨scope, member, rfl⟩ := List.mem_map.mp isScope
  obtain ⟨isType, isChild⟩ := property_in_type _ _ declares isProperty
  have isParentAfter := Node.parent_of_child _ _ isChild
  rw [Node.after_parent target tree target (Node.outside_self target)] at isParentAfter
  obtain ⟨type, isParent, same⟩ := Option.map_eq_some_iff.mp isParentAfter
  obtain ⟨scopeOutside, other⟩ := outside scope member
  have inTree := (Node.outside_parent target target type (Node.outside_self target) isParent).1.inTree
  obtain rfl : type = scope := by
    refine Node.eq_of_path type scope (Node.same_tree_trans inTree (Node.same_tree_symm scopeOutside.inTree)) ?_
    rw [← Node.after_path target tree type, same, Node.after_path]
  exact ⟨type, member, isParent, by rwa [Node.after_kind target tree type other] at isType⟩

section
variable (target : Node) (tree : Tree) (type : Node) (isParent : target.parent = some type)
  (isType : type.kind.isTypeWithMembers)
include isParent isType

theorem asked_through (scopes front back : List Node) (split : scopes = front ++ type :: back)
    (apart : ∀ scope ∈ front, target.AsideOf scope) : ∃ earlier later later',
      scopes.flatMap declarations = earlier ++ (memberDeclarations target ++ later) ∧
      (scopes.map (target.after tree)).flatMap declarations =
        earlier.map (target.after tree) ++ (memberDeclarations (target.after tree target) ++ later') ∧
      ∀ node ∈ earlier, target.AsideOf node := by
  obtain ⟨left, right, members⟩ := List.append_of_mem ((Node.mem_children_iff type target).mpr isParent)
  have siblings (member : Node) (inLeft : member ∈ left) : target.AsideOf member := by
    refine Node.aside_of_member target type member isParent (members ▸ List.mem_append_left _ inLeft) ?_
    rintro rfl
    have different := Node.children_nodup type
    rw [members] at different
    exact (List.nodup_append.mp different).2.2 member inLeft member List.mem_cons_self rfl
  obtain ⟨typeOutside, other⟩ := Node.outside_parent target target type (Node.outside_self target) isParent
  have typeAfter : (target.after tree type).kind.isTypeWithMembers := by rwa [Node.after_kind target tree type other]
  have inFront : (front.map (target.after tree)).flatMap declarations = (front.flatMap declarations).map (target.after tree) :=
    flat_map_map _ _ _ _ _ fun scope member => after_declarations target tree scope (apart scope member)
  have inLeft : (left.map (target.after tree)).flatMap memberDeclarations =
      (left.flatMap memberDeclarations).map (target.after tree) :=
    flat_map_map _ _ _ _ _ fun member isLeft => after_member_declarations target tree member (siblings member isLeft)
  refine ⟨front.flatMap declarations ++ left.flatMap memberDeclarations,
    right.flatMap memberDeclarations ++ back.flatMap declarations,
    (right.map (target.after tree)).flatMap memberDeclarations ++ (back.map (target.after tree)).flatMap declarations, ?_, ?_, ?_⟩
  · rw [split, List.flatMap_append, List.flatMap_cons, declarations_of_type type isType, members, List.flatMap_append,
      List.flatMap_cons]
    simp only [List.append_assoc]
  · rw [split, List.map_append, List.map_cons, List.flatMap_append, List.flatMap_cons, inFront,
      declarations_of_type _ typeAfter, Node.after_children target tree type typeOutside other, members, List.map_append,
      List.map_cons, List.flatMap_append, List.flatMap_cons, inLeft, List.map_append]
    simp only [List.append_assoc]
  · intro node earlier
    rcases List.mem_append.mp earlier with asked | declared
    · obtain ⟨scope, member, declares⟩ := List.mem_flatMap.mp asked
      exact Node.aside_below target scope node (apart scope member) (declarations_below scope node declares)
    · obtain ⟨member, isLeft, declares⟩ := List.mem_flatMap.mp declared
      exact Node.aside_below target member node (siblings member isLeft) (declared_below member node declares).1

theorem visible_through (scopes front back : List Node) (split : scopes = front ++ type :: back)
    (apart : ∀ scope ∈ front, target.AsideOf scope) (name : String) (declarator : Node)
    (found : visible? (fun _ => true) scopes name = some declarator) (own : declarator ∈ memberDeclarations target)
    (node : Node) (rest : List Node) (new : memberDeclarations (target.after tree target) = node :: rest)
    (named : declares name node) : visible? (fun _ => true) (scopes.map (target.after tree)) name = some node := by
  obtain ⟨earlier, later, later', before, after, aside⟩ :=
    asked_through target tree type isParent isType scopes front back split apart
  rw [visible_all, before, List.find?_append] at found
  have nothing : earlier.find? (declares name) = none := by
    cases first : earlier.find? (declares name) with
    | none => rfl
    | some other =>
        rw [first, Option.some_or] at found
        obtain rfl := Option.some.inj found
        have above := (Node.mem_descendants_or_self_iff target other).mp (declared_below target other own).1
        exact absurd above (aside other (List.mem_of_find?_eq_some first)).notBelow
  have nothing' : (earlier.map (target.after tree)).find? (declares name) = none := by
    rw [find_map _ (declares name) _ _ fun node member => after_declares target tree node (aside node member) name, nothing]
    rfl
  rw [visible_all, after, List.find?_append, nothing', Option.none_or, new]
  exact List.find?_cons_of_pos named

end

end Scope

end SmellCheck
