import SmellCheck.Proofs.ChildCounts
import SmellCheck.Proofs.ConfinedRepair
import SmellCheck.Proofs.Spots

/-!
Removed fakes. Where every expression statement is one expression, the statements that assign lambdas to
the members of one receiver are told by their own trees. A removal takes those of the class away and
nothing else, white space aside: the member that comes first belongs to the outermost statement, so no
removal is asked for before one around it.
-/

set_option autoImplicit false

namespace SmellCheck

namespace Tree

def fake? (statement : Tree) : Option Tree :=
  match statement.subtrees with
  | [assignment] =>
      match assignment.subtrees with
      | member :: value :: _ =>
          if statement.kind = .exprStmt ∧ assignment.kind = .assignment ∧ member.kind = .memberAccess ∧ value.kind.isLambda then
            some member
          else none
      | _ => none
  | _ => none

def receiver? (member : Tree) : Option String := member.subtrees.head?.map (Text.trim ·.text)

def fakesLike (member statement : Tree) : Bool :=
  member.receiver?.isSome && statement.fake?.any fun other => other.receiver? == member.receiver?

end Tree

mutual
-- The element without the nodes that go, at any depth.
def Element.without (goes : Tree → Bool) : Element → List Element
  | .token raw text => [.token raw text]
  | .node raw children => if goes ⟨raw, children⟩ then [] else [.node raw (Forest.without goes children)]

def Forest.without (goes : Tree → Bool) : List Element → List Element
  | [] => []
  | element :: rest => element.without goes ++ Forest.without goes rest
end

def Tree.without (goes : Tree → Bool) (tree : Tree) : Tree := ⟨tree.raw, Forest.without goes tree.children⟩

theorem forest_without_eq (goes : Tree → Bool) (forest : List Element) (index : Nat) :
    Forest.without goes forest = (forest.zipIdx index).flatMap fun (element, _) => element.without goes := by
  induction forest generalizing index with
  | nil => rfl
  | cons element rest ih => rw [Forest.without, ih, List.zipIdx_cons, List.flatMap_cons]

theorem substitute_without (done : List Request) (goes : Tree → Bool) (node : Node)
    (removals : ∀ request ∈ done, request = .remove request.target) (within : ∀ request ∈ done, request.target.SameTree node)
    (exact : ∀ parent ∈ node.descendantsOrSelf, parent.Spared done → ∀ child ∈ parent.children,
      (goes child.focus ↔ .remove child ∈ done))
    (spared : node.Spared done) :
    (node.focus.substitute fun path => Request.on? done (node.path ++ path)) = node.focus.without goes := by
  induction node using Node.induction_down with
  | step node ih =>
      refine congrArg (Tree.mk node.focus.raw) ?_
      rw [forest_substitute_eq, forest_without_eq goes _ 0]
      refine List.flatMap_congr ?_
      rintro ⟨element, index⟩ member
      have found := List.mem_zipIdx_iff_getElem?.mp member
      cases element with
      | token raw text => rfl
      | node raw children =>
          obtain ⟨child, isChild, focus, path, childWithin, planned⟩ :=
            node.spared_child done within spared index ⟨raw, children⟩ found
          have goesIff := exact node List.mem_cons_self spared child isChild
          rw [focus] at goesIff
          show Request.fill _ (Request.on? done (node.path ++ [index])) = Element.without goes (.node raw children)
          rw [← path, Element.without]
          rcases planned with ⟨request, member, target, planned⟩ | ⟨free, childSpared⟩
          · have removed := removals request member
            rw [target] at removed
            rw [planned, removed, if_pos (goesIff.mpr (removed ▸ member))]
            rfl
          · have stays : ¬ goes ⟨raw, children⟩ := fun gone =>
              List.find?_eq_none.mp free _ (goesIff.mp gone) (beq_self_eq_true _)
            have inside := ih child isChild childWithin
              (fun parent below => exact parent (Node.below_trans node child parent (Node.child_below node child isChild) below)) childSpared
            rw [focus, path] at inside
            simp only [List.append_assoc, List.singleton_append] at inside
            rw [free, if_neg stays]
            exact congrArg (fun tree : Tree => [tree.toElement]) inside

namespace Node

theorem first_child_first (node first below : Node) (isFirst : node.firstChild? = some first) (member : below ∈ node.descendants) :
    ¬ below.path < first.path := by
  have order := descendants_in_order node
  obtain ⟨rest, children⟩ : ∃ rest, node.children = first :: rest := List.head?_eq_some_iff.mp isFirst
  rw [descendantsOrSelf, descendants_eq, children, List.flatMap_cons] at order
  rw [descendants_eq, children, List.flatMap_cons] at member
  have after := (List.pairwise_cons.mp (List.pairwise_cons.mp order).2).1
  rcases List.mem_cons.mp member with rfl | later
  · exact List.lt_irrefl _
  · exact List.lt_asymm (after below later)

def FakedIn (member statement : Node) : Prop :=
  ∃ assignment, member.parent = some assignment ∧ assignment.parent = some statement ∧ assignment.firstChild? = some member ∧
    statement.focus.fake?.isSome

end Node

theorem receiver_focus (node : Node) : node.focus.receiver? = node.firstChild?.map Node.trimmed := by
  rw [Tree.receiver?, ← first_child_focus, Option.map_map]
  rfl

namespace Fix

section
variable (home : Node) (single : ∀ node ∈ home.wholeTree, node.kind = .exprStmt → node.children.length = 1)
include single

theorem only_assignment (target assignment : Node) (link : ShimLink) (shape : link.Shape target assignment)
    (same : link.statement.SameTree home) : link.statement.children = [assignment] := by
  obtain ⟨only, children⟩ := List.length_eq_one_iff.mp (single _ (Node.mem_whole_tree home _ same) shape.isStatement)
  have isChild := (Node.mem_children_iff _ _).mpr shape.statement
  rw [children] at isChild ⊢
  rw [List.mem_singleton.mp isChild]

theorem fake_iff (statement : Node) (same : statement.SameTree home) (member : Tree) :
    statement.focus.fake? = some member ↔ ∃ access link, ShimLink.of? access = some link ∧ link.statement = statement ∧
      access.kind = .memberAccess ∧ access.focus = member := by
  constructor
  · intro found
    unfold Tree.fake? at found
    split at found
    · rename_i assigned only
      split at found
      · rename_i first value rest parts
        split at found
        · rename_i kinds
          obtain ⟨isStatement, isAssignment, isMember, isLambda⟩ := kinds
          cases found
          rw [← Node.children_focus] at only
          obtain ⟨assignment, children, rfl⟩ := List.map_eq_singleton_iff.mp only
          rw [← Node.children_focus] at parts
          obtain ⟨access, others, inside, rfl, later⟩ := List.map_eq_cons_iff.mp parts
          obtain ⟨lambda, others, rfl, rfl, -⟩ := List.map_eq_cons_iff.mp later
          have statementParent := Node.parent_of_child statement assignment (by simp [children])
          have assignmentParent := Node.parent_of_child assignment access (by simp [inside])
          refine ⟨access, ⟨statement, access, lambda⟩, (link_iff _ _).mpr ⟨assignment, ?_, isLambda, ?_⟩, rfl, isMember, rfl⟩
          · exact ⟨rfl, assignmentParent, isAssignment, by simp [Node.child?, inside], statementParent, isStatement⟩
          · simp [Node.firstChild?, inside]
        · cases found
      · cases found
    · cases found
  · rintro ⟨access, link, isLink, rfl, isMember, rfl⟩
    obtain ⟨assignment, shape, isLambda, first⟩ := (link_iff access link).mp isLink
    have children := only_assignment home single access assignment link shape same
    obtain ⟨others, inside⟩ := List.head?_eq_some_iff.mp first
    have second : others.head? = some link.value := by
      have value := shape.value
      rw [Node.child?, inside] at value
      simpa [List.head?_eq_getElem?] using value
    obtain ⟨rest, rfl⟩ := List.head?_eq_some_iff.mp second
    have subtrees : link.statement.focus.subtrees = [assignment.focus] := by
      rw [← Node.children_focus, children]
      rfl
    have parts : assignment.focus.subtrees = access.focus :: link.value.focus :: rest.map Node.focus := by
      rw [← Node.children_focus, inside]
      rfl
    rw [Tree.fake?, subtrees]
    dsimp only
    rw [parts]
    exact if_pos ⟨shape.isStatement, shape.isAssignment, isMember, isLambda⟩

theorem fakes_like_iff (statement : Node) (same : statement.SameTree home) :
    home.focus.fakesLike statement.focus ↔ ∃ receiver, home.firstChild?.map Node.trimmed = some receiver ∧
      ∃ access link, ShimLink.of? access = some link ∧ link.statement = statement ∧ access.kind = .memberAccess ∧
        access.firstChild?.map Node.trimmed = some receiver := by
  simp only [Tree.fakesLike, Bool.and_eq_true, Option.isSome_iff_exists, Option.any_eq_true, beq_iff_eq, ← receiver_focus]
  constructor
  · rintro ⟨⟨receiver, isReceiver⟩, member, found, sameReceiver⟩
    obtain ⟨access, link, isLink, isStatement, isMember, rfl⟩ := (fake_iff home single statement same member).mp found
    exact ⟨receiver, isReceiver, access, link, isLink, isStatement, isMember, sameReceiver.trans isReceiver⟩
  · rintro ⟨receiver, isReceiver, access, link, isLink, isStatement, isMember, ofAccess⟩
    exact ⟨⟨receiver, isReceiver⟩, access.focus,
      (fake_iff home single statement same _).mpr ⟨access, link, isLink, isStatement, isMember, rfl⟩, ofAccess.trans isReceiver.symm⟩

theorem statements_in_order (first second : Node) (link link' : ShimLink) (isLink : ShimLink.of? first = some link)
    (isLink' : ShimLink.of? second = some link') (same : second.SameTree home) (before : first.path < second.path) :
    link'.statement ∉ link.statement.ancestors := by
  intro around
  obtain ⟨assignment, shape⟩ := link_shape first link isLink
  obtain ⟨assignment', shape', -, isFirst⟩ := (link_iff second link').mp isLink'
  have only := only_assignment home single second assignment' link' shape' (link_within home second link' same isLink').statement
  obtain ⟨child, isChild, within⟩ := (Node.mem_descendants _ _).mp ((Node.mem_descendants_iff _ _).mpr around)
  rw [only] at isChild
  obtain rfl := List.mem_singleton.mp isChild
  have above : child ∈ first.ancestors := by
    rw [Node.ancestors_of_parent first assignment shape.parent, Node.ancestors_of_parent assignment _ shape.statement]
    exact List.mem_cons_of_mem _ ((Node.mem_descendants_or_self_iff _ _).mp within)
  exact Node.first_child_first child second first isFirst ((Node.mem_descendants_iff _ _).mpr above) before

theorem link_of_faked (statement : Node) (faked : home.FakedIn statement) :
    ∃ link, ShimLink.of? home = some link ∧ link.statement = statement := by
  obtain ⟨assignment, isParent, isOuter, first, isFake⟩ := faked
  have same := Node.same_tree_trans (Node.same_tree_of_parent assignment statement isOuter)
    (Node.same_tree_of_parent home assignment isParent)
  obtain ⟨member, found⟩ := Option.isSome_iff_exists.mp isFake
  obtain ⟨access, link, isLink, rfl, -, -⟩ := (fake_iff home single statement same member).mp found
  obtain ⟨assignment', shape, -, first'⟩ := (link_iff access link).mp isLink
  have isChild := (Node.mem_children_iff _ _).mpr isOuter
  rw [only_assignment home single access assignment' link shape same] at isChild
  obtain rfl := List.mem_singleton.mp isChild
  obtain rfl : home = access := Option.some.inj (first.symm.trans first')
  exact ⟨link, isLink, rfl⟩

theorem chain_statement_iff (other : home.root.kind ≠ .exprStmt) (chain : ShimChain) (found : ShimChain.find? home = some chain)
    (place : Node) : (∃ link ∈ chain.links, link.statement = place) ↔
      place ∈ home.classScope.descendants ∧ home.focus.fakesLike place.focus := by
  obtain ⟨receiver, links⟩ := chain_links home chain found
  constructor
  · rintro ⟨link, member, rfl⟩
    obtain ⟨access, isAccess, ofReceiver, isLink⟩ := (links link).mp member
    obtain ⟨below, isMember⟩ := List.mem_filter.mp isAccess
    obtain ⟨assignment, shape⟩ := link_shape access link isLink
    have same := ((chain_within home chain found).2 link member).statement
    have inner := Node.inner_of_kind link.statement (by rw [same.2, shape.isStatement]; exact other)
    have inScope := statement_below_scope home access link (Node.ancestor_of_descendant _ _ below) isLink
    have strictly := Node.strictly_below_scope _ link.statement (Node.class_scope_kind home) inScope (by simp [shape.isStatement]) inner
    exact ⟨(Node.mem_descendants_iff _ _).mpr strictly, (fakes_like_iff home single _ same).mpr
      ⟨_, receiver, access, link, isLink, rfl, eq_of_beq isMember, ofReceiver⟩⟩
  · rintro ⟨below, like⟩
    have same := same_tree_in_scope home place (List.mem_cons_of_mem _ below)
    obtain ⟨receiver', isReceiver, access, link, isLink, rfl, isMember, ofReceiver⟩ := (fakes_like_iff home single _ same).mp like
    obtain ⟨assignment, shape⟩ := link_shape access link isLink
    have assignmentBelow := Node.below_of_child _ _ assignment (List.mem_cons_of_mem _ below) ((Node.mem_children_iff _ _).mpr shape.statement)
    have accessBelow := Node.below_of_child _ _ access (List.mem_cons_of_mem _ assignmentBelow) ((Node.mem_children_iff _ _).mpr shape.parent)
    rw [receiver] at isReceiver
    rw [← Option.some.inj isReceiver] at ofReceiver
    exact ⟨link, (links link).mpr ⟨access, List.mem_filter.mpr ⟨accessBelow, beq_iff_eq.mpr isMember⟩, ofReceiver, isLink⟩, rfl⟩

theorem chain_statements_in_order (chain : ShimChain) (found : ShimChain.find? home = some chain) :
    chain.links.Pairwise fun earlier later => later.statement ∉ earlier.statement.ancestors := by
  have links := (chain_links home chain found).2
  refine (chain_in_order home chain found).imp_of_mem fun {link link'} member member' before => ?_
  obtain ⟨access, -, -, isLink⟩ := (links link).mp member
  obtain ⟨access', -, -, isLink'⟩ := (links link').mp member'
  obtain ⟨assignment, shape⟩ := link_shape access link isLink
  obtain ⟨assignment', shape'⟩ := link_shape access' link' isLink'
  have same := ((chain_within home chain found).2 link' member').target
  rw [shape'.member] at before same
  rw [shape.member] at before
  exact statements_in_order home single access access' link link' isLink isLink' same before

theorem fake_requests (other : home.root.kind ≠ .exprStmt) (statement : Node) (faked : home.FakedIn statement) :
    (∀ request, request ∈ removals .removeFakes home ↔
      ∃ place ∈ home.classScope.descendants, home.focus.fakesLike place.focus ∧ .remove place = request) ∧
    (removals .removeFakes home).Pairwise fun earlier later => later.target ∉ earlier.target.ancestors := by
  obtain ⟨own, isOwn, -⟩ := link_of_faked home single statement faked
  rw [removals]
  cases first : home.firstChild? with
  | none =>
      -- A member of nothing is like no other one, and has no chain.
      have nothing : ShimChain.find? home = none := by simp [ShimChain.find?, isOwn, first]
      have noReceiver : home.focus.receiver? = none := by rw [receiver_focus, first]; rfl
      rw [nothing]
      refine ⟨fun request => ?_, .nil⟩
      constructor
      · intro member
        cases member
      · rintro ⟨place, -, like, -⟩
        rw [Tree.fakesLike, noReceiver] at like
        cases like
  | some child =>
      obtain ⟨chain, found⟩ : ∃ chain, ShimChain.find? home = some chain := by simp [ShimChain.find?, isOwn, first]
      have statements := chain_statement_iff home single other chain found
      rw [found]
      refine ⟨fun request => List.mem_map.trans ?_, List.pairwise_map.mpr (chain_statements_in_order home single chain found)⟩
      constructor
      · rintro ⟨link, member, rfl⟩
        obtain ⟨below, like⟩ := (statements link.statement).mp ⟨link, member, rfl⟩
        exact ⟨link.statement, below, like, rfl⟩
      · rintro ⟨place, below, like, rfl⟩
        obtain ⟨link, member, rfl⟩ := (statements place).mpr ⟨below, like⟩
        exact ⟨link, member, rfl⟩

theorem fake_removed_iff (other : home.root.kind ≠ .exprStmt) (statement : Node) (faked : home.FakedIn statement)
    (node child : Node) (below : node ∈ home.classScope.descendantsOrSelf) (spared : node.Spared (removed .removeFakes home))
    (isChild : child ∈ node.children) : home.focus.fakesLike child.focus ↔ .remove child ∈ removed .removeFakes home := by
  obtain ⟨asked, ordered⟩ := fake_requests home single other statement faked
  have lower := Node.below_of_child _ node child below isChild
  constructor
  · intro like
    have tree := same_tree_in_scope home child (List.mem_cons_of_mem _ lower)
    obtain ⟨planned, goes, atChild⟩ := Session.accepted_at home node _ ordered spared (.remove child)
      ((asked _).mpr ⟨child, lower, like, rfl⟩) tree (Node.parent_of_child node child isChild)
    obtain ⟨place, -, -, rfl⟩ := (asked planned).mp (Session.mem_accepted _ _ _ goes)
    obtain rfl : place = child := atChild
    exact goes
  · intro goes
    obtain ⟨place, -, like, same⟩ := (asked _).mp (Session.mem_accepted _ _ _ goes)
    obtain rfl : place = child := congrArg Request.target same
    exact like

end

end Fix

namespace Catalog

open SmellCheck.Fix

-- Where every expression statement is one expression, and none is the root, the removal of the fakes of a
-- member takes away, white space aside, the statements of the class that assign lambdas to members of the
-- same receiver, at any depth, and nothing else. Both sides are compared by their kinds: a number outside
-- the closed set counts as that of errors, which is what it becomes where its node is written anew.
theorem matching_fakes_removed (catalog : Catalog) (inForce : (catalog.get? .removeFakes).isSome) (home statement : Node)
    (single : ∀ node ∈ home.wholeTree, node.kind = .exprStmt → node.children.length = 1)
    (other : home.root.kind ≠ .exprStmt) (faked : home.FakedIn statement) :
    let scope := home.classScope
    ∃ result, catalog.fix Rule.removeFakes.id home = .ok result ∧
      result.bare = (Frame.rise (scope.focus.without home.focus.fakesLike) scope.context).bare := by
  intro scope
  refine ⟨_, fix_in_force catalog .removeFakes removeFakes rfl inForce home, ?_⟩
  rw [removal_applied .removeFakes (.inr rfl) removeFakes rfl home]
  have scopeTree : scope.SameTree home := same_tree_of_class_scope home
  have reached := Session.reached_history home (removals .removeFakes home)
  have within : ∀ request ∈ removed .removeFakes home, request.target.SameTree scope := fun request member =>
    Node.same_tree_trans (reached.within request member).1 (Node.same_tree_symm scopeTree)
  have strictly : ∀ request ∈ removed .removeFakes home,
      request = .remove request.target ∧ scope ∈ request.target.ancestors := by
    intro request member
    obtain ⟨place, below, -, rfl⟩ :=
      ((fake_requests home single other statement faked).1 request).mp (Session.mem_accepted _ _ _ member)
    exact ⟨rfl, Node.ancestor_of_descendant _ _ below⟩
  have spared : scope.Spared (removed .removeFakes home) := fun request member =>
    Node.not_around scope request.target (strictly request member).2
  have inside := substitute_without (removed .removeFakes home) home.focus.fakesLike scope (fun request member => (strictly request member).1)
    within (fun node below spared child isChild => fake_removed_iff home single other statement faked node child below spared isChild) spared
  have around := substitute_below (Request.on? (removed .removeFakes home)) scope.focus scope.context (by
    intro path planned
    obtain ⟨request, found⟩ := Option.isSome_iff_exists.mp planned
    obtain ⟨member, rfl⟩ := Session.on_eq_some _ _ found
    exact Node.path_of_ancestor scope request.target (strictly request member).2)
  rw [(Session.apply_substitutes home (removals .removeFakes home)).1, ← scopeTree.2]
  exact congrArg Tree.bare (around.trans (congrArg (Frame.rise · scope.context) inside))

theorem nested_fakes_removed :
    let fake (receiver member : String) (body : Tree) := Build.exprStmt
      (Build.assignment (Build.memberAccess (Build.identifierName receiver) member) (Build.simpleLambda "o" body))
    let call := Build.exprStmt (Build.identifierName "b")
    let root := Node.ofRoot 0 (Build.block [fake "S" "A" (Build.block [fake "S" "B" (Build.numberLiteral "1")]),
      fake "T" "A" (Build.block [fake "S" "B" (Build.numberLiteral "1"), call])])
    let statement := (root.child? 0).getD root
    let assignment := (statement.child? 0).getD root
    let home := (assignment.child? 0).getD root
    let result := Build.block [fake "T" "A" (Build.block [call])]
    (builtin.get? .removeFakes).isSome ∧ (∀ node ∈ home.wholeTree, node.kind = .exprStmt → node.children.length = 1) ∧
      home.root.kind ≠ .exprStmt ∧ home.FakedIn statement ∧ builtin.fix Rule.removeFakes.id home = .ok result ∧
      result.bare = (Frame.rise (home.classScope.focus.without home.focus.fakesLike) home.classScope.context).bare := by
  intro fake call root statement assignment home result
  have inForce : (builtin.get? .removeFakes).isSome := by
    rw [builtin_get]
    rfl
  have single : ∀ node ∈ home.wholeTree, node.kind = .exprStmt → node.children.length = 1 := by decide
  have other : home.root.kind ≠ .exprStmt := by decide
  have faked : home.FakedIn statement := ⟨assignment, by decide, by decide, by decide, by decide⟩
  have fixed : builtin.fix Rule.removeFakes.id home = .ok result :=
    builtin_fix .removeFakes removeFakes rfl home result (by decide +kernel)
  obtain ⟨result', fixed', bare⟩ := matching_fakes_removed builtin inForce home statement single other faked
  obtain rfl := Except.ok.inj (fixed.symm.trans fixed')
  exact ⟨inForce, single, other, faked, fixed, bare⟩

end Catalog

end SmellCheck
