import Mathlib.Algebra.Ring.Nat
import Mathlib.Data.List.Basic
import SmellCheck.Proofs.ChildNodes
import SmellCheck.Proofs.ShimLinks
import SmellCheck.Proofs.Spared
import SmellCheck.Repair

/-!
Child counts under removals. Redundant guards are spliced and assignments of lambdas are removed
wherever they stand, whatever their parent is; so a node that stays has afterwards as many child nodes
as its children leave, one for each child that stays and, for a guard, one for each node of its body.
-/

set_option autoImplicit false

namespace SmellCheck

def Request.leaves (done : List Request) (node : Node) : Nat :=
  ((Request.fill node.focus.toElement (Request.on? done node.path)).filterMap Element.asNode?).length

theorem successors_of_request (rewritten : Tree) (request? : Option Request) :
    Edit.successors rewritten (request?.map Request.edit) =
      (Request.fill rewritten.toElement request?).filterMap Element.asNode? := by
  have trees : ∀ nodes : List Tree, (nodes.map Tree.toElement).filterMap Element.asNode? = nodes := by
    intro nodes
    rw [List.filterMap_map]
    exact List.filterMap_some
  cases request? with
  | none => rfl
  | some request =>
      cases request with
      | replace target nodes =>
          refine Eq.trans ?_ (trees nodes).symm
          cases nodes <;> rfl
      | splice target elements => cases elements <;> rfl
      | insertBefore target nodes =>
          refine Eq.trans ?_ (List.filterMap_append).symm
          rw [trees]
          rfl
      | insertAfter target nodes => exact congrArg (List.cons rewritten) (trees nodes).symm
      | remove target => rfl

theorem fill_count (first second : Tree) (request? : Option Request) :
    ((Request.fill first.toElement request?).filterMap Element.asNode?).length =
      ((Request.fill second.toElement request?).filterMap Element.asNode?).length := by
  cases request? with
  | none => rfl
  | some request => cases request <;> simp [Request.fill, List.filterMap_append, as_node_to_element]

theorem child_count (done : List Request) (node : Node) :
    (node.rewritten (done.map Request.planned)).children.length = (node.children.map (Request.leaves done)).sum := by
  have count : ∀ child : Node, (child.successors (done.map Request.planned)).length = Request.leaves done child := by
    intro child
    rw [Node.successors, Session.edits_from_requests, successors_of_request]
    exact fill_count _ _ _
  rw [← List.length_map (f := Node.focus), Node.children_focus, Node.rewritten_subtrees, List.length_flatMap]
  exact congrArg List.sum (List.map_congr_left fun child _ => count child)

namespace Fix

def guardRequest (guard : Node) : Request :=
  .splice guard (guard.lastChild?.elim [] fun body => unwrappedBody body.focus)

-- What the fixes that remove statements ask of their sessions.
def removals (rule : Rule) (home : Node) : List Request :=
  match rule with
  | .unnecessaryShimsContext =>
      if home.isRedundantGuard then (home.classScope.descendantsOrSelf.filter Node.isRedundantGuard).map guardRequest
      else []
  | .removeFakes => (ShimChain.find? home).elim [] fun chain => chain.links.map fun link => .remove link.statement
  | _ => []

def removed (rule : Rule) (home : Node) : List Request := (Session.start home).accepted (removals rule home)

theorem removal_applied (rule : Rule) (removing : rule = .unnecessaryShimsContext ∨ rule = .removeFakes) (fixer : Fixer)
    (fixable : ofRule? rule = some fixer) (home : Node) :
    (fixer home).getD home.root = ((Session.start home).run (removals rule home)).apply := by
  rcases removing with rfl | rfl
  · cases fixable
    by_cases redundant : home.isRedundantGuard
    · have planned := Session.plan_all_eq_run (Session.start home) guardRequest
        (home.classScope.descendantsOrSelf.filter Node.isRedundantGuard)
      rw [removeGuards, removals, if_neg (by simp [redundant]), if_pos redundant, ← Session.apply_if_any_of_run, ← planned,
        ← Session.start_same _ _ (same_tree_of_class_scope home)]
      rfl
    · rw [removeGuards, removals, if_pos (by simp [redundant]), if_neg redundant]
      exact (Session.apply_nothing home).symm
  · cases fixable
    cases found : ShimChain.find? home with
    | none =>
        simp only [removeFakes, removals, found]
        exact (Session.apply_nothing home).symm
    | some chain =>
        have planned := Session.plan_all_eq_run (Session.start home) (fun link => .remove link.statement) chain.links
        simp only [removeFakes, removals, found]
        rw [← Session.start_same _ _ (chain_within home chain found).1] at planned ⊢
        exact congrArg Session.apply planned

theorem guard_requests (home : Node) (redundant : home.isRedundantGuard) :
    (∀ request, request ∈ removals .unnecessaryShimsContext home ↔
      ∃ guard ∈ home.classScope.descendantsOrSelf, guard.isRedundantGuard ∧ guardRequest guard = request) ∧
    (removals .unnecessaryShimsContext home).Pairwise fun earlier later => later.target ∉ earlier.target.ancestors := by
  rw [removals, if_pos redundant]
  constructor
  · intro request
    simp only [List.mem_map, List.mem_filter, and_assoc]
  · rw [List.pairwise_map]
    exact (Node.descendants_ordered home.classScope).filter _

theorem guard_above (home guard : Node) (redundant : home.isRedundantGuard) (isGuard : guard.isRedundantGuard)
    (below : guard ∈ home.classScope.descendantsOrSelf) (inner : guard.isRoot = false) :
    ∃ outer ∈ guard.ancestorsOrSelf, guardRequest outer ∈ removed .unnecessaryShimsContext home := by
  obtain ⟨asked, ordered⟩ := guard_requests home redundant
  have tree := same_tree_in_scope home guard below
  obtain ⟨planned, goes, above⟩ := Session.accepted_above home _ ordered (guardRequest guard)
    ((asked _).mpr ⟨guard, below, isGuard, rfl⟩) tree inner
  obtain ⟨outer, -, -, rfl⟩ := (asked planned).mp (Session.mem_accepted _ _ _ goes)
  exact ⟨outer, above, goes⟩

theorem guard_removed_iff (home node child : Node) (redundant : home.isRedundantGuard)
    (stays : ∀ request ∈ removed .unnecessaryShimsContext home, request.target ∉ node.ancestorsOrSelf)
    (isChild : child ∈ node.children) :
    guardRequest child ∈ removed .unnecessaryShimsContext home ↔
      child.isRedundantGuard ∧ child ∈ home.classScope.descendantsOrSelf := by
  constructor
  · intro goes
    obtain ⟨guard, below, isGuard, same⟩ := ((guard_requests home redundant).1 _).mp (Session.mem_accepted _ _ _ goes)
    obtain rfl : guard = child := congrArg Request.target same
    exact ⟨isGuard, below⟩
  · rintro ⟨isGuard, below⟩
    obtain ⟨asked, ordered⟩ := guard_requests home redundant
    have tree := same_tree_in_scope home child below
    obtain ⟨planned, goes, atChild⟩ := Session.accepted_at home node _ ordered stays (guardRequest child)
      ((asked _).mpr ⟨child, below, isGuard, rfl⟩) tree (Node.parent_of_child node child isChild)
    obtain ⟨guard, -, -, rfl⟩ := (asked planned).mp (Session.mem_accepted _ _ _ goes)
    obtain rfl : guard = child := atChild
    exact goes

theorem leaves_one_each (gone : List Request) (node : Node)
    (within : ∀ request ∈ gone, request.target.SameTree node)
    (one : ∀ request ∈ gone, request.target ∈ node.children → Request.leaves gone request.target = 1) :
    (node.children.map (Request.leaves gone)).sum = node.children.length := by
  have each : ∀ child ∈ node.children, Request.leaves gone child = 1 := by
    intro child isChild
    cases found : Request.on? gone child.path with
    | none =>
        rw [Request.leaves, found]
        rfl
    | some request =>
        obtain ⟨member, path⟩ := Session.on_eq_some _ _ found
        have tree := Node.same_tree_trans (within request member) (Node.same_tree_symm (Node.same_tree_of_child node child isChild))
        obtain rfl : request.target = child := Node.eq_of_path _ _ tree path
        exact one request member isChild
  rw [List.map_congr_left each, List.map_const', List.sum_replicate_nat, Nat.mul_one]

end Fix

namespace Catalog

open SmellCheck.Fix

-- A node that stays has as many child nodes as its children leave; that is the number it had where
-- each child that goes gives way to one node.
theorem fix_child_counts (catalog : Catalog) (rule : Rule) (removing : rule = .unnecessaryShimsContext ∨ rule = .removeFakes)
    (home node : Node) (result : Tree) (fixed : catalog.fix rule.id home = .ok result) (same : node.SameTree home)
    (stays : ∀ request ∈ removed rule home, request.target ∉ node.ancestorsOrSelf) :
    let gone := removed rule home
    let after := node.rewritten (gone.map Request.planned)
    after.root = result ∧ after.kind = node.kind ∧
      after.children.length = (node.children.map (Request.leaves gone)).sum ∧
      ((∀ request ∈ gone, request.target ∈ node.children → Request.leaves gone request.target = 1) →
        after.children.length = node.children.length) ∧
      (rule = .unnecessaryShimsContext → home.isRedundantGuard → ∀ child ∈ node.children,
        guardRequest child ∈ gone ↔ child.isRedundantGuard ∧ child ∈ home.classScope.descendantsOrSelf) := by
  intro gone after
  have reached := Session.reached_history home (removals rule home)
  have within : ∀ request ∈ gone, request.target.SameTree home := fun request member => (reached.within request member).1
  have counted := child_count gone node
  refine ⟨?_, Node.rewritten_kind _ node, counted, ?_, ?_⟩
  · obtain ⟨rule', fixer, sameId, fixable, rfl⟩ := fix_ok catalog rule.id home result fixed
    obtain rfl : rule = rule' := Rule.id_injective _ _ sameId
    have survives := Session.survives_of_spared home node gone same within fun request member _ => stays request member
    rw [removal_applied rule removing fixer fixable home, Session.apply, reached.root, reached.edits, ← same.2]
    exact Node.rewritten_root _ node survives
  · intro one
    exact counted.trans (leaves_one_each gone node
      (fun request member => Node.same_tree_trans (within request member) (Node.same_tree_symm same)) one)
  · rintro rfl redundant child isChild
    exact guard_removed_iff home node child redundant stays isChild

end Catalog

namespace Guarded

def guard (statements : List Tree) : Tree :=
  Build.usingStmt (Build.invocation (Build.memberAccess (Build.identifierName "ShimsContext") "Create") [])
    (Build.block statements)

def body : Frame := ⟨Kind.block.raw, [Build.space, Build.punct "\x7b"], [Build.space, Build.punct "\x7d"]⟩

def conditional (statements : List Tree) : Node :=
  ⟨0, Build.ifStmt (Build.identifierName "c") (guard statements) none, [body]⟩

def branch (statements : List Tree) : Node :=
  ⟨0, guard statements, [⟨Kind.ifStmt.raw, (Build.headed "if" [(Build.identifierName "c").toElement]).reverse, []⟩, body]⟩

def call (name : String) : Tree := Build.exprStmt (Build.identifierName name)

def spliced (statements : List Tree) : Tree :=
  Build.block [Build.tree .ifStmt
    (Build.headed "if" [(Build.identifierName "c").toElement] ++ Build.separatedBy [Build.space] statements)]

end Guarded

namespace Catalog

open SmellCheck.Fix Guarded

theorem one_statement_for_guard :
    let home := branch [call "a"]
    let node := conditional [call "a"]
    let gone := removed .unnecessaryShimsContext home
    builtin.fix Rule.unnecessaryShimsContext.id home = .ok (spliced [call "a"]) ∧ gone = [guardRequest home] ∧
      (∀ request ∈ gone, request.target ∉ node.ancestorsOrSelf) ∧
      (node.rewritten (gone.map Request.planned)).children.length = node.children.length := by
  intro home node gone
  have redundant : (branch [call "a"]).isRedundantGuard := by cbv
  have guards : (branch [call "a"]).classScope.descendantsOrSelf.filter Node.isRedundantGuard = [branch [call "a"]] := by
    decide_cbv
  have fixed : builtin.fix Rule.unnecessaryShimsContext.id home = .ok (spliced [call "a"]) := by
    have rewritten : removeGuards (branch [call "a"]) = some (spliced [call "a"]) := by
      simp only [removeGuards, redundant, guards]
      decide
    exact builtin_fix .unnecessaryShimsContext removeGuards rfl _ _ rewritten
  have all : gone = [guardRequest home] := by
    show removed .unnecessaryShimsContext (branch [call "a"]) = [guardRequest (branch [call "a"])]
    rw [removed, removals, if_pos redundant, guards]
    decide
  have stays : ∀ request ∈ gone, request.target ∉ node.ancestorsOrSelf := by
    rw [all]
    decide
  have counts := fix_child_counts builtin .unnecessaryShimsContext (.inl rfl) home node _ fixed ⟨rfl, rfl⟩ stays
  refine ⟨fixed, all, stays, counts.2.2.2.1 ?_⟩
  rw [show removed .unnecessaryShimsContext home = [guardRequest home] from all]
  decide

theorem two_statements_for_guard :
    let home := branch [call "a", call "b"]
    let node := conditional [call "a", call "b"]
    let after := node.rewritten ((removed .unnecessaryShimsContext home).map Request.planned)
    (∀ other ∈ (Node.ofRoot 0 home.root).descendantsOrSelf,
        (other.kind = .ifStmt ∨ other.kind = .usingStmt → other.children.length = 2) ∧
          other.kind ∉ [Kind.elseClause, .whileStmt, .forEachStmt]) ∧
      builtin.fix Rule.unnecessaryShimsContext.id home = .ok (spliced [call "a", call "b"]) ∧
      (∀ request ∈ removed .unnecessaryShimsContext home, request.target ∉ node.ancestorsOrSelf) ∧
      after.root = spliced [call "a", call "b"] ∧ after.kind = .ifStmt ∧ after.children.length = 3 := by
  have redundant : (branch [call "a", call "b"]).isRedundantGuard := by cbv
  have guards : (branch [call "a", call "b"]).classScope.descendantsOrSelf.filter Node.isRedundantGuard =
      [branch [call "a", call "b"]] := by
    decide_cbv
  have all : removed .unnecessaryShimsContext (branch [call "a", call "b"]) = [guardRequest (branch [call "a", call "b"])] := by
    rw [removed, removals, if_pos redundant, guards]
    decide
  have rewritten : removeGuards (branch [call "a", call "b"]) = some (spliced [call "a", call "b"]) := by
    simp only [removeGuards, redundant, guards]
    decide
  have fixed := builtin_fix .unnecessaryShimsContext removeGuards rfl _ _ rewritten
  dsimp only
  rw [all]
  exact ⟨by decide, fixed, by decide, by decide, by decide, by decide⟩

end Catalog

end SmellCheck
