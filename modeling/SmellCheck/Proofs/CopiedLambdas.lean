import Mathlib.Data.List.Forall2
import SmellCheck.Proofs.DeclaredConstants
import SmellCheck.Proofs.ShimEntries

/-!
Lambdas in a shim. The statement that is diagnosed gives way to the shim, and everything around it stays
as it is. Each entry of the shim copies a lambda of the class without its first parameter, and the
lambdas that are copied come in the order of the class, none of them twice.
-/

set_option autoImplicit false

namespace SmellCheck

namespace Tree

def parameters (lambda : Tree) : List Tree :=
  let owner? := if lambda.kind = .simpleLambda then some lambda else lambda.subtrees.find? (·.kind == .parameterList)
  owner?.elim [] fun owner => owner.subtrees.filter (·.kind == .parameter)

def body? (lambda : Tree) : Option Tree := lambda.subtrees.getLast?

end Tree

namespace Fix

-- The parameters of a link's lambda without the first one, which stands for the instance.
def ShimLink.otherParameters (link : ShimLink) : List Tree :=
  if link.value.kind = .simpleLambda then [] else link.value.focus.parameters.tail

-- The entry sets the member of the link up with a lambda that has the other parameters and the body of the link's.
structure ShimLink.CopiedTo (link : ShimLink) (entry : Tree) : Prop where
  isAssignment : entry.kind = .assignment
  name : entryName? entry = link.member?
  lambda : ∃ value body, entry.subtrees[1]? = some value ∧ value.kind = .parenLambda ∧
    value.parameters = link.otherParameters ∧ value.body? = some body ∧ link.value.focus.body? = some body

theorem parameter_list_subtrees (parameters : List Tree) : (Build.parameterList parameters).subtrees = parameters := by
  have separated : (Build.commaSeparated parameters).filterMap Element.asNode? = parameters :=
    subtrees_separated _ parameters rfl
  simp only [Build.parameterList, Build.tree, Tree.subtrees, List.cons_append, List.filterMap_cons, List.filterMap_append,
    separated]
  exact List.append_nil _

theorem paren_lambda_parameters (parameters : List Tree) (body : Tree) (all : ∀ part ∈ parameters, part.kind = .parameter) :
    (Build.parenLambda (Build.parameterList parameters) body).parameters = parameters := by
  have isLambda : (Build.parenLambda (Build.parameterList parameters) body).kind = .parenLambda := tree_kind _ _
  have isList : (Build.parameterList parameters).kind = .parameterList := tree_kind _ _
  have subtrees : (Build.parenLambda (Build.parameterList parameters) body).subtrees = [Build.parameterList parameters, body] := rfl
  rw [Tree.parameters, isLambda, subtrees, if_neg nofun, List.find?_cons, isList]
  show (Build.parameterList parameters).subtrees.filter _ = parameters
  rw [parameter_list_subtrees]
  exact List.filter_eq_self.mpr fun part member => beq_iff_eq.mpr (all part member)

theorem without_receiver_copies (lambda : Node) (isLambda : lambda.kind.isLambda) (value : Tree)
    (made : withoutReceiver? lambda = some value) : value.kind = .parenLambda ∧
      value.parameters = (if lambda.kind = .simpleLambda then [] else lambda.focus.parameters.tail) ∧
      ∃ body, value.body? = some body ∧ lambda.focus.body? = some body := by
  obtain ⟨body, isLast, made⟩ := Option.bind_eq_some_iff.mp made
  have last : lambda.focus.body? = some body.focus := by
    rw [Tree.body?, ← Node.children_focus, List.getLast?_map, show lambda.children.getLast? = some body from isLast]
    rfl
  suffices copied : ∃ parameters, value = Build.parenLambda (Build.parameterList parameters) body.focus ∧
      (∀ part ∈ parameters, part.kind = .parameter) ∧
      parameters = if lambda.kind = .simpleLambda then [] else lambda.focus.parameters.tail by
    obtain ⟨parameters, rfl, kinds, others⟩ := copied
    refine ⟨tree_kind _ _, ?_, body.focus, rfl, last⟩
    rw [paren_lambda_parameters parameters body.focus kinds, others]
  cases isKind : lambda.kind <;> rw [isKind] at isLambda <;> cases isLambda
  case simpleLambda =>
    rw [isKind] at made
    exact ⟨[], (Option.some.inj made).symm, nofun, (if_pos rfl).symm⟩
  case parenLambda =>
    rw [isKind] at made
    obtain ⟨parameters, others, built⟩ := Option.bind_eq_some_iff.mp made
    obtain ⟨list, isList, rfl⟩ := Option.map_eq_some_iff.mp others
    refine ⟨_, (Option.some.inj built).symm, fun part member => ?_, ?_⟩
    · obtain ⟨parameter, isOther, rfl⟩ := List.mem_map.mp member
      exact eq_of_beq (List.mem_filter.mp (List.mem_of_mem_drop isOther)).2
    · have focusKind : lambda.focus.kind = .parenLambda := isKind
      rw [if_neg nofun, Tree.parameters, focusKind, if_neg nofun, ← child_of_kind_focus, isList, Option.map_some, Option.elim_some,
        ← children_of_kind_focus, List.map_drop, List.drop_one]

theorem copied_to_entry (link : ShimLink) (isLambda : link.value.kind.isLambda) (entry : Tree) (made : link.entry? = some entry) :
    link.CopiedTo entry := by
  refine ⟨?_, (entry_name link entry made).1, ?_⟩
  all_goals
    simp only [ShimLink.entry?, bind, Option.bind_eq_some_iff, pure, Option.some.injEq] at made
    obtain ⟨member, -, value, copied, rfl⟩ := made
  · exact tree_kind _ _
  · obtain ⟨kind, parameters, body, last, own⟩ := without_receiver_copies link.value isLambda value copied
    exact ⟨value, body, rfl, kind, parameters, last, own⟩

theorem initializer_subtrees (kind : Kind) (expressions : List Tree) : (Build.initializer kind expressions).subtrees = expressions := by
  have separated : (Build.commaSeparated expressions).filterMap Element.asNode? = expressions :=
    subtrees_separated _ expressions rfl
  by_cases empty : expressions.isEmpty
  · rw [List.isEmpty_iff.mp empty]
    rfl
  · simp only [Build.initializer, Build.bracedList, if_neg empty, Build.tree, Tree.subtrees, List.filterMap_append, separated]
    exact List.append_nil _

-- Where a constructor shim creates the instance, by the child elements on the way.
def creationPath : List Nat := [0, 4, 4, 2, 0, 2, 2, 2]

theorem shim_initializer (type : String) (entries : List Tree) :
    (constructorShim type entries).toElement.at? (creationPath ++ [5]) =
      some (Build.initializer .objectInitializer entries).toElement := rfl

theorem leaders_sublist (links : List ShimLink) : (leaders links).Sublist links := by
  induction links with
  | nil => exact .slnil
  | cons link rest ih => exact .cons_cons link (List.filter_sublist.trans ih)

theorem leaders_copied (home : Node) (chain : ShimChain) (found : ShimChain.find? home = some chain) (entries : List Tree)
    (made : entriesFrom? [] chain.links = some entries) : List.Forall₂ ShimLink.CopiedTo (leaders chain.links) entries := by
  have isLambda : ∀ link ∈ leaders chain.links, link.value.kind.isLambda := by
    intro link member
    obtain ⟨access, -, isLink⟩ := (chain_shape home chain found).2 link ((leaders_sublist _).subset member)
    obtain ⟨-, -, lambda, -⟩ := (link_iff access link).mp isLink
    exact lambda
  have each : List.Forall₂ Eq ((leaders chain.links).map ShimLink.entry?) (entries.map some) := by
    rw [List.forall₂_eq_eq_eq]
    exact entries_of_leaders chain.links entries made
  obtain ⟨lengths, pairs⟩ := List.forall₂_iff_zip.mp (List.forall₂_map_left_iff.mp (List.forall₂_map_right_iff.mp each))
  refine List.forall₂_iff_zip.mpr ⟨lengths, fun pair => ?_⟩
  exact copied_to_entry _ (isLambda _ (List.of_mem_zip pair).1) _ (pairs pair)

end Fix

namespace Catalog

open SmellCheck.Fix

-- Simplifying exchanges the diagnosed statement for one statement and leaves everything around it as it is.
-- The entries copy lambdas that are assigned on the receiver in the class, in their order and each from one.
theorem lambdas_copied_into_shim (catalog : Catalog) (home : Node) (result : Tree) (known : home.KindsKnown)
    (fixed : catalog.fix Rule.simplifyFakes.id home = .ok result) (rewrites : (simplifyFakes home).isSome) :
    ∃ (diagnosed : Node) (shim initializer : Tree) (links : List ShimLink),
      (∃ assignment, home.parent = some assignment ∧ assignment.parent = some diagnosed) ∧ diagnosed.kind = .exprStmt ∧
      diagnosed.root = home.root ∧ result = Frame.rise shim diagnosed.context ∧ shim.kind = .exprStmt ∧
      shim.toElement.at? (creationPath ++ [5]) = some initializer.toElement ∧ initializer.kind = .objectInitializer ∧
      List.Forall₂ ShimLink.CopiedTo links initializer.subtrees ∧
      (∀ link ∈ links, ∃ access ∈ home.classScope.descendantsOfKind .memberAccess,
        access.firstChild?.map Node.trimmed = home.firstChild?.map Node.trimmed ∧ ShimLink.of? access = some link) ∧
      links.Pairwise fun earlier later => earlier.target.path < later.target.path := by
  have rewritten := fix_rewrites catalog .simplifyFakes simplifyFakes rfl home result fixed rewrites
  obtain ⟨chain, entries, found, made, inner, applied⟩ := simplify_fakes_some home result rewritten
  obtain ⟨⟨link, isLink, statement⟩, -⟩ := chain_shape home chain found
  obtain ⟨assignment, shape⟩ := link_shape home link isLink
  obtain ⟨receiver, links⟩ := chain_links home chain found
  have inTree := (chain_within home chain found).1
  have frames := Node.frames_known _ (Node.kinds_known_of_same_tree home chain.diagnosed known inTree)
  have within := leaders_sublist chain.links
  refine ⟨chain.diagnosed, _, _, leaders chain.links, ⟨assignment, shape.parent, statement ▸ shape.statement⟩,
    statement ▸ shape.isStatement, inTree.2, applied.symm.trans (rewrite_single chain.diagnosed _ inner frames), tree_kind _ _,
    shim_initializer _ entries, tree_kind _ _, ?_, fun link member => ?_, (chain_in_order home chain found).sublist within⟩
  · rw [initializer_subtrees]
    exact leaders_copied home chain found entries made
  · rw [receiver]
    exact (links link).mp (within.subset member)

end Catalog

end SmellCheck

namespace SmellCheck.Shimmed

def rate : Tree := Build.parameter (Build.predefinedType "int") "rate"

def rated (parameters : List Tree) : Tree := Build.parenLambda (Build.parameterList parameters) (Build.identifierName "rate")

def discount : Tree := Build.exprStmt
  (Build.assignment (member "A") (rated [Build.parameter (Build.identifierName "Order") "order", rate]))

end SmellCheck.Shimmed

namespace SmellCheck.Catalog

open SmellCheck.Fix Shimmed

theorem rate_copied_into_shim :
    let home := second discount "B" "1"
    let entries := [Build.assignment (Build.identifierName "A") (rated [rate]), entry "B" "1"]
    home.KindsKnown ∧ builtin.fix Rule.simplifyFakes.id home = .ok (folded discount entries) ∧ (simplifyFakes home).isSome ∧
      ∃ links, List.Forall₂ ShimLink.CopiedTo links entries := by
  intro home entries
  have known : home.KindsKnown := by decide
  have rewritten : simplifyFakes home = some (folded discount entries) := by decide +kernel
  have fixed := builtin_fix .simplifyFakes simplifyFakes rfl home _ rewritten
  obtain ⟨diagnosed, shim, initializer, links, ⟨assignment, isParent, isOuter⟩, -, -, exchanged, -, stands, -, copied, -⟩ :=
    lambdas_copied_into_shim builtin home _ known fixed (by rw [rewritten]; rfl)
  cases isParent
  cases isOuter
  have own : folded discount entries = Frame.rise (constructorShim "S" entries)
      [⟨Kind.block.raw, [Build.space, discount.toElement, Build.space, Build.punct "\x7b"], [Build.space, Build.punct "\x7d"]⟩] := rfl
  obtain rfl : constructorShim "S" entries = shim := (Frame.rise_injective _ _ _ _ rfl (own.symm.trans exchanged)).2
  obtain rfl := to_element_injective _ _ (Option.some.inj ((shim_initializer "S" entries).symm.trans stands))
  rw [initializer_subtrees] at copied
  exact ⟨known, fixed, by rw [rewritten]; rfl, links, copied⟩

end SmellCheck.Catalog
