import SmellCheck.Proofs.BlockEnds
import SmellCheck.Proofs.GuardLoop

/-!
Unwrapped guards. The redundant guards of a class go with everything but what their bodies hold, and no
redundant guard is in the body of another one, since a body that names a shim is not redundant; so what
goes is told for each token from the guards around it. Braces are not looked for: a block loses its first
and its last element, whatever these are.
-/

set_option autoImplicit false

namespace SmellCheck

namespace Node

theorem text_of_child (node child : Node) (isChild : child ∈ node.children) : child.text.toList <:+: node.text.toList := by
  obtain ⟨front, back, split, -⟩ := child_split node child isChild
  refine ⟨(Forest.text front).toList, (Forest.text back).toList, ?_⟩
  have whole : node.text = Forest.text front ++ (child.text ++ Forest.text back) :=
    (congrArg Forest.text split).trans (Forest.text_append _ _)
  rw [whole, String.toList_append, String.toList_append, List.append_assoc]

theorem text_of_descendant (node below : Node) (member : below ∈ node.descendantsOrSelf) :
    below.text.toList <:+: node.text.toList := by
  induction node using induction_down with
  | step node ih =>
      rcases List.mem_cons.mp member with rfl | deeper
      · exact List.infix_rfl
      · obtain ⟨child, isChild, within⟩ := (mem_descendants _ _).mp deeper
        exact (ih child isChild within).trans (text_of_child node child isChild)

-- The place with the path is in the body, and not at an end of it where the body is a block.
def wraps (ends : Tree → Nat → Bool) (body : Node) (path : List Nat) : Bool :=
  body.path.isPrefixOf path && !(body.kind == .block && (path.drop body.path.length).head?.any (ends body.focus))

-- The place with the path is in the guard and not among what its body wraps.
def drops (ends : Tree → Nat → Bool) (guard : Node) (path : List Nat) : Bool :=
  guard.path.isPrefixOf path && !guard.lastChild?.any (·.wraps ends path)

theorem wraps_append (ends : Tree → Nat → Bool) (body : Node) (rest : List Nat) :
    body.wraps ends (body.path ++ rest) = !(body.kind == .block && rest.head?.any (ends body.focus)) := by
  rw [wraps, List.drop_left, List.isPrefixOf_iff_prefix.mpr (List.prefix_append _ _), Bool.true_and]

theorem drops_prefix (ends : Tree → Nat → Bool) (guard : Node) (path : List Nat) (dropped : guard.drops ends path) :
    guard.path <+: path :=
  List.isPrefixOf_iff_prefix.mp (Bool.and_eq_true_iff.mp dropped).1

end Node

namespace Fix

theorem no_guard_in_body (guard body lower : Node) (redundant : guard.isRedundantGuard) (last : guard.lastChild? = some body)
    (below : lower ∈ body.descendantsOrSelf) : ¬ lower.isRedundantGuard := by
  intro isGuard
  obtain ⟨-, -, body', -, last', -, -, clean⟩ := (Node.isRedundantGuard_iff guard).mp redundant
  obtain ⟨-, resource, -, first, -, -, creates, -⟩ := (Node.isRedundantGuard_iff lower).mp isGuard
  obtain rfl := Option.some.inj (last.symm.trans last')
  -- What creates the context of the lower guard names a shim in the body of the upper one.
  have inBody := Node.text_of_descendant body resource
    (List.mem_cons_of_mem _ (Node.below_of_child body lower resource below (List.mem_of_head? first)))
  have names : "Shim".toList <:+: "ShimsContext.Create()".toList := by decide
  have shim := (Text.contains_iff _ _).mpr (names.trans (((Text.contains_iff _ _).mp creates).trans inBody))
  rw [clean] at shim
  cases shim

def guards (home : Node) : List Node := home.classScope.descendantsOrSelf.filter Node.isRedundantGuard

theorem of_guards (home guard : Node) (member : guard ∈ guards home) : guard.isRedundantGuard ∧ guard.SameTree home := by
  obtain ⟨inScope, isGuard⟩ := List.mem_filter.mp member
  exact ⟨isGuard, same_tree_in_scope home guard inScope⟩

def unguards (ends : Tree → Nat → Bool) (home : Node) (path : List Nat) : Bool := (guards home).any (·.drops ends path)

theorem drops_of_lower (ends : Tree → Nat → Bool) (guard lower : Node) (path : List Nat) (redundant : guard.isRedundantGuard)
    (isGuard : lower.isRedundantGuard) (below : lower ∈ guard.descendants) (within : lower.path <+: path) :
    guard.drops ends path := by
  obtain ⟨child, isChild, inChild⟩ := (Node.mem_descendants _ _).mp below
  obtain ⟨rest, lowerPath⟩ := Node.path_of_descendant child lower inChild
  have childWithin : child.path <+: path := List.IsPrefix.trans ⟨rest, lowerPath.symm⟩ within
  obtain ⟨front, back, -, childPath⟩ := Node.child_split guard child isChild
  have guardWithin : guard.path <+: path := List.IsPrefix.trans ⟨[front.length], childPath.symm⟩ childWithin
  refine Bool.and_eq_true_iff.mpr ⟨List.isPrefixOf_iff_prefix.mpr guardWithin, ?_⟩
  cases last : guard.lastChild? with
  | none => rfl
  | some body =>
      refine (Bool.not_eq_true' _).mpr (Bool.eq_false_iff.mpr fun wrapped => ?_)
      have bodyWithin : body.path <+: path := List.isPrefixOf_iff_prefix.mp (Bool.and_eq_true_iff.mp wrapped).1
      have isBody := List.mem_of_getLast? last
      obtain ⟨front', back', -, bodyPath⟩ := Node.child_split guard body isBody
      have same : child.path = body.path := by
        have length : child.path.length = body.path.length := by rw [childPath, bodyPath, List.length_append, List.length_append]; rfl
        exact (List.prefix_of_prefix_length_le childWithin bodyWithin (Nat.le_of_eq length)).eq_of_length length
      have tree := Node.same_tree_trans (Node.same_tree_of_child guard child isChild)
        (Node.same_tree_symm (Node.same_tree_of_child guard body isBody))
      obtain rfl := Node.eq_of_path child body tree same
      exact no_guard_in_body guard child lower redundant last inChild isGuard

section
variable (guard body : Node) (last : guard.lastChild? = some body)
include last

theorem drops_in_guard (ends : Tree → Nat → Bool) (path : List Nat) (within : guard.path <+: path) :
    guard.drops ends path = !body.wraps ends path := by
  rw [Node.drops, last, List.isPrefixOf_iff_prefix.mpr within]
  rfl

theorem beside_body_kept (bodyIndex : Nat) (bodyPath : body.path = guard.path ++ [bodyIndex]) (index : Nat) (forest : List Element)
    (apart : ∀ step, index ≤ step → step < index + forest.length → step ≠ bodyIndex) :
    kept (fun path => !guard.drops edges path) (Forest.placed guard.path index forest) = [] := by
  refine kept_none _ _ fun token member => ?_
  obtain ⟨step, rest, raw, text, place, low, found, -⟩ := forest_placed_at guard.path index token forest member
  obtain ⟨element, access, -⟩ := Option.bind_eq_some_iff.mp found
  have high := (List.getElem?_eq_some_iff.mp access).choose
  have outside : body.wraps edges token.1 = false := by
    refine Bool.eq_false_iff.mpr fun wrapped => ?_
    have within := List.isPrefixOf_iff_prefix.mp (Bool.and_eq_true_iff.mp wrapped).1
    rw [place, bodyPath, List.prefix_append_right_inj] at within
    exact apart step low (by omega) (List.cons_prefix_cons.mp within).1.symm
  rw [drops_in_guard guard body last edges _ ⟨step :: rest, place.symm⟩, outside]
  rfl

end

theorem body_kept (body : Node) :
    Forest.tokens (unwrappedBody body.focus) = kept (body.wraps edges) (body.focus.placed body.path) := by
  have wraps : kept (body.wraps edges) (body.focus.placed body.path) =
      kept (fun path => !(body.kind == .block && (path.drop body.path.length).head?.any (edges body.focus)))
        (body.focus.placed body.path) := by
    refine kept_congr _ _ _ fun token member => ?_
    obtain ⟨step, rest, -, -, place, -⟩ := forest_placed_at body.path 0 token body.focus.children member
    rw [place, Node.wraps_append, List.drop_left]
  rw [wraps, unwrappedBody]
  split
  · rename_i isBlock
    rw [block_contents_kept body.focus body.path]
    simp only [show (body.kind == .block) = true from beq_iff_eq.mpr isBlock, Bool.true_and]
  · rename_i other
    rw [kept_all, Tree.placed, forest_placed_tokens]
    · exact List.append_nil _
    · intro token _
      simp only [show (body.kind == .block) = false from beq_eq_false_iff_ne.mpr other, Bool.false_and, Bool.not_false]

theorem guard_contents_kept (guard : Node) (redundant : guard.isRedundantGuard) :
    Forest.tokens (guardRequest guard).given =
      kept (fun path => !guard.drops edges path) (guard.focus.placed guard.path) := by
  obtain ⟨-, -, body, -, last, -⟩ := (Node.isRedundantGuard_iff guard).mp redundant
  obtain ⟨front, back, split, bodyPath⟩ := Node.child_split guard body (List.mem_of_getLast? last)
  have given : (guardRequest guard).given = unwrappedBody body.focus := by
    rw [guardRequest, last]
    rfl
  have whole : guard.focus.placed guard.path = Forest.placed guard.path 0 front ++
      (body.focus.placed body.path ++ Forest.placed guard.path (front.length + 1) back) := by
    rw [Tree.placed, show guard.focus.children = _ from split, forest_placed_append, Forest.placed, Nat.zero_add, ← bodyPath]
    rfl
  have inside : kept (fun path => !guard.drops edges path) (body.focus.placed body.path) =
      kept (body.wraps edges) (body.focus.placed body.path) := by
    refine kept_congr _ _ _ fun token member => ?_
    obtain ⟨step, rest, -, -, place, -⟩ := forest_placed_at body.path 0 token body.focus.children member
    have within : guard.path <+: token.1 := ⟨front.length :: step :: rest, by rw [place, bodyPath, List.append_assoc]; rfl⟩
    rw [drops_in_guard guard body last edges _ within, Bool.not_not]
  rw [given, whole, kept_append, kept_append, beside_body_kept guard body last _ bodyPath 0 front (fun step _ high => by omega),
    beside_body_kept guard body last _ bodyPath _ back (fun step low _ => by omega), List.nil_append, List.append_nil, inside, body_kept]

section
variable (home : Node) (redundant : home.isRedundantGuard) (bare : home.root.kind ≠ .usingStmt)
include redundant bare

theorem guard_goes (guard : Node) (member : guard ∈ guards home) :
    ∃ outer ∈ guard.ancestorsOrSelf, guardRequest outer ∈ removed .unnecessaryShimsContext home := by
  obtain ⟨below, isGuard⟩ := List.mem_filter.mp member
  have tree := same_tree_in_scope home guard below
  have isUsing := ((Node.isRedundantGuard_iff guard).mp isGuard).1
  exact guard_above home guard redundant isGuard below (Node.inner_of_kind guard (by rw [tree.2, isUsing]; exact bare))

omit bare in
theorem guard_asked (guard : Node) (goes : guardRequest guard ∈ removed .unnecessaryShimsContext home) : guard ∈ guards home := by
  obtain ⟨other, below, isGuard, same⟩ := ((guard_requests home redundant).1 _).mp (Session.mem_accepted _ _ _ goes)
  obtain rfl : other = guard := congrArg Request.target same
  exact List.mem_filter.mpr ⟨below, isGuard⟩

theorem unguards_in_guard (ends : Tree → Nat → Bool) (guard : Node) (goes : guardRequest guard ∈ removed .unnecessaryShimsContext home)
    (path : List Nat) (within : guard.path <+: path) : unguards ends home path = guard.drops ends path := by
  have reached := Session.reached_history home (removals .unnecessaryShimsContext home)
  have asked := guard_asked home redundant guard goes
  have tree : guard.SameTree home := (reached.within _ goes).1
  rw [Bool.eq_iff_iff, unguards, List.any_eq_true]
  constructor
  · rintro ⟨other, member, dropped⟩
    obtain ⟨isGuard, same⟩ := of_guards home other member
    have sameTree := Node.same_tree_trans same (Node.same_tree_symm tree)
    have otherWithin := Node.drops_prefix ends other path dropped
    rcases List.prefix_or_prefix_of_prefix otherWithin within with above | lower
    · rcases List.mem_cons.mp ((Node.mem_ancestors_or_self_iff other guard sameTree).mpr above) with rfl | higher
      · exact dropped
      · -- One at or above the other guard gives way, which leaves no room for this one.
        obtain ⟨outer, isOuter, planned⟩ := guard_goes home redundant bare other member
        have outerAbove : outer ∈ guard.ancestors := by
          rcases List.mem_cons.mp isOuter with rfl | beyond
          · exact higher
          · exact Node.ancestors_trans _ _ _ beyond higher
        have different : guardRequest outer ≠ guardRequest guard := by
          intro eq
          obtain rfl : outer = guard := congrArg Request.target eq
          exact Node.not_above_self _ outerAbove
        exact absurd outerAbove ((Session.apart_of_mem reached _ _ planned goes different).2.1 rfl)
    · rcases List.mem_cons.mp ((Node.mem_ancestors_or_self_iff guard other (Node.same_tree_symm sameTree)).mpr lower) with rfl | higher
      · exact dropped
      · exact drops_of_lower ends guard other path (List.mem_filter.mp asked).2 isGuard
          ((Node.mem_descendants_iff _ _).mpr higher) otherWithin
  · exact fun dropped => ⟨guard, asked, dropped⟩

theorem unguards_spared (ends : Tree → Nat → Bool) (parent : Node) (same : parent.SameTree home)
    (spared : parent.Spared (removed .unnecessaryShimsContext home)) (index : Nat) (raw : RawKind) (text : String)
    (found : parent.elements[index]? = some (.token raw text)) : unguards ends home (parent.path ++ [index]) = false := by
  refine List.any_eq_false.mpr fun guard member dropped => ?_
  obtain ⟨-, tree⟩ := of_guards home guard member
  have sameTree := Node.same_tree_trans tree (Node.same_tree_symm same)
  rcases List.prefix_concat_iff.mp (Node.drops_prefix ends guard _ dropped) with atToken | above
  · have place := at_path guard home tree
    rw [atToken, at_append, at_path parent home same] at place
    have token : parent.focus.toElement.at? [index] = some (.token raw text) := Option.bind_eq_some_iff.mpr ⟨_, found, rfl⟩
    cases token.symm.trans place
  · obtain ⟨outer, isOuter, planned⟩ := guard_goes home redundant bare guard member
    refine spared _ planned ?_
    have guardAbove := (Node.mem_ancestors_or_self_iff guard parent sameTree).mpr above
    rw [← Node.mem_descendants_or_self_iff] at guardAbove isOuter ⊢
    exact Node.below_trans _ _ _ isOuter guardAbove

theorem guards_removed_tokens :
    ((Session.start home).run (removals .unnecessaryShimsContext home)).apply.tokens =
      kept (fun path => !unguards edges home path) (home.root.placed []) := by
  have reached := Session.reached_history home (removals .unnecessaryShimsContext home)
  have within : ∀ request ∈ removed .unnecessaryShimsContext home, request.target.SameTree (.ofRoot home.snapshot home.root) :=
    fun request member => (reached.within request member).1
  have law := substitute_kept (removed .unnecessaryShimsContext home) (fun path => !unguards edges home path)
    (.ofRoot home.snapshot home.root) within ?_ ?_ ?_
  · have bareTokens := congrArg Tree.tokens (Session.apply_substitutes home (removals .unnecessaryShimsContext home)).1
    rw [tree_tokens_bare, tree_tokens_bare] at bareTokens
    exact bareTokens.trans law
  · intro request member
    obtain ⟨guard, below, isGuard, rfl⟩ := ((guard_requests home redundant).1 request).mp (Session.mem_accepted _ _ _ member)
    refine ⟨rfl, (guard_contents_kept guard isGuard).trans (kept_congr _ _ _ fun token present => ?_)⟩
    obtain ⟨step, rest, -, -, place, -⟩ := forest_placed_at guard.path 0 token guard.focus.children present
    rw [unguards_in_guard home redundant bare edges guard member token.1 ⟨step :: rest, place.symm⟩]
  · intro parent below spared index raw text found
    have same : parent.SameTree home := Node.same_tree_of_descendant (.ofRoot home.snapshot home.root) parent below
    rw [unguards_spared home redundant bare edges parent same spared index raw text found]
    rfl
  · intro request member above
    obtain ⟨same, notRoot⟩ := reached.within request member
    rcases List.mem_cons.mp above with atRoot | higher
    · exact notRoot atRoot
    · cases higher

theorem guard_beside_body (guard : Node) (member : guard ∈ guards home) :
    ∃ outer ∈ guard.ancestorsOrSelf, guardRequest outer ∈ removed .unnecessaryShimsContext home ∧
      ∀ body ∈ outer.lastChild?, body ∉ guard.ancestorsOrSelf := by
  obtain ⟨outer, isOuter, goes⟩ := guard_goes home redundant bare guard member
  refine ⟨outer, isOuter, goes, fun body last above => ?_⟩
  have isGuard := (List.mem_filter.mp (guard_asked home redundant outer goes)).2
  exact no_guard_in_body outer body guard isGuard last ((Node.mem_descendants_or_self_iff _ _).mpr above) (of_guards home guard member).1

theorem between_braces_stay (guard body : Node) (goes : guardRequest guard ∈ removed .unnecessaryShimsContext home)
    (last : body ∈ guard.lastChild?) (index : Nat) (element : Element) (found : body.elements[index]? = some element)
    (inside : body.kind = .block → braces body.focus index = false ∧ isBlank element = false) (rest : List Nat) :
    unguards edges home (body.path ++ index :: rest) = false := by
  obtain ⟨front, back, -, bodyPath⟩ := Node.child_split guard body (List.mem_of_getLast? last)
  have wrapped : body.wraps edges (body.path ++ index :: rest) := by
    rw [Node.wraps_append, Bool.not_eq_true', Bool.and_eq_false_imp]
    intro isBlock
    obtain ⟨noBrace, solid⟩ := inside (eq_of_beq isBlock)
    refine Bool.eq_false_iff.mpr fun isEdge => ?_
    rcases edge_blank body.focus index element found isEdge with isBrace | blank
    · rw [noBrace] at isBrace
      cases isBrace
    · rw [solid] at blank
      cases blank
  have within : guard.path <+: body.path ++ index :: rest :=
    List.IsPrefix.trans ⟨[front.length], bodyPath.symm⟩ (List.prefix_append _ _)
  rw [unguards_in_guard home redundant bare edges guard goes _ within, drops_in_guard guard body last edges _ within, wrapped]
  rfl

end

theorem wraps_braces (body : Node) (clean : body.kind = .block → ∀ part ∈ body.children, part.kind ≠ .whitespace) (rest : List Nat)
    (raw : RawKind) (text : String) (found : body.focus.toElement.at? rest = some (.token raw text)) (solid : Kind.ofRaw raw ≠ .whitespace) :
    body.wraps edges (body.path ++ rest) = body.wraps braces (body.path ++ rest) := by
  rw [Node.wraps_append, Node.wraps_append]
  cases isBlock : body.kind == .block with
  | false => rfl
  | true =>
      cases rest with
      | nil => rfl
      | cons index more =>
          obtain ⟨element, access, below⟩ := Option.bind_eq_some_iff.mp (show body.focus.children[index]?.bind _ = _ from found)
          have blank : isBlank element = false := by
            refine Bool.eq_false_iff.mpr fun blank => ?_
            cases element with
            | token raw' text' =>
                cases more with
                | nil =>
                    cases below
                    exact solid (eq_of_beq blank)
                | cons _ _ => cases below
            | node raw' children =>
                obtain ⟨part, isPart, focus, -⟩ := body.child_at index ⟨raw', children⟩ access
                refine clean (eq_of_beq isBlock) part isPart ?_
                rw [Node.kind, focus]
                exact eq_of_beq blank
          have ends : edges body.focus index = braces body.focus index := by
            rw [Bool.eq_iff_iff]
            refine ⟨fun isEdge => (edge_blank body.focus index element access isEdge).resolve_right ?_, braces_are_edges body.focus index⟩
            rw [blank]
            exact Bool.false_ne_true
          rw [List.head?_cons, Option.any_some, Option.any_some, ends]

theorem unguards_braces (home : Node)
    (clean : ∀ guard ∈ guards home, ∀ body ∈ guard.lastChild?, body.kind = .block → ∀ part ∈ body.children, part.kind ≠ .whitespace)
    (token : PlacedToken) (member : token ∈ home.root.placed []) : unguards edges home token.1 = unguards braces home token.1 := by
  obtain ⟨place, raw, text, same, found, solid⟩ := element_placed_at [] token home.root.toElement member
  obtain rfl : token.1 = place := same
  have drops : ∀ guard ∈ guards home, guard.drops edges token.1 = guard.drops braces token.1 := by
    intro guard isGuard
    rw [Node.drops, Node.drops]
    cases last : guard.lastChild? with
    | none => rfl
    | some body =>
        rw [Option.any_some, Option.any_some]
        by_cases within : body.path <+: token.1
        · obtain ⟨rest, path⟩ := within
          have tree := Node.same_tree_trans (Node.same_tree_of_last_child guard body last)
            (of_guards home guard isGuard).2
          rw [← path, at_append, at_path body home tree] at found
          rw [← path, wraps_braces body (clean guard isGuard body last) rest raw text found solid]
        · have apart := Bool.eq_false_iff.mpr (mt List.isPrefixOf_iff_prefix.mp within)
          rw [Node.wraps, Node.wraps, apart, Bool.false_and, Bool.false_and]
  rw [unguards, unguards, Bool.eq_iff_iff, List.any_eq_true, List.any_eq_true]
  exact exists_congr fun guard => and_congr_right fun isGuard => by rw [drops guard isGuard]

theorem guard_successors (home parent body : Node) (redundant : home.isRedundantGuard) (isParent : home.parent = some parent)
    (outermost : ∀ outer ∈ home.ancestors, ¬ outer.isRedundantGuard) (last : home.lastChild? = some body) (isBlock : body.kind = .block) :
    parent.Spared (removed .unnecessaryShimsContext home) ∧
      home.successors ((removed .unnecessaryShimsContext home).map Request.planned) =
        (blockContents body.focus).filterMap Element.asNode? := by
  have reached := Session.reached_history home (removals .unnecessaryShimsContext home)
  have spared : parent.Spared (removed .unnecessaryShimsContext home) := by
    intro request member above
    obtain ⟨guard, -, isGuard, rfl⟩ := ((guard_requests home redundant).1 request).mp (Session.mem_accepted _ _ _ member)
    refine outermost guard ?_ isGuard
    rw [Node.ancestors_of_parent home parent isParent]
    exact above
  have below : home ∈ home.classScope.descendantsOrSelf := (Node.mem_descendants_or_self_iff _ _).mpr (Node.class_scope_above home)
  have goes := (guard_removed_iff home parent home redundant spared ((Node.mem_children_iff _ _).mpr isParent)).mpr ⟨redundant, below⟩
  have planned : Request.on? (removed .unnecessaryShimsContext home) home.path = some (guardRequest home) :=
    (Session.on_iff reached home.path (guardRequest home)).mpr ⟨goes, rfl⟩
  refine ⟨spared, ?_⟩
  rw [Node.successors, Session.edits_from_requests, successors_of_request, planned, fill_destructive _ _ rfl, guardRequest, last]
  show (unwrappedBody body.focus).filterMap Element.asNode? = _
  rw [unwrappedBody, if_pos (show body.focus.kind = .block from isBlock)]

end Fix

namespace Guarded

def around (elements : List Element) : Node :=
  ⟨0, Build.usingStmt (Build.invocation (Build.memberAccess (Build.identifierName "ShimsContext") "Create") [])
    (Build.tree .block elements), [body]⟩

def braced (elements : List Element) : List Element := Build.punct "\x7b" :: elements ++ [Build.punct "\x7d"]

end Guarded

namespace Catalog

open SmellCheck.Fix Guarded

-- Where the root is no guard, a redundant guard's repair takes away the tokens in the redundant guards of the
-- class beside their bodies, those of the first and the last element of a body that is a block, and what is
-- white space by its kind next to these; so, where white space is tokens only, the braces alone. Every
-- redundant guard of the class goes, and between the braces of one that gives way all tokens stay.
theorem guards_unwrapped (catalog : Catalog) (inForce : (catalog.get? .unnecessaryShimsContext).isSome) (home : Node)
    (bare : home.root.kind ≠ .usingStmt) (redundant : home.isRedundantGuard) :
    ∃ result, catalog.fix Rule.unnecessaryShimsContext.id home = .ok result ∧
      result.tokens = kept (fun path => !unguards edges home path) (home.root.placed []) ∧
      ((∀ guard ∈ guards home, ∀ body ∈ guard.lastChild?, body.kind = .block → ∀ part ∈ body.children, part.kind ≠ .whitespace) →
        result.tokens = kept (fun path => !unguards braces home path) (home.root.placed [])) ∧
      (∀ guard ∈ guards home, ∃ outer ∈ guard.ancestorsOrSelf, guardRequest outer ∈ removed .unnecessaryShimsContext home ∧
        ∀ body ∈ outer.lastChild?, body ∉ guard.ancestorsOrSelf) ∧
      (∀ guard body, guardRequest guard ∈ removed .unnecessaryShimsContext home → body ∈ guard.lastChild? →
        ∀ index element, body.elements[index]? = some element →
          (body.kind = .block → braces body.focus index = false ∧ isBlank element = false) →
            ∀ rest, unguards edges home (body.path ++ index :: rest) = false) := by
  have law := guards_removed_tokens home redundant bare
  refine ⟨_, fix_in_force catalog .unnecessaryShimsContext removeGuards rfl inForce home, ?_⟩
  rw [removal_applied .unnecessaryShimsContext (.inl rfl) removeGuards rfl home]
  refine ⟨law, ?_, guard_beside_body home redundant bare, ?_⟩
  · intro clean
    rw [law]
    exact kept_congr _ _ _ fun token member => congrArg not (unguards_braces home clean token member)
  · intro guard body goes last index element found inside rest
    exact between_braces_stay home redundant bare guard body goes last index element found inside rest

theorem comment_and_statement_unwrapped :
    let inside := [Build.token .comment "// a", Build.whitespace "\n", (call "a").toElement]
    let home := around (braced (Build.space :: inside ++ [Build.space]))
    let result := Build.tree .block (braced (Build.space :: inside ++ [Build.space]))
    (builtin.get? .unnecessaryShimsContext).isSome ∧ home.root.kind ≠ .usingStmt ∧ home.isRedundantGuard ∧
      builtin.fix Rule.unnecessaryShimsContext.id home = .ok result ∧
      result.tokens = kept (fun path => !unguards braces home path) (home.root.placed []) := by
  intro inside home result
  have inForce : (builtin.get? .unnecessaryShimsContext).isSome := by
    rw [builtin_get]
    rfl
  have bare : home.root.kind ≠ .usingStmt := by decide
  have redundant : home.isRedundantGuard := by decide +kernel
  have clean : ∀ guard ∈ guards home, ∀ body ∈ guard.lastChild?, body.kind = .block → ∀ part ∈ body.children, part.kind ≠ .whitespace := by
    decide +kernel
  have fixed : builtin.fix Rule.unnecessaryShimsContext.id home = .ok result :=
    builtin_fix .unnecessaryShimsContext removeGuards rfl home result (by decide +kernel)
  obtain ⟨result', fixed', -, law, -⟩ := guards_unwrapped builtin inForce home bare redundant
  obtain rfl := Except.ok.inj (fixed.symm.trans fixed')
  exact ⟨inForce, bare, redundant, fixed, law clean⟩

theorem blank_node_unwrapped :
    let home := around (braced [(Build.tree .whitespace [Build.token .ident "a"]).toElement])
    let result := Build.tree .block (braced [Build.space])
    home.root.kind ≠ .usingStmt ∧ home.isRedundantGuard ∧
      (∀ guard ∈ guards home, ∀ body ∈ guard.lastChild?, body.kind = .block →
        body.elements.head? = some (Build.punct "\x7b") ∧ body.elements.getLast? = some (Build.punct "\x7d")) ∧
      builtin.fix Rule.unnecessaryShimsContext.id home = .ok result ∧
      result.tokens ≠ kept (fun path => !unguards braces home path) (home.root.placed []) := by
  intro home result
  have fixed : builtin.fix Rule.unnecessaryShimsContext.id home = .ok result :=
    builtin_fix .unnecessaryShimsContext removeGuards rfl home result (by decide +kernel)
  exact ⟨by decide, by decide +kernel, by decide +kernel, fixed, by decide +kernel⟩

-- In the place of an outermost redundant guard with a block stand the nodes of the block's contents. They
-- are all child nodes of the block exactly when none of these is at an end of it, where the braces should be.
theorem guard_keeps_statements_iff (catalog : Catalog) (inForce : (catalog.get? .unnecessaryShimsContext).isSome)
    (home parent body : Node) (redundant : home.isRedundantGuard) (isParent : home.parent = some parent)
    (outermost : ∀ outer ∈ home.ancestors, ¬ outer.isRedundantGuard) (last : home.lastChild? = some body) (isBlock : body.kind = .block) :
    let plan := (removed .unnecessaryShimsContext home).map Request.planned
    let after := parent.rewritten plan
    catalog.fix Rule.unnecessaryShimsContext.id home = .ok after.root ∧
      after.focus.subtrees = parent.children.flatMap (Node.successors plan) ∧
      home.successors plan = (blockContents body.focus).filterMap Element.asNode? ∧
      (body.focus.subtrees.Sublist (home.successors plan) ↔
        ∀ index (tree : Tree), body.elements[index]? = some tree.toElement → edges body.focus index = false) := by
  intro plan after
  have reached := Session.reached_history home (removals .unnecessaryShimsContext home)
  have parentTree := Node.same_tree_of_parent home parent isParent
  obtain ⟨spared, successors⟩ := guard_successors home parent body redundant isParent outermost last isBlock
  refine ⟨?_, Node.rewritten_subtrees plan parent, successors, ?_⟩
  · have survives := Session.survives_of_spared home parent _ parentTree (fun request member => (reached.within request member).1)
      fun request member _ => spared request member
    have root := Node.rewritten_root _ parent survives
    rw [fix_in_force catalog .unnecessaryShimsContext removeGuards rfl inForce home,
      removal_applied .unnecessaryShimsContext (.inl rfl) removeGuards rfl home, Session.apply, reached.root, reached.edits, ← parentTree.2]
    exact congrArg Except.ok root.symm
  · rw [successors]
    exact block_nodes_kept_iff body.focus

theorem braced_statement_kept :
    let home := around (braced [Build.space, (call "a").toElement, Build.space])
    let parent := Node.ofRoot 0 home.root
    let body := home.lastChild?.getD home
    let plan := (removed .unnecessaryShimsContext home).map Request.planned
    (builtin.get? .unnecessaryShimsContext).isSome ∧ home.isRedundantGuard ∧ home.parent = some parent ∧
      (∀ outer ∈ home.ancestors, ¬ outer.isRedundantGuard) ∧ home.lastChild? = some body ∧ body.kind = .block ∧
      body.focus.subtrees = [call "a"] ∧ body.focus.subtrees.Sublist (home.successors plan) := by
  intro home parent body plan
  have inForce : (builtin.get? .unnecessaryShimsContext).isSome := by
    rw [builtin_get]
    rfl
  have redundant : home.isRedundantGuard := by decide +kernel
  have outermost : ∀ outer ∈ home.ancestors, ¬ outer.isRedundantGuard := by decide +kernel
  have isParent : home.parent = some parent := rfl
  have last : home.lastChild? = some body := rfl
  obtain ⟨-, -, -, kept⟩ := guard_keeps_statements_iff builtin inForce home parent body redundant isParent outermost last rfl
  refine ⟨inForce, redundant, isParent, outermost, last, rfl, rfl, kept.mpr ?_⟩
  intro index tree found
  -- Only the third element is a node, and it is no end.
  match index, found with
  | 2, _ => decide
  | 0, found => cases Option.some.inj found
  | 1, found => cases Option.some.inj found
  | 3, found => cases Option.some.inj found
  | 4, found => cases Option.some.inj found
  | _ + 5, found => cases found

theorem unbraced_statement_lost :
    let loses (home : Node) : Prop :=
      home.isRedundantGuard ∧ home.parent = some (.ofRoot 0 home.root) ∧ (∀ outer ∈ home.ancestors, ¬ outer.isRedundantGuard) ∧
        home.lastChild?.map (fun body => (body.kind, body.focus.subtrees)) = some (.block, [call "a"]) ∧
        builtin.fix Rule.unnecessaryShimsContext.id home = .ok (Build.tree .block (braced [Build.space])) ∧
        home.successors ((removed .unnecessaryShimsContext home).map Request.planned) = []
    loses (around [(call "a").toElement, Build.space, Build.punct "\x7d"]) ∧
      loses (around [Build.punct "\x7b", Build.space, (call "a").toElement]) := by
  intro loses
  have fixed : ∀ home, removeGuards home = some (Build.tree .block (braced [Build.space])) →
      builtin.fix Rule.unnecessaryShimsContext.id home = .ok (Build.tree .block (braced [Build.space])) :=
    fun home unwrapped => builtin_fix .unnecessaryShimsContext removeGuards rfl home _ unwrapped
  exact ⟨⟨by decide +kernel, rfl, by decide +kernel, rfl, fixed _ (by decide +kernel), by decide +kernel⟩,
    by decide +kernel, rfl, by decide +kernel, rfl, fixed _ (by decide +kernel), by decide +kernel⟩

end Catalog

end SmellCheck
