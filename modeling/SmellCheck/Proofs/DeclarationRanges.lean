import Mathlib.Data.List.TakeWhile
import SmellCheck.Build
import SmellCheck.Proofs.Covering
import SmellCheck.Proofs.Resolution

/-!
From a symbol back to its declaration. A symbol keeps the range of the node that declares it and no
more. The deepest node that covers a range with text is unique, and a declaration with a name has text
of its own, so the range of a parameter or local leads back to its declaration and to no other node.
-/

set_option autoImplicit false

namespace SmellCheck

namespace Node

theorem contains_iff (outer inner : Range) : outer.contains inner ↔ outer.start ≤ inner.start ∧ inner.stop ≤ outer.stop := by
  rw [Range.contains, Bool.and_eq_true, decide_eq_true_iff, decide_eq_true_iff]

theorem children_from_apart (snapshot : Nat) (raw : RawKind) (context : List Frame) (before rest : List Element) :
    (childrenFrom snapshot raw context before rest).Pairwise fun first second => first.range.stop ≤ second.range.start := by
  induction rest generalizing before with
  | nil => exact .nil
  | cons element rest ih =>
      cases element with
      | token _ _ => exact ih _
      | node kind children =>
          refine .cons ?_ (ih _)
          intro child later
          obtain ⟨front, tree, after, -, rfl⟩ := (mem_children_from _ _ _ _ _ _).mp later
          show Forest.length before + offset context + Forest.length children ≤
            Forest.length (front.reverse ++ .node kind children :: before) + offset context
          rw [Forest.length_append, Forest.length, Element.length]
          omega

theorem child_of_range (node child other : Node) (range : Range) (some : range.start < range.stop) (isChild : child ∈ node.children)
    (isOther : other ∈ node.children) (inChild : child.range.contains range) (inOther : other.range.contains range) :
    other = child := by
  have ends := (contains_iff _ _).mp inChild
  have ends' := (contains_iff _ _).mp inOther
  have apart := (children_from_apart node.snapshot node.focus.raw node.context [] node.focus.children).imp
    (S := fun first second => ¬ (first.range.contains range ∧ second.range.contains range)) fun {first second} before both => by
      have inFirst := (contains_iff _ _).mp both.1
      have inSecond := (contains_iff _ _).mp both.2
      omega
  have symmetric : Std.Symm fun first second : Node => ¬ (first.range.contains range ∧ second.range.contains range) :=
    ⟨fun _ _ apart both => apart both.symm⟩
  by_contra different
  exact apart.forall isOther isChild different ⟨inOther, inChild⟩

structure Deepest (root : Node) (range : Range) (place : Node) : Prop where
  below : place ∈ root.descendantsOrSelf
  covers : place.range.contains range
  innermost : ∀ child ∈ place.children, ¬ child.range.contains range

theorem range_trans (outer middle inner : Range) (first : outer.contains middle) (second : middle.contains inner) :
    outer.contains inner := by
  rw [contains_iff] at first second ⊢
  omega

theorem deepest_once (root first second : Node) (range : Range) (some : range.start < range.stop)
    (isFirst : root.Deepest range first) (isSecond : root.Deepest range second) : first = second := by
  -- By induction from the root downward: both are the root, or both are in the one child that has the range.
  induction root using induction_down with
  | step root ih =>
      have inChild (place : Node) (deepest : root.Deepest range place) (lower : place ≠ root) :
          ∃ child ∈ root.children, child.range.contains range ∧ child.Deepest range place := by
        obtain ⟨child, isChild, within⟩ := (mem_descendants _ _).mp ((List.mem_cons.mp deepest.below).resolve_left lower)
        exact ⟨child, isChild, range_trans _ _ _ (range_of_below child place within) deepest.covers,
          within, deepest.covers, deepest.innermost⟩
      by_cases firstTop : first = root <;> by_cases secondTop : second = root
      · rw [firstTop, secondTop]
      · obtain ⟨child, isChild, covers, -⟩ := inChild second isSecond secondTop
        exact absurd covers (isFirst.innermost child (firstTop ▸ isChild))
      · obtain ⟨child, isChild, covers, -⟩ := inChild first isFirst firstTop
        exact absurd covers (isSecond.innermost child (secondTop ▸ isChild))
      · obtain ⟨child, isChild, covers, inFirst⟩ := inChild first isFirst firstTop
        obtain ⟨child', isChild', covers', inSecond⟩ := inChild second isSecond secondTop
        obtain rfl := child_of_range root child child' range some isChild isChild' covers covers'
        exact ih child' isChild inFirst inSecond

theorem deepest_exists (node : Node) (range : Range) (held : node.range.contains range) : ∃ place, node.Deepest range place := by
  induction node using induction_down with
  | step node ih =>
      by_cases deeper : ∃ child ∈ node.children, child.range.contains range
      · obtain ⟨child, isChild, covers⟩ := deeper
        obtain ⟨place, deepest⟩ := ih child isChild covers
        exact ⟨place, below_trans node child place (child_below node child isChild) deepest.below, deepest.covers,
          deepest.innermost⟩
      · exact ⟨node, List.mem_cons_self, held, fun child isChild covers => deeper ⟨child, isChild, covers⟩⟩

theorem forest_covering_stays (snapshot : Nat) (range : Range) (some : range.start < range.stop) (raw : RawKind)
    (context : List Frame) (before rest : List Element)
    (none : ∀ child ∈ childrenFrom snapshot raw context before rest, ¬ child.range.contains range) :
    forestCovering snapshot range raw context before (Forest.length before + offset context) rest = Option.none := by
  induction rest generalizing before with
  | nil => rfl
  | cons element rest ih =>
      have start : Forest.length before + offset context + element.length = Forest.length (element :: before) + offset context := by
        rw [Forest.length]
        omega
      rw [forestCovering]
      cases element with
      | token kind text =>
          split
          · rfl
          · rw [start]
            exact ih _ none
      | node kind children =>
          rw [childrenFrom, List.forall_mem_cons] at none
          rw [if_neg, start]
          · exact ih _ none.2
          · rw [goes_into_iff range some]
            exact fun into => none.1 ((contains_iff _ _).mpr into)

theorem covering_deepest (snapshot : Nat) (tree : Tree) (range : Range) (some : range.start < range.stop)
    (held : (ofRoot snapshot tree).range.contains range) :
    ∃ place, (ofRoot snapshot tree).covering? range = Option.some place ∧ (ofRoot snapshot tree).Deepest range place := by
  obtain ⟨place, deepest⟩ := deepest_exists _ range held
  refine ⟨place, ?_, deepest⟩
  have sameTree := same_tree_of_descendant _ place deepest.below
  have covers := (contains_iff _ _).mp deepest.covers
  have descends := covering_descends range some place.snapshot place.focus place.context covers.1 covers.2
  have stays := forest_covering_stays place.snapshot range some place.focus.raw place.context [] place.elements deepest.innermost
  rw [Forest.length, Nat.zero_add] at stays
  have whole : Frame.rise place.focus place.context = tree := sameTree.2
  have number : place.snapshot = snapshot := sameTree.1
  rw [whole, Tree.toElement, Tree.toElement, coveringFrom.eq_def place.snapshot range place.context] at descends
  rw [covering?, if_pos held]
  show coveringFrom snapshot range [] 0 (.node tree.raw tree.children) = _
  rw [← number, descends]
  show (forestCovering place.snapshot range place.focus.raw place.context [] (offset place.context) place.elements).or _ = _
  rw [stays]
  rfl

-- The nearest lambda, method or constructor strictly above, with no type in between.
structure BelongsTo (node owner : Node) : Prop where
  owns : owner.kind.isBodyOwner
  nearest : ∃ inner outer, node.ancestors = inner ++ owner :: outer ∧
    ∀ between ∈ inner, between.kind.isBodyOwner = false ∧ between.kind.isTypeWithMembers = false

theorem not_type_of_owner (kind : Kind) (owns : kind.isBodyOwner) : kind.isTypeWithMembers = false := by
  cases kind <;> first | rfl | cases owns

theorem body_owner_iff (node owner : Node) : node.bodyOwner? = some owner ↔ node.BelongsTo owner := by
  rw [bodyOwner?, List.find?_eq_some_iff_append]
  constructor
  · rintro ⟨owns, inner, outer, split, others⟩
    have within : ∀ between ∈ inner ++ owner :: outer, between.kind.isTypeWithMembers = false := by
      rw [← split]
      intro between member
      simpa using List.mem_takeWhile_imp member
    refine ⟨owns, inner, outer ++ node.ancestors.dropWhile fun above => !above.kind.isTypeWithMembers, ?_, ?_⟩
    · rw [← List.cons_append, ← List.append_assoc, ← split, List.takeWhile_append_dropWhile]
    · intro between member
      exact ⟨by simpa using others between member, within between (List.mem_append_left _ member)⟩
  · rintro ⟨owns, inner, outer, split, others⟩
    have open' : ∀ between ∈ inner, (!between.kind.isTypeWithMembers) = true := fun between member => by
      rw [(others between member).2]
      rfl
    refine ⟨owns, inner, outer.takeWhile fun above => !above.kind.isTypeWithMembers, ?_, ?_⟩
    · rw [split, List.takeWhile_append_of_pos open', List.takeWhile_cons_of_pos]
      rw [not_type_of_owner _ owns]
      rfl
    · intro between member
      rw [(others between member).1]
      rfl

theorem belongs_child (node owner : Node) (isParent : node.parent = some owner) (owns : owner.kind.isBodyOwner) :
    node.BelongsTo owner :=
  ⟨owns, [], owner.ancestors, ancestors_of_parent node owner isParent, List.forall_mem_nil _⟩

theorem belongs_below (node parent owner : Node) (isParent : node.parent = some parent)
    (plain : parent.kind.isBodyOwner = false ∧ parent.kind.isTypeWithMembers = false) (belongs : parent.BelongsTo owner) :
    node.BelongsTo owner := by
  obtain ⟨inner, outer, split, others⟩ := belongs.nearest
  refine ⟨belongs.owns, parent :: inner, outer, ?_, List.forall_mem_cons.mpr ⟨plain, others⟩⟩
  rw [ancestors_of_parent node parent isParent, split]
  rfl

-- A search for the node that covers a range that finds the deepest one for every range with text in the root's.
def CoversDeepest (root : Node) (covering : Range → Option Node) : Prop :=
  ∀ range : Range, range.start < range.stop → root.range.contains range →
    ∃ place, covering range = some place ∧ root.Deepest range place

end Node

namespace Scope

theorem declared_range (node : Node) (symbol : Symbol) (declared : declared? node = some symbol) :
    symbol.declaration? = some node.range := by
  simp only [declared?, bind, Option.bind_eq_some_iff, pure, Option.some.injEq] at declared
  obtain ⟨_, _, _, _, rfl⟩ := declared
  rfl

theorem text_token (node : Node) (kind : Kind) (text : String) (member : text ∈ node.tokenTexts kind) :
    ∃ raw, Element.token raw text ∈ node.elements := by
  obtain ⟨element, inNode, reads⟩ := List.mem_filterMap.mp member
  cases element with
  | node raw children => cases reads
  | token raw found =>
      by_cases isKind : Kind.ofRaw raw = kind
      · obtain rfl : found = text := by simpa [Element.tokenText?, isKind] using reads
        exact ⟨raw, inNode⟩
      · simp [Element.tokenText?, isKind] at reads

theorem name_token (node : Node) (name : String) (named : node.name? = some name) :
    ∃ raw, Element.token raw name ∈ node.elements :=
  text_token node .ident name (List.mem_of_head? named)

theorem owner_of_declared (node : Node) (symbol : Symbol) (declared : declared? node = some symbol)
    (isLocal : symbol.isParameterOrLocal) (some : symbol.name ≠ "") :
    (semantics node).owner? symbol = node.bodyOwner? := by
  obtain ⟨raw, own⟩ := name_token node symbol.name (name_of_declared node symbol declared)
  have back := Node.with_range_of_token node raw symbol.name own some
  show owner? (Node.ofRoot node.snapshot node.root) symbol = _
  simp only [owner?, declared_range node symbol declared, isLocal, back, bind, Option.bind_some, if_true]

theorem declared_once (first second : Node) (symbol : Symbol) (inTree : first.SameTree second) (named : symbol.name ≠ "")
    (isFirst : declared? first = some symbol) (isSecond : declared? second = some symbol) : first = second := by
  obtain ⟨raw, own⟩ := name_token first symbol.name (name_of_declared first symbol isFirst)
  obtain ⟨raw', own'⟩ := name_token second symbol.name (name_of_declared second symbol isSecond)
  have ranges : first.range = second.range :=
    Option.some.inj ((declared_range first symbol isFirst).symm.trans (declared_range second symbol isSecond))
  have toFirst := Node.with_range_of_token first raw symbol.name own named
  have toSecond := Node.with_range_of_token second raw' symbol.name own' named
  rw [inTree.1, inTree.2, ranges, toSecond] at toFirst
  exact (Option.some.inj toFirst).symm

def ownerThrough (root : Node) (covering : Range → Option Node) (symbol : Symbol) : Option Node := do
  let range ← symbol.declaration?
  if symbol.isParameterOrLocal && root.range.contains range then
    let deepest ← covering range
    let declaring ← deepest.ancestorsOrSelf.find? (·.range == range)
    declaring.bodyOwner?
  else none

theorem owner_through_covering (root : Node) (symbol : Symbol) : ownerThrough root root.covering? symbol = owner? root symbol := by
  unfold ownerThrough owner?
  cases symbol.declaration? with
  | none => rfl
  | some range =>
      cases isLocal : symbol.isParameterOrLocal with
      | false => rfl
      | true =>
          simp only [bind, Option.bind_some, Bool.true_and, if_true, Node.withRange?, Option.bind_assoc]
          split
          · rfl
          · rename_i other
            rw [Node.covering?, if_neg other, Option.bind_none]

theorem owner_through_congr (root : Node) (covering covering' : Range → Option Node) (symbol : Symbol)
    (agree : ∀ range : Range, root.range.contains range → covering' range = covering range) :
    ownerThrough root covering' symbol = ownerThrough root covering symbol := by
  unfold ownerThrough
  cases symbol.declaration? with
  | none => rfl
  | some range =>
      simp only [bind, Option.bind_some]
      split
      · rename_i asked
        rw [agree range (Bool.and_eq_true_iff.mp asked).2]
      · rfl

theorem owner_through_some (root : Node) (covering : Range → Option Node) (symbol : Symbol) (owner : Node)
    (found : ownerThrough root covering symbol = some owner) : owner.kind.isBodyOwner := by
  simp only [ownerThrough, bind, Option.bind_eq_some_iff] at found
  obtain ⟨range, -, found⟩ := found
  split at found
  · obtain ⟨_, -, found⟩ := Option.bind_eq_some_iff.mp found
    obtain ⟨declaring, -, found⟩ := Option.bind_eq_some_iff.mp found
    exact ((Node.body_owner_iff declaring owner).mp found).owns
  · cases found

theorem owner_through_declared (snapshot : Nat) (tree : Tree) (covering : Range → Option Node)
    (finds : (Node.ofRoot snapshot tree).CoversDeepest covering) (place : Node) (symbol : Symbol)
    (inTree : place ∈ (Node.ofRoot snapshot tree).descendantsOrSelf) (declared : declared? place = some symbol)
    (isLocal : symbol.isParameterOrLocal) (named : symbol.name ≠ "") :
    ownerThrough (.ofRoot snapshot tree) covering symbol = place.bodyOwner? := by
  have sameTree := Node.same_tree_of_descendant _ place inTree
  have number : place.snapshot = snapshot := sameTree.1
  have whole : place.root = tree := sameTree.2
  obtain ⟨raw, own⟩ := name_token place symbol.name (name_of_declared place symbol declared)
  have positive : 0 < symbol.name.utf8ByteSize :=
    Nat.pos_of_ne_zero fun empty => named (String.utf8ByteSize_eq_zero_iff.mp empty)
  have long : place.range.start < place.range.stop := by
    have size : symbol.name.utf8ByteSize ≤ place.focus.length := length_of_mem _ _ own
    show place.start < place.start + place.focus.length
    omega
  have held := Node.range_of_below _ place inTree
  -- The given search and the resolver's own come to the same node.
  obtain ⟨deepest, found, isDeepest⟩ := finds place.range long held
  obtain ⟨deepest', found', isDeepest'⟩ := Node.covering_deepest snapshot tree place.range long held
  obtain rfl := Node.deepest_once _ _ _ _ long isDeepest isDeepest'
  have back := owner_of_declared place symbol declared isLocal named
  rw [← back]
  show _ = owner? (Node.ofRoot place.snapshot place.root) symbol
  rw [number, whole, ← owner_through_covering]
  simp only [ownerThrough, declared_range place symbol declared, bind, Option.bind_some, found, found']

-- For every search that finds the deepest node: the range of a parameter or local with a name leads to what its declaration
-- belongs to, and no other node declares the symbol. Whatever the range of a symbol, the search is asked for no range outside
-- the root's, and what a symbol belongs to is a lambda, a method or a constructor. The resolver's own search is one of those.
theorem range_leads_to_owner (snapshot : Nat) (tree : Tree) (covering : Range → Option Node)
    (finds : (Node.ofRoot snapshot tree).CoversDeepest covering) :
    let root := Node.ofRoot snapshot tree
    (∀ place ∈ root.descendantsOrSelf, ∀ symbol, declared? place = some symbol → symbol.isParameterOrLocal → symbol.name ≠ "" →
      (∀ owner, ownerThrough root covering symbol = some owner ↔ place.BelongsTo owner) ∧
        ∀ other ∈ root.descendantsOrSelf, declared? other = some symbol → other = place) ∧
      (∀ symbol, (∀ covering', (∀ range : Range, root.range.contains range → covering' range = covering range) →
          ownerThrough root covering' symbol = ownerThrough root covering symbol) ∧
        ∀ owner, ownerThrough root covering symbol = some owner → owner.kind.isLambda ∨ owner.kind.isMethodLike) ∧
      root.CoversDeepest root.covering? ∧ ∀ symbol, owner? root symbol = ownerThrough root root.covering? symbol := by
  intro root
  refine ⟨?_, ?_, fun range => Node.covering_deepest snapshot tree range, fun symbol => (owner_through_covering root symbol).symm⟩
  · intro place inTree symbol declared isLocal named
    refine ⟨fun owner => ?_, fun other isOther declares => ?_⟩
    · rw [owner_through_declared snapshot tree covering finds place symbol inTree declared isLocal named]
      exact Node.body_owner_iff place owner
    · have together := Node.same_tree_trans (Node.same_tree_of_descendant root other isOther)
        (Node.same_tree_symm (Node.same_tree_of_descendant root place inTree))
      exact declared_once other place symbol together named declares declared
  · refine fun symbol => ⟨fun covering' agree => owner_through_congr root covering covering' symbol agree, fun owner found => ?_⟩
    exact Bool.or_eq_true_iff.mp (owner_through_some root covering symbol owner found)

theorem lambda_parameter_leads_back :
    let root := Node.ofRoot 0 (Build.argument (Build.simpleLambda "x" (Build.identifierName "x")))
    let lambda := root.children.headD root
    let parameter := lambda.children.headD root
    let symbol : Symbol := ⟨"x", .parameter, .byValue, none, some ⟨0, 1⟩⟩
    root.CoversDeepest root.covering? ∧ parameter ∈ root.descendantsOrSelf ∧ declared? parameter = some symbol ∧
      symbol.isParameterOrLocal ∧ symbol.name ≠ "" ∧ ownerThrough root root.covering? symbol = some lambda ∧
      lambda.kind.isLambda ∧ ∀ other ∈ root.descendantsOrSelf, declared? other = some symbol → other = parameter := by
  intro root lambda parameter symbol
  have finds : root.CoversDeepest root.covering? := fun range => Node.covering_deepest 0 _ range
  have inTree : parameter ∈ root.descendantsOrSelf := by decide
  have declared : declared? parameter = some symbol := by decide
  obtain ⟨leads, -⟩ := range_leads_to_owner 0 _ root.covering? finds
  obtain ⟨owner, once⟩ := leads parameter inTree symbol declared (by decide) (by decide)
  exact ⟨finds, inTree, declared, by decide, by decide,
    (owner lambda).mpr (Node.belongs_child parameter lambda rfl (by decide)), by decide, once⟩

end Scope

end SmellCheck
