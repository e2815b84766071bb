import Mathlib.Data.List.Flatten
import Mathlib.Data.List.Nodup
import SmellCheck.Proofs.Applying
import SmellCheck.Proofs.ChildNodes
import SmellCheck.Proofs.DeclaredConstants

/-!
Names of members. A class declares the names of its direct members. Where a plan exchanges literals for
names and brings new members to one place, every class of the result declares what a class from before
declares, and the class at that place the new names as well.
-/

set_option autoImplicit false

namespace SmellCheck

inductive Tree.Part (part : Tree) : Tree → Prop where
  | here : Part part part
  | inside (tree child : Tree) (isChild : child ∈ tree.subtrees) (deeper : Part part child) : Part part tree

theorem part_iff (part tree : Tree) : Tree.Part part tree ↔ part = tree ∨ ∃ child ∈ tree.subtrees, Tree.Part part child := by
  constructor
  · intro isPart
    cases isPart with
    | here => exact .inl rfl
    | inside _ child isChild deeper => exact .inr ⟨child, isChild, deeper⟩
  · rintro (rfl | ⟨child, isChild, deeper⟩)
    · exact .here
    · exact .inside tree child isChild deeper

theorem part_of_below (node below : Node) (member : below ∈ node.descendantsOrSelf) : Tree.Part below.focus node.focus := by
  induction node using Node.induction_down with
  | step node ih =>
      rcases List.mem_cons.mp member with rfl | deeper
      · exact .here
      · obtain ⟨child, isChild, within⟩ := (Node.mem_descendants _ _).mp deeper
        refine .inside _ child.focus ?_ (ih child isChild within)
        exact (Node.mem_subtrees_iff _ _).mpr ⟨child, isChild, rfl⟩

theorem below_of_part (node : Node) (part : Tree) (isPart : Tree.Part part node.focus) :
    ∃ below ∈ node.descendantsOrSelf, below.focus = part := by
  generalize whole : node.focus = tree at isPart
  induction isPart generalizing node with
  | here => exact ⟨node, List.mem_cons_self, whole⟩
  | inside tree child isChild _ ih =>
      rw [← whole, ← Node.children_focus] at isChild
      obtain ⟨inner, isInner, focus⟩ := List.mem_map.mp isChild
      obtain ⟨below, within, found⟩ := ih inner focus
      exact ⟨below, List.mem_cons_of_mem _ ((Node.mem_descendants _ _).mpr ⟨inner, isInner, within⟩), found⟩

theorem part_of_rewritten (plan : Plan) (node : Node) (part : Tree) (isPart : Tree.Part part (node.rewritten plan).focus) :
    ∃ old ∈ node.descendantsOrSelf, (old.rewritten plan).focus = part ∨
      ∃ edit, plan.edit? old.path = some edit ∧ ∃ new ∈ edit.brings, Tree.Part part new := by
  induction node using Node.induction_down with
  | step node ih =>
      rcases (part_iff _ _).mp isPart with rfl | ⟨successor, isSuccessor, deeper⟩
      · exact ⟨node, List.mem_cons_self, .inl rfl⟩
      · rw [Node.rewritten_subtrees] at isSuccessor
        obtain ⟨child, isChild, inPlace⟩ := List.mem_flatMap.mp isSuccessor
        have below : ∀ old ∈ child.descendantsOrSelf, old ∈ node.descendantsOrSelf := fun old within =>
          List.mem_cons_of_mem _ ((Node.mem_descendants _ _).mpr ⟨child, isChild, within⟩)
        rcases Edit.mem_successors _ _ _ inPlace with rfl | ⟨edit, planned, new⟩
        · obtain ⟨old, within, found⟩ := ih child isChild deeper
          exact ⟨old, below old within, found⟩
        · exact ⟨child, below child List.mem_cons_self, .inr ⟨edit, planned, successor, new, deeper⟩⟩

namespace Tree

def name? (tree : Tree) : Option String := (tree.tokenTexts .ident).head?

def declarators (field : Tree) : List Tree :=
  (field.subtrees.find? (·.kind == .variableDecl)).elim [] (·.subtrees.filter (·.kind == .variableDeclarator))

def declaredNames (member : Tree) : List String :=
  match member.kind with
  | .fieldDecl => member.declarators.filterMap name?
  | .propertyDecl | .methodDecl => member.name?.toList
  | _ => []

def memberNames (type : Tree) : List String := type.subtrees.flatMap declaredNames

def MembersApart (tree : Tree) : Prop :=
  ∀ type ∈ (Node.ofRoot 0 tree).descendantsOrSelf, type.kind = .classDecl → type.focus.memberNames.Nodup

instance (tree : Tree) : Decidable tree.MembersApart :=
  inferInstanceAs (Decidable (∀ type ∈ (Node.ofRoot 0 tree).descendantsOrSelf, _))

end Tree

theorem members_apart_iff (tree : Tree) : tree.MembersApart ↔
    ∀ type, Tree.Part type tree → type.kind = .classDecl → type.memberNames.Nodup := by
  constructor
  · intro apart type isPart isClass
    obtain ⟨place, below, rfl⟩ := below_of_part (.ofRoot 0 tree) type isPart
    exact apart place below isClass
  · intro apart place below isClass
    exact apart place.focus (part_of_below (.ofRoot 0 tree) place below) isClass

structure Plan.KeepsDeclarators (plan : Plan) (home : Node) : Prop where
  declarations : ∀ node : Node, node.SameTree home → ∀ edit, plan.edit? node.path = some edit → edit.Blind .variableDecl node
  declarators : ∀ node : Node, node.SameTree home → ∀ edit, plan.edit? node.path = some edit → edit.Blind .variableDeclarator node
  texts : ∀ path elements, plan.edit? path ≠ some (.splice elements)

section
variable (plan : Plan) (home : Node) (keeps : plan.KeepsDeclarators home)
include keeps

theorem rewritten_declared_names (node : Node) (same : node.SameTree home) :
    (node.rewritten plan).focus.declaredNames = node.focus.declaredNames := by
  have name (node : Node) : (node.rewritten plan).focus.name? = node.focus.name? :=
    congrArg List.head? (rewritten_token_texts plan node .ident (by decide) keeps.texts)
  have below (parent : Node) (inTree : parent.SameTree home) (child : Node) (isChild : child ∈ parent.children) : child.SameTree home :=
    Node.same_tree_trans (Node.same_tree_of_child parent child isChild) inTree
  have names : (node.rewritten plan).focus.declarators.filterMap Tree.name? = node.focus.declarators.filterMap Tree.name? := by
    have lists := Node.rewritten_children_of_kind plan node .variableDecl fun child isChild =>
      keeps.declarations child (below node same child isChild)
    rw [Tree.declarators, Tree.declarators, ← List.head?_filter, ← List.head?_filter, lists, ← children_of_kind_focus]
    cases found : node.childrenOfKind .variableDecl with
    | nil => rfl
    | cons declaration rest =>
        have isChild : declaration ∈ node.children := by
          refine (List.mem_filter.mp (?_ : declaration ∈ node.childrenOfKind .variableDecl)).1
          rw [found]
          exact List.mem_cons_self
        have inner := Node.rewritten_children_of_kind plan declaration .variableDeclarator fun child isInner =>
          keeps.declarators child (below declaration (below node same declaration isChild) child isInner)
        rw [List.map_cons, List.map_cons, List.head?_cons, List.head?_cons, Option.elim_some, Option.elim_some, inner,
          ← children_of_kind_focus, List.filterMap_map, List.filterMap_map]
        exact List.filterMap_congr fun declarator _ => name declarator
  have kind : (node.rewritten plan).focus.kind = node.focus.kind := Node.rewritten_kind plan node
  rw [Tree.declaredNames, Tree.declaredNames, kind, names, name]

theorem rewritten_member_names (type : Node) (same : type.SameTree home) :
    (type.rewritten plan).focus.memberNames = type.children.flatMap fun member =>
      (Edit.successors member.focus (plan.edit? member.path)).flatMap Tree.declaredNames := by
  rw [Tree.memberNames, Node.rewritten_subtrees, List.flatMap_assoc]
  refine List.flatMap_congr fun member isMember => ?_
  have own := rewritten_declared_names plan home keeps member
    (Node.same_tree_trans (Node.same_tree_of_child type member isMember) same)
  rw [Node.successors]
  cases plan.edit? member.path with
  | none => simp [Edit.successors, own]
  | some edit => cases edit <;> simp [Edit.successors, own]

end

namespace Request

def newNames (request : Request) : List String := request.edit.brings.flatMap Tree.declaredNames

def otherNames (request : Request) (type : Node) : List String :=
  (type.children.filter fun member => !(request.isDestructive && member = request.target)).flatMap fun member =>
    member.focus.declaredNames

-- What a request brings to a class: members, whose names differ, and inside them no classes but copied ones.
structure NewMembers (home : Node) (request : Request) : Prop where
  within : request.target.SameTree home
  field : request.target.kind = .fieldDecl
  members : ∀ new ∈ request.edit.brings, new.kind = .fieldDecl ∨ new.kind = .propertyDecl
  copies : ∀ new ∈ request.edit.brings, ∀ type, Tree.Part type new → type.kind = .classDecl →
    ∃ old : Node, old.SameTree home ∧ old.focus = type
  distinct : request.newNames.Nodup
  solid : ∀ elements, request.edit ≠ .splice elements

theorem NewMembers.holder_same {home : Node} {request : Request} (new : request.NewMembers home) (type : Node)
    (isParent : request.target.parent = some type) : type.SameTree home :=
  Node.same_tree_trans (Node.same_tree_of_parent _ type isParent) new.within

theorem successors_perm (rewritten : Tree) (edit : Edit) :
    (Edit.successors rewritten (some edit)).Perm ((if edit.isDestructive then [] else [rewritten]) ++ edit.brings) := by
  cases edit with
  | insertBefore nodes => exact List.perm_append_comm
  | replace nodes => exact .refl _
  | splice elements => exact .refl _
  | insertAfter nodes => exact .refl _
  | remove => exact .refl _

theorem names_after_perm (request : Request) (type : Node) (isMember : request.target ∈ type.children) :
    (type.children.flatMap fun member => if member = request.target
        then (Edit.successors member.focus (some request.edit)).flatMap Tree.declaredNames else member.focus.declaredNames).Perm
      (request.otherNames type ++ request.newNames) := by
  have once := Node.children_nodup type
  unfold otherNames newNames
  obtain ⟨front, back, split⟩ := List.append_of_mem isMember
  rw [split] at once ⊢
  obtain ⟨-, later, different⟩ := List.nodup_append.mp once
  have notFront : ∀ member ∈ front, member ≠ request.target := fun member isFront =>
    different member isFront request.target List.mem_cons_self
  have notBack : ∀ member ∈ back, member ≠ request.target := by
    rintro member isBack rfl
    exact (List.nodup_cons.mp later).1 isBack
  have beside : ∀ members : List Node, (∀ member ∈ members, member ≠ request.target) →
      (members.flatMap fun member => if member = request.target
        then (Edit.successors member.focus (some request.edit)).flatMap Tree.declaredNames else member.focus.declaredNames) =
        (members.filter fun member => !(request.isDestructive && member = request.target)).flatMap fun member =>
          member.focus.declaredNames := by
    intro members others
    rw [List.filter_eq_self.mpr fun member isMember => by simp [others member isMember]]
    exact List.flatMap_congr fun member isMember => if_neg (others member isMember)
  have here := (successors_perm request.target.focus request.edit).flatMap_right Tree.declaredNames
  rw [List.flatMap_append, List.flatMap_cons, if_pos rfl, beside front notFront, beside back notBack, List.filter_append,
    List.filter_cons, List.flatMap_append]
  rw [Request.edit_is_destructive] at here
  rw [List.perm_iff_count] at here ⊢
  intro name
  have here := here name
  cases destructive : request.isDestructive <;>
    simp [destructive, List.count_append] at here ⊢ <;> omega

theorem other_names_nodup (request : Request) (type : Node) (apart : type.focus.memberNames.Nodup) : (request.otherNames type).Nodup := by
  rw [Tree.memberNames, ← Node.children_focus, List.flatMap_map] at apart
  exact apart.sublist (List.filter_sublist.flatMap _)

end Request

structure Plan.Brings (plan : Plan) (home : Node) (request? : Option Request) : Prop where
  edits : ∀ node : Node, node.SameTree home → ∀ edit, plan.edit? node.path = some edit →
    (node.kind = .literal ∧ ∃ name, edit = .replace [Build.identifierName name]) ∨
      ∃ request, request? = some request ∧ request.target = node ∧ request.edit = edit
  texts : ∀ path elements, plan.edit? path ≠ some (.splice elements)
  members : ∀ request, request? = some request → request.NewMembers home
  planned : ∀ request, request? = some request → ∀ type, request.target.parent = some type →
    plan.edit? request.target.path = some request.edit ∧ type.Survives plan

section
variable (plan : Plan) (home : Node) (request? : Option Request) (brings : plan.Brings home request?)
include brings

theorem blind_of_brings (kind : Kind) (other : ∀ taken ∈ [Kind.literal, .identifierName, .fieldDecl, .propertyDecl], taken ≠ kind)
    (node : Node) (same : node.SameTree home) (edit : Edit) (planned : plan.edit? node.path = some edit) : edit.Blind kind node := by
  rcases brings.edits node same edit planned with ⟨isLiteral, name, rfl⟩ | ⟨request, wanted, rfl, rfl⟩
  · refine ⟨fun _ => isLiteral ▸ other .literal (by decide), fun new member => ?_⟩
    rw [List.mem_singleton.mp member, show (Build.identifierName name).kind = .identifierName from tree_kind _ _]
    exact other .identifierName (by decide)
  · have new := brings.members request wanted
    refine ⟨fun _ => new.field ▸ other .fieldDecl (by decide), fun member isNew => ?_⟩
    rcases new.members member isNew with isField | isProperty
    · exact isField ▸ other .fieldDecl (by decide)
    · exact isProperty ▸ other .propertyDecl (by decide)

theorem keeps_of_brings : plan.KeepsDeclarators home :=
  ⟨blind_of_brings plan home request? brings .variableDecl (by decide),
    blind_of_brings plan home request? brings .variableDeclarator (by decide), brings.texts⟩

theorem successors_names (member : Node) (same : member.SameTree home)
    (other : ∀ request, request? = some request → request.target ≠ member) :
    (Edit.successors member.focus (plan.edit? member.path)).flatMap Tree.declaredNames = member.focus.declaredNames := by
  cases planned : plan.edit? member.path with
  | none => exact List.flatMap_singleton ..
  | some edit =>
      rcases brings.edits member same edit planned with ⟨isLiteral, name, rfl⟩ | ⟨request, wanted, target, -⟩
      · have none : member.focus.declaredNames = [] := by
          rw [Tree.declaredNames, show member.focus.kind = .literal from isLiteral]
        rw [none]
        rfl
      · exact absurd target (other request wanted)

theorem member_names_elsewhere (type : Node) (same : type.SameTree home)
    (other : ∀ request, request? = some request → request.target.parent ≠ some type) :
    (type.rewritten plan).focus.memberNames = type.focus.memberNames := by
  rw [rewritten_member_names plan home (keeps_of_brings plan home request? brings) type same, Tree.memberNames,
    ← Node.children_focus, List.flatMap_map]
  refine List.flatMap_congr fun member isMember => ?_
  refine successors_names plan home request? brings member (Node.same_tree_trans (Node.same_tree_of_child type member isMember) same) ?_
  rintro request wanted rfl
  exact other request wanted (Node.parent_of_child type _ isMember)

theorem member_names_there (request : Request) (wanted : request? = some request) (type : Node)
    (isParent : request.target.parent = some type) :
    (type.rewritten plan).focus.memberNames.Perm (request.otherNames type ++ request.newNames) := by
  have same := (brings.members request wanted).holder_same type isParent
  have isMember := (Node.mem_children_iff type request.target).mpr isParent
  refine (List.Perm.of_eq ?_).trans (request.names_after_perm type isMember)
  rw [rewritten_member_names plan home (keeps_of_brings plan home request? brings) type same]
  refine List.flatMap_congr fun member isMember => ?_
  by_cases here : member = request.target
  · rw [if_pos here, here, (brings.planned request wanted type isParent).1]
  · rw [if_neg here]
    refine successors_names plan home request? brings member
      (Node.same_tree_trans (Node.same_tree_of_child type member isMember) same) ?_
    rintro request' wanted' rfl
    exact here (congrArg Request.target (Option.some.inj (wanted'.symm.trans wanted)))

theorem class_after_plan (type : Tree) (isPart : Tree.Part type (home.root.rewrite plan)) (isClass : type.kind = .classDecl) :
    ∃ before : Node, before.SameTree home ∧ before.kind = .classDecl ∧ (type.memberNames = before.focus.memberNames ∨
      ∃ request, request? = some request ∧ request.target.parent = some before ∧
        type.memberNames.Perm (request.otherNames before ++ request.newNames)) := by
  obtain ⟨old, below, found⟩ := part_of_rewritten plan (.ofRoot home.snapshot home.root) type isPart
  have same : old.SameTree home := Node.same_tree_of_descendant (.ofRoot home.snapshot home.root) old below
  rcases found with rfl | ⟨edit, planned, new, isNew, inNew⟩
  · have kind : old.kind = .classDecl := (Node.rewritten_kind plan old).symm.trans isClass
    refine ⟨old, same, kind, ?_⟩
    by_cases there : ∃ request, request? = some request ∧ request.target.parent = some old
    · obtain ⟨request, wanted, isParent⟩ := there
      exact .inr ⟨request, wanted, isParent, member_names_there plan home request? brings request wanted old isParent⟩
    · exact .inl (member_names_elsewhere plan home request? brings old same fun request wanted isParent =>
        there ⟨request, wanted, isParent⟩)
  · rcases brings.edits old same edit planned with ⟨-, name, rfl⟩ | ⟨request, wanted, -, rfl⟩
    · rw [List.mem_singleton.mp isNew] at inNew
      rcases (part_iff _ _).mp inNew with rfl | ⟨child, isChild, -⟩
      · exact absurd (isClass.symm.trans (tree_kind .identifierName _)) (by decide)
      · cases isChild
    · obtain ⟨before, within, rfl⟩ := (brings.members request wanted).copies new isNew type inNew isClass
      exact ⟨before, within, isClass, .inl rfl⟩

theorem nodup_after_iff (request : Request) (wanted : request? = some request) (type : Node) (names : List String)
    (perm : names.Perm (request.otherNames type ++ request.newNames)) (apart : type.focus.memberNames.Nodup) :
    names.Nodup ↔ (request.otherNames type).Disjoint request.newNames := by
  rw [perm.nodup_iff, List.nodup_append']
  exact ⟨fun both => both.2.2, fun free => ⟨request.other_names_nodup type apart, (brings.members request wanted).distinct, free⟩⟩

theorem class_of_new_members (request : Request) (type : Node) (wanted : request? = some request)
    (isParent : request.target.parent = some type) (isClass : type.kind = .classDecl) :
    ∃ after ∈ (Node.ofRoot 0 (home.root.rewrite plan)).descendantsOrSelf, after.kind = .classDecl ∧
      after.focus.memberNames.Perm (request.otherNames type ++ request.newNames) := by
  have same := (brings.members request wanted).holder_same type isParent
  have stands := Node.rewritten_root plan type (brings.planned request wanted type isParent).2
  rw [same.2] at stands
  have isPart := part_of_below _ _ (Node.mem_whole_tree (type.rewritten plan) (type.rewritten plan) ⟨rfl, rfl⟩)
  obtain ⟨after, below, focus⟩ := below_of_part (.ofRoot 0 (home.root.rewrite plan)) _ (stands ▸ isPart)
  refine ⟨after, below, ?_, ?_⟩
  · rw [Node.kind, focus]
    exact (Node.rewritten_kind plan type).trans isClass
  · rw [focus]
    exact member_names_there plan home request? brings request wanted type isParent

theorem members_apart_after_plan (apart : home.root.MembersApart) : (home.root.rewrite plan).MembersApart ↔
    ∀ request type, request? = some request → request.target.parent = some type → type.kind = .classDecl →
      (request.otherNames type).Disjoint request.newNames := by
  have before (type : Node) (same : type.SameTree home) (isClass : type.kind = .classDecl) : type.focus.memberNames.Nodup :=
    (members_apart_iff home.root).mp apart type.focus (part_of_below _ type (Node.mem_whole_tree home type same)) isClass
  constructor
  · intro apartAfter request type wanted isParent isClass
    have same := (brings.members request wanted).holder_same type isParent
    obtain ⟨after, below, afterClass, there⟩ := class_of_new_members plan home request? brings request type wanted isParent isClass
    exact (nodup_after_iff plan home request? brings request wanted type _ there (before type same isClass)).mp
      (apartAfter after below afterClass)
  · intro free
    rw [members_apart_iff]
    intro type isPart isClass
    obtain ⟨old, same, oldClass, sameNames | ⟨request, wanted, isParent, perm⟩⟩ :=
      class_after_plan plan home request? brings type isPart isClass
    · rw [sameNames]
      exact before old same oldClass
    · exact (nodup_after_iff plan home request? brings request wanted old _ perm (before old same oldClass)).mpr
        (free request old wanted isParent oldClass)

end

end SmellCheck
