import SmellCheck.Proofs.ChildCounts
import SmellCheck.Proofs.TokenMarks
import SmellCheck.Proofs.Trimming

/-!
The tokens that the fixes take away. A redundant guard gives way to the inside of its body and a removed
statement to nothing; so the document after such a fix has exactly the tokens that are marked to stay.
-/

set_option autoImplicit false

namespace SmellCheck

namespace Fix

def isBlank (element : Element) : Bool := element.kind == .whitespace

-- A block gives way to what is between its first and its last element, white space at the ends aside;
-- any other body stays.
def bodyCut (body : Element) : Cut :=
  match body with
  | .node raw children =>
      if Kind.ofRaw raw = .block then
        let inside := (children.drop 1).dropLast
        ⟨children.take 1 ++ inside.takeWhile isBlank, blockContents ⟨raw, children⟩,
          ((inside.dropWhile isBlank).reverse.takeWhile isBlank).reverse ++ (children.drop 1).getLast?.toList⟩
      else ⟨[], [body], []⟩
  | .token .. => ⟨[], [body], []⟩

def guardCut (guard : Element) : Cut :=
  match guard with
  | .node _ children =>
      match children.reverse.dropWhile (!·.isNode) with
      | [] => ⟨[guard], [], []⟩
      | body :: front =>
          ⟨front.reverse ++ (bodyCut body).before, (bodyCut body).contents,
            (bodyCut body).after ++ (children.reverse.takeWhile (!·.isNode)).reverse⟩
  | .token .. => ⟨[guard], [], []⟩

def cutOut (rule : Rule) (element : Element) : Cut :=
  match rule with
  | .unnecessaryShimsContext => guardCut element
  | _ => ⟨[element], [], []⟩

theorem ends_of_list {α : Type} (items : List α) :
    items.take 1 ++ ((items.drop 1).dropLast ++ (items.drop 1).getLast?.toList) = items := by
  have back : ∀ rest : List α, rest.dropLast ++ rest.getLast?.toList = rest := by
    intro rest
    cases rest using List.reverseRecOn with
    | nil => rfl
    | append_singleton front last => simp
  rw [back, List.take_append_drop]

theorem trimmed_split {α : Type} (drop : α → Bool) (items : List α) :
    let inside := (items.drop 1).dropLast
    items.take 1 ++ inside.takeWhile drop ++ Text.trimWhere drop inside ++
      (((inside.dropWhile drop).reverse.takeWhile drop).reverse ++ (items.drop 1).getLast?.toList) = items := by
  intro inside
  calc _ = items.take 1 ++ ((inside.takeWhile drop ++ Text.trimWhere drop inside ++
          ((inside.dropWhile drop).reverse.takeWhile drop).reverse) ++ (items.drop 1).getLast?.toList) := by
        simp only [List.append_assoc]
    _ = items := by rw [Text.trim_where_split, ends_of_list]

theorem block_cut (raw : RawKind) (children : List Element) (isBlock : Kind.ofRaw raw = .block) :
    let cut := bodyCut (.node raw children)
    cut.before ++ cut.contents ++ cut.after = children := by
  intro cut
  have shape : cut = bodyCut (.node raw children) := rfl
  rw [bodyCut, if_pos isBlock] at shape
  rw [shape]
  exact trimmed_split isBlank children

theorem body_cut (raw : RawKind) (children : List Element) : (bodyCut (.node raw children)).Of (.node raw children) := by
  by_cases isBlock : Kind.ofRaw raw = .block
  · refine ⟨congrArg Forest.leaves (block_cut raw children isBlock), ?_⟩
    rw [bodyCut, if_pos isBlock]
    intro last isLast
    have solid : isBlank last = false := Text.trim_where_last isBlank _ last isLast
    cases last with
    | token raw text => exact solid
    | node raw children => rfl
  · rw [bodyCut, if_neg isBlock]
    refine ⟨by simp [Cut.leaves, Forest.leaves], ?_⟩
    intro last isLast
    cases isLast
    rfl

theorem guard_cut (raw : RawKind) (children : List Element) : (guardCut (.node raw children)).Of (.node raw children) := by
  rw [guardCut]
  cases last : children.reverse.dropWhile (!·.isNode) with
  | nil => exact ⟨by simp [Cut.leaves, Forest.leaves], nofun⟩
  | cons body front =>
      have isNode : body.isNode := by
        have first := List.head?_dropWhile_not (!·.isNode) children.reverse
        rw [last] at first
        simpa using first
      have split : front.reverse ++ body :: (children.reverse.takeWhile (!·.isNode)).reverse = children := by
        have whole := List.takeWhile_append_dropWhile (p := fun element : Element => !element.isNode) (l := children.reverse)
        rw [last] at whole
        calc _ = (children.reverse.takeWhile (!·.isNode) ++ body :: front).reverse := by simp
          _ = children := by rw [whole, List.reverse_reverse]
      cases body with
      | token raw text => cases isNode
      | node raw' inside =>
          obtain ⟨leaves, trimmed⟩ := body_cut raw' inside
          refine ⟨?_, trimmed⟩
          rw [Cut.leaves] at leaves
          rw [Element.leaves, Cut.leaves]
          conv_rhs => rw [← split]
          simp only [forest_leaves_append, Forest.leaves, List.append_assoc] at leaves ⊢
          rw [← leaves]
          simp only [List.append_assoc]

theorem cut_out (rule : Rule) (element : Element) (isNode : element.isNode) : (cutOut rule element).Of element := by
  cases element with
  | token raw text => cases isNode
  | node raw children =>
      unfold cutOut
      split
      · exact guard_cut raw children
      · exact ⟨by simp [Cut.leaves, Forest.leaves], nofun⟩

theorem last_subtree (children : List Element) :
    (children.filterMap Element.asNode?).getLast? = (children.reverse.dropWhile (!·.isNode)).head?.bind Element.asNode? := by
  rw [← List.head?_reverse, ← List.filterMap_reverse]
  induction children.reverse with
  | nil => rfl
  | cons element rest ih =>
      cases element with
      | token raw text => exact ih
      | node raw children => rfl

theorem guard_request_contents (guard : Node) : (guardRequest guard).given = (guardCut guard.focus.toElement).contents := by
  have last : guard.lastChild?.map Node.focus = guard.focus.subtrees.getLast? := by
    rw [← Node.children_focus, List.getLast?_map]
    rfl
  have given : (guardRequest guard).given = (guard.lastChild?.map Node.focus).elim [] unwrappedBody := by
    cases found : guard.lastChild? <;> rw [guardRequest, found] <;> rfl
  rw [given, last, Tree.subtrees, last_subtree, Tree.toElement, guardCut]
  cases back : guard.focus.children.reverse.dropWhile (!·.isNode) with
  | nil => rfl
  | cons body front =>
      have isNode := List.head?_dropWhile_not (!·.isNode) guard.focus.children.reverse
      rw [back] at isNode
      cases body with
      | token raw text => cases isNode
      | node raw inside =>
          show unwrappedBody ⟨raw, inside⟩ = (bodyCut (.node raw inside)).contents
          unfold unwrappedBody bodyCut
          split
          · rename_i isBlock
            dsimp only
            rw [if_pos (show Kind.ofRaw raw = .block from isBlock)]
          · rename_i other
            dsimp only
            rw [if_neg (show Kind.ofRaw raw ≠ .block from other)]
            rfl

theorem removal_edit (rule : Rule) (home : Node) (request : Request) (asked : request ∈ removals rule home) :
    request.edit = (cutOut rule request.target.focus.toElement).edit := by
  unfold removals at asked
  split at asked
  · split at asked
    · obtain ⟨guard, -, rfl⟩ := List.mem_map.mp asked
      show (guardRequest guard).edit = (guardCut guard.focus.toElement).edit
      rw [Cut.edit, ← guard_request_contents]
      rfl
    · cases asked
  · cases found : ShimChain.find? home with
    | none =>
        rw [found] at asked
        cases asked
    | some chain =>
        rw [found] at asked
        obtain ⟨link, -, rfl⟩ := List.mem_map.mp asked
        rfl
  · cases asked

def takes (rule : Rule) (home : Node) (path : List Nat) : Bool := (removed rule home).any (·.target.path == path)

theorem takes_eq (rule : Rule) (home : Node) (path : List Nat) :
    takes rule home path = (Request.on? (removed rule home) path).isSome := by
  rw [takes, Request.on?, Bool.eq_iff_iff, List.any_eq_true, List.find?_isSome]

theorem removal_cuts (rule : Rule) (home : Node) :
    Plan.Cuts ((removed rule home).map Request.planned) (takes rule home) (cutOut rule) 0 home.root.children := by
  intro offset path child target isChild found _
  have place : home.root.toElement.at? ((0 + offset) :: path) = some target := by
    rw [Nat.zero_add]
    exact Option.bind_eq_some_iff.mpr ⟨child, isChild, found⟩
  rw [Session.edits_from_requests, takes_eq]
  cases planned : Request.on? (removed rule home) ((0 + offset) :: path) with
  | none => rfl
  | some request =>
      obtain ⟨member, samePath⟩ := Session.on_eq_some _ _ planned
      have same : request.target.SameTree home := ((Session.reached_history home (removals rule home)).within request member).1
      have focus := at_path request.target home same
      rw [samePath, place] at focus
      rw [Option.some.inj focus]
      exact congrArg some (removal_edit rule home request (Session.mem_accepted _ _ _ member))

end Fix

namespace Catalog

open SmellCheck.Fix

theorem removal_marks (catalog : Catalog) (rule : Rule) (removing : rule = .unnecessaryShimsContext ∨ rule = .removeFakes)
    (home : Node) (result : Tree) (fixed : catalog.fix rule.id home = .ok result) :
    (home.root.marks (takes rule home) (cutOut rule)).leaves = home.root.leaves ∧
      (home.root.marks (takes rule home) (cutOut rule)).staying = result.leaves := by
  obtain ⟨rule', fixer, sameId, fixable, rfl⟩ := fix_ok catalog rule.id home result fixed
  obtain rfl : rule = rule' := Rule.id_injective _ _ sameId
  have reached := Session.reached_history home (removals rule home)
  rw [removal_applied rule removing fixer fixable home, Session.apply, reached.root, reached.edits]
  exact tree_marks (cutOut rule) (cut_out rule) _ _ _ (removal_cuts rule home)

end Catalog

end SmellCheck
