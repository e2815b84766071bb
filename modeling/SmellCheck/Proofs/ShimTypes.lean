import Mathlib.Data.List.TakeWhile
import SmellCheck.Proofs.CopiedLambdas
import SmellCheck.Proofs.RemovalMarks
import SmellCheck.Proofs.Spots

/-!
The type of a shim. It is named by the text of the receiver up to the first dot, trimmed, whatever tree
the receiver is. That is the leftmost operand of the receiver when the operand has no dot of its own and
nothing but white space is next to it.
-/

set_option autoImplicit false

namespace SmellCheck

-- A tree with the texts that stand before and after it.
structure Operand where
  before : String
  tree : Tree
  after : String
deriving DecidableEq

namespace Operand

def whole (tree : Tree) : Operand := ⟨"", tree, ""⟩

def text (operand : Operand) : String := operand.before ++ operand.tree.text ++ operand.after

def precededBy (text : String) (operand : Operand) : Operand := { operand with before := text ++ operand.before }

def followedBy (operand : Operand) (text : String) : Operand := { operand with after := operand.after ++ text }

theorem preceded_by_text (text : String) (operand : Operand) : (operand.precededBy text).text = text ++ operand.text := by
  simp [Operand.text, precededBy, String.append_assoc]

theorem followed_by_text (text : String) (operand : Operand) : (operand.followedBy text).text = operand.text ++ text := by
  simp [Operand.text, followedBy, String.append_assoc]

theorem whole_text (tree : Tree) : (whole tree).text = tree.text := by
  simp [Operand.text, whole]

end Operand

mutual
def Element.leftmost? : Element → Option Operand
  | .token .. => none
  | .node raw children =>
      let whole := Operand.whole ⟨raw, children⟩
      some (if Kind.ofRaw raw = .memberAccess then (Forest.leftmost? children).getD whole else whole)

def Forest.leftmost? : List Element → Option Operand
  | [] => none
  | element :: rest =>
      match element.leftmost? with
      | some operand => some (operand.followedBy (Forest.text rest))
      | none => (Forest.leftmost? rest).map (Operand.precededBy element.text)
end

def Tree.leftmost (tree : Tree) : Operand :=
  if tree.kind = .memberAccess then (Forest.leftmost? tree.children).getD (.whole tree) else .whole tree

theorem forest_leftmost (children : List Element) :
    (Forest.leftmost? children).map Operand.tree = (children.filterMap Element.asNode?).head?.map fun child => child.leftmost.tree := by
  induction children with
  | nil => rfl
  | cons element rest ih =>
      cases element with
      | token raw text =>
          rw [Forest.leftmost?, Element.leftmost?, Option.map_map]
          exact ih
      | node raw children => rfl

theorem leftmost_tree (tree : Tree) : tree.leftmost.tree =
    if tree.kind = .memberAccess then tree.subtrees.head?.elim tree fun child => child.leftmost.tree else tree := by
  rw [Tree.leftmost]
  split
  · have inside := forest_leftmost tree.children
    rw [Tree.subtrees]
    cases first : (tree.children.filterMap Element.asNode?).head? <;> rw [first] at inside
    · rw [Option.map_eq_none_iff.mp inside]
      rfl
    · obtain ⟨operand, found, same⟩ := Option.map_eq_some_iff.mp inside
      rw [found]
      exact same
  · rfl

-- Where the way through the first children of member accesses ends.
inductive Node.Leftmost : Node → Node → Prop where
  | here (node : Node) (ends : node.kind = .memberAccess → node.firstChild? = none) : Leftmost node node
  | deeper (node child operand : Node) (isAccess : node.kind = .memberAccess) (isFirst : node.firstChild? = some child)
      (reached : Leftmost child operand) : Leftmost node operand

theorem leftmost_reached (node : Node) : ∃ operand, node.Leftmost operand ∧ operand.focus = node.focus.leftmost.tree := by
  induction node using Node.induction_down with
  | step node ih =>
      rw [leftmost_tree]
      by_cases isAccess : node.focus.kind = .memberAccess
      · rw [if_pos isAccess, ← first_child_focus]
        cases isFirst : node.firstChild? with
        | none => exact ⟨node, .here node fun _ => isFirst, rfl⟩
        | some child =>
            obtain ⟨operand, reached, focus⟩ := ih child (List.mem_of_head? isFirst)
            exact ⟨operand, .deeper node child operand isAccess isFirst reached, focus⟩
      · rw [if_neg isAccess]
        exact ⟨node, .here node fun access => absurd access isAccess, rfl⟩

mutual
theorem element_leftmost_text : (element : Element) → ∀ operand ∈ element.leftmost?, operand.text = element.text
  | .token _ _ => nofun
  | .node raw children => by
      intro operand found
      obtain rfl := Option.some.inj found
      split
      · cases inner : Forest.leftmost? children with
        | none => exact Operand.whole_text _
        | some operand => exact forest_leftmost_text children operand inner
      · exact Operand.whole_text _

theorem forest_leftmost_text : (forest : List Element) → ∀ operand ∈ Forest.leftmost? forest, operand.text = Forest.text forest
  | [] => nofun
  | element :: rest => by
      intro operand found
      rw [Forest.leftmost?] at found
      cases first : element.leftmost? with
      | some own =>
          rw [first] at found
          obtain rfl := Option.some.inj found
          rw [Operand.followed_by_text, element_leftmost_text element own first, Forest.text]
      | none =>
          rw [first] at found
          obtain ⟨own, inRest, rfl⟩ := Option.map_eq_some_iff.mp found
          rw [Operand.preceded_by_text, forest_leftmost_text rest own inRest, Forest.text]
end

theorem leftmost_text (tree : Tree) : tree.leftmost.text = tree.text := element_leftmost_text tree.toElement _ rfl

namespace Text

theorem first_in_front {α : Type} (keep : α → Bool) (front back : List α) (stops : ¬ front.all keep) :
    (front ++ back).takeWhile keep = front.takeWhile keep := by
  have shorter : (front.takeWhile keep).length ≠ front.length := by
    intro all
    have whole := (List.takeWhile_prefix keep).eq_of_length all
    exact stops (List.all_eq_true.mpr (List.takeWhile_eq_self_iff.mp whole))
  rw [List.takeWhile_append, if_neg shorter]

section

variable {α : Type} (drop keep : α → Bool) (blankKept : ∀ item, drop item → keep item)

include blankKept

theorem trim_first_of_trim (items : List α) :
    trimWhere drop ((trimWhere drop items).takeWhile keep) = trimWhere drop (items.takeWhile keep) := by
  have blank : ∀ others : List α, (others.takeWhile drop).all drop := fun others =>
    List.all_eq_true.mpr fun item member => List.mem_takeWhile_imp member
  have kept : ∀ others : List α, others.all drop → ∀ item ∈ others, keep item := fun others all item member =>
    blankKept item (List.all_eq_true.mp all item member)
  have trailing : ((items.dropWhile drop).reverse.takeWhile drop).reverse.all drop := by
    rw [List.all_reverse]
    exact blank _
  have parts := congrArg (List.takeWhile keep) (trim_where_split drop items)
  rw [List.append_assoc, List.takeWhile_append_of_pos (kept _ (blank items)), List.takeWhile_append,
    List.takeWhile_eq_self_iff.mpr (kept _ trailing)] at parts
  -- What is blank at the end is left out with the rest, unless all that is trimmed is kept.
  split at parts <;> rw [← parts]
  · rename_i all
    rw [← List.append_assoc, trim_blank_ends drop _ _ _ (blank items) trailing,
      (List.takeWhile_prefix keep).eq_of_length all]
  · exact (trim_blank_ends drop _ _ [] (blank items) rfl).symm.trans (by rw [List.append_nil])

theorem first_is_middle_iff (front items back : List α) :
    trimWhere drop ((front ++ items ++ back).takeWhile keep) = trimWhere drop items ↔
      (front.all drop ∧ items.all keep ∧ (back.takeWhile keep).all drop) ∨
      (¬ front.all keep ∧ trimWhere drop (front.takeWhile keep) = trimWhere drop items) := by
  by_cases frontKept : front.all keep
  · have first : (front ++ items ++ back).takeWhile keep = front ++ (items ++ back).takeWhile keep := by
      rw [List.append_assoc, List.takeWhile_append_of_pos (List.all_eq_true.mp frontKept)]
    rw [first]
    by_cases itemsKept : items.all keep
    · rw [List.takeWhile_append_of_pos (List.all_eq_true.mp itemsKept), ← List.append_assoc, trim_surrounded_iff]
      simp [frontKept, itemsKept]
    · rw [first_in_front keep items back itemsKept]
      -- What is not kept is not blank, so that it is still there when the middle part is trimmed.
      have lost : trimWhere drop (front ++ items.takeWhile keep) ≠ trimWhere drop items := by
        intro same
        obtain ⟨item, member, notKept⟩ : ∃ item ∈ items, keep item = false := by simpa using itemsKept
        have notBlank : drop item = false := by
          cases isBlank : drop item with
          | false => rfl
          | true => rw [blankKept item isBlank] at notKept; cases notKept
        have solid : item ∈ (trimWhere drop items).filter (!drop ·) := by
          rw [trim_keeps]
          exact List.mem_filter.mpr ⟨member, by rw [notBlank]; rfl⟩
        rw [← same, trim_keeps, List.filter_append, List.mem_append] at solid
        have isKept : keep item := by
          rcases solid with inFront | inItems
          · exact List.all_eq_true.mp frontKept item (List.mem_filter.mp inFront).1
          · exact List.mem_takeWhile_imp (List.mem_filter.mp inItems).1
        rw [notKept] at isKept
        cases isKept
      simp [lost, frontKept, itemsKept]
  · have notBlank : ¬ front.all drop := fun blank =>
      frontKept (List.all_eq_true.mpr fun item member => blankKept item (List.all_eq_true.mp blank item member))
    rw [List.append_assoc, first_in_front keep front _ frontKept]
    simp [frontKept, notBlank]

end

end Text

theorem dotted_member (receiver name : String) (plain : '.' ∉ receiver.toList) (namePlain : '.' ∉ name.toList) :
    Build.dotted (receiver ++ ("." ++ name)) = Build.memberAccess (Build.identifierName receiver) name := by
  have differs : ∀ text : String, '.' ∉ text.toList → ∀ ch ∈ text.toList, (ch == '.') = false := by
    intro text without ch member
    exact beq_false_of_ne fun same => without (same ▸ member)
  have pieces : Text.split '.' (receiver ++ ("." ++ name)) = [receiver, name] := by
    rw [Text.split, String.toList_append, String.toList_append]
    show (Text.splitWhere (· == '.') (receiver.toList ++ '.' :: name.toList)).map String.ofList = _
    rw [Text.splitWhere_first _ _ _ _ (by rfl) (differs receiver plain), Text.splitWhere_plain _ _ (differs name namePlain)]
    simp
  rw [Build.dotted, pieces]
  rfl

namespace Fix

theorem shim_names (type : String) (entries : List Tree) (plain : '.' ∉ type.toList) :
    (constructorShim type entries).toElement.at? [0, 0] =
        some (Build.memberAccess (Build.identifierName type) "Constructor").toElement ∧
      (constructorShim type entries).toElement.at? creationPath = some (Build.objectCreation (Build.identifierName type)
        (some [Build.identifierName "_"]) (some (Build.initializer .objectInitializer entries))).toElement := by
  refine ⟨?_, rfl⟩
  rw [← dotted_member type "Constructor" plain (by decide)]
  rfl

theorem first_segment_plain (text : String) : '.' ∉ (Text.trim (Text.firstSegment '.' text)).toList := by
  rw [Text.trim, Text.firstSegment, String.toList_ofList, String.toList_ofList]
  intro member
  simpa using List.mem_takeWhile_imp ((Text.trim_where_sublist _ _).subset member)

theorem blank_is_no_dot (ch : Char) (blank : Text.isBlank ch) : ch != '.' := by
  by_cases same : ch = '.'
  · rw [same] at blank
    cases blank
  · exact bne_iff_ne.mpr same

theorem first_segment_of_trim (text : String) :
    Text.trim (Text.firstSegment '.' (Text.trim text)) = Text.trim (Text.firstSegment '.' text) := by
  simp only [Text.trim, Text.firstSegment, String.toList_ofList]
  exact congrArg String.ofList (Text.trim_first_of_trim Text.isBlank (· != '.') blank_is_no_dot text.toList)

theorem first_segment_is_operand_iff (operand : Operand) :
    Text.trim (Text.firstSegment '.' operand.text) = Text.trim operand.tree.text ↔
      (Text.isBlankText operand.before ∧ '.' ∉ operand.tree.text.toList ∧
        Text.isBlankText (Text.firstSegment '.' operand.after)) ∨
      ('.' ∈ operand.before.toList ∧ Text.trim (Text.firstSegment '.' operand.before) = Text.trim operand.tree.text) := by
  have noDot : ∀ chars : List Char, chars.all (· != '.') ↔ '.' ∉ chars := by
    intro chars
    simp only [List.all_eq_true, bne_iff_ne]
    exact ⟨fun all member => all _ member rfl, fun without ch member same => without (same ▸ member)⟩
  have onChars := Text.first_is_middle_iff Text.isBlank (· != '.') blank_is_no_dot operand.before.toList
    operand.tree.text.toList operand.after.toList
  simp only [noDot, not_not] at onChars
  simp only [Text.trim, Text.firstSegment, Text.isBlankText, Operand.text, String.toList_append, String.toList_ofList,
    String.ofList_inj]
  exact onChars

end Fix

namespace Catalog

open SmellCheck.Fix

-- Simplifying names the type by the text of the receiver up to the first dot, in the constructor that is
-- assigned to and in the instance that is created. This is the leftmost operand of the receiver just when that
-- has no dot and nothing else is next to it up to the first dot.
theorem shim_named_by_first_segment (catalog : Catalog) (home : Node) (result : Tree)
    (fixed : catalog.fix Rule.simplifyFakes.id home = .ok result) (rewrites : (simplifyFakes home).isSome) :
    ∃ (receiver diagnosed place : Node) (type : String) (initializer : Tree), home.firstChild? = some receiver ∧
      (∃ assignment, home.parent = some assignment ∧ assignment.parent = some diagnosed) ∧
      place.root = result ∧ place.path = diagnosed.path ∧
      type = Text.trim (Text.firstSegment '.' receiver.text) ∧
      place.focus.toElement.at? [0, 0] = some (Build.memberAccess (Build.identifierName type) "Constructor").toElement ∧
      place.focus.toElement.at? creationPath = some (Build.objectCreation (Build.identifierName type)
        (some [Build.identifierName "_"]) (some initializer)).toElement ∧
      let operand := receiver.focus.leftmost
      (∃ leftmost, receiver.Leftmost leftmost ∧ leftmost.focus = operand.tree) ∧ operand.text = receiver.text ∧
      (type = Text.trim operand.tree.text ↔
        (Text.isBlankText operand.before ∧ '.' ∉ operand.tree.text.toList ∧
          Text.isBlankText (Text.firstSegment '.' operand.after)) ∨
        ('.' ∈ operand.before.toList ∧ Text.trim (Text.firstSegment '.' operand.before) = Text.trim operand.tree.text)) := by
  have rewritten := fix_rewrites catalog .simplifyFakes simplifyFakes rfl home result fixed rewrites
  obtain ⟨chain, entries, place, found, -, root, path, focus⟩ := simplify_shape home result rewritten
  obtain ⟨link, receiver, isLink, isFirst, named, statement, -⟩ := chain_eq home chain found
  obtain ⟨assignment, shape⟩ := link_shape home link isLink
  rw [named, Node.trimmed, first_segment_of_trim] at focus
  obtain ⟨assigned, created⟩ := shim_names _ entries (first_segment_plain receiver.text)
  refine ⟨receiver, chain.diagnosed, place, _, _, isFirst, ⟨assignment, shape.parent, statement ▸ shape.statement⟩, root, path, rfl,
    by rw [focus, assigned], by rw [focus, created], ?_⟩
  refine ⟨leftmost_reached receiver, leftmost_text receiver.focus, ?_⟩
  rw [← first_segment_is_operand_iff, leftmost_text]
  rfl

end Catalog

end SmellCheck

namespace SmellCheck.Shimmed

def assigned (receiver : Tree) : Node :=
  let target := Build.memberAccess receiver "Total"
  ⟨0, target, [⟨Kind.assignment.raw, [], (Build.assignment target (value "1")).children.tail⟩,
    ⟨Kind.exprStmt.raw, [], [Build.punct ";"]⟩, ⟨Kind.block.raw, [Build.space, Build.punct "\x7b"], [Build.space, Build.punct "\x7d"]⟩]⟩

def ofType (type : String) : Tree := Build.block [Fix.constructorShim type [entry "Total" "1"]]

end SmellCheck.Shimmed

namespace SmellCheck.Catalog

open SmellCheck.Fix Shimmed

theorem plain_operand_names_shim :
    let home := assigned (Build.memberAccess (Build.identifierName "ShimOrder") "AllInstances")
    builtin.fix Rule.simplifyFakes.id home = .ok (ofType "ShimOrder") ∧ (simplifyFakes home).isSome ∧
      home.firstChild?.map (·.focus.leftmost) = some ⟨"", Build.identifierName "ShimOrder", ".AllInstances"⟩ ∧
      ∃ place : Node, place.root = ofType "ShimOrder" ∧ place.focus.toElement.at? [0, 0] =
        some (Build.memberAccess (Build.identifierName "ShimOrder") "Constructor").toElement := by
  intro home
  have rewritten : simplifyFakes home = some (ofType "ShimOrder") := by decide +kernel
  have fixed := builtin_fix .simplifyFakes simplifyFakes rfl home _ rewritten
  have isOperand : home.firstChild?.map (·.focus.leftmost) = some ⟨"", Build.identifierName "ShimOrder", ".AllInstances"⟩ := by
    decide +kernel
  obtain ⟨receiver, diagnosed, place, type, initializer, isFirst, -, root, -, -, assigned, -, -, -, named⟩ :=
    shim_named_by_first_segment builtin home _ fixed (by rw [rewritten]; rfl)
  rw [isFirst] at isOperand
  have operand := Option.some.inj isOperand
  dsimp only at named operand
  rw [operand] at named
  have isWhole : type = "ShimOrder" := named.mpr (.inl ⟨rfl, by decide, rfl⟩)
  refine ⟨fixed, by rw [rewritten]; rfl, by rw [isFirst, Option.map_some, operand], place, root, ?_⟩
  rw [assigned, isWhole]

theorem dotted_operand_is_cut :
    let listed := assigned (Build.memberAccess (Build.genericName "ShimList"
      [Build.qualifiedName (Build.identifierName "System") (Build.identifierName "String")]) "AllInstances")
    let qualified := assigned (Build.qualifiedName (Build.identifierName "Fakes") (Build.identifierName "ShimOrder"))
    builtin.fix Rule.simplifyFakes.id listed = .ok (ofType "ShimList<System") ∧
      listed.firstChild?.map (·.focus.leftmost.tree.text) = some "ShimList<System.String>" ∧
      (ofType "ShimList<System").toElement.at? [2, 0, 0, 0] = some (Build.identifierName "ShimList<System").toElement ∧
      builtin.fix Rule.simplifyFakes.id qualified = .ok (ofType "Fakes") ∧
      qualified.firstChild?.map (·.focus.leftmost.tree.text) = some "Fakes.ShimOrder" ∧
      (ofType "Fakes").toElement.at? [2, 0, 0, 0] = some (Build.identifierName "Fakes").toElement := by
  intro listed qualified
  have listedMade : simplifyFakes listed = some (ofType "ShimList<System") := by decide +kernel
  have qualifiedMade : simplifyFakes qualified = some (ofType "Fakes") := by decide +kernel
  exact ⟨builtin_fix .simplifyFakes simplifyFakes rfl listed _ listedMade, by decide +kernel, by decide +kernel,
    builtin_fix .simplifyFakes simplifyFakes rfl qualified _ qualifiedMade, by decide +kernel, by decide +kernel⟩

end SmellCheck.Catalog
