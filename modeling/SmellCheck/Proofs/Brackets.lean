import SmellCheck.Proofs.Planning
import SmellCheck.Proofs.Rewriting

/-!
Brackets. A tree is well bracketed when the brackets of every subtree pair up and every block is
enclosed by its own braces. What happens to a child list only shows in its own tokens, because
whatever a child holds is balanced already; so edits that give well bracketed trees keep the tree
well bracketed.
-/

set_option autoImplicit false

namespace SmellCheck

inductive BracketShape where
  | round | curly | square
deriving DecidableEq

inductive Bracket where
  | opening (shape : BracketShape)
  | closing (shape : BracketShape)
deriving DecidableEq

namespace Bracket

def ofText? (text : String) : Option Bracket :=
  [("(", opening .round), (")", closing .round), ("\x7b", opening .curly), ("\x7d", closing .curly),
    ("[", opening .square), ("]", closing .square)].lookup text

-- The brackets still open after a word, the innermost first; none when one closes another's pair.
def settle : List BracketShape → List Bracket → Option (List BracketShape)
  | pending, [] => some pending
  | pending, .opening shape :: rest => settle (shape :: pending) rest
  | [], .closing _ :: _ => none
  | innermost :: pending, .closing shape :: rest => if innermost = shape then settle pending rest else none

def Balanced (word : List Bracket) : Prop := settle [] word = some []

instance (word : List Bracket) : Decidable (Balanced word) := inferInstanceAs (Decidable (_ = _))

theorem settle_append (pending : List BracketShape) (front back : List Bracket) :
    settle pending (front ++ back) = (settle pending front).bind (settle · back) := by
  induction front generalizing pending with
  | nil => rfl
  | cons bracket rest ih =>
      cases bracket with
      | opening shape => exact ih (shape :: pending)
      | closing shape =>
          cases pending with
          | nil => rfl
          | cons innermost pending =>
              by_cases matching : innermost = shape
              · simpa [settle, matching] using ih pending
              · simp [settle, matching]

theorem settle_above (pending left base : List BracketShape) (word : List Bracket)
    (settled : settle pending word = some left) : settle (pending ++ base) word = some (left ++ base) := by
  induction word generalizing pending with
  | nil =>
      obtain rfl : pending = left := Option.some.inj settled
      rfl
  | cons bracket rest ih =>
      cases bracket with
      | opening shape => exact ih (shape :: pending) settled
      | closing shape =>
          cases pending with
          | nil => cases settled
          | cons innermost pending =>
              by_cases matching : innermost = shape
              · simp only [settle, if_pos matching] at settled
                simpa [settle, matching] using ih pending settled
              · simp [settle, matching] at settled

theorem settle_balanced (pending : List BracketShape) (word : List Bracket) (balanced : Balanced word) :
    settle pending word = some pending := by
  simpa using settle_above [] [] pending word balanced

end Bracket

def Element.bracket? : Element → Option Bracket
  | .token raw text => if Kind.ofRaw raw = .punct then Bracket.ofText? text else none
  | .node .. => none

mutual
def Element.word : Element → List Bracket
  | .token raw text => (Element.token raw text).bracket?.toList
  | .node _ children => Forest.word children

def Forest.word : List Element → List Bracket
  | [] => []
  | element :: rest => element.word ++ Forest.word rest
end

def Forest.ownWord (forest : List Element) : List Bracket := forest.filterMap Element.bracket?

def Forest.Braced (forest : List Element) : Prop :=
  forest.head?.bind Element.bracket? = some (.opening .curly) ∧
    forest.getLast?.bind Element.bracket? = some (.closing .curly) ∧
    ∀ element ∈ (forest.drop 1).dropLast, element.bracket? = none

instance (forest : List Element) : Decidable (Forest.Braced forest) := inferInstanceAs (Decidable (_ ∧ _ ∧ _))

mutual
def Element.WellBracketed : Element → Prop
  | .token .. => True
  | .node raw children =>
      Bracket.Balanced (Forest.word children) ∧ (Kind.ofRaw raw = .block → Forest.Braced children) ∧
        Forest.WellBracketed children

def Forest.WellBracketed : List Element → Prop
  | [] => True
  | element :: rest => element.WellBracketed ∧ Forest.WellBracketed rest
end

def Tree.WellBracketed (tree : Tree) : Prop := tree.toElement.WellBracketed

mutual
def Element.decWellBracketed : (element : Element) → Decidable element.WellBracketed
  | .token .. => isTrue trivial
  | .node _ children =>
      have := Forest.decWellBracketed children
      inferInstanceAs (Decidable (_ ∧ (_ → _) ∧ _))

def Forest.decWellBracketed : (forest : List Element) → Decidable (Forest.WellBracketed forest)
  | [] => isTrue trivial
  | element :: rest =>
      have := element.decWellBracketed
      have := Forest.decWellBracketed rest
      inferInstanceAs (Decidable (_ ∧ _))
end

instance (tree : Tree) : Decidable tree.WellBracketed := tree.toElement.decWellBracketed

theorem braced_iff (forest : List Element) :
    Forest.Braced forest ↔ ∃ first inner last, forest = first :: inner ++ [last] ∧
      first.bracket? = some (.opening .curly) ∧ last.bracket? = some (.closing .curly) ∧
      ∀ element ∈ inner, element.bracket? = none := by
  constructor
  · rintro ⟨opens, closes, quiet⟩
    cases forest with
    | nil => cases opens
    | cons first rest =>
        cases rest using List.reverseRecOn with
        | nil =>
            rw [List.head?_cons, Option.bind_some] at opens
            rw [List.getLast?_singleton, Option.bind_some, opens] at closes
            cases closes
        | append_singleton inner last =>
            refine ⟨first, inner, last, rfl, opens, ?_, ?_⟩
            · rwa [← List.cons_append, List.getLast?_concat] at closes
            · simpa using quiet
  · rintro ⟨first, inner, last, rfl, opens, closes, quiet⟩
    refine ⟨opens, ?_, ?_⟩
    · rwa [List.getLast?_concat]
    · simpa using quiet

theorem forest_well_bracketed_iff (forest : List Element) :
    Forest.WellBracketed forest ↔ ∀ element ∈ forest, element.WellBracketed := by
  induction forest with
  | nil => simp [Forest.WellBracketed]
  | cons element rest ih => simp [Forest.WellBracketed, ih]

theorem own_word_append (front back : List Element) :
    Forest.ownWord (front ++ back) = Forest.ownWord front ++ Forest.ownWord back := by
  simp [Forest.ownWord]

theorem own_word_of_token (element : Element) (isToken : element.isNode = false) :
    Forest.ownWord [element] = element.word := by
  cases element with
  | token raw text => cases found : (Element.token raw text).bracket? <;> simp [Forest.ownWord, Element.word, found]
  | node _ _ => cases isToken

theorem own_word_of_node (element : Element) (isNode : element.isNode) : Forest.ownWord [element] = [] := by
  cases element with
  | token _ _ => cases isNode
  | node _ _ => rfl

theorem own_word_eq_nil_iff (forest : List Element) :
    Forest.ownWord forest = [] ↔ ∀ element ∈ forest, element.bracket? = none :=
  List.filterMap_eq_nil_iff

theorem settle_word (pending : List BracketShape) (forest : List Element) (sound : Forest.WellBracketed forest) :
    Bracket.settle pending (Forest.word forest) = Bracket.settle pending (Forest.ownWord forest) := by
  induction forest generalizing pending with
  | nil => rfl
  | cons element rest ih =>
      obtain ⟨here, later⟩ := sound
      have own : Forest.ownWord (element :: rest) = Forest.ownWord [element] ++ Forest.ownWord rest :=
        own_word_append [element] rest
      rw [Forest.word, own, Bracket.settle_append, Bracket.settle_append]
      cases isNode : element.isNode with
      | false =>
          rw [own_word_of_token element isNode]
          exact congrArg _ (funext fun left => ih left later)
      | true =>
          have balanced : Bracket.Balanced element.word := by
            cases element with
            | token _ _ => cases isNode
            | node raw children => exact here.1
          rw [own_word_of_node element isNode, Bracket.settle_balanced pending element.word balanced]
          exact ih pending later

theorem node_well_bracketed_iff (raw : RawKind) (children : List Element) :
    (Element.node raw children).WellBracketed ↔ Bracket.Balanced (Forest.ownWord children) ∧
      (Kind.ofRaw raw = .block → Forest.Braced children) ∧ Forest.WellBracketed children := by
  rw [Element.WellBracketed]
  constructor
  · rintro ⟨balanced, block, sound⟩
    exact ⟨(settle_word [] children sound).symm.trans balanced, block, sound⟩
  · rintro ⟨balanced, block, sound⟩
    exact ⟨(settle_word [] children sound).trans balanced, block, sound⟩

def Edit.WellBracketed : Edit → Prop
  | .replace nodes | .insertBefore nodes | .insertAfter nodes => ∀ node ∈ nodes, node.WellBracketed
  | .splice elements => Forest.WellBracketed elements ∧ Forest.ownWord elements = []
  | .remove => True

def Plan.WellBracketed (plan : Plan) : Prop := ∀ entry ∈ plan, entry.2.WellBracketed

theorem plan_under_well_bracketed (plan : Plan) (sound : plan.WellBracketed) (index : Nat) :
    (plan.under index).WellBracketed := by
  intro entry member
  obtain ⟨⟨path, edit⟩, present, seen⟩ := List.mem_filterMap.mp member
  cases path with
  | nil => cases seen
  | cons step rest =>
      by_cases same : step = index
      · simp only [if_pos same, Option.some.injEq] at seen
        rw [← seen]
        exact sound (step :: rest, edit) present
      · simp [if_neg same] at seen

theorem plan_edit_well_bracketed (plan : Plan) (sound : plan.WellBracketed) (path : List Nat) (edit : Edit)
    (planned : plan.edit? path = some edit) : edit.WellBracketed := by
  obtain ⟨entry, found, rfl⟩ := Option.map_eq_some_iff.mp planned
  exact sound entry (List.mem_of_find?_eq_some found)

theorem whitespace_no_bracket (element : Element) (white : element.isWhitespaceToken) : element.bracket? = none := by
  cases element with
  | token raw text =>
      have kind : Kind.ofRaw raw = .whitespace := eq_of_beq white
      simp [Element.bracket?, kind]
  | node _ _ => rfl

namespace Written

structure Holds (written : Written) (word : List Bracket) : Prop where
  sound : ∀ element ∈ written.elements, element.WellBracketed
  own : Forest.ownWord written.elements.reverse = word

theorem write_holds (written : Written) (word : List Bracket) (holds : written.Holds word) (elements : List Element)
    (sound : ∀ element ∈ elements, element.WellBracketed) :
    (written.write elements).Holds (word ++ Forest.ownWord elements) := by
  refine ⟨?_, ?_⟩
  · intro element member
    rcases List.mem_append.mp member with fresh | old
    · exact sound element (List.mem_reverse.mp fresh)
    · exact holds.sound element old
  · simp [write, own_word_append, holds.own]

theorem token_holds (written : Written) (word : List Bracket) (holds : written.Holds word) (raw : RawKind)
    (text : String) : (written.token (.token raw text)).Holds (word ++ Forest.ownWord [.token raw text]) := by
  by_cases swallowed : written.awaitsSpace && (Element.token raw text).isWhitespaceToken
  · have nothing := whitespace_no_bracket _ (Bool.and_eq_true_iff.mp swallowed).2
    rw [Written.token, if_pos swallowed]
    refine ⟨holds.sound, ?_⟩
    simpa [Forest.ownWord, nothing] using holds.own
  · rw [Written.token, if_neg swallowed]
    exact write_holds written word holds _ (by simp [Element.WellBracketed])

theorem removal_holds (written : Written) (word : List Bracket) (holds : written.Holds word) :
    written.removal.Holds word := by
  obtain ⟨elements, awaits⟩ := written
  cases elements with
  | nil => exact ⟨holds.sound, holds.own⟩
  | cons last front =>
      by_cases white : last.isWhitespaceToken
      · have nothing := whitespace_no_bracket last white
        simp only [removal, if_pos white]
        refine ⟨fun element member => holds.sound element (List.mem_cons_of_mem _ member), ?_⟩
        simpa [Forest.ownWord, nothing] using holds.own
      · simp only [removal, if_neg white]
        exact ⟨holds.sound, holds.own⟩

def Quiet (elements : List Element) : Prop := Forest.WellBracketed elements ∧ Forest.ownWord elements = []

theorem quiet_iff (elements : List Element) :
    Quiet elements ↔ ∀ element ∈ elements, element.WellBracketed ∧ element.bracket? = none := by
  rw [Quiet, forest_well_bracketed_iff, own_word_eq_nil_iff]
  exact ⟨fun quiet element member => ⟨quiet.1 element member, quiet.2 element member⟩,
    fun quiet => ⟨fun element member => (quiet element member).1, fun element member => (quiet element member).2⟩⟩

theorem write_quiet (written : Written) (word : List Bracket) (holds : written.Holds word) (elements : List Element)
    (quiet : Quiet elements) : (written.write elements).Holds word := by
  have added := write_holds written word holds elements ((forest_well_bracketed_iff elements).mp quiet.1)
  simpa [quiet.2] using added

theorem quiet_node (tree : Tree) (sound : tree.WellBracketed) :
    tree.toElement.WellBracketed ∧ tree.toElement.bracket? = none := ⟨sound, rfl⟩

theorem quiet_space (text : String) :
    (Build.whitespace text).WellBracketed ∧ (Build.whitespace text).bracket? = none :=
  ⟨trivial, whitespace_no_bracket _ rfl⟩

theorem quiet_separated_by (separator : List Element) (quiet : Quiet separator) (nodes : List Tree)
    (sound : ∀ node ∈ nodes, node.WellBracketed) : Quiet (Build.separatedBy separator nodes) := by
  rw [quiet_iff] at quiet ⊢
  intro element member
  cases nodes with
  | nil => cases member
  | cons first rest =>
      rcases List.mem_cons.mp member with rfl | later
      · exact quiet_node first (sound first (by simp))
      · obtain ⟨part, inRest, place⟩ := List.mem_flatMap.mp later
        rcases List.mem_append.mp place with between | last
        · exact quiet element between
        · rw [List.mem_singleton.mp last]
          exact quiet_node part (sound part (by simp [inRest]))

theorem quiet_leading (separator : String) (nodes : List Tree) (sound : ∀ node ∈ nodes, node.WellBracketed) :
    Quiet (nodes.flatMap fun node => [node.toElement, Build.whitespace separator]) := by
  rw [quiet_iff]
  intro element member
  obtain ⟨part, inNodes, place⟩ := List.mem_flatMap.mp member
  rcases List.mem_cons.mp place with rfl | last
  · exact quiet_node part (sound part inNodes)
  · rw [List.mem_singleton.mp last]
    exact quiet_space separator

theorem quiet_trailing (separator : String) (nodes : List Tree) (sound : ∀ node ∈ nodes, node.WellBracketed) :
    Quiet (nodes.flatMap fun node => [Build.whitespace separator, node.toElement]) := by
  rw [quiet_iff]
  intro element member
  obtain ⟨part, inNodes, place⟩ := List.mem_flatMap.mp member
  rcases List.mem_cons.mp place with rfl | last
  · exact quiet_space separator
  · rw [List.mem_singleton.mp last]
    exact quiet_node part (sound part inNodes)

theorem quiet_append (front back : List Element) (first : Quiet front) (second : Quiet back) : Quiet (front ++ back) := by
  rw [quiet_iff] at first second ⊢
  intro element member
  rcases List.mem_append.mp member with left | right
  · exact first element left
  · exact second element right

theorem child_holds (written : Written) (word : List Bracket) (holds : written.Holds word) (separator : String)
    (edit? : Option Edit) (sound : ∀ edit ∈ edit?, edit.WellBracketed) (rewritten : Element)
    (isNode : rewritten.isNode) (rewrittenSound : rewritten.WellBracketed) :
    (written.child separator edit? rewritten).Holds word := by
  have child : Quiet [rewritten] := by
    refine ⟨⟨rewrittenSound, trivial⟩, own_word_of_node rewritten isNode⟩
  cases edit? with
  | none => exact write_quiet written word holds _ child
  | some edit =>
      have given : edit.WellBracketed := sound edit rfl
      cases edit with
      | replace nodes =>
          have space : Quiet [Build.whitespace separator] := (quiet_iff _).mpr (by simpa using quiet_space separator)
          exact write_quiet written word holds _ (quiet_separated_by _ space nodes given)
      | splice elements => exact write_quiet written word holds _ given
      | insertBefore nodes =>
          exact write_quiet written word holds _ (quiet_append _ _ (quiet_leading separator nodes given) child)
      | insertAfter nodes =>
          exact write_quiet written word holds _ (quiet_append _ _ child (quiet_trailing separator nodes given))
      | remove => exact removal_holds written word holds

end Written

theorem bracket_is_token (element : Element) (bracket : Bracket) (found : element.bracket? = some bracket) :
    element.isNode = false ∧ element.isWhitespaceToken = false := by
  cases element with
  | node _ _ => cases found
  | token raw text =>
      refine ⟨rfl, Bool.eq_false_iff.mpr fun white => ?_⟩
      rw [whitespace_no_bracket _ white] at found
      cases found

theorem next_of_bracket (plan : Plan) (index : Nat) (before? : Option Element) (written : Written) (element : Element)
    (bracket : Bracket) (found : element.bracket? = some bracket) :
    written.next plan index before? element = written.write [element] := by
  obtain ⟨notNode, solid⟩ := bracket_is_token element bracket found
  rw [Written.next, if_neg (by simp [notNode]), Written.token, if_neg (by simp [solid])]

theorem own_word_enclosed (first last : Element) (inner : List Element) (opening closing : Bracket)
    (opens : first.bracket? = some opening) (closes : last.bracket? = some closing) :
    Forest.ownWord (first :: inner ++ [last]) = opening :: Forest.ownWord inner ++ [closing] := by
  simp [Forest.ownWord, opens, closes]

theorem rewrite_braced (plan : Plan) (children : List Element) (braced : Forest.Braced children)
    (own : Forest.ownWord (Forest.rewrite plan 0 none ⟨[], false⟩ children) = Forest.ownWord children) :
    Forest.Braced (Forest.rewrite plan 0 none ⟨[], false⟩ children) := by
  obtain ⟨first, inner, last, rfl, opens, closes, quiet⟩ := (braced_iff children).mp braced
  have firm : Written.Firm [first] := by
    intro element isFirst
    cases isFirst
    exact (bracket_is_token first _ opens).2
  -- The braces stay at the ends: no removal takes the first one back, none reaches beyond the last.
  have start : (⟨[], false⟩ : Written).write [first] = (⟨[], false⟩ : Written).onTop [first] := rfl
  have shape : Forest.rewrite plan 0 none ⟨[], false⟩ (first :: inner ++ [last]) =
      first :: (Forest.written plan 1 (some first) ⟨[], false⟩ inner).elements.reverse ++ [last] := by
    rw [Forest.rewrite_eq_written, List.cons_append, Forest.written, next_of_bracket _ _ _ _ first _ opens, start,
      Forest.written_on_top _ _ _ _ _ _ firm, Forest.written_append, Forest.written,
      next_of_bracket _ _ _ _ last _ closes, Forest.written]
    simp [Written.write, Written.onTop]
  rw [shape]
  refine (braced_iff _).mpr ⟨first, _, last, rfl, opens, closes, ?_⟩
  rw [← own_word_eq_nil_iff]
  have nothing : Forest.ownWord inner = [] := (own_word_eq_nil_iff inner).mpr quiet
  rw [shape, own_word_enclosed _ _ _ _ _ opens closes, own_word_enclosed _ _ _ _ _ opens closes, nothing] at own
  exact List.append_cancel_right (List.cons.inj own).2

mutual
theorem element_rewrite_well_bracketed (plan : Plan) (sound : plan.WellBracketed) :
    (element : Element) → element.WellBracketed → (element.rewrite plan).WellBracketed
  | .token _ _, _ => trivial
  | .node raw children, before => by
      obtain ⟨balanced, block, inside⟩ := (node_well_bracketed_iff raw children).mp before
      cases touched : plan.hasEditInside with
      | false =>
          rw [rewrite_untouched plan _ touched]
          exact before
      | true =>
          have start : (⟨[], false⟩ : Written).Holds [] := ⟨by simp, rfl⟩
          have result := forest_rewrite_holds plan sound 0 none ⟨[], false⟩ [] start children inside
          have list := Forest.rewrite_eq_written plan 0 none ⟨[], false⟩ children
          have own : Forest.ownWord (Forest.rewrite plan 0 none ⟨[], false⟩ children) = Forest.ownWord children := by
            rw [list, result.own, List.nil_append]
          rw [Element.rewrite, if_pos touched, node_well_bracketed_iff, Kind.ofRaw_raw]
          refine ⟨?_, fun isBlock => rewrite_braced plan children (block isBlock) own, ?_⟩
          · rw [own]
            exact balanced
          · rw [forest_well_bracketed_iff, list]
            exact fun element member => result.sound element (List.mem_reverse.mp member)

theorem forest_rewrite_holds (plan : Plan) (sound : plan.WellBracketed) (index : Nat) (before? : Option Element)
    (start : Written) (word : List Bracket) (holds : start.Holds word) : (forest : List Element) →
    Forest.WellBracketed forest → (Forest.written plan index before? start forest).Holds (word ++ Forest.ownWord forest)
  | [], _ => by simpa [Forest.written, Forest.ownWord] using holds
  | .token raw text :: rest, inside => by
      have next := Written.token_holds start word holds raw text
      have later := forest_rewrite_holds plan sound (index + 1) (some (.token raw text)) _ _ next rest inside.2
      rw [List.append_assoc, ← own_word_append] at later
      exact later
  | .node raw children :: rest, inside => by
      have planSound := plan_under_well_bracketed plan sound index
      have here := element_rewrite_well_bracketed (plan.under index) planSound (.node raw children) inside.1
      have editSound : ∀ edit ∈ (plan.under index).here?, edit.WellBracketed := by
        intro edit planned
        rw [Plan.here_eq] at planned
        exact plan_edit_well_bracketed (plan.under index) planSound [] edit planned
      have next := Written.child_holds start word holds (separatorAfter before?) (plan.under index).here? editSound _
        (rewrite_is_node (plan.under index) (.node raw children)) here
      exact forest_rewrite_holds plan sound (index + 1) (some (.node raw children)) _ word next rest inside.2
end

theorem rise_well_bracketed (focus : Tree) (context : List Frame) (sound : (Frame.rise focus context).WellBracketed) :
    focus.WellBracketed := by
  induction context generalizing focus with
  | nil => exact sound
  | cons frame outer ih =>
      have inside := ((node_well_bracketed_iff _ _).mp (ih (frame.plug focus) sound)).2.2
      exact (forest_well_bracketed_iff _).mp inside focus.toElement (List.mem_append_right _ List.mem_cons_self)

theorem focus_well_bracketed (node : Node) (sound : node.root.WellBracketed) : node.focus.WellBracketed :=
  rise_well_bracketed node.focus node.context sound

namespace Session

structure Bracketed (session : Session) : Prop where
  root : session.root.WellBracketed
  edits : session.edits.WellBracketed

theorem bracketed_start (node : Node) (sound : node.root.WellBracketed) : (start node).Bracketed :=
  ⟨sound, by intro entry member; cases member⟩

theorem bracketed_plan (session next : Session) (target : Node) (edit : Edit) (bracketed : session.Bracketed)
    (sound : edit.WellBracketed) (planned : session.plan target edit = .ok next) : next.Bracketed := by
  rw [plan_ok session next target edit planned]
  refine ⟨bracketed.root, ?_⟩
  intro entry member
  rcases List.mem_append.mp member with old | fresh
  · exact bracketed.edits entry old
  · rw [List.mem_singleton.mp fresh]
    exact sound

theorem bracketed_replace (session next : Session) (target : Node) (nodes : List Tree) (bracketed : session.Bracketed)
    (sound : ∀ node ∈ nodes, node.WellBracketed) (planned : session.replace target nodes = .ok next) : next.Bracketed := by
  refine bracketed_plan session next target _ bracketed ?_ planned
  cases nodes with
  | nil => trivial
  | cons first rest => exact sound

theorem bracketed_splice (session next : Session) (target : Node) (elements : List Element)
    (bracketed : session.Bracketed) (quiet : Written.Quiet elements)
    (planned : session.splice target elements = .ok next) : next.Bracketed := by
  refine bracketed_plan session next target _ bracketed ?_ planned
  cases elements with
  | nil => trivial
  | cons first rest => exact quiet

theorem bracketed_apply (session : Session) (bracketed : session.Bracketed) : session.apply.WellBracketed := by
  have rewritten := element_rewrite_well_bracketed session.edits bracketed.edits session.root.toElement bracketed.root
  rwa [← tree_rewrite_to_element] at rewritten

theorem bracketed_apply_if_any (session : Session) (result : Tree) (bracketed : session.Bracketed)
    (applied : session.applyIfAny = some result) : result.WellBracketed := by
  unfold applyIfAny at applied
  split at applied
  · cases applied
  · cases applied
    exact bracketed_apply session bracketed

end Session

end SmellCheck
