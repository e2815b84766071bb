import SmellCheck.Proofs.Descent
import SmellCheck.Proofs.Rewriting

/-!
Child nodes of a rewritten node. Every child gives way to its successors: the nodes that its edit puts
in its place, and the child itself, rewritten, where it stays. White space comes and goes with the
edits, but the child nodes of a rewritten node are the successors of its children and no others.
-/

set_option autoImplicit false

namespace SmellCheck

namespace Edit

def successors (rewritten : Tree) : Option Edit → List Tree
  | none => [rewritten]
  | some (.replace nodes) => nodes
  | some (.splice elements) => elements.filterMap Element.asNode?
  | some (.insertBefore nodes) => nodes ++ [rewritten]
  | some (.insertAfter nodes) => rewritten :: nodes
  | some .remove => []

def brings : Edit → List Tree
  | .replace nodes | .insertBefore nodes | .insertAfter nodes => nodes
  | .splice elements => elements.filterMap Element.asNode?
  | .remove => []

theorem mem_successors (rewritten : Tree) (edit? : Option Edit) (part : Tree) (member : part ∈ successors rewritten edit?) :
    part = rewritten ∨ ∃ edit, edit? = some edit ∧ part ∈ edit.brings := by
  cases edit? with
  | none => exact .inl (List.mem_singleton.mp member)
  | some edit =>
      cases edit with
      | replace nodes => exact .inr ⟨_, rfl, member⟩
      | splice elements => exact .inr ⟨_, rfl, member⟩
      | insertBefore nodes => exact (List.mem_append.mp member).symm.imp List.mem_singleton.mp fun new => ⟨_, rfl, new⟩
      | insertAfter nodes => exact (List.mem_cons.mp member).imp_right fun new => ⟨_, rfl, new⟩
      | remove => cases member

-- The edit neither takes away its target, if that is of the kind, nor brings nodes of the kind.
def Blind (kind : Kind) (target : Node) (edit : Edit) : Prop :=
  (edit.isDestructive → target.kind ≠ kind) ∧ ∀ new ∈ edit.brings, new.kind ≠ kind

theorem successors_filter (rewritten : Tree) (edit? : Option Edit) (wanted : Tree → Bool)
    (blind : ∀ edit, edit? = some edit →
      (edit.isDestructive → wanted rewritten = false) ∧ ∀ new ∈ edit.brings, wanted new = false) :
    (successors rewritten edit?).filter wanted = if wanted rewritten then [rewritten] else [] := by
  cases edit? with
  | none => exact List.filter_cons
  | some edit =>
      obtain ⟨taken, brought⟩ := blind edit rfl
      have nothing : edit.brings.filter wanted = [] := List.filter_eq_nil_iff.mpr fun new member => by simp [brought new member]
      cases edit with
      | insertBefore nodes =>
          rw [successors, List.filter_append, show nodes.filter wanted = [] from nothing, List.filter_cons]
          rfl
      | insertAfter nodes => rw [successors, List.filter_cons, show nodes.filter wanted = [] from nothing]
      | replace nodes =>
          rw [taken rfl]
          exact nothing
      | splice elements =>
          rw [taken rfl]
          exact nothing
      | remove =>
          rw [taken rfl]
          rfl

end Edit

theorem as_node_to_element (tree : Tree) : tree.toElement.asNode? = some tree := rfl

theorem subtrees_separated (separator : List Element) (nodes : List Tree) (tokens : separator.filterMap Element.asNode? = []) :
    (Build.separatedBy separator nodes).filterMap Element.asNode? = nodes := by
  cases nodes with
  | nil => rfl
  | cons first rest =>
      have others : (rest.flatMap fun node => separator ++ [node.toElement]).filterMap Element.asNode? = rest := by
        induction rest with
        | nil => rfl
        | cons node rest ih => simpa [List.flatMap_cons, tokens, as_node_to_element] using ih
      exact congrArg (List.cons first) others

namespace Written

def subtrees (written : Written) : List Tree := written.elements.reverse.filterMap Element.asNode?

theorem subtrees_write (written : Written) (elements : List Element) :
    (written.write elements).subtrees = written.subtrees ++ elements.filterMap Element.asNode? := by
  simp [subtrees, write]

theorem subtrees_token (written : Written) (raw : RawKind) (text : String) :
    (written.token (.token raw text)).subtrees = written.subtrees := by
  unfold token
  split
  · rfl
  · rw [subtrees_write]
    exact List.append_nil _

theorem subtrees_removal (written : Written) : written.removal.subtrees = written.subtrees := by
  obtain ⟨elements, awaits⟩ := written
  cases elements with
  | nil => rfl
  | cons last front =>
      cases last with
      | node raw children => rfl
      | token raw text =>
          by_cases white : Kind.ofRaw raw = .whitespace <;>
            simp [removal, subtrees, Element.isWhitespaceToken, Element.asNode?, white]

theorem subtrees_child (written : Written) (separator : String) (edit? : Option Edit) (rewritten : Tree) :
    (written.child separator edit? rewritten.toElement).subtrees =
      written.subtrees ++ Edit.successors rewritten edit? := by
  have space : (Build.whitespace separator).asNode? = none := rfl
  cases edit? with
  | none => exact subtrees_write written _
  | some edit =>
      cases edit with
      | replace nodes =>
          rw [child, subtrees_write, separated, subtrees_separated _ nodes rfl]
          rfl
      | splice elements => exact subtrees_write written elements
      | insertBefore nodes =>
          have inserted : (nodes.flatMap fun node => [node.toElement, Build.whitespace separator]).filterMap Element.asNode? =
              nodes := by
            induction nodes with
            | nil => rfl
            | cons node rest ih => simpa [List.flatMap_cons, space, as_node_to_element] using ih
          rw [child, subtrees_write, List.filterMap_append, inserted]
          rfl
      | insertAfter nodes =>
          have inserted : (nodes.flatMap fun node => [Build.whitespace separator, node.toElement]).filterMap Element.asNode? =
              nodes := by
            induction nodes with
            | nil => rfl
            | cons node rest ih => simpa [List.flatMap_cons, space, as_node_to_element] using ih
          rw [child, subtrees_write, List.filterMap_cons, as_node_to_element, inserted]
          rfl
      | remove =>
          rw [child, subtrees_removal]
          exact (List.append_nil _).symm

end Written

namespace Node

def successors (plan : Plan) (node : Node) : List Tree :=
  Edit.successors (node.rewritten plan).focus (plan.edit? node.path)

theorem successors_alone (plan : Plan) (node : Node) (untouched : plan.edit? node.path = none) :
    node.successors plan = [(node.rewritten plan).focus] := by
  rw [successors, untouched]
  rfl

theorem next_child (plan : Plan) (child : Node) (frame : Frame) (outer : List Frame) (before? : Option Element)
    (start : Written) (context : child.context = frame :: outer) :
    Written.next (plan.below (Frame.pathOf outer)) frame.before.length before? start child.focus.toElement =
      start.child (separatorAfter before?) (plan.edit? child.path) (child.rewritten plan).focus.toElement := by
  have path := parent_path child frame outer context
  have below : plan.below child.path = (plan.below (Frame.pathOf outer)).under frame.before.length := by
    rw [path, Plan.below_append]
    rfl
  have isNode : child.focus.toElement.isNode = true := rfl
  rw [Written.next, if_pos isNode, Plan.here_eq, Plan.edit_under, Plan.edit_below, ← path, ← below,
    ← tree_rewrite_to_element]
  rfl

theorem subtrees_next (plan : Plan) (child : Node) (frame : Frame) (outer : List Frame) (before? : Option Element)
    (start : Written) (context : child.context = frame :: outer) :
    (Written.next (plan.below (Frame.pathOf outer)) frame.before.length before? start child.focus.toElement).subtrees =
      start.subtrees ++ child.successors plan := by
  rw [next_child plan child frame outer before? start context, Written.subtrees_child]
  rfl

theorem written_subtrees (plan : Plan) (snapshot : Nat) (raw : RawKind) (context : List Frame) (before : List Element)
    (before? : Option Element) (start : Written) (rest : List Element) :
    (Forest.written (plan.below (Frame.pathOf context)) before.length before? start rest).subtrees =
      start.subtrees ++ (childrenFrom snapshot raw context before rest).flatMap (successors plan) := by
  induction rest generalizing before before? start with
  | nil => exact (List.append_nil _).symm
  | cons element rest ih =>
      have later := ih (element :: before) (some element)
        (Written.next (plan.below (Frame.pathOf context)) before.length before? start element)
      cases element with
      | token kind text =>
          have isToken : ¬ (Element.token kind text).isNode = true := by simp [Element.isNode, Element.asNode?]
          rw [Written.next, if_neg isToken, Written.subtrees_token] at later
          rw [Forest.written, Written.next, if_neg isToken]
          exact later
      | node kind children =>
          have turn := subtrees_next plan ⟨snapshot, ⟨kind, children⟩, ⟨raw, before, rest⟩ :: context⟩ _ _ before? start rfl
          rw [childrenFrom, List.flatMap_cons, ← List.append_assoc, ← turn]
          exact later

theorem rewritten_subtrees (plan : Plan) (node : Node) :
    (node.rewritten plan).focus.subtrees = node.children.flatMap (successors plan) := by
  have shape := (tree_rewrite_shape (plan.below node.path) node.focus).2
  have whole := written_subtrees plan node.snapshot node.focus.raw node.context [] none ⟨[], false⟩ node.focus.children
  exact (congrArg (List.filterMap Element.asNode?) shape).trans whole

theorem rewritten_kind (plan : Plan) (node : Node) : (node.rewritten plan).kind = node.kind :=
  (tree_rewrite_shape _ _).1

theorem rewritten_children_of_kind (plan : Plan) (node : Node) (kind : Kind)
    (blind : ∀ child ∈ node.children, ∀ edit, plan.edit? child.path = some edit → edit.Blind kind child) :
    (node.rewritten plan).focus.subtrees.filter (·.kind == kind) =
      (node.childrenOfKind kind).map fun child => (child.rewritten plan).focus := by
  have each : ∀ child ∈ node.children, (child.successors plan).filter (·.kind == kind) =
      if child.kind == kind then [(child.rewritten plan).focus] else [] := by
    intro child isChild
    have own : (child.rewritten plan).focus.kind = child.kind := rewritten_kind plan child
    rw [successors, Edit.successors_filter, own]
    intro edit planned
    obtain ⟨taken, brought⟩ := blind child isChild edit planned
    exact ⟨fun destructive => by simpa [own] using taken destructive, fun new member => by simpa using brought new member⟩
  rw [rewritten_subtrees, List.filter_flatMap, childrenOfKind]
  generalize node.children = children at each
  clear blind
  induction children with
  | nil => rfl
  | cons child rest ih =>
      rw [List.flatMap_cons, List.filter_cons, each child List.mem_cons_self,
        ih fun other member => each other (List.mem_cons_of_mem _ member)]
      cases child.kind == kind <;> rfl

end Node

namespace Written

def texts (written : Written) (kind : Kind) : List String := written.elements.reverse.filterMap (Element.tokenText? kind)

section
variable (kind : Kind) (other : kind ≠ .whitespace)
include other

omit other in
theorem texts_write (written : Written) (elements : List Element) :
    (written.write elements).texts kind = written.texts kind ++ elements.filterMap (Element.tokenText? kind) := by
  simp [texts, write]

theorem texts_of_whitespace (element : Element) (white : element.isWhitespaceToken) : element.tokenText? kind = none := by
  cases element with
  | node _ _ => rfl
  | token raw text =>
      have isWhite : Kind.ofRaw raw = .whitespace := eq_of_beq white
      rw [Element.tokenText?, if_neg (by rw [isWhite]; exact other.symm)]

theorem texts_token (written : Written) (element : Element) :
    (written.token element).texts kind = written.texts kind ++ (element.tokenText? kind).toList := by
  unfold token
  split
  · rename_i swallowed
    rw [texts_of_whitespace kind other element (Bool.and_eq_true_iff.mp swallowed).2]
    exact (List.append_nil _).symm
  · rw [texts_write]
    cases found : element.tokenText? kind <;> simp [found]

theorem texts_removal (written : Written) : written.removal.texts kind = written.texts kind := by
  obtain ⟨elements, awaits⟩ := written
  cases elements with
  | nil => rfl
  | cons last front =>
      by_cases white : last.isWhitespaceToken
      · simp [removal, texts, white, texts_of_whitespace kind other last white]
      · simp [removal, texts, white]

theorem texts_separated (separator : String) (nodes : List Tree) :
    (separated separator nodes).filterMap (Element.tokenText? kind) = [] := by
  have space := texts_of_whitespace kind other (Build.whitespace separator) rfl
  refine List.filterMap_eq_nil_iff.mpr fun element member => ?_
  cases nodes with
  | nil => cases member
  | cons first rest =>
      rcases List.mem_cons.mp member with rfl | later
      · rfl
      · obtain ⟨node, -, here⟩ := List.mem_flatMap.mp later
        rcases List.mem_cons.mp here with rfl | last
        · exact space
        · rw [List.mem_singleton.mp last]
          rfl

theorem texts_child (written : Written) (separator : String) (edit? : Option Edit) (rewritten : Tree)
    (keeps : ∀ elements, edit? ≠ some (.splice elements)) :
    (written.child separator edit? rewritten.toElement).texts kind = written.texts kind := by
  have space := texts_of_whitespace kind other (Build.whitespace separator) rfl
  have own : rewritten.toElement.tokenText? kind = none := rfl
  cases edit? with
  | none =>
      rw [child, texts_write]
      simp [own]
  | some edit =>
      cases edit with
      | replace nodes => rw [child, texts_write, texts_separated kind other, List.append_nil]
      | splice elements => exact absurd rfl (keeps elements)
      | insertBefore nodes =>
          rw [child, texts_write]
          simp [own, space, List.filterMap_flatMap, show ∀ node : Tree, node.toElement.tokenText? kind = none from fun _ => rfl]
      | insertAfter nodes =>
          rw [child, texts_write]
          simp [own, space, List.filterMap_flatMap, show ∀ node : Tree, node.toElement.tokenText? kind = none from fun _ => rfl]
      | remove => rw [child, texts_removal kind other]

end

end Written

theorem written_texts (kind : Kind) (other : kind ≠ .whitespace) (plan : Plan)
    (keeps : ∀ index elements, plan.edit? [index] ≠ some (.splice elements)) (index : Nat) (before? : Option Element)
    (start : Written) (forest : List Element) :
    (Forest.written plan index before? start forest).texts kind =
      start.texts kind ++ forest.filterMap (Element.tokenText? kind) := by
  induction forest generalizing index before? start with
  | nil => exact (List.append_nil _).symm
  | cons element rest ih =>
      have turn : (Written.next plan index before? start element).texts kind =
          start.texts kind ++ (element.tokenText? kind).toList := by
        cases element with
        | token raw text => exact Written.texts_token kind other start _
        | node raw children =>
            have own : ((Element.node raw children).tokenText? kind).toList = [] := rfl
            rw [Written.next, if_pos (by rfl), Plan.here_eq, Plan.edit_under, own, List.append_nil]
            have written := tree_rewrite_to_element (plan.under index) ⟨raw, children⟩
            rw [show (⟨raw, children⟩ : Tree).toElement = .node raw children from rfl] at written
            rw [← written]
            exact Written.texts_child kind other start _ _ _ (keeps index)
      rw [Forest.written, ih, turn, List.append_assoc]
      congr 1
      cases found : element.tokenText? kind <;> simp [found]

theorem rewritten_token_texts (plan : Plan) (node : Node) (kind : Kind) (other : kind ≠ .whitespace)
    (keeps : ∀ path elements, plan.edit? path ≠ some (.splice elements)) :
    (node.rewritten plan).tokenTexts kind = node.tokenTexts kind := by
  have written := written_texts kind other (plan.below node.path) (fun index elements => by
    rw [Plan.edit_below]
    exact keeps _ elements) 0 none ⟨[], false⟩ node.focus.children
  rw [Node.tokenTexts, Node.elements, Node.rewritten, Node.inPlace, (tree_rewrite_shape _ node.focus).2]
  exact written

end SmellCheck
