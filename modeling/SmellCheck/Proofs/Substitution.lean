import SmellCheck.Proofs.Planning
import SmellCheck.Proofs.Rewriting

/-!
Substitution: every request is carried out in its own place, all of them at once. White space aside,
that is what rewriting by the plan of the requests does, to a tree and to what surrounds a place.
-/

set_option autoImplicit false

namespace SmellCheck

mutual
-- The elements without whitespace tokens, up to kinds: a number outside the closed set counts as that of
-- errors, and where all kinds are known nothing but the white space is left out.
def Element.bare : Element → List Element
  | .token raw text => if Kind.ofRaw raw = .whitespace then [] else [.token (Kind.ofRaw raw).raw text]
  | .node raw children => [.node (Kind.ofRaw raw).raw (Forest.bare children)]

def Forest.bare : List Element → List Element
  | [] => []
  | element :: rest => element.bare ++ Forest.bare rest
end

def Tree.bare (tree : Tree) : Tree := ⟨tree.kind.raw, Forest.bare tree.children⟩

theorem forest_bare_append (front back : List Element) :
    Forest.bare (front ++ back) = Forest.bare front ++ Forest.bare back := by
  induction front with
  | nil => rfl
  | cons element rest ih => simp [Forest.bare, ih]

theorem whitespace_bare (element : Element) (white : element.isWhitespaceToken) : element.bare = [] := by
  cases element with
  | token raw text =>
      have kind : Kind.ofRaw raw = .whitespace := eq_of_beq white
      simp [Element.bare, kind]
  | node _ _ => cases white

theorem separator_bare (separator : String) : (Build.whitespace separator).bare = [] :=
  whitespace_bare _ rfl

theorem tree_bare (tree : Tree) : tree.toElement.bare = [tree.bare.toElement] := by
  cases tree
  simp [Tree.toElement, Element.bare, Tree.bare, Tree.kind]

namespace Request

def given : Request → List Element
  | .replace _ nodes | .insertBefore _ nodes | .insertAfter _ nodes => nodes.map Tree.toElement
  | .splice _ elements => elements
  | .remove _ => []

def fill (child : Element) : Option Request → List Element
  | none => [child]
  | some (.insertBefore _ nodes) => nodes.map Tree.toElement ++ [child]
  | some (.insertAfter _ nodes) => child :: nodes.map Tree.toElement
  | some (.replace _ nodes) => nodes.map Tree.toElement
  | some (.splice _ elements) => elements
  | some (.remove _) => []

def leading : Option Request → List Element
  | some (.insertBefore _ nodes) => nodes.map Tree.toElement
  | _ => []

def trailing : Option Request → List Element
  | some (.insertAfter _ nodes) => nodes.map Tree.toElement
  | _ => []

def on? (done : List Request) (path : List Nat) : Option Request := done.find? (·.target.path == path)

end Request

mutual
-- Everything below the element substituted; the requests are seen from the element.
def Element.substitute (request? : List Nat → Option Request) : Element → Element
  | .token raw text => .token raw text
  | .node raw children => .node raw (Forest.substitute request? 0 children)

def Forest.substitute (request? : List Nat → Option Request) (index : Nat) : List Element → List Element
  | [] => []
  | element :: rest =>
      (if element.isNode then Request.fill (element.substitute fun path => request? (index :: path)) (request? [index])
        else [element]) ++ Forest.substitute request? (index + 1) rest
end

def Tree.substitute (request? : List Nat → Option Request) (tree : Tree) : Tree :=
  ⟨tree.raw, Forest.substitute request? 0 tree.children⟩

mutual
theorem element_substitute_nothing (request? : List Nat → Option Request)
    (nothing : ∀ path, path ≠ [] → request? path = none) : (element : Element) → element.substitute request? = element
  | .token _ _ => rfl
  | .node raw children => by rw [Element.substitute, forest_substitute_nothing request? nothing 0 children]

theorem forest_substitute_nothing (request? : List Nat → Option Request)
    (nothing : ∀ path, path ≠ [] → request? path = none) (index : Nat) :
    (forest : List Element) → Forest.substitute request? index forest = forest
  | [] => rfl
  | element :: rest => by
      have here := element_substitute_nothing (fun path => request? (index :: path)) (fun path _ => nothing _ (by simp)) element
      have later := forest_substitute_nothing request? nothing (index + 1) rest
      rw [Forest.substitute, here, later, nothing [index] (by simp)]
      simp [Request.fill]
end

theorem separated_bare (separator : String) (nodes : List Tree) :
    Forest.bare (Written.separated separator nodes) = Forest.bare (nodes.map Tree.toElement) := by
  cases nodes with
  | nil => rfl
  | cons first rest =>
      have others : Forest.bare (rest.flatMap fun part => [Build.whitespace separator] ++ [part.toElement]) =
          Forest.bare (rest.map Tree.toElement) := by
        induction rest with
        | nil => rfl
        | cons next rest ih => simpa [Forest.bare, separator_bare] using ih
      simp [Written.separated, Build.separatedBy, Forest.bare] at others ⊢
      exact others

theorem leading_bare (separator : String) (nodes : List Tree) :
    Forest.bare (nodes.flatMap fun node => [node.toElement, Build.whitespace separator]) =
      Forest.bare (nodes.map Tree.toElement) := by
  induction nodes with
  | nil => rfl
  | cons first rest ih => simpa [Forest.bare, separator_bare] using ih

theorem trailing_bare (separator : String) (nodes : List Tree) :
    Forest.bare (nodes.flatMap fun node => [Build.whitespace separator, node.toElement]) =
      Forest.bare (nodes.map Tree.toElement) := by
  induction nodes with
  | nil => rfl
  | cons first rest ih => simpa [Forest.bare, separator_bare] using ih

namespace Written

def bare (written : Written) : List Element := Forest.bare written.elements.reverse

theorem write_bare (written : Written) (elements : List Element) :
    (written.write elements).bare = written.bare ++ Forest.bare elements := by
  simp [bare, write, forest_bare_append]

theorem token_bare (written : Written) (token : Element) :
    (written.token token).bare = written.bare ++ token.bare := by
  by_cases swallowed : written.awaitsSpace && token.isWhitespaceToken
  · have white := whitespace_bare token (Bool.and_eq_true_iff.mp swallowed).2
    simp [Written.token, swallowed, white, bare]
  · simp [Written.token, swallowed, write_bare, Forest.bare]

theorem removal_bare (written : Written) : written.removal.bare = written.bare := by
  obtain ⟨elements, awaits⟩ := written
  cases elements with
  | nil => rfl
  | cons last front =>
      by_cases white : last.isWhitespaceToken
      · simp [removal, bare, white, forest_bare_append, Forest.bare, whitespace_bare last white]
      · simp [removal, bare, white]

theorem child_bare (written : Written) (separator : String) (request? : Option Request) (rewritten : Element) :
    (written.child separator (request?.map Request.edit) rewritten).bare =
      written.bare ++ Forest.bare (Request.fill rewritten request?) := by
  cases request? with
  | none => exact write_bare written [rewritten]
  | some request =>
      cases request with
      | replace _ nodes =>
          cases nodes with
          | nil => simp [child, Request.edit, Request.fill, removal_bare, Forest.bare]
          | cons first rest => simp [child, Request.edit, Request.fill, write_bare, separated_bare]
      | splice _ elements =>
          cases elements with
          | nil => simp [child, Request.edit, Request.fill, removal_bare, Forest.bare]
          | cons first rest => simp [child, Request.edit, Request.fill, write_bare]
      | insertBefore _ nodes =>
          simp [child, Request.edit, Request.fill, write_bare, forest_bare_append, leading_bare]
      | insertAfter _ nodes =>
          simp [child, Request.edit, Request.fill, write_bare, Forest.bare, trailing_bare]
      | remove _ => simp [child, Request.edit, Request.fill, removal_bare, Forest.bare]

end Written

theorem fill_bare (child child' : Element) (request? : Option Request) (same : child.bare = child'.bare) :
    Forest.bare (Request.fill child request?) = Forest.bare (Request.fill child' request?) := by
  cases request? with
  | none => simp [Request.fill, Forest.bare, same]
  | some request => cases request <;> simp [Request.fill, forest_bare_append, Forest.bare, same]

def Plan.From (plan : Plan) (request? : List Nat → Option Request) : Prop :=
  ∀ path, plan.edit? path = (request? path).map Request.edit

theorem plan_from_under (plan : Plan) (request? : List Nat → Option Request) (origin : plan.From request?)
    (index : Nat) : (plan.under index).From fun path => request? (index :: path) := by
  intro path
  rw [Plan.edit_under]
  exact origin (index :: path)

theorem nothing_inside (plan : Plan) (request? : List Nat → Option Request) (origin : plan.From request?)
    (untouched : plan.hasEditInside = false) (path : List Nat) (inner : path ≠ []) : request? path = none := by
  have absent : ¬ ∃ path, path ≠ [] ∧ (plan.edit? path).isSome := by
    rw [← Plan.has_edit_inside_iff, untouched]
    simp
  rw [← Option.not_isSome_iff_eq_none, ← Option.isSome_map (f := Request.edit), ← origin path]
  exact fun planned => absent ⟨path, inner, planned⟩

mutual
theorem element_rewrite_bare (plan : Plan) (request? : List Nat → Option Request) (origin : plan.From request?) :
    (element : Element) → (element.rewrite plan).bare = (element.substitute request?).bare
  | .token _ _ => rfl
  | .node raw children => by
      cases touched : plan.hasEditInside with
      | false =>
          have nothing := nothing_inside plan request? origin touched
          rw [rewrite_untouched plan _ touched, element_substitute_nothing request? nothing]
      | true =>
          have children' := forest_rewrite_bare plan request? origin 0 none ⟨[], false⟩ children
          rw [Element.rewrite, if_pos touched, Element.substitute, Element.bare, Element.bare, Kind.ofRaw_raw, children']
          rfl

theorem forest_rewrite_bare (plan : Plan) (request? : List Nat → Option Request) (origin : plan.From request?)
    (index : Nat) (before? : Option Element) (start : Written) : (forest : List Element) →
    Forest.bare (Forest.rewrite plan index before? start forest) =
      start.bare ++ Forest.bare (Forest.substitute request? index forest)
  | [] => by simp [Forest.rewrite, Forest.substitute, Forest.bare, Written.bare]
  | element :: rest => by
      have here := element_rewrite_bare (plan.under index) _ (plan_from_under plan request? origin index) element
      have later := forest_rewrite_bare plan request? origin (index + 1) (some element)
        (start.next plan index before? element) rest
      have step : (start.next plan index before? element).bare = start.bare ++
          Forest.bare (if element.isNode then
            Request.fill (element.substitute fun path => request? (index :: path)) (request? [index])
          else [element]) := by
        by_cases isNode : element.isNode
        · rw [Written.next, if_pos isNode, if_pos isNode, Plan.here_eq, Plan.edit_under, origin, Written.child_bare]
          congr 1
          exact fill_bare _ _ _ here
        · rw [Written.next, if_neg isNode, if_neg isNode, Written.token_bare]
          simp [Forest.bare]
      rw [Forest.substitute, forest_bare_append, ← List.append_assoc, ← step]
      exact later
end

namespace Frame

def bare (frame : Frame) : Frame :=
  ⟨(Kind.ofRaw frame.raw).raw, (Forest.bare frame.before.reverse).reverse, Forest.bare frame.after⟩

def substitute (request? : List Nat → Option Request) (frame : Frame) : Frame :=
  let here? := request? [frame.before.length]
  ⟨frame.raw, (Forest.substitute request? 0 frame.before.reverse ++ Request.leading here?).reverse,
    Request.trailing here? ++ Forest.substitute request? (frame.before.length + 1) frame.after⟩

def substituteAll (request? : List Nat → Option Request) : List Frame → List Frame
  | [] => []
  | frame :: outer =>
      frame.substitute (fun path => request? (pathOf outer ++ path)) :: substituteAll request? outer

theorem edit_leading_bare (separator : String) (request? : Option Request) :
    Forest.bare (Edit.leading separator (request?.map Request.edit)) =
      Forest.bare (Request.leading request?) := by
  cases request? with
  | none => rfl
  | some request =>
      cases request with
      | replace _ nodes => cases nodes <;> rfl
      | splice _ elements => cases elements <;> rfl
      | insertBefore _ nodes => exact leading_bare separator nodes
      | insertAfter _ _ => rfl
      | remove _ => rfl

theorem edit_trailing_bare (separator : String) (request? : Option Request) :
    Forest.bare (Edit.trailing separator (request?.map Request.edit)) =
      Forest.bare (Request.trailing request?) := by
  cases request? with
  | none => rfl
  | some request =>
      cases request with
      | replace _ nodes => cases nodes <;> rfl
      | splice _ elements => cases elements <;> rfl
      | insertBefore _ _ => rfl
      | insertAfter _ nodes => exact trailing_bare separator nodes
      | remove _ => rfl

theorem rewrite_bare (plan : Plan) (request? : List Nat → Option Request) (origin : plan.From request?)
    (frame : Frame) : (frame.rewrite plan).bare = (frame.substitute request?).bare := by
  cases touched : plan.hasEditInside with
  | false =>
      have nothing := nothing_inside plan request? origin touched
      rw [rewrite_untouched plan frame touched, substitute, nothing [frame.before.length] (by simp),
        forest_substitute_nothing request? nothing, forest_substitute_nothing request? nothing]
      simp [bare, Request.leading, Request.trailing]
  | true =>
      have written : (frame.writtenBefore plan).bare = Forest.bare (Forest.substitute request? 0 frame.before.reverse) := by
        rw [Written.bare, writtenBefore, ← Forest.rewrite_eq_written]
        exact forest_rewrite_bare plan request? origin 0 none ⟨[], false⟩ frame.before.reverse
      have after := forest_rewrite_bare plan request? origin (frame.before.length + 1) none
        ⟨(Edit.trailing frame.separator (frame.edit? plan)).reverse, false⟩ frame.after
      have here : frame.edit? plan = (request? [frame.before.length]).map Request.edit := origin [frame.before.length]
      simp only [Written.bare, List.reverse_reverse, here, edit_trailing_bare] at written after
      simp only [bare, rewrite, if_pos touched, substitute, Kind.ofRaw_raw, here, after, List.reverse_append,
        List.reverse_reverse, forest_bare_append, written, edit_leading_bare]

theorem rewrite_all_bare (plan : Plan) (request? : List Nat → Option Request) (origin : plan.From request?)
    (context : List Frame) :
    (rewriteAll plan context).map bare = (substituteAll request? context).map bare := by
  induction context with
  | nil => rfl
  | cons frame outer ih =>
      have inner : (plan.below (pathOf outer)).From fun path => request? (pathOf outer ++ path) := by
        intro path
        rw [Plan.edit_below]
        exact origin (pathOf outer ++ path)
      rw [rewriteAll, substituteAll, List.map_cons, List.map_cons, ih, rewrite_bare _ _ inner frame]

end Frame

end SmellCheck
