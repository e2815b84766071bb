import Mathlib.Data.List.Chain
import SmellCheck.Proofs.Applying
import SmellCheck.Proofs.ChildNodes

/-!
White space in rewritten child lists. A removal takes the white space that was written last, or else waits
for the token that comes next; what is put in the place of a child begins and ends with a node. So what is
taken back is always a token of the list itself, one for each removed child at most, and no two white
space tokens come to stand side by side where none did before.
-/

set_option autoImplicit false

namespace SmellCheck

def Spaced (elements : List Element) : Prop :=
  elements.IsChain fun first second => ¬ (first.isWhitespaceToken ∧ second.isWhitespaceToken)

instance : DecidablePred Spaced := fun elements =>
  inferInstanceAs (Decidable (elements.IsChain fun first second => ¬ (first.isWhitespaceToken ∧ second.isWhitespaceToken)))

-- What elements give way to, one after the other, but for a number of white space tokens that are missing.
inductive Respaced : List (Element × List Element) → List Element → Nat → Prop
  | none : Respaced [] [] 0
  | kept {parts : List (Element × List Element)} {elements : List Element} {missing : Nat} (part : Element × List Element) :
      Respaced parts elements missing → Respaced (parts ++ [part]) (elements ++ part.2) missing
  | taken {parts : List (Element × List Element)} {elements : List Element} {missing : Nat} (token : Element) :
      token.isWhitespaceToken → Respaced parts elements missing → Respaced (parts ++ [(token, [token])]) elements (missing + 1)

theorem spaced_append (front back : List Element) : Spaced (front ++ back) ↔ Spaced front ∧ Spaced back ∧
    ∀ last ∈ front.getLast?, ∀ first ∈ back.head?, ¬ (last.isWhitespaceToken ∧ first.isWhitespaceToken) :=
  List.isChain_append

theorem spaced_cons (first : Element) (rest : List Element) : Spaced (first :: rest) ↔
    (∀ second ∈ rest.head?, ¬ (first.isWhitespaceToken ∧ second.isWhitespaceToken)) ∧ Spaced rest :=
  List.isChain_cons

theorem spaced_reverse (elements : List Element) : Spaced elements.reverse ↔ Spaced elements := by
  rw [Spaced, Spaced, List.isChain_reverse]
  simp only [and_comm]

def Settled (part : Element × List Element) : Prop :=
  part.2 = [part.1] ∨ ∀ last ∈ part.2.getLast?, last.isWhitespaceToken = false

theorem respaced_pop (parts : List (Element × List Element)) (front : List Element) (last : Element) (missing : Nat)
    (settled : ∀ part ∈ parts, Settled part) (respaced : Respaced parts (front ++ [last]) missing)
    (white : last.isWhitespaceToken) : Respaced parts front (missing + 1) := by
  generalize whole : front ++ [last] = elements at respaced
  induction respaced generalizing front with
  | none => cases List.append_ne_nil_of_right_ne_nil front (List.cons_ne_nil last []) whole
  | @kept parts elements missing part earlier ih =>
      have before := fun other member => settled other (List.mem_append_left _ member)
      rcases List.eq_nil_or_concat' part.2 with empty | ⟨init, final, split⟩
      · rw [empty, List.append_nil] at whole
        have shorter := Respaced.kept part (ih front before whole)
        rwa [empty, List.append_nil] at shorter
      · rw [split, ← List.append_assoc] at whole
        obtain ⟨rfl, same⟩ := List.append_inj' whole rfl
        obtain rfl := List.singleton_inj.mp same
        rcases settled part (List.mem_append_right _ List.mem_cons_self) with own | solid
        · obtain ⟨rfl, same⟩ := List.append_inj' (split.symm.trans own : init ++ [last] = [] ++ [part.1]) rfl
          obtain rfl := List.singleton_inj.mp same
          have shape : part = (part.1, [part.1]) := Prod.ext rfl own
          rw [shape, List.append_nil]
          exact .taken part.1 white earlier
        · have blank := solid last (by simp [split])
          rw [white] at blank
          cases blank
  | @taken parts elements missing token isWhite earlier ih =>
      exact .taken token isWhite (ih front (fun other member => settled other (List.mem_append_left _ member)) whole)

namespace Edit

def isRemoval : Edit → Bool
  | .remove => true
  | _ => false

def Orderly : Edit → Prop
  | .replace nodes => nodes ≠ []
  | .splice _ => False
  | .insertBefore _ | .insertAfter _ | .remove => True

end Edit

namespace Written

theorem separated_last (separator : String) (first : Tree) (rest : List Tree) :
    ∃ front last, separated separator (first :: rest) = front ++ [Tree.toElement last] := by
  induction rest generalizing first with
  | nil => exact ⟨[], first, rfl⟩
  | cons second rest ih =>
      obtain ⟨front, last, split⟩ := ih second
      exact ⟨first.toElement :: Build.whitespace separator :: front, last,
        congrArg (first.toElement :: Build.whitespace separator :: ·) split⟩

theorem separated_spaced (separator : String) (first : Tree) (rest : List Tree) : Spaced (separated separator (first :: rest)) := by
  induction rest generalizing first with
  | nil => exact List.isChain_singleton _
  | cons second rest ih =>
      have split : separated separator (first :: second :: rest) =
          first.toElement :: Build.whitespace separator :: separated separator (second :: rest) := rfl
      rw [split, spaced_cons, spaced_cons]
      refine ⟨fun _ _ both => Bool.false_ne_true both.1, fun next isNext both => ?_, ih second⟩
      obtain rfl := Option.some.inj isNext
      exact Bool.false_ne_true both.2

theorem separated_before (separator : String) (nodes : List Tree) (stays : Tree) :
    nodes.flatMap (fun node => [node.toElement, Build.whitespace separator]) ++ [stays.toElement] =
      separated separator (nodes ++ [stays]) := by
  induction nodes with
  | nil => rfl
  | cons first rest ih =>
      rw [List.flatMap_cons, List.append_assoc, ih]
      cases rest <;> rfl

theorem child_of_orderly (written : Written) (separator : String) (edit? : Option Edit) (rewritten : Tree)
    (orderly : ∀ edit ∈ edit?, edit.Orderly) (stays : edit?.any Edit.isRemoval = false) :
    Edit.successors rewritten edit? ≠ [] ∧ written.child separator edit? rewritten.toElement =
      written.write (separated separator (Edit.successors rewritten edit?)) := by
  cases edit? with
  | none => exact ⟨List.cons_ne_nil _ _, rfl⟩
  | some edit =>
      have own := orderly edit rfl
      cases edit with
      | replace nodes => exact ⟨own, rfl⟩
      | splice elements => cases own
      | insertBefore nodes => exact ⟨by simp [Edit.successors], congrArg written.write (separated_before separator nodes rewritten)⟩
      | insertAfter nodes => exact ⟨List.cons_ne_nil _ _, rfl⟩
      | remove => cases stays

theorem child_of_removal (written : Written) (separator : String) (edit? : Option Edit) (rewritten : Tree)
    (removed : edit?.any Edit.isRemoval) :
    Edit.successors rewritten edit? = [] ∧ written.child separator edit? rewritten.toElement = written.removal := by
  cases edit? with
  | none => cases removed
  | some edit => cases edit <;> first | exact ⟨rfl, rfl⟩ | cases removed

theorem removal_of_white (last : Element) (front : List Element) (awaits : Bool) (white : last.isWhitespaceToken) :
    removal ⟨last :: front, awaits⟩ = ⟨front, false⟩ := if_pos white

theorem removal_of_solid (last : Element) (front : List Element) (awaits : Bool) (solid : ¬ last.isWhitespaceToken) :
    removal ⟨last :: front, awaits⟩ = ⟨last :: front, true⟩ := if_neg solid

-- What is written so far of a list that the element stands last in: white space is last only after white space, and never
-- where a removal waits for it.
structure Tidy (before? : Option Element) (written : Written) : Prop where
  spaced : Spaced written.elements
  ends : ∀ last ∈ written.elements.head?, last.isWhitespaceToken → ∃ element ∈ before?, element.isWhitespaceToken
  waits : written.awaitsSpace → Firm written.elements

section
variable {before? : Option Element} {written : Written} (tidy : written.Tidy before?)
include tidy

theorem tidy_token (token : Element) (apart : ∀ element ∈ before?, ¬ (element.isWhitespaceToken ∧ token.isWhitespaceToken)) :
    (written.token token).Tidy (some token) := by
  by_cases swallowed : written.awaitsSpace && token.isWhitespaceToken
  · rw [Written.token, if_pos swallowed]
    exact ⟨tidy.spaced, fun _ _ _ => ⟨token, rfl, (Bool.and_eq_true_iff.mp swallowed).2⟩, (absurd · Bool.false_ne_true)⟩
  · rw [Written.token, if_neg swallowed]
    refine ⟨(spaced_cons _ _).mpr ⟨fun last isLast both => ?_, tidy.spaced⟩, fun last isLast white => ?_,
      (absurd · Bool.false_ne_true)⟩
    · obtain ⟨element, isBefore, white⟩ := tidy.ends last isLast both.2
      exact apart element isBefore ⟨white, both.1⟩
    · obtain rfl := Option.some.inj isLast
      exact ⟨token, rfl, white⟩

theorem tidy_removal (element : Element) : written.removal.Tidy (some element) := by
  obtain ⟨elements, awaits⟩ := written
  cases elements with
  | nil =>
      have firm : Firm ([] : List Element) := fun last isLast => by cases isLast
      exact ⟨.nil, fun _ isLast => (by cases isLast), fun _ => firm⟩
  | cons last front =>
      obtain ⟨apart, spaced⟩ := (spaced_cons last front).mp tidy.spaced
      by_cases white : last.isWhitespaceToken
      · rw [removal_of_white last front awaits white]
        exact ⟨spaced, fun next isNext also => absurd ⟨white, also⟩ (apart next isNext), (absurd · Bool.false_ne_true)⟩
      · rw [removal_of_solid last front awaits white]
        have solid : Firm (last :: front) := fun other isLast => Option.some.inj isLast ▸ Bool.eq_false_iff.mpr white
        refine ⟨tidy.spaced, fun other isLast also => ?_, fun _ => solid⟩
        rw [solid other isLast] at also
        cases also

theorem tidy_write (element : Element) (separator : String) (nodes : List Tree) (some : nodes ≠ []) :
    (written.write (separated separator nodes)).Tidy (Option.some element) := by
  obtain ⟨first, rest, rfl⟩ := List.exists_cons_of_ne_nil some
  obtain ⟨front, last, split⟩ := separated_last separator first rest
  have lastWritten : (written.write (separated separator (first :: rest))).elements.head? = Option.some last.toElement := by
    rw [split]
    simp [write]
  refine ⟨(spaced_append _ _).mpr ⟨(spaced_reverse _).mpr (separated_spaced separator first rest), tidy.spaced, ?_⟩, ?_,
    (absurd · Bool.false_ne_true)⟩
  · intro final isFinal _ _ both
    rw [List.getLast?_reverse] at isFinal
    obtain rfl := Option.some.inj isFinal
    exact Bool.false_ne_true both.1
  · intro final isFinal white
    obtain rfl := Option.some.inj (lastWritten.symm.trans isFinal)
    cases white

theorem tidy_next (plan : Plan) (index : Nat) (element : Element) (orderly : ∀ edit ∈ (plan.under index).here?, edit.Orderly)
    (apart : ∀ other ∈ before?, ¬ (other.isWhitespaceToken ∧ element.isWhitespaceToken)) :
    (written.next plan index before? element).Tidy (some element) := by
  cases element with
  | token raw text => exact tidy_token tidy _ apart
  | node raw children =>
      have turn : written.next plan index before? (.node raw children) = written.child (separatorAfter before?)
          (plan.under index).here? (Tree.rewrite (plan.under index) ⟨raw, children⟩).toElement := by
        rw [tree_rewrite_to_element]
        rfl
      rw [turn]
      cases removed : (plan.under index).here?.any Edit.isRemoval with
      | true =>
          rw [(child_of_removal _ _ _ _ removed).2]
          exact tidy_removal tidy _
      | false =>
          obtain ⟨some, shape⟩ := child_of_orderly written (separatorAfter before?) _
            (Tree.rewrite (plan.under index) ⟨raw, children⟩) orderly removed
          rw [shape]
          exact tidy_write tidy _ _ _ some

end

end Written

theorem Forest.written_spaced (plan : Plan) (index : Nat) (before? : Option Element) (start : Written) (forest : List Element)
    (tidy : start.Tidy before?) (spaced : Spaced (before?.toList ++ forest))
    (orderly : ∀ index, ∀ edit ∈ (plan.under index).here?, edit.Orderly) :
    Spaced (Forest.written plan index before? start forest).elements := by
  induction forest generalizing index before? start with
  | nil => exact tidy.spaced
  | cons element rest ih =>
      obtain ⟨-, others, apart⟩ := (spaced_append _ _).mp spaced
      have beside : ∀ other ∈ before?, ¬ (other.isWhitespaceToken ∧ element.isWhitespaceToken) := by
        rintro other rfl
        exact apart other rfl element rfl
      exact ih (index + 1) (some element) _ (Written.tidy_next tidy plan index element (orderly index) beside) others

namespace Written

def Tallies (parts : List (Element × List Element)) (removals : Nat) (written : Written) : Prop :=
  ∃ missing, Respaced parts written.elements.reverse missing ∧ missing + written.awaitsSpace.toNat ≤ removals

section
variable {parts : List (Element × List Element)} {removals : Nat} {written : Written} (tallies : written.Tallies parts removals)
include tallies

theorem tallies_write (part : Element × List Element) : (written.write part.2).Tallies (parts ++ [part]) removals := by
  obtain ⟨missing, respaced, bound⟩ := tallies
  have elements : (written.write part.2).elements.reverse = written.elements.reverse ++ part.2 := by simp [write]
  exact ⟨missing, elements ▸ .kept part respaced, Nat.le_trans (Nat.le_add_right _ _) bound⟩

theorem tallies_token (token : Element) : (written.token token).Tallies (parts ++ [(token, [token])]) removals := by
  by_cases swallowed : written.awaitsSpace && token.isWhitespaceToken
  · obtain ⟨missing, respaced, bound⟩ := tallies
    obtain ⟨awaits, white⟩ := Bool.and_eq_true_iff.mp swallowed
    rw [Written.token, if_pos swallowed]
    rw [awaits] at bound
    exact ⟨missing + 1, .taken token white respaced, bound⟩
  · rw [Written.token, if_neg swallowed]
    exact tallies_write tallies (token, [token])

theorem tallies_removal (settled : ∀ part ∈ parts, Settled part) (element : Element) :
    written.removal.Tallies (parts ++ [(element, [])]) (removals + 1) := by
  obtain ⟨elements, awaits⟩ := written
  obtain ⟨missing, respaced, bound⟩ := tallies
  have nothing : ∀ {elements : List Element} {missing : Nat}, Respaced parts elements missing →
      Respaced (parts ++ [(element, [])]) elements missing := fun earlier => by
    simpa using Respaced.kept (element, []) earlier
  have enough : missing + 1 ≤ removals + 1 := by omega
  cases elements with
  | nil => exact ⟨missing, nothing respaced, enough⟩
  | cons last front =>
      by_cases white : last.isWhitespaceToken
      · rw [removal_of_white last front awaits white]
        rw [List.reverse_cons] at respaced
        exact ⟨missing + 1, nothing (respaced_pop parts _ last missing settled respaced white), enough⟩
      · rw [removal_of_solid last front awaits white]
        exact ⟨missing, nothing respaced, enough⟩

end

end Written

namespace Node

def partsFrom (plan : Plan) (snapshot : Nat) (raw : RawKind) (context : List Frame) :
    List Element → List Element → List (Element × List Element)
  | _, [] => []
  | before, .token kind text :: rest =>
      (.token kind text, [.token kind text]) :: partsFrom plan snapshot raw context (.token kind text :: before) rest
  | before, .node kind children :: rest =>
      (.node kind children, Written.separated (separatorAfter before.head?)
        (successors plan ⟨snapshot, ⟨kind, children⟩, ⟨raw, before, rest⟩ :: context⟩)) ::
        partsFrom plan snapshot raw context (.node kind children :: before) rest

def parts (plan : Plan) (node : Node) : List (Element × List Element) :=
  partsFrom plan node.snapshot node.focus.raw node.context [] node.elements

def isRemoved (plan : Plan) (node : Node) : Bool := (plan.edit? node.path).any Edit.isRemoval

section
variable (plan : Plan) (orderly : ∀ path, ∀ edit ∈ plan.edit? path, edit.Orderly)
include orderly

theorem tallies_child (child : Node) (frame : Frame) (outer : List Frame) (context : child.context = frame :: outer)
    (before? : Option Element) (start : Written) (parts : List (Element × List Element)) (removals : Nat)
    (tallies : start.Tallies parts removals) (settled : ∀ part ∈ parts, Settled part) :
    let part := (child.focus.toElement, Written.separated (separatorAfter before?) (child.successors plan))
    (Written.next (plan.below (Frame.pathOf outer)) frame.before.length before? start child.focus.toElement).Tallies (parts ++ [part])
      (removals + if child.isRemoved plan then 1 else 0) ∧ Settled part := by
  intro part
  rw [next_child plan child frame outer before? start context]
  cases removed : child.isRemoved plan with
  | true =>
      obtain ⟨gone, written⟩ := Written.child_of_removal start (separatorAfter before?) _ (child.rewritten plan).focus removed
      have nothing : part.2 = [] := congrArg (Written.separated _) gone
      have shape : part = (child.focus.toElement, []) := Prod.ext rfl nothing
      rw [written, shape]
      exact ⟨Written.tallies_removal tallies settled _, .inr nofun⟩
  | false =>
      obtain ⟨stays, written⟩ := Written.child_of_orderly start (separatorAfter before?) _ (child.rewritten plan).focus
        (orderly child.path) removed
      obtain ⟨first, rest, successors⟩ := List.exists_cons_of_ne_nil stays
      obtain ⟨front, last, split⟩ := Written.separated_last (separatorAfter before?) first rest
      have ends : part.2 = front ++ [last.toElement] := (congrArg (Written.separated _) successors).trans split
      rw [written]
      refine ⟨Written.tallies_write tallies part, .inr fun final isFinal => ?_⟩
      rw [ends, List.getLast?_concat] at isFinal
      exact Option.some.inj isFinal ▸ rfl

theorem written_tallies (snapshot : Nat) (raw : RawKind) (context : List Frame) (before rest : List Element) (start : Written)
    (parts : List (Element × List Element)) (removals : Nat) (tallies : start.Tallies parts removals)
    (settled : ∀ part ∈ parts, Settled part) :
    (Forest.written (plan.below (Frame.pathOf context)) before.length before.head? start rest).Tallies
      (parts ++ partsFrom plan snapshot raw context before rest)
      (removals + (childrenFrom snapshot raw context before rest).countP (isRemoved plan)) := by
  induction rest generalizing before start parts removals with
  | nil => simpa [partsFrom, childrenFrom, Forest.written] using tallies
  | cons element rest ih =>
      cases element with
      | token kind text =>
          have later := ih (.token kind text :: before) _ _ _ (Written.tallies_token tallies (.token kind text))
            (List.forall_mem_append.mpr ⟨settled, by simp [Settled]⟩)
          rw [List.append_assoc] at later
          exact later
      | node kind children =>
          obtain ⟨turn, own⟩ := tallies_child plan orderly ⟨snapshot, ⟨kind, children⟩, ⟨raw, before, rest⟩ :: context⟩ _ _ rfl
            before.head? start parts removals tallies settled
          have later := ih (.node kind children :: before) _ _ _ turn (List.forall_mem_append.mpr ⟨settled, by simpa using own⟩)
          rw [List.append_assoc, Nat.add_assoc, Nat.add_comm (ite _ _ _)] at later
          rw [childrenFrom, List.countP_cons, partsFrom]
          exact later

end

theorem rewritten_spacing (plan : Plan) (node : Node) (orderly : ∀ path, ∀ edit ∈ plan.edit? path, edit.Orderly) :
    (Spaced node.elements → Spaced (node.rewritten plan).elements) ∧
      ∃ missing, Respaced (node.parts plan) (node.rewritten plan).elements missing ∧
        missing ≤ node.children.countP (isRemoved plan) := by
  have shape : (node.rewritten plan).elements = (Forest.written (plan.below node.path) 0 none ⟨[], false⟩ node.elements).elements.reverse :=
    (tree_rewrite_shape (plan.below node.path) node.focus).2
  rw [shape]
  constructor
  · intro spaced
    rw [spaced_reverse]
    refine Forest.written_spaced _ 0 none ⟨[], false⟩ node.elements ⟨.nil, nofun, nofun⟩ spaced fun index edit planned => ?_
    rw [Plan.here_eq, Plan.edit_under, Plan.edit_below] at planned
    exact orderly _ edit planned
  · obtain ⟨missing, respaced, bound⟩ := written_tallies plan orderly node.snapshot node.focus.raw node.context [] node.elements
      ⟨[], false⟩ [] 0 ⟨0, .none, Nat.le_refl _⟩ (List.forall_mem_nil _)
    rw [Nat.zero_add] at bound
    exact ⟨missing, respaced, Nat.le_trans (Nat.le_add_right _ _) bound⟩

end Node

namespace Session

theorem orderly_of_history (home : Node) (history : List Request)
    (spliceless : ∀ request ∈ (start home).accepted history, ∀ elements, request.edit ≠ .splice elements) (path : List Nat) :
    ∀ edit ∈ ((start home).run history).edits.edit? path, edit.Orderly := by
  intro edit planned
  rw [planned_edit (reached_history home history)] at planned
  obtain ⟨request, found, rfl⟩ := Option.map_eq_some_iff.mp planned
  have other := spliceless request (on_eq_some _ _ found).1
  cases request with
  | replace _ nodes => cases nodes <;> simp [Request.edit, Edit.Orderly]
  | splice _ elements =>
      cases elements with
      | nil => trivial
      | cons first rest => exact absurd rfl (other (first :: rest))
  | insertBefore _ _ => trivial
  | insertAfter _ _ => trivial
  | remove _ => trivial

-- Above every target of a session that splices nothing, the child list consists of what its elements give way to, but for white
-- space tokens that are missing, of which there are no more than removed children; and where it has no white space tokens side
-- by side before, it has none after.
theorem white_space_stays_canonical (home : Node) (history : List Request)
    (spliceless : ∀ request ∈ (start home).accepted history, ∀ elements, request.edit ≠ .splice elements) :
    let session := (start home).run history
    ∀ request ∈ (start home).accepted history, ∀ node ∈ request.target.ancestors,
      let after := node.rewritten session.edits
      after.root = session.apply ∧ (Spaced node.elements → Spaced after.elements) ∧
        ∃ missing, Respaced (node.parts session.edits) after.elements missing ∧
          missing ≤ node.children.countP (Node.isRemoved session.edits) := by
  intro session request member node above after
  have reached := reached_history home history
  have inTree := Node.same_tree_trans (Node.same_tree_of_ancestor _ _ above) (reached.within request member).1
  refine ⟨?_, Node.rewritten_spacing session.edits node (orderly_of_history home history spliceless)⟩
  rw [Node.rewritten_root _ node (above_survives reached request member node above), inTree.2, apply, reached.root]

theorem statements_exchanged :
    let statement (name : String) := Build.exprStmt (Build.identifierName name)
    let node := Node.ofRoot 0 (Build.block [statement "a", statement "b", statement "c"])
    let child (index : Nat) := (node.child? index).getD node
    let history := [.remove (child 0), .insertAfter (child 1) [statement "d"], .remove (child 2)]
    let session := (start node).run history
    let done := (start node).accepted history
    let after := node.rewritten session.edits
    done = history ∧ (∀ request ∈ done, ∀ elements, request.edit ≠ .splice elements) ∧ (∀ request ∈ done, node ∈ request.target.ancestors) ∧
      Spaced node.elements ∧ after.root = session.apply ∧ Spaced after.elements ∧
      after.focus = Build.block [statement "b", statement "d"] ∧
      ∃ missing, Respaced (node.parts session.edits) after.elements missing ∧ missing ≤ 2 := by
  intro statement node child history session done after
  have all : done = history := by decide
  have spliceless : ∀ request ∈ done, ∀ elements, request.edit ≠ .splice elements := by
    rw [all]
    simp [history, Request.edit]
  have above : ∀ request ∈ done, node ∈ request.target.ancestors := by
    rw [all]
    decide
  have spaced : Spaced node.elements := by decide
  have first : Request.remove (child 0) ∈ done := all ▸ List.mem_cons_self
  obtain ⟨root, canonical, missing, respaced, bound⟩ := white_space_stays_canonical node history spliceless _ first node (above _ first)
  have counted : node.children.countP (Node.isRemoved session.edits) = 2 := by decide +kernel
  exact ⟨all, spliceless, above, spaced, root, canonical spaced, by decide +kernel, missing, respaced, counted ▸ bound⟩

end Session

end SmellCheck
