import SmellCheck.Edit
import SmellCheck.Proofs.Places

/-!
How a plan rewrites a child list, one element after the other, and what becomes of a place that the
plan does not destroy: where it stands in the rewritten tree, and what stands around it there.
-/

set_option autoImplicit false

namespace SmellCheck

namespace Plan

def edit? (plan : Plan) (path : List Nat) : Option Edit := (plan.find? (·.1 == path)).map (·.2)

def below (plan : Plan) (path : List Nat) : Plan := path.foldl under plan

theorem here_eq (plan : Plan) : plan.here? = plan.edit? [] := by
  have same : (fun entry : List Nat × Edit => entry.1.isEmpty) = fun entry => entry.1 == [] := by
    funext entry
    cases entry.1 <;> rfl
  rw [here?, edit?, same]

theorem edit_under (plan : Plan) (index : Nat) (path : List Nat) :
    (plan.under index).edit? path = plan.edit? (index :: path) := by
  induction plan with
  | nil => rfl
  | cons entry rest ih =>
      obtain ⟨target, edit⟩ := entry
      cases target with
      | nil => simpa [under, edit?] using ih
      | cons step tail =>
          by_cases sameStep : step = index
          · subst sameStep
            by_cases sameTail : tail = path
            · simp [under, edit?, sameTail]
            · simpa [under, edit?, sameTail] using ih
          · simpa [under, edit?, sameStep] using ih

theorem mem_under (plan : Plan) (index : Nat) (rest : List Nat) (edit : Edit) :
    (rest, edit) ∈ plan.under index ↔ (index :: rest, edit) ∈ plan := by
  constructor
  · intro member
    obtain ⟨⟨path, other⟩, present, seen⟩ := List.mem_filterMap.mp member
    cases path with
    | nil => cases seen
    | cons step tail =>
        by_cases same : step = index
        · obtain ⟨rfl, rfl⟩ : tail = rest ∧ other = edit := by simpa [same] using seen
          exact same ▸ present
        · simp [same] at seen
  · intro member
    exact List.mem_filterMap.mpr ⟨_, member, by simp⟩

theorem mem_below (plan : Plan) (path rest : List Nat) (edit : Edit) :
    (rest, edit) ∈ plan.below path ↔ (path ++ rest, edit) ∈ plan := by
  induction path generalizing plan with
  | nil => rfl
  | cons step path ih => exact (ih (plan.under step)).trans (mem_under plan step (path ++ rest) edit)

theorem under_of_no_edit_inside (plan : Plan) (index : Nat) (untouched : plan.hasEditInside = false) :
    plan.under index = [] := by
  apply List.filterMap_eq_nil_iff.mpr
  rintro ⟨target, edit⟩ member
  have atRoot : target.isEmpty = true := by
    have all := List.any_eq_false.mp untouched (target, edit) member
    simpa using all
  rw [List.isEmpty_iff.mp atRoot]

theorem below_append (plan : Plan) (path path' : List Nat) :
    plan.below (path ++ path') = (plan.below path).below path' := by
  simp [below]

theorem edit_below (plan : Plan) (path path' : List Nat) :
    (plan.below path).edit? path' = plan.edit? (path ++ path') := by
  induction path generalizing plan with
  | nil => rfl
  | cons index rest ih =>
      rw [List.cons_append, ← edit_under plan index (rest ++ path')]
      exact ih (plan.under index)

theorem has_edit_inside_iff (plan : Plan) :
    plan.hasEditInside = true ↔ ∃ path, path ≠ [] ∧ (plan.edit? path).isSome := by
  rw [hasEditInside, List.any_eq_true]
  constructor
  · rintro ⟨⟨path, edit⟩, member, inside⟩
    refine ⟨path, by simpa using inside, ?_⟩
    rw [edit?, Option.isSome_map, List.find?_isSome]
    exact ⟨(path, edit), member, by simp⟩
  · rintro ⟨path, inside, planned⟩
    rw [edit?, Option.isSome_map, List.find?_isSome] at planned
    obtain ⟨entry, member, same⟩ := planned
    refine ⟨entry, member, ?_⟩
    rw [eq_of_beq same]
    simpa using inside

end Plan

theorem tree_rewrite_to_element (plan : Plan) (tree : Tree) :
    (tree.rewrite plan).toElement = tree.toElement.rewrite plan := by
  cases untouched : plan.hasEditInside <;> simp [Tree.rewrite, Tree.toElement, Element.rewrite, untouched, Tree.kind]

theorem rewrite_is_node (plan : Plan) (element : Element) : (element.rewrite plan).isNode = element.isNode := by
  cases element with
  | token _ _ => rfl
  | node raw children => cases untouched : plan.hasEditInside <;> simp [Element.rewrite, untouched, Element.isNode, Element.asNode?]

theorem rewrite_untouched (plan : Plan) (element : Element) (untouched : plan.hasEditInside = false) :
    element.rewrite plan = element := by
  cases element with
  | token _ _ => rfl
  | node _ _ => simp [Element.rewrite, untouched]

theorem tree_rewrite_untouched (plan : Plan) (tree : Tree) (untouched : plan.hasEditInside = false) :
    tree.rewrite plan = tree := by
  simp [Tree.rewrite, untouched]

namespace Written

def next (plan : Plan) (index : Nat) (before? : Option Element) (written : Written) (element : Element) : Written :=
  if element.isNode then
    written.child (separatorAfter before?) (plan.under index).here? (element.rewrite (plan.under index))
  else written.token element

def onTop (written : Written) (base : List Element) : Written := ⟨written.elements ++ base, written.awaitsSpace⟩

-- The last element written cannot be taken back.
def Firm (base : List Element) : Prop := ∀ last ∈ base.head?, last.isWhitespaceToken = false

theorem write_on_top (written : Written) (base elements : List Element) :
    (written.onTop base).write elements = (written.write elements).onTop base := by
  simp [write, onTop]

theorem token_on_top (written : Written) (base : List Element) (token : Element) :
    (written.onTop base).token token = (written.token token).onTop base := by
  by_cases swallowed : written.awaitsSpace && token.isWhitespaceToken
  · simp [Written.token, onTop, swallowed]
  · simp [Written.token, write, onTop, swallowed]

theorem removal_on_top (written : Written) (base : List Element) (firm : Firm base) :
    (written.onTop base).removal = written.removal.onTop base := by
  obtain ⟨elements, awaits⟩ := written
  cases elements with
  | cons last front => by_cases white : last.isWhitespaceToken <;> simp [removal, onTop, white]
  | nil =>
      cases base with
      | nil => rfl
      | cons last front =>
          have solid : last.isWhitespaceToken = false := firm last rfl
          simp [removal, onTop, solid]

theorem child_on_top (written : Written) (base : List Element) (separator : String) (edit? : Option Edit)
    (rewritten : Element) (firm : Firm base) :
    (written.onTop base).child separator edit? rewritten = (written.child separator edit? rewritten).onTop base := by
  cases edit? with
  | none => exact write_on_top written base _
  | some edit =>
      cases edit with
      | replace _ => exact write_on_top written base _
      | splice _ => exact write_on_top written base _
      | insertBefore _ => exact write_on_top written base _
      | insertAfter _ => exact write_on_top written base _
      | remove => exact removal_on_top written base firm

theorem next_on_top (plan : Plan) (index : Nat) (before? : Option Element) (written : Written)
    (base : List Element) (element : Element) (firm : Firm base) :
    next plan index before? (written.onTop base) element = (next plan index before? written element).onTop base := by
  by_cases isNode : element.isNode
  · simp only [next, if_pos isNode]
    exact child_on_top written base _ _ _ firm
  · simp only [next, if_neg isNode]
    exact token_on_top written base element

end Written

namespace Forest

def written (plan : Plan) (index : Nat) (before? : Option Element) (start : Written) : List Element → Written
  | [] => start
  | element :: rest => written plan (index + 1) (some element) (start.next plan index before? element) rest

theorem rewrite_eq_written (plan : Plan) (index : Nat) (before? : Option Element) (start : Written)
    (forest : List Element) :
    Forest.rewrite plan index before? start forest = (written plan index before? start forest).elements.reverse := by
  induction forest generalizing index before? start with
  | nil => rw [Forest.rewrite, written]
  | cons element rest ih =>
      rw [Forest.rewrite, written]
      exact ih (index + 1) (some element) _

theorem written_append (plan : Plan) (index : Nat) (before? : Option Element) (start : Written)
    (front back : List Element) :
    written plan index before? start (front ++ back) =
      written plan (index + front.length) (front.getLast?.or before?) (written plan index before? start front) back := by
  induction front generalizing index before? start with
  | nil => simp [written]
  | cons element rest ih =>
      rw [List.cons_append, written, ih, written, List.length_cons]
      have last : (rest.getLast?.or (some element)) = ((element :: rest).getLast?.or before?) := by
        cases rest with
        | nil => rfl
        | cons head tail => simp [List.getLast?_cons]
      rw [last, Nat.add_right_comm, Nat.add_assoc]

theorem written_on_top (plan : Plan) (index : Nat) (before? : Option Element) (start : Written)
    (base forest : List Element) (firm : Written.Firm base) :
    written plan index before? (start.onTop base) forest = (written plan index before? start forest).onTop base := by
  induction forest generalizing index before? start with
  | nil => rfl
  | cons element rest ih =>
      rw [written, written, Written.next_on_top plan index before? start base element firm]
      exact ih (index + 1) (some element) _

theorem rewrite_on_top (plan : Plan) (index : Nat) (before? : Option Element) (start : Written)
    (base forest : List Element) (firm : Written.Firm base) :
    Forest.rewrite plan index before? (start.onTop base) forest =
      base.reverse ++ Forest.rewrite plan index before? start forest := by
  rw [rewrite_eq_written, rewrite_eq_written, written_on_top plan index before? start base forest firm]
  simp [Written.onTop]

end Forest

namespace Edit

def leading (separator : String) : Option Edit → List Element
  | some (.insertBefore nodes) => nodes.flatMap fun node => [node.toElement, Build.whitespace separator]
  | _ => []

def trailing (separator : String) : Option Edit → List Element
  | some (.insertAfter nodes) => nodes.flatMap fun node => [Build.whitespace separator, node.toElement]
  | _ => []

def standing? (rewritten : Tree) : Option Edit → Option Tree
  | none | some (.insertBefore _) | some (.insertAfter _) => some rewritten
  | some (.replace [tree]) => some tree
  | _ => none

theorem child_of_standing (written : Written) (separator : String) (edit? : Option Edit) (rewritten stands : Tree)
    (standing : standing? rewritten edit? = some stands) :
    written.child separator edit? rewritten.toElement =
      (⟨(trailing separator edit?).reverse, false⟩ : Written).onTop
        (stands.toElement :: (leading separator edit?).reverse ++ written.elements) := by
  cases edit? with
  | none =>
      cases standing
      rfl
  | some edit =>
      cases edit with
      | replace nodes =>
          match nodes with
          | [tree] =>
              cases standing
              rfl
          | [] => cases standing
          | _ :: _ :: _ => cases standing
      | splice _ => cases standing
      | insertBefore _ =>
          cases standing
          simp [Written.child, Written.write, Written.onTop, leading, trailing]
      | insertAfter _ =>
          cases standing
          simp [Written.child, Written.write, Written.onTop, leading, trailing]
      | remove => cases standing

theorem standing_of_kept (rewritten : Tree) (edit? : Option Edit) (kept : ∀ edit ∈ edit?, edit.isDestructive = false) :
    standing? rewritten edit? = some rewritten := by
  cases edit? with
  | none => rfl
  | some edit =>
      have gentle := kept edit rfl
      cases edit <;> first | rfl | cases gentle

end Edit

namespace Frame

def edit? (plan : Plan) (frame : Frame) : Option Edit := plan.edit? [frame.before.length]

def separator (frame : Frame) : String := separatorAfter frame.before.head?

def writtenBefore (plan : Plan) (frame : Frame) : Written :=
  Forest.written plan 0 none ⟨[], false⟩ frame.before.reverse

def rewrite (plan : Plan) (frame : Frame) : Frame :=
  if plan.hasEditInside then
    ⟨(Kind.ofRaw frame.raw).raw,
      (Edit.leading frame.separator (frame.edit? plan)).reverse ++ (frame.writtenBefore plan).elements,
      Forest.rewrite plan (frame.before.length + 1) none
        ⟨(Edit.trailing frame.separator (frame.edit? plan)).reverse, false⟩ frame.after⟩
  else frame

def rewriteAll (plan : Plan) : List Frame → List Frame
  | [] => []
  | frame :: outer => frame.rewrite (plan.below (pathOf outer)) :: rewriteAll plan outer

theorem rewrite_untouched (plan : Plan) (frame : Frame) (untouched : plan.hasEditInside = false) :
    frame.rewrite plan = frame := by
  simp [rewrite, untouched]

theorem rewrite_from_node (plan : Plan) (index : Nat) (start : Written) (node : Tree) (forest : List Element) :
    Forest.rewrite plan index (some node.toElement) start forest = Forest.rewrite plan index none start forest := by
  cases forest with
  | nil => rfl
  | cons element rest => rfl

theorem turn_of_child (plan : Plan) (frame : Frame) (child stands : Tree)
    (standing : Edit.standing? (child.rewrite (plan.under frame.before.length)) (frame.edit? plan) = some stands) :
    Written.next plan frame.before.length frame.before.head? (frame.writtenBefore plan) child.toElement =
      (⟨(Edit.trailing frame.separator (frame.edit? plan)).reverse, false⟩ : Written).onTop
        (stands.toElement :: (Edit.leading frame.separator (frame.edit? plan)).reverse ++
          (frame.writtenBefore plan).elements) := by
  rw [← Edit.child_of_standing _ _ _ _ _ standing, Written.next, if_pos (by rfl), Plan.here_eq, Plan.edit_under,
    tree_rewrite_to_element]
  rfl

theorem plug_rewrite (plan : Plan) (frame : Frame) (child stands : Tree)
    (standing : Edit.standing? (child.rewrite (plan.under frame.before.length)) (frame.edit? plan) = some stands) :
    (frame.rewrite plan).plug stands = (frame.plug child).rewrite plan := by
  cases touched : plan.hasEditInside with
  | false =>
      have nothing := Plan.under_of_no_edit_inside plan frame.before.length touched
      have noEdit : frame.edit? plan = none := by
        rw [edit?, ← Plan.edit_under, nothing]
        rfl
      rw [noEdit, nothing] at standing
      obtain rfl : child = stands := Option.some.inj standing
      rw [rewrite_untouched plan frame touched, tree_rewrite_untouched plan _ touched]
  | true =>
      have whole : Forest.rewrite plan 0 none ⟨[], false⟩ (frame.plug child).children =
          ((frame.rewrite plan).plug stands).children := by
        -- What stands for the child is a node, so nothing after it takes it back.
        have firm : Written.Firm (stands.toElement ::
            (Edit.leading frame.separator (frame.edit? plan)).reverse ++ (frame.writtenBefore plan).elements) := by
          intro last isLast
          cases isLast
          rfl
        have before : Forest.written plan 0 none ⟨[], false⟩ frame.before.reverse = frame.writtenBefore plan := rfl
        rw [plug, Forest.rewrite_eq_written, Forest.written_append, Forest.written, before, Nat.zero_add,
          List.length_reverse, List.getLast?_reverse, Option.or_none, turn_of_child plan frame child stands standing,
          ← Forest.rewrite_eq_written, Forest.rewrite_on_top _ _ _ _ _ _ firm, rewrite_from_node]
        simp [plug, rewrite, touched]
      rw [Tree.rewrite, if_pos touched, whole, rewrite, if_pos touched]
      rfl

end Frame

namespace Forest

theorem written_untouched (plan : Plan) (index : Nat) (before? : Option Element) (start forest : List Element)
    (nothing : ∀ offset < forest.length, plan.under (index + offset) = []) :
    written plan index before? ⟨start, false⟩ forest = ⟨forest.reverse ++ start, false⟩ := by
  induction forest generalizing index before? start with
  | nil => rfl
  | cons element rest ih =>
      have here : plan.under index = [] := nothing 0 (by simp)
      have next : Written.next plan index before? ⟨start, false⟩ element = ⟨element :: start, false⟩ := by
        rw [Written.next, here]
        cases element with
        | token _ _ => rfl
        | node _ _ => rfl
      have later := ih (index + 1) (some element) (element :: start) fun offset bound => by
        rw [Nat.add_assoc, Nat.add_comm 1 offset]
        exact nothing (offset + 1) (by simpa using bound)
      rw [written, next, later]
      simp

end Forest

theorem element_rewrite_shape (plan : Plan) (raw : RawKind) (children : List Element) :
    ∃ raw', Kind.ofRaw raw' = Kind.ofRaw raw ∧ (Element.node raw children).rewrite plan =
      .node raw' (Forest.written plan 0 none ⟨[], false⟩ children).elements.reverse := by
  cases touched : plan.hasEditInside with
  | false =>
      refine ⟨raw, rfl, ?_⟩
      rw [rewrite_untouched plan _ touched, Forest.written_untouched]
      · simp
      · exact fun _ _ => Plan.under_of_no_edit_inside plan _ touched
  | true =>
      refine ⟨(Kind.ofRaw raw).raw, Kind.ofRaw_raw _, ?_⟩
      rw [Element.rewrite, if_pos touched, Forest.rewrite_eq_written]

theorem tree_rewrite_shape (plan : Plan) (tree : Tree) :
    (tree.rewrite plan).kind = tree.kind ∧
      (tree.rewrite plan).children = (Forest.written plan 0 none ⟨[], false⟩ tree.children).elements.reverse := by
  obtain ⟨raw', kind, shape⟩ := element_rewrite_shape plan tree.raw tree.children
  have whole : tree.rewrite plan = ⟨raw', _⟩ := to_element_injective _ _ ((tree_rewrite_to_element plan tree).trans shape)
  rw [whole]
  exact ⟨kind, rfl⟩

theorem frame_rewrite_shape (plan : Plan) (frame : Frame) :
    Kind.ofRaw (frame.rewrite plan).raw = Kind.ofRaw frame.raw ∧
    (frame.rewrite plan).before =
      (Edit.leading frame.separator (frame.edit? plan)).reverse ++ (frame.writtenBefore plan).elements ∧
    (frame.rewrite plan).after = (Forest.written plan (frame.before.length + 1) none
      ⟨(Edit.trailing frame.separator (frame.edit? plan)).reverse, false⟩ frame.after).elements.reverse := by
  cases touched : plan.hasEditInside with
  | false =>
      have nothing := fun index => Plan.under_of_no_edit_inside plan index touched
      have noEdit : frame.edit? plan = none := by
        rw [Frame.edit?, ← Plan.edit_under, nothing]
        rfl
      rw [Frame.rewrite_untouched plan frame touched, noEdit, Frame.writtenBefore,
        Forest.written_untouched _ _ _ _ _ fun _ _ => nothing _, Forest.written_untouched _ _ _ _ _ fun _ _ => nothing _]
      simp [Edit.leading, Edit.trailing]
  | true =>
      rw [Frame.rewrite, if_pos touched, Forest.rewrite_eq_written]
      exact ⟨Kind.ofRaw_raw _, rfl, rfl⟩

theorem frame_rewrite_alone (plan : Plan) (frame : Frame)
    (alone : ∀ index, index ≠ frame.before.length → plan.under index = [])
    (leading : Edit.leading frame.separator (frame.edit? plan) = [])
    (trailing : Edit.trailing frame.separator (frame.edit? plan) = []) :
    (frame.rewrite plan).before = frame.before ∧ (frame.rewrite plan).after = frame.after := by
  obtain ⟨-, before, after⟩ := frame_rewrite_shape plan frame
  have earlier : frame.writtenBefore plan = ⟨frame.before, false⟩ := by
    rw [Frame.writtenBefore, Forest.written_untouched]
    · simp
    · intro offset bound
      rw [List.length_reverse] at bound
      exact alone _ (by omega)
  have later := Forest.written_untouched plan (frame.before.length + 1) none [] frame.after
    fun offset _ => alone _ (by omega)
  rw [leading, earlier] at before
  rw [trailing, List.reverse_nil, later] at after
  exact ⟨before, by simpa using after⟩

theorem frame_same (plan : Plan) (frame : Frame) (known : (Kind.ofRaw frame.raw).raw = frame.raw)
    (around : (frame.rewrite plan).before = frame.before ∧ (frame.rewrite plan).after = frame.after) :
    frame.rewrite plan = frame := by
  have raw : (frame.rewrite plan).raw = frame.raw := by
    unfold Frame.rewrite
    split
    · exact known
    · rfl
  obtain ⟨before, after⟩ := around
  calc frame.rewrite plan = ⟨(frame.rewrite plan).raw, (frame.rewrite plan).before, (frame.rewrite plan).after⟩ := rfl
    _ = frame := by rw [raw, before, after]

namespace Node

def Survives (plan : Plan) (node : Node) : Prop :=
  ∀ path edit, path <+: node.path → path ≠ [] → plan.edit? path = some edit → edit.isDestructive = false

def inPlace (plan : Plan) (node : Node) (stands : Tree) : Node :=
  ⟨node.snapshot, stands, Frame.rewriteAll plan node.context⟩

def rewritten (plan : Plan) (node : Node) : Node := node.inPlace plan (node.focus.rewrite (plan.below node.path))

theorem survives_of_prefix (plan : Plan) (above node : Node) (isPrefix : above.path <+: node.path)
    (survives : node.Survives plan) : above.Survives plan :=
  fun path edit within inner planned => survives path edit (within.trans isPrefix) inner planned

theorem parent_path (node : Node) (frame : Frame) (outer : List Frame) (context : node.context = frame :: outer) :
    node.path = Frame.pathOf outer ++ [frame.before.length] := by
  rw [path_eq, context, Frame.path_of_cons]

theorem plug_rewritten (plan : Plan) (snapshot : Nat) (focus : Tree) (frame : Frame) (outer : List Frame)
    (survives : Survives plan ⟨snapshot, focus, frame :: outer⟩) :
    (frame.rewrite (plan.below (Frame.pathOf outer))).plug (focus.rewrite (plan.below (Frame.pathOf (frame :: outer)))) =
      (frame.plug focus).rewrite (plan.below (Frame.pathOf outer)) := by
  have path := parent_path ⟨snapshot, focus, frame :: outer⟩ frame outer rfl
  have kept : ∀ edit ∈ frame.edit? (plan.below (Frame.pathOf outer)), edit.isDestructive = false := by
    intro edit planned
    rw [Frame.edit?, Plan.edit_below] at planned
    exact survives _ edit (path ▸ List.prefix_refl _) (by simp) planned
  have below : plan.below (Frame.pathOf (frame :: outer)) = (plan.below (Frame.pathOf outer)).under frame.before.length := by
    rw [show Frame.pathOf (frame :: outer) = _ from path, Plan.below_append]
    rfl
  rw [below]
  exact Frame.plug_rewrite (plan.below (Frame.pathOf outer)) frame focus _ (Edit.standing_of_kept _ _ kept)

theorem survives_above (plan : Plan) (snapshot : Nat) (focus : Tree) (frame : Frame) (outer : List Frame)
    (survives : Survives plan ⟨snapshot, focus, frame :: outer⟩) : Survives plan ⟨snapshot, frame.plug focus, outer⟩ :=
  survives_of_prefix plan _ _ (by rw [parent_path ⟨snapshot, focus, frame :: outer⟩ frame outer rfl]; exact List.prefix_append _ _)
    survives

theorem rise_rewrite_all (plan : Plan) (snapshot : Nat) (focus : Tree) (context : List Frame)
    (survives : Survives plan ⟨snapshot, focus, context⟩) :
    Frame.rise (focus.rewrite (plan.below (Frame.pathOf context))) (Frame.rewriteAll plan context) =
      (Frame.rise focus context).rewrite plan := by
  induction context generalizing focus with
  | nil => rfl
  | cons frame outer ih =>
      have up := plug_rewritten plan snapshot focus frame outer survives
      rw [Frame.rewriteAll]
      exact (congrArg (Frame.rise · (Frame.rewriteAll plan outer)) up).trans
        (ih (frame.plug focus) (survives_above plan snapshot focus frame outer survives))

theorem rewritten_parent (plan : Plan) (node : Node) (survives : node.Survives plan) :
    (node.rewritten plan).parent = node.parent.map (rewritten plan) := by
  obtain ⟨snapshot, focus, context⟩ := node
  cases context with
  | nil => rfl
  | cons frame outer =>
      have up := plug_rewritten plan snapshot focus frame outer survives
      exact congrArg (fun above : Tree => some (⟨snapshot, above, Frame.rewriteAll plan outer⟩ : Node)) up

theorem rewritten_root (plan : Plan) (node : Node) (survives : node.Survives plan) :
    (node.rewritten plan).root = node.root.rewrite plan :=
  rise_rewrite_all plan node.snapshot node.focus node.context survives

theorem in_place_root (plan : Plan) (node parent : Node) (stands : Tree) (isParent : node.parent = some parent)
    (survives : parent.Survives plan)
    (standing : Edit.standing? (node.focus.rewrite (plan.below node.path)) (plan.edit? node.path) = some stands) :
    (node.inPlace plan stands).root = node.root.rewrite plan := by
  obtain ⟨snapshot, focus, context⟩ := node
  cases context with
  | nil => cases isParent
  | cons frame outer =>
      obtain rfl : ⟨snapshot, frame.plug focus, outer⟩ = parent := Option.some.inj isParent
      rw [parent_path ⟨snapshot, focus, frame :: outer⟩ frame outer rfl, Plan.below_append,
        ← Plan.edit_below] at standing
      have up := Frame.plug_rewrite (plan.below (Frame.pathOf outer)) frame focus stands standing
      exact (congrArg (Frame.rise · (Frame.rewriteAll plan outer)) up).trans
        (rise_rewrite_all plan snapshot (frame.plug focus) outer survives)

end Node

end SmellCheck
