import SmellCheck.Proofs.Named

/-!
Plans that give names to literals. Carrying out such a plan and the same plan without the names gives
two documents that correspond: every literal with a name is exchanged for one node, and everything
else is written alike.
-/

set_option autoImplicit false

namespace SmellCheck

structure Plan.Names (before after : Plan) (element : Element) : Prop where
  gentle : ∀ path edit, before.edit? path = some edit → edit.isDestructive = false
  more : ∀ path, after.edit? path = before.edit? path ∨ before.edit? path = none ∧
    ∃ name raw children, after.edit? path = some (.replace [Build.identifierName name]) ∧
      element.at? path = some (.node raw children) ∧ Kind.ofRaw raw = .literal

theorem names_below (before after : Plan) (element inner : Element) (path : List Nat)
    (names : before.Names after element) (place : element.at? path = some inner) :
    (before.below path).Names (after.below path) inner := by
  refine ⟨?_, ?_⟩
  · intro rest edit planned
    rw [Plan.edit_below] at planned
    exact names.gentle (path ++ rest) edit planned
  · intro rest
    rw [Plan.edit_below, Plan.edit_below]
    have more := names.more (path ++ rest)
    rw [at_append, place, Option.bind_some] at more
    exact more

theorem names_child (before after : Plan) (raw : RawKind) (children : List Element) (index : Nat) (child : Element)
    (names : before.Names after (.node raw children)) (isChild : children[index]? = some child) :
    (before.under index).Names (after.under index) child :=
  names_below before after _ child [index] names (by simp [Element.at?, isChild])

structure Written.Named (written written' : Written) : Prop where
  elements : List.Forall₂ Element.Named written.elements written'.elements
  settled : written.awaitsSpace = false
  settled' : written'.awaitsSpace = false

namespace Written

theorem write_named (written written' : Written) (same : written.Named written') (elements elements' : List Element)
    (more : List.Forall₂ Element.Named elements elements') : (written.write elements).Named (written'.write elements') :=
  ⟨List.rel_append (List.rel_reverse more) same.elements, rfl, rfl⟩

theorem next_named (before after : Plan) (index : Nat) (previous? : Option Element) (written written' : Written)
    (same : written.Named written') (element : Element) (names : (before.under index).Names (after.under index) element)
    (rewritten : (element.rewrite (before.under index)).Named (element.rewrite (after.under index))) :
    (written.next before index previous? element).Named (written'.next after index previous? element) := by
  cases element with
  | token raw text =>
      simp only [next, Element.isNode, Element.asNode?, Option.isSome_none, Bool.false_eq_true, if_false, Written.token,
        same.settled, same.settled', Bool.false_and]
      exact write_named written written' same _ _ (.cons (.token raw text) .nil)
  | node raw children =>
      simp only [next, Element.isNode, Element.asNode?, Option.isSome_some, if_true, Plan.here_eq]
      rcases names.more [] with equal | ⟨nothing, name, raw', children', named, place, isLiteral⟩
      · rw [equal]
        cases planned : (before.under index).edit? [] with
        | none => exact write_named written written' same _ _ (.cons rewritten .nil)
        | some edit =>
            have gentle := names.gentle [] edit planned
            cases edit with
            | insertBefore nodes =>
                exact write_named written written' same _ _ (List.rel_append (forest_named_refl _) (.cons rewritten .nil))
            | insertAfter nodes => exact write_named written written' same _ _ (.cons rewritten (forest_named_refl _))
            | replace _ => cases gentle
            | splice _ => cases gentle
            | remove => cases gentle
      · obtain ⟨rfl, rfl⟩ := Element.node.inj (Option.some.inj place)
        obtain ⟨raw'', kind, shape⟩ := element_rewrite_shape (before.under index) raw children
        rw [nothing, named, shape]
        exact write_named written written' same _ _ (.cons (.literal _ _ _ name (kind.trans isLiteral) rfl) .nil)

end Written

mutual
theorem element_rewrite_named (before after : Plan) : (element : Element) → before.Names after element →
    (element.rewrite before).Named (element.rewrite after)
  | .token raw text, _ => .token raw text
  | .node raw children, names => by
      obtain ⟨raw', kind, shape⟩ := element_rewrite_shape before raw children
      obtain ⟨raw'', kind', shape'⟩ := element_rewrite_shape after raw children
      have written := forest_written_named before after 0 none ⟨[], false⟩ ⟨[], false⟩ ⟨.nil, rfl, rfl⟩ children
        fun index child isChild => by
          rw [Nat.zero_add]
          exact names_child before after raw children index child names isChild
      rw [shape, shape']
      exact .node _ _ _ _ (kind'.trans kind.symm) (List.rel_reverse written.elements)

theorem forest_written_named (before after : Plan) (index : Nat) (previous? : Option Element) (start start' : Written)
    (same : start.Named start') : (forest : List Element) →
    (∀ offset child, forest[offset]? = some child → (before.under (index + offset)).Names (after.under (index + offset)) child) →
    (Forest.written before index previous? start forest).Named (Forest.written after index previous? start' forest)
  | [], _ => same
  | element :: rest, names => by
      have here := names 0 element rfl
      have next := Written.next_named before after index previous? start start' same element here
        (element_rewrite_named (before.under index) (after.under index) element here)
      refine forest_written_named before after (index + 1) (some element) _ _ next rest fun offset child isChild => ?_
      have later := names (offset + 1) child (by simpa using isChild)
      rwa [Nat.add_assoc, Nat.add_comm 1 offset]
end

theorem frame_rewrite_named (before after : Plan) (frame : Frame) (child : Tree)
    (names : before.Names after (frame.plug child).toElement) : (frame.rewrite before).Named (frame.rewrite after) := by
  obtain ⟨kind, front, back⟩ := frame_rewrite_shape before frame
  obtain ⟨kind', front', back'⟩ := frame_rewrite_shape after frame
  have parts := fun index element => names_child before after frame.raw (frame.plug child).children index element names
  have around : Edit.leading frame.separator (frame.edit? after) = Edit.leading frame.separator (frame.edit? before) ∧
      Edit.trailing frame.separator (frame.edit? after) = Edit.trailing frame.separator (frame.edit? before) := by
    rcases names.more [frame.before.length] with equal | ⟨nothing, name, _, _, named, -, -⟩
    · rw [Frame.edit?, Frame.edit?, equal]
      exact ⟨rfl, rfl⟩
    · rw [Frame.edit?, Frame.edit?, nothing, named]
      exact ⟨rfl, rfl⟩
  refine ⟨kind'.trans kind.symm, ?_, ?_⟩
  · have written := forest_written_named before after 0 none ⟨[], false⟩ ⟨[], false⟩ ⟨.nil, rfl, rfl⟩ frame.before.reverse
      fun offset element isChild => by
        rw [Nat.zero_add]
        refine parts offset element ?_
        rw [Frame.plug, List.getElem?_append_left (List.getElem?_eq_some_iff.mp isChild).1]
        exact isChild
    rw [front, front', around.1]
    exact List.rel_append (forest_named_refl _) written.elements
  · have written := forest_written_named before after (frame.before.length + 1) none
      ⟨(Edit.trailing frame.separator (frame.edit? before)).reverse, false⟩
      ⟨(Edit.trailing frame.separator (frame.edit? before)).reverse, false⟩ ⟨forest_named_refl _, rfl, rfl⟩ frame.after
      fun offset element isChild => by
        refine parts _ element ?_
        have index : frame.before.length + 1 + offset - frame.before.reverse.length = offset + 1 := by
          rw [List.length_reverse]
          omega
        rw [Frame.plug, List.getElem?_append_right (by rw [List.length_reverse]; omega), index]
        exact isChild
    rw [back, back', around.2]
    exact List.rel_reverse written.elements

theorem rewrite_all_named (before after : Plan) (focus : Tree) (context : List Frame)
    (names : before.Names after (Frame.rise focus context).toElement) :
    List.Forall₂ Frame.Named (Frame.rewriteAll before context) (Frame.rewriteAll after context) := by
  induction context generalizing focus with
  | nil => exact .nil
  | cons frame outer ih =>
      refine .cons ?_ (ih (frame.plug focus) names)
      exact frame_rewrite_named _ _ frame focus (names_below before after _ _ _ names (rise_at (frame.plug focus) outer))

end SmellCheck
