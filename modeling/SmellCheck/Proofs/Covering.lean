import SmellCheck.Cover
import SmellCheck.Proofs.Descent

/-!
From a place to its range and back. A range with text leads into one child at each step, so a search
for the range of a place comes to that place; where no child has all of its text, it ends there.
-/

set_option autoImplicit false

namespace SmellCheck

theorem length_of_mem (element : Element) (forest : List Element) (member : element ∈ forest) :
    element.length ≤ Forest.length forest := by
  obtain ⟨front, back, rfl⟩ := List.append_of_mem member
  rw [Forest.length_append, Forest.length]
  omega

theorem length_pair (forest : List Element) (first second : Element) (isFirst : first ∈ forest) (isSecond : second ∈ forest)
    (different : first ≠ second) : first.length + second.length ≤ Forest.length forest := by
  induction forest with
  | nil => cases isFirst
  | cons element rest ih =>
      rw [Forest.length]
      rcases List.mem_cons.mp isFirst with rfl | laterFirst <;> rcases List.mem_cons.mp isSecond with rfl | laterSecond
      · exact absurd rfl different
      · have := length_of_mem second rest laterSecond
        omega
      · have := length_of_mem first rest laterFirst
        omega
      · have := ih laterFirst laterSecond
        omega

theorem length_reverse (forest : List Element) : Forest.length forest.reverse = Forest.length forest := by
  induction forest with
  | nil => rfl
  | cons element rest ih =>
      rw [List.reverse_cons, Forest.length_append, ih, Forest.length, Forest.length, Forest.length, Nat.add_zero, Nat.add_comm]

theorem plug_length (frame : Frame) (focus : Tree) :
    (frame.plug focus).length = Forest.length frame.before + focus.length + Forest.length frame.after := by
  rw [Tree.length, Frame.plug, Forest.length_append, length_reverse, Forest.length, Nat.add_assoc]
  rfl

section
variable (range : Range) (some : range.start < range.stop)
include some

theorem goes_into_iff (start : Nat) (element : Element) (isFirst : Bool) (next? : Option Element) :
    range.goesInto start element isFirst next? = true ↔ start ≤ range.start ∧ range.stop ≤ start + element.length := by
  rw [Range.goesInto, if_pos some, Bool.and_eq_true, decide_eq_true_iff, decide_eq_true_iff]

namespace Node

theorem forest_covering_child (snapshot : Nat) (raw : RawKind) (context : List Frame) (before front : List Element)
    (child : Element) (back : List Element) (start : Nat) (inside : start + Forest.length front ≤ range.start)
    (within : range.stop ≤ start + Forest.length front + child.length) :
    forestCovering snapshot range raw context before start (front ++ child :: back) =
      coveringFrom snapshot range (⟨raw, front.reverse ++ before, back⟩ :: context) (start + Forest.length front) child := by
  induction front generalizing before start with
  | nil =>
      have into := (goes_into_iff range some start child before.isEmpty back.head?).mpr ⟨inside, within⟩
      rw [List.nil_append, forestCovering, if_pos into]
      rfl
  | cons element rest ih =>
      rw [Forest.length] at inside within
      have past : ¬ range.goesInto start element before.isEmpty (rest ++ child :: back).head? := by
        rw [goes_into_iff range some]
        omega
      have later := ih (element :: before) (start + element.length) (by omega) (by omega)
      rw [List.cons_append, forestCovering, if_neg past, later, Forest.length, List.reverse_cons, List.append_assoc,
        Nat.add_assoc]
      rfl

omit some in
theorem covering_is_some (snapshot : Nat) (context : List Frame) (start : Nat) (tree : Tree) :
    ∃ deepest, coveringFrom snapshot range context start tree.toElement = Option.some deepest := by
  rw [Tree.toElement, coveringFrom]
  cases forestCovering snapshot range tree.raw context [] start tree.children with
  | none => exact ⟨_, rfl⟩
  | some deepest => exact ⟨deepest, rfl⟩

theorem covering_descends (snapshot : Nat) (focus : Tree) (context : List Frame) (inside : offset context ≤ range.start)
    (within : range.stop ≤ offset context + focus.length) :
    coveringFrom snapshot range [] 0 (Frame.rise focus context).toElement =
      coveringFrom snapshot range context (offset context) focus.toElement := by
  -- By induction on the frames from the place upward: what is inside a place is inside all above it.
  induction context generalizing focus with
  | nil => rfl
  | cons frame outer ih =>
      have length := plug_length frame focus
      rw [offset] at inside within
      have above := ih (frame.plug focus) (by omega) (by omega)
      have into := forest_covering_child range some snapshot frame.raw outer [] frame.before.reverse focus.toElement
        frame.after (offset outer) (by rw [length_reverse]; omega)
        (by rw [length_reverse]; show range.stop ≤ offset outer + Forest.length frame.before + focus.length; omega)
      rw [length_reverse, List.reverse_reverse, List.append_nil, Nat.add_comm] at into
      obtain ⟨deepest, found⟩ := covering_is_some range snapshot (frame :: outer) (Forest.length frame.before + offset outer) focus
      rw [found] at into
      show coveringFrom snapshot range [] 0 (Frame.rise (frame.plug focus) outer).toElement =
        coveringFrom snapshot range (frame :: outer) (Forest.length frame.before + offset outer) focus.toElement
      rw [above, found, Tree.toElement, coveringFrom, Frame.plug, into]
      rfl

theorem forest_covering_none (snapshot : Nat) (raw : RawKind) (context : List Frame) (before : List Element) (start : Nat)
    (forest : List Element) (short : ∀ element ∈ forest, element.isNode → element.length < range.stop - range.start) :
    forestCovering snapshot range raw context before start forest = none := by
  induction forest generalizing before start with
  | nil => rfl
  | cons element rest ih =>
      rw [forestCovering]
      by_cases into : range.goesInto start element before.isEmpty rest.head?
      · rw [if_pos into]
        obtain ⟨inside, within⟩ := (goes_into_iff range some start element _ _).mp into
        cases element with
        | token raw text => rfl
        | node raw children =>
            have shorter := short _ List.mem_cons_self rfl
            omega
      · rw [if_neg into]
        exact ih (element :: before) (start + element.length) fun later member => short later (List.mem_cons_of_mem _ member)

end Node

end

namespace Node

theorem range_within (focus : Tree) (context : List Frame) :
    offset context + focus.length ≤ (Frame.rise focus context).length := by
  induction context generalizing focus with
  | nil => exact Nat.le_of_eq (Nat.zero_add _)
  | cons frame outer ih =>
      have wider := ih (frame.plug focus)
      have length := plug_length frame focus
      rw [offset]
      show _ ≤ (Frame.rise (frame.plug focus) outer).length
      omega

theorem offset_append (inner outer : List Frame) : offset (inner ++ outer) = offset inner + offset outer := by
  induction inner with
  | nil => exact (Nat.zero_add _).symm
  | cons frame rest ih => rw [List.cons_append, offset, offset, ih, Nat.add_assoc]

theorem range_of_below (node below : Node) (member : below ∈ node.descendantsOrSelf) :
    node.range.contains below.range := by
  have inside : ∃ inner, below.context = inner ++ node.context ∧ node.focus = Frame.rise below.focus inner := by
    rcases List.mem_cons.mp ((mem_descendants_or_self_iff node below).mp member) with rfl | above
    · exact ⟨[], rfl, rfl⟩
    · obtain ⟨inner, outer, split, -, rfl⟩ := (mem_ancestors node below).mp above
      exact ⟨inner, split, rfl⟩
  obtain ⟨inner, split, focus⟩ := inside
  have starts : below.start = offset inner + node.start := by
    rw [start, split, offset_append, start]
  have within := range_within below.focus inner
  rw [← focus] at within
  refine Bool.and_eq_true_iff.mpr ⟨decide_eq_true_iff.mpr ?_, decide_eq_true_iff.mpr ?_⟩
  · show node.start ≤ below.start
    omega
  · show below.start + below.focus.length ≤ node.start + node.focus.length
    omega

theorem length_of_below (node below : Node) (member : below ∈ node.descendantsOrSelf) : below.focus.length ≤ node.focus.length := by
  obtain ⟨starts, stops⟩ := Bool.and_eq_true_iff.mp (range_of_below node below member)
  have first : node.start ≤ below.start := of_decide_eq_true starts
  have last : below.start + below.focus.length ≤ node.start + node.focus.length := of_decide_eq_true stops
  omega

theorem length_beside_token (node child below : Node) (raw : RawKind) (word : String) (isChild : child ∈ node.children)
    (own : Element.token raw word ∈ child.elements) (member : below ∈ node.descendants) (other : below.focus ≠ child.focus) :
    below.focus.length + word.utf8ByteSize ≤ node.focus.length := by
  obtain ⟨first, isFirst, within⟩ := (mem_descendants node below).mp member
  have firstIn : first.focus.toElement ∈ node.focus.children := child_element node first isFirst
  by_cases same : first.focus = child.focus
  · -- The child that the place is in has a token like that, too.
    have deeper : below ∈ first.descendants := by
      rcases List.mem_cons.mp within with rfl | deeper
      · exact absurd same other
      · exact deeper
    obtain ⟨inner, isInner, inInner⟩ := (mem_descendants first below).mp deeper
    have innerIn : inner.focus.toElement ∈ first.focus.children := child_element first inner isInner
    have ownIn : Element.token raw word ∈ first.focus.children := same ▸ own
    have both : inner.focus.length + word.utf8ByteSize ≤ first.focus.length := length_pair _ _ _ innerIn ownIn nofun
    have inside := length_of_below inner below inInner
    have whole : first.focus.length ≤ node.focus.length := length_of_mem _ _ firstIn
    omega
  · have childIn : child.focus.toElement ∈ node.focus.children := child_element node child isChild
    have both : first.focus.length + child.focus.length ≤ node.focus.length :=
      length_pair _ _ _ firstIn childIn fun equal => same (to_element_injective _ _ equal)
    have inside := length_of_below first below within
    have inChild : word.utf8ByteSize ≤ child.focus.length := length_of_mem _ _ own
    omega

theorem with_range_of_place (place : Node) (some : 0 < place.focus.length)
    (short : ∀ element ∈ place.elements, element.isNode → element.length < place.focus.length) :
    (ofRoot place.snapshot place.root).withRange? place.range = Option.some place := by
  have long : place.range.start < place.range.stop := Nat.lt_add_of_pos_right some
  have size : place.range.stop - place.range.start = place.focus.length := Nat.add_sub_cancel_left _ _
  have held : (ofRoot place.snapshot place.root).range.contains place.range := by
    have within := range_within place.focus place.context
    refine Bool.and_eq_true_iff.mpr ⟨by simp [range, start, ofRoot, offset], decide_eq_true_iff.mpr ?_⟩
    show offset place.context + place.focus.length ≤ 0 + (Frame.rise place.focus place.context).length
    rwa [Nat.zero_add]
  have nowhere := forest_covering_none place.range long place.snapshot place.focus.raw place.context [] place.start
    place.elements (by rwa [size])
  have covered : (ofRoot place.snapshot place.root).covering? place.range = Option.some place := by
    rw [covering?, if_pos held]
    refine (covering_descends place.range long place.snapshot place.focus place.context (Nat.le_refl _) (Nat.le_refl _)).trans ?_
    rw [Tree.toElement, coveringFrom]
    show (forestCovering _ _ _ _ _ place.start place.elements).or _ = _
    rw [nowhere]
    rfl
  rw [withRange?, covered, Option.bind_some, ancestorsOrSelf, List.find?_cons, beq_self_eq_true]

theorem with_range_of_token (place : Node) (raw : RawKind) (text : String) (own : Element.token raw text ∈ place.elements)
    (some : text ≠ "") : (ofRoot place.snapshot place.root).withRange? place.range = Option.some place := by
  have positive : 0 < text.utf8ByteSize := by
    refine Nat.pos_of_ne_zero fun empty => some ?_
    exact String.utf8ByteSize_eq_zero_iff.mp empty
  have shorter : ∀ element ∈ place.elements, element.isNode → element.length < place.focus.length := by
    intro element member isNode
    have different : element ≠ .token raw text := by
      rintro rfl
      cases isNode
    have both : element.length + text.utf8ByteSize ≤ place.focus.length := length_pair _ _ _ member own different
    omega
  refine with_range_of_place place ?_ shorter
  have whole := length_of_mem _ _ own
  exact Nat.lt_of_lt_of_le positive whole

end Node

end SmellCheck
