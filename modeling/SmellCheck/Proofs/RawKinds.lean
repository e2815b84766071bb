import SmellCheck.Proofs.Spared

/-!
Numbers of kinds. What stands above an edit is written anew with the number of its kind, and all else that
stays is kept as it is; so only a number outside the closed set changes, into that of errors, and only above
an edit. An edit that inserts nothing still makes the nodes above it be written anew.
-/

set_option autoImplicit false

namespace SmellCheck

namespace Kind

theorem raw_of_index (index : Nat) (kind : Kind) (found : all[index]? = some kind) : kind.raw = index.toUInt16 := by
  have listed : ∀ index : Fin all.size, all[index].raw = index.val.toUInt16 := by decide
  obtain ⟨bound, rfl⟩ := Array.getElem?_eq_some_iff.mp found
  exact listed ⟨index, bound⟩

theorem raw_kept_iff (raw : RawKind) : (ofRaw raw).raw = raw ↔ ∃ kind : Kind, kind.raw = raw := by
  constructor
  · exact fun kept => ⟨_, kept⟩
  · rintro ⟨kind, rfl⟩
    rw [ofRaw_raw]

theorem error_of_unlisted (raw : RawKind) (unlisted : ∀ kind : Kind, kind.raw ≠ raw) : ofRaw raw = .error := by
  rw [ofRaw]
  cases found : all[raw.toNat]? with
  | none => rfl
  | some kind => exact absurd ((raw_of_index _ kind found).trans (UInt16.ofNat_toNat)) (unlisted kind)

end Kind

def Plan.Idle (plan : Plan) : Prop := ∀ path, ∀ edit ∈ plan.edit? path, edit = .insertBefore [] ∨ edit = .insertAfter []

theorem Plan.idle_below (plan : Plan) (idle : plan.Idle) (path : List Nat) : (plan.below path).Idle := by
  intro rest edit planned
  rw [edit_below] at planned
  exact idle _ edit planned

namespace Forest

def each (plan : Plan) (index : Nat) : List Element → List Element
  | [] => []
  | element :: rest => element.rewrite (plan.under index) :: each plan (index + 1) rest

theorem each_length (plan : Plan) (index : Nat) (forest : List Element) : (each plan index forest).length = forest.length := by
  induction forest generalizing index with
  | nil => rfl
  | cons element rest ih => exact congrArg (· + 1) (ih (index + 1))

theorem next_idle (plan : Plan) (idle : plan.Idle) (index : Nat) (before? : Option Element) (start : List Element) (element : Element) :
    Written.next plan index before? ⟨start, false⟩ element = ⟨element.rewrite (plan.under index) :: start, false⟩ := by
  cases element with
  | token raw text => rfl
  | node raw children =>
      have isNode : (Element.node raw children).isNode = true := rfl
      rw [Written.next, if_pos isNode, Plan.here_eq, Plan.edit_under]
      cases planned : plan.edit? [index] with
      | none => rfl
      | some edit => rcases idle _ edit planned with rfl | rfl <;> rfl

theorem written_idle (plan : Plan) (idle : plan.Idle) (index : Nat) (before? : Option Element) (start forest : List Element) :
    written plan index before? ⟨start, false⟩ forest = ⟨(each plan index forest).reverse ++ start, false⟩ := by
  induction forest generalizing index before? start with
  | nil => rfl
  | cons element rest ih =>
      rw [written, next_idle plan idle, ih]
      simp [each]

theorem each_same (plan : Plan) (index : Nat) (forest : List Element)
    (same : ∀ offset (tree : Tree), forest[offset]? = some tree.toElement → tree.rewrite (plan.under (index + offset)) = tree) :
    each plan index forest = forest := by
  induction forest generalizing index with
  | nil => rfl
  | cons element rest ih =>
      have first : element.rewrite (plan.under index) = element := by
        cases element with
        | token _ _ => rfl
        | node raw children => exact (tree_rewrite_to_element _ ⟨raw, children⟩).symm.trans (congrArg Tree.toElement (same 0 _ rfl))
      have others := ih (index + 1) fun offset tree found => by
        rw [Nat.add_assoc, Nat.add_comm 1 offset]
        exact same (offset + 1) tree found
      rw [each, first, others]

end Forest

namespace Node

section
variable (plan : Plan) (idle : plan.Idle)
include idle

theorem idle_focus (node : Node)
    (kept : ∀ below ∈ node.descendantsOrSelf, (plan.below below.path).hasEditInside → below.kind.raw = below.focus.raw) :
    node.focus.rewrite (plan.below node.path) = node.focus := by
  induction node using induction_down with
  | step node ih =>
      by_cases touched : (plan.below node.path).hasEditInside
      · have children : Forest.each (plan.below node.path) 0 node.focus.children = node.focus.children := by
          refine Forest.each_same _ 0 _ fun offset tree found => ?_
          obtain ⟨child, isChild, rfl, path⟩ := node.child_at offset tree found
          have stays := ih child isChild fun below member =>
            kept below (below_trans node child below (child_below node child isChild) member)
          rw [path, Plan.below_append] at stays
          rw [Nat.zero_add]
          exact stays
        have own : node.focus.kind.raw = node.focus.raw := kept node List.mem_cons_self touched
        rw [Tree.rewrite, if_pos touched, Forest.rewrite_eq_written, Forest.written_idle _ (plan.idle_below idle _), children, own,
          List.append_nil, List.reverse_reverse]
      · exact tree_rewrite_untouched _ _ (Bool.eq_false_iff.mpr touched)

theorem idle_path (node : Node) : (node.rewritten plan).path = node.path := by
  rw [path_eq, path_eq]
  show Frame.pathOf (Frame.rewriteAll plan node.context) = Frame.pathOf node.context
  induction node.context with
  | nil => rfl
  | cons frame outer ih =>
      have ownIdle := plan.idle_below idle (Frame.pathOf outer)
      have leading : Edit.leading frame.separator (frame.edit? (plan.below (Frame.pathOf outer))) = [] := by
        cases planned : frame.edit? (plan.below (Frame.pathOf outer)) with
        | none => rfl
        | some edit => rcases ownIdle _ edit planned with rfl | rfl <;> rfl
      have before : (frame.rewrite (plan.below (Frame.pathOf outer))).before.length = frame.before.length := by
        rw [(frame_rewrite_shape _ frame).2.1, leading, Frame.writtenBefore, Forest.written_idle _ ownIdle]
        simp [Forest.each_length]
      rw [Frame.rewriteAll, Frame.path_of_cons, Frame.path_of_cons, ih, before]

end

theorem rewritten_raw (plan : Plan) (node : Node) :
    (node.rewritten plan).focus.raw = if (plan.below node.path).hasEditInside then node.kind.raw else node.focus.raw := by
  show (node.focus.rewrite (plan.below node.path)).raw = _
  by_cases touched : (plan.below node.path).hasEditInside
  · rw [Tree.rewrite, if_pos touched, if_pos touched]
    rfl
  · rw [Tree.rewrite, if_neg touched, if_neg touched]

end Node

namespace Session

section
variable {home : Node} {session : Session} {done : List Request} (reached : Reached home session done)
include reached

theorem edit_inside_iff (node : Node) (same : node.SameTree home) :
    (session.edits.below node.path).hasEditInside ↔ ∃ request ∈ done, node ∈ request.target.ancestors := by
  constructor
  · intro touched
    by_contra! untouched
    have nothing := untouched_below home node done same (fun request member => (reached.within request member).1) untouched
    rw [← reached.edits, touched] at nothing
    cases nothing
  · rintro ⟨request, member, above⟩
    obtain ⟨step, rest, path⟩ := Node.path_of_ancestor node request.target above
    rw [Plan.has_edit_inside_iff]
    refine ⟨step :: rest, List.cons_ne_nil _ _, ?_⟩
    rw [Plan.edit_below, ← path, edit_of_planned reached request member]
    rfl

theorem idle_of_edits (nothing : ∀ request ∈ done, request.edit = .insertBefore [] ∨ request.edit = .insertAfter []) :
    session.edits.Idle := by
  intro path edit planned
  rw [planned_edit reached] at planned
  obtain ⟨request, found, rfl⟩ := Option.map_eq_some_iff.mp planned
  exact nothing request (on_eq_some _ _ found).1

theorem idle_apply_iff (nothing : ∀ request ∈ done, request.edit = .insertBefore [] ∨ request.edit = .insertAfter []) :
    session.apply = home.root ↔ ∀ request ∈ done, ∀ above ∈ request.target.ancestors, ∃ kind : Kind, kind.raw = above.focus.raw := by
  have idle := idle_of_edits reached nothing
  constructor
  · intro same request member above isAbove
    have inTree := Node.same_tree_trans (Node.same_tree_of_ancestor _ _ isAbove) (reached.within request member).1
    have applied : session.apply = above.root.rewrite session.edits := by rw [apply, reached.root, inTree.2]
    have root : (above.rewritten session.edits).root = above.root := calc
      _ = above.root.rewrite session.edits := Node.rewritten_root _ above (above_survives reached request member above isAbove)
      _ = session.apply := applied.symm
      _ = home.root := same
      _ = above.root := inTree.2.symm
    have place : above.rewritten session.edits = above := Node.eq_of_path _ _ ⟨rfl, root⟩ (Node.idle_path session.edits idle above)
    have raw := Node.rewritten_raw session.edits above
    rw [place, if_pos ((edit_inside_iff reached above inTree).mpr ⟨request, member, isAbove⟩)] at raw
    exact ⟨above.kind, raw.symm⟩
  · intro listed
    have whole := Node.idle_focus session.edits idle (.ofRoot home.snapshot home.root) fun below member touched => ?_
    · rw [apply, reached.root]
      exact whole
    · have inTree : below.SameTree home := Node.same_tree_of_descendant (.ofRoot home.snapshot home.root) below member
      obtain ⟨request, asked, above⟩ := (edit_inside_iff reached below inTree).mp touched
      exact (Kind.raw_kept_iff _).mpr (listed request asked below above)

end

-- A node that stays keeps the number of its kind, unless that is none of the closed set and the node is above an edit: then it is
-- that of errors. A session that inserts nothing gives the same tree exactly when no node loses its number in this way.
theorem raw_kinds_kept (home : Node) (history : List Request) :
    let session := (start home).run history
    let done := (start home).accepted history
    (∀ node : Node, node.SameTree home → (∀ request ∈ done, request.isDestructive → request.target ∉ node.ancestorsOrSelf) →
      let place := node.rewritten session.edits
      let lost := (∃ request ∈ done, node ∈ request.target.ancestors) ∧ ∀ kind : Kind, kind.raw ≠ node.focus.raw
      place.root = session.apply ∧ place.parent = node.parent.map (Node.rewritten session.edits) ∧
        (lost → place.focus.raw = Kind.error.raw) ∧ (¬ lost → place.focus.raw = node.focus.raw)) ∧
    ((∀ request ∈ done, request.edit = .insertBefore [] ∨ request.edit = .insertAfter []) →
      (session.apply = home.root ↔
        ∀ request ∈ done, ∀ above ∈ request.target.ancestors, ∃ kind : Kind, kind.raw = above.focus.raw)) := by
  intro session done
  have reached : Reached home session done := reached_history home history
  refine ⟨fun node same spared => ?_, idle_apply_iff reached⟩
  have survives : node.Survives session.edits := by
    rw [reached.edits]
    exact survives_of_spared home node done same (fun request member => (reached.within request member).1) spared
  have raw := Node.rewritten_raw session.edits node
  have inside := edit_inside_iff reached node same
  refine ⟨?_, Node.rewritten_parent _ node survives, fun ⟨above, unlisted⟩ => ?_, fun kept => ?_⟩
  · rw [Node.rewritten_root _ node survives, same.2, apply, reached.root]
  · rw [raw, if_pos (inside.mpr above)]
    exact congrArg Kind.raw (Kind.error_of_unlisted _ unlisted)
  · by_cases above : ∃ request ∈ done, node ∈ request.target.ancestors
    · rw [raw, if_pos (inside.mpr above)]
      refine (Kind.raw_kept_iff _).mpr ?_
      by_contra! unlisted
      exact kept ⟨above, unlisted⟩
    · rw [raw, if_neg (mt inside.mp above)]

def unlistedBeside (raw : RawKind) : Node :=
  .ofRoot 0 ⟨raw, [(Build.exprStmt (Build.identifierName "a")).toElement, .node 200 [.token 300 "b"]]⟩

theorem unlisted_kind_kept :
    let home := unlistedBeside Kind.block.raw
    let statement := home.firstChild?.getD home
    let node := home.lastChild?.getD home
    let history := [.insertBefore statement []]
    let session := (start home).run history
    let done := (start home).accepted history
    done = history ∧ node.SameTree home ∧ (∀ request ∈ done, request.isDestructive → request.target ∉ node.ancestorsOrSelf) ∧
      node.focus.raw = 200 ∧ (∀ kind : Kind, kind.raw ≠ 200) ∧ (node.rewritten session.edits).root = session.apply ∧
      (node.rewritten session.edits).focus.raw = 200 ∧
      (∀ request ∈ done, request.edit = .insertBefore [] ∨ request.edit = .insertAfter []) ∧ session.apply = home.root := by
  intro home statement node history session done
  have all : done = history := by decide
  have spared : ∀ request ∈ done, request.isDestructive → request.target ∉ node.ancestorsOrSelf := by
    rw [all]
    decide
  have beside : ¬ ∃ request ∈ done, node ∈ request.target.ancestors := by
    rw [all]
    decide
  have nothing : ∀ request ∈ done, request.edit = .insertBefore [] ∨ request.edit = .insertAfter [] := by
    rw [all]
    simp [history, Request.edit]
  have listed : ∀ request ∈ done, ∀ above ∈ request.target.ancestors, ∃ kind : Kind, kind.raw = above.focus.raw := by
    have block : ∀ request ∈ done, ∀ above ∈ request.target.ancestors, above.focus.raw = Kind.block.raw := by
      rw [all]
      decide
    exact fun request member above isAbove => ⟨.block, (block request member above isAbove).symm⟩
  obtain ⟨places, same⟩ := raw_kinds_kept home history
  obtain ⟨root, -, -, kept⟩ := places node ⟨rfl, rfl⟩ spared
  exact ⟨all, ⟨rfl, rfl⟩, spared, rfl, by rintro ⟨⟩ <;> decide, root, kept fun lost => beside lost.1, nothing, (same nothing).mpr listed⟩

theorem unlisted_kind_lost :
    let home := unlistedBeside 400
    let history := [.insertBefore (home.firstChild?.getD home) []]
    let session := (start home).run history
    let done := (start home).accepted history
    done = history ∧ (∀ request ∈ done, request.edit = .insertBefore []) ∧ home.focus.raw = 400 ∧
      (∀ place ∈ (Node.ofRoot 0 session.apply).descendantsOrSelf, place.focus.raw ≠ 400) ∧ session.apply ≠ home.root := by
  intro home history session done
  have all : done = history := by decide
  refine ⟨all, ?_, rfl, by decide, by decide⟩
  rw [all]
  simp [history, Request.edit]

end Session

end SmellCheck
