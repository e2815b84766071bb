import SmellCheck.Proofs.Conservation

/-!
Applying a session. Whatever was asked of it, the result is the tree with all planned requests
substituted at once; their tokens balance, and places that no request touches keep their text.
-/

set_option autoImplicit false

namespace SmellCheck

theorem rise_at (focus : Tree) (context : List Frame) :
    (Frame.rise focus context).toElement.at? (Frame.pathOf context) = some focus.toElement := by
  induction context using List.reverseRecOn with
  | nil => rfl
  | append_singleton inner outermost ih =>
      rw [Frame.rise_append, Frame.path_of_append]
      have child : (outermost.before.reverse ++ (Frame.rise focus inner).toElement :: outermost.after)[outermost.before.length]? =
          some (Frame.rise focus inner).toElement := by
        rw [List.getElem?_append_right (by simp)]
        simp
      exact Option.bind_eq_some_iff.mpr ⟨_, child, ih⟩

theorem at_path (node home : Node) (same : node.SameTree home) :
    home.root.toElement.at? node.path = some node.focus.toElement := by
  rw [← same.2]
  exact rise_at node.focus node.context

theorem path_of_inner (node home : Node) (same : node.SameTree home) (inner : node ≠ .ofRoot home.snapshot home.root) :
    node.path ≠ [] := by
  intro atRoot
  apply inner
  apply Node.eq_of_path
  · exact same
  · exact atRoot

namespace Session

section
variable {home : Node} {session : Session} {done : List Request}

theorem on_eq_some (path : List Nat) (request : Request) (found : Request.on? done path = some request) :
    request ∈ done ∧ request.target.path = path :=
  ⟨List.mem_of_find?_eq_some found, by simpa using List.find?_some found⟩

theorem on_append (request : Request) (absent : Request.on? done request.target.path = none) :
    Request.on? (done ++ [request]) = Request.also (Request.on? done) request.target.path request := by
  funext path
  by_cases same : path = request.target.path
  · subst same
    simp only [Request.on?] at absent
    simp [Request.on?, Request.also, absent]
  · have other : ¬ request.target.path = path := fun back => same back.symm
    simp [Request.on?, Request.also, same, other]

theorem edits_from_requests (done : List Request) : Plan.From (done.map Request.planned) (Request.on? done) := by
  intro path
  rw [Plan.edit?, List.find?_map, Request.on?, Option.map_map]
  rfl

theorem room_of_apart (home : Node) (done : List Request) (request : Request)
    (within : ∀ other ∈ done ++ [request], other.target.SameTree home)
    (apart : ∀ other ∈ done, other.Apart request) : Room request (Request.on? done) request.target.path := by
  have sameTree : ∀ other ∈ done, other.target.SameTree request.target := fun other member =>
    Node.same_tree_trans (within other (by simp [member])) (Node.same_tree_symm (within request (by simp)))
  refine ⟨?_, ?_, ?_⟩
  · cases found : Request.on? done request.target.path with
    | none => rfl
    | some other =>
        obtain ⟨member, path⟩ := on_eq_some _ _ found
        exact absurd (Node.eq_of_path _ _ (sameTree other member) path) (apart other member).1
  · intro path other within' _ found
    obtain ⟨member, rfl⟩ := on_eq_some _ _ found
    have above := (Node.mem_ancestors_iff _ _ (sameTree other member)).mpr ⟨within', (apart other member).1⟩
    exact Bool.eq_false_iff.mpr fun destructive => (apart other member).2.1 destructive above
  · intro destructive path beyond
    cases found : Request.on? done path with
    | none => rfl
    | some other =>
        obtain ⟨member, rfl⟩ := on_eq_some _ _ found
        have different : request.target ≠ other.target := fun same => (apart other member).1 same.symm
        have above := (Node.mem_ancestors_iff _ _ (Node.same_tree_symm (sameTree other member))).mpr ⟨beyond, different⟩
        exact absurd above ((apart other member).2.2 destructive)

theorem substitute_conserves (home : Node) (done : List Request)
    (within : ∀ request ∈ done, request.target.SameTree home ∧ request.target ≠ .ofRoot home.snapshot home.root)
    (apart : done.Pairwise Request.Apart) :
    ((home.root.substitute (Request.on? done)).tokens ++ done.flatMap Request.destroyed).Perm
      (home.root.tokens ++ done.flatMap fun request => Forest.tokens request.given) := by
  induction done using List.reverseRecOn with
  | nil =>
      have nothing := element_substitute_nothing (Request.on? []) (fun _ _ => rfl) home.root.toElement
      have same : home.root.substitute (Request.on? []) = home.root := to_element_injective _ _ nothing
      rw [same]
      exact List.Perm.refl _
  | append_singleton done request ih =>
      -- The last request finds its target where it was, apart from all earlier ones.
      obtain ⟨earlier, -, last⟩ := List.pairwise_append.mp apart
      have before := ih (fun other member => within other (by simp [member])) earlier
      have target := within request (by simp)
      have room := room_of_apart home done request (fun other member => (within other member).1)
        (fun other member => last other member request (by simp))
      have more := substitute_one_more request request.target.path (Request.on? done) home.root.toElement _
        (path_of_inner request.target home target.1 target.2) (at_path request.target home target.1) rfl room
      rw [← on_append request room.absent] at more
      have taken : request.destroyed =
          if request.isDestructive then request.target.focus.toElement.tokens else [] := rfl
      rw [← taken] at more
      rw [List.perm_iff_count] at before more ⊢
      intro token
      have before := before token
      have more : ((home.root.substitute (Request.on? (done ++ [request]))).tokens ++ request.destroyed).count token =
          ((home.root.substitute (Request.on? done)).tokens ++ Forest.tokens request.given).count token := more token
      simp only [List.flatMap_append, List.flatMap_singleton, List.count_append] at before more ⊢
      omega

theorem survives_of_spared (home node : Node) (done : List Request) (same : node.SameTree home)
    (within : ∀ request ∈ done, request.target.SameTree home)
    (spared : ∀ request ∈ done, request.isDestructive → request.target ∉ node.ancestorsOrSelf) :
    node.Survives (done.map Request.planned) := by
  intro path edit isPrefix _ planned
  rw [edits_from_requests done path] at planned
  obtain ⟨request, found, rfl⟩ := Option.map_eq_some_iff.mp planned
  obtain ⟨member, rfl⟩ := on_eq_some _ _ found
  have sameTree := Node.same_tree_trans (within request member) (Node.same_tree_symm same)
  have above := (Node.mem_ancestors_or_self_iff request.target node sameTree).mpr isPrefix
  rw [Request.edit_is_destructive]
  exact Bool.eq_false_iff.mpr fun destructive => spared request member destructive above

theorem untouched_below (home node : Node) (done : List Request) (same : node.SameTree home)
    (within : ∀ request ∈ done, request.target.SameTree home)
    (untouched : ∀ request ∈ done, node ∉ request.target.ancestors) :
    (Plan.below (done.map Request.planned) node.path).hasEditInside = false := by
  rw [Bool.eq_false_iff, ne_eq, Plan.has_edit_inside_iff]
  rintro ⟨path, inside, planned⟩
  rw [Plan.edit_below, edits_from_requests done, Option.isSome_map] at planned
  obtain ⟨request, found⟩ := Option.isSome_iff_exists.mp planned
  obtain ⟨member, eq⟩ := on_eq_some _ _ found
  have sameTree := Node.same_tree_trans same (Node.same_tree_symm (within request member))
  refine untouched request member ((Node.mem_ancestors_iff node request.target sameTree).mpr ⟨⟨path, eq.symm⟩, ?_⟩)
  intro here
  rw [here] at eq
  exact inside (List.append_cancel_left (eq.symm.trans (List.append_nil _).symm))

theorem planned_edit (reached : Reached home session done) (path : List Nat) :
    session.edits.edit? path = (Request.on? done path).map Request.edit := by
  rw [reached.edits]
  exact edits_from_requests done path

theorem on_iff (reached : Reached home session done) (path : List Nat) (request : Request) :
    Request.on? done path = some request ↔ request ∈ done ∧ request.target.path = path := by
  constructor
  · exact on_eq_some path request
  · rintro ⟨member, rfl⟩
    have some : (Request.on? done request.target.path).isSome :=
      List.find?_isSome.mpr ⟨request, member, beq_self_eq_true _⟩
    obtain ⟨other, found⟩ := Option.isSome_iff_exists.mp some
    obtain ⟨present, path⟩ := on_eq_some _ _ found
    by_cases same : other = request
    · rw [found, same]
    · have sameTree := Node.same_tree_trans (reached.within other present).1 (Node.same_tree_symm (reached.within request member).1)
      exact absurd (Node.eq_of_path _ _ sameTree path) (apart_of_mem reached other request present member same).1

theorem edit_of_planned (reached : Reached home session done) (request : Request) (member : request ∈ done) :
    session.edits.edit? request.target.path = some request.edit := by
  rw [planned_edit reached, (on_iff reached _ request).mpr ⟨member, rfl⟩]
  rfl

theorem edit_iff (reached : Reached home session done) (node : Node) (same : node.SameTree home) (edit : Edit) :
    session.edits.edit? node.path = some edit ↔ ∃ request ∈ done, request.target = node ∧ request.edit = edit := by
  constructor
  · intro planned
    rw [planned_edit reached] at planned
    obtain ⟨request, found, isEdit⟩ := Option.map_eq_some_iff.mp planned
    obtain ⟨member, path⟩ := on_eq_some _ _ found
    have sameTree := Node.same_tree_trans (reached.within request member).1 (Node.same_tree_symm same)
    exact ⟨request, member, Node.eq_of_path _ _ sameTree path, isEdit⟩
  · rintro ⟨request, member, rfl, rfl⟩
    exact edit_of_planned reached request member

theorem above_spared (reached : Reached home session done) (request : Request) (member : request ∈ done) (node : Node)
    (isAbove : node ∈ request.target.ancestors) :
    ∀ other ∈ done, other.isDestructive → other.target ∉ node.ancestorsOrSelf := by
  intro other present destructive above
  have higher : other.target ∈ request.target.ancestors := by
    rcases List.mem_cons.mp above with same | beyond
    · exact same ▸ isAbove
    · exact Node.ancestors_trans _ _ _ beyond isAbove
  have different : other ≠ request := by
    rintro rfl
    exact Node.not_above_self _ higher
  exact (apart_of_mem reached other request present member different).2.1 destructive higher

theorem above_survives (reached : Reached home session done) (request : Request) (member : request ∈ done) (node : Node)
    (isAbove : node ∈ request.target.ancestors) : node.Survives session.edits := by
  have sameTree := Node.same_tree_trans (Node.same_tree_of_ancestor _ _ isAbove) (reached.within request member).1
  rw [reached.edits]
  exact survives_of_spared home node done sameTree (fun other present => (reached.within other present).1)
    (above_spared reached request member node isAbove)

theorem parent_survives (reached : Reached home session done) (request : Request) (member : request ∈ done) (parent : Node)
    (isParent : request.target.parent = some parent) : parent.Survives session.edits :=
  above_survives reached request member parent (Node.parent_mem_ancestors _ parent isParent)

end

theorem start_same (first second : Node) (same : first.SameTree second) : start first = start second := by
  rw [Session.start, Session.start, same.1, same.2]

theorem apply_nothing (home : Node) : (start home).apply = home.root :=
  tree_rewrite_untouched [] home.root rfl

theorem apply_if_any_of_run (home : Node) (history : List Request) :
    ((start home).run history).applyIfAny.getD home.root = ((start home).run history).apply := by
  unfold applyIfAny
  split
  · rename_i empty
    have same := (reached_history home history).root
    have nothing : ((start home).run history).edits = [] := List.isEmpty_iff.mp empty
    rw [Option.getD_none, apply, same, nothing]
    exact (apply_nothing home).symm
  · rfl

-- Applying a session carries out every planned request in its place, all at once.
theorem apply_substitutes (home : Node) (history : List Request) :
    let session := (start home).run history
    let done := (start home).accepted history
    session.apply.bare = (home.root.substitute (Request.on? done)).bare ∧
    (session.apply.tokens ++ done.flatMap Request.destroyed).Perm
      (home.root.tokens ++ done.flatMap fun request => Forest.tokens request.given) ∧
    ∀ node : Node, node.SameTree home →
      (∀ request ∈ done, request.isDestructive → request.target ∉ node.ancestorsOrSelf) →
      ∃ place : Node, place.root = session.apply ∧
        place.context.map Frame.bare = (Frame.substituteAll (Request.on? done) node.context).map Frame.bare ∧
        ((∀ request ∈ done, node ∉ request.target.ancestorsOrSelf) → place.focus = node.focus) := by
  intro session done
  have reached : Reached home session done := reached_history home history
  have applied : session.apply = home.root.rewrite (done.map Request.planned) := by
    rw [apply, reached.root, reached.edits]
  have substituted : session.apply.bare = (home.root.substitute (Request.on? done)).bare := by
    have bare := element_rewrite_bare _ _ (edits_from_requests done) home.root.toElement
    rw [← tree_rewrite_to_element, tree_bare, ← applied] at bare
    have target := tree_bare (home.root.substitute (Request.on? done))
    exact to_element_injective _ _ (List.singleton_inj.mp (bare.trans target))
  refine ⟨substituted, ?_, ?_⟩
  · have conserved := substitute_conserves home done reached.within reached.apart
    rw [← tree_tokens_bare, ← substituted, tree_tokens_bare] at conserved
    exact conserved
  · intro node same spared
    have within : ∀ request ∈ done, request.target.SameTree home := fun request member => (reached.within request member).1
    have survives := survives_of_spared home node done same within spared
    refine ⟨node.rewritten (done.map Request.planned), ?_, ?_, ?_⟩
    · rw [Node.rewritten_root _ node survives, same.2, applied]
    · exact Frame.rewrite_all_bare _ _ (edits_from_requests done) node.context
    · intro untouched
      exact tree_rewrite_untouched _ _ (untouched_below home node done same within fun request member above =>
        untouched request member (List.mem_cons_of_mem _ above))

end Session

end SmellCheck
