import SmellCheck.Proofs.Applying

/-!
The order of planning. Requests that are all planned in one order are planned in every order, because
what keeps two of them apart does not say which one comes first; and the tree that is written depends
on which edit there is at each place only.
-/

set_option autoImplicit false

namespace SmellCheck

def Plan.Same (plan plan' : Plan) : Prop := ∀ path, plan.edit? path = plan'.edit? path

theorem same_under (plan plan' : Plan) (same : plan.Same plan') (index : Nat) :
    (plan.under index).Same (plan'.under index) := by
  intro path
  rw [Plan.edit_under, Plan.edit_under]
  exact same (index :: path)

theorem same_edit_inside (plan plan' : Plan) (same : plan.Same plan') : plan.hasEditInside = plan'.hasEditInside := by
  rw [Bool.eq_iff_iff, Plan.has_edit_inside_iff, Plan.has_edit_inside_iff, show plan.edit? = plan'.edit? from funext same]

mutual
theorem element_rewrite_same (plan plan' : Plan) (same : plan.Same plan') :
    (element : Element) → element.rewrite plan = element.rewrite plan'
  | .token _ _ => rfl
  | .node raw children => by
      rw [Element.rewrite, Element.rewrite, same_edit_inside plan plan' same,
        forest_rewrite_same plan plan' same 0 none ⟨[], false⟩ children]

theorem forest_rewrite_same (plan plan' : Plan) (same : plan.Same plan') (index : Nat) (before? : Option Element)
    (written : Written) : (forest : List Element) →
    Forest.rewrite plan index before? written forest = Forest.rewrite plan' index before? written forest
  | [] => rfl
  | element :: rest => by
      have child := same_under plan plan' same index
      have here : (plan.under index).here? = (plan'.under index).here? := by
        rw [Plan.here_eq, Plan.here_eq, child []]
      rw [Forest.rewrite, Forest.rewrite, here, element_rewrite_same _ _ child element]
      exact forest_rewrite_same plan plan' same (index + 1) (some element) _ rest
end

theorem tree_rewrite_same (plan plan' : Plan) (same : plan.Same plan') (tree : Tree) : tree.rewrite plan = tree.rewrite plan' := by
  apply to_element_injective
  rw [tree_rewrite_to_element, tree_rewrite_to_element]
  exact element_rewrite_same plan plan' same tree.toElement

namespace Session

-- Plans the requests one after the other; the first one that is refused ends it.
def performAll (session : Session) (requests : List Request) : Except EditError Session := requests.foldlM perform session

section
variable {home : Node} {session : Session} {done : List Request}

theorem perform_all_cons (session next : Session) (request : Request) (rest : List Request)
    (performed : session.perform request = .ok next) : session.performAll (request :: rest) = next.performAll rest := by
  rw [performAll, List.foldlM_cons, performed]
  rfl

theorem reached_all (reached : Reached home session done) (requests : List Request) (next : Session)
    (performed : session.performAll requests = .ok next) : Reached home next (done ++ requests) := by
  induction requests generalizing session done with
  | nil =>
      obtain rfl : session = next := Except.ok.inj performed
      simpa using reached
  | cons request rest ih =>
      cases first : session.perform request with
      | error error =>
          rw [performAll, List.foldlM_cons, first] at performed
          cases performed
      | ok middle =>
          rw [perform_all_cons session middle request rest first] at performed
          simpa using ih (reached_step reached request middle first) performed

theorem perform_all_apart (reached : Reached home session done) (requests : List Request)
    (within : ∀ request ∈ requests, request.target.SameTree home ∧ request.target ≠ .ofRoot home.snapshot home.root)
    (apart : (done ++ requests).Pairwise Request.Apart) : ∃ next, session.performAll requests = .ok next := by
  induction requests generalizing session done with
  | nil => exact ⟨session, rfl⟩
  | cons request rest ih =>
      have earlier := (List.pairwise_append.mp apart).2.2
      have admissible : request.Admissible home done :=
        ⟨(within request List.mem_cons_self).1, (within request List.mem_cons_self).2,
          fun other member => earlier other member request List.mem_cons_self⟩
      obtain ⟨middle, performed⟩ := (perform_ok_iff reached request).mpr admissible
      rw [perform_all_cons session middle request rest performed]
      exact ih (reached_step reached request middle performed) (fun other member => within other (List.mem_cons_of_mem _ member))
        (by simpa using apart)

end

theorem same_plan (home : Node) (session session' : Session) (done done' : List Request) (reached : Reached home session done)
    (reached' : Reached home session' done') (order : done.Perm done') : session.edits.Same session'.edits := by
  intro path
  rw [planned_edit reached, planned_edit reached']
  congr 1
  ext request
  rw [on_iff reached, on_iff reached', order.mem_iff]

-- If no request is refused in one order, none is refused in another one, and the same tree is written.
theorem planning_order_irrelevant (home : Node) (requests reordered : List Request) (order : requests.Perm reordered)
    (session : Session) (planned : (start home).performAll requests = .ok session) :
    ∃ session', (start home).performAll reordered = .ok session' ∧ session'.length = session.length ∧
      session'.apply = session.apply := by
  have reached : Reached home session requests := reached_all (reached_start home) requests session planned
  have apart : reordered.Pairwise Request.Apart := (order.pairwise_iff Request.apart_symm).mp reached.apart
  obtain ⟨session', planned'⟩ := perform_all_apart (reached_start home) reordered
    (fun request member => reached.within request (order.mem_iff.mpr member)) apart
  have reached' : Reached home session' reordered := reached_all (reached_start home) reordered session' planned'
  refine ⟨session', planned', ?_, ?_⟩
  · rw [length, length, reached.edits, reached'.edits, List.length_map, List.length_map, order.length_eq]
  · rw [apply, apply, reached.root, reached'.root]
    exact tree_rewrite_same _ _ (same_plan home session' session reordered requests reached' reached order.symm) home.root

theorem three_edits_reordered :
    let statement := fun name => Build.exprStmt (Build.identifierName name)
    let home := Node.ofRoot 0 (Build.block [statement "a", statement "b"])
    let first := (home.child? 0).getD home
    let requests := [.insertBefore first [statement "c"], .replace ((first.child? 0).getD first) [Build.identifierName "d"],
      .remove ((home.child? 1).getD home)]
    let session : Session := ⟨0, home.root, requests.map Request.planned⟩
    requests.Perm requests.reverse ∧ (start home).performAll requests = .ok session ∧
      session.apply = Build.block [statement "c", statement "d"] ∧
      ∃ session', (start home).performAll requests.reverse = .ok session' ∧ session'.length = session.length ∧
        session'.apply = session.apply := by
  intro statement home first requests session
  have order : requests.Perm requests.reverse := (List.reverse_perm requests).symm
  have planned : (start home).performAll requests = .ok session := rfl
  exact ⟨order, planned, by decide, planning_order_irrelevant home requests requests.reverse order session planned⟩

end Session

end SmellCheck
