import SmellCheck.Proofs.Substitution

/-!
What substitution does to the tokens of a tree: one request more takes away the tokens of the target
that it destroys and brings those that it gives, and nothing else comes or goes.
-/

set_option autoImplicit false

namespace SmellCheck

mutual
def Element.tokens : Element → List (Kind × String)
  | .token raw text => if Kind.ofRaw raw = .whitespace then [] else [(Kind.ofRaw raw, text)]
  | .node _ children => Forest.tokens children

def Forest.tokens : List Element → List (Kind × String)
  | [] => []
  | element :: rest => element.tokens ++ Forest.tokens rest
end

def Tree.tokens (tree : Tree) : List (Kind × String) := Forest.tokens tree.children

def Request.destroyed (request : Request) : List (Kind × String) :=
  if request.isDestructive then request.target.focus.tokens else []

theorem forest_tokens_append (front back : List Element) :
    Forest.tokens (front ++ back) = Forest.tokens front ++ Forest.tokens back := by
  induction front with
  | nil => rfl
  | cons element rest ih => simp [Forest.tokens, ih]

mutual
theorem element_tokens_bare : (element : Element) → Forest.tokens element.bare = element.tokens
  | .token raw text => by
      by_cases white : Kind.ofRaw raw = .whitespace
      · simp [Element.bare, Element.tokens, Forest.tokens, white]
      · simp [Element.bare, Element.tokens, Forest.tokens, white, Kind.ofRaw_raw]
  | .node raw children => by
      rw [Element.bare, Forest.tokens, Forest.tokens, List.append_nil, Element.tokens, Element.tokens]
      exact forest_tokens_bare children

theorem forest_tokens_bare : (forest : List Element) → Forest.tokens (Forest.bare forest) = Forest.tokens forest
  | [] => rfl
  | element :: rest => by
      rw [Forest.bare, forest_tokens_append, element_tokens_bare element, forest_tokens_bare rest, Forest.tokens]
end

theorem tree_tokens_bare (tree : Tree) : tree.bare.tokens = tree.tokens := forest_tokens_bare tree.children

mutual
theorem element_substitute_congr (request? request?' : List Nat → Option Request)
    (agree : ∀ path, path ≠ [] → request? path = request?' path) :
    (element : Element) → element.substitute request? = element.substitute request?'
  | .token _ _ => rfl
  | .node raw children => by
      rw [Element.substitute, Element.substitute,
        forest_substitute_congr request? request?' 0 children (fun _ _ _ _ => agree _ (by simp))]

theorem forest_substitute_congr (request? request?' : List Nat → Option Request) (index : Nat) :
    (forest : List Element) →
    (∀ step path, index ≤ step → step < index + forest.length → request? (step :: path) = request?' (step :: path)) →
    Forest.substitute request? index forest = Forest.substitute request?' index forest
  | [], _ => rfl
  | element :: rest, agree => by
      have here := element_substitute_congr (fun path => request? (index :: path)) (fun path => request?' (index :: path))
        (fun path _ => agree index path (Nat.le_refl index) (by simp)) element
      have later := forest_substitute_congr request? request?' (index + 1) rest
        (fun step path low high => agree step path (by omega) (by simp only [List.length_cons]; omega))
      rw [Forest.substitute, Forest.substitute, here, later, agree index [] (Nat.le_refl index) (by simp)]
end

theorem forest_substitute_append (request? : List Nat → Option Request) (index : Nat) (front back : List Element) :
    Forest.substitute request? index (front ++ back) =
      Forest.substitute request? index front ++ Forest.substitute request? (index + front.length) back := by
  induction front generalizing index with
  | nil => simp [Forest.substitute]
  | cons element rest ih =>
      rw [List.cons_append, Forest.substitute, Forest.substitute, ih, List.append_assoc, List.length_cons,
        Nat.add_right_comm, Nat.add_assoc]

def Element.at? : List Nat → Element → Option Element
  | [], element => some element
  | _ :: _, .token _ _ => none
  | index :: path, .node _ children => children[index]?.bind (Element.at? path)

theorem at_append (element : Element) (path path' : List Nat) :
    element.at? (path ++ path') = (element.at? path).bind (Element.at? path') := by
  induction path generalizing element with
  | nil => rfl
  | cons step rest ih =>
      cases element with
      | token _ _ => rfl
      | node _ children =>
          cases child : children[step]? with
          | none => simp [Element.at?, child]
          | some inner => simpa [Element.at?, child] using ih inner

theorem fill_tokens (child : Element) (request? : Option Request)
    (gentle : ∀ request ∈ request?, request.isDestructive = false) :
    (Forest.tokens (Request.fill child request?)).Perm
      (Forest.tokens (request?.elim [] Request.given) ++ child.tokens) := by
  cases request? with
  | none => simp [Request.fill, Forest.tokens]
  | some request =>
      have kept := gentle request rfl
      cases request with
      | replace _ _ => cases kept
      | splice _ _ => cases kept
      | insertBefore _ nodes => simp [Request.fill, Request.given, forest_tokens_append, Forest.tokens]
      | insertAfter _ nodes =>
          simpa [Request.fill, Request.given, Forest.tokens] using List.perm_append_comm
      | remove _ => cases kept

theorem fill_destructive (child : Element) (request : Request) (destructive : request.isDestructive) :
    Request.fill child (some request) = request.given := by
  cases request <;> first | rfl | cases destructive

def Request.also (request? : List Nat → Option Request) (path : List Nat) (request : Request) :
    List Nat → Option Request :=
  fun path' => if path' = path then some request else request? path'

theorem also_under (request? : List Nat → Option Request) (index : Nat) (path : List Nat) (request : Request) :
    (fun path' => Request.also request? (index :: path) request (index :: path')) =
      Request.also (fun path' => request? (index :: path')) path request := by
  funext path'
  simp [Request.also]

theorem split_at_index (forest : List Element) (index : Nat) (element : Element) (found : forest[index]? = some element) :
    ∃ front back, forest = front ++ element :: back ∧ front.length = index := by
  obtain ⟨bound, value⟩ := List.getElem?_eq_some_iff.mp found
  refine ⟨forest.take index, forest.drop (index + 1), ?_, by simp; omega⟩
  rw [← value, ← List.drop_eq_getElem_cons bound, List.take_append_drop]

section
variable (request : Request) (request? : List Nat → Option Request)

structure Room (path : List Nat) : Prop where
  absent : request? path = none
  gentle : ∀ path' other, path' <+: path → path' ≠ [] → request? path' = some other → other.isDestructive = false
  alone : request.isDestructive → ∀ path', path <+: path' → request? path' = none

theorem room_under (index : Nat) (path : List Nat) (room : Room request request? (index :: path)) :
    Room request (fun path' => request? (index :: path')) path :=
  ⟨room.absent, fun path' other within _ planned =>
    room.gentle (index :: path') other (List.cons_prefix_cons.mpr ⟨rfl, within⟩) (by simp) planned,
    fun destructive path' beyond => room.alone destructive _ (List.cons_prefix_cons.mpr ⟨rfl, beyond⟩)⟩

theorem child_one_more (index : Nat) (child : Element) (room : Room request request? [index]) :
    (Forest.tokens (Request.fill (child.substitute fun path => Request.also request? [index] request (index :: path))
        (some request)) ++ (if request.isDestructive then child.tokens else [])).Perm
      (Forest.tokens (Request.fill (child.substitute fun path => request? (index :: path)) (request? [index])) ++
        Forest.tokens request.given) := by
  have inside : (child.substitute fun path => Request.also request? [index] request (index :: path)) =
      child.substitute fun path => request? (index :: path) :=
    element_substitute_congr _ _ (fun path inner => by simp [Request.also, inner]) child
  rw [inside, room.absent]
  by_cases destructive : request.isDestructive
  · have whole : (child.substitute fun path => request? (index :: path)) = child :=
      element_substitute_nothing _ (fun path _ => room.alone destructive _ ⟨path, rfl⟩) child
    rw [fill_destructive _ request destructive, whole, if_pos destructive]
    simpa [Request.fill, Forest.tokens] using List.perm_append_comm
  · have kept := fill_tokens (child.substitute fun path => request? (index :: path)) (some request)
      (fun other same => by cases same; simpa using destructive)
    rw [if_neg destructive, List.append_nil]
    refine kept.trans ?_
    simpa [Request.fill, Forest.tokens] using List.perm_append_comm

end

theorem deeper_one_more (request : Request) (request? : List Nat → Option Request) (index step : Nat)
    (path : List Nat) (child target : Element) (room : Room request request? (index :: step :: path))
    (deeper : ((child.substitute (Request.also (fun path => request? (index :: path)) (step :: path) request)).tokens ++
        (if request.isDestructive then target.tokens else [])).Perm
      ((child.substitute fun path => request? (index :: path)).tokens ++ Forest.tokens request.given)) :
    (Forest.tokens (Request.fill
        (child.substitute fun path' => Request.also request? (index :: step :: path) request (index :: path'))
        (Request.also request? (index :: step :: path) request [index])) ++
      (if request.isDestructive then target.tokens else [])).Perm
    (Forest.tokens (Request.fill (child.substitute fun path => request? (index :: path)) (request? [index])) ++
      Forest.tokens request.given) := by
  have here : Request.also request? (index :: step :: path) request [index] = request? [index] := by
    simp [Request.also]
  have gentle : ∀ other ∈ request? [index], other.isDestructive = false := fun other planned =>
    room.gentle [index] other (by simp) (by simp) planned
  have before := fill_tokens (child.substitute fun path => request? (index :: path)) (request? [index]) gentle
  have after := fill_tokens
    (child.substitute (Request.also (fun path => request? (index :: path)) (step :: path) request))
    (request? [index]) gentle
  rw [also_under, here]
  rw [List.perm_iff_count] at deeper before after ⊢
  intro token
  have deeper := deeper token
  have before := before token
  have after := after token
  simp only [List.count_append] at deeper before after ⊢
  omega

theorem node_substitute_split (request? : List Nat → Option Request) (raw : RawKind) (front back : List Element)
    (child : Element) (isNode : child.isNode) :
    (Element.node raw (front ++ child :: back)).substitute request? =
      .node raw (Forest.substitute request? 0 front ++
        (Request.fill (child.substitute fun path => request? (front.length :: path)) (request? [front.length]) ++
          Forest.substitute request? (front.length + 1) back)) := by
  rw [Element.substitute, forest_substitute_append, Forest.substitute, Nat.zero_add, if_pos isNode]

theorem is_node_of_at (child target : Element) (path : List Nat) (found : child.at? path = some target)
    (isNode : target.isNode) : child.isNode := by
  cases child with
  | node _ _ => rfl
  | token _ _ =>
      cases path with
      | nil =>
          cases found
          exact isNode
      | cons _ _ => cases found

-- A request more takes the tokens of its target, if it destroys it, and gives its own.
theorem substitute_one_more (request : Request) (path : List Nat) (request? : List Nat → Option Request)
    (element target : Element) (inner : path ≠ []) (found : element.at? path = some target) (isNode : target.isNode)
    (room : Room request request? path) :
    ((element.substitute (Request.also request? path request)).tokens ++
        (if request.isDestructive then target.tokens else [])).Perm
      ((element.substitute request?).tokens ++ Forest.tokens request.given) := by
  induction path generalizing element request? with
  | nil => exact absurd rfl inner
  | cons index rest ih =>
      cases element with
      | token _ _ => cases found
      | node raw children =>
          obtain ⟨child, access, below⟩ := Option.bind_eq_some_iff.mp found
          obtain ⟨front, back, rfl, rfl⟩ := split_at_index children index child access
          have childIsNode := is_node_of_at child target rest below isNode
          have frontSame := forest_substitute_congr (Request.also request? (front.length :: rest) request) request? 0
            front (fun step path _ high => by
              have other : step ≠ front.length := by omega
              simp [Request.also, other])
          have backSame := forest_substitute_congr (Request.also request? (front.length :: rest) request) request?
            (front.length + 1) back (fun step path low _ => by
              have other : step ≠ front.length := by omega
              simp [Request.also, other])
          have middle : (Forest.tokens (Request.fill
                (child.substitute fun path => Request.also request? (front.length :: rest) request (front.length :: path))
                (Request.also request? (front.length :: rest) request [front.length])) ++
              (if request.isDestructive then target.tokens else [])).Perm
            (Forest.tokens (Request.fill (child.substitute fun path => request? (front.length :: path))
                (request? [front.length])) ++ Forest.tokens request.given) := by
            cases rest with
            | nil =>
                obtain rfl : child = target := Option.some.inj below
                simpa [Request.also] using child_one_more request request? front.length child room
            | cons step path =>
                exact deeper_one_more request request? front.length step path child target room
                  (ih (fun path => request? (front.length :: path)) child (by simp) below
                    (room_under request request? front.length _ room))
          rw [node_substitute_split _ raw front back child childIsNode,
            node_substitute_split _ raw front back child childIsNode, frontSame, backSame]
          rw [List.perm_iff_count] at middle ⊢
          intro token
          have middle := middle token
          simp only [Element.tokens, forest_tokens_append, List.count_append] at middle ⊢
          omega

end SmellCheck
