import SmellCheck.Proofs.Applying

/-!
How many nodes of a kind there are. Requests that each take away more nodes of a kind than they give
leave a tree with fewer of them, as soon as there is one request.
-/

set_option autoImplicit false

namespace SmellCheck

mutual
def Element.kindCount (kind : Kind) : Element → Nat
  | .token .. => 0
  | .node raw children => (if Kind.ofRaw raw = kind then 1 else 0) + Forest.kindCount kind children

def Forest.kindCount (kind : Kind) : List Element → Nat
  | [] => 0
  | element :: rest => element.kindCount kind + Forest.kindCount kind rest
end

def Tree.kindCount (kind : Kind) (tree : Tree) : Nat := tree.toElement.kindCount kind

section
variable (kind : Kind)

theorem forest_kind_count_append (front back : List Element) :
    Forest.kindCount kind (front ++ back) = Forest.kindCount kind front + Forest.kindCount kind back := by
  induction front with
  | nil => simp [Forest.kindCount]
  | cons element rest ih => rw [List.cons_append, Forest.kindCount, Forest.kindCount, ih, Nat.add_assoc]

theorem forest_kind_count_sublist (part whole : List Element) (within : part.Sublist whole) :
    Forest.kindCount kind part ≤ Forest.kindCount kind whole := by
  induction within with
  | slnil => exact Nat.le_refl _
  | cons element _ ih => exact Nat.le_trans ih (Nat.le_add_left _ _)
  | cons_cons element _ ih => exact Nat.add_le_add_left ih _

theorem forest_kind_count_mem (element : Element) (forest : List Element) (member : element ∈ forest) :
    element.kindCount kind ≤ Forest.kindCount kind forest := by
  have alone := forest_kind_count_sublist kind [element] forest (List.singleton_sublist.mpr member)
  rwa [Forest.kindCount, Forest.kindCount, Nat.add_zero] at alone

mutual
theorem element_kind_count_bare : (element : Element) →
    Forest.kindCount kind element.bare = element.kindCount kind
  | .token raw text => by
      rw [Element.bare]
      split <;> rfl
  | .node raw children => by
      rw [Element.bare, Forest.kindCount, Element.kindCount, Element.kindCount, Kind.ofRaw_raw,
        forest_kind_count_bare children]
      rfl

theorem forest_kind_count_bare : (forest : List Element) →
    Forest.kindCount kind (Forest.bare forest) = Forest.kindCount kind forest
  | [] => rfl
  | element :: rest => by
      rw [Forest.bare, forest_kind_count_append, element_kind_count_bare element, forest_kind_count_bare rest,
        Forest.kindCount]
end

theorem tree_kind_count_bare (tree : Tree) : tree.bare.kindCount kind = tree.kindCount kind := by
  have whole := element_kind_count_bare kind tree.toElement
  rw [tree_bare, Forest.kindCount, Forest.kindCount, Nat.add_zero] at whole
  exact whole

def Request.Shrinks (request : Request) (target : Element) : Prop :=
  request.isDestructive ∧ Forest.kindCount kind request.given < target.kindCount kind

theorem fill_shrinks (child rewritten : Element) (request? : Option Request)
    (shrinks : ∀ request ∈ request?, request.Shrinks kind child)
    (fewer : rewritten.kindCount kind ≤ child.kindCount kind) :
    Forest.kindCount kind (Request.fill rewritten request?) ≤ child.kindCount kind ∧
      (request?.isSome ∨ rewritten.kindCount kind < child.kindCount kind →
        Forest.kindCount kind (Request.fill rewritten request?) < child.kindCount kind) := by
  cases request? with
  | none => simpa [Request.fill, Forest.kindCount] using fewer
  | some request =>
      obtain ⟨destructive, less⟩ := shrinks request rfl
      rw [fill_destructive _ request destructive]
      exact ⟨Nat.le_of_lt less, fun _ => less⟩

end

mutual
def Element.Aimed (request? : List Nat → Option Request) (request : Request) (target : Element) : Element → Prop
  | .token .. => False
  | .node _ children => Forest.Aimed request? request target 0 children

def Forest.Aimed (request? : List Nat → Option Request) (request : Request) (target : Element) (index : Nat) :
    List Element → Prop
  | [] => False
  | element :: rest => (request? [index] = some request ∧ element = target) ∨
      Element.Aimed (fun path => request? (index :: path)) request target element ∨
        Forest.Aimed request? request target (index + 1) rest
end

mutual
theorem element_aimed_iff (request? : List Nat → Option Request) (request : Request) (target : Element) :
    (element : Element) → Element.Aimed request? request target element ↔
      ∃ path, path ≠ [] ∧ request? path = some request ∧ element.at? path = some target
  | .token raw text => by
      rw [Element.Aimed, false_iff]
      rintro ⟨path, inner, -, found⟩
      cases path with
      | nil => exact inner rfl
      | cons _ _ => cases found
  | .node raw children => by
      rw [Element.Aimed, forest_aimed_iff request? request target 0 children]
      constructor
      · rintro ⟨offset, path, child, isChild, planned, found⟩
        rw [Nat.zero_add] at planned
        exact ⟨offset :: path, by simp, planned, Option.bind_eq_some_iff.mpr ⟨child, isChild, found⟩⟩
      · rintro ⟨path, inner, planned, found⟩
        cases path with
        | nil => exact absurd rfl inner
        | cons step rest =>
            obtain ⟨child, isChild, below⟩ := Option.bind_eq_some_iff.mp found
            exact ⟨step, rest, child, isChild, by rwa [Nat.zero_add], below⟩

theorem forest_aimed_iff (request? : List Nat → Option Request) (request : Request) (target : Element) (index : Nat) :
    (forest : List Element) → Forest.Aimed request? request target index forest ↔
      ∃ offset path child, forest[offset]? = some child ∧ request? ((index + offset) :: path) = some request ∧
        child.at? path = some target
  | [] => by simp [Forest.Aimed]
  | element :: rest => by
      rw [Forest.Aimed, element_aimed_iff _ request target element, forest_aimed_iff request? request target (index + 1) rest]
      constructor
      · rintro (⟨planned, same⟩ | ⟨path, -, planned, found⟩ | ⟨offset, path, child, isChild, planned, found⟩)
        · exact ⟨0, [], element, rfl, planned, congrArg some same⟩
        · exact ⟨0, path, element, rfl, planned, found⟩
        · exact ⟨offset + 1, path, child, isChild, by rwa [← Nat.add_assoc, Nat.add_right_comm], found⟩
      · rintro ⟨offset, path, child, isChild, planned, found⟩
        cases offset with
        | succ offset => exact .inr (.inr ⟨offset, path, child, isChild, by rwa [Nat.add_right_comm, Nat.add_assoc], found⟩)
        | zero =>
            obtain rfl : element = child := Option.some.inj isChild
            cases path with
            | nil => exact .inl ⟨planned, Option.some.inj found⟩
            | cons step path => exact .inr (.inl ⟨step :: path, by simp, planned, found⟩)
end

section
variable (kind : Kind)

mutual
theorem element_substitute_shrinks (request? : List Nat → Option Request) : (element : Element) →
    (∀ request target, Element.Aimed request? request target element → request.Shrinks kind target) →
    (element.substitute request?).kindCount kind ≤ element.kindCount kind ∧
      ∀ request target, Element.Aimed request? request target element →
        (element.substitute request?).kindCount kind < element.kindCount kind
  | .token _ _, _ => ⟨Nat.le_refl _, fun _ _ aimed => aimed.elim⟩
  | .node raw children, shrinks => by
      obtain ⟨fewer, less⟩ := forest_substitute_shrinks request? 0 children shrinks
      rw [Element.substitute, Element.kindCount, Element.kindCount]
      exact ⟨Nat.add_le_add_left fewer _, fun request target aimed => Nat.add_lt_add_left (less request target aimed) _⟩

theorem forest_substitute_shrinks (request? : List Nat → Option Request) (index : Nat) : (forest : List Element) →
    (∀ request target, Forest.Aimed request? request target index forest → request.Shrinks kind target) →
    Forest.kindCount kind (Forest.substitute request? index forest) ≤ Forest.kindCount kind forest ∧
      ∀ request target, Forest.Aimed request? request target index forest →
        Forest.kindCount kind (Forest.substitute request? index forest) < Forest.kindCount kind forest
  | [], _ => ⟨Nat.le_refl _, fun _ _ aimed => aimed.elim⟩
  | element :: rest, shrinks => by
      have own : ∀ request ∈ request? [index], request.Shrinks kind element :=
        fun request planned => shrinks request element (.inl ⟨planned, rfl⟩)
      obtain ⟨fewerBelow, lessBelow⟩ := element_substitute_shrinks (fun path => request? (index :: path)) element
        fun request target aimed => shrinks request target (.inr (.inl aimed))
      obtain ⟨fewerLater, lessLater⟩ := forest_substitute_shrinks request? (index + 1) rest
        fun request target aimed => shrinks request target (.inr (.inr aimed))
      rw [Forest.substitute, forest_kind_count_append, Forest.kindCount]
      cases element with
      | token raw text =>
          have alone : request? [index] = none := by
            cases planned : request? [index] with
            | none => rfl
            | some request => cases (own request planned).2
          rw [if_neg (by simp [Element.isNode, Element.asNode?])]
          refine ⟨Nat.add_le_add_left fewerLater _, ?_⟩
          rintro request target (⟨planned, -⟩ | below | later)
          · rw [alone] at planned
            cases planned
          · exact below.elim
          · exact Nat.add_lt_add_left (lessLater request target later) _
      | node raw children =>
          obtain ⟨fewer, less⟩ := fill_shrinks kind _ _ (request? [index]) own fewerBelow
          rw [if_pos (by rfl)]
          refine ⟨Nat.add_le_add fewer fewerLater, ?_⟩
          rintro request target (⟨planned, -⟩ | below | later)
          · exact Nat.add_lt_add_of_lt_of_le (less (.inl (by rw [planned]; rfl))) fewerLater
          · exact Nat.add_lt_add_of_lt_of_le (less (.inr (lessBelow request target below))) fewerLater
          · exact Nat.add_lt_add_of_le_of_lt fewer (lessLater request target later)
end

theorem session_shrinks (home : Node) (history : List Request)
    (shrinks : ∀ request ∈ (Session.start home).accepted history, request.Shrinks kind request.target.focus.toElement)
    (some : (Session.start home).accepted history ≠ []) :
    ((Session.start home).run history).apply.kindCount kind < home.root.kindCount kind := by
  have reached := Session.reached_history home history
  have target : ∀ request ∈ (Session.start home).accepted history,
      home.root.toElement.at? request.target.path = Option.some request.target.focus.toElement :=
    fun request member => at_path request.target home (reached.within request member).1
  have substituted := element_substitute_shrinks kind (Request.on? ((Session.start home).accepted history)) home.root.toElement
    (by
      intro request place aimed
      obtain ⟨path, -, planned, found⟩ := (element_aimed_iff _ request place _).mp aimed
      obtain ⟨member, rfl⟩ := Session.on_eq_some _ _ planned
      rw [target request member] at found
      exact Option.some.inj found ▸ shrinks request member)
  obtain ⟨first, member⟩ := List.exists_mem_of_ne_nil _ some
  have aimed : Element.Aimed (Request.on? ((Session.start home).accepted history)) first first.target.focus.toElement
      home.root.toElement := by
    obtain ⟨same, inner⟩ := reached.within first member
    exact (element_aimed_iff _ first _ _).mpr ⟨first.target.path, path_of_inner first.target home same inner,
      (Session.on_iff reached _ first).mpr ⟨member, rfl⟩, target first member⟩
  rw [← tree_kind_count_bare, (Session.apply_substitutes home history).1, tree_kind_count_bare]
  exact substituted.2 first _ aimed

end

end SmellCheck
