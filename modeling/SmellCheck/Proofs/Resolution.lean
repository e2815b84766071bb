import SmellCheck.Detect.Members
import SmellCheck.Proofs.Places
import SmellCheck.Scope

/-!
Where a name is declared. A look-up asks the declarations of the scopes around a place one after the
other, those of the innermost scope first, and answers with the symbol of the first that has the name.
-/

set_option autoImplicit false

namespace SmellCheck.Scope

def parameterNodes (owner : Node) : List Node :=
  match owner.kind with
  | .simpleLambda => owner.childrenOfKind .parameter
  | _ => (owner.childOfKind? .parameterList).elim [] (·.childrenOfKind .parameter)

def localNodes (owner : Node) : List Node :=
  owner.descendantsOrSelf.filter fun node => isLocalDeclaration node.kind && node.bodyOwner?.any (·.same owner)

def declarations (scope : Node) : List Node :=
  if scope.kind.isBodyOwner then parameterNodes scope ++ localNodes scope
  else if scope.kind.isTypeWithMembers then scope.children.flatMap memberDeclarations
  else []

def declares (name : String) (node : Node) : Bool := (declared? node).any (·.name == name)

def visible? (keep : Node → Bool) (scopes : List Node) (name : String) : Option Node :=
  (scopes.flatMap declarations).find? fun node => keep node && declares name node

def isMemberOfThis (node : Node) : Bool :=
  node.isMemberName && (node.parent.bind Node.firstChild?).any (·.text == "this")

def searched (ofThis : Bool) (node : Node) : List Node :=
  if node.isMemberName then
    if ofThis then (node.parent.bind Node.enclosingType?).toList else []
  else node.ancestorsOrSelf

def declaration (identifier : Node) : Option Node :=
  visible? (fun _ => true) (searched (isMemberOfThis identifier) identifier) identifier.text

theorem declares_some (name : String) (node : Node) (found : declares name node) : (declared? node).isSome := by
  cases symbol : declared? node with
  | none => simp [declares, symbol] at found
  | some _ => rfl

theorem name_of_declared (node : Node) (symbol : Symbol) (declared : declared? node = some symbol) :
    node.name? = some symbol.name := by
  simp only [declared?, bind, Option.bind_eq_some_iff, pure, Option.some.injEq] at declared
  obtain ⟨_, _, name, found, rfl⟩ := declared
  exact found

theorem find_some_bind {α β γ : Type} (items : List α) (find : α → Option β) (answer : β → Option γ)
    (answers : ∀ item found, find item = some found → (answer found).isSome) :
    items.findSome? (fun item => (find item).bind answer) = (items.findSome? find).bind answer := by
  induction items with
  | nil => rfl
  | cons item rest ih =>
      cases here : find item with
      | none => simpa [List.findSome?_cons, here] using ih
      | some found =>
          obtain ⟨result, given⟩ := Option.isSome_iff_exists.mp (answers item found here)
          simp [here, given]

theorem member_of_eq (members : List Node) (name : String) :
    (members.findSome? fun node => if node.name? = some name then declared? node else none) =
      (members.find? (declares name)).bind declared? := by
  induction members with
  | nil => rfl
  | cons node rest ih =>
      rw [List.findSome?_cons, List.find?_cons, ih]
      cases symbol : declared? node with
      | none => simp [declares, symbol]
      | some found =>
          have named := name_of_declared node found symbol
          by_cases same : found.name = name
          · simp [declares, symbol, named, same]
          · simp [declares, symbol, named, same, beq_eq_false_iff_ne.mpr same]

theorem lookup_in_eq (scope : Node) (name : String) :
    lookupIn? scope name = ((declarations scope).find? (declares name)).bind declared? := by
  unfold lookupIn? declarations
  split
  · have shape : parametersOf scope ++ localsOf scope = (parameterNodes scope ++ localNodes scope).filterMap declared? :=
      List.filterMap_append.symm
    rw [shape, List.find?_filterMap]
    rfl
  · split
    · exact member_of_eq _ name
    · rfl

theorem lookup_eq (root : Node) (scopes : List Node) (name : String) :
    lookup? root scopes name = ((visible? (fun _ => true) scopes name).bind declared?).or (typeSymbol? root name) := by
  have inScopes : (scopes.findSome? (lookupIn? · name)) =
      (scopes.findSome? fun scope => (declarations scope).find? (declares name)).bind declared? := by
    rw [← find_some_bind]
    · exact congrArg (scopes.findSome? ·) (funext fun scope => lookup_in_eq scope name)
    · exact fun scope node found => declares_some name node (List.find?_some found)
  rw [lookup?, inScopes, visible?]
  simp [List.find?_flatMap]

theorem member_access_eq (access : Node) (name : String) (named : ∃ node, access.child? 1 = some node ∧ node.text = name) :
    memberAccess? access = if access.firstChild?.any (·.text == "this") then
      ((access.enclosingType?.toList.flatMap declarations).find? (declares name)).bind declared? else none := by
  obtain ⟨node, isChild, rfl⟩ := named
  unfold memberAccess?
  cases receiver : access.firstChild? with
  | none => rfl
  | some first =>
      by_cases this : first.text = "this"
      · cases around : access.enclosingType? with
        | none => simp [isChild, this]
        | some type =>
            have isType : type.kind.isTypeWithMembers := by simpa using List.find?_some around
            have notOwner : type.kind.isBodyOwner = false := by
              cases kind : type.kind <;> first | rfl | (rw [kind] at isType; cases isType)
            simp only [isChild, this, Option.bind_eq_bind, Option.bind_some, if_pos, Option.any_some, beq_self_eq_true,
              Option.toList_some, List.flatMap_singleton, declarations, isType, notOwner, Bool.false_eq_true, if_false]
            exact member_of_eq _ node.text
      · simp [isChild, this]

-- An identifier refers to what its declaration declares; only outside of members, types come last.
theorem referenced_eq (root identifier : Node) (isIdentifier : identifier.kind = .identifierName) :
    referenced? root identifier = ((declaration identifier).bind declared?).or
      (if identifier.isMemberName then none else typeSymbol? root identifier.text) := by
  have bare : identifier.unwrapped? = some identifier := by
    obtain ⟨snapshot, ⟨raw, children⟩, context⟩ := identifier
    have notParen : ¬ Kind.ofRaw raw = .parenExpr := by
      rw [show Kind.ofRaw raw = .identifierName from isIdentifier]
      decide
    simp only [Node.unwrapped?, Tree.toElement, Node.unwrapFrom, if_neg notParen]
  simp only [referenced?, bare, Option.bind_eq_bind, Option.bind_some, isIdentifier]
  cases memberName : identifier.isMemberName with
  | false => simp [lookup_eq, declaration, searched, memberName]
  | true =>
      have place := memberName
      unfold Node.isMemberName at place
      cases isParent : identifier.parent with
      | none => simp [isParent] at place
      | some access =>
          simp only [isParent, Bool.and_eq_true] at place
          obtain ⟨name, isChild, same⟩ := (Option.any_eq_true _ _).mp place.2
          have sameTree := Node.same_tree_trans (Node.same_tree_of_child_at access name 1 isChild)
            (Node.same_tree_of_parent identifier access isParent)
          obtain rfl := (Node.same_iff name identifier sameTree).mp same
          rw [if_pos rfl, Option.bind_some, member_access_eq access name.text ⟨name, isChild, rfl⟩]
          cases this : access.firstChild?.any (·.text == "this") with
          | false => simp [declaration, searched, isMemberOfThis, memberName, isParent, this, visible?]
          | true => simp [declaration, searched, isMemberOfThis, memberName, isParent, this, visible?]

end SmellCheck.Scope
