import SmellCheck.Proofs.Covering
import SmellCheck.Proofs.Reporting

/-!
What all detectors have in common. Only those of semantic rules ask about symbols, and they report
nothing without answers, so answers about symbols add to an analysis and change nothing else in it.
Whatever is answered, a detector reports a node at or below the one that it is shown.
-/

set_option autoImplicit false

namespace SmellCheck

namespace Detect

theorem syntactic_rule (rule : Rule) (syntactic : rule.descriptor.semantic = false) (semantics? : Option Semantics)
    (node : Node) : ofRule rule semantics? node = ofRule rule none node := by
  cases rule <;> first | rfl | cases syntactic

theorem semantic_rule (rule : Rule) (semantic : rule.descriptor.semantic = true) (node : Node) :
    ofRule rule none node = none := by
  cases rule <;> first | rfl | cases semantic

end Detect

theorem answer_without_semantics (descriptor : Descriptor) (semantics : Semantics) (node : Node) :
    descriptor.answer? none node =
      (descriptor.answer? (some semantics) node).filter fun diagnostic => !diagnostic.rule.descriptor.semantic := by
  unfold Descriptor.answer? Descriptor.report?
  split
  · cases semantic : descriptor.rule.descriptor.semantic with
    | true =>
        rw [Detect.semantic_rule descriptor.rule semantic, Option.map_none, eq_comm, Option.filter_eq_none_iff]
        intro diagnostic reported
        obtain ⟨finding, -, rfl⟩ := Option.map_eq_some_iff.mp reported
        simp [semantic]
    | false =>
        rw [Detect.syntactic_rule descriptor.rule semantic (some semantics)]
        cases Detect.ofRule descriptor.rule none node with
        | none => rfl
        | some finding => exact (Option.filter_some_pos (by simp [semantic])).symm
  · rfl

def Node.Locates (node : Node) (answer? : Option Finding) : Prop :=
  ∀ finding, answer? = some finding → ∃ place ∈ node.descendantsOrSelf, finding.range = place.range

namespace Detect

section
variable (node : Node)

theorem locates_none : node.Locates none := nofun

theorem locates_place (place : Node) (below : place ∈ node.descendantsOrSelf) (message? : Option String) :
    node.Locates (some ⟨place.range, message?⟩) := by
  intro finding found
  cases found
  exact ⟨place, below, rfl⟩

theorem locates_self (message? : Option String) : node.Locates (some ⟨node.range, message?⟩) :=
  locates_place node node List.mem_cons_self message?

theorem locates_if (condition : Bool) (place : Node) (below : place ∈ node.descendantsOrSelf) :
    node.Locates (Finding.onIf condition place) := by
  cases condition with
  | true => exact locates_place node place below none
  | false => exact locates_none node

theorem locates_self_if (condition : Bool) : node.Locates (Finding.onIf condition node) :=
  locates_if node condition node List.mem_cons_self

theorem locates_bind {α : Type} (asked? : Option α) (answer? : α → Option Finding)
    (located : ∀ item, asked? = some item → node.Locates (answer? item)) : node.Locates (asked?.bind answer?) := by
  intro finding found
  obtain ⟨item, isItem, found⟩ := Option.bind_eq_some_iff.mp found
  exact located item isItem finding found

theorem locates_self_asked {α : Type} (asked? : Option α) (condition : α → Bool) :
    node.Locates (asked?.bind fun item => Finding.onIf (condition item) node) :=
  locates_bind node asked? _ fun item _ => locates_self_if node (condition item)

theorem blank_block_located (semantics? : Option Semantics) : node.Locates (blankBlock semantics? node) := by
  unfold blankBlock
  split
  · exact locates_none node
  · split <;> exact locates_self node _

theorem materialized_source_located (semantics? : Option Semantics) : node.Locates (materializedSource semantics? node) :=
  locates_bind node _ _ fun source isSource =>
    locates_if node _ source (Node.child_below node source (List.mem_of_getElem? isSource))

theorem test_cases_below (anchor : Node) (cases : List (List String)) (found : testCases? node = some (anchor, cases)) :
    anchor ∈ node.descendantsOrSelf := by
  have initializer (given : (initializerCases? node).map (node, ·) = some (anchor, cases)) : anchor ∈ node.descendantsOrSelf := by
    obtain ⟨_, -, same⟩ := Option.map_eq_some_iff.mp given
    obtain ⟨rfl, -⟩ := Prod.mk.inj same
    exact List.mem_cons_self
  unfold testCases? at found
  split at found
  · obtain ⟨first, isFirst, same⟩ := Option.map_eq_some_iff.mp found
    obtain ⟨rfl, -⟩ := Prod.mk.inj same
    obtain ⟨list, isList, isUse⟩ := List.mem_flatMap.mp (List.mem_filter.mp (List.mem_of_head? isFirst)).1
    have listBelow := Node.child_below node list (List.mem_filter.mp isList).1
    exact List.mem_cons_of_mem _ (Node.below_of_child node list first listBelow (List.mem_filter.mp isUse).1)
  · exact initializer found
  · exact initializer found
  · cases found

theorem test_case_arguments_located (semantics? : Option Semantics) : node.Locates (testCaseArguments semantics? node) := by
  refine locates_bind node _ _ ?_
  rintro ⟨anchor, cases⟩ found
  have below := test_cases_below node anchor cases found
  dsimp only
  split
  · exact locates_place node anchor below _
  · exact locates_bind node _ _ fun position _ => locates_place node anchor below _

theorem parameter_unused_located (semantics? : Option Semantics) : node.Locates (parameterUnused semantics? node) := by
  refine locates_bind node _ _ fun semantics _ => locates_bind node _ _ fun parameter _ => locates_bind node _ _ fun method _ =>
    locates_bind node _ _ fun body _ => locates_bind node _ _ fun flow _ => ?_
  split
  · exact locates_self node _
  · exact locates_none node

theorem finding_located (rule : Rule) (semantics? : Option Semantics) : node.Locates (ofRule rule semantics? node) := by
  cases rule with
  | encapsulateField => exact locates_self_if node _
  | replaceMagicValues => exact locates_self node none
  | useLambdaExpression => exact locates_self node none
  | unnecessaryShimsContext => exact locates_self_if node _
  | simplifyFakes => exact locates_self_if node _
  | removeFakes => exact locates_self_if node _
  | simplifyFakesObject => exact locates_self_asked node _ _
  | duplicateShims => exact locates_self_asked node _ _
  | simplifyShims => exact locates_self_asked node _ _
  | contextualKeyword => exact locates_self_asked node _ _
  | classNameIsNoun => exact locates_self_asked node _ _
  | blankBlock => exact blank_block_located node semantics?
  | liskovSubstitution => exact locates_self_asked node _ _
  | toArrayToListInForeach => exact materialized_source_located node semantics?
  | switchWithoutDefault => exact locates_self_if node _
  | aggregateException => exact locates_self_asked node _ _
  | exceptionWithoutContext => exact locates_self_asked node _ _
  | enumWithoutDefaultValue => exact locates_self_asked node _ _
  | tooManyParameters => exact locates_self_if node _
  | boolParameter => exact locates_self_if node _
  | preferClassOverStruct => exact locates_self node none
  | inappropriateUsageOfProperty => exact locates_self_if node _
  | nonPrivateConstants => exact locates_self_if node _
  | singleAssertInUnitOfWork => exact locates_bind node _ _ fun _ _ => locates_self_asked node _ _
  | testCaseArguments => exact test_case_arguments_located node semantics?
  | missingParameterNullValidation =>
      exact locates_bind node _ _ fun _ _ => locates_bind node _ _ fun _ _ => locates_self_asked node _ _
  | missingConstructorParameterNullValidation =>
      exact locates_bind node _ _ fun _ _ => locates_bind node _ _ fun _ _ => locates_bind node _ _ fun _ _ =>
        locates_self_asked node _ _
  | parameterReassigned =>
      exact locates_bind node _ _ fun _ _ => locates_bind node _ _ fun _ _ => locates_self_asked node _ _
  | parameterUnused => exact parameter_unused_located node semantics?

end

end Detect

namespace Engine

section
variable (catalog : Catalog)

-- Answers about symbols add the findings of semantic rules to an analysis, and change nothing else in it.
theorem semantics_only_add (semantics : Semantics) (node : Node) :
    (ofCatalog catalog).analyze none node =
      ((ofCatalog catalog).analyze (some semantics) node).filter (fun diagnostic => !diagnostic.rule.descriptor.semantic) ∧
    ∀ diagnostic ∈ (ofCatalog catalog).analyze none node, diagnostic.rule.descriptor.semantic = false := by
  have restricted : (ofCatalog catalog).analyze none node =
      ((ofCatalog catalog).analyze (some semantics) node).filter fun diagnostic => !diagnostic.rule.descriptor.semantic := by
    rw [analyze, analyze, List.filter_flatMap]
    congr 1
    funext place
    rw [detect_eq, detect_eq, List.filter_filterMap]
    exact congrArg (List.filterMap · catalog.all) (funext fun descriptor => answer_without_semantics descriptor semantics place)
  refine ⟨restricted, fun diagnostic member => ?_⟩
  rw [restricted] at member
  simpa using (List.mem_filter.mp member).2

-- A diagnostic is on the node that it was raised for, at the range of that node or of one below it.
theorem diagnostics_located (semantics? : Option Semantics) (node : Node) :
    (∀ diagnostic ∈ (ofCatalog catalog).detect semantics? node,
      (∃ place ∈ node.descendantsOrSelf, diagnostic.range = place.range) ∧ diagnostic.kind = node.kind ∧
        node.kind ∈ diagnostic.rule.descriptor.triggers) ∧
    ∀ diagnostic ∈ (ofCatalog catalog).analyze semantics? node, node.range.contains diagnostic.range := by
  have located (place : Node) : ∀ diagnostic ∈ (ofCatalog catalog).detect semantics? place,
      (∃ below ∈ place.descendantsOrSelf, diagnostic.range = below.range) ∧ diagnostic.kind = place.kind ∧
        place.kind ∈ diagnostic.rule.descriptor.triggers := by
    intro diagnostic member
    rw [detect_eq] at member
    obtain ⟨descriptor, inForce, answered⟩ := List.mem_filterMap.mp member
    obtain ⟨severity, -, described⟩ := Option.map_eq_some_iff.mp ((Catalog.mem_all_iff catalog descriptor).mp inForce)
    unfold Descriptor.answer? at answered
    split at answered
    · rename_i triggered
      obtain ⟨finding, found, rfl⟩ := Option.map_eq_some_iff.mp answered
      refine ⟨Detect.finding_located place descriptor.rule semantics? finding found, rfl, ?_⟩
      rw [← described] at triggered
      exact List.contains_iff_mem.mp triggered
    · cases answered
  refine ⟨located node, fun diagnostic member => ?_⟩
  obtain ⟨place, below, reported⟩ := List.mem_flatMap.mp member
  obtain ⟨⟨lower, isLower, same⟩, -, -⟩ := located place diagnostic reported
  rw [same]
  exact Node.range_of_below node lower (Node.below_trans node place lower below isLower)

end

end Engine

end SmellCheck
