import SmellCheck.Proofs.Applying
import SmellCheck.Proofs.ChildNodes
import SmellCheck.Proofs.Confinement
import SmellCheck.Proofs.ShimLinks
import SmellCheck.Repair

/-!
The entries of a constructor shim. There is one entry for each text of a lambda, made from the first
link in the class that assigns it; the members that have an entry are those that are first to assign
some text, and they have as many entries as there are such texts.
-/

set_option autoImplicit false

namespace SmellCheck.Fix

def ShimLink.member? (link : ShimLink) : Option String := (link.target.child? 1).map Node.trimmed

def leaders : List ShimLink → List ShimLink
  | [] => []
  | link :: rest => link :: (leaders rest).filter fun later => later.value.text != link.value.text

def entryName? (entry : Tree) : Option String := entry.subtrees.head?.map Tree.text

theorem leaders_nodup (links : List ShimLink) : ((leaders links).map (·.value.text)).Nodup := by
  induction links with
  | nil => exact .nil
  | cons link rest ih =>
      refine List.nodup_cons.mpr ⟨?_, ?_⟩
      · intro again
        obtain ⟨later, member, same⟩ := List.mem_map.mp again
        exact bne_iff_ne.mp (List.mem_filter.mp member).2 same
      · exact ih.sublist (List.filter_sublist.map _)

theorem leader_of_text (links : List ShimLink) (link : ShimLink) (member : link ∈ links) :
    ∃ leader ∈ leaders links, leader.value.text = link.value.text := by
  induction links with
  | nil => cases member
  | cons first rest ih =>
      by_cases same : first.value.text = link.value.text
      · exact ⟨first, List.mem_cons_self, same⟩
      · rcases List.mem_cons.mp member with rfl | later
        · exact absurd rfl same
        · obtain ⟨leader, isLeader, text⟩ := ih later
          refine ⟨leader, List.mem_cons_of_mem _ (List.mem_filter.mpr ⟨isLeader, bne_iff_ne.mpr ?_⟩), text⟩
          rw [text]
          exact fun back => same back.symm

theorem mem_leaders_iff (links : List ShimLink) (link : ShimLink) :
    link ∈ leaders links ↔ ∃ front back, links = front ++ link :: back ∧
      ∀ earlier ∈ front, earlier.value.text ≠ link.value.text := by
  induction links with
  | nil => simp [leaders]
  | cons first rest ih =>
      rw [leaders, List.mem_cons, List.mem_filter, ih]
      constructor
      · rintro (rfl | ⟨⟨front, back, rfl, new⟩, other⟩)
        · exact ⟨[], rest, rfl, by simp⟩
        · refine ⟨first :: front, back, rfl, ?_⟩
          intro earlier member
          rcases List.mem_cons.mp member with rfl | inFront
          · exact (bne_iff_ne.mp other).symm
          · exact new earlier inFront
      · rintro ⟨front, back, split, new⟩
        cases front with
        | nil => exact .inl (List.cons.inj split).1.symm
        | cons head front =>
            obtain ⟨rfl, rfl⟩ := List.cons.inj split
            refine .inr ⟨⟨front, back, rfl, fun earlier member => new earlier (List.mem_cons_of_mem _ member)⟩, ?_⟩
            exact bne_iff_ne.mpr (new first List.mem_cons_self).symm

theorem entries_from_seen (links : List ShimLink) (seen : List String) :
    entriesFrom? seen links = ((leaders links).filter fun link => !seen.contains link.value.text).mapM ShimLink.entry? := by
  -- By induction on the links, for all texts that were seen: each new text is one more.
  induction links generalizing seen with
  | nil => rfl
  | cons link rest ih =>
      rw [entriesFrom?, leaders, List.filter_cons, List.filter_filter]
      by_cases known : seen.contains link.value.text
      · rw [if_pos known, if_neg (by simpa using known), ih seen]
        congr 1
        refine List.filter_congr fun later _ => ?_
        by_cases same : later.value.text = link.value.text
        · rw [same, known]
          rfl
        · simp [same]
      · have rest' : ((leaders rest).filter fun later => !seen.contains later.value.text && later.value.text != link.value.text) =
            (leaders rest).filter fun later => !(link.value.text :: seen).contains later.value.text := by
          refine List.filter_congr fun later _ => ?_
          rw [List.contains_cons, Bool.not_or, Bool.and_comm]
          rfl
        rw [if_neg known, if_pos (by simpa using known), ih, rest', List.mapM_cons]

theorem entries_from_leaders (links : List ShimLink) : entriesFrom? [] links = (leaders links).mapM ShimLink.entry? := by
  rw [entries_from_seen, List.filter_eq_self.mpr (by simp)]

theorem entry_name (link : ShimLink) (entry : Tree) (made : link.entry? = some entry) :
    entryName? entry = link.member? ∧ link.member?.isSome := by
  simp only [ShimLink.entry?, bind, Option.bind_eq_some_iff, pure, Option.some.injEq] at made
  obtain ⟨member, isChild, lambda, -, rfl⟩ := made
  rw [ShimLink.member?, isChild]
  refine ⟨?_, rfl⟩
  exact congrArg some String.append_empty

theorem map_of_map_m {α β : Type} (make : α → Option β) (items : List α) (made : List β) (all : items.mapM make = some made) :
    items.map make = made.map some := by
  induction items generalizing made with
  | nil =>
      cases all
      rfl
  | cons item rest ih =>
      simp only [List.mapM_cons, bind, Option.bind_eq_some_iff, pure, Option.some.injEq] at all
      obtain ⟨first, isFirst, others, areOthers, rfl⟩ := all
      rw [List.map_cons, List.map_cons, isFirst, ih others areOthers]

section
variable (links : List ShimLink) (entries : List Tree) (made : entriesFrom? [] links = some entries)
include made

theorem entries_of_leaders : (leaders links).map ShimLink.entry? = entries.map some :=
  map_of_map_m _ _ _ ((entries_from_leaders links).symm.trans made)

theorem entry_names : entries.map entryName? = (leaders links).map ShimLink.member? := by
  have names : ((leaders links).map ShimLink.entry?).map (·.bind entryName?) = (entries.map some).map (·.bind entryName?) :=
    congrArg _ (entries_of_leaders links entries made)
  rw [List.map_map, List.map_map] at names
  refine (names.symm.trans (List.map_congr_left fun leader isLeader => ?_))
  have isEntry : leader.entry? ∈ entries.map some := by
    rw [← entries_of_leaders links entries made]
    exact List.mem_map_of_mem isLeader
  obtain ⟨entry, -, same⟩ := List.mem_map.mp isEntry
  have name := (entry_name leader entry same.symm).1
  show leader.entry?.bind entryName? = leader.member?
  rw [← same]
  exact name

end

theorem simplify_fakes_some (home : Node) (result : Tree) (rewritten : simplifyFakes home = some result) :
    ∃ (chain : ShimChain) (entries : List Tree), ShimChain.find? home = some chain ∧ entriesFrom? [] chain.links = some entries ∧
      chain.diagnosed.isRoot = false ∧ chain.diagnosed.root.rewrite [(chain.diagnosed.path,
        .replace [constructorShim (Text.trim (Text.firstSegment '.' chain.receiver)) entries])] = result := by
  simp only [simplifyFakes, bind, Option.bind_eq_some_iff, pure, Option.some.injEq] at rewritten
  obtain ⟨chain, found, entries, made, session, planned, rfl⟩ := rewritten
  have performed := to_option_ok planned
  refine ⟨chain, entries, found, made, Session.plan_inner _ _ _ _ performed, ?_⟩
  rw [Session.plan_ok _ _ _ _ performed]
  rfl

theorem simplify_shape (home : Node) (result : Tree) (rewritten : simplifyFakes home = some result) :
    ∃ (chain : ShimChain) (entries : List Tree) (place : Node), ShimChain.find? home = some chain ∧ entriesFrom? [] chain.links = some entries ∧
      place.root = result ∧ place.path = chain.diagnosed.path ∧
      place.focus = constructorShim (Text.trim (Text.firstSegment '.' chain.receiver)) entries := by
  obtain ⟨chain, entries, found, made, inner, rfl⟩ := simplify_fakes_some home result rewritten
  obtain ⟨root, path⟩ := exchange_stands chain.diagnosed
    (constructorShim (Text.trim (Text.firstSegment '.' chain.receiver)) entries) inner
  exact ⟨chain, entries, _, found, made, root, path, rfl⟩

theorem diagnosed_link (home : Node) (isAccess : home.kind = .memberAccess) (chain : ShimChain)
    (found : ShimChain.find? home = some chain) :
    ∃ link ∈ chain.links, link.target = home ∧ link.statement = chain.diagnosed := by
  obtain ⟨⟨link, isLink, same⟩, -⟩ := chain_shape home chain found
  obtain ⟨receiver, links⟩ := chain_links home chain found
  obtain ⟨assignment, shape⟩ := link_shape home link isLink
  have below := Node.strictly_below_scope home.classScope home (Node.class_scope_kind home) (Node.class_scope_above home)
    (by rw [isAccess]; decide) (Node.inner_of_parent home assignment shape.parent)
  refine ⟨link, (links link).mpr ⟨home, ?_, receiver, isLink⟩, shape.member, same.symm⟩
  exact List.mem_filter.mpr ⟨(Node.mem_descendants_iff _ _).mpr below, beq_iff_eq.mpr isAccess⟩

end SmellCheck.Fix

namespace SmellCheck.Catalog

open SmellCheck.Fix

-- Simplifying makes one entry for each text of a lambda that is assigned on the receiver in the class,
-- in document order, and names it by the member that is first to have it. A member has as many entries as there are texts
-- that it is first to have, whatever statement is diagnosed.
theorem one_entry_for_each_lambda (catalog : Catalog) (home : Node) (result : Tree) (isAccess : home.kind = .memberAccess)
    (fixed : catalog.fix Rule.simplifyFakes.id home = .ok result) (rewrites : (simplifyFakes home).isSome) :
    ∃ (chain : ShimChain) (entries : List Tree) (place : Node), ShimChain.find? home = some chain ∧
      (∀ link, link ∈ chain.links ↔ ∃ access ∈ home.classScope.descendantsOfKind .memberAccess,
        access.firstChild?.map Node.trimmed = home.firstChild?.map Node.trimmed ∧ ShimLink.of? access = some link) ∧
      (chain.links.Pairwise fun earlier later => earlier.target.path < later.target.path) ∧
      place.root = result ∧ place.path = chain.diagnosed.path ∧
      place.focus = constructorShim (Text.trim (Text.firstSegment '.' chain.receiver)) entries ∧
      entries.map some = (leaders chain.links).map ShimLink.entry? ∧
      ((leaders chain.links).map (·.value.text)).Nodup ∧
      (∀ link ∈ chain.links, ∃ leader ∈ leaders chain.links, leader.value.text = link.value.text) ∧
      (∀ link, link ∈ leaders chain.links ↔ ∃ front back, chain.links = front ++ link :: back ∧
        ∀ earlier ∈ front, earlier.value.text ≠ link.value.text) ∧
      entries.map entryName? = (leaders chain.links).map ShimLink.member? ∧
      ∃ diagnosed ∈ chain.links, diagnosed.target = home ∧ diagnosed.statement = chain.diagnosed := by
  obtain ⟨rule, fixer, same, fixable, getD⟩ := fix_ok catalog _ home result fixed
  obtain rfl : Rule.simplifyFakes = rule := Rule.id_injective _ _ same
  cases fixable
  obtain ⟨tree, rewritten⟩ := Option.isSome_iff_exists.mp rewrites
  obtain rfl : result = tree := by rw [getD, rewritten]; rfl
  obtain ⟨chain, entries, place, found, made, root, path, focus⟩ := simplify_shape home result rewritten
  obtain ⟨receiver, links⟩ := chain_links home chain found
  refine ⟨chain, entries, place, found, by rw [receiver]; exact links, chain_in_order home chain found, root, path, focus,
    (entries_of_leaders chain.links entries made).symm, leaders_nodup _, leader_of_text _, mem_leaders_iff _,
    entry_names chain.links entries made, diagnosed_link home isAccess chain found⟩

end SmellCheck.Catalog

namespace SmellCheck.Shimmed

def member (name : String) : Tree := Build.memberAccess (Build.identifierName "S") name

def value (number : String) : Tree := Build.simpleLambda "o" (Build.numberLiteral number)

def statement (name number : String) : Tree := Build.exprStmt (Build.assignment (member name) (value number))

def second (first : Tree) (name number : String) : Node :=
  ⟨0, member name, [⟨Kind.assignment.raw, [], (Build.assignment (member name) (value number)).children.tail⟩,
    ⟨Kind.exprStmt.raw, [], (statement name number).children.tail⟩,
    ⟨Kind.block.raw, [Build.space, first.toElement, Build.space, Build.punct "\x7b"], [Build.space, Build.punct "\x7d"]⟩]⟩

def entry (name number : String) : Tree :=
  Build.assignment (Build.identifierName name) (Build.parenLambda (Build.parameterList []) (Build.numberLiteral number))

def folded (first : Tree) (entries : List Tree) : Tree := Build.block [first, Fix.constructorShim "S" entries]

end SmellCheck.Shimmed

namespace SmellCheck.Catalog

open SmellCheck.Fix Shimmed

theorem two_lambdas_two_entries :
    let home := second (statement "A" "1") "B" "2"
    home.kind = .memberAccess ∧
      builtin.fix Rule.simplifyFakes.id home = .ok (folded (statement "A" "1") [entry "A" "1", entry "B" "2"]) ∧
      ∃ (place : Node) (entries : List Tree), place.root = folded (statement "A" "1") [entry "A" "1", entry "B" "2"] ∧
        place.focus = constructorShim "S" entries ∧ entries.map entryName? = [some "A", some "B"] := by
  intro home
  have rewritten : simplifyFakes home = some (folded (statement "A" "1") [entry "A" "1", entry "B" "2"]) := by decide +kernel
  have fixed := builtin_fix .simplifyFakes simplifyFakes rfl home _ rewritten
  obtain ⟨chain, entries, place, found, -, -, root, -, focus, -, -, -, -, names, -⟩ :=
    one_entry_for_each_lambda builtin home _ rfl fixed (by rw [rewritten]; rfl)
  have computed : (ShimChain.find? home).map (fun chain => (chain.receiver, (leaders chain.links).map ShimLink.member?)) =
      some ("S", [some "A", some "B"]) := by decide +kernel
  rw [found] at computed
  obtain ⟨receiver, members⟩ := Prod.mk.inj (Option.some.inj computed)
  have type : Text.trim (Text.firstSegment '.' "S") = "S" := by decide
  rw [receiver, type] at focus
  exact ⟨rfl, fixed, place, entries, root, focus, names.trans members⟩

theorem diagnosed_member_without_entry :
    let home := second (statement "A" "1") "B" "1"
    home.kind = .memberAccess ∧
      (ShimChain.find? home).map (·.links.map fun link => (link.target == home, link.member?)) =
        some [(false, some "A"), (true, some "B")] ∧
      builtin.fix Rule.simplifyFakes.id home = .ok (folded (statement "A" "1") [entry "A" "1"]) ∧
      ([entry "A" "1"].map entryName?).count (some "B") = 0 := by
  intro home
  have rewritten : simplifyFakes home = some (folded (statement "A" "1") [entry "A" "1"]) := by decide +kernel
  exact ⟨rfl, by decide +kernel, builtin_fix .simplifyFakes simplifyFakes rfl home _ rewritten, by decide⟩

end SmellCheck.Catalog
