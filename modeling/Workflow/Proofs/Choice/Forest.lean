import Mathlib.Data.List.Perm.Basic
import Mathlib.Data.List.Nodup
import Mathlib.Data.List.Range
import Mathlib.Logic.Relation
import Workflow.Proofs.Choice.Coverage

/-!
# Compiled rules form a forest

All rules share one list of nodes, and nothing in the list says that a position is that of a node,
or that going from one to the next comes to an end. The compiler enters the parts of a condition
before the condition itself and refers to each of them once, and so both hold.

* **References** (`ChoiceRules.RefersTo`, `ChoiceRules.InTree`, `ChoiceRules.IsForest`): who refers
  to whom, and what makes the nodes a forest with the rules as its roots.
* **Entering** (`ChoiceRules.Planted`, `ChoiceRules.planted_place`,
  `ChoiceRules.planted_placeRules`): the new nodes refer to each of themselves once, except to the
  roots. A node that is entered behind its parts takes their place as a root.
* **The forest** (`ChoiceRules.isForest_of_compile`): every node has one parent, and following the
  parents ends at one rule.
* **Evaluation** (`ChoiceRules.Decides`, `ChoiceRules.Leads`, `ChoiceRules.decides_iff`,
  `ChoiceRules.leads_iff`): looking at nodes as a relation that knows nothing of a depth. In a
  forest it relates a position to one result, which is the computed one.
* **Answers** (`ChoiceRules.IsAnswer`, `ChoiceRules.IsForest.isAnswer`): a condition comes to a
  truth value or to a variable that matches nothing, and never to a node that is not there
  (`ChoiceRules.compile_isForest`).
-/

namespace Workflow

/-- The positions that a node refers to. -/
def ConditionNode.children : ConditionNode → List Nat
  | .leaf _ => []
  | .all children | .any children => children
  | .not child => [child]

namespace ChoiceRules

/-! ## References -/

/-- Whether the node at a position refers to another position. -/
def RefersTo (nodes : List ConditionNode) (parent child : Nat) : Prop :=
  ∃ node, nodes[parent]? = some node ∧ child ∈ node.children

/-- The nodes of a tree: those that references lead to from its root. -/
def InTree (nodes : List ConditionNode) (root position : Nat) : Prop :=
  Relation.ReflTransGen (RefersTo nodes) root position

/-- All references: those of the nodes to their children and those of the rules to their roots. -/
def references (rules : ChoiceRules) : List Nat :=
  rules.nodes.flatMap ConditionNode.children ++ rules.rules.map ChoiceRule.root

/-- Whether the nodes form a forest of which the rules are the roots. -/
structure IsForest (rules : ChoiceRules) : Prop where
  in_range : ∀ position ∈ rules.references, position < rules.nodes.length
  child_lt : ∀ parent child, RefersTo rules.nodes parent child → child < parent
  referenced_once : ∀ position < rules.nodes.length, rules.references.count position = 1
  children_ne_nil : ∀ node ∈ rules.nodes, ∀ children,
    node = .all children ∨ node = .any children → children ≠ []
  one_tree : ∀ position < rules.nodes.length,
    ∃! index : Nat, ∃ rule : ChoiceRule, rules.rules[index]? = some rule ∧
      InTree rules.nodes rule.root position

/-! ### Trees that are entered -/

/-- Whether nodes that are entered behind `count` others refer to each of themselves once, apart
from the ones in `roots`, and always to earlier ones. -/
structure Planted (count : Nat) (added : List ConditionNode) (roots : List Nat) : Prop where
  perm : (added.flatMap ConditionNode.children ++ roots).Perm (List.range' count added.length)
  child_lt : ∀ parent child, RefersTo added parent child → child < count + parent

section planted

variable {count : Nat} {added more : List ConditionNode} {roots others : List Nat}
  {node : ConditionNode}

/-- No nodes are planted without roots. -/
theorem planted_nil (count : Nat) : Planted count [] [] where
  perm := .refl _
  child_lt := by simp [RefersTo]

/-- A node that refers to all roots takes their place. -/
theorem Planted.close (h : Planted count added roots) (hnode : node.children = roots) :
    Planted count (added ++ [node]) [count + added.length] where
  perm := by
    have hperm := h.perm.append_right [count + added.length]
    rw [← hnode] at hperm
    simpa [List.flatMap_append, List.range'_concat] using hperm
  child_lt := by
    rintro parent child ⟨found, hfound, hchild⟩
    rcases Nat.lt_or_ge parent added.length with hlt | hge
    · rw [List.getElem?_append_left hlt] at hfound
      exact h.child_lt parent child ⟨found, hfound, hchild⟩
    · obtain ⟨rfl, heq⟩ : found = node ∧ parent = added.length := by
        rw [List.getElem?_append_right hge, List.getElem?_singleton] at hfound
        split at hfound
        · exact ⟨(Option.some.inj hfound).symm, by omega⟩
        · cases hfound
      have hmem : child ∈ List.range' count added.length :=
        h.perm.mem_iff.mp (List.mem_append_right _ (hnode ▸ hchild))
      rw [List.mem_range'_1] at hmem
      omega

/-- Trees that are entered one behind the other. -/
theorem Planted.append (h : Planted count added roots)
    (hmore : Planted (count + added.length) more others) :
    Planted count (added ++ more) (roots ++ others) where
  perm := by
    have hperm := h.perm.append hmore.perm
    rw [List.range'_append_1, ← List.length_append] at hperm
    refine List.Perm.trans ?_ hperm
    rw [List.flatMap_append, List.append_assoc, List.append_assoc]
    refine List.Perm.append_left _ ?_
    rw [← List.append_assoc, ← List.append_assoc]
    exact List.Perm.append_right _ List.perm_append_comm
  child_lt := by
    rintro parent child ⟨found, hfound, hchild⟩
    rcases Nat.lt_or_ge parent added.length with hlt | hge
    · rw [List.getElem?_append_left hlt] at hfound
      exact h.child_lt parent child ⟨found, hfound, hchild⟩
    · rw [List.getElem?_append_right hge] at hfound
      have := hmore.child_lt _ child ⟨found, hfound, hchild⟩
      omega

end planted

/-- Conditions are entered as trees. -/
theorem planted_place :
    (∀ (c : Condition) nodes, ∃ added, (c.place nodes).1 = nodes ++ added ∧
        Planted nodes.length added [(c.place nodes).2]) ∧
      ∀ conditions nodes, ∃ added, (Condition.placeAll conditions nodes).1 = nodes ++ added ∧
        Planted nodes.length added (Condition.placeAll conditions nodes).2 := by
  apply Condition.place.mutual_induct
  case case1 =>
    intro comparison nodes
    exact ⟨[.leaf comparison], rfl, (planted_nil nodes.length).close rfl⟩
  -- a combination: its parts stand behind the nodes, and then it refers to all of them
  case case2 | case3 | case4 =>
    intro parts nodes placed positions hplaced ih
    rw [hplaced] at ih
    obtain ⟨added, hadded, hplanted⟩ := ih
    obtain rfl : placed = nodes ++ added := hadded
    rw [Condition.place, hplaced]
    refine ⟨_, List.append_assoc _ _ _, ?_⟩
    simp only [List.length_append]
    exact hplanted.close rfl
  case case5 =>
    intro nodes
    exact ⟨[], (List.append_nil nodes).symm, planted_nil nodes.length⟩
  case case6 =>
    intro condition rest nodes placed child hplaced all children hall ih ihrest
    rw [hplaced] at ih
    rw [hall] at ihrest
    obtain ⟨added, hadded, hplanted⟩ := ih
    obtain ⟨more, hmore, hplantedRest⟩ := ihrest
    obtain rfl : placed = nodes ++ added := hadded
    obtain rfl : all = (nodes ++ added) ++ more := hmore
    rw [List.length_append] at hplantedRest
    rw [Condition.placeAll, hplaced]
    simp only [hall]
    exact ⟨added ++ more, List.append_assoc _ _ _, hplanted.append hplantedRest⟩

/-- Rules are entered as trees. -/
theorem planted_placeRules (rules : List (Condition × String)) (nodes : List ConditionNode) :
    ∃ added, (placeRules rules nodes).1 = nodes ++ added ∧
      Planted nodes.length added ((placeRules rules nodes).2.map ChoiceRule.root) := by
  induction rules generalizing nodes with
  | nil => exact ⟨[], (List.append_nil nodes).symm, planted_nil nodes.length⟩
  | cons rule rest ih =>
    obtain ⟨condition, next⟩ := rule
    obtain ⟨added, hadded, hplanted⟩ := planted_place.1 condition nodes
    obtain ⟨more, hmore, hplantedRest⟩ := ih (condition.place nodes).1
    have hlength : (condition.place nodes).1.length = nodes.length + added.length := by
      rw [hadded, List.length_append]
    rw [hlength] at hplantedRest
    refine ⟨added ++ more, ?_, hplanted.append hplantedRest⟩
    rw [placeRules, hmore, hadded, List.append_assoc]

/-! ### The forest -/

section forest

variable {nodes : List ConditionNode} {roots : List Nat} {parent other child : Nat}

/-- What a node refers to is among the children of the nodes. -/
theorem RefersTo.mem_flatMap (h : RefersTo nodes parent child) :
    child ∈ nodes.flatMap ConditionNode.children := by
  obtain ⟨node, hnode, hchild⟩ := h
  exact List.mem_flatMap.mpr ⟨node, List.mem_of_getElem? hnode, hchild⟩

/-- Where every reference is another one, a node has one parent. -/
theorem parent_unique (hnodup : (nodes.flatMap ConditionNode.children).Nodup)
    (h : RefersTo nodes parent child) (hother : RefersTo nodes other child) : parent = other := by
  obtain ⟨node, hnode, hchild⟩ := h
  obtain ⟨node', hnode', hchild'⟩ := hother
  obtain ⟨hlt, rfl⟩ := List.getElem?_eq_some_iff.mp hnode
  obtain ⟨hlt', rfl⟩ := List.getElem?_eq_some_iff.mp hnode'
  have hdisjoint := List.pairwise_iff_getElem.mp (List.nodup_flatMap.mp hnodup).2
  rcases Nat.lt_trichotomy parent other with h | h | h
  · exact absurd hchild' (hdisjoint parent other hlt hlt' h hchild)
  · exact h
  · exact absurd hchild (hdisjoint other parent hlt' hlt h hchild')

/-- Of planted nodes, each is referred to once or is a root, and not both. -/
theorem Planted.nodup (h : Planted 0 nodes roots) :
    (nodes.flatMap ConditionNode.children ++ roots).Nodup :=
  h.perm.nodup_iff.mpr List.nodup_range'

/-- Planted nodes refer to each of themselves, apart from the roots, and to nothing else. -/
theorem Planted.mem_iff (h : Planted 0 nodes roots) {position : Nat} :
    position ∈ nodes.flatMap ConditionNode.children ++ roots ↔ position < nodes.length := by
  rw [h.perm.mem_iff, List.mem_range'_1]
  omega

/-- Every node is in the tree of a root: the parents of a node stand behind it. -/
theorem Planted.exists_tree (h : Planted 0 nodes roots) {position : Nat}
    (hposition : position < nodes.length) : ∃ root ∈ roots, InTree nodes root position := by
  induction hm : nodes.length - position using Nat.strong_induction_on generalizing position with
  | _ m ih =>
    rcases List.mem_append.mp (h.mem_iff.mpr hposition) with hmem | hmem
    · obtain ⟨node, hnode, hchild⟩ := List.mem_flatMap.mp hmem
      obtain ⟨parent, hlt, rfl⟩ := List.mem_iff_getElem.mp hnode
      have hrefers : RefersTo nodes parent position :=
        ⟨_, List.getElem?_eq_getElem hlt, hchild⟩
      have hless := h.child_lt parent position hrefers
      obtain ⟨root, hroot, htree⟩ := ih (nodes.length - parent) (by omega) hlt rfl
      exact ⟨root, hroot, htree.tail hrefers⟩
    · exact ⟨position, hmem, .refl⟩

/-- No node is in the trees of two roots. -/
theorem Planted.root_unique (h : Planted 0 nodes roots) {root root' position : Nat}
    (hroot : root ∈ roots) (hroot' : root' ∈ roots) (htree : InTree nodes root position)
    (htree' : InTree nodes root' position) : root = root' := by
  obtain ⟨hnodup, -, hdisjoint⟩ := List.nodup_append'.mp h.nodup
  induction htree with
  | refl =>
    rcases htree'.cases_tail with rfl | ⟨parent, -, hstep⟩
    · rfl
    · exact absurd hroot (hdisjoint hstep.mem_flatMap)
  | tail _ hstep ih =>
    rcases htree'.cases_tail with rfl | ⟨parent, hpath, hstep'⟩
    · exact absurd hroot' (hdisjoint hstep.mem_flatMap)
    · rw [parent_unique hnodup hstep' hstep] at hpath
      exact ih hpath

end forest

open RuleObject

/-- Compiled rules form a forest. -/
theorem isForest_of_compile {choices : List Json} {fallback : Option String} {rules : ChoiceRules}
    (h : compile choices fallback = .ok rules) : rules.IsForest := by
  obtain ⟨read, hread, rfl⟩ := compile_eq_ok_iff.mp h
  obtain ⟨added, hadded, hplanted⟩ := planted_placeRules read []
  obtain ⟨stated, hstated, hrepresents⟩ := represents_placeRules hread []
  obtain rfl : added = stated := List.append_cancel_left (hadded.symm.trans hstated)
  rw [List.nil_append] at hadded
  rw [← hadded] at hplanted hrepresents
  have hmem (position : Nat) := @Planted.mem_iff _ _ hplanted position
  refine ⟨fun position h => (hmem position).mp h, fun parent child h => ?_, ?_, ?_, ?_⟩
  · simpa using hplanted.child_lt parent child h
  · intro position hposition
    exact List.count_eq_one_of_mem hplanted.nodup ((hmem position).mpr hposition)
  · intro node hnode children hchildren
    obtain ⟨s, hs⟩ := hrepresents.exists_standsFor hnode
    exact hs.parts_ne_nil hchildren
  · intro position hposition
    obtain ⟨root, hroot, htree⟩ := hplanted.exists_tree hposition
    obtain ⟨rule, hrule, rfl⟩ := List.mem_map.mp hroot
    obtain ⟨index, hindex⟩ := List.mem_iff_getElem?.mp hrule
    refine ⟨index, ⟨rule, hindex, htree⟩, ?_⟩
    rintro index' ⟨rule', hindex', htree'⟩
    have hroot' := List.mem_map_of_mem (f := ChoiceRule.root) (List.mem_of_getElem? hindex')
    have heq := hplanted.root_unique hroot hroot' htree htree'
    obtain ⟨-, hnodup, -⟩ := List.nodup_append'.mp hplanted.nodup
    have hlookup : ((placeRules read []).2.map ChoiceRule.root)[index]? =
        ((placeRules read []).2.map ChoiceRule.root)[index']? := by
      rw [List.getElem?_map, List.getElem?_map, hindex, hindex', Option.map_some, Option.map_some,
        heq]
    have hlt : index < ((placeRules read []).2.map ChoiceRule.root).length := by
      rw [List.length_map]
      exact (List.getElem?_eq_some_iff.mp hindex).1
    exact ((List.getElem?_inj hlt hnodup).mp hlookup).symm

/-! ## Evaluation -/

section evaluation

variable (nodes : List ConditionNode) (input : Json)

mutual

/-- `Decides position result`: looking at the node at a position comes to an end, with this
result. -/
inductive Decides : Nat → Except ChoiceError Bool → Prop
  | dangling {position : Nat} (missing : nodes[position]? = none) :
      Decides position (.error (.invalidRule (.danglingNode position)))
  | leaf {position : Nat} {comparison : Comparison}
      (found : nodes[position]? = some (.leaf comparison)) :
      Decides position (comparison.holds input)
  | all {position : Nat} {children : List Nat} {result : Except ChoiceError Bool}
      (found : nodes[position]? = some (.all children))
      (parts : DecidesAlong true children result) :
      Decides position result
  | any {position : Nat} {children : List Nat} {result : Except ChoiceError Bool}
      (found : nodes[position]? = some (.any children))
      (parts : DecidesAlong false children result) :
      Decides position result
  | not {position child : Nat} {result : Except ChoiceError Bool}
      (found : nodes[position]? = some (.not child)) (part : Decides child result) :
      Decides position (result.map (!·))

/-- `DecidesAlong on children result`: going through a list of children as long as their result is
`on` comes to an end, with this result. -/
inductive DecidesAlong : Bool → List Nat → Except ChoiceError Bool → Prop
  | done {on : Bool} : DecidesAlong on [] (.ok on)
  | stop {on : Bool} {child : Nat} {rest : List Nat} {result : Except ChoiceError Bool}
      (part : Decides child result) (stops : result ≠ .ok on) :
      DecidesAlong on (child :: rest) result
  | next {on : Bool} {child : Nat} {rest : List Nat} {result : Except ChoiceError Bool}
      (part : Decides child (.ok on)) (parts : DecidesAlong on rest result) :
      DecidesAlong on (child :: rest) result

end

/-- `Leads rules result`: evaluating a list of rules comes to an end, with this result. -/
inductive Leads (fallback : Option String) : List ChoiceRule → Except ChoiceError String → Prop
  | fallback {next : String} (set : fallback = some next) : Leads fallback [] (.ok next)
  | noMatch (unset : fallback = none) : Leads fallback [] (.error .noMatch)
  | holds {rule : ChoiceRule} {rest : List ChoiceRule}
      (root : Decides nodes input rule.root (.ok true)) :
      Leads fallback (rule :: rest) (.ok rule.next)
  | fails {rule : ChoiceRule} {rest : List ChoiceRule} {error : ChoiceError}
      (root : Decides nodes input rule.root (.error error)) :
      Leads fallback (rule :: rest) (.error error)
  | next {rule : ChoiceRule} {rest : List ChoiceRule} {result : Except ChoiceError String}
      (root : Decides nodes input rule.root (.ok false)) (more : Leads fallback rest result) :
      Leads fallback (rule :: rest) result

end evaluation

section evaluation

variable {nodes : List ConditionNode} {input : Json}

/-- Whether a function goes through a list of parts as long as their result is `on`. -/
structure GoesAlong {α : Type} (on : Bool) (look : α → Except ChoiceError Bool)
    (along : List α → Except ChoiceError Bool) : Prop where
  done : along [] = .ok on
  stop : ∀ part rest, look part ≠ .ok on → along (part :: rest) = look part
  next : ∀ part rest, look part = .ok on → along (part :: rest) = along rest

/-- Going through a list is looking at the first part, and at the rest if that comes to `on`. -/
theorem goesAlong_of_cons {α : Type} {on : Bool} {look : α → Except ChoiceError Bool}
    {along : List α → Except ChoiceError Bool} (hdone : along [] = .ok on)
    (hcons : ∀ part rest, along (part :: rest) = do
      let isTrue ← look part
      if isTrue = on then along rest else return isTrue) : GoesAlong on look along where
  done := hdone
  stop := by
    intro part rest hstop
    rw [hcons]
    rcases hlook : look part with error | isTrue
    · rfl
    · have hne : isTrue ≠ on := fun heq => hstop (by rw [hlook, heq])
      exact if_neg hne
  next := by
    intro part rest hnext
    rw [hcons, hnext]
    exact if_pos rfl

/-- To ask whether all of a list hold is to go through it as long as they do. -/
theorem goesAlong_allM (look : Nat → Except ChoiceError Bool) :
    GoesAlong true look fun children => children.allM look := by
  refine goesAlong_of_cons rfl fun child rest => ?_
  simp only [List.allM]
  rcases look child with error | (- | -) <;> rfl

/-- To ask whether one of a list holds is to go through it as long as none does. -/
theorem goesAlong_anyM (look : Nat → Except ChoiceError Bool) :
    GoesAlong false look fun children => children.anyM look := by
  refine goesAlong_of_cons rfl fun child rest => ?_
  simp only [List.anyM]
  rcases look child with error | (- | -) <;> rfl

/-- Going through the children comes to one end if looking at each of them does. -/
theorem GoesAlong.decides_iff {on : Bool} {look : Nat → Except ChoiceError Bool}
    {along : List Nat → Except ChoiceError Bool} (h : GoesAlong on look along)
    {children : List Nat}
    (hparts : ∀ child ∈ children, ∀ result,
      Decides nodes input child result ↔ result = look child)
    (result : Except ChoiceError Bool) :
    DecidesAlong nodes input on children result ↔ result = along children := by
  induction children with
  | nil =>
    rw [h.done]
    exact ⟨fun hdecides => by cases hdecides; rfl, fun heq => heq ▸ .done⟩
  | cons child rest ih =>
    obtain ⟨hchild, hrest⟩ := List.forall_mem_cons.mp hparts
    constructor
    · rintro (_ | ⟨part, stops⟩ | ⟨part, parts⟩)
      · have heq := (hchild _).mp part
        rw [h.stop child rest (heq ▸ stops), heq]
      · rw [h.next child rest ((hchild _).mp part).symm]
        exact (ih hrest).mp parts
    · intro hresult
      by_cases hon : look child = .ok on
      · rw [h.next child rest hon] at hresult
        exact .next ((hchild _).mpr hon.symm) ((ih hrest).mpr hresult)
      · rw [h.stop child rest hon] at hresult
        exact .stop ((hchild _).mpr hresult) (hresult ▸ hon)

section nodes

variable {position child : Nat} {children : List Nat} {comparison : Comparison}
  {result : Except ChoiceError Bool}

/-- Looking for a node that is not there comes to an error, and to no other end. -/
theorem decides_iff_of_dangling (h : nodes[position]? = none) :
    Decides nodes input position result ↔
      result = .error (.invalidRule (.danglingNode position)) := by
  refine ⟨fun hdecides => ?_, fun heq => heq ▸ .dangling h⟩
  cases hdecides <;> simp_all

/-- Looking at a comparison comes to whether it holds, and to no other end. -/
theorem decides_iff_of_leaf (h : nodes[position]? = some (.leaf comparison)) :
    Decides nodes input position result ↔ result = comparison.holds input := by
  refine ⟨fun hdecides => ?_, fun heq => heq ▸ .leaf h⟩
  cases hdecides <;> simp_all

/-- Looking at a conjunction comes to what going through its parts comes to, as long as they
hold. -/
theorem decides_iff_of_all (h : nodes[position]? = some (.all children)) :
    Decides nodes input position result ↔ DecidesAlong nodes input true children result := by
  refine ⟨fun hdecides => ?_, .all h⟩
  cases hdecides <;> simp_all

/-- Looking at a disjunction comes to what going through its parts comes to, as long as they do not
hold. -/
theorem decides_iff_of_any (h : nodes[position]? = some (.any children)) :
    Decides nodes input position result ↔ DecidesAlong nodes input false children result := by
  refine ⟨fun hdecides => ?_, .any h⟩
  cases hdecides <;> simp_all

/-- Looking at a negation comes to the opposite of what its part comes to. -/
theorem decides_iff_of_not (h : nodes[position]? = some (.not child)) :
    Decides nodes input position result ↔
      ∃ part, Decides nodes input child part ∧ result = part.map (!·) := by
  refine ⟨fun hdecides => ?_, fun ⟨_, hpart, heq⟩ => heq ▸ .not h hpart⟩
  cases hdecides with
  | not found part =>
    rw [h] at found
    cases found
    exact ⟨_, part, rfl⟩
  | _ => simp_all

end nodes

/-- Where nodes refer to earlier ones only, looking at one comes to one end. -/
theorem decides_iff (hdescends : ∀ parent child, RefersTo nodes parent child → child < parent)
    {position depth : Nat} (hdepth : position < depth) (result : Except ChoiceError Bool) :
    Decides nodes input position result ↔ result = holdsAt nodes input depth position := by
  induction position using Nat.strong_induction_on generalizing depth result with
  | _ position ih =>
    obtain ⟨d, rfl⟩ : ∃ d, depth = d + 1 := ⟨depth - 1, by omega⟩
    have hpart {node : ConditionNode} (hnode : nodes[position]? = some node) (child : Nat)
        (hchild : child ∈ node.children) (result : Except ChoiceError Bool) :
        Decides nodes input child result ↔ result = holdsAt nodes input d child := by
      have hlt := hdescends position child ⟨node, hnode, hchild⟩
      exact ih child hlt (by omega) result
    rcases hnode : nodes[position]? with _ | comparison | children | children | child
    · simp only [holdsAt, hnode, decides_iff_of_dangling hnode]
    · simp only [holdsAt, hnode, decides_iff_of_leaf hnode]
    · simp only [holdsAt, hnode, decides_iff_of_all hnode]
      exact (goesAlong_allM _).decides_iff (hpart hnode) result
    · simp only [holdsAt, hnode, decides_iff_of_any hnode]
      exact (goesAlong_anyM _).decides_iff (hpart hnode) result
    · have hchild := hpart hnode child (List.mem_singleton_self child)
      simp only [holdsAt, hnode, decides_iff_of_not hnode, hchild, exists_eq_left]

/-- The first rule decides, or else the others do. -/
theorem evaluate_cons (rule : ChoiceRule) (rest : List ChoiceRule) (fallback : Option String) :
    evaluate ⟨nodes, rule :: rest, fallback⟩ input =
      match holdsAt nodes input (rule.root + 1) rule.root with
      | .error error => .error error
      | .ok true => .ok rule.next
      | .ok false => evaluate ⟨nodes, rest, fallback⟩ input := by
  simp only [evaluate, firstMatch?]
  rcases holdsAt nodes input (rule.root + 1) rule.root with error | (- | -) <;> rfl

/-- Going through rules comes to one end if looking at their roots does. -/
theorem leads_iff {fallback : Option String} {rules : List ChoiceRule}
    (h : ∀ rule ∈ rules, ∀ result,
      Decides nodes input rule.root result ↔ result = holdsAt nodes input (rule.root + 1) rule.root)
    (result : Except ChoiceError String) :
    Leads nodes input fallback rules result ↔
      result = evaluate ⟨nodes, rules, fallback⟩ input := by
  induction rules with
  | nil =>
    constructor
    · rintro (set | unset)
      · rw [set]
        rfl
      · rw [unset]
        rfl
    · rintro rfl
      cases fallback with
      | none => exact .noMatch rfl
      | some next => exact .fallback rfl
  | cons rule rest ih =>
    obtain ⟨hroot, hrest⟩ := List.forall_mem_cons.mp h
    rw [evaluate_cons]
    constructor
    · rintro (_ | _ | root | root | ⟨root, more⟩)
      · rw [← (hroot _).mp root]
      · rw [← (hroot _).mp root]
      · rw [← (hroot _).mp root]
        exact (ih hrest).mp more
    · intro hresult
      have hdecides := (hroot _).mpr rfl
      rcases hholds : holdsAt nodes input (rule.root + 1) rule.root with error | (- | -)
      · rw [hholds] at hresult hdecides
        exact hresult ▸ .fails hdecides
      · rw [hholds] at hresult hdecides
        exact .next hdecides ((ih hrest).mpr hresult)
      · rw [hholds] at hresult hdecides
        exact hresult ▸ .holds hdecides

end evaluation

/-! ### Answers -/

/-- What looking at a condition can come to: a truth value, or a variable that matches nothing. -/
def IsAnswer (result : Except ChoiceError Bool) : Prop :=
  (∃ isTrue, result = .ok isTrue) ∨ ∃ expression, result = .error (.variableNotFound expression)

section answers

variable {nodes : List ConditionNode} {input : Json}

/-- A comparison gives an answer. -/
theorem isAnswer_comparison (c : Comparison) (input : Json) : IsAnswer (c.holds input) := by
  unfold Comparison.holds
  split
  · exact .inr ⟨_, rfl⟩
  · exact .inl ⟨_, rfl⟩

/-- An answer is one also when its truth value is changed. -/
theorem isAnswer_map {result : Except ChoiceError Bool} (h : IsAnswer result) (f : Bool → Bool) :
    IsAnswer (result.map f) := by
  rcases h with ⟨isTrue, rfl⟩ | ⟨expression, rfl⟩
  · exact .inl ⟨_, rfl⟩
  · exact .inr ⟨_, rfl⟩

/-- Going through a list gives an answer if each of its parts does. -/
theorem GoesAlong.isAnswer {on : Bool} {look : Nat → Except ChoiceError Bool}
    {along : List Nat → Except ChoiceError Bool} (h : GoesAlong on look along)
    {children : List Nat} (hparts : ∀ child ∈ children, IsAnswer (look child)) :
    IsAnswer (along children) := by
  induction children with
  | nil => exact .inl ⟨on, h.done⟩
  | cons child rest ih =>
    obtain ⟨hchild, hrest⟩ := List.forall_mem_cons.mp hparts
    by_cases hon : look child = .ok on
    · rw [h.next child rest hon]
      exact ih hrest
    · rw [h.stop child rest hon]
      exact hchild

/-- Where nodes refer to earlier ones only, every node gives an answer. -/
theorem isAnswer_holdsAt
    (hdescends : ∀ parent child, RefersTo nodes parent child → child < parent)
    {position depth : Nat} (hposition : position < nodes.length) (hdepth : position < depth) :
    IsAnswer (holdsAt nodes input depth position) := by
  induction position using Nat.strong_induction_on generalizing depth with
  | _ position ih =>
    obtain ⟨d, rfl⟩ : ∃ d, depth = d + 1 := ⟨depth - 1, by omega⟩
    have hpart {node : ConditionNode} (hnode : nodes[position]? = some node) (child : Nat)
        (hchild : child ∈ node.children) : IsAnswer (holdsAt nodes input d child) := by
      have hlt := hdescends position child ⟨node, hnode, hchild⟩
      exact ih child hlt (by omega) (by omega)
    have hnode := List.getElem?_eq_getElem hposition
    cases hkind : nodes[position] with
    | leaf comparison =>
      rw [hkind] at hnode
      simp only [holdsAt, hnode]
      exact isAnswer_comparison comparison input
    | all children =>
      rw [hkind] at hnode
      simp only [holdsAt, hnode]
      exact (goesAlong_allM _).isAnswer (hpart hnode)
    | any children =>
      rw [hkind] at hnode
      simp only [holdsAt, hnode]
      exact (goesAlong_anyM _).isAnswer (hpart hnode)
    | not child =>
      rw [hkind] at hnode
      simp only [holdsAt, hnode]
      exact isAnswer_map (hpart hnode child (List.mem_singleton_self child)) _

/-- The rules of a forest give an answer. -/
theorem IsForest.isAnswer {rules : ChoiceRules} (h : rules.IsForest) (input : Json) :
    ∀ rule ∈ rules.rules, IsAnswer (holdsAt rules.nodes input (rule.root + 1) rule.root) := by
  intro rule hrule
  have hmem : rule.root ∈ rules.references := List.mem_append_right _ (List.mem_map_of_mem hrule)
  exact isAnswer_holdsAt h.child_lt (h.in_range _ hmem) (Nat.lt_succ_self _)

/-- If the roots of all rules give an answer, an evaluation fails for one of two reasons. -/
theorem error_of_evaluate {fallback : Option String} {rules : List ChoiceRule}
    (h : ∀ rule ∈ rules, IsAnswer (holdsAt nodes input (rule.root + 1) rule.root))
    {error : ChoiceError} (hfails : evaluate ⟨nodes, rules, fallback⟩ input = .error error) :
    error = .noMatch ∨ ∃ expression, error = .variableNotFound expression := by
  induction rules with
  | nil =>
    cases fallback with
    | none => exact .inl (Except.error.inj hfails).symm
    | some next => cases hfails
  | cons rule rest ih =>
    obtain ⟨hroot, hrest⟩ := List.forall_mem_cons.mp h
    rw [evaluate_cons] at hfails
    rcases hroot with ⟨isTrue, heq⟩ | ⟨expression, heq⟩
    · rw [heq] at hfails
      cases isTrue with
      | true => cases hfails
      | false => exact ih hrest hfails
    · rw [heq] at hfails
      exact .inr ⟨expression, (Except.error.inj hfails).symm⟩

end answers

/-- The nodes of compiled rules form a forest, and so their evaluation comes to one end on every
input, and never looks for a node that is not there. -/
theorem compile_isForest {choices : List Json} {fallback : Option String} {rules : ChoiceRules}
    (h : compile choices fallback = .ok rules) :
    rules.IsForest ∧ ∀ input,
      (∀ result, Leads rules.nodes input rules.fallback rules.rules result ↔
        result = rules.evaluate input) ∧
      ∀ position, rules.evaluate input ≠ .error (.invalidRule (.danglingNode position)) := by
  have hforest := isForest_of_compile h
  refine ⟨hforest, fun input => ⟨leads_iff fun rule _ => ?_, fun position hfails => ?_⟩⟩
  · exact decides_iff hforest.child_lt (Nat.lt_succ_self rule.root)
  · rcases error_of_evaluate (hforest.isAnswer input) hfails with heq | ⟨expression, heq⟩ <;>
      cases heq

/-- The nodes of `shelfRules` form a forest: five nodes in the trees of two rules. -/
theorem shelfRules_isForest :
    compile shelfChoices (some "Stock") = .ok shelfRules ∧ shelfRules.IsForest ∧
      shelfRules.references = [1, 0, 2, 3, 4] ∧
      Leads shelfRules.nodes (.object [("kind", .string "record"), ("title", .string "Blue")])
        (some "Stock") shelfRules.rules (.ok "Shelf") := by
  obtain ⟨hforest, hevaluation⟩ := compile_isForest compile_shelfChoices
  refine ⟨compile_shelfChoices, hforest, by decide, ?_⟩
  exact ((hevaluation _).1 _).mpr (by decide +kernel)

end ChoiceRules

end Workflow
