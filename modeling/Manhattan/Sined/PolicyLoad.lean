import Mathlib.Algebra.Order.Ring.Nat
import Mathlib.Algebra.Ring.Int.Defs
import Mathlib.Data.List.Perm.Basic
import Mathlib.Data.List.Nodup
import Manhattan.Lib.Chain
import Manhattan.Lib.Text
import Manhattan.Lib.Xml
import Manhattan.Sined.Pe

/-!
# Loading the policy file (`parse_policies`, `sined/src/pe.c`)

The policies are a linked list behind the static node `policy_list`; each of them has the
head of a linked list of rules inside it. `free_policies` takes both apart, node by node,
and `parse_policies` builds them again from the document, with a pointer to the last node
in each of its two loops. The strings in the nodes come from `xmlNodeListGetString`, which
allocates them; a null pointer stands for an element without children.

The functions here work on that memory. A step that reads through a null or a freed
pointer, gives a null pointer to `strtol` or frees what is not allocated is `none`.
Beside them stand the same traversals on lists (`loadRules`, `loadPolicy`, `loadPolicies`),
which say what is built, and the loop lemmas say that the list in memory is that one, that
nothing else in memory has changed, and which strings no node points to any more.

Mirroring notes:
- Policies and rules lie in a heap of their own each. The head of a policy's rules, a part
  of the policy, is a node of the second; it is allocated and freed with the policy.
- A string is named by the number of the allocation that made it. Numbers are not used
  again, so that a string is live or it is not.
- A node is filled and then linked, where the source links it first. Nobody reads the list
  in between (`policy_mutex` is held).
- `malloc` and `xmlNodeListGetString` do not fail, and there are fewer than 2^31 rules.
-/

namespace Manhattan.Sined.PolicyLoad

open Manhattan.Lib

/-! ## The memory -/

/-- A string made by `xmlNodeListGetString`. -/
structure Str where
  id : Nat
  text : String
  deriving DecidableEq, Repr

/-- `rule_t` -/
structure RuleCell where
  ruleID : Int
  location : Option Str
  bandwidth : Int
  cost : Int
  interface : Option Str
  deriving DecidableEq, Repr

/-- `RULE_HEAD` -/
def ruleHead : RuleCell := ⟨0, none, -1, -1, none⟩

/-- `policy_t`, with the address of the node `rule_list` inside it. -/
structure PolicyCell where
  appDesc : Option Str
  ruleList : Addr
  deriving DecidableEq, Repr

/-- The strings that were made and not freed, and the number of the next one. -/
structure Strings where
  live : List Nat
  made : Nat
  deriving DecidableEq, Repr

structure Memory where
  policies : Heap PolicyCell
  rules : Heap RuleCell
  strings : Strings

/-- The static node `policy_list`. -/
def policyList : Addr := 0

structure Mallocs where
  policy : Malloc PolicyCell
  rule : Malloc RuleCell

/-- `xmlNodeListGetString` -/
def Strings.get (nodes : List Xml) (s : Strings) : Option Str × Strings :=
  match Xml.nodeListGetString nodes with
  | none => (none, s)
  | some text => (some ⟨s.made, text⟩, ⟨s.made :: s.live, s.made + 1⟩)

/-- `xmlFree` -/
def Strings.free (str : Str) (s : Strings) : Option Strings :=
  if str.id ∈ s.live then some { s with live := s.live.erase str.id } else none

/-- `if (str) xmlFree(str);` -/
def Strings.freeIf : Option Str → Strings → Option Strings
  | none, s => some s
  | some str, s => s.free str

/-- A field of the rule is assigned. -/
def Memory.setRule (rule : Addr) (f : RuleCell → RuleCell) (m : Memory) : Option Memory :=
  (m.rules.cell rule).map fun n => { m with rules := m.rules.write rule ⟨f n.data, n.next⟩ }

/-- `policy->app_desc = str;` -/
def Memory.setAppDesc (policy : Addr) (str : Option Str) (m : Memory) : Option Memory :=
  (m.policies.cell policy).map fun n =>
    { m with policies := m.policies.write policy ⟨{ n.data with appDesc := str }, n.next⟩ }

/-! ## `free_policies` -/

/-- The inner loop of `free_policies`. -/
def freeRules (head : Addr) : Nat → Memory → Option Memory
  | 0, _ => none
  | n + 1, m =>
    (m.rules.next head).bind fun
      | none => some m
      | some rule =>
        (m.rules.cell rule).bind fun node =>
          (m.strings.freeIf node.data.location).bind fun s₁ =>
            (s₁.freeIf node.data.interface).bind fun s₂ =>
              (m.rules.setNext head node.next).bind fun h =>
                freeRules head n { m with rules := h.free rule, strings := s₂ }

/-- The outer loop of `free_policies`. -/
def freeLoop : Nat → Memory → Option Memory
  | 0, _ => none
  | n + 1, m =>
    (m.policies.next policyList).bind fun
      | none => some m
      | some policy =>
        (m.policies.cell policy).bind fun node =>
          (m.strings.freeIf node.data.appDesc).bind fun s =>
            (freeRules node.data.ruleList (m.rules.limit + 1) { m with strings := s }).bind
              fun m₁ =>
                (m₁.policies.setNext policyList node.next).bind fun h =>
                  freeLoop n { m₁ with
                    policies := h.free policy
                    rules := m₁.rules.free node.data.ruleList }

/-- `free_policies`. The lists are not longer than the heaps. -/
def freePolicies (m : Memory) : Option Memory := freeLoop (m.policies.limit + 1) m

/-! ## `parse_policies` -/

/-- `(int) strtol(text, NULL, 10)`: a `long` at its limits, cut to an `int`. -/
def strtolInt (text : String) : Int :=
  (max (-2 ^ 63) (min (2 ^ 63 - 1) (atoi text.toList))).bmod (2 ^ 32)

theorem strtolInt_of_fits {text : String}
    (h : -2 ^ 31 ≤ atoi text.toList ∧ atoi text.toList < 2 ^ 31) :
    strtolInt text = atoi text.toList := by
  unfold strtolInt
  have hclamp : max (-2 ^ 63) (min (2 ^ 63 - 1) (atoi text.toList)) = atoi text.toList := by
    omega
  rw [hclamp]
  refine Int.bmod_eq_of_le ?_ ?_ <;> omega

/-- A number in the range of an `int` is read back. -/
theorem strtolInt_decimal {n : Int} (h : -2 ^ 31 ≤ n ∧ n < 2 ^ 31) :
    strtolInt (String.ofList (decimal n)) = n := by
  have htext : atoi (String.ofList (decimal n)).toList = n := by
    rw [String.toList_ofList, atoi_decimal]
  rw [strtolInt_of_fits (htext.symm ▸ h), htext]

/-- A string-valued element of a rule. -/
def stringElement (rule : Addr) (cur : Xml) (f : Option Str → RuleCell → RuleCell) (m : Memory) :
    Option Memory :=
  { m with strings := (m.strings.get cur.children).2 }.setRule rule
    (f (m.strings.get cur.children).1)

/-- A number-valued element of a rule: `strtol` reads the string, `xmlFree` frees it. -/
def numberElement (rule : Addr) (cur : Xml) (f : Int → RuleCell → RuleCell) (m : Memory) :
    Option Memory :=
  (m.strings.get cur.children).1.bind fun tmp =>
    ({ m with strings := (m.strings.get cur.children).2 }.setRule rule
      (f (strtolInt tmp.text))).bind fun m₁ =>
        (m₁.strings.free tmp).map fun s => { m₁ with strings := s }

/-- One round of the loop of `parse_rules`. -/
def parseRuleNode (rule : Addr) (cur : Xml) (m : Memory) : Option Memory :=
  if cur.name = "location" then
    stringElement rule cur (fun str c => { c with location := str }) m
  else if cur.name = "cost" then numberElement rule cur (fun n c => { c with cost := n }) m
  else if cur.name = "bandwidth" then
    numberElement rule cur (fun n c => { c with bandwidth := n }) m
  else if cur.name = "interface" then
    stringElement rule cur (fun str c => { c with interface := str }) m
  else some m

/-- `parse_rules` -/
def parseRules (rule : Addr) : List Xml → Memory → Option Memory
  | [], m => some m
  | cur :: rest, m => (parseRuleNode rule cur m).bind (parseRules rule rest)

/-- `rule->next = malloc(sizeof(rule_t)); rule = rule->next;` and its fields. -/
def Memory.addRule (malloc : Mallocs) (last : Addr) (ruleID : Nat) (m : Memory) :
    Option (Addr × Memory) :=
  (m.rules.extend malloc.rule ⟨ruleID, none, -1, -1, none⟩ last).map
    fun r => (r.1, { m with rules := r.2 })

/-- The loop of `parse_policy`: the last rule and its number. -/
def parsePolicyLoop (malloc : Mallocs) (policy : Addr) :
    List Xml → Addr → Nat → Memory → Option Memory
  | [], _, _, m => some m
  | cur :: rest, rule, ruleID, m =>
    if cur.name = "appDesc" then
      ({ m with strings := (m.strings.get cur.children).2 }.setAppDesc policy
        (m.strings.get cur.children).1).bind (parsePolicyLoop malloc policy rest rule ruleID)
    else if cur.name = "rule" then
      (m.addRule malloc rule (ruleID + 1)).bind fun r =>
        (parseRules r.1 cur.children r.2).bind
          (parsePolicyLoop malloc policy rest r.1 (ruleID + 1))
    else parsePolicyLoop malloc policy rest rule ruleID m

/-- `parse_policy` -/
def parsePolicy (malloc : Mallocs) (cur : Xml) (policy : Addr) (m : Memory) : Option Memory :=
  (m.policies.cell policy).bind fun node =>
    parsePolicyLoop malloc policy cur.children node.data.ruleList 0 m

/-- `policy->next = malloc(sizeof(policy_t)); policy = policy->next;` and its fields. -/
def Memory.addPolicy (malloc : Mallocs) (last : Addr) (m : Memory) : Option (Addr × Memory) :=
  let head := malloc.rule.pick m.rules
  (m.policies.extend malloc.policy ⟨none, head⟩ last).map fun r =>
    (r.1, { m with policies := r.2, rules := m.rules.write head ⟨ruleHead, none⟩ })

/-- The loop of `parse_policies`, with the last policy. -/
def parseLoop (malloc : Mallocs) : List Xml → Addr → Memory → Option Memory
  | [], _, m => some m
  | cur :: rest, policy, m =>
    if cur.name = "policy" then
      (m.addPolicy malloc policy).bind fun r =>
        (parsePolicy malloc cur r.1 r.2).bind (parseLoop malloc rest r.1)
    else parseLoop malloc rest policy m

/-- What `xmlParseFile` and `xmlDocGetRootElement` return for the file. -/
inductive Document where
  | unparsable
  | empty
  | rooted (name : String) (children : List Xml)

/-- The three checks of `parse_policies` pass. -/
def Document.accepted : Document → Bool
  | unparsable => false
  | empty => false
  | rooted name _ => name = "UserPolicies"

/-- `parse_policies` -/
def parsePolicies (malloc : Mallocs) (doc : Document) (m : Memory) : Option Memory :=
  (freePolicies m).bind fun m₁ =>
    match doc with
    | .unparsable => some m₁
    | .empty => some m₁
    | .rooted name children =>
      if name = "UserPolicies" then parseLoop malloc children policyList m₁ else some m₁

/-! ## What is built -/

/-- What the loop of `parse_rules` makes of one element. -/
def loadRuleNode (rule : Rule) (cur : Xml) : Option Rule :=
  if cur.name = "location" then
    some { rule with location := Xml.nodeListGetString cur.children }
  else if cur.name = "cost" then
    (Xml.nodeListGetString cur.children).map fun tmp => { rule with cost := strtolInt tmp }
  else if cur.name = "bandwidth" then
    (Xml.nodeListGetString cur.children).map fun tmp => { rule with bandwidth := strtolInt tmp }
  else if cur.name = "interface" then
    some { rule with interface := Xml.nodeListGetString cur.children }
  else some rule

def loadRules : List Xml → Rule → Option Rule
  | [], rule => some rule
  | cur :: rest, rule => (loadRuleNode rule cur).bind (loadRules rest)

/-- A rule without content. -/
def blankRule (ruleID : Nat) : Rule := ⟨ruleID, none, -1, -1, none⟩

def loadPolicy : List Xml → Policy → Option Policy
  | [], policy => some policy
  | cur :: rest, policy =>
    if cur.name = "appDesc" then
      loadPolicy rest { policy with appDesc := Xml.nodeListGetString cur.children }
    else if cur.name = "rule" then
      (loadRules cur.children (blankRule (policy.rules.length + 1))).bind fun rule =>
        loadPolicy rest { policy with rules := policy.rules ++ [rule] }
    else loadPolicy rest policy

def loadPolicies : List Xml → Option (List Policy)
  | [] => some []
  | cur :: rest =>
    if cur.name = "policy" then
      (loadPolicy cur.children ⟨none, []⟩).bind fun policy =>
        (loadPolicies rest).map (policy :: ·)
    else loadPolicies rest

/-- How many strings are overwritten by the elements with this name, when the field holds
one before. -/
def overwrites (name : String) : Bool → List Xml → Nat
  | _, [] => 0
  | held, cur :: rest =>
    if cur.name = name then held.toNat + overwrites name (!cur.children.isEmpty) rest
    else overwrites name held rest

/-- How many strings are overwritten in a new rule. -/
def ruleLeaks (nodes : List Xml) : Nat :=
  overwrites "location" false nodes + overwrites "interface" false nodes

/-- The strings overwritten in the rules below `nodes`. -/
def rulesLeaks (nodes : List Xml) : Nat :=
  ((nodes.filter (·.name = "rule")).map fun cur => ruleLeaks cur.children).sum

/-- How many strings are overwritten in a new policy. -/
def policyLeaks (nodes : List Xml) : Nat := overwrites "appDesc" false nodes + rulesLeaks nodes

/-- How many strings are overwritten while the document is read. -/
def leaks (nodes : List Xml) : Nat :=
  ((nodes.filter (·.name = "policy")).map fun cur => policyLeaks cur.children).sum

section Leaks

variable {cur : Xml} (nodes : List Xml)

theorem rulesLeaks_cons_self (h : cur.name = "rule") :
    rulesLeaks (cur :: nodes) = ruleLeaks cur.children + rulesLeaks nodes := by
  unfold rulesLeaks
  rw [List.filter_cons_of_pos (by simpa using h), List.map_cons, List.sum_cons]

theorem rulesLeaks_cons_ne (h : cur.name ≠ "rule") :
    rulesLeaks (cur :: nodes) = rulesLeaks nodes := by
  unfold rulesLeaks
  rw [List.filter_cons_of_neg (by simpa using h)]

theorem leaks_cons_self (h : cur.name = "policy") :
    leaks (cur :: nodes) = policyLeaks cur.children + leaks nodes := by
  unfold leaks
  rw [List.filter_cons_of_pos (by simpa using h), List.map_cons, List.sum_cons]

theorem leaks_cons_ne (h : cur.name ≠ "policy") : leaks (cur :: nodes) = leaks nodes := by
  unfold leaks
  rw [List.filter_cons_of_neg (by simpa using h)]

end Leaks

/-! ## The ledger of the strings -/

/-- The string a field holds, if any. -/
def idOf (str : Option Str) : List Nat := (str.map Str.id).toList

theorem idOf_length (str : Option Str) : (idOf str).length = str.isSome.toNat := by
  cases str <;> rfl

namespace Strings

/-- The live strings are `ids`, none of them twice. -/
structure Holds (s : Strings) (ids : List Nat) : Prop where
  perm : s.live.Perm ids
  nodup : s.live.Nodup
  below : ∀ id ∈ s.live, id < s.made

theorem get_text (s : Strings) (nodes : List Xml) :
    (s.get nodes).1.map Str.text = Xml.nodeListGetString nodes := by
  unfold get
  cases Xml.nodeListGetString nodes <;> rfl

theorem get_isSome (s : Strings) (nodes : List Xml) :
    (s.get nodes).1.isSome = !nodes.isEmpty := by
  rw [← Xml.nodeListGetString_isSome, ← s.get_text, Option.isSome_map]

namespace Holds

variable {s : Strings} {ids ids' : List Nat}

theorem of_perm (h : s.Holds ids) (hp : ids.Perm ids') : s.Holds ids' :=
  ⟨h.perm.trans hp, h.nodup, h.below⟩

theorem get (h : s.Holds ids) (nodes : List Xml) :
    (s.get nodes).2.Holds (idOf (s.get nodes).1 ++ ids) := by
  unfold Strings.get
  cases Xml.nodeListGetString nodes with
  | none => exact h
  | some text =>
    refine ⟨h.perm.cons _, List.nodup_cons.mpr ⟨?_, h.nodup⟩, fun id hid => ?_⟩
    · intro hm
      have := h.below _ hm
      omega
    · show id < s.made + 1
      rcases List.mem_cons.mp hid with rfl | hid
      · omega
      · have := h.below id hid
        omega

/-- A string that is held can be freed. -/
theorem free {str : Str} (h : s.Holds (str.id :: ids)) :
    ∃ s', s.free str = some s' ∧ s'.Holds ids := by
  have hm : str.id ∈ s.live := h.perm.mem_iff.mpr List.mem_cons_self
  refine ⟨_, if_pos hm, ?_, h.nodup.erase _, fun id hid => h.below id (List.mem_of_mem_erase hid)⟩
  have hp := h.perm.erase str.id
  rwa [List.erase_cons_head] at hp

theorem freeIf {str : Option Str} (h : s.Holds (idOf str ++ ids)) :
    ∃ s', s.freeIf str = some s' ∧ s'.Holds ids := by
  cases str with
  | none => exact ⟨s, rfl, h⟩
  | some str => exact h.free

end Holds

end Strings

/-! ## The rule loop -/

namespace RuleCell

/-- What the rule says, without its pointers. -/
def value (c : RuleCell) : Rule :=
  ⟨c.ruleID, c.location.map Str.text, c.bandwidth, c.cost, c.interface.map Str.text⟩

/-- The strings the rule points to. -/
def strs (c : RuleCell) : List Nat := idOf c.location ++ idOf c.interface

end RuleCell

section RuleLoop

variable {m : Memory} {rule : Addr} {c : RuleCell} {rest : List Nat}

theorem setRule_eq (hcell : m.rules.cell rule = some ⟨c, none⟩) (f : RuleCell → RuleCell)
    (s : Strings) : { m with strings := s }.setRule rule f =
      some ⟨m.policies, m.rules.write rule ⟨f c, none⟩, s⟩ := by
  unfold Memory.setRule
  rw [hcell]
  rfl

/-- The string made for a number is freed again. -/
theorem numberElement_eq (hcell : m.rules.cell rule = some ⟨c, none⟩) {ids : List Nat}
    (hs : m.strings.Holds ids) (cur : Xml) (f : Int → RuleCell → RuleCell) :
    match Xml.nodeListGetString cur.children with
    | none => numberElement rule cur f m = none
    | some tmp => ∃ s, numberElement rule cur f m =
        some ⟨m.policies, m.rules.write rule ⟨f (strtolInt tmp) c, none⟩, s⟩ ∧ s.Holds ids := by
  have htext := m.strings.get_text cur.children
  have hget := hs.get cur.children
  unfold numberElement
  generalize m.strings.get cur.children = r at htext hget
  obtain ⟨str, s₁⟩ := r
  cases str with
  | none =>
    rw [← htext]
    rfl
  | some tmp =>
    obtain ⟨s, hfree, hs'⟩ := hget.free
    rw [← htext]
    refine ⟨s, ?_, hs'⟩
    rw [Option.bind_some, setRule_eq hcell, Option.bind_some, hfree]
    rfl

/-- How many strings the rest of the loop overwrites. -/
def RuleCell.leaksFrom (c : RuleCell) (nodes : List Xml) : Nat :=
  overwrites "location" c.location.isSome nodes + overwrites "interface" c.interface.isSome nodes

theorem RuleCell.leaksFrom_of_other (c : RuleCell) {cur : Xml} (hloc : cur.name ≠ "location")
    (hintf : cur.name ≠ "interface") (nodes : List Xml) :
    c.leaksFrom (cur :: nodes) = c.leaksFrom nodes := by
  unfold leaksFrom
  rw [overwrites, if_neg hloc, overwrites, if_neg hintf]

/-- What the elements `done` make of the rule `c`. Either `strtol` was given a null pointer,
or the rule says what was loaded, every other node is unchanged, and of the live strings
the rule points to some and `lost` are those that were overwritten. -/
def Filled (m : Memory) (rule : Addr) (c : RuleCell) (rest : List Nat) (done : List Xml)
    (loaded : Option Rule) (parsed : Option Memory) : Prop :=
  match loaded with
  | none => parsed = none
  | some r => ∃ c' s lost, parsed = some ⟨m.policies, m.rules.write rule ⟨c', none⟩, s⟩ ∧
      c'.value = r ∧ s.Holds (c'.strs ++ (lost ++ rest)) ∧
      ∀ nodes, c.leaksFrom (done ++ nodes) = lost.length + c'.leaksFrom nodes

theorem numberElement_filled (hcell : m.rules.cell rule = some ⟨c, none⟩)
    (hs : m.strings.Holds (c.strs ++ rest)) {cur : Xml} (hloc : cur.name ≠ "location")
    (hintf : cur.name ≠ "interface") (f : Int → RuleCell → RuleCell) (g : Int → Rule)
    (hvalue : ∀ n, (f n c).value = g n) (hl : ∀ n, (f n c).location = c.location)
    (hi : ∀ n, (f n c).interface = c.interface) :
    Filled m rule c rest [cur]
      ((Xml.nodeListGetString cur.children).map fun tmp => g (strtolInt tmp))
      (numberElement rule cur f m) := by
  have hnum := numberElement_eq hcell hs cur f
  cases hstr : Xml.nodeListGetString cur.children with
  | none =>
    rw [hstr] at hnum
    exact hnum
  | some tmp =>
    rw [hstr] at hnum
    obtain ⟨s, heq, hs'⟩ := hnum
    refine ⟨_, s, [], heq, hvalue _, ?_, fun nodes => ?_⟩
    · unfold RuleCell.strs
      rw [hl, hi]
      exact hs'
    · rw [List.singleton_append, c.leaksFrom_of_other hloc hintf, List.length_nil, Nat.zero_add]
      unfold RuleCell.leaksFrom
      rw [hl, hi]

theorem parseRuleNode_filled (hcell : m.rules.cell rule = some ⟨c, none⟩)
    (hs : m.strings.Holds (c.strs ++ rest)) (cur : Xml) :
    Filled m rule c rest [cur] (loadRuleNode c.value cur) (parseRuleNode rule cur m) := by
  have hget := hs.get cur.children
  have htext := m.strings.get_text cur.children
  have hsome := m.strings.get_isSome cur.children
  unfold loadRuleNode parseRuleNode
  by_cases hloc : cur.name = "location"
  · have hintf : cur.name ≠ "interface" := by rw [hloc]; decide
    rw [if_pos hloc, if_pos hloc]
    refine ⟨_, _, idOf c.location, setRule_eq hcell _ _, ?_, hget.of_perm ?_, fun nodes => ?_⟩
    · unfold RuleCell.value
      rw [← htext]
    · refine List.perm_iff_count.mpr fun id => ?_
      simp only [RuleCell.strs, List.count_append]
      omega
    · simp only [RuleCell.leaksFrom, List.singleton_append, overwrites, if_pos hloc, if_neg hintf,
        hsome, idOf_length]
      omega
  rw [if_neg hloc, if_neg hloc]
  by_cases hcost : cur.name = "cost"
  · have hintf : cur.name ≠ "interface" := by rw [hcost]; decide
    rw [if_pos hcost, if_pos hcost]
    exact numberElement_filled hcell hs hloc hintf (fun n c => { c with cost := n })
      (fun n => { c.value with cost := n }) (fun _ => rfl) (fun _ => rfl) fun _ => rfl
  rw [if_neg hcost, if_neg hcost]
  by_cases hband : cur.name = "bandwidth"
  · have hintf : cur.name ≠ "interface" := by rw [hband]; decide
    rw [if_pos hband, if_pos hband]
    exact numberElement_filled hcell hs hloc hintf (fun n c => { c with bandwidth := n })
      (fun n => { c.value with bandwidth := n }) (fun _ => rfl) (fun _ => rfl) fun _ => rfl
  rw [if_neg hband, if_neg hband]
  by_cases hintf : cur.name = "interface"
  · rw [if_pos hintf, if_pos hintf]
    refine ⟨_, _, idOf c.interface, setRule_eq hcell _ _, ?_, hget.of_perm ?_, fun nodes => ?_⟩
    · unfold RuleCell.value
      rw [← htext]
    · refine List.perm_iff_count.mpr fun id => ?_
      simp only [RuleCell.strs, List.count_append]
      omega
    · simp only [RuleCell.leaksFrom, List.singleton_append, overwrites, if_pos hintf, if_neg hloc,
        hsome, idOf_length]
      omega
  · rw [if_neg hintf, if_neg hintf]
    refine ⟨c, m.strings, [], ?_, rfl, hs, fun nodes => ?_⟩
    · rw [Heap.write_self hcell]
    · rw [List.singleton_append, c.leaksFrom_of_other hloc hintf, List.length_nil, Nat.zero_add]

theorem parseRules_filled (nodes : List Xml) {m : Memory} {c : RuleCell} {rest : List Nat}
    (hcell : m.rules.cell rule = some ⟨c, none⟩) (hs : m.strings.Holds (c.strs ++ rest)) :
    Filled m rule c rest nodes (loadRules nodes c.value) (parseRules rule nodes m) := by
  induction nodes generalizing m c rest with
  | nil =>
    refine ⟨c, m.strings, [], ?_, rfl, hs, fun nodes => (Nat.zero_add _).symm⟩
    rw [Heap.write_self hcell]
    rfl
  | cons cur nodes ih =>
    have hround := parseRuleNode_filled hcell hs cur
    unfold loadRules parseRules
    cases hload : loadRuleNode c.value cur with
    | none =>
      rw [hload] at hround
      rw [show parseRuleNode rule cur m = none from hround]
      rfl
    | some r =>
      rw [hload] at hround
      obtain ⟨c₁, s₁, lost₁, heq, rfl, hs₁, hcount₁⟩ := hround
      rw [heq, Option.bind_some, Option.bind_some]
      have hrest := ih (m := ⟨m.policies, m.rules.write rule ⟨c₁, none⟩, s₁⟩)
        (Heap.write_cell_self _ _ _) hs₁
      cases hload' : loadRules nodes c₁.value with
      | none =>
        rw [hload'] at hrest
        exact hrest
      | some r' =>
        rw [hload'] at hrest
        obtain ⟨c₂, s₂, lost₂, heq₂, hvalue, hs₂, hcount₂⟩ := hrest
        refine ⟨c₂, s₂, lost₂ ++ lost₁, ?_, hvalue, ?_, fun more => ?_⟩
        · rw [heq₂, Heap.write_write]
        · rw [List.append_assoc]
          exact hs₂
        · have h₁ := hcount₁ (nodes ++ more)
          have h₂ := hcount₂ more
          rw [List.singleton_append] at h₁
          rw [List.cons_append, List.length_append]
          omega

end RuleLoop

end Manhattan.Sined.PolicyLoad
