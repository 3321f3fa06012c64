import Mathlib.Data.List.Forall2
import Manhattan.Sined.PolicyMemory

/-!
# Documents and the policies they load

Three results about whole calls of `parse_policies`, each for every memory in order and every
choice of the allocator.

`load_of_rendering`: a document that renders a list of policies loads as that list. A
rendering has exactly one element for every field that is present and none for the others,
in any order and with anything else between them.

`failed_load_iff`: the old list is freed before the file is looked at, so a load that fails
leaves the list as it was exactly where it was empty.

`load_safe_iff`: `strtol` is given a null pointer by an empty `cost` or `bandwidth`, and a
string is lost where `location`, `interface` or `appDesc` is repeated after one with content.
On every other document the call returns and loses nothing.
-/

namespace Manhattan.Sined.PolicyLoad

open Manhattan.Lib

/-- The allocators that take the lowest free addresses. -/
def Mallocs.firstFit : Mallocs := ⟨Malloc.firstFit _, Malloc.firstFit _⟩

/-! ## Rendering -/

/-- A rule as an author of policies sees it. -/
structure RuleSpec where
  location : Option String
  bandwidth : Option Int
  cost : Option Int
  interface : Option String
  deriving DecidableEq, Repr

structure PolicySpec where
  appDesc : Option String
  rules : List RuleSpec
  deriving DecidableEq, Repr

/-- The numbers of the rule fit an `int`. -/
def RuleSpec.Ints (r : RuleSpec) : Prop :=
  ∀ n, n ∈ r.bandwidth ∨ n ∈ r.cost → -2 ^ 31 ≤ n ∧ n < 2 ^ 31

/-- The rule with its number. Absent numbers are -1. -/
def RuleSpec.numbered (r : RuleSpec) (ruleID : Nat) : Rule :=
  ⟨ruleID, r.location, r.bandwidth.getD (-1), r.cost.getD (-1), r.interface⟩

/-- The rules are numbered 1, 2, ... -/
def PolicySpec.numbered (p : PolicySpec) : Policy :=
  ⟨p.appDesc, p.rules.mapIdx fun i r => r.numbered (i + 1)⟩

/-- The children with this name. -/
def named (name : String) (nodes : List Xml) : List Xml := nodes.filter (·.name = name)

/-- The field is rendered by one element with its text, or it is absent and so is the
element. -/
def RendersText (name : String) (value : Option String) (nodes : List Xml) : Prop :=
  match value with
  | none => named name nodes = []
  | some text => ∃ cur, named name nodes = [cur] ∧ Xml.nodeListGetString cur.children = some text

def RendersNumber (name : String) (value : Option Int) (nodes : List Xml) : Prop :=
  RendersText name (value.map fun n => String.ofList (decimal n)) nodes

structure RendersRule (r : RuleSpec) (nodes : List Xml) : Prop where
  location : RendersText "location" r.location nodes
  bandwidth : RendersNumber "bandwidth" r.bandwidth nodes
  cost : RendersNumber "cost" r.cost nodes
  interface : RendersText "interface" r.interface nodes

structure RendersPolicy (p : PolicySpec) (nodes : List Xml) : Prop where
  appDesc : RendersText "appDesc" p.appDesc nodes
  rules : List.Forall₂ (fun r cur => RendersRule r cur.children) p.rules (named "rule" nodes)

/-- The children of `UserPolicies` render the policies. -/
def RendersPolicies (ps : List PolicySpec) (nodes : List Xml) : Prop :=
  List.Forall₂ (fun p cur => RendersPolicy p cur.children) ps (named "policy" nodes)

theorem named_cons_self {name : String} {cur : Xml} (h : cur.name = name) (nodes : List Xml) :
    named name (cur :: nodes) = cur :: named name nodes :=
  List.filter_cons_of_pos (by simpa using h)

theorem named_cons_ne {name : String} {cur : Xml} (h : cur.name ≠ name) (nodes : List Xml) :
    named name (cur :: nodes) = named name nodes :=
  List.filter_cons_of_neg (by simpa using h)

namespace RendersText

variable {name : String} {value : Option String} {cur : Xml} {nodes : List Xml}

/-- The element of the field: there is no other one behind it. -/
theorem cons_self (h : RendersText name value (cur :: nodes)) (hname : cur.name = name) :
    value = Xml.nodeListGetString cur.children ∧ value.isSome ∧ RendersText name none nodes := by
  unfold RendersText at h
  rw [named_cons_self hname] at h
  cases value with
  | none => exact absurd h (List.cons_ne_nil _ _)
  | some text =>
    obtain ⟨cur', hlist, htext⟩ := h
    rw [List.cons.injEq] at hlist
    exact ⟨hlist.1 ▸ htext.symm, rfl, hlist.2⟩

theorem eq_none_of_nil (h : RendersText name value []) : value = none := by
  cases value with
  | none => rfl
  | some text =>
    obtain ⟨cur, hlist, -⟩ := h
    cases hlist

/-- Other elements do not matter. -/
theorem cons_ne (h : RendersText name value (cur :: nodes)) (hname : cur.name ≠ name) :
    RendersText name value nodes := by
  unfold RendersText at h ⊢
  rwa [named_cons_ne hname] at h

end RendersText

/-- The element of a number: `strtol` reads it back. -/
theorem RendersNumber.cons_self {name : String} {value : Option Int} {cur : Xml}
    {nodes : List Xml} (h : RendersNumber name value (cur :: nodes)) (hname : cur.name = name)
    (hint : ∀ n ∈ value, -2 ^ 31 ≤ n ∧ n < 2 ^ 31) :
    ∃ n text, value = some n ∧ Xml.nodeListGetString cur.children = some text ∧
      strtolInt text = n ∧ RendersNumber name none nodes := by
  obtain ⟨htext, hsome, hnone⟩ := RendersText.cons_self h hname
  cases value with
  | none => cases hsome
  | some n => exact ⟨n, _, rfl, htext.symm, strtolInt_decimal (hint n rfl), hnone⟩

/-- The fields that are present replace those of the rule. -/
def RuleSpec.fill (r : RuleSpec) (rule : Rule) : Rule :=
  ⟨rule.ruleID, r.location.or rule.location, r.bandwidth.getD rule.bandwidth,
    r.cost.getD rule.cost, r.interface.or rule.interface⟩

/-- The loop of `parse_rules` on a rendering, from any rule. -/
theorem loadRules_of_renders {nodes : List Xml} {r : RuleSpec} (h : RendersRule r nodes)
    (hint : r.Ints) (rule : Rule) : loadRules nodes rule = some (r.fill rule) := by
  induction nodes generalizing r rule with
  | nil =>
    obtain ⟨location, bandwidth, cost, interface⟩ := r
    cases h.location.eq_none_of_nil
    cases Option.map_eq_none_iff.mp (RendersText.eq_none_of_nil h.bandwidth)
    cases Option.map_eq_none_iff.mp (RendersText.eq_none_of_nil h.cost)
    cases h.interface.eq_none_of_nil
    rfl
  | cons cur nodes ih =>
    unfold loadRules loadRuleNode
    -- the fields of other names are all still to come
    have hother : ∀ {name value}, RendersText name value (cur :: nodes) → cur.name ≠ name →
        RendersText name value nodes := fun h hne => h.cons_ne hne
    by_cases hloc : cur.name = "location"
    · obtain ⟨htext, hsome, hnone⟩ := h.location.cons_self hloc
      have hrest : RendersRule { r with location := none } nodes :=
        ⟨hnone, hother h.bandwidth (by rw [hloc]; decide), hother h.cost (by rw [hloc]; decide),
          hother h.interface (by rw [hloc]; decide)⟩
      rw [if_pos hloc, Option.bind_some, ih hrest hint, ← htext]
      obtain ⟨text, htext⟩ := Option.isSome_iff_exists.mp hsome
      simp only [RuleSpec.fill, htext, Option.none_or, Option.some_or]
    rw [if_neg hloc]
    by_cases hcost : cur.name = "cost"
    · obtain ⟨n, text, hn, htext, hread, hnone⟩ :=
        h.cost.cons_self hcost fun n hn => hint n (Or.inr hn)
      have hrest : RendersRule { r with cost := none } nodes :=
        ⟨hother h.location hloc, hother h.bandwidth (by rw [hcost]; decide), hnone,
          hother h.interface (by rw [hcost]; decide)⟩
      have hint' : RuleSpec.Ints { r with cost := none } :=
        fun n hn => hint n (hn.imp_right fun h => absurd h (Option.not_mem_none n))
      rw [if_pos hcost, htext, Option.map_some, Option.bind_some, ih hrest hint', hread]
      simp only [RuleSpec.fill, hn, Option.getD_none, Option.getD_some]
    rw [if_neg hcost]
    by_cases hband : cur.name = "bandwidth"
    · obtain ⟨n, text, hn, htext, hread, hnone⟩ :=
        h.bandwidth.cons_self hband fun n hn => hint n (Or.inl hn)
      have hrest : RendersRule { r with bandwidth := none } nodes :=
        ⟨hother h.location hloc, hnone, hother h.cost hcost,
          hother h.interface (by rw [hband]; decide)⟩
      have hint' : RuleSpec.Ints { r with bandwidth := none } :=
        fun n hn => hint n (hn.imp_left fun h => absurd h (Option.not_mem_none n))
      rw [if_pos hband, htext, Option.map_some, Option.bind_some, ih hrest hint', hread]
      simp only [RuleSpec.fill, hn, Option.getD_none, Option.getD_some]
    rw [if_neg hband]
    by_cases hintf : cur.name = "interface"
    · obtain ⟨htext, hsome, hnone⟩ := h.interface.cons_self hintf
      have hrest : RendersRule { r with interface := none } nodes :=
        ⟨hother h.location hloc, hother h.bandwidth hband, hother h.cost hcost, hnone⟩
      rw [if_pos hintf, Option.bind_some, ih hrest hint, ← htext]
      obtain ⟨text, htext⟩ := Option.isSome_iff_exists.mp hsome
      simp only [RuleSpec.fill, htext, Option.none_or, Option.some_or]
    · have hrest : RendersRule r nodes :=
        ⟨hother h.location hloc, hother h.bandwidth hband, hother h.cost hcost,
          hother h.interface hintf⟩
      rw [if_neg hintf, Option.bind_some, ih hrest hint]

theorem RuleSpec.fill_blankRule (r : RuleSpec) (ruleID : Nat) :
    r.fill (blankRule ruleID) = r.numbered ruleID := by
  simp only [fill, blankRule, numbered, Option.or_none]

/-- The loop of `parse_policy` on a rendering, from any policy. -/
theorem loadPolicy_of_renders {nodes : List Xml} {p : PolicySpec} (h : RendersPolicy p nodes)
    (hint : ∀ r ∈ p.rules, r.Ints) (policy : Policy) :
    loadPolicy nodes policy = some ⟨p.appDesc.or policy.appDesc,
      policy.rules ++ p.rules.mapIdx fun i r => r.numbered (policy.rules.length + i + 1)⟩ := by
  induction nodes generalizing p policy with
  | nil =>
    obtain ⟨appDesc, rules⟩ := p
    cases h.appDesc.eq_none_of_nil
    cases h.rules
    simp only [loadPolicy, Option.none_or, List.mapIdx_nil, List.append_nil]
  | cons cur nodes ih =>
    unfold loadPolicy
    by_cases happ : cur.name = "appDesc"
    · obtain ⟨htext, hsome, hnone⟩ := h.appDesc.cons_self happ
      have hrules := h.rules
      rw [named_cons_ne (by rw [happ]; decide)] at hrules
      have hrest : RendersPolicy { p with appDesc := none } nodes := ⟨hnone, hrules⟩
      rw [if_pos happ, ih hrest hint, ← htext]
      obtain ⟨text, htext⟩ := Option.isSome_iff_exists.mp hsome
      simp only [htext, Option.none_or, Option.some_or]
    rw [if_neg happ]
    have happDesc := h.appDesc.cons_ne happ
    have hrules := h.rules
    by_cases hrule : cur.name = "rule"
    · rw [named_cons_self hrule] at hrules
      obtain ⟨appDesc, rules⟩ := p
      cases hrules with
      | @cons r _ rules _ hr hrest =>
        have hrule₁ := loadRules_of_renders hr (hint r List.mem_cons_self)
          (blankRule (policy.rules.length + 1))
        rw [if_pos hrule, hrule₁, Option.bind_some, RuleSpec.fill_blankRule,
          ih (p := ⟨appDesc, rules⟩) ⟨happDesc, hrest⟩
            fun r' hr' => hint r' (List.mem_cons_of_mem _ hr')]
        simp only [List.mapIdx_cons, List.append_assoc, List.singleton_append, List.length_append,
          List.length_singleton, Nat.add_zero]
        congr 5
        funext i r'
        congr 1
        omega
    · rw [named_cons_ne hrule] at hrules
      rw [if_neg hrule, ih ⟨happDesc, hrules⟩ hint]

theorem loadPolicies_of_renders {nodes : List Xml} {ps : List PolicySpec}
    (h : RendersPolicies ps nodes) (hint : ∀ p ∈ ps, ∀ r ∈ p.rules, r.Ints) :
    loadPolicies nodes = some (ps.map PolicySpec.numbered) := by
  induction nodes generalizing ps with
  | nil =>
    cases h
    rfl
  | cons cur nodes ih =>
    unfold loadPolicies
    unfold RendersPolicies at h ih
    by_cases hname : cur.name = "policy"
    · rw [named_cons_self hname] at h
      cases h with
      | @cons p _ ps _ hp hrest =>
        have hpolicy := loadPolicy_of_renders hp (hint p List.mem_cons_self) ⟨none, []⟩
        rw [if_pos hname, hpolicy, Option.bind_some,
          ih hrest fun q hq => hint q (List.mem_cons_of_mem _ hq)]
        simp only [PolicySpec.numbered, Option.or_none, List.nil_append, List.length_nil,
          Nat.zero_add, Option.map_some, List.map_cons]
    · rw [named_cons_ne hname] at h
      rw [if_neg hname, ih h hint]

/-- `parse_policies` undoes every rendering, whatever the list held before. -/
theorem load_of_rendering (ps : List PolicySpec) (nodes : List Xml) (h : RendersPolicies ps nodes)
    (hint : ∀ p ∈ ps, ∀ r ∈ p.rules, r.Ints) (malloc : Mallocs) (m : Memory) (hm : m.InOrder) :
    ∃ m', parsePolicies malloc (.rooted "UserPolicies" nodes) m = some m' ∧
      m'.contents = some (ps.map PolicySpec.numbered) := by
  obtain ⟨at₀, lost, hst⟩ := hm
  have hacc := hst.accepted malloc nodes
  rw [loadPolicies_of_renders h hint] at hacc
  obtain ⟨m', ps', lost', heq, hst', hvalue, -⟩ := hacc
  refine ⟨m', heq, ?_⟩
  rw [hst'.contents, hvalue]

/-- A file with comments, unknown elements and a text in two pieces. -/
theorem load_of_rendering_mixed :
    ∃ m', parsePolicies .firstFit (.rooted "UserPolicies" [.comment "mine", .element "policy"
        [.text " ", .element "rule" [.element "cost" [.text "-7"], .comment "cheap",
          .element "location" [.text "ho", .comment "", .text "me"]],
        .element "note" [], .element "appDesc" [.text "vi"]]]) .start = some m' ∧
      m'.contents = some [⟨some "vi", [⟨1, some "home", -1, -7, none⟩]⟩] := by
  refine load_of_rendering [⟨some "vi", [⟨some "home", none, some (-7), none⟩]⟩] _ ?_ ?_
    .firstFit .start ⟨[], [], start_stores⟩
  · exact List.Forall₂.cons
      ⟨⟨_, rfl, rfl⟩, .cons ⟨⟨_, rfl, rfl⟩, rfl, ⟨_, rfl, rfl⟩, rfl⟩ .nil⟩ .nil
  · simp [RuleSpec.Ints]

/-! A rendering with one element for each field that is present. -/

def renderText (name : String) (value : Option String) : List Xml :=
  value.toList.map fun text => .element name [.text text]

def renderNumber (name : String) (value : Option Int) : List Xml :=
  renderText name (value.map fun n => String.ofList (decimal n))

def RuleSpec.render (r : RuleSpec) : Xml :=
  .element "rule" (renderText "location" r.location ++ renderNumber "bandwidth" r.bandwidth ++
    renderNumber "cost" r.cost ++ renderText "interface" r.interface)

def PolicySpec.render (p : PolicySpec) : Xml :=
  .element "policy" (renderText "appDesc" p.appDesc ++ p.rules.map RuleSpec.render)

theorem named_append (name : String) (nodes nodes' : List Xml) :
    named name (nodes ++ nodes') = named name nodes ++ named name nodes' :=
  List.filter_append ..

theorem named_renderText_ne {name name' : String} (h : name' ≠ name) (value : Option String) :
    named name (renderText name' value) = [] := by
  cases value with
  | none => rfl
  | some text =>
    have hname : (Xml.element name' [.text text]).name ≠ name := h
    exact named_cons_ne hname []

theorem rendersText_of_named {name : String} {value : Option String} {nodes : List Xml}
    (h : named name nodes = renderText name value) : RendersText name value nodes := by
  unfold RendersText
  cases value with
  | none => exact h
  | some text => exact ⟨_, h, by simp [Xml.nodeListGetString, Xml.children, Xml.content]⟩

theorem named_renderText_self (name : String) (value : Option String) :
    named name (renderText name value) = renderText name value := by
  cases value with
  | none => rfl
  | some text => exact named_cons_self rfl []

theorem RuleSpec.renders_render (r : RuleSpec) : RendersRule r r.render.children := by
  constructor <;> refine rendersText_of_named ?_ <;>
    simp [RuleSpec.render, Xml.children, named_append, renderNumber, named_renderText_self,
      named_renderText_ne]

theorem named_map {α : Type} {name name' : String} {f : α → Xml} (hf : ∀ x, (f x).name = name')
    (xs : List α) : named name (xs.map f) = if name' = name then xs.map f else [] := by
  unfold named
  split
  · next h =>
    refine List.filter_eq_self.mpr fun cur hcur => ?_
    obtain ⟨x, -, rfl⟩ := List.mem_map.mp hcur
    rw [hf, h, decide_eq_true rfl]
  · next h =>
    refine List.filter_eq_nil_iff.mpr fun cur hcur => ?_
    obtain ⟨x, -, rfl⟩ := List.mem_map.mp hcur
    rw [hf]
    simpa using h

theorem PolicySpec.renders_render (p : PolicySpec) : RendersPolicy p p.render.children := by
  constructor
  · refine rendersText_of_named ?_
    simp [PolicySpec.render, Xml.children, named_append, named_renderText_self,
      named_map (f := RuleSpec.render) (fun _ => rfl)]
  · have hnamed : named "rule" p.render.children = p.rules.map RuleSpec.render := by
      simp [PolicySpec.render, Xml.children, named_append, named_renderText_ne,
        named_map (f := RuleSpec.render) (fun _ => rfl)]
    rw [hnamed, List.forall₂_map_right_iff, List.forall₂_same]
    exact fun r _ => r.renders_render

/-- Every list of policies has a rendering. -/
theorem renders_render (ps : List PolicySpec) :
    RendersPolicies ps (ps.map PolicySpec.render) := by
  unfold RendersPolicies
  rw [named_map (f := PolicySpec.render) (fun _ => rfl), if_pos rfl, List.forall₂_map_right_iff,
    List.forall₂_same]
  exact fun p _ => p.renders_render

/-! ## Loads that fail -/

/-- A load that fails leaves the list alone exactly where there was nothing in it. -/
theorem failed_load_iff {m : Memory} (hm : m.InOrder) (malloc : Mallocs) {doc : Document}
    (hdoc : doc.accepted = false) :
    (∃ m', parsePolicies malloc doc m = some m' ∧ m'.contents = m.contents) ↔
      m.contents = some [] := by
  obtain ⟨ps, lost, hst⟩ := hm
  obtain ⟨m₁, heq, hst₁⟩ := hst.rejected malloc hdoc
  constructor
  · intro ⟨m', heq', hsame⟩
    cases heq.symm.trans heq'
    rw [← hsame, hst₁.contents]
    rfl
  · intro hempty
    refine ⟨m₁, heq, ?_⟩
    rw [hempty, hst₁.contents]
    rfl

/-- Policies for the editor; then the file cannot be parsed. -/
theorem failed_load_loses :
    ∃ m m', parsePolicies .firstFit (.rooted "UserPolicies"
        [.element "policy" [.element "appDesc" [.text "/usr/bin/vi"]]]) .start = some m ∧
      m.contents = some [⟨some "/usr/bin/vi", []⟩] ∧
      parsePolicies .firstFit .unparsable m = some m' ∧ m'.contents = some [] :=
  ⟨_, _, rfl, rfl, rfl, rfl⟩

theorem failed_load_iff_start :
    Memory.start.contents = some [] ∧
      ∃ m', parsePolicies .firstFit .empty .start = some m' ∧
        m'.contents = Memory.start.contents :=
  ⟨rfl, (failed_load_iff ⟨[], [], start_stores⟩ .firstFit rfl).mpr rfl⟩

/-! ## Null pointers and lost strings -/

/-- A number without content. -/
def EmptyNumber (nodes : List Xml) : Prop :=
  ∃ cur ∈ nodes, (cur.name = "cost" ∨ cur.name = "bandwidth") ∧ cur.children = []

/-- The element is there with content and there again later. -/
def Repeated (name : String) (nodes : List Xml) : Prop :=
  ∃ first second, [first, second].Sublist nodes ∧ first.name = name ∧ second.name = name ∧
    first.children ≠ []

structure CleanRule (nodes : List Xml) : Prop where
  numbers : ¬ EmptyNumber nodes
  location : ¬ Repeated "location" nodes
  interface : ¬ Repeated "interface" nodes

structure CleanPolicy (nodes : List Xml) : Prop where
  appDesc : ¬ Repeated "appDesc" nodes
  rules : ∀ cur ∈ named "rule" nodes, CleanRule cur.children

/-- No number is empty, and no string is repeated within a rule or a policy. -/
def Clean (nodes : List Xml) : Prop := ∀ cur ∈ named "policy" nodes, CleanPolicy cur.children

theorem repeated_cons_iff (name : String) (cur : Xml) (nodes : List Xml) :
    Repeated name (cur :: nodes) ↔
      (cur.name = name ∧ cur.children ≠ [] ∧ ∃ x ∈ nodes, x.name = name) ∨ Repeated name nodes := by
  unfold Repeated
  constructor
  · intro ⟨first, second, hsub, hfirst, hsecond, hne⟩
    cases hsub with
    | cons _ hsub => exact Or.inr ⟨first, second, hsub, hfirst, hsecond, hne⟩
    | cons_cons _ hsub =>
      exact Or.inl ⟨hfirst, hne, second, List.singleton_sublist.mp hsub, hsecond⟩
  · rintro (⟨hcur, hne, x, hx, hname⟩ | ⟨first, second, hsub, h⟩)
    · exact ⟨cur, x, (List.singleton_sublist.mpr hx).cons_cons cur, hcur, hname, hne⟩
    · exact ⟨first, second, hsub.cons cur, h⟩

/-- Nothing is overwritten: a held string has no element behind it, and none is repeated. -/
theorem overwrites_eq_zero_iff (name : String) (held : Bool) (nodes : List Xml) :
    overwrites name held nodes = 0 ↔
      (held = true → ∀ x ∈ nodes, x.name ≠ name) ∧ ¬ Repeated name nodes := by
  induction nodes generalizing held with
  | nil =>
    refine iff_of_true rfl ⟨fun _ x hx => absurd hx List.not_mem_nil, ?_⟩
    intro h
    obtain ⟨first, second, hsub, _⟩ := h
    cases hsub
  | cons cur nodes ih =>
    rw [overwrites, repeated_cons_iff]
    by_cases hname : cur.name = name
    · rw [if_pos hname, Nat.add_eq_zero_iff, ih]
      have hheld : held.toNat = 0 ↔ held = false := by cases held <;> simp
      have hkeep : ((!cur.children.isEmpty) = true) ↔ cur.children ≠ [] := by
        simp
      rw [hheld, hkeep]
      constructor
      · rintro ⟨rfl, hfirst, hrest⟩
        refine ⟨fun h => absurd h Bool.false_ne_true, ?_⟩
        rintro (⟨-, hne, x, hx, hxn⟩ | h)
        · exact hfirst hne x hx hxn
        · exact hrest h
      · intro h
        obtain ⟨hheld, hnot⟩ := h
        refine ⟨?_, fun hne x hx hxn => hnot (Or.inl ⟨hname, hne, x, hx, hxn⟩),
          fun h => hnot (Or.inr h)⟩
        rw [Bool.eq_false_iff]
        exact fun h => hheld h cur List.mem_cons_self hname
    · rw [if_neg hname, ih]
      constructor
      · intro h
        obtain ⟨hheld, hnot⟩ := h
        refine ⟨fun h x hx => ?_, fun h => h.elim (fun h => hname h.1) hnot⟩
        rcases List.mem_cons.mp hx with rfl | hx
        · exact hname
        · exact hheld h x hx
      · intro h
        obtain ⟨hheld, hnot⟩ := h
        exact ⟨fun h x hx => hheld h x (List.mem_cons_of_mem _ hx), fun h => hnot (Or.inr h)⟩

theorem overwrites_new_eq_zero_iff (name : String) (nodes : List Xml) :
    overwrites name false nodes = 0 ↔ ¬ Repeated name nodes := by
  rw [overwrites_eq_zero_iff]
  exact and_iff_right fun h => absurd h Bool.false_ne_true

theorem loadRuleNode_eq_none_iff (rule : Rule) (cur : Xml) :
    loadRuleNode rule cur = none ↔
      (cur.name = "cost" ∨ cur.name = "bandwidth") ∧ cur.children = [] := by
  unfold loadRuleNode
  by_cases hloc : cur.name = "location"
  · simp [hloc]
  by_cases hcost : cur.name = "cost"
  · simp [hcost, Xml.nodeListGetString_eq_none_iff]
  by_cases hband : cur.name = "bandwidth"
  · simp [hband, Xml.nodeListGetString_eq_none_iff]
  by_cases hintf : cur.name = "interface"
  · simp [hintf]
  · simp [hloc, hcost, hband, hintf]

/-- `parse_rules` comes to its end exactly without an empty number. -/
theorem loadRules_isSome_iff (nodes : List Xml) (rule : Rule) :
    (loadRules nodes rule).isSome ↔ ¬ EmptyNumber nodes := by
  induction nodes generalizing rule with
  | nil =>
    refine iff_of_true rfl ?_
    intro ⟨cur, hcur, _⟩
    exact absurd hcur List.not_mem_nil
  | cons cur nodes ih =>
    have hcons : EmptyNumber (cur :: nodes) ↔
        loadRuleNode rule cur = none ∨ EmptyNumber nodes := by
      rw [loadRuleNode_eq_none_iff]
      simp only [EmptyNumber, List.mem_cons, exists_eq_or_imp]
    rw [hcons, loadRules]
    cases hload : loadRuleNode rule cur with
    | none => simp
    | some rule' => simp [ih rule']

theorem loadPolicy_isSome_iff (nodes : List Xml) (policy : Policy) :
    (loadPolicy nodes policy).isSome ↔
      ∀ cur ∈ named "rule" nodes, ¬ EmptyNumber cur.children := by
  induction nodes generalizing policy with
  | nil => exact iff_of_true rfl fun cur hcur => absurd hcur List.not_mem_nil
  | cons cur nodes ih =>
    unfold loadPolicy
    by_cases happ : cur.name = "appDesc"
    · rw [if_pos happ, ih, named_cons_ne (by rw [happ]; decide)]
    rw [if_neg happ]
    by_cases hrule : cur.name = "rule"
    · have hload := loadRules_isSome_iff cur.children (blankRule (policy.rules.length + 1))
      rw [if_pos hrule, named_cons_self hrule, List.forall_mem_cons, ← hload]
      cases loadRules cur.children (blankRule (policy.rules.length + 1)) with
      | none => simp
      | some rule => simp [ih]
    · rw [if_neg hrule, ih, named_cons_ne hrule]

theorem loadPolicies_isSome_iff (nodes : List Xml) :
    (loadPolicies nodes).isSome ↔ ∀ policy ∈ named "policy" nodes,
      ∀ cur ∈ named "rule" policy.children, ¬ EmptyNumber cur.children := by
  induction nodes with
  | nil => exact iff_of_true rfl fun cur hcur => absurd hcur List.not_mem_nil
  | cons cur nodes ih =>
    unfold loadPolicies
    by_cases hname : cur.name = "policy"
    · have hload := loadPolicy_isSome_iff cur.children ⟨none, []⟩
      rw [if_pos hname, named_cons_self hname, List.forall_mem_cons, ← hload]
      cases loadPolicy cur.children ⟨none, []⟩ with
      | none => simp
      | some policy => simp [ih]
    · rw [if_neg hname, ih, named_cons_ne hname]

theorem leaks_eq_zero_iff (nodes : List Xml) :
    leaks nodes = 0 ↔ ∀ policy ∈ named "policy" nodes, ¬ Repeated "appDesc" policy.children ∧
      ∀ cur ∈ named "rule" policy.children,
        ¬ Repeated "location" cur.children ∧ ¬ Repeated "interface" cur.children := by
  simp only [leaks, policyLeaks, rulesLeaks, ruleLeaks, List.sum_eq_zero_iff_forall_eq_nat,
    List.forall_mem_map, Nat.add_eq_zero_iff, overwrites_new_eq_zero_iff, named]

theorem clean_iff (nodes : List Xml) :
    Clean nodes ↔ (loadPolicies nodes).isSome ∧ leaks nodes = 0 := by
  rw [loadPolicies_isSome_iff, leaks_eq_zero_iff]
  constructor
  · intro h
    exact ⟨fun p hp cur hcur => ((h p hp).rules cur hcur).numbers,
      fun p hp => ⟨(h p hp).appDesc,
        fun cur hcur => ⟨((h p hp).rules cur hcur).location,
          ((h p hp).rules cur hcur).interface⟩⟩⟩
  · intro ⟨hnum, hrep⟩ p hp
    refine ⟨(hrep p hp).1, fun cur hcur => ⟨hnum p hp cur hcur, ?_, ?_⟩⟩
    · exact ((hrep p hp).2 cur hcur).1
    · exact ((hrep p hp).2 cur hcur).2

/-- The call returns and leaks no string exactly on a clean document. -/
theorem load_safe_iff {m : Memory} (hm : m.InOrder) (malloc : Mallocs) (nodes : List Xml) :
    (∃ m', parsePolicies malloc (.rooted "UserPolicies" nodes) m = some m' ∧
      ∀ id, m'.Leaked id → m.Leaked id) ↔ Clean nodes := by
  obtain ⟨ps, lost, hst⟩ := hm
  have hacc := hst.accepted malloc nodes
  rw [clean_iff]
  cases hload : loadPolicies nodes with
  | none =>
    rw [hload] at hacc
    refine iff_of_false ?_ fun h => Bool.false_ne_true h.1
    intro ⟨m', heq, _⟩
    cases heq.symm.trans hacc
  | some policies =>
    rw [hload] at hacc
    obtain ⟨m', ps', lost', heq, hst', -, hcount⟩ := hacc
    have hn := hst'.strings.perm.nodup_iff.mp hst'.strings.nodup
    have hapart := (List.nodup_append.mp (List.nodup_append.mp hn).2.1).2.2
    constructor
    · intro ⟨m₁, heq₁, hleak⟩
      cases heq.symm.trans heq₁
      refine ⟨rfl, ?_⟩
      rw [← hcount, List.length_eq_zero_iff, List.eq_nil_iff_forall_not_mem]
      intro id hid
      have hold := hleak id ((hst'.leaked_iff id).mpr (List.mem_append_left _ hid))
      exact hapart id hid id ((hst.leaked_iff id).mp hold) rfl
    · intro ⟨_, hzero⟩
      rw [← hcount, List.length_eq_zero_iff] at hzero
      refine ⟨m', heq, fun id hid => (hst.leaked_iff id).mpr ?_⟩
      have hid' := (hst'.leaked_iff id).mp hid
      rwa [hzero] at hid'

theorem load_safe_iff_start :
    ∃ m', parsePolicies .firstFit (.rooted "UserPolicies" [.element "policy"
        [.element "rule" [.element "cost" [.text "3"], .element "location" []]]]) .start =
        some m' ∧ ∀ id, m'.Leaked id → Memory.start.Leaked id :=
  (load_safe_iff ⟨[], [], start_stores⟩ .firstFit _).mpr ((clean_iff _).mpr ⟨rfl, rfl⟩)

/-- An empty `cost`; and a rule with two locations. -/
theorem load_unsafe :
    parsePolicies .firstFit (.rooted "UserPolicies"
        [.element "policy" [.element "rule" [.element "cost" []]]]) .start = none ∧
      ∃ m id, parsePolicies .firstFit (.rooted "UserPolicies"
          [.element "policy" [.element "rule" [.element "location" [.text "home"],
            .element "location" [.text "work"]]]]) .start = some m ∧ m.Leaked id := by
  refine ⟨rfl, ?_⟩
  have hacc := start_stores.accepted .firstFit [.element "policy" [.element "rule"
    [.element "location" [.text "home"], .element "location" [.text "work"]]]]
  obtain ⟨m, ps, lost, heq, hst, -, hcount⟩ := hacc
  have hlost : lost.length = 1 := hcount
  obtain ⟨id, rfl⟩ := List.length_eq_one_iff.mp hlost
  exact ⟨m, id, heq, (hst.leaked_iff id).mpr List.mem_cons_self⟩

end Manhattan.Sined.PolicyLoad
