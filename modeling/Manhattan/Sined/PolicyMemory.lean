import Manhattan.Lib.Run
import Manhattan.Sined.PolicyLoad

/-!
# The policy list in memory

Where the nodes of the policies and of their rules lie (`Laid`), what they say (`value`)
and which strings they point to. `parse_policy` extends the list of rules of one policy,
`parse_policies` the list of policies, and `free_policies` takes everything apart; each loop
has its rule here, and the three together are the rule of the whole call:
`Stores.rejected` and `Stores.accepted`.
-/

namespace Manhattan.Sined.PolicyLoad

open Manhattan.Lib

/-! ## The policy loop -/

/-- The strings the rules point to. -/
def rulesStrs (rules : List (Addr × RuleCell)) : List Nat := rules.flatMap (·.2.strs)

theorem rulesStrs_append (rules rules' : List (Addr × RuleCell)) :
    rulesStrs (rules ++ rules') = rulesStrs rules ++ rulesStrs rules' := List.flatMap_append

/-- What the rules say. -/
def rulesValue (rules : List (Addr × RuleCell)) : List Rule := rules.map (·.2.value)

/-- The rules `added` were made behind `rules` for the policy, which has the descriptor
`appDesc` now. Every other node is unchanged, and the strings `lost` are live with no
pointer to them. -/
structure Grown (m m' : Memory) (policy head : Addr) (rules : List (Addr × RuleCell))
    (rest : List Nat) (appDesc : Option Str) (added : List (Addr × RuleCell))
    (lost : List Nat) : Prop where
  policies : m'.policies = m.policies.write policy ⟨⟨appDesc, head⟩, none⟩
  linked : ∃ last, Linked m'.rules head last (rules ++ added)
  frame : ∀ b, m.rules.cell b ≠ none → b ∉ head :: rules.map Prod.fst →
    m'.rules.cell b = m.rules.cell b
  fresh : ∀ n ∈ added, m.rules.cell n.1 = none
  strings : m'.strings.Holds (idOf appDesc ++ rulesStrs (rules ++ added) ++ (lost ++ rest))

section PolicyLoop

variable {m : Memory} {policy head last : Addr} {d : Option Str}
  {rules : List (Addr × RuleCell)} {rest : List Nat}

theorem addRule_spec (hl : Linked m.rules head last rules) (malloc : Mallocs) (ruleID : Nat) :
    ∃ a h, m.addRule malloc last ruleID = some (a, { m with rules := h }) ∧
      m.rules.cell a = none ∧ Linked h head a (rules ++ [(a, ⟨ruleID, none, -1, -1, none⟩)]) ∧
      ∀ b, b ≠ a → b ∉ head :: rules.map Prod.fst → h.cell b = m.rules.cell b := by
  obtain ⟨a, h, hext, hfresh, hl', hframe⟩ := hl.extend malloc.rule ⟨ruleID, none, -1, -1, none⟩
  refine ⟨a, h, ?_, hfresh, hl', hframe⟩
  unfold Memory.addRule
  rw [hext]
  rfl

/-- One element `rule`: a new last rule with what its children say. -/
theorem parseRule_spec (hl : Linked m.rules head last rules)
    (hs : m.strings.Holds (idOf d ++ rulesStrs rules ++ rest)) (malloc : Mallocs) (cur : Xml) :
    match loadRules cur.children (blankRule (rules.length + 1)) with
    | none => ∃ r, m.addRule malloc last (rules.length + 1) = some r ∧
        parseRules r.1 cur.children r.2 = none
    | some rule => ∃ a c h s lost, m.addRule malloc last (rules.length + 1) =
          some (a, { m with rules := h }) ∧
        parseRules a cur.children { m with rules := h } =
          some ⟨m.policies, h.write a ⟨c, none⟩, s⟩ ∧ c.value = rule ∧
        m.rules.cell a = none ∧ Linked (h.write a ⟨c, none⟩) head a (rules ++ [(a, c)]) ∧
        (∀ b, b ≠ a → b ∉ head :: rules.map Prod.fst →
          (h.write a ⟨c, none⟩).cell b = m.rules.cell b) ∧
        s.Holds (idOf d ++ rulesStrs (rules ++ [(a, c)]) ++ (lost ++ rest)) ∧
        lost.length = ruleLeaks cur.children := by
  obtain ⟨a, h, hadd, hfresh, hl', hframe⟩ := addRule_spec hl malloc (rules.length + 1)
  have hstart : m.strings.Holds (RuleCell.strs ⟨(rules.length + 1 : Nat), none, -1, -1, none⟩ ++
      (idOf d ++ rulesStrs rules ++ rest)) := hs
  have hfill := parseRules_filled cur.children (m := { m with rules := h }) hl'.cell_last hstart
  have hblank : RuleCell.value ⟨(rules.length + 1 : Nat), none, -1, -1, none⟩ =
    blankRule (rules.length + 1) := rfl
  rw [hblank] at hfill
  rw [hadd]
  cases hload : loadRules cur.children (blankRule (rules.length + 1)) with
  | none =>
    rw [hload] at hfill
    exact ⟨_, rfl, hfill⟩
  | some rule =>
    rw [hload] at hfill
    obtain ⟨c, s, lost, heq, hvalue, hs', hcount⟩ := hfill
    refine ⟨a, c, h, s, lost, rfl, heq, hvalue, hfresh, hl'.store_last c, ?_, hs'.of_perm ?_, ?_⟩
    · intro b hb hb'
      rw [Heap.write_cell_ne _ _ hb, hframe b hb hb']
    · rw [rulesStrs_append, rulesStrs, rulesStrs, List.flatMap_singleton]
      refine List.perm_iff_count.mpr fun id => ?_
      simp only [List.count_append]
      omega
    · have hc := hcount []
      rw [List.append_nil] at hc
      exact hc.symm

/-- The new descriptor is made and the old one, if any, loses its pointer. -/
theorem setAppDesc_spec (hp : m.policies.cell policy = some ⟨⟨d, head⟩, none⟩)
    (hs : m.strings.Holds (idOf d ++ rulesStrs rules ++ rest)) (cur : Xml) :
    { m with strings := (m.strings.get cur.children).2 }.setAppDesc policy
        (m.strings.get cur.children).1 =
      some ⟨m.policies.write policy ⟨⟨(m.strings.get cur.children).1, head⟩, none⟩, m.rules,
        (m.strings.get cur.children).2⟩ ∧
    (m.strings.get cur.children).2.Holds
      (idOf (m.strings.get cur.children).1 ++ rulesStrs rules ++ (idOf d ++ rest)) := by
  constructor
  · unfold Memory.setAppDesc
    rw [hp]
    rfl
  · refine (hs.get cur.children).of_perm (List.perm_iff_count.mpr fun id => ?_)
    simp only [List.count_append]
    omega

/-- First one rule, then the rest of the loop. -/
theorem Grown.of_rule {m₁ m' : Memory} {a : Addr} {c : RuleCell} {d' : Option Str}
    {added : List (Addr × RuleCell)} {lost lost₁ : List Nat}
    (hg : Grown m₁ m' policy head (rules ++ [(a, c)]) (lost₁ ++ rest) d' added lost)
    (hfresh : m.rules.cell a = none) (hp : m₁.policies = m.policies)
    (hl : Linked m₁.rules head a (rules ++ [(a, c)]))
    (hframe : ∀ b, b ≠ a → b ∉ head :: rules.map Prod.fst → m₁.rules.cell b = m.rules.cell b) :
    Grown m m' policy head rules rest d' ((a, c) :: added) (lost ++ lost₁) := by
  have happend : rules ++ (a, c) :: added = rules ++ [(a, c)] ++ added :=
    List.append_cons rules (a, c) added
  have hkeys : head :: (rules ++ [(a, c)]).map Prod.fst = head :: rules.map Prod.fst ++ [a] := by
    rw [List.map_append]
    rfl
  constructor
  case policies => rw [hg.policies, hp]
  case linked =>
    rw [happend]
    exact hg.linked
  case frame =>
    intro b hb hb'
    have hne : b ≠ a := fun e => hb (e ▸ hfresh)
    have hsame := hframe b hne hb'
    rw [hg.frame b (hsame ▸ hb) ?_, hsame]
    rw [hkeys, List.mem_append, List.mem_singleton]
    exact fun h => h.elim hb' hne
  case fresh =>
    intro n hn
    rcases List.mem_cons.mp hn with rfl | hn
    · exact hfresh
    · -- an old node is still there when the later rules are made
      by_contra hold
      have hfree := hg.fresh n hn
      by_cases hm : n.1 ∈ head :: rules.map Prod.fst
      · refine hl.allocated ?_ hfree
        rw [hkeys]
        exact List.mem_append_left _ hm
      · rw [hframe n.1 (fun e => hold (e ▸ hfresh)) hm] at hfree
        exact hold hfree
  case strings =>
    rw [happend, List.append_assoc lost]
    exact hg.strings

/-- `parse_policy` from any point of its loop. -/
theorem parsePolicyLoop_spec (malloc : Mallocs) (nodes : List Xml) {m : Memory} {last : Addr}
    {d : Option Str} {rules : List (Addr × RuleCell)} {rest : List Nat}
    (hp : m.policies.cell policy = some ⟨⟨d, head⟩, none⟩) (hl : Linked m.rules head last rules)
    (hs : m.strings.Holds (idOf d ++ rulesStrs rules ++ rest)) :
    match loadPolicy nodes ⟨d.map Str.text, rulesValue rules⟩ with
    | none => parsePolicyLoop malloc policy nodes last rules.length m = none
    | some p => ∃ m' d' added lost,
        parsePolicyLoop malloc policy nodes last rules.length m = some m' ∧
        Grown m m' policy head rules rest d' added lost ∧
        (⟨d'.map Str.text, rulesValue (rules ++ added)⟩ : Policy) = p ∧
        lost.length = overwrites "appDesc" d.isSome nodes + rulesLeaks nodes := by
  induction nodes generalizing m last d rules rest with
  | nil =>
    refine ⟨m, d, [], [], rfl, ⟨?_, ⟨last, ?_⟩, fun _ _ _ => rfl, ?_, ?_⟩, ?_, rfl⟩
    · rw [Heap.write_self hp]
    · rw [List.append_nil]
      exact hl
    · exact fun n hn => absurd hn List.not_mem_nil
    · rw [List.append_nil]
      exact hs
    · rw [List.append_nil]
  | cons cur nodes ih =>
    unfold loadPolicy parsePolicyLoop overwrites
    by_cases happ : cur.name = "appDesc"
    · -- a new descriptor
      have hrule : ¬ cur.name = "rule" := by rw [happ]; decide
      obtain ⟨hset, hs₁⟩ := setAppDesc_spec hp hs cur
      rw [if_pos happ, if_pos happ, if_pos happ, hset, Option.bind_some,
        rulesLeaks_cons_ne nodes hrule, ← m.strings.get_text, ← m.strings.get_isSome]
      generalize m.strings.get cur.children = r at hs₁
      obtain ⟨str, s₁⟩ := r
      have hrest := ih (m := ⟨m.policies.write policy ⟨⟨str, head⟩, none⟩, m.rules, s₁⟩)
        (m.policies.write_cell_self policy _) hl hs₁
      split at hrest
      · next hload =>
        rw [hload]
        exact hrest
      · next p hload =>
        rw [hload]
        obtain ⟨m', d', added, lost, heq, hgrown, hvalue, hcount⟩ := hrest
        refine ⟨m', d', added, lost ++ idOf d, heq, ⟨?_, hgrown.linked, hgrown.frame,
          hgrown.fresh, ?_⟩, hvalue, ?_⟩
        · rw [hgrown.policies, Heap.write_write]
        · rw [List.append_assoc lost]
          exact hgrown.strings
        · show (lost ++ idOf d).length =
            d.isSome.toNat + overwrites "appDesc" str.isSome nodes + rulesLeaks nodes
          rw [List.length_append, hcount, idOf_length]
          omega
    rw [if_neg happ, if_neg happ, if_neg happ]
    by_cases hrule : cur.name = "rule"
    · -- a new rule
      have hlen : (rulesValue rules).length = rules.length := List.length_map _
      have hround := parseRule_spec hl hs malloc cur
      rw [if_pos hrule, if_pos hrule, rulesLeaks_cons_self nodes hrule, hlen]
      cases hload : loadRules cur.children (blankRule (rules.length + 1)) with
      | none =>
        rw [hload] at hround
        obtain ⟨r, hadd, hparse⟩ := hround
        rw [hadd, Option.bind_some, hparse]
        rfl
      | some rule =>
        rw [hload] at hround
        obtain ⟨a, c, h, s, lost₁, hadd, hparse, rfl, hfresh, hl₁, hframe₁, hs₁, hcount₁⟩ := hround
        have hlen₁ : (rules ++ [(a, c)]).length = rules.length + 1 := List.length_append
        have hval₁ : rulesValue (rules ++ [(a, c)]) = rulesValue rules ++ [c.value] :=
          List.map_append
        rw [hadd, Option.bind_some, Option.bind_some, hparse, Option.bind_some]
        have hrest := ih (m := ⟨m.policies, h.write a ⟨c, none⟩, s⟩) hp hl₁ hs₁
        rw [hlen₁, hval₁] at hrest
        split at hrest
        · next hload' =>
          rw [hload']
          exact hrest
        · next p hload' =>
          rw [hload']
          obtain ⟨m', d', added, lost, heq, hgrown, hvalue, hcount⟩ := hrest
          have happend : rules ++ (a, c) :: added = rules ++ [(a, c)] ++ added :=
            (List.append_cons rules (a, c) added)
          refine ⟨m', d', (a, c) :: added, lost ++ lost₁, heq,
            hgrown.of_rule hfresh rfl hl₁ hframe₁, ?_, ?_⟩
          · rw [happend]
            exact hvalue
          · rw [List.length_append, hcount, hcount₁]
            omega
    · rw [if_neg hrule, if_neg hrule, rulesLeaks_cons_ne nodes hrule]
      exact ih hp hl hs

end PolicyLoop

/-! ## Where everything lies -/

/-- A policy in memory: its node, the head of its rules and the nodes of the rules. -/
structure PolicyAt where
  addr : Addr
  appDesc : Option Str
  ruleList : Addr
  rules : List (Addr × RuleCell)
  deriving DecidableEq, Repr

namespace PolicyAt

def node (p : PolicyAt) : Addr × PolicyCell := (p.addr, ⟨p.appDesc, p.ruleList⟩)

def ruleAddrs (p : PolicyAt) : List Addr := p.ruleList :: p.rules.map Prod.fst

/-- What the policy says. -/
def value (p : PolicyAt) : Policy := ⟨p.appDesc.map Str.text, rulesValue p.rules⟩

/-- The strings the policy and its rules point to. -/
def strs (p : PolicyAt) : List Nat := idOf p.appDesc ++ rulesStrs p.rules

end PolicyAt

/-- The list of policies in memory, with its last node. No node belongs to two lists. -/
structure Laid (m : Memory) (tail : Addr) (ps : List PolicyAt) : Prop where
  policies : Linked m.policies policyList tail (ps.map PolicyAt.node)
  rules : ∀ p ∈ ps, ∃ last, Linked m.rules p.ruleList last p.rules
  apart : (ps.flatMap PolicyAt.ruleAddrs).Nodup

def strsOf (ps : List PolicyAt) : List Nat := ps.flatMap PolicyAt.strs

theorem strsOf_append (ps ps' : List PolicyAt) : strsOf (ps ++ ps') = strsOf ps ++ strsOf ps' :=
  List.flatMap_append

/-- The policies as a walk over the list finds them (`dump_policies`, `evaluate`). -/
def Memory.contents (m : Memory) : Option (List Policy) :=
  (m.policies.toList policyList).bind fun cells => cells.mapM fun c =>
    (m.rules.toList c.ruleList).map fun rules =>
      ⟨c.appDesc.map Str.text, rules.map RuleCell.value⟩

theorem Laid.contents {m : Memory} {tail : Addr} {ps : List PolicyAt} (h : Laid m tail ps) :
    m.contents = some (ps.map PolicyAt.value) := by
  unfold Memory.contents
  rw [h.policies.toList, Option.bind_some, List.map_map]
  have hrules := h.rules
  clear h
  induction ps with
  | nil => rfl
  | cons p ps ih =>
    obtain ⟨last, hl⟩ := hrules p List.mem_cons_self
    have hrest := ih fun q hq => hrules q (List.mem_cons_of_mem _ hq)
    rw [List.map_cons, List.mapM_cons, hrest]
    show (Option.map _ (m.rules.toList p.ruleList) >>= _) = _
    rw [hl.toList, Option.map_some, List.map_map]
    rfl

/-! ## The free loops -/

/-- The inner loop frees the rules and their strings and touches nothing else. -/
theorem freeRules_spec {head : Addr} (rules : List (Addr × RuleCell)) :
    ∀ {fuel : Nat} {m : Memory} {tail : Addr} {rest : List Nat},
      Linked m.rules head tail rules → m.strings.Holds (rulesStrs rules ++ rest) →
      rules.length < fuel →
      ∃ h s, freeRules head fuel m = some ⟨m.policies, h, s⟩ ∧ s.Holds rest ∧
        ∀ b, b ∉ head :: rules.map Prod.fst → h.cell b = m.rules.cell b := by
  induction rules with
  | nil =>
    intro fuel m tail rest hl hs hf
    obtain ⟨fuel, rfl⟩ : ∃ n, fuel = n + 1 := ⟨fuel - 1, by omega⟩
    refine ⟨m.rules, m.strings, ?_, hs, fun _ _ => rfl⟩
    unfold freeRules
    rw [hl.next_nil]
    rfl
  | cons rule rules ih =>
    intro fuel m tail rest hl hs hf
    rw [List.length_cons] at hf
    obtain ⟨fuel, rfl⟩ : ∃ n, fuel = n + 1 := ⟨fuel - 1, by omega⟩
    obtain ⟨a, c⟩ := rule
    obtain ⟨next, h, hhead, hcell, hset, hl', hframe⟩ := hl.unlink
    have hsplit : rulesStrs ((a, c) :: rules) ++ rest =
        idOf c.location ++ (idOf c.interface ++ (rulesStrs rules ++ rest)) := by
      simp only [rulesStrs, List.flatMap_cons, RuleCell.strs, List.append_assoc]
    rw [hsplit] at hs
    obtain ⟨s₁, hfree₁, hs₁⟩ := hs.freeIf
    obtain ⟨s₂, hfree₂, hs₂⟩ := hs₁.freeIf
    obtain ⟨h', s', heq, hs', hframe'⟩ :=
      ih (m := ⟨m.policies, h.free a, s₂⟩) hl' hs₂ (show rules.length < fuel by omega)
    refine ⟨h', s', ?_, hs', fun b hb => ?_⟩
    · unfold freeRules
      simp only [hhead, hcell, hfree₁, hfree₂, hset, Option.bind_some]
      exact heq
    · simp only [List.map_cons, List.mem_cons, not_or] at hb
      have hb' : b ∉ head :: rules.map Prod.fst := by
        rw [List.mem_cons, not_or]
        exact ⟨hb.1, hb.2.2⟩
      exact (hframe' b hb').trans (hframe b hb.1 hb.2.1)

/-- The rules of the other policies do not lie in the first one. -/
theorem Laid.not_mem_of_tail {m : Memory} {tail : Addr} {p q : PolicyAt} {ps : List PolicyAt}
    (h : Laid m tail (p :: ps)) (hq : q ∈ ps) {b : Addr} (hb : b ∈ q.ruleAddrs) :
    b ∉ p.ruleAddrs := by
  have hn := h.apart
  rw [List.flatMap_cons, List.nodup_append] at hn
  intro hp
  exact hn.2.2 b hp b (List.mem_flatMap.mpr ⟨q, hq, hb⟩) rfl

theorem freeLoop_spec (ps : List PolicyAt) :
    ∀ {fuel : Nat} {m : Memory} {tail : Addr} {rest : List Nat},
      Laid m tail ps → m.strings.Holds (strsOf ps ++ rest) → ps.length < fuel →
      ∃ m', freeLoop fuel m = some m' ∧ Laid m' policyList [] ∧ m'.strings.Holds rest := by
  induction ps with
  | nil =>
    intro fuel m tail rest hl hs hf
    obtain ⟨fuel, rfl⟩ : ∃ n, fuel = n + 1 := ⟨fuel - 1, by omega⟩
    have htail : tail = policyList := hl.policies.last
    refine ⟨m, ?_, htail ▸ hl, hs⟩
    unfold freeLoop
    rw [Linked.next_nil hl.policies]
    rfl
  | cons p ps ih =>
    intro fuel m tail rest hl hs hf
    rw [List.length_cons] at hf
    obtain ⟨fuel, rfl⟩ : ∃ n, fuel = n + 1 := ⟨fuel - 1, by omega⟩
    obtain ⟨next, h, hhead, hcell, hset, hl', -⟩ := Linked.unlink hl.policies
    have hsplit : strsOf (p :: ps) ++ rest =
        idOf p.appDesc ++ (rulesStrs p.rules ++ (strsOf ps ++ rest)) := by
      simp only [strsOf, List.flatMap_cons, PolicyAt.strs, List.append_assoc]
    rw [hsplit] at hs
    obtain ⟨s₁, hfree, hs₁⟩ := hs.freeIf
    obtain ⟨last, hrules⟩ := hl.rules p List.mem_cons_self
    obtain ⟨dummy, hchain⟩ := hrules.chain
    have hlen := hchain.length_le hrules.nodup
    rw [List.length_cons] at hlen
    obtain ⟨h₂, s₂, heq, hs₂, hframe⟩ := freeRules_spec p.rules
      (m := { m with strings := s₁ }) hrules hs₁
      (show p.rules.length < m.rules.limit + 1 by omega)
    have hlaid : Laid ⟨h.free p.addr, h₂.free p.ruleList, s₂⟩
        (((ps.map PolicyAt.node).map Prod.fst).getLastD policyList) ps := by
      refine ⟨hl', fun q hq => ?_, ?_⟩
      · obtain ⟨last, hq'⟩ := hl.rules q (List.mem_cons_of_mem _ hq)
        refine ⟨last, hq'.frame fun b hb => ?_⟩
        have hb' := hl.not_mem_of_tail hq hb
        have hne : b ≠ p.ruleList := fun e => hb' (e ▸ List.mem_cons_self)
        exact (Heap.free_cell_ne _ hne).trans (hframe b hb')
      · have hn := hl.apart
        rw [List.flatMap_cons, List.nodup_append] at hn
        exact hn.2.1
    obtain ⟨m', heq', hl'', hs'⟩ := ih hlaid hs₂ (show ps.length < fuel by omega)
    refine ⟨m', ?_, hl'', hs'⟩
    unfold freeLoop
    simp only [hhead, hcell, hfree, hset, heq, Option.bind_some]
    exact heq'

/-- `free_policies` empties the list and frees every string in it. -/
theorem freePolicies_spec {m : Memory} {tail : Addr} {ps : List PolicyAt} {rest : List Nat}
    (hl : Laid m tail ps) (hs : m.strings.Holds (strsOf ps ++ rest)) :
    ∃ m', freePolicies m = some m' ∧ Laid m' policyList [] ∧ m'.strings.Holds rest := by
  obtain ⟨dummy, hchain⟩ := hl.policies.chain
  have hlen := hchain.length_le hl.policies.nodup
  rw [List.length_cons, List.length_map] at hlen
  exact freeLoop_spec ps hl hs (by omega)

/-! ## The loop over the document -/

section DocumentLoop

variable {m : Memory} {tail : Addr} {ps : List PolicyAt} {rest : List Nat}

theorem Laid.ruleAddrs_allocated (h : Laid m tail ps) {p : PolicyAt} (hp : p ∈ ps) {b : Addr}
    (hb : b ∈ p.ruleAddrs) : m.rules.cell b ≠ none := by
  obtain ⟨last, hl⟩ := h.rules p hp
  exact hl.allocated hb

/-- A new policy has no descriptor and no rules. -/
theorem addPolicy_spec (h : Laid m tail ps) (malloc : Mallocs) :
    ∃ a head m₁, m.addPolicy malloc tail = some (a, m₁) ∧
      Laid m₁ a (ps ++ [⟨a, none, head, []⟩]) ∧ m₁.strings = m.strings := by
  obtain ⟨a, h', hext, -, hl, -⟩ := h.policies.extend malloc.policy ⟨none, malloc.rule.pick m.rules⟩
  have hfresh := malloc.rule.fresh m.rules
  have hadd : m.addPolicy malloc tail = some (a, { m with
      policies := h'
      rules := m.rules.write (malloc.rule.pick m.rules) ⟨ruleHead, none⟩ }) := by
    unfold Memory.addPolicy
    dsimp only
    rw [hext]
    rfl
  generalize malloc.rule.pick m.rules = head at hfresh hl hadd
  have hold : ∀ p ∈ ps, head ∉ p.ruleAddrs :=
    fun p hp hm => h.ruleAddrs_allocated hp hm hfresh
  refine ⟨a, head, _, hadd, ⟨?_, fun p hp => ?_, ?_⟩, rfl⟩
  · rw [List.map_append]
    exact hl
  · rcases List.mem_append.mp hp with hp | hp
    · obtain ⟨last, hl'⟩ := h.rules p hp
      exact ⟨last, hl'.write_fresh hfresh _⟩
    · rw [List.mem_singleton.mp hp]
      exact ⟨head, Linked.single (Heap.write_cell_self _ _ _)⟩
  · rw [List.flatMap_append, List.flatMap_singleton]
    refine List.Nodup.append h.apart (List.nodup_singleton _) fun b hb hb' => ?_
    obtain ⟨p, hp, hbp⟩ := List.mem_flatMap.mp hb
    have hhead : b = head := List.mem_singleton.mp hb'
    exact hold p hp (hhead ▸ hbp)

/-- What was done for the last policy leaves the others as they are. -/
theorem Laid.grow {m₁ : Memory} {p : PolicyAt} {d : Option Str} {added : List (Addr × RuleCell)}
    {lost : List Nat} (h : Laid m tail (ps ++ [p]))
    (hg : Grown m m₁ p.addr p.ruleList p.rules rest d added lost) :
    Laid m₁ tail (ps ++ [{ p with appDesc := d, rules := p.rules ++ added }]) := by
  have hp : p ∈ ps ++ [p] := List.mem_append_right _ List.mem_cons_self
  have hn := h.apart
  rw [List.flatMap_append, List.flatMap_singleton, List.nodup_append] at hn
  have hother : ∀ q ∈ ps, ∀ b ∈ q.ruleAddrs, b ∉ p.ruleAddrs := by
    intro q hq b hb hb'
    exact hn.2.2 b (List.mem_flatMap.mpr ⟨q, hq, hb⟩) b hb' rfl
  obtain ⟨last, hl⟩ := hg.linked
  refine ⟨?_, fun q hq => ?_, ?_⟩
  · have hpol := h.policies
    rw [List.map_append] at hpol ⊢
    rw [hg.policies]
    exact Linked.store_last hpol _
  · rcases List.mem_append.mp hq with hq | hq
    · obtain ⟨last, hl'⟩ := h.rules q (List.mem_append_left _ hq)
      refine ⟨last, hl'.frame fun b hb => hg.frame b (hl'.allocated hb) (hother q hq b hb)⟩
    · rw [List.mem_singleton.mp hq]
      exact ⟨last, hl⟩
  · rw [List.flatMap_append, List.flatMap_singleton]
    refine List.Nodup.append hn.1 hl.nodup fun b hb hb' => ?_
    obtain ⟨q, hq, hbq⟩ := List.mem_flatMap.mp hb
    -- a node of the last policy is an old one or was not in use
    have hcases : b ∈ p.ruleAddrs ∨ m.rules.cell b = none := by
      rcases List.mem_cons.mp hb' with rfl | hb'
      · exact Or.inl List.mem_cons_self
      rw [List.map_append] at hb'
      rcases List.mem_append.mp hb' with hb' | hb'
      · exact Or.inl (List.mem_cons_of_mem _ hb')
      · obtain ⟨n, hnode, rfl⟩ := List.mem_map.mp hb'
        exact Or.inr (hg.fresh n hnode)
    rcases hcases with hb' | hb'
    · exact hother q hq b hbq hb'
    · exact h.ruleAddrs_allocated (List.mem_append_left _ hq) hbq hb'

/-- One element `policy`: a new last policy with what its children say. -/
theorem parsePolicy_spec (hl : Laid m tail ps) (hs : m.strings.Holds (strsOf ps ++ rest))
    (malloc : Mallocs) (cur : Xml) :
    match loadPolicy cur.children ⟨none, []⟩ with
    | none => ∃ r, m.addPolicy malloc tail = some r ∧ parsePolicy malloc cur r.1 r.2 = none
    | some policy => ∃ a m₁ m₂ p lost, m.addPolicy malloc tail = some (a, m₁) ∧
        parsePolicy malloc cur a m₁ = some m₂ ∧ Laid m₂ a (ps ++ [p]) ∧ p.value = policy ∧
        m₂.strings.Holds (strsOf (ps ++ [p]) ++ (lost ++ rest)) ∧
        lost.length = policyLeaks cur.children := by
  obtain ⟨a, head, m₁, hadd, hl₁, hs₁⟩ := addPolicy_spec hl malloc
  have hcell : m₁.policies.cell a = some ⟨⟨none, head⟩, none⟩ := by
    have hpol := hl₁.policies
    rw [List.map_append] at hpol
    exact hpol.cell_last
  obtain ⟨last, hrules⟩ := hl₁.rules ⟨a, none, head, []⟩ (by simp)
  have hlast : last = head := hrules.last
  have hholds : m₁.strings.Holds (idOf none ++ rulesStrs [] ++ (strsOf ps ++ rest)) := by
    rw [hs₁]
    exact hs
  have hloop := parsePolicyLoop_spec malloc cur.children hcell hrules hholds
  have hparse : parsePolicy malloc cur a m₁ =
      parsePolicyLoop malloc a cur.children last 0 m₁ := by
    rw [parsePolicy, hcell, hlast]
    rfl
  have hstart : (⟨Option.map Str.text none, rulesValue []⟩ : Policy) = ⟨none, []⟩ := rfl
  rw [hstart] at hloop
  cases hload : loadPolicy cur.children ⟨none, []⟩ with
  | none =>
    rw [hload] at hloop
    exact ⟨_, hadd, hparse.trans hloop⟩
  | some policy =>
    rw [hload] at hloop
    obtain ⟨m₂, d, added, lost, heq, hgrown, hvalue, hcount⟩ := hloop
    refine ⟨a, m₁, m₂, ⟨a, d, head, added⟩, lost, hadd, hparse.trans heq, hl₁.grow hgrown, hvalue,
      hgrown.strings.of_perm ?_, hcount⟩
    rw [strsOf_append]
    refine List.perm_iff_count.mpr fun id => ?_
    simp only [strsOf, PolicyAt.strs, List.flatMap_singleton, List.nil_append, List.count_append]
    omega

/-- `parse_policies` from any point of its loop. -/
theorem parseLoop_spec (malloc : Mallocs) (nodes : List Xml) {m : Memory} {tail : Addr}
    {ps : List PolicyAt} {rest : List Nat} (hl : Laid m tail ps)
    (hs : m.strings.Holds (strsOf ps ++ rest)) :
    match loadPolicies nodes with
    | none => parseLoop malloc nodes tail m = none
    | some policies => ∃ m' tail' added lost, parseLoop malloc nodes tail m = some m' ∧
        Laid m' tail' (ps ++ added) ∧ added.map PolicyAt.value = policies ∧
        m'.strings.Holds (strsOf (ps ++ added) ++ (lost ++ rest)) ∧
        lost.length = leaks nodes := by
  induction nodes generalizing m tail ps rest with
  | nil =>
    refine ⟨m, tail, [], [], rfl, ?_, rfl, ?_, rfl⟩
    · rw [List.append_nil]
      exact hl
    · rw [List.append_nil]
      exact hs
  | cons cur nodes ih =>
    unfold loadPolicies parseLoop
    by_cases hname : cur.name = "policy"
    · have hpolicy := parsePolicy_spec hl hs malloc cur
      rw [if_pos hname, if_pos hname, leaks_cons_self nodes hname]
      cases hload : loadPolicy cur.children ⟨none, []⟩ with
      | none =>
        rw [hload] at hpolicy
        obtain ⟨r, hadd, hparse⟩ := hpolicy
        rw [hadd, Option.bind_some, hparse]
        rfl
      | some policy =>
        rw [hload] at hpolicy
        obtain ⟨a, m₁, m₂, p, lost₁, hadd, hparse, hl₂, rfl, hs₂, hcount₁⟩ := hpolicy
        rw [hadd, Option.bind_some, Option.bind_some, hparse, Option.bind_some]
        have hrest := ih hl₂ hs₂
        cases hload' : loadPolicies nodes with
        | none =>
          rw [hload'] at hrest
          exact hrest
        | some policies =>
          rw [hload'] at hrest
          obtain ⟨m', tail', added, lost, heq, hl', hvalue, hs', hcount⟩ := hrest
          refine ⟨m', tail', p :: added, lost ++ lost₁, heq, ?_, ?_, ?_, ?_⟩
          · rw [List.append_cons]
            exact hl'
          · rw [List.map_cons, hvalue]
          · rw [List.append_cons, List.append_assoc lost]
            exact hs'
          · rw [List.length_append]
            omega
    · rw [if_neg hname, if_neg hname, leaks_cons_ne nodes hname]
      exact ih hl hs

end DocumentLoop

/-! ## Whole calls -/

/-- The memory between two calls: the list of policies is laid out as `ps`, and the live
strings are those it points to and `lost`, to which nothing points. -/
structure Stores (m : Memory) (ps : List PolicyAt) (lost : List Nat) : Prop where
  laid : ∃ tail, Laid m tail ps
  strings : m.strings.Holds (strsOf ps ++ lost)

/-- The memory holds some list of policies. -/
def Memory.InOrder (m : Memory) : Prop := ∃ ps lost, Stores m ps lost

/-- The memory before the first call: only the static node. -/
def Memory.start : Memory :=
  ⟨Heap.empty.write policyList ⟨⟨none, 0⟩, none⟩, Heap.empty.write 0 ⟨ruleHead, none⟩, ⟨[], 0⟩⟩

theorem start_stores : Stores Memory.start [] [] where
  laid := ⟨policyList, Linked.single (Heap.write_cell_self _ _ _),
    fun _ hp => absurd hp List.not_mem_nil, List.nodup_nil⟩
  strings := ⟨List.Perm.refl _, List.nodup_nil, fun _ hid => absurd hid List.not_mem_nil⟩

/-- Some policy or rule of the list points to the string. -/
def Memory.PointsTo (m : Memory) (id : Nat) : Prop :=
  ∃ policy c next, policy ≠ policyList ∧ m.policies.Reaches policyList policy ∧
    m.policies.cell policy = some ⟨c, next⟩ ∧
    (id ∈ idOf c.appDesc ∨ ∃ rule r next', rule ≠ c.ruleList ∧
      m.rules.Reaches c.ruleList rule ∧ m.rules.cell rule = some ⟨r, next'⟩ ∧ id ∈ r.strs)

/-- The string is live and nothing points to it. -/
def Memory.Leaked (m : Memory) (id : Nat) : Prop := id ∈ m.strings.live ∧ ¬ m.PointsTo id

section Calls

variable {m : Memory} {ps : List PolicyAt} {lost : List Nat}

theorem Laid.pointsTo_iff {tail : Addr} (hl : Laid m tail ps) (id : Nat) :
    m.PointsTo id ↔ id ∈ strsOf ps := by
  unfold Memory.PointsTo strsOf
  rw [List.mem_flatMap]
  constructor
  · intro ⟨policy, c, next, hne, hr, hcell, hid⟩
    obtain ⟨p, hp, hnode⟩ :=
      List.mem_map.mp (hl.policies.mem_iff_reaches.mpr ⟨hne, hr, next, hcell⟩)
    cases hnode
    refine ⟨p, hp, List.mem_append.mpr (hid.imp_right fun hid => ?_)⟩
    obtain ⟨rule, r, next', hne', hr', hcell', hid⟩ := hid
    obtain ⟨last, hrules⟩ := hl.rules p hp
    exact List.mem_flatMap.mpr
      ⟨(rule, r), hrules.mem_iff_reaches.mpr ⟨hne', hr', next', hcell'⟩, hid⟩
  · intro ⟨p, hp, hid⟩
    obtain ⟨hne, hr, next, hcell⟩ := hl.policies.mem_iff_reaches.mp (List.mem_map_of_mem hp)
    refine ⟨p.addr, _, next, hne, hr, hcell, (List.mem_append.mp hid).imp_right fun hid => ?_⟩
    obtain ⟨⟨rule, r⟩, hm, hid⟩ := List.mem_flatMap.mp hid
    obtain ⟨last, hrules⟩ := hl.rules p hp
    obtain ⟨hne', hr', next', hcell'⟩ := hrules.mem_iff_reaches.mp hm
    exact ⟨rule, r, next', hne', hr', hcell', hid⟩

namespace Stores

theorem contents (h : Stores m ps lost) : m.contents = some (ps.map PolicyAt.value) := by
  obtain ⟨tail, hl⟩ := h.laid
  exact hl.contents

theorem leaked_iff (h : Stores m ps lost) (id : Nat) : m.Leaked id ↔ id ∈ lost := by
  obtain ⟨tail, hl⟩ := h.laid
  have hn := h.strings.perm.nodup_iff.mp h.strings.nodup
  rw [List.nodup_append] at hn
  unfold Memory.Leaked
  rw [h.strings.perm.mem_iff, List.mem_append, hl.pointsTo_iff]
  constructor
  · rintro ⟨hid | hid, hnot⟩
    · exact absurd hid hnot
    · exact hid
  · exact fun hid => ⟨Or.inr hid, fun hid' => hn.2.2 id hid' id hid rfl⟩

/-- On a file that is not accepted the list is empty afterwards. -/
theorem rejected (h : Stores m ps lost) (malloc : Mallocs) {doc : Document}
    (hdoc : doc.accepted = false) :
    ∃ m', parsePolicies malloc doc m = some m' ∧ Stores m' [] lost := by
  obtain ⟨tail, hl⟩ := h.laid
  obtain ⟨m', hfree, hl', hs'⟩ := freePolicies_spec hl h.strings
  refine ⟨m', ?_, ⟨policyList, hl'⟩, hs'⟩
  unfold parsePolicies
  rw [hfree, Option.bind_some]
  cases doc with
  | unparsable => rfl
  | empty => rfl
  | rooted name children => exact if_neg (of_decide_eq_false hdoc)

/-- On a file that is accepted the list is what the document says, or `strtol` was given a
null pointer. -/
theorem accepted (h : Stores m ps lost) (malloc : Mallocs) (children : List Xml) :
    match loadPolicies children with
    | none => parsePolicies malloc (.rooted "UserPolicies" children) m = none
    | some policies => ∃ m' ps' lost',
        parsePolicies malloc (.rooted "UserPolicies" children) m = some m' ∧
        Stores m' ps' (lost' ++ lost) ∧ ps'.map PolicyAt.value = policies ∧
        lost'.length = leaks children := by
  obtain ⟨tail, hl⟩ := h.laid
  obtain ⟨m₁, hfree, hl₁, hs₁⟩ := freePolicies_spec hl h.strings
  have hparse : parsePolicies malloc (.rooted "UserPolicies" children) m =
      parseLoop malloc children policyList m₁ := by
    unfold parsePolicies
    rw [hfree]
    rfl
  have hloop := parseLoop_spec malloc children hl₁ hs₁
  rw [hparse]
  cases hload : loadPolicies children with
  | none =>
    rw [hload] at hloop
    exact hloop
  | some policies =>
    rw [hload] at hloop
    obtain ⟨m', tail', added, lost', heq, hl', hvalue, hs', hcount⟩ := hloop
    exact ⟨m', added, lost', heq, ⟨⟨tail', hl'⟩, hs'⟩, hvalue, hcount⟩

end Stores

/-- The memory is in order after every call that returns. -/
theorem parsePolicies_inOrder {m' : Memory} (h : m.InOrder) {malloc : Mallocs} {doc : Document}
    (hp : parsePolicies malloc doc m = some m') : m'.InOrder := by
  obtain ⟨ps, lost, hst⟩ := h
  cases hdoc : doc.accepted with
  | false =>
    obtain ⟨m₁, hp', hst'⟩ := hst.rejected malloc hdoc
    cases hp.symm.trans hp'
    exact ⟨[], lost, hst'⟩
  | true =>
    obtain ⟨children, rfl⟩ : ∃ children, doc = .rooted "UserPolicies" children := by
      cases doc with
      | unparsable => cases hdoc
      | empty => cases hdoc
      | rooted name children => exact ⟨children, by rw [of_decide_eq_true hdoc]⟩
    have hacc := hst.accepted malloc children
    split at hacc
    · cases hp.symm.trans hacc
    · obtain ⟨m₁, ps', lost', hp', hst', -⟩ := hacc
      cases hp.symm.trans hp'
      exact ⟨ps', lost' ++ lost, hst'⟩

/-- So it is in order in every run of calls from the start. -/
theorem run_inOrder (calls : List (Mallocs × Document))
    (hr : run (fun m call => parsePolicies call.1 call.2 m) Memory.start calls = some m) :
    m.InOrder :=
  run_inv_all (I := Memory.InOrder) (fun h hp => parsePolicies_inOrder h hp) calls
    ⟨[], [], start_stores⟩ hr

end Calls

end Manhattan.Sined.PolicyLoad
