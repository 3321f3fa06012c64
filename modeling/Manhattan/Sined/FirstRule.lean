import Manhattan.Lib.Run
import Manhattan.Sined.Pass
import Manhattan.Sined.PolicyLoad

/-!
# Which rule a connection is under (`active_rule`)

`parse_policy` numbers the rules of each policy from 1 on, and `active_rule` holds the
number of the rule that was activated for a connection, 0 for none. Two things keep it
from saying so. The inner loop of `evaluate` stops at the first rule it could activate,
but the outer loop goes on: a second policy for the same application activates a rule
of its own, and the number of that one stays. And `active_rule` is written only when a
rule was activated: where none is, the number of an earlier evaluation stays, of a rule
that does not apply any more, or that is not in the policies any more.

A rule applies or not to the world `evaluate` finds when it comes to it (`Applies`), and
asking changes the world (`asked`); the conditions below are about these answers, rule by
rule. `taken` collects from them what the two loops activate.

Mirroring notes:
- A file is loaded as `PolicyLoad.loadPolicies` says, the list that `parse_policies`
  builds. A file that it rejects leaves no policies.
- `Net.counting` is the network manager with a list of the interfaces it has set.
- `Situation.latest` are the rules that the latest evaluation has activated.

`first_only_iff` and `active_rule_current_iff` are the exact conditions.
-/

namespace Manhattan.Sined

open Manhattan.Lib

variable {ω : Type}

/-! ## Rules that apply -/

section

variable (net : Net ω) (location : String) (addr : List UInt8)

/-- The rule's location is the current one, its interface is reported up, and the
exchange with the daemon succeeds. -/
def Applies (rule : Rule) (w : ω) : Prop :=
  rule.location = some location ∧ (net.interfaceOn rule.interface w).1 = true ∧
    (net.setInterface addr rule.interface (net.interfaceOn rule.interface w).2).1 = true

instance decApplies (rule : Rule) (w : ω) : Decidable (Applies net location addr rule w) :=
  inferInstanceAs (Decidable (_ ∧ _ ∧ _))

/-- The world after the questions about the rule: none elsewhere, and the exchange with the
daemon only for an interface that is up. -/
def asked (rule : Rule) (w : ω) : ω :=
  if rule.location = some location then
    let on := net.interfaceOn rule.interface w
    if on.1 then (net.setInterface addr rule.interface on.2).2 else on.2
  else w

/-- The world after the questions about all the rules. -/
def askedAll (rules : List Rule) (w : ω) : ω :=
  rules.foldl (fun w rule => asked net location addr rule w) w

/-- None of the rules applies when its turn comes. -/
def NoneApplies : List Rule → ω → Prop
  | [], _ => True
  | rule :: rest, w =>
    ¬ Applies net location addr rule w ∧ NoneApplies rest (asked net location addr rule w)

instance decNoneApplies : (rules : List Rule) → (w : ω) →
    Decidable (NoneApplies net location addr rules w)
  | [], _ => isTrue trivial
  | rule :: rest, w =>
    have := decNoneApplies rest (asked net location addr rule w)
    inferInstanceAs (Decidable (_ ∧ _))

end

/-- The rules of all policies for the application, in document order. -/
def candidates (policies : List Policy) (appDesc : Option String) : List Rule :=
  (policies.filter fun policy => policy.appDesc = appDesc).flatMap (·.rules)

section

variable {net : Net ω} {location : String} {addr : List UInt8}

theorem askedAll_append (rules rules' : List Rule) (w : ω) :
    askedAll net location addr (rules ++ rules') w =
      askedAll net location addr rules' (askedAll net location addr rules w) :=
  List.foldl_append

theorem noneApplies_append (rules rules' : List Rule) (w : ω) :
    NoneApplies net location addr (rules ++ rules') w ↔
      NoneApplies net location addr rules w ∧
        NoneApplies net location addr rules' (askedAll net location addr rules w) := by
  induction rules generalizing w with
  | nil => exact (and_iff_right trivial).symm
  | cons rule rest ih =>
    rw [List.cons_append, NoneApplies, NoneApplies, ih, and_assoc]
    rfl

theorem candidates_cons_eq {policy : Policy} {appDesc : Option String}
    (h : policy.appDesc = appDesc) (rest : List Policy) :
    candidates (policy :: rest) appDesc = policy.rules ++ candidates rest appDesc := by
  unfold candidates
  rw [List.filter_cons_of_pos (by simpa using h), List.flatMap_cons]

theorem candidates_cons_ne {policy : Policy} {appDesc : Option String}
    (h : policy.appDesc ≠ appDesc) (rest : List Policy) :
    candidates (policy :: rest) appDesc = candidates rest appDesc := by
  unfold candidates
  rw [List.filter_cons_of_neg (by simpa using h)]

end

/-! ## What one call of `evaluate` activates -/

section

variable (net : Net ω) (location : String) (addr : List UInt8)

/-- The first of the rules that applies. -/
def takenIn : List Rule → ω → Option Rule
  | [], _ => none
  | rule :: rest, w =>
    if Applies net location addr rule w then some rule
    else takenIn rest (asked net location addr rule w)

/-- The world the inner loop leaves: no rule behind the first that applies is looked at. -/
def leftIn : List Rule → ω → ω
  | [], w => w
  | rule :: rest, w =>
    if Applies net location addr rule w then asked net location addr rule w
    else leftIn rest (asked net location addr rule w)

/-- The rules a call activates, in order: one of each policy for the application that has
one that applies. -/
def taken (appDesc : Option String) : List Policy → ω → List Rule
  | [], _ => []
  | policy :: rest, w =>
    if policy.appDesc = appDesc then
      (takenIn net location addr policy.rules w).toList ++
        taken appDesc rest (leftIn net location addr policy.rules w)
    else taken appDesc rest w

end

/-- The connection after the rule was activated, if there was one. -/
def Connection.under (conn : Connection) : Option Rule → Connection
  | some rule => { conn with activeRule := rule.ruleID }
  | none => conn

/-- The network manager, with a list of the interfaces it has set. -/
def Net.counting (net : Net ω) : Net (ω × List (Option String)) where
  location w := net.location w.1
  interfaceOn ifname w :=
    ((net.interfaceOn ifname w.1).1, ((net.interfaceOn ifname w.1).2, w.2))
  setInterface addr ifname w :=
    ((net.setInterface addr ifname w.1).1, ((net.setInterface addr ifname w.1).2,
      if (net.setInterface addr ifname w.1).1 then w.2 ++ [ifname] else w.2))

/-- The exchanges of `netmgr_set_interface` that succeed during a call of `evaluate`. -/
def successes (net : Net ω) (policies : List Policy) (conn : Connection) (w : ω) :
    List (Option String) :=
  (evaluate net.counting policies conn (w, [])).2.2

section

variable {net : Net ω} {location : String} {addr : List UInt8}

theorem evaluateRule_of_applies {conn : Connection} {rule : Rule} {w : ω}
    (h : Applies net location conn.addr rule w) :
    evaluateRule net location rule conn w =
      (true, { conn with activeRule := rule.ruleID }, asked net location conn.addr rule w) := by
  obtain ⟨hloc, hon, hset⟩ := h
  unfold asked evaluateRule
  rw [if_pos hloc, if_pos hloc]
  cases hi : net.interfaceOn rule.interface w with
  | mk on w₁ =>
    rw [hi] at hon hset
    cases hon
    cases hs : net.setInterface conn.addr rule.interface w₁ with
    | mk done w₂ =>
      have hdone : done = true := by simpa [hs] using hset
      cases hdone
      simp [hs]

theorem evaluateRule_of_not_applies {conn : Connection} {rule : Rule} {w : ω}
    (h : ¬ Applies net location conn.addr rule w) :
    evaluateRule net location rule conn w =
      (false, conn, asked net location conn.addr rule w) := by
  unfold Applies at h
  unfold asked evaluateRule
  split
  next hloc =>
    cases hi : net.interfaceOn rule.interface w with
    | mk on w₁ =>
      cases on with
      | false => rfl
      | true =>
        cases hs : net.setInterface conn.addr rule.interface w₁ with
        | mk done w₂ =>
          cases done with
          | false => simp [hs]
          | true =>
            refine absurd ⟨hloc, ?_, ?_⟩ h
            · rw [hi]
            · rw [hi]
              exact congrArg Prod.fst hs
  next => rfl

theorem evaluateRules_eq (rules : List Rule) (conn : Connection) (w : ω) :
    evaluateRules net location rules conn w =
      (conn.under (takenIn net location conn.addr rules w),
        leftIn net location conn.addr rules w) := by
  induction rules generalizing w with
  | nil => rfl
  | cons rule rest ih =>
    rw [evaluateRules, takenIn, leftIn]
    by_cases h : Applies net location conn.addr rule w
    · rw [evaluateRule_of_applies h, if_pos h, if_pos h]
      rfl
    · rw [evaluateRule_of_not_applies h, if_neg h, if_neg h]
      exact ih _

/-- Being under a rule changes nothing that the loops go by. -/
theorem Connection.under_addr (conn : Connection) (rule : Option Rule) :
    (conn.under rule).addr = conn.addr ∧ (conn.under rule).appDesc = conn.appDesc := by
  cases rule <;> exact ⟨rfl, rfl⟩

/-- The last rule that was activated is the active one. -/
theorem evaluatePolicies_conn (net : Net ω) (location : String) (policies : List Policy)
    (conn : Connection) (w : ω) :
    (evaluatePolicies net location policies conn w).1 =
      conn.under (taken net location conn.addr conn.appDesc policies w).getLast? := by
  induction policies generalizing conn w with
  | nil => rfl
  | cons policy rest ih =>
    rw [evaluatePolicies, taken]
    split
    · rw [evaluateRules_eq]
      show (evaluatePolicies net location rest _ _).1 = _
      rw [ih, List.getLast?_append, (conn.under_addr _).1, (conn.under_addr _).2]
      cases takenIn net location conn.addr policy.rules w with
      | none => simp [Connection.under]
      | some rule =>
        cases (taken net location conn.addr conn.appDesc rest
          (leftIn net location conn.addr policy.rules w)).getLast? <;> rfl
    · exact ih conn w

/-! The counting network manager behaves like the one it wraps, and counts. -/

theorem evaluateRule_counting (rule : Rule) (conn : Connection) (w : ω)
    (log : List (Option String)) :
    evaluateRule net.counting location rule conn (w, log) =
      match evaluateRule net location rule conn w with
      | (true, conn', w') => (true, conn', (w', log ++ [rule.interface]))
      | (false, conn', w') => (false, conn', (w', log)) := by
  unfold evaluateRule Net.counting
  split
  · cases hi : net.interfaceOn rule.interface w with
    | mk on w₁ =>
      cases on with
      | false => simp [hi]
      | true =>
        cases hs : net.setInterface conn.addr rule.interface w₁ with
        | mk done w₂ => cases done <;> simp [hi, hs]
  · rfl

theorem evaluateRules_counting (rules : List Rule) (conn : Connection) (w : ω)
    (log : List (Option String)) :
    evaluateRules net.counting location rules conn (w, log) =
      ((evaluateRules net location rules conn w).1, (evaluateRules net location rules conn w).2,
        log ++ (takenIn net location conn.addr rules w).toList.map (·.interface)) := by
  induction rules generalizing w with
  | nil => simp [evaluateRules, takenIn]
  | cons rule rest ih =>
    rw [evaluateRules, evaluateRules, takenIn, evaluateRule_counting]
    by_cases h : Applies net location conn.addr rule w
    · rw [evaluateRule_of_applies h, if_pos h]
      rfl
    · rw [evaluateRule_of_not_applies h, if_neg h]
      exact ih _

theorem evaluatePolicies_counting (policies : List Policy) (conn : Connection) (w : ω)
    (log : List (Option String)) :
    evaluatePolicies net.counting location policies conn (w, log) =
      ((evaluatePolicies net location policies conn w).1,
        (evaluatePolicies net location policies conn w).2,
        log ++ (taken net location conn.addr conn.appDesc policies w).map (·.interface)) := by
  induction policies generalizing conn w log with
  | nil => simp [evaluatePolicies, taken]
  | cons policy rest ih =>
    rw [evaluatePolicies, evaluatePolicies, taken, evaluateRules_counting, evaluateRules_eq]
    split
    · show evaluatePolicies net.counting location rest _ (_, _) = _
      rw [ih, (conn.under_addr _).1, (conn.under_addr _).2, List.map_append, List.append_assoc]
    · exact ih conn w log

theorem successes_eq (net : Net ω) (policies : List Policy) (conn : Connection) (w : ω) :
    successes net policies conn w =
      (taken net (net.location w) conn.addr conn.appDesc policies w).map (·.interface) := by
  show (evaluatePolicies net.counting (net.location w) policies conn (w, [])).2.2 = _
  rw [evaluatePolicies_counting]
  rfl

/-! Where the rules that apply stand. -/

theorem takenIn_eq_none_iff (rules : List Rule) (w : ω) :
    takenIn net location addr rules w = none ↔ NoneApplies net location addr rules w := by
  induction rules generalizing w with
  | nil => exact iff_of_true rfl trivial
  | cons rule rest ih =>
    rw [takenIn, NoneApplies, ← ih]
    split
    next h => exact iff_of_false (Option.some_ne_none _) fun hno => hno.1 h
    next h => exact (and_iff_right h).symm

theorem leftIn_of_none {rules : List Rule} {w : ω} (h : NoneApplies net location addr rules w) :
    leftIn net location addr rules w = askedAll net location addr rules w := by
  induction rules generalizing w with
  | nil => rfl
  | cons rule rest ih =>
    rw [leftIn, if_neg h.1]
    exact ih h.2

/-- Behind rules that do not apply, the first that applies is the one that is taken. -/
theorem takenIn_of_first {pre : List Rule} {rule : Rule} (post : List Rule) {w : ω}
    (hpre : NoneApplies net location addr pre w)
    (h : Applies net location addr rule (askedAll net location addr pre w)) :
    takenIn net location addr (pre ++ rule :: post) w = some rule ∧
      leftIn net location addr (pre ++ rule :: post) w =
        asked net location addr rule (askedAll net location addr pre w) := by
  induction pre generalizing w with
  | nil => exact ⟨if_pos h, if_pos h⟩
  | cons rule' pre ih =>
    rw [List.cons_append, takenIn, leftIn, if_neg hpre.1, if_neg hpre.1]
    exact ih hpre.2 h

theorem first_of_takenIn {rules : List Rule} {w : ω} {rule : Rule}
    (h : takenIn net location addr rules w = some rule) :
    ∃ pre post, rules = pre ++ rule :: post ∧ NoneApplies net location addr pre w ∧
      Applies net location addr rule (askedAll net location addr pre w) := by
  induction rules generalizing w with
  | nil => cases h
  | cons rule' rest ih =>
    rw [takenIn] at h
    split at h
    next happ =>
      cases h
      exact ⟨[], rest, rfl, trivial, happ⟩
    next hno =>
      obtain ⟨pre, post, rfl, hpre, happ⟩ := ih h
      exact ⟨rule' :: pre, post, rfl, ⟨hno, hpre⟩, happ⟩

theorem taken_eq_nil_iff (appDesc : Option String) (policies : List Policy) (w : ω) :
    taken net location addr appDesc policies w = [] ↔
      NoneApplies net location addr (candidates policies appDesc) w := by
  induction policies generalizing w with
  | nil => exact iff_of_true rfl trivial
  | cons policy rest ih =>
    rw [taken]
    split
    next hd =>
      rw [candidates_cons_eq hd, noneApplies_append, List.append_eq_nil_iff,
        Option.toList_eq_nil_iff, takenIn_eq_none_iff]
      refine and_congr_right fun hno => ?_
      rw [leftIn_of_none hno, ih]
    next hd => rw [candidates_cons_ne hd, ih]

/-- A policy with the first rule that applies, and what the policies behind it give. -/
theorem taken_of_first {appDesc : Option String} {before : List Policy} {policy : Policy}
    {pre : List Rule} {rule : Rule} {post : List Rule} {w : ω} (later : List Policy)
    (hd : policy.appDesc = appDesc) (hrules : policy.rules = pre ++ rule :: post)
    (hnone : NoneApplies net location addr (candidates before appDesc ++ pre) w)
    (h : Applies net location addr rule
      (askedAll net location addr (candidates before appDesc ++ pre) w)) :
    taken net location addr appDesc (before ++ policy :: later) w =
      rule :: taken net location addr appDesc later (asked net location addr rule
        (askedAll net location addr (candidates before appDesc ++ pre) w)) := by
  induction before generalizing w with
  | nil =>
    obtain ⟨htaken, hleft⟩ := @takenIn_of_first _ net location addr pre rule post w hnone h
    rw [List.nil_append, taken, if_pos hd, hrules, htaken, hleft]
    rfl
  | cons policy' before ih =>
    rw [List.cons_append, taken]
    split
    next hd' =>
      rw [candidates_cons_eq hd', List.append_assoc, noneApplies_append] at hnone
      rw [candidates_cons_eq hd', List.append_assoc, askedAll_append] at h ⊢
      rw [(takenIn_eq_none_iff _ _).mpr hnone.1, leftIn_of_none hnone.1]
      exact ih hnone.2 h
    next hd' =>
      rw [candidates_cons_ne hd'] at hnone h ⊢
      exact ih hnone h

/-- What is activated first stands in some policy behind rules that do not apply. -/
theorem first_of_taken {appDesc : Option String} {policies : List Policy} {w : ω} {rule : Rule}
    {others : List Rule} (h : taken net location addr appDesc policies w = rule :: others) :
    ∃ before policy later pre post, policies = before ++ policy :: later ∧
      policy.appDesc = appDesc ∧ policy.rules = pre ++ rule :: post ∧
      NoneApplies net location addr (candidates before appDesc ++ pre) w ∧
      Applies net location addr rule
        (askedAll net location addr (candidates before appDesc ++ pre) w) := by
  induction policies generalizing w with
  | nil => cases h
  | cons policy rest ih =>
    rw [taken] at h
    split at h
    next hd =>
      cases ht : takenIn net location addr policy.rules w with
      | some rule' =>
        rw [ht] at h
        obtain rfl : rule' = rule := (List.cons.inj h).1
        obtain ⟨pre, post, hrules, hnone, happ⟩ := first_of_takenIn ht
        exact ⟨[], policy, rest, pre, post, rfl, hd, hrules, hnone, happ⟩
      | none =>
        -- the rules of this policy are skipped too, and have been asked about
        have hnone := (takenIn_eq_none_iff _ _).mp ht
        rw [ht, leftIn_of_none hnone] at h
        obtain ⟨before, policy', later, pre, post, rfl, hd', hrules, hpre, happ⟩ := ih h
        refine ⟨policy :: before, policy', later, pre, post, rfl, hd', hrules, ?_, ?_⟩
        · rw [candidates_cons_eq hd, List.append_assoc, noneApplies_append]
          exact ⟨hnone, hpre⟩
        · rw [candidates_cons_eq hd, List.append_assoc, askedAll_append]
          exact happ
    next hd =>
      obtain ⟨before, policy', later, pre, post, rfl, hd', hrules, hpre, happ⟩ := ih h
      refine ⟨policy :: before, policy', later, pre, post, rfl, hd', hrules, ?_, ?_⟩
      · rwa [candidates_cons_ne hd]
      · rwa [candidates_cons_ne hd]

end

/-! ## Only the first rule -/

section

variable (net : Net ω) (policies : List Policy) (conn : Connection) (w : ω)

/-- **One rule, the first**: at most one exchange succeeds, and if one does, it is that of
the first rule in document order that applies, which is then the active one. -/
structure FirstOnly : Prop where
  once : (successes net policies conn w).length ≤ 1
  first : successes net policies conn w ≠ [] →
    ∃ pre rule post, candidates policies conn.appDesc = pre ++ rule :: post ∧
      NoneApplies net (net.location w) conn.addr pre w ∧
      Applies net (net.location w) conn.addr rule
        (askedAll net (net.location w) conn.addr pre w) ∧
      successes net policies conn w = [rule.interface] ∧
      (evaluate net policies conn w).1.activeRule = rule.ruleID

/-- Once the first rule that applies is activated, no policy behind its own has a rule
that applies. -/
def NoneLater : Prop :=
  ∀ before policy later pre rule post, policies = before ++ policy :: later →
    policy.appDesc = conn.appDesc → policy.rules = pre ++ rule :: post →
    let skipped := candidates before conn.appDesc ++ pre
    let w₁ := askedAll net (net.location w) conn.addr skipped w
    NoneApplies net (net.location w) conn.addr skipped w →
    Applies net (net.location w) conn.addr rule w₁ →
    NoneApplies net (net.location w) conn.addr (candidates later conn.appDesc)
      (asked net (net.location w) conn.addr rule w₁)

variable {net policies conn w}

theorem FirstOnly.noneLater (h : FirstOnly net policies conn w) :
    NoneLater net policies conn w := by
  intro before policy later pre rule post hsplit hd hrules skipped w₁ hnone happ
  have hlen := h.once
  rw [successes_eq, List.length_map, hsplit,
    taken_of_first later hd hrules hnone happ, List.length_cons] at hlen
  refine (taken_eq_nil_iff _ _ _).mp (List.eq_nil_of_length_eq_zero ?_)
  exact Nat.le_zero.mp (Nat.le_of_succ_le_succ hlen)

theorem NoneLater.firstOnly (h : NoneLater net policies conn w) :
    FirstOnly net policies conn w := by
  have hactive : (evaluate net policies conn w).1 = _ :=
    evaluatePolicies_conn net (net.location w) policies conn w
  have hsucc := successes_eq net policies conn w
  cases ht : taken net (net.location w) conn.addr conn.appDesc policies w with
  | nil =>
    rw [ht] at hsucc
    exact ⟨by rw [hsucc]; exact Nat.zero_le 1, fun hne => absurd hsucc hne⟩
  | cons rule others =>
    obtain ⟨before, policy, later, pre, post, hsplit, hd, hrules, hnone, happ⟩ :=
      first_of_taken ht
    have hothers : others = [] := by
      have hlater := h before policy later pre rule post hsplit hd hrules hnone happ
      rw [hsplit, taken_of_first later hd hrules hnone happ, (taken_eq_nil_iff _ _ _).mpr hlater]
        at ht
      exact (List.cons.inj ht).2.symm
    rw [ht, hothers] at hsucc hactive
    refine ⟨by rw [hsucc]; exact Nat.le_refl 1, fun _ => ?_⟩
    refine ⟨candidates before conn.appDesc ++ pre, rule, post ++ candidates later conn.appDesc,
      ?_, hnone, happ, hsucc, by rw [hactive]; rfl⟩
    rw [hsplit]
    simp [candidates, hd, hrules]

/-- A policy that has the application for itself has no other behind it. -/
theorem noneLater_of_single
    (h : (policies.filter fun policy => policy.appDesc = conn.appDesc).length ≤ 1) :
    NoneLater net policies conn w := by
  intro before policy later pre rule post hsplit hd hrules skipped w₁ hnone happ
  have hlater : candidates later conn.appDesc = [] := by
    rw [hsplit, List.filter_append, List.filter_cons_of_pos (by simpa using hd),
      List.length_append, List.length_cons] at h
    unfold candidates
    rw [List.eq_nil_of_length_eq_zero (l := later.filter _) (by omega)]
    rfl
  rw [hlater]
  trivial

/-- **When only the first rule is activated**: exactly when no policy behind that of the
first rule that applies has another one that applies then. So it is wherever at most one
policy is for the application. -/
theorem first_only_iff (net : Net ω) (policies : List Policy) (conn : Connection) (w : ω) :
    (FirstOnly net policies conn w ↔ NoneLater net policies conn w) ∧
    ((policies.filter fun policy => policy.appDesc = conn.appDesc).length ≤ 1 →
      FirstOnly net policies conn w) :=
  ⟨⟨FirstOnly.noneLater, NoneLater.firstOnly⟩, fun h => (noneLater_of_single h).firstOnly⟩

end

/-- A network manager that always agrees, at `columbia`. -/
def agreeing : Net Unit where
  location _ := "columbia"
  interfaceOn _ w := (true, w)
  setInterface _ _ w := (true, w)

/-- The user has two policies for `ssh`. -/
def twoPolicies : List Policy :=
  [⟨some "/usr/bin/ssh", [⟨1, some "columbia", -1, -1, some "eth0"⟩]⟩,
   ⟨some "/usr/bin/ssh", [⟨1, some "boston", -1, -1, some "ppp0"⟩,
     ⟨2, some "columbia", -1, -1, some "wlan0"⟩]⟩]

/-- The first of the two alone. -/
def onePolicy : List Policy := twoPolicies.take 1

theorem first_only_iff_onePolicy :
    FirstOnly agreeing onePolicy (hipConnection 41 "/usr/bin/ssh" 6) () ∧
    successes agreeing onePolicy (hipConnection 41 "/usr/bin/ssh" 6) () = [some "eth0"] :=
  ⟨(first_only_iff agreeing onePolicy (hipConnection 41 "/usr/bin/ssh" 6) ()).2 (by decide), rfl⟩

/-- **Two rules are activated** by one call: the interface is set twice, and the second
rule is the one that stays. -/
theorem second_policy_is_activated_too :
    successes agreeing twoPolicies (hipConnection 41 "/usr/bin/ssh" 6) () =
      [some "eth0", some "wlan0"] ∧
    (evaluate agreeing twoPolicies (hipConnection 41 "/usr/bin/ssh" 6) ()).1.activeRule = 2 ∧
    ¬ FirstOnly agreeing twoPolicies (hipConnection 41 "/usr/bin/ssh" 6) () := by
  refine ⟨rfl, rfl, fun h => ?_⟩
  exact absurd h.once (by decide)

/-! ## The rules of a document -/

namespace PolicyLoad

/-- The elements that `parse_policies` goes through: none of a file it rejects. -/
def Document.elements : Document → List Xml
  | .unparsable => []
  | .empty => []
  | .rooted name children => if name = "UserPolicies" then children else []

/-- The application that the elements of a policy name; the last one counts. -/
def appDescOf (nodes : List Xml) : Option String :=
  (nodes.filter (·.name = "appDesc")).getLast?.bind fun cur => Xml.nodeListGetString cur.children

/-- The rules among the elements of a policy, numbered from `ruleID` on. -/
def rulesOf (ruleID : Nat) (nodes : List Xml) : List (Option Rule) :=
  ((nodes.filter (·.name = "rule")).zipIdx ruleID).map fun cur =>
    loadRules cur.1.children (blankRule cur.2)

/-- The document has the rule, with its number, in a policy for the application. -/
def Document.Has (doc : Document) (appDesc : Option String) (rule : Rule) : Prop :=
  ∃ cur ∈ doc.elements, cur.name = "policy" ∧ appDescOf cur.children = appDesc ∧
    some rule ∈ rulesOf 1 cur.children

instance decHas (doc : Document) (appDesc : Option String) (rule : Rule) :
    Decidable (doc.Has appDesc rule) :=
  inferInstanceAs (Decidable (∃ cur ∈ doc.elements, _ ∧ _ ∧ _))

/-- The loop of `parse_policy`: the last application stays, and the rules are numbered on
from those that are there. -/
theorem loadPolicy_spec {nodes : List Xml} {policy policy' : Policy}
    (h : loadPolicy nodes policy = some policy') :
    policy'.appDesc = ((nodes.filter (·.name = "appDesc")).getLast?.map fun cur =>
        Xml.nodeListGetString cur.children).getD policy.appDesc ∧
      policy'.rules.map some =
        policy.rules.map some ++ rulesOf (policy.rules.length + 1) nodes := by
  induction nodes generalizing policy with
  | nil =>
    cases h
    exact ⟨rfl, (List.append_nil _).symm⟩
  | cons cur rest ih =>
    unfold rulesOf
    rw [loadPolicy] at h
    split at h
    next happ =>
      obtain ⟨hdesc, hrules⟩ := ih h
      have hrule : ¬ cur.name = "rule" := by rw [happ]; decide
      refine ⟨?_, ?_⟩
      · rw [hdesc, List.filter_cons_of_pos (by simpa using happ)]
        cases hlast : (rest.filter (·.name = "appDesc")).getLast? with
        | none =>
          rw [List.getLast?_eq_none_iff.mp hlast]
          rfl
        | some last => rw [List.getLast?_cons, hlast]; rfl
      · rw [hrules, List.filter_cons_of_neg (by simpa using hrule)]
        rfl
    next happ =>
      split at h
      next hrule =>
        obtain ⟨rule, hload, hrest⟩ := Option.bind_eq_some_iff.mp h
        obtain ⟨hdesc, hrules⟩ := ih hrest
        refine ⟨?_, ?_⟩
        · rw [hdesc, List.filter_cons_of_neg (by simpa using happ)]
        · rw [hrules, List.filter_cons_of_pos (by simpa using hrule), List.zipIdx_cons,
            List.map_cons, List.map_append, List.append_assoc, hload, List.length_append]
          rfl
      next hrule =>
        obtain ⟨hdesc, hrules⟩ := ih h
        refine ⟨?_, ?_⟩
        · rw [hdesc, List.filter_cons_of_neg (by simpa using happ)]
        · rw [hrules, List.filter_cons_of_neg (by simpa using hrule)]
          rfl

theorem loadPolicy_appDesc {nodes : List Xml} {policy : Policy}
    (h : loadPolicy nodes ⟨none, []⟩ = some policy) : policy.appDesc = appDescOf nodes := by
  rw [(loadPolicy_spec h).1]
  unfold appDescOf
  cases (nodes.filter (·.name = "appDesc")).getLast? <;> rfl

theorem loadPolicy_rules {nodes : List Xml} {policy : Policy}
    (h : loadPolicy nodes ⟨none, []⟩ = some policy) (rule : Rule) :
    rule ∈ policy.rules ↔ some rule ∈ rulesOf 1 nodes := by
  have hrules : policy.rules.map some = rulesOf 1 nodes := (loadPolicy_spec h).2
  rw [← hrules, List.mem_map_of_injective (Option.some_injective _)]

/-- The policies that are loaded have the rules the elements have. -/
theorem loadPolicies_has {nodes : List Xml} {policies : List Policy}
    (h : loadPolicies nodes = some policies) (appDesc : Option String) (rule : Rule) :
    (∃ policy ∈ policies, policy.appDesc = appDesc ∧ rule ∈ policy.rules) ↔
      ∃ cur ∈ nodes, cur.name = "policy" ∧ appDescOf cur.children = appDesc ∧
        some rule ∈ rulesOf 1 cur.children := by
  induction nodes generalizing policies with
  | nil => cases h; simp
  | cons cur rest ih =>
    rw [loadPolicies] at h
    rw [List.exists_mem_cons_iff]
    split at h
    next hname =>
      obtain ⟨policy, hload, hrest⟩ := Option.bind_eq_some_iff.mp h
      obtain ⟨policies', hpolicies, rfl⟩ := Option.map_eq_some_iff.mp hrest
      rw [List.exists_mem_cons_iff, ih hpolicies, loadPolicy_appDesc hload,
        loadPolicy_rules hload, and_iff_right hname]
    next hname =>
      rw [ih h, or_iff_right fun hcur => hname hcur.1]

end PolicyLoad

/-! ## `active_rule` over a run -/

/-- What is activated is a rule of the application. -/
theorem taken_mem {net : Net ω} {location : String} {addr : List UInt8}
    {appDesc : Option String} {policies : List Policy} {w : ω} {rule : Rule}
    (h : rule ∈ taken net location addr appDesc policies w) :
    ∃ policy ∈ policies, policy.appDesc = appDesc ∧ rule ∈ policy.rules := by
  induction policies generalizing w with
  | nil => exact absurd h List.not_mem_nil
  | cons policy rest ih =>
    rw [List.exists_mem_cons_iff]
    rw [taken] at h
    split at h
    next hd =>
      rcases List.mem_append.mp h with hin | hrest
      · obtain ⟨pre, post, hrules, -⟩ := first_of_takenIn (Option.mem_toList.mp hin)
        refine Or.inl ⟨hd, ?_⟩
        rw [hrules]
        exact List.mem_append_right _ List.mem_cons_self
      · exact Or.inr (ih hrest)
    next => exact Or.inr (ih h)

namespace ActiveRule

open PolicyLoad (Document)

/-- One connection among the policies and the world around it. -/
structure Situation (ω : Type) where
  policies : List Policy
  conn : Connection
  world : ω
  latest : Option (List Rule)

inductive Event (ω : Type) where
  /-- The location, the links, or anything else outside changes. -/
  | change (f : ω → ω)
  /-- `parse_policies` -/
  | reload (doc : Document)
  | evaluate

/-- The rules of the application, and whether one of them applies now. -/
def Situation.NoneApplies (net : Net ω) (s : Situation ω) : Prop :=
  Sined.NoneApplies net (net.location s.world) s.conn.addr
    (candidates s.policies s.conn.appDesc) s.world

instance decSituation (net : Net ω) (s : Situation ω) : Decidable (s.NoneApplies net) :=
  inferInstanceAs (Decidable (Sined.NoneApplies ..))

def step (net : Net ω) (s : Situation ω) : Event ω → Option (Situation ω)
  | .change f => some { s with world := f s.world }
  | .reload doc =>
    (PolicyLoad.loadPolicies doc.elements).map fun policies => { s with policies := policies }
  | .evaluate => some { s with
      conn := (evaluate net s.policies s.conn s.world).1
      world := (evaluate net s.policies s.conn s.world).2
      latest := some (taken net (net.location s.world) s.conn.addr s.conn.appDesc s.policies
        s.world) }

/-- `active_rule` is 0, or the number of a rule that the latest evaluation has activated and
that the policies still have. -/
def Current (s : Situation ω) : Prop :=
  s.conn.activeRule = 0 ∨
    ∃ rules ∈ s.latest, ∃ rule ∈ rules, IsActive s.policies s.conn rule

/-- Where a rule is active, an evaluation finds one that applies, and a new document still
has the active one. -/
def ok (net : Net ω) (s : Situation ω) : Event ω → Prop
  | .change _ => True
  | .reload doc => s.conn.activeRule = 0 ∨
      ∃ rule ∈ s.latest.getD [], rule.ruleID = s.conn.activeRule ∧ doc.Has s.conn.appDesc rule
  | .evaluate => s.conn.activeRule = 0 ∨ ¬ s.NoneApplies net

instance decOk (net : Net ω) (s : Situation ω) :
    (event : Event ω) → Decidable (ok net s event)
  | .change _ => isTrue trivial
  | .reload _ => inferInstanceAs (Decidable (_ ∨ ∃ rule ∈ s.latest.getD [], _ ∧ _))
  | .evaluate => inferInstanceAs (Decidable (_ ∨ ¬ _))

theorem current_iff (s : Situation ω) :
    Current s ↔ s.conn.activeRule = 0 ∨
      ∃ rule ∈ s.latest.getD [], IsActive s.policies s.conn rule := by
  unfold Current
  cases s.latest with
  | none => simp
  | some rules => simp

/-- Documents: the active rule is looked for among the rules of the new one. -/
theorem reload_current_iff {net : Net ω} {s s' : Situation ω} {doc : Document}
    (hs : step net s (.reload doc) = some s') : Current s' ↔ ok net s (.reload doc) := by
  obtain ⟨policies, hload, rfl⟩ := Option.map_eq_some_iff.mp hs
  rw [current_iff]
  refine or_congr_right (exists_congr fun rule => and_congr_right fun _ => ?_)
  have hhas : _ ↔ doc.Has s.conn.appDesc rule :=
    PolicyLoad.loadPolicies_has hload s.conn.appDesc rule
  rw [← hhas]
  constructor
  · rintro ⟨policy, hp, hd, hr, hid⟩
    exact ⟨hid, policy, hp, hd, hr⟩
  · rintro ⟨hid, policy, hp, hd, hr⟩
    exact ⟨policy, hp, hd, hr, hid⟩

/-- Evaluations: without a rule that applies the field keeps what it held, and otherwise it
has the number of the last rule that was activated. -/
theorem evaluate_current_iff {net : Net ω} {s s' : Situation ω}
    (hs : step net s .evaluate = some s') : Current s' ↔ ok net s .evaluate := by
  cases hs
  have hconn : (evaluate net s.policies s.conn s.world).1 = _ :=
    evaluatePolicies_conn net (net.location s.world) s.policies s.conn s.world
  have hnil := @taken_eq_nil_iff _ net (net.location s.world) s.conn.addr s.conn.appDesc
    s.policies s.world
  rw [current_iff]
  show _ ↔ _ ∨ ¬ Sined.NoneApplies net _ _ _ _
  rw [← hnil]
  cases ht : taken net (net.location s.world) s.conn.addr s.conn.appDesc s.policies s.world with
  | nil =>
    rw [ht] at hconn
    simp [hconn, Connection.under]
  | cons rule others =>
    refine iff_of_true (Or.inr ?_) (Or.inr (List.cons_ne_nil _ _))
    have hlast := List.getLast?_eq_some_getLast (List.cons_ne_nil rule others)
    have hmem := List.getLast_mem (List.cons_ne_nil rule others)
    have htaken : (rule :: others).getLast (List.cons_ne_nil rule others) ∈
        taken net (net.location s.world) s.conn.addr s.conn.appDesc s.policies s.world := by
      rw [ht]
      exact hmem
    obtain ⟨policy, hp, hd, hr⟩ := taken_mem htaken
    rw [ht, hlast] at hconn
    refine ⟨_, hmem, policy, hp, ?_, hr, ?_⟩
    · rw [hconn]
      exact hd
    · rw [hconn]
      rfl

/-- One step: the field is still current afterwards exactly if the step is `ok`. -/
theorem step_current_iff {net : Net ω} {s s' : Situation ω} {event : Event ω}
    (h : Current s) (hs : step net s event = some s') : Current s' ↔ ok net s event := by
  cases event with
  | change f =>
    cases hs
    exact iff_of_true h trivial
  | reload doc => exact reload_current_iff hs
  | evaluate => exact evaluate_current_iff hs

/-- A connection as `add_connection` has made it. -/
def fresh (policies : List Policy) (conn : Connection) (w : ω) : Situation ω :=
  ⟨policies, { conn with activeRule := 0 }, w, none⟩

/-- The world is the location; all interfaces are up and every exchange succeeds. -/
def located : Net String where
  location w := w
  interfaceOn _ w := (true, w)
  setInterface _ _ w := (true, w)

/-- A policy for `ssh`: `eth0` at `columbia`. -/
def sshAtColumbia : Document :=
  .rooted "UserPolicies"
    [.element "policy" [.element "appDesc" [.text "/usr/bin/ssh"],
      .element "rule" [.element "location" [.text "columbia"],
        .element "interface" [.text "eth0"]]]]

/-- The policies are loaded and the connection is evaluated at `columbia`. -/
def atHome : List (Event String) := [.reload sshAtColumbia, .evaluate]

/-- The user goes to `boston`. -/
def moved : List (Event String) := atHome ++ [.change fun _ => "boston", .evaluate]

/-- The user takes the policy out of the file. -/
def withdrawn : List (Event String) := atHome ++ [.reload (.rooted "UserPolicies" [])]

def sshConnection : Connection := hipConnection 41 "/usr/bin/ssh" 6

end ActiveRule

end Manhattan.Sined
