import Manhattan.Sined.Conmgr
import Manhattan.Sined.Netmgr

/-!
# The policy engine's evaluation (`sined/src/pe.c`)

A policy belongs to an application (`app_desc`) and holds a list of rules; a rule
names a location and an interface. `evaluate` goes through the policies of the
connection's application and, in each of them, applies the first rule whose
location is the current one, whose interface is up, and whose interface change
the network manager reports as done. `evaluate_all` does this for every
connection of the table.

Evaluation talks to the outside while it runs: it reads the location, asks
whether an interface is up and orders interface changes. `Net ω` is that
interface over an arbitrary world `ω`, which every call may change; "for every
answer of the environment" is then "for every `ω` and every `Net ω`".
-/

namespace Manhattan.Sined

/-- `rule_t`. A missing string is a null pointer. -/
structure Rule where
  ruleID : Int
  location : Option String
  bandwidth : Int
  cost : Int
  interface : Option String
  deriving DecidableEq, Repr

/-- `policy_t` -/
structure Policy where
  appDesc : Option String
  rules : List Rule
  deriving DecidableEq, Repr

/-- The location manager and the network manager as `evaluate` sees them. The
second component of `setInterface` is `true` where `netmgr_set_interface`
returns 0. -/
structure Net (ω : Type) where
  location : ω → String
  interfaceOn : Option String → ω → Bool × ω
  setInterface : List UInt8 → Option String → ω → Bool × ω

variable {ω : Type}

/-- `evaluate_rule`: 1 (`true`) when the rule was activated. `xmlStrcmp` equates
two null pointers and tells a null pointer from every string. -/
def evaluateRule (net : Net ω) (location : String) (rule : Rule) (conn : Connection) (w : ω) :
    Bool × Connection × ω :=
  if rule.location = some location then
    match net.interfaceOn rule.interface w with
    | (false, w₁) => (false, conn, w₁)
    | (true, w₁) =>
      match net.setInterface conn.addr rule.interface w₁ with
      | (true, w₂) => (true, { conn with activeRule := rule.ruleID }, w₂)
      | (false, w₂) => (false, conn, w₂)
  else (false, conn, w)

/-- The inner loop of `evaluate`, left at the first activated rule. -/
def evaluateRules (net : Net ω) (location : String) :
    List Rule → Connection → ω → Connection × ω
  | [], conn, w => (conn, w)
  | rule :: rest, conn, w =>
    match evaluateRule net location rule conn w with
    | (true, conn', w') => (conn', w')
    | (false, conn', w') => evaluateRules net location rest conn' w'

/-- The outer loop of `evaluate`: it goes on after a policy in which a rule was
activated. -/
def evaluatePolicies (net : Net ω) (location : String) :
    List Policy → Connection → ω → Connection × ω
  | [], conn, w => (conn, w)
  | policy :: rest, conn, w =>
    if policy.appDesc = conn.appDesc then
      match evaluateRules net location policy.rules conn w with
      | (conn', w') => evaluatePolicies net location rest conn' w'
    else evaluatePolicies net location rest conn w

/-- `evaluate` -/
def evaluate (net : Net ω) (policies : List Policy) (conn : Connection) (w : ω) :
    Connection × ω :=
  evaluatePolicies net (net.location w) policies conn w

/-- `evaluate_all` -/
def evaluateAll (net : Net ω) (policies : List Policy) :
    List Connection → ω → List Connection × ω
  | [], w => ([], w)
  | conn :: rest, w =>
    match evaluate net policies conn w with
    | (conn', w') =>
      match evaluateAll net policies rest w' with
      | (rest', w'') => (conn' :: rest', w'')

/-! ## `evaluate` writes nothing but `active_rule` -/

/-- The two connections differ at most in `active_rule`. -/
def SameButRule (c c' : Connection) : Prop :=
  c' = { c with activeRule := c'.activeRule }

theorem SameButRule.refl (c : Connection) : SameButRule c c := rfl

theorem SameButRule.trans {c₁ c₂ c₃ : Connection} (h₁ : SameButRule c₁ c₂)
    (h₂ : SameButRule c₂ c₃) : SameButRule c₁ c₃ := by
  unfold SameButRule at h₁ h₂ ⊢
  rw [h₂, h₁]

theorem evaluateRule_same (net : Net ω) (location : String) (rule : Rule) (conn : Connection)
    (w : ω) : SameButRule conn (evaluateRule net location rule conn w).2.1 := by
  unfold evaluateRule
  split
  · split
    · rfl
    · split <;> rfl
  · rfl

theorem evaluateRules_same (net : Net ω) (location : String) :
    ∀ (rules : List Rule) (conn : Connection) (w : ω),
      SameButRule conn (evaluateRules net location rules conn w).1 := by
  intro rules
  induction rules with
  | nil => intro conn w; exact .refl conn
  | cons rule rest ih =>
    intro conn w
    have hrule := evaluateRule_same net location rule conn w
    rw [evaluateRules]
    split
    next conn' w' heq => rw [heq] at hrule; exact hrule
    next conn' w' heq => rw [heq] at hrule; exact hrule.trans (ih conn' w')

theorem evaluatePolicies_same (net : Net ω) (location : String) :
    ∀ (policies : List Policy) (conn : Connection) (w : ω),
      SameButRule conn (evaluatePolicies net location policies conn w).1 := by
  intro policies
  induction policies with
  | nil => intro conn w; exact .refl conn
  | cons policy rest ih =>
    intro conn w
    rw [evaluatePolicies]
    split
    · exact (evaluateRules_same net location policy.rules conn w).trans (ih _ _)
    · exact ih conn w

theorem evaluate_same (net : Net ω) (policies : List Policy) (conn : Connection) (w : ω) :
    SameButRule conn (evaluate net policies conn w).1 :=
  evaluatePolicies_same net _ policies conn w

end Manhattan.Sined
