import Mathlib.Logic.Relation
import Manhattan.Middleware.PolicyModel

/-!
# What a call of `policyModel` does, step by step

The loops of the evaluator are taken apart into steps: a rule's header is read, a
condition line is read, one of its clauses is evaluated, and a line whose clauses all
hold is commanded and then refused by the authentication. `LineStep` are the steps
inside a rule, `Step` adds the headers. A call is a sequence of these steps, followed by
one more activation if it returns a name (`policyModel_outcome`).

What has happened in the current rule can be read off the events (`View`): the header's
clause, the clauses of the line that is being evaluated, and those of the lines before
it. The invariant is that the rule's `Action` object is what all these clauses together
have written into it, and that each event is justified by those before
it (`policyModel_justified`).
-/

namespace Manhattan.Middleware.PolicyModel

open Manhattan.Lib

/-! ## The current rule -/

/-- A clause with the query it has led to. -/
abbrev Evaluated := Clause × Query

structure View where
  /-- The header line of the rule. -/
  header : Text
  headerClause : Option Evaluated
  /-- The clauses of the lines before the current one, newest first. -/
  earlier : List Evaluated
  /-- The current line. -/
  line : Text
  /-- Its clauses, newest first. -/
  done : List Evaluated
  deriving DecidableEq, Repr

def view : List Event → View
  | [] => ⟨[], none, [], [], []⟩
  | .rule _ text :: _ => ⟨text, none, [], [], []⟩
  | .header c query :: log => { view log with headerClause := some (c, query) }
  | .line _ text :: log =>
    { view log with earlier := (view log).done ++ (view log).earlier, line := text, done := [] }
  | .clause c query :: log => { view log with done := (c, query) :: (view log).done }
  | .policy _ :: log => view log
  | .hipEncrypt _ :: log => view log
  | .setHipIf _ :: log => view log
  | .setMipIf _ :: log => view log
  | .shib _ _ :: log => view log
  | .confirmHipIf _ :: log => view log

/-- All clauses of the rule that have been evaluated, newest first. -/
def View.clauses (v : View) : List Evaluated := v.done ++ (v.earlier ++ v.headerClause.toList)

/-- All clauses of the current line have been evaluated. -/
def View.Complete (v : View) : Prop :=
  v.done.map Prod.fst = ((pieces ',' v.line).map clauseOf).reverse ∧ v.headerClause ≠ none

/-- The interface that clauses leave in the `Action` object. -/
def interfaceOf (data : Option Text) : Text := data.getD []

/-- The encryption that clauses leave there. -/
def encryptedOf (data : Option Text) : Bool := data.elim true fun d => d ≠ "off".toList

/-- The data of the last clause with a keyword, newest first. -/
def lastData (k : Keyword) (cs : List Clause) : Option Text :=
  (cs.find? fun c => c.keyword = k).map (·.data)

def actionOf (cs : List Clause) : Action :=
  ⟨interfaceOf (lastData .inter cs), encryptedOf (lastData .encrypt cs)⟩

def View.action (v : View) : Action := actionOf (v.clauses.map Prod.fst)

/-! ## The steps -/

section

variable (env : Env) (appID : Int)

/-- A step inside a rule, on the `Action` object and the events. -/
inductive LineStep : Action × List Event → Action × List Event → Prop where
  | line (act : Action) (log : List Event) (pos : Nat) (text : Text) :
      LineStep (act, log) (act, .line pos text :: log)
  | clause (act : Action) (log : List Event) (t : Text) :
      LineStep (act, log) ((evaluate env log act (clauseOf t)).2.1,
        .clause (clauseOf t) (evaluate env log act (clauseOf t)).2.2 :: log)
  | refused (act : Action) (log : List Event) (hc : (view log).Complete)
      (hr : (activate env appID act log).1 = false) :
      LineStep (act, log) (act, (activate env appID act log).2)

inductive Step : Action × List Event → Action × List Event → Prop where
  | rule (act : Action) (log : List Event) (pos : Nat) (text : Text) :
      Step (act, log) ((tryHeader env pos text log).2.1, (tryHeader env pos text log).2.2)
  | inRule {s s' : Action × List Event} (h : LineStep env appID s s') : Step s s'

/-- What a call that has found the header at `pos` may have done so far. -/
def Reached (pos : Nat) (act : Action) (log : List Event) : Prop :=
  Relation.ReflTransGen (Step env appID) (newAction, [.policy pos]) (act, log)

/-- A line is activated and the authentication succeeds. -/
def Accepts (act : Action) (log : List Event) : Prop :=
  (view log).Complete ∧ (activate env appID act log).1 = true

variable {env appID}

/-- What every step keeps holds after any number of them. -/
theorem reached_inv {I : Action × List Event → Prop}
    (hstep : ∀ {s s'}, I s → Step env appID s s' → I s') {pos : Nat} {act : Action}
    {log : List Event} (h₀ : I (newAction, [.policy pos])) (h : Reached env appID pos act log) :
    I (act, log) := by
  unfold Reached at h
  generalize (act, log) = s at h ⊢
  induction h with
  | refl => exact h₀
  | tail _ hlast ih => exact hstep ih hlast

end

/-! ## The loops are made of these steps -/

/-- Several steps inside a rule. -/
abbrev LineSteps (env : Env) (appID : Int) :=
  Relation.ReflTransGen (LineStep env appID)

section

variable (env : Env) (appID : Int)

@[simp] theorem view_activate (act : Action) (log : List Event) :
    view (activate env appID act log).2 = view log := by
  unfold activate
  split
  · rfl
  · dsimp only
    split <;> rfl

theorem evalClauses_steps (ts : List Text) (act : Action) (log : List Event) :
    LineSteps env appID (act, log)
      ((evalClauses env ts act log).2.1, (evalClauses env ts act log).2.2) := by
  induction ts generalizing act log with
  | nil => exact .refl
  | cons t ts ih =>
    unfold evalClauses
    dsimp only
    split
    · exact .head (.clause act log t) (ih _ _)
    · exact .single (.clause act log t)

/-- The clauses of a line are added to those done; nothing else in the rule changes. -/
theorem evalClauses_view (ts : List Text) (act : Action) (log : List Event) :
    (view (evalClauses env ts act log).2.2).line = (view log).line ∧
    (view (evalClauses env ts act log).2.2).headerClause = (view log).headerClause ∧
    ((evalClauses env ts act log).1 = true →
      (view (evalClauses env ts act log).2.2).done.map Prod.fst =
        (ts.map clauseOf).reverse ++ (view log).done.map Prod.fst) := by
  induction ts generalizing act log with
  | nil => exact ⟨rfl, rfl, fun _ => rfl⟩
  | cons t ts ih =>
    unfold evalClauses
    dsimp only
    split
    · obtain ⟨hline, hheader, hdone⟩ := ih (evaluate env log act (clauseOf t)).2.1
        (.clause (clauseOf t) (evaluate env log act (clauseOf t)).2.2 :: log)
      refine ⟨hline, hheader, fun hpass => ?_⟩
      rw [hdone hpass, List.map_cons, List.reverse_cons, List.append_assoc]
      rfl
    · exact ⟨rfl, rfl, fun h => nomatch h⟩

/-- A condition line is rejected by one of its clauses, or its clauses all hold and it is
activated. -/
theorem tryLine_cases (pos : Nat) (text : Text) (act : Action) {log : List Event}
    (hh : (view log).headerClause ≠ none) :
    ∃ act₁ log₁, LineSteps env appID (act, log) (act₁, log₁) ∧
      (view log₁).headerClause ≠ none ∧
      (tryLine env appID pos text act log = (none, act₁, log₁) ∨
        ((view log₁).Complete ∧ tryLine env appID pos text act log =
          (if (activate env appID act₁ log₁).1 then some act₁.interface else none, act₁,
            (activate env appID act₁ log₁).2))) := by
  have hsteps := evalClauses_steps env appID (pieces ',' text) act (.line pos text :: log)
  obtain ⟨hline, hheader, hdone⟩ := evalClauses_view env (pieces ',' text) act
    (.line pos text :: log)
  unfold tryLine
  generalize evalClauses env (pieces ',' text) act (.line pos text :: log) = r at *
  obtain ⟨pass, act₁, log₁⟩ := r
  have hheader₁ : (view log₁).headerClause ≠ none := fun e => hh (hheader.symm.trans e)
  refine ⟨act₁, log₁, .head (.line act log pos text) hsteps, hheader₁, ?_⟩
  cases pass with
  | false => exact Or.inl rfl
  | true =>
    refine Or.inr ⟨⟨?_, hheader₁⟩, ?_⟩
    · rw [hdone rfl, hline]
      exact List.append_nil _
    · dsimp only
      cases activate env appID act₁ log₁ with
      | mk ok log₂ => cases ok <;> rfl

/-- The loop over the condition lines takes steps inside the rule, and then returns
nothing, or activates a line that is accepted. -/
theorem evalLines_steps (n : Nat) (r : Reader) (act : Action) {log : List Event}
    (hh : (view log).headerClause ≠ none) :
    ∃ act₁ log₁ r', LineSteps env appID (act, log) (act₁, log₁) ∧
      (evalLines env appID n r act log = (none, r', log₁) ∨
        (Accepts env appID act₁ log₁ ∧ evalLines env appID n r act log =
          (some act₁.interface, r', (activate env appID act₁ log₁).2))) := by
  induction n generalizing r act log with
  | zero => exact ⟨act, log, r, .refl, Or.inl rfl⟩
  | succ n ih =>
    unfold evalLines
    dsimp only
    obtain ⟨act₁, log₁, hsteps, hheader, hline⟩ :=
      tryLine_cases env appID r.pos (cstr (r.getline 255).str) act hh
    rcases hline with htry | ⟨hcomplete, htry⟩
    · rw [htry]
      obtain ⟨act₂, log₂, r', hrest, hend⟩ := ih (r.getline 255) act₁ hheader
      exact ⟨act₂, log₂, r', hsteps.trans hrest, hend⟩
    · rw [htry]
      cases hok : (activate env appID act₁ log₁).1 with
      | true => exact ⟨act₁, log₁, _, hsteps, Or.inr ⟨⟨hcomplete, hok⟩, rfl⟩⟩
      | false =>
        have hheader₂ : (view (activate env appID act₁ log₁).2).headerClause ≠ none := by
          rw [view_activate]
          exact hheader
        obtain ⟨act₂, log₂, r', hrest, hend⟩ := ih (r.getline 255) act₁ hheader₂
        exact ⟨act₂, log₂, r', (hsteps.tail (.refused act₁ log₁ hcomplete hok)).trans hrest, hend⟩

theorem tryHeader_view (pos : Nat) (text : Text) (log : List Event) :
    (view (tryHeader env pos text log).2.2).headerClause ≠ none := by
  unfold tryHeader
  exact fun h => nomatch h

theorem evalRules_steps (n : Nat) (r : Reader) (act : Action) (log : List Event) :
    ∃ act₁ log₁, Relation.ReflTransGen (Step env appID) (act, log) (act₁, log₁) ∧
      (evalRules env appID n r log = (none, log₁) ∨
        (Accepts env appID act₁ log₁ ∧ evalRules env appID n r log =
          (some act₁.interface, (activate env appID act₁ log₁).2))) := by
  induction n generalizing r act log with
  | zero => exact ⟨act, log, .refl, Or.inl rfl⟩
  | succ n ih =>
    have hrule : Step env appID (act, log) _ :=
      .rule act log r.pos (cstr (r.getline 255).str)
    have hheader := tryHeader_view env r.pos (cstr (r.getline 255).str) log
    unfold evalRules
    dsimp only
    generalize tryHeader env r.pos (cstr (r.getline 255).str) log = h at *
    obtain ⟨pass, act₁, log₁⟩ := h
    cases pass with
    | false =>
      obtain ⟨act₂, log₂, hrest, hend⟩ := ih _ act₁ log₁
      exact ⟨act₂, log₂, .head hrule hrest, hend⟩
    | true =>
      obtain ⟨act₂, log₂, r', hlines, hend⟩ :=
        evalLines_steps env appID (condCount (cstr (r.getline 255).str)) (r.getline 255) act₁
          hheader
      have hsteps : Relation.ReflTransGen (Step env appID) (act, log) (act₂, log₂) :=
        .head hrule (Relation.ReflTransGen.mono (fun _ _ => .inRule) _ _ hlines)
      rcases hend with hnone | ⟨haccepts, hsome⟩
      · dsimp only
        rw [hnone]
        obtain ⟨act₃, log₃, hrest, hend⟩ := ih r' act₂ log₂
        exact ⟨act₃, log₃, hsteps.trans hrest, hend⟩
      · dsimp only
        rw [hsome]
        exact ⟨act₂, log₂, hsteps, Or.inr ⟨haccepts, rfl⟩⟩

/-- What a call returns and does: nothing at all, where it finds no policy; otherwise
steps after which it returns null, or accepts a line. -/
inductive Outcome : Result × List Event → Prop where
  | unread : Outcome (.null, [])
  | unknown : Outcome (.noReturn, [])
  | null {pos : Nat} {act : Action} {log : List Event} (h : Reached env appID pos act log) :
      Outcome (.null, log)
  | accepted {pos : Nat} {act : Action} {log : List Event} (h : Reached env appID pos act log)
      (ha : Accepts env appID act log) :
      Outcome (.name act.interface, (activate env appID act log).2)

theorem evalPolicy_outcome (pos : Nat) (r : Reader) :
    Outcome env appID (evalPolicy env appID pos r) := by
  obtain ⟨act, log, hsteps, hend⟩ :=
    evalRules_steps env appID (ruleCount r.str) r newAction [.policy pos]
  unfold evalPolicy
  rcases hend with hnone | ⟨haccepts, hsome⟩
  · rw [hnone]
    exact .null hsteps
  · rw [hsome]
    exact .accepted hsteps haccepts

theorem search_outcome (lines : List Text) (pos : Nat) (str : Text) :
    Outcome env appID (search env appID lines pos str) := by
  induction lines generalizing pos str with
  | nil =>
    unfold search
    dsimp only
    split
    · exact evalPolicy_outcome env appID pos _
    · exact .unknown
  | cons line lines ih =>
    unfold search
    dsimp only
    split
    · exact evalPolicy_outcome env appID pos _
    · split
      · exact .unknown
      · exact ih _ _

theorem policyModel_outcome (file : Option (List Text)) :
    Outcome env appID (policyModel env file appID) := by
  cases file with
  | none => exact .unread
  | some lines => exact search_outcome env appID lines 0 []

end

/-! ## What the events say -/

/-- Every event has a property, given the events before it. -/
def Everywhere (P : Event → List Event → Prop) : List Event → Prop
  | [] => True
  | e :: log => P e log ∧ Everywhere P log

theorem Everywhere.congr {P Q : Event → List Event → Prop} {log : List Event}
    (h : Everywhere (fun e log => P e log ↔ Q e log) log) :
    Everywhere P log ↔ Everywhere Q log := by
  induction log with
  | nil => exact Iff.rfl
  | cons e log ih => exact and_congr h.1 (ih h.2)

/-- What holds of an event whose history has a property everywhere. -/
theorem Everywhere.imp {P Q : Event → List Event → Prop} {log : List Event}
    (hPQ : ∀ e log, Everywhere P log → P e log → Q e log) (h : Everywhere P log) :
    Everywhere Q log := by
  induction log with
  | nil => trivial
  | cons e log ih => exact ⟨hPQ e log h.2 h.1, ih h.2⟩

/-- Interface clauses ask for the status of their interface, and no others do. -/
def Asks (e : Evaluated) : Prop :=
  (e.1.keyword = .inter → ∃ answer, e.2 = .status e.1.data answer) ∧
    (e.1.keyword ≠ .inter → ∀ name answer, e.2 ≠ .status name answer)

/-- What an event has to do with those before it. -/
def Justified : Event → List Event → Prop
  | .header c query, log => Asks (c, query) ∧ ∃ pos text rest data1,
      log = .rule pos text :: rest ∧ c = headerClause data1 text
  | .clause c query, _ => Asks (c, query)
  | .hipEncrypt on, log => on = (view log).action.encrypted ∧ (view log).Complete
  | .setHipIf name, log => name = (view log).action.interface ∧ (view log).Complete
  | .setMipIf name, log => name = (view log).action.interface ∧ (view log).Complete
  | _, _ => True

/-- What a clause writes into the `Action` object. -/
def Action.set (act : Action) (c : Clause) : Action :=
  match c.keyword with
  | .inter => { act with interface := c.data }
  | .encrypt => { act with encrypted := c.data ≠ "off".toList }
  | _ => act

theorem actionOf_cons (c : Clause) (cs : List Clause) :
    actionOf (c :: cs) = (actionOf cs).set c := by
  unfold actionOf lastData Action.set
  cases hk : c.keyword <;> simp [hk, interfaceOf, encryptedOf]

/-- The clauses of the last line become earlier ones. -/
theorem view_line_clauses (pos : Nat) (text : Text) (log : List Event) :
    (view (.line pos text :: log)).clauses = (view log).clauses := by
  show [] ++ (((view log).done ++ (view log).earlier) ++ (view log).headerClause.toList) = _
  rw [List.nil_append, List.append_assoc]
  rfl

section

variable (env : Env) (appID : Int)

theorem evaluate_set (log : List Event) (act : Action) (c : Clause) :
    (evaluate env log act c).2.1 = act.set c ∧ Asks (c, (evaluate env log act c).2.2) := by
  unfold evaluate Action.set Asks interfaceEval resolveLocation
  cases c.keyword <;> simp

theorem evaluateHeader_set (log : List Event) (act : Action) (c : Clause) :
    (evaluateHeader env log act c).2.1 = act.set c ∧
      Asks (c, (evaluateHeader env log act c).2.2) := by
  unfold evaluateHeader Action.set Asks interfaceEval resolveLocation
  cases c.keyword <;> simp

/-- The commands are for what the `Action` object says. -/
theorem activate_justified {act : Action} {log : List Event} (hact : act = (view log).action)
    (hc : (view log).Complete) (h : Everywhere Justified log) :
    Everywhere Justified (activate env appID act log).2 := by
  have hset : act.interface = (view log).action.interface := by rw [← hact]
  have henc : act.encrypted = (view log).action.encrypted := by rw [← hact]
  unfold activate
  split
  · exact ⟨trivial, ⟨hset, hc⟩, h⟩
  · dsimp only
    split
    · exact ⟨trivial, trivial, ⟨hset, hc⟩, ⟨henc, hc⟩, h⟩
    · exact ⟨trivial, ⟨hset, hc⟩, ⟨henc, hc⟩, h⟩

variable {env appID}

theorem lineStep_justified {act act' : Action} {log log' : List Event}
    (hs : LineStep env appID (act, log) (act', log')) (hact : act = (view log).action)
    (h : Everywhere Justified log) : act' = (view log').action ∧ Everywhere Justified log' := by
  cases hs with
  | line _ _ pos text =>
    refine ⟨?_, trivial, h⟩
    unfold View.action
    rw [view_line_clauses]
    exact hact
  | clause _ _ t =>
    obtain ⟨hset, hasks⟩ := evaluate_set env log act (clauseOf t)
    refine ⟨?_, hasks, h⟩
    rw [hset, hact]
    exact (actionOf_cons _ _).symm
  | refused _ _ hc hr =>
    refine ⟨?_, activate_justified env appID hact hc h⟩
    rw [view_activate]
    exact hact

theorem step_justified {act act' : Action} {log log' : List Event}
    (hs : Step env appID (act, log) (act', log')) (hact : act = (view log).action)
    (h : Everywhere Justified log) : act' = (view log').action ∧ Everywhere Justified log' := by
  cases hs with
  | rule _ _ pos text =>
    -- a new `Action` object, and a view that starts over
    obtain ⟨hset, hasks⟩ := evaluateHeader_set env (.rule pos text :: log) newAction
      (headerClause (env.data1 (.rule pos text :: log)) text)
    refine ⟨hset.trans (actionOf_cons _ []).symm, ⟨hasks, pos, text, log, _, rfl, rfl⟩, trivial, h⟩
  | inRule hs => exact lineStep_justified hs hact h

theorem reached_justified {pos : Nat} {act : Action} {log : List Event}
    (h : Reached env appID pos act log) : act = (view log).action ∧ Everywhere Justified log :=
  reached_inv (I := fun s => s.1 = (view s.2).action ∧ Everywhere Justified s.2)
    (fun hI hs => step_justified hs hI.1 hI.2) ⟨rfl, trivial, trivial⟩ h

end

/-- In every call each event is justified by those before it. -/
theorem policyModel_justified (env : Env) (file : Option (List Text)) (appID : Int) :
    Everywhere Justified (policyModel env file appID).2 := by
  have hout := policyModel_outcome env appID file
  generalize policyModel env file appID = out at *
  cases hout with
  | unread => trivial
  | unknown => trivial
  | null h => exact (reached_justified h).2
  | accepted h ha =>
    obtain ⟨hact, hj⟩ := reached_justified h
    exact activate_justified env appID hact ha.1 hj

end Manhattan.Middleware.PolicyModel
