import Manhattan.Lib.Run
import Manhattan.Sined.Pe

/-!
# Triggering the policy engine

The policy engine thread spins on `need_evaluation`: when it finds the flag set
it evaluates every connection of the table and clears the flag *afterwards*
(`pe_main_loop`). The location thread and the network manager's event thread set
it (`trigger_policy_engine`) after something has changed. The model interleaves

- the location thread: write the new location (`setLocation`), then the trigger;
- the MIH user changing the set of links, the event it sends, and the trigger the
  network manager's thread derives from the event;
- the engine: see the flag, take `con_tbl_mutex`, evaluate one connection after
  the other, release the mutex, clear the flag;
- the connection manager adding (evaluate first, link afterwards, both under
  `con_tbl_mutex`) and removing connections.

`version` counts the changes of the environment, `announced` is its value at the
latest trigger, and an entry's `seen` is the version its last `evaluate` read. A
trigger is *lost* if the engine comes to rest with an entry that has not seen what
was announced. Clearing the flag after the pass loses every trigger that arrives
behind the engine's back: `clear_after_pass_loses_trigger` is such a run.
`no_lost_trigger` proves that this is the only way: if no trigger falls into a
pass that has already evaluated a connection under an older environment, none is
lost.
-/

namespace Manhattan.Sined.Trigger

open Manhattan.Lib

/-- What `evaluate` reads: the location and the links that are up. -/
structure Env where
  location : String
  links : List String
  deriving DecidableEq, Repr

/-- A table entry and the version of the environment its last `evaluate` saw. -/
structure Entry where
  conn : Connection
  seen : Nat
  deriving DecidableEq, Repr

/-- Where `pe_main_loop` is: `observed` after reading `need_evaluation` as 1,
`evaluating n` inside `evaluate_all` with `n` connections done, `finished` between
the return of `evaluate_all` and the assignment that clears the flag. -/
inductive Engine where
  | idle
  | observed
  | evaluating (n : Nat)
  | finished
  deriving DecidableEq, Repr

structure State where
  env : Env
  version : Nat
  announced : Nat
  /-- the location thread has written and not yet triggered -/
  writing : Bool
  /-- events on their way to the network manager -/
  events : Nat
  needEvaluation : Bool
  engine : Engine
  table : List Entry
  /-- the connection manager inside `add_connection`, holding `con_tbl_mutex` -/
  adding : Option Entry
  deriving DecidableEq, Repr

/-- The start of the policy engine thread: `parse_policies` has set the flag if
the policy file was well-formed. -/
def init (env : Env) (needEvaluation : Bool) : State :=
  ⟨env, 0, 0, false, 0, needEvaluation, .idle, [], none⟩

inductive Act where
  | setLocation (location : String)
  | locationTrigger
  | setLinks (links : List String)
  | eventTrigger
  | observe
  | enterPass
  | evaluateNext
  | leavePass
  | clear
  | addEvaluate (conn : Connection)
  | addLink
  | remove (appID sockfd : Int)

/-- Nobody holds `con_tbl_mutex`. -/
def State.tableFree (s : State) : Bool :=
  s.adding.isNone && match s.engine with
    | .evaluating _ => false
    | _ => true

/-- `trigger_policy_engine` -/
def State.trigger (s : State) : State :=
  { s with needEvaluation := true, announced := s.version }

/-- The entry `evaluate` leaves behind. -/
def State.evaluated (s : State) (eval : Env → Connection → Connection) (conn : Connection) :
    Entry :=
  ⟨eval s.env conn, s.version⟩

/-- One step. `eval env conn` is the connection after `evaluate` under the
environment `env`; what it computes does not matter here. -/
def step (eval : Env → Connection → Connection) (s : State) : Act → Option State
  | .setLocation location =>
    if s.writing then none
    else some { s with
      env := { s.env with location := location }, version := s.version + 1, writing := true }
  | .locationTrigger => if s.writing then some { s.trigger with writing := false } else none
  | .setLinks links =>
    some { s with
      env := { s.env with links := links }, version := s.version + 1, events := s.events + 1 }
  | .eventTrigger =>
    if 0 < s.events then some { s.trigger with events := s.events - 1 } else none
  | .observe =>
    if s.engine = .idle ∧ s.needEvaluation = true then some { s with engine := .observed } else none
  | .enterPass =>
    if s.engine = .observed ∧ s.tableFree = true then some { s with engine := .evaluating 0 }
    else none
  | .evaluateNext =>
    match s.engine with
    | .evaluating n =>
      match s.table[n]? with
      | some e =>
        some { s with
          table := s.table.set n (s.evaluated eval e.conn), engine := .evaluating (n + 1) }
      | none => none
    | _ => none
  | .leavePass =>
    match s.engine with
    | .evaluating n => if n = s.table.length then some { s with engine := .finished } else none
    | _ => none
  | .clear =>
    if s.engine = .finished then some { s with needEvaluation := false, engine := .idle } else none
  | .addEvaluate conn =>
    if s.tableFree then some { s with adding := some (s.evaluated eval conn) } else none
  | .addLink =>
    match s.adding with
    | some e => some { s with table := s.table ++ [e], adding := none }
    | none => none
  | .remove appID sockfd =>
    if s.tableFree then
      some { s with table := s.table.filter fun e => !e.conn.hasKey appID sockfd }
    else none

/-! ## The specification -/

/-- Outside `evaluate_all` and with the flag down, every connection of the table
was evaluated after the latest change that was followed by a trigger. -/
def NoneLost (s : State) : Prop :=
  s.needEvaluation = false → (∀ n, s.engine ≠ .evaluating n) →
    ∀ e ∈ s.table, s.announced ≤ e.seen

/-- The connections the engine will not come back to before it clears the flag:
those its running pass has done, and after the pass all of them, including one
that is just being added. -/
def State.passed (s : State) : List Entry :=
  match s.engine with
  | .idle => []
  | .observed => []
  | .evaluating n => s.table.take n
  | .finished => s.table ++ s.adding.toList

/-- No trigger falls into a pass that has already evaluated a connection under an
older environment. -/
def ok (s : State) : Act → Prop
  | .locationTrigger => ∀ e ∈ s.passed, e.seen = s.version
  | .eventTrigger => ∀ e ∈ s.passed, e.seen = s.version
  | _ => True

instance decOk (s : State) : (a : Act) → Decidable (ok s a)
  | .locationTrigger => inferInstanceAs (Decidable (∀ e ∈ s.passed, e.seen = s.version))
  | .eventTrigger => inferInstanceAs (Decidable (∀ e ∈ s.passed, e.seen = s.version))
  | .setLocation _ | .setLinks _ | .observe | .enterPass | .evaluateNext | .leavePass | .clear
  | .addEvaluate _ | .addLink | .remove _ _ => isTrue trivial

/-! ## The invariant -/

/-- The entries the engine does not owe another evaluation: with the flag down all
of them, else those its running pass is done with. -/
def State.settled (s : State) : List Entry :=
  if s.needEvaluation then s.passed else s.table ++ s.adding.toList

structure Inv (s : State) : Prop where
  ann : s.announced ≤ s.version
  rest : s.needEvaluation = false → s.engine = .idle
  free : ∀ n, s.engine = .evaluating n → s.adding = none
  seen : ∀ e ∈ s.settled, s.announced ≤ e.seen

theorem init_inv (env : Env) (needEvaluation : Bool) : Inv (init env needEvaluation) where
  ann := Nat.le_refl _
  rest := fun _ => rfl
  free := by intro n h; cases h
  seen := by
    intro e he
    exact Nat.zero_le _

theorem tableFree_iff {s : State} (h : s.tableFree = true) :
    s.adding = none ∧ ∀ n, s.engine ≠ .evaluating n := by
  unfold State.tableFree at h
  rw [Bool.and_eq_true, Option.isNone_iff_eq_none] at h
  refine ⟨h.1, fun n he => ?_⟩
  rw [he] at h
  exact Bool.false_ne_true h.2

/-- A trigger is harmless where the condition holds: everything the engine will
not revisit has seen the present version. -/
theorem trigger_seen {s : State} (hok : ∀ e ∈ s.passed, e.seen = s.version) :
    ∀ e ∈ s.trigger.settled, s.trigger.announced ≤ e.seen := by
  intro e he
  have hp : e ∈ s.passed := he
  rw [hok e hp]
  exact Nat.le_refl _

/-- Outside its idle loop the engine runs with the flag up. -/
theorem Inv.need {s : State} (h : Inv s) (he : s.engine ≠ .idle) : s.needEvaluation = true := by
  cases hn : s.needEvaluation with
  | true => rfl
  | false => exact absurd (h.rest hn) he

/-- The engine moves on under the raised flag: what its pass is done with afterwards
it was done with before or has just evaluated. -/
theorem engine_inv {s s' : State} (h : Inv s) (hneed : s.needEvaluation = true)
    (hneed' : s'.needEvaluation = true) (hann : s'.announced = s.announced)
    (hver : s'.version = s.version)
    (hfree : ∀ n, s'.engine = .evaluating n → s'.adding = none)
    (hmem : ∀ e ∈ s'.passed, e ∈ s.passed ∨ e.seen = s.version) : Inv s' where
  ann := by rw [hann, hver]; exact h.ann
  rest := fun hn => nomatch hneed'.symm.trans hn
  free := hfree
  seen := by
    intro e he
    unfold State.settled at he
    rw [if_pos hneed'] at he
    rw [hann]
    rcases hmem e he with hold | hnow
    · refine h.seen e ?_
      unfold State.settled
      rw [if_pos hneed]
      exact hold
    · rw [hnow]
      exact h.ann

/-- Only with the flag down or after the pass are entries settled that the pass has
not just evaluated. -/
theorem mem_settled {s : State} {e : Entry} (hfree : ∀ n, s.engine ≠ .evaluating n)
    (he : e ∈ s.settled) : e ∈ s.table ++ s.adding.toList := by
  unfold State.settled at he
  by_cases hn : s.needEvaluation = true
  · rw [if_pos hn] at he
    unfold State.passed at he
    cases heng : s.engine with
    | idle => rw [heng] at he; cases he
    | observed => rw [heng] at he; cases he
    | evaluating n => exact absurd heng (hfree n)
    | finished => rw [heng] at he; exact he
  · rw [if_neg hn] at he
    exact he

/-- The next evaluation replaces entry `n`; the pass is then done with it and with
what it was done with before. -/
theorem mem_take_set {l : List Entry} {n : Nat} {e e' x : Entry} (hn : l[n]? = some e)
    (hx : x ∈ (l.set n e').take (n + 1)) : x = e' ∨ x ∈ l.take n := by
  have hlt : n < l.length := (List.getElem?_eq_some_iff.mp hn).1
  rw [List.take_succ_eq_append_getElem (by simpa using hlt)] at hx
  rcases List.mem_append.mp hx with hold | hnew
  · rw [List.take_set_of_le (Nat.le_refl n)] at hold
    exact Or.inr hold
  · rw [List.mem_singleton, List.getElem_set_self] at hnew
    exact Or.inl hnew

/-- The entries change while the engine is outside `evaluate_all`: whatever is
settled afterwards was settled before or has just been evaluated. -/
theorem table_inv {s s' : State} (h : Inv s) (hfree : ∀ n, s.engine ≠ .evaluating n)
    (heng : s'.engine = s.engine) (hneed : s'.needEvaluation = s.needEvaluation)
    (hann : s'.announced = s.announced) (hver : s'.version = s.version)
    (hmem : ∀ e ∈ s'.table ++ s'.adding.toList,
      e ∈ s.table ++ s.adding.toList ∨ e.seen = s.version) : Inv s' where
  ann := by rw [hann, hver]; exact h.ann
  rest := fun hn => heng.trans (h.rest (hneed.symm.trans hn))
  free := fun n hn => absurd (heng.symm.trans hn) (hfree n)
  seen := by
    intro e he
    have hfree' : ∀ n, s'.engine ≠ .evaluating n := by rw [heng]; exact hfree
    rw [hann]
    rcases hmem e (mem_settled hfree' he) with hold | hnow
    · refine h.seen e ?_
      -- an entry is settled or not by engine and flag, which have not moved
      unfold State.settled State.passed at he ⊢
      rw [heng, hneed] at he
      by_cases hn : s.needEvaluation = true
      · rw [if_pos hn] at he ⊢
        cases hs : s.engine with
        | idle => rw [hs] at he; cases he
        | observed => rw [hs] at he; cases he
        | evaluating n => exact absurd hs (hfree n)
        | finished => exact hold
      · rw [if_neg hn]
        exact hold
    · rw [hnow]
      exact h.ann

/-- The environment changes, and the engine has not been told yet. -/
theorem change_inv {s : State} (h : Inv s) (env : Env) (writing : Bool) (events : Nat) :
    Inv { s with
      env := env, version := s.version + 1, writing := writing, events := events } :=
  ⟨Nat.le_succ_of_le h.ann, h.rest, h.free, h.seen⟩

theorem trigger_inv {s : State} (h : Inv s) (hok : ∀ e ∈ s.passed, e.seen = s.version)
    (writing : Bool) (events : Nat) :
    Inv { s.trigger with writing := writing, events := events } :=
  ⟨Nat.le_refl _, (fun hn => nomatch hn), h.free, trigger_seen hok⟩

/-- The pass is done with one more entry, which it has just evaluated. -/
theorem evaluateNext_inv {eval : Env → Connection → Connection} {s : State} {n : Nat} {e : Entry}
    (h : Inv s) (heng : s.engine = .evaluating n) (hn : s.table[n]? = some e) :
    Inv { s with
      table := s.table.set n (s.evaluated eval e.conn), engine := .evaluating (n + 1) } := by
  have hneed := h.need (by rw [heng]; simp)
  refine engine_inv h hneed hneed rfl rfl (fun _ _ => h.free n heng) fun x hx => ?_
  rcases mem_take_set hn hx with hnew | hold
  · exact Or.inr (by rw [hnew]; rfl)
  · exact Or.inl (by rw [State.passed, heng]; exact hold)

/-- The pass has been through the whole table, and nobody is adding. -/
theorem leavePass_inv {s : State} (h : Inv s) (heng : s.engine = .evaluating s.table.length) :
    Inv { s with engine := .finished } := by
  have hneed := h.need (by rw [heng]; simp)
  refine engine_inv h hneed hneed rfl rfl (fun n he => nomatch he) fun e he => Or.inl ?_
  have he' : e ∈ s.table ++ s.adding.toList := he
  rw [h.free _ heng, Option.toList_none, List.append_nil] at he'
  rw [State.passed, heng]
  show e ∈ s.table.take s.table.length
  rw [List.take_length]
  exact he'

theorem clearFlag_inv {s : State} (h : Inv s) (heng : s.engine = .finished) :
    Inv { s with needEvaluation := false, engine := .idle } := by
  have hneed := h.need (by rw [heng]; simp)
  refine ⟨h.ann, fun _ => rfl, (fun n he => nomatch he), ?_⟩
  intro e he
  refine h.seen e ?_
  rw [State.settled, if_pos hneed, State.passed, heng]
  exact he

theorem addEvaluate_inv {eval : Env → Connection → Connection} {s : State} {conn : Connection}
    (h : Inv s) (hfree : s.tableFree = true) :
    Inv { s with adding := some (s.evaluated eval conn) } := by
  refine table_inv h (tableFree_iff hfree).2 rfl rfl rfl rfl fun e he => ?_
  rcases List.mem_append.mp he with ht | hnew
  · exact Or.inl (List.mem_append_left _ ht)
  · have heq : e = s.evaluated eval conn := by simpa using hnew
    exact Or.inr (by rw [heq]; rfl)

theorem addLink_inv {s : State} {e : Entry} (h : Inv s) (hadd : s.adding = some e) :
    Inv { s with table := s.table ++ [e], adding := none } := by
  have hfree : ∀ n, s.engine ≠ .evaluating n := by
    intro n he
    rw [h.free n he] at hadd
    cases hadd
  refine table_inv h hfree rfl rfl rfl rfl fun x hx => Or.inl ?_
  rw [hadd]
  simpa using hx

theorem remove_inv {s : State} {keep : Entry → Bool} (h : Inv s) (hfree : s.tableFree = true) :
    Inv { s with table := s.table.filter keep } := by
  refine table_inv h (tableFree_iff hfree).2 rfl rfl rfl rfl fun e he => Or.inl ?_
  rcases List.mem_append.mp he with ht | hadd
  · exact List.mem_append_left _ (List.mem_filter.mp ht).1
  · exact List.mem_append_right _ hadd

/-- One `ok` step preserves the invariant. -/
theorem step_inv {eval : Env → Connection → Connection} {s s' : State} {a : Act} (h : Inv s)
    (hok : ok s a) (hs : step eval s a = some s') : Inv s' := by
  cases a with
  | setLocation location =>
    obtain ⟨-, ⟨⟩⟩ := Option.ite_none_left_eq_some.mp hs
    exact change_inv h _ _ _
  | locationTrigger =>
    obtain ⟨-, ⟨⟩⟩ := Option.ite_none_right_eq_some.mp hs
    exact trigger_inv h hok _ _
  | setLinks links =>
    cases hs
    exact change_inv h _ _ _
  | eventTrigger =>
    obtain ⟨-, ⟨⟩⟩ := Option.ite_none_right_eq_some.mp hs
    exact trigger_inv h hok _ _
  | observe =>
    obtain ⟨hg, ⟨⟩⟩ := Option.ite_none_right_eq_some.mp hs
    exact engine_inv h hg.2 hg.2 rfl rfl (fun n he => nomatch he) fun e he => nomatch he
  | enterPass =>
    obtain ⟨hg, ⟨⟩⟩ := Option.ite_none_right_eq_some.mp hs
    have hneed := h.need (by rw [hg.1]; simp)
    exact engine_inv h hneed hneed rfl rfl (fun _ _ => (tableFree_iff hg.2).1)
      fun e he => nomatch he
  | evaluateNext =>
    simp only [step] at hs
    split at hs
    next n heng =>
      split at hs
      next e hn => cases hs; exact evaluateNext_inv h heng hn
      next => cases hs
    next => cases hs
  | leavePass =>
    simp only [step] at hs
    split at hs
    next n heng =>
      split at hs
      next hlen => cases hs; exact leavePass_inv h (hlen ▸ heng)
      next => cases hs
    next => cases hs
  | clear =>
    obtain ⟨heng, ⟨⟩⟩ := Option.ite_none_right_eq_some.mp hs
    exact clearFlag_inv h heng
  | addEvaluate conn =>
    obtain ⟨hg, ⟨⟩⟩ := Option.ite_none_right_eq_some.mp hs
    exact addEvaluate_inv h hg
  | addLink =>
    simp only [step] at hs
    split at hs
    next e hadd => cases hs; exact addLink_inv h hadd
    next => cases hs
  | remove appID sockfd =>
    obtain ⟨hg, ⟨⟩⟩ := Option.ite_none_right_eq_some.mp hs
    exact remove_inv h hg

/-- **No lost re-evaluation.** Over every interleaving of the location thread, the
link events, the connection manager and the engine: if no trigger falls into a
pass that has already evaluated a connection under an older environment, then
whenever the flag is down and the engine outside `evaluate_all`, every connection
was evaluated after the latest change that was followed by a trigger. -/
theorem no_lost_trigger (eval : Env → Connection → Connection) (env : Env)
    (needEvaluation : Bool) (as : List Act) {s : State}
    (hok : Meets (step eval) ok (init env needEvaluation) as)
    (hr : run (step eval) (init env needEvaluation) as = some s) : NoneLost s := by
  have h : Inv s := run_inv step_inv as (init_inv env needEvaluation) hok hr
  intro hn _ e he
  refine h.seen e ?_
  unfold State.settled
  rw [hn]
  exact List.mem_append_left _ he

/-- The network manager under a fixed environment, every interface change
succeeding. -/
def envNet : Net Env where
  location env := env.location
  interfaceOn ifname env := (env.links.contains (printed ifname), env)
  setInterface _ _ env := (true, env)

/-- `evaluate` for the application's policy of `sine_policy.conf`. -/
def vlcEval (env : Env) (conn : Connection) : Connection :=
  (evaluate envNet
    [⟨some "/usr/bin/vlc",
      [⟨1, some "columbia", -1, -1, some "wlan0"⟩, ⟨2, some "home", -1, -1, some "eth0"⟩,
       ⟨3, some "car", -1, -1, some "ppp0"⟩]⟩] conn env).1

def vlcConn (sockfd : Int) : Connection :=
  ⟨40, some "/usr/bin/vlc", sockfd, 0, [], protoUnspec, 0⟩

def atHome : Env := ⟨"home", ["wlan0", "eth0", "ppp0"]⟩

/-- Two connections, a move to the car between two passes. -/
def quietMove : List Act :=
  [.addEvaluate (vlcConn 5), .addLink, .addEvaluate (vlcConn 6), .addLink,
   .setLocation "car", .locationTrigger, .observe, .enterPass, .evaluateNext, .evaluateNext,
   .leavePass, .clear]

theorem no_lost_trigger_quietMove :
    ∃ s, run (step vlcEval) (init atHome false) quietMove = some s ∧ NoneLost s ∧
      s.table.map (fun e => e.conn.activeRule) = [3, 3] :=
  ⟨_, rfl, no_lost_trigger vlcEval atHome false quietMove (by decide) rfl, by decide⟩

/-- The same move while a pass is between the two connections. -/
def moveInsidePass : List Act :=
  [.addEvaluate (vlcConn 5), .addLink, .addEvaluate (vlcConn 6), .addLink,
   .setLinks ["eth0", "ppp0"], .eventTrigger, .observe, .enterPass, .evaluateNext,
   .setLocation "car", .locationTrigger, .evaluateNext, .leavePass, .clear]

/-- **The trigger is lost.** The location thread announces the car after the first
connection was evaluated for `home`; the engine clears the flag it has just set,
and the first connection keeps the rule for `home`. -/
theorem clear_after_pass_loses_trigger :
    ∃ s, run (step vlcEval) (init atHome false) moveInsidePass = some s ∧ ¬ NoneLost s ∧
      s.env.location = "car" ∧ s.table.map (fun e => e.conn.activeRule) = [2, 3] := by
  refine ⟨_, rfl, ?_, by decide, by decide⟩
  intro h
  have hseen := h rfl (by intro n he; cases he) ⟨{ vlcConn 5 with activeRule := 2 }, 1⟩ (by decide)
  exact absurd hseen (by decide)

end Manhattan.Sined.Trigger
