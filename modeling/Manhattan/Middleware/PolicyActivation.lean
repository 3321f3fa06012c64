import Manhattan.Middleware.PolicyTrace

/-!
# What a condition line commands

A line is activated with the interface and the encryption that are in the rule's `Action`
object at that moment. Three things are asked about it.

Whether they are the header's and the line's own. They are not where a line that was
tried before has left something in the object that the activated line does not write
again: a rejected line with `encrypt off` switches the encryption of the next one off.
`alternatives_independent_iff` is the exact condition.

Whether the interface is up. A clause `inter` writes the name before it asks for the
status, and is not asked again by a later line, so that a name whose status was not `up`
may still be commanded; so may the empty name, by a rule without such a clause.
`commands_usable_iff` is the exact condition.

And what authentication decides: `authentication_decides`. The command goes out first.
A refused interface stays commanded; the next line may command another one, but none of
the messages takes a command back.
-/

namespace Manhattan.Middleware.PolicyModel

open Manhattan.Lib

/-! ## The header and the line alone -/

/-- The clauses of a line, newest first. -/
def lineClauses (line : Text) : List Clause := ((pieces ',' line).map clauseOf).reverse

/-- What a header and a line call for; `data1` is what the array for the header's data
held. -/
def alone (header line data1 : Text) : Action :=
  actionOf (lineClauses line ++ [headerClause data1 header])

/-- **The line is activated as the header and the line alone call for**, whatever an
array held. -/
def Independent : Event → List Event → Prop
  | .hipEncrypt on, log =>
    ∀ data1, on = (alone (view log).header (view log).line data1).encrypted
  | .setHipIf name, log =>
    ∀ data1, name = (alone (view log).header (view log).line data1).interface
  | .setMipIf name, log =>
    ∀ data1, name = (alone (view log).header (view log).line data1).interface
  | _, _ => True

/-- The keyword of a header line. -/
def headerKeyword (header : Text) : Keyword := keyword (upTo ' ' (headerText header))

/-- What a header line says about a keyword. -/
def headerData (k : Keyword) (header : Text) : Option Text :=
  if headerKeyword header = k then dataOf (headerText header) else none

/-- The line has a clause of its own, or the header is complete and the last such clause
of the lines before says the same as it. -/
def Untouched {β : Type} (k : Keyword) (value : Option Text → β) (v : View) : Prop :=
  lastData k (lineClauses v.line) ≠ none ∨
    ((headerKeyword v.header = k → dataOf (headerText v.header) ≠ none) ∧
      ∀ d ∈ lastData k (v.earlier.map Prod.fst), value (some d) = value (headerData k v.header))

def Fresh : Event → List Event → Prop
  | .hipEncrypt _, log => Untouched .encrypt encryptedOf (view log)
  | .setHipIf _, log => Untouched .inter interfaceOf (view log)
  | .setMipIf _, log => Untouched .inter interfaceOf (view log)
  | _, _ => True

theorem lastData_append (k : Keyword) (cs ds : List Clause) :
    lastData k (cs ++ ds) = (lastData k cs).or (lastData k ds) := by
  unfold lastData
  rw [List.find?_append]
  cases cs.find? fun c => c.keyword = k <;> rfl

theorem lastData_header (k : Keyword) (data1 header : Text) :
    lastData k [headerClause data1 header] =
      if headerKeyword header = k then some ((dataOf (headerText header)).getD data1)
      else none := by
  unfold lastData
  rw [List.find?_singleton]
  show (if decide (headerKeyword header = k) then some (headerClause data1 header)
    else none).map _ = _
  by_cases hk : headerKeyword header = k
  · rw [decide_eq_true hk, if_pos rfl, if_pos hk]
    rfl
  · rw [decide_eq_false hk, if_neg Bool.false_ne_true, if_neg hk]
    rfl

/-- What the clauses of earlier lines change. Both settings can be told from at least two
data. -/
theorem untouched_iff {β : Type} {k : Keyword} {value : Option Text → β} {v : View}
    (hvalue : ∀ b, ∃ d, b ≠ value (some d)) (data1 : Text) :
    (∀ data1', value (lastData k (lineClauses v.line ++ (v.earlier.map Prod.fst ++
        [headerClause data1 v.header]))) =
      value (lastData k (lineClauses v.line ++ [headerClause data1' v.header]))) ↔
      Untouched k value v := by
  unfold Untouched headerData
  simp only [lastData_append, lastData_header]
  generalize lastData k (lineClauses v.line) = own
  generalize lastData k (v.earlier.map Prod.fst) = earlier
  cases own with
  | some d => exact iff_of_true (fun _ => rfl) (Or.inl (fun h => nomatch h))
  | none =>
    by_cases hk : headerKeyword v.header = k
    · rw [if_pos hk, if_pos hk]
      cases hd : dataOf (headerText v.header) with
      | none =>
        -- an array that was not initialised: no two of its contents may differ
        refine iff_of_false (fun h => ?_) ?_
        · obtain ⟨d, hne⟩ := hvalue (value (none.or (earlier.or (some data1))))
          have hd' := h d
          rw [if_pos hk] at hd'
          exact hne hd'
        · rintro (h | ⟨h, -⟩)
          · exact h rfl
          · exact h hk rfl
      | some d =>
        cases earlier with
        | none => simp [hk]
        | some e => simp [hk]
    · simp only [if_neg hk]
      cases earlier with
      | none => simp [hk]
      | some e => simp [hk]

theorem interfaceOf_varies (name : Text) : ∃ d, name ≠ interfaceOf (some d) := by
  refine ⟨nul :: name, fun h => ?_⟩
  have hlen := congrArg List.length h
  exact absurd hlen (Nat.ne_of_lt (Nat.lt_succ_self _))

theorem encryptedOf_varies (on : Bool) : ∃ d, on ≠ encryptedOf (some d) := by
  cases on with
  | true => exact ⟨"off".toList, by decide⟩
  | false => exact ⟨[], by decide⟩

/-- The clause in the view is the header line's. -/
theorem view_header {log : List Event} (h : Everywhere Justified log) :
    ∀ e ∈ (view log).headerClause, ∃ data1, e.1 = headerClause data1 (view log).header := by
  induction log with
  | nil => intro e he; cases he
  | cons event log ih =>
    cases event with
    | rule pos text => intro e he; cases he
    | header c query =>
      obtain ⟨⟨-, pos, text, rest, data1, rfl, hc⟩, -⟩ := h
      intro e he
      cases he
      exact ⟨data1, hc⟩
    | _ => exact ih h.2

/-- The clauses behind an activation: the line's, those of the lines before it, and the
header's. -/
theorem complete_clauses {log : List Event} (h : Everywhere Justified log)
    (hc : (view log).Complete) :
    ∃ data1, (view log).clauses.map Prod.fst = lineClauses (view log).line ++
      ((view log).earlier.map Prod.fst ++ [headerClause data1 (view log).header]) := by
  obtain ⟨hdone, hheader⟩ := hc
  obtain ⟨e, he⟩ := Option.ne_none_iff_exists'.mp hheader
  obtain ⟨data1, hdata⟩ := view_header h e he
  refine ⟨data1, ?_⟩
  unfold View.clauses lineClauses
  rw [List.map_append, List.map_append, hdone, he, ← hdata]
  rfl

/-- At an activation, a setting is the header's and the line's own exactly if the earlier
lines have not touched it. -/
theorem activation_iff {β : Type} {k : Keyword} {value : Option Text → β}
    (hvalue : ∀ b, ∃ d, b ≠ value (some d)) {log : List Event} (h : Everywhere Justified log)
    (hc : (view log).Complete) :
    (∀ data1, value (lastData k ((view log).clauses.map Prod.fst)) =
      value (lastData k (lineClauses (view log).line ++ [headerClause data1 (view log).header]))) ↔
      Untouched k value (view log) := by
  obtain ⟨data1, hclauses⟩ := complete_clauses h hc
  rw [hclauses]
  exact untouched_iff hvalue data1

/-- **The alternatives of a rule do not influence each other** in a call exactly if for
each line it activates, and for both the interface and the encryption, the line has its
own clause, or the header is complete and the last clause of the lines tried before it in
the rule says what the header says. -/
theorem alternatives_independent_iff (env : Env) (file : Option (List Text)) (appID : Int) :
    Everywhere Independent (policyModel env file appID).2 ↔
      Everywhere Fresh (policyModel env file appID).2 := by
  refine Everywhere.congr (Everywhere.imp (fun event log hlog hevent => ?_)
    (policyModel_justified env file appID))
  cases event with
  | hipEncrypt on =>
    obtain ⟨rfl, hc⟩ := hevent
    exact activation_iff encryptedOf_varies hlog hc
  | setHipIf name =>
    obtain ⟨rfl, hc⟩ := hevent
    exact activation_iff interfaceOf_varies hlog hc
  | setMipIf name =>
    obtain ⟨rfl, hc⟩ := hevent
    exact activation_iff interfaceOf_varies hlog hc
  | _ => exact Iff.rfl

/-- Everything is granted, but only `eth0` is up. -/
def onlyEth0 : Env where
  getIfStatus _ name := if name = "eth0".toList then "up".toList else "down".toList
  getLocation _ := "home".toList
  getBandwidth _ _ := 0
  getCost _ _ := 0
  shib _ _ := true
  data1 _ := []
  strOffset _ := []

/-- One rule with two alternatives; only the first is to go unencrypted. -/
def twoAlternatives : List Text :=
  ["35,1".toList, "2,loc home".toList, "encrypt off,inter wlan0".toList, "inter eth0".toList]

/-- **A rejected line switches the encryption off**: `wlan0` is down, and `eth0` is used
without the encryption that its own line and the header leave on. -/
theorem rejected_line_switches_encryption_off :
    (policyModel onlyEth0 (some twoAlternatives) 35).1 = .name "eth0".toList ∧
    .hipEncrypt false ∈ (policyModel onlyEth0 (some twoAlternatives) 35).2 ∧
    ¬ Everywhere Independent (policyModel onlyEth0 (some twoAlternatives) 35).2 := by
  have hcall : ∃ log, policyModel onlyEth0 (some twoAlternatives) 35 =
      (.name "eth0".toList, .confirmHipIf "eth0".toList :: .shib "eth0".toList true ::
        .setHipIf "eth0".toList :: .hipEncrypt false :: log) ∧
      (alone (view log).header (view log).line []).encrypted = true :=
    ⟨_, rfl, by decide⟩
  obtain ⟨log, hlog, halone⟩ := hcall
  rw [hlog]
  refine ⟨rfl, by simp, ?_⟩
  rintro ⟨-, -, -, hencrypt, -⟩
  exact absurd ((hencrypt []).trans halone) (by decide)

/-! ## Whether the interface is up -/

def Event.query : Event → Query
  | .header _ query => query
  | .clause _ query => query
  | _ => .nothing

/-- The answer to the last status query for a name. -/
def lastStatus (name : Text) : List Event → Option Text
  | [] => none
  | e :: log =>
    match e.query with
    | .status name' answer => if name' = name then some answer else lastStatus name log
    | _ => lastStatus name log

/-- **The commanded interface can be used**: it has a name, and its last status in the
call is `up`. -/
def Usable : Event → List Event → Prop
  | .setHipIf name, log => name ≠ [] ∧ lastStatus name log = some "up".toList
  | .setMipIf name, log => name ≠ [] ∧ lastStatus name log = some "up".toList
  | _, _ => True

/-- The last clause with a keyword. -/
def lastClause (k : Keyword) (es : List Evaluated) : Option Evaluated :=
  es.find? fun e => e.1.keyword = k

/-- The last interface clause of the rule, on whatever line, names an interface that
was up. -/
def Checked : Event → List Event → Prop
  | .setHipIf _, log => ∃ name, name ≠ [] ∧
      (lastClause .inter (view log).clauses).map Prod.snd = some (.status name "up".toList)
  | .setMipIf _, log => ∃ name, name ≠ [] ∧
      (lastClause .inter (view log).clauses).map Prod.snd = some (.status name "up".toList)
  | _, _ => True

theorem lastData_eq (k : Keyword) (es : List Evaluated) :
    lastData k (es.map Prod.fst) = (lastClause k es).map fun e => e.1.data := by
  unfold lastData lastClause
  rw [List.find?_map, Option.map_map]
  rfl

/-- The header event follows its rule. -/
theorem view_after_header {c : Clause} {query : Query} {log : List Event}
    (h : Justified (.header c query) log) :
    (view (.header c query :: log)).clauses = [(c, query)] := by
  obtain ⟨-, pos, text, rest, data1, rfl, -⟩ := h
  rfl

theorem lastStatus_skip (event : Event) (h : ∀ name answer, event.query ≠ .status name answer)
    (name : Text) (log : List Event) : lastStatus name (event :: log) = lastStatus name log := by
  rw [lastStatus]
  split
  next name' answer hq => exact absurd hq (h name' answer)
  next => rfl

/-- The last interface clause of the rule has made the last status query of the call. -/
theorem lastStatus_of_clause {log : List Event} (h : Everywhere Justified log) :
    ∀ e, lastClause .inter (view log).clauses = some e →
      ∃ answer, e.2 = .status e.1.data answer ∧ lastStatus e.1.data log = some answer := by
  -- what an interface clause just evaluated has asked
  have hasked : ∀ {event : Event} {log : List Event} {e : Evaluated}, event.query = e.2 →
      Asks e → e.1.keyword = .inter →
      ∃ answer, e.2 = .status e.1.data answer ∧
        lastStatus e.1.data (event :: log) = some answer := by
    intro event log e hq hasks hk
    obtain ⟨answer, ha⟩ := hasks.1 hk
    refine ⟨answer, ha, ?_⟩
    unfold lastStatus
    rw [hq, ha]
    exact if_pos rfl
  induction log with
  | nil => intro e he; cases he
  | cons event log ih =>
    intro e he
    cases event with
    | rule pos text => cases he
    | header c query =>
      -- the header's clause is the first of the rule
      rw [view_after_header h.1] at he
      have hmem := List.mem_of_find?_eq_some he
      rw [List.mem_singleton.mp hmem] at he ⊢
      have hk := List.find?_some he
      exact hasked rfl h.1.1 (of_decide_eq_true hk)
    | clause c query =>
      have hclauses : (view (.clause c query :: log)).clauses = (c, query) :: (view log).clauses :=
        rfl
      rw [hclauses] at he
      unfold lastClause at he
      by_cases hk : c.keyword = .inter
      · rw [List.find?_cons_of_pos (by simpa using hk)] at he
        cases he
        exact hasked rfl h.1 hk
      · rw [List.find?_cons_of_neg (by simpa using hk)] at he
        obtain ⟨answer, ha, hlast⟩ := ih h.2 e he
        exact ⟨answer, ha, (lastStatus_skip (.clause c query) (h.1.2 hk) e.1.data log).trans hlast⟩
    | line pos text =>
      rw [view_line_clauses] at he
      exact ih h.2 e he
    | _ => exact ih h.2 e he

/-- For both kinds of command. -/
theorem usable_iff {log : List Event} (h : Everywhere Justified log) :
    ((view log).action.interface ≠ [] ∧
        lastStatus (view log).action.interface log = some "up".toList) ↔
      ∃ name, name ≠ [] ∧
        (lastClause .inter (view log).clauses).map Prod.snd = some (.status name "up".toList) := by
  have hname : (view log).action.interface =
      interfaceOf ((lastClause .inter (view log).clauses).map fun e => e.1.data) :=
    congrArg interfaceOf (lastData_eq .inter (view log).clauses)
  have hlast := lastStatus_of_clause h
  rw [hname]
  generalize lastClause .inter (view log).clauses = last at *
  cases last with
  | none => exact iff_of_false (fun hx => hx.1 rfl) (fun ⟨_, _, e⟩ => nomatch e)
  | some e =>
    obtain ⟨answer, hquery, hstatus⟩ := hlast e rfl
    show e.1.data ≠ [] ∧ lastStatus e.1.data log = _ ↔ ∃ name, name ≠ [] ∧ some e.2 = _
    rw [hstatus, hquery]
    constructor
    · rintro ⟨hne, hup⟩
      cases hup
      exact ⟨e.1.data, hne, rfl⟩
    · rintro ⟨name, hne, hup⟩
      cases hup
      exact ⟨hne, rfl⟩

/-- **Only usable interfaces are commanded** in a call exactly if at each command the last
interface clause of the rule, be it the header's or one of a line tried so far, is there
and named an interface that was up. -/
theorem commands_usable_iff (env : Env) (file : Option (List Text)) (appID : Int) :
    Everywhere Usable (policyModel env file appID).2 ↔
      Everywhere Checked (policyModel env file appID).2 := by
  refine Everywhere.congr (Everywhere.imp (fun event log hlog hevent => ?_)
    (policyModel_justified env file appID))
  cases event with
  | setHipIf name =>
    obtain ⟨rfl, -⟩ := hevent
    exact usable_iff hlog
  | setMipIf name =>
    obtain ⟨rfl, -⟩ := hevent
    exact usable_iff hlog
  | _ => exact Iff.rfl

/-- The second line does not name an interface. -/
def nameless : List Text :=
  ["35,1".toList, "2,loc home".toList, "inter wlan0".toList, "limit 100".toList]

/-- **An interface that is down is commanded**: the line with `wlan0` is rejected because
it is down, and the next one commands it. -/
theorem interface_that_is_down_is_commanded :
    .setHipIf "wlan0".toList ∈ (policyModel onlyEth0 (some nameless) 35).2 ∧
    .clause ⟨.inter, "wlan0".toList⟩ (.status "wlan0".toList "down".toList) ∈
      (policyModel onlyEth0 (some nameless) 35).2 ∧
    ¬ Everywhere Usable (policyModel onlyEth0 (some nameless) 35).2 := by
  have hcall : ∃ log, (policyModel onlyEth0 (some nameless) 35).2 =
      .confirmHipIf "wlan0".toList :: .shib "wlan0".toList true ::
        .setHipIf "wlan0".toList :: log ∧
      .clause ⟨.inter, "wlan0".toList⟩ (.status "wlan0".toList "down".toList) ∈ log ∧
      lastStatus "wlan0".toList log = some "down".toList :=
    ⟨_, rfl, by decide, by decide⟩
  obtain ⟨log, hlog, hdown, hlast⟩ := hcall
  rw [hlog]
  refine ⟨by simp, .tail _ (.tail _ (.tail _ hdown)), ?_⟩
  rintro ⟨-, -, ⟨-, hup⟩, -⟩
  rw [hlast] at hup
  exact absurd hup (by decide)

/-! ## What authentication decides -/

/-- The interface a set command names. -/
def Event.setName : Event → Option Text
  | .setHipIf name => some name
  | .setMipIf name => some name
  | _ => none

/-- Each set command was followed by a failed authentication for the interface it
named, and no interface was authenticated or confirmed. -/
structure Refused (log : List Event) : Prop where
  shib : ∀ {set : Event} {name : Text} {before : List Event}, set.setName = some name →
    set :: before <:+ log → .shib name false :: set :: before <:+ log
  unauthenticated : ∀ name, .shib name true ∉ log
  unconfirmed : ∀ name, .confirmHipIf name ∉ log

theorem refused_nil : Refused [] :=
  ⟨fun _ h => absurd (List.suffix_nil.mp h) (List.cons_ne_nil _ _), fun _ => List.not_mem_nil,
    fun _ => List.not_mem_nil⟩

/-- An event that is no command and no answer to one. -/
def Event.Neutral (e : Event) : Prop :=
  e.setName = none ∧ (∀ name, e ≠ .shib name true) ∧ ∀ name, e ≠ .confirmHipIf name

theorem Refused.cons {log : List Event} (h : Refused log) {e : Event} (he : e.Neutral) :
    Refused (e :: log) := by
  obtain ⟨hset, hshib, hconfirm⟩ := he
  constructor
  · intro set name before hname hsuffix
    rcases List.suffix_cons_iff.mp hsuffix with heq | hsuffix
    · cases heq
      rw [hset] at hname
      cases hname
    · exact (h.shib hname hsuffix).trans (List.suffix_cons _ _)
  · intro name hmem
    rcases List.mem_cons.mp hmem with heq | hmem
    · exact hshib name heq.symm
    · exact h.unauthenticated name hmem
  · intro name hmem
    rcases List.mem_cons.mp hmem with heq | hmem
    · exact hconfirm name heq.symm
    · exact h.unconfirmed name hmem

/-- A command and its refusal. -/
theorem Refused.refuse {log : List Event} (h : Refused log) {set : Event} {name : Text}
    (hset : set.setName = some name) : Refused (.shib name false :: set :: log) := by
  constructor
  · intro set' name' before hname hsuffix
    -- the command is neither the answer itself nor, unless it is this one, new
    rcases List.suffix_cons_iff.mp hsuffix with heq | hsuffix
    · cases heq
      cases hname
    rcases List.suffix_cons_iff.mp hsuffix with heq | hsuffix
    · cases heq
      cases hset.symm.trans hname
      exact List.suffix_rfl
    · exact ((h.shib hname hsuffix).trans (List.suffix_cons _ _)).trans (List.suffix_cons _ _)
  · intro name' hmem
    rcases List.mem_cons.mp hmem with heq | hmem
    · cases heq
    rcases List.mem_cons.mp hmem with heq | hmem
    · cases heq
      cases hset
    · exact h.unauthenticated name' hmem
  · intro name' hmem
    rcases List.mem_cons.mp hmem with heq | hmem
    · cases heq
    rcases List.mem_cons.mp hmem with heq | hmem
    · cases heq
      cases hset
    · exact h.unconfirmed name' hmem

theorem step_refused {env : Env} {appID : Int} {s s' : Action × List Event}
    (hs : Step env appID s s') (h : Refused s.2) : Refused s'.2 := by
  cases hs with
  | rule act log pos text =>
    refine Refused.cons (Refused.cons h ?_) ?_ <;> simp [Event.Neutral, Event.setName]
  | inRule hs =>
    cases hs with
    | line act log pos text => exact h.cons (by simp [Event.Neutral, Event.setName])
    | clause act log t => exact h.cons (by simp [Event.Neutral, Event.setName])
    | refused act log hc hr =>
      unfold activate at hr ⊢
      split at hr
      next hid =>
        dsimp only at hr
        simp only [if_pos hid, hr]
        exact h.refuse rfl
      next hid =>
        dsimp only at hr
        split at hr
        next => cases hr
        next hok =>
          simp only [if_neg hid, hok]
          exact (h.cons (by simp [Event.Neutral, Event.setName])).refuse rfl

theorem reached_refused {env : Env} {appID : Int} {pos : Nat} {act : Action} {log : List Event}
    (h : Reached env appID pos act log) : Refused log :=
  reached_inv (I := fun s => Refused s.2) (fun hI hs => step_refused hs hI)
    (refused_nil.cons (by simp [Event.Neutral, Event.setName])) h

/-- The end of a call that returns a name. -/
theorem accepts_log {env : Env} {appID : Int} {act : Action} {log : List Event}
    (h : Accepts env appID act log) :
    ∃ set before, set.setName = some act.interface ∧
      ((activate env appID act log).2 = .shib act.interface true :: set :: before ∨
        (activate env appID act log).2 =
          .confirmHipIf act.interface :: .shib act.interface true :: set :: before) := by
  have hok := h.2
  unfold activate at hok ⊢
  split at hok
  next hid =>
    dsimp only at hok
    simp only [if_pos hid, hok]
    exact ⟨_, log, rfl, Or.inl rfl⟩
  next hid =>
    dsimp only at hok
    split at hok
    next hyes =>
      simp only [if_neg hid, hyes]
      exact ⟨_, _, rfl, Or.inr rfl⟩
    next => cases hok

/-- **Authentication decides what is returned.** A call that returns a name has sent its
last set command for it, and the authentication for it has succeeded after that; a call
that returns null has been refused for each interface it has commanded. -/
theorem authentication_decides (env : Env) (file : Option (List Text)) (appID : Int) :
    (∀ name, (policyModel env file appID).1 = .name name →
      ∃ set before, set.setName = some name ∧
        ((policyModel env file appID).2 = .shib name true :: set :: before ∨
          (policyModel env file appID).2 =
            .confirmHipIf name :: .shib name true :: set :: before)) ∧
    ((policyModel env file appID).1 = .null → Refused (policyModel env file appID).2) := by
  have hout := policyModel_outcome env appID file
  generalize policyModel env file appID = out at *
  cases hout with
  | unread => exact ⟨fun _ hname => (nomatch hname), fun _ => refused_nil⟩
  | unknown => exact ⟨fun _ hname => (nomatch hname), fun hnull => nomatch hnull⟩
  | null h => exact ⟨fun _ hname => (nomatch hname), fun _ => reached_refused h⟩
  | accepted h ha =>
    refine ⟨fun name hname => ?_, fun h => nomatch h⟩
    cases hname
    exact accepts_log ha

theorem authentication_decides_twoAlternatives :
    (policyModel onlyEth0 (some twoAlternatives) 35).1 = .name "eth0".toList ∧
    ∃ set before, Event.setName set = some "eth0".toList ∧
      ((policyModel onlyEth0 (some twoAlternatives) 35).2 =
          .shib "eth0".toList true :: set :: before ∨
        (policyModel onlyEth0 (some twoAlternatives) 35).2 =
          .confirmHipIf "eth0".toList :: .shib "eth0".toList true :: set :: before) :=
  ⟨rfl, (authentication_decides onlyEth0 (some twoAlternatives) 35).1 _ rfl⟩

/-- Everything is up, and nobody can log in. -/
def nobodyLogsIn : Env :=
  { onlyEth0 with getIfStatus := fun _ _ => "up".toList, shib := fun _ _ => false }

/-- **A refused interface stays commanded**: the call returns null, and the last command
it has sent is the one to use `wlan0`. -/
theorem refused_interface_stays_commanded :
    (policyModel nobodyLogsIn (some ["35,1".toList, "1,loc home".toList, "inter wlan0".toList])
      35).1 = .null ∧
    ∃ before, (policyModel nobodyLogsIn
      (some ["35,1".toList, "1,loc home".toList, "inter wlan0".toList]) 35).2 =
        .shib "wlan0".toList false :: .setHipIf "wlan0".toList :: before :=
  ⟨rfl, _, rfl⟩

end Manhattan.Middleware.PolicyModel
