import Manhattan.Lib.Guarded
import Manhattan.Lib.Scan
import Manhattan.Middleware.PolicyModel

/-!
# The arrays of the policy evaluator (`PolicyModel.cpp`)

`PolicyModel` evaluates a policy file with arrays that are long enough. Here every array
has the size the source gives it, and the evaluator has no result once something is
stored outside: the loops that copy a line apart, `getline` with a limit of 255 for an
array of 150, `strcpy` into `retInter`, and the entry of `rules`, which has to be the one
of the rule that is read. It has none either where a string is read that has no terminator
in its array.

That entry is `rules[j]`, and `j` is not the counter of the loop but a variable of the
same name that was left over from copying the header's value: the entry depends on the
length of the value. The file that comes with the program does not get past its first
rule.

Mirroring notes:
- `strAppID`, `strCondCount` and the `tempStore` of a condition line are cleared before.
  The loops that fill them store a terminator at a comma only (`scanCleared`).
- The clause loop keeps the rest of the line for the offset `condOffset`. It is given
  as many rounds as the line has characters, which is enough (`checkedClauses_guarded`).
- The arrays of the bounds are the subject of `PolicyBounds`, those of the network
  manager's messages are not the evaluator's.

`visits` lists the steps of a run that store something, and `Visit.Fits` says what each
needs. `in_range_iff`: a run stores nothing outside exactly if all its steps fit.
-/

namespace Manhattan.Middleware.PolicyArrays

open Manhattan.Lib PolicyModel

/-! ## The sizes -/

def strSize : Nat := 150
def strAppIDSize : Nat := 10
def strCondCountSize : Nat := 5
def metadataSize : Nat := 20
def tempStoreSize : Nat := 20
def data1Size : Nat := 10
def data2Size : Nat := 20
def interSize : Nat := 20
def locSize : Nat := 15
def retInterSize : Nat := 10

/-- A text and its terminator, into an array: `strcpy`, `getline` and the loop that fills
`tempStore` from a header line. -/
def fill (size : Nat) (t : Text) : Option Text := if t.length < size then some t else none

theorem fill_guarded (size : Nat) (t : Text) : Guarded (t.length < size) (fill size t) t :=
  Guarded.ite t

theorem scan_guarded (size : Nat) (stop : Char) (t : Text) :
    Guarded ((upTo stop t).length < size) (scan true size stop 0 t)
      (upTo stop t, after stop t) := by
  rw [scan_eq t (Nat.zero_le _), Nat.zero_add]
  exact Guarded.ite _

theorem scanCleared_guarded (size : Nat) (stop : Char) (t : Text) :
    Guarded ((upTo stop t).length < size) (scanCleared size stop t)
      (upTo stop t, after stop t) := by
  rw [scanCleared_eq]
  exact Guarded.ite _

/-! ## Clauses -/

/-- The two loops that take `tempStore` apart: `metadata`, and the value if there is a
blank. -/
def splitClause (dataSize : Nat) (tempStore : Text) : Option (Text × Option Text) := do
  let (metadata, rest) ← scan true metadataSize ' ' 0 tempStore
  match rest with
  | none => return (metadata, none)
  | some rest =>
    let (data, _) ← scan true dataSize ' ' 0 rest
    return (metadata, some data)

/-- `parseCondition` from `condOffset` on: the clause, and the line behind its comma. -/
def checkedCondition (line : Text) : Option (Clause × Option Text) := do
  let (tempStore, rest) ← scanCleared tempStoreSize ',' line
  let (metadata, data2) ← splitClause data2Size tempStore
  return (⟨keyword metadata, data2.getD []⟩, rest)

/-- A header line: `strCondCount`, `metadata` and `data1`, which is left alone where there
is no blank. -/
def checkedHeaderLine (str : Text) : Option (Text × Text × Option Text) := do
  let (strCondCount, rest) ← scanCleared strCondCountSize ',' str
  let tempStore ← fill tempStoreSize (rest.getD [])
  let (metadata, data1) ← splitClause data1Size tempStore
  return (strCondCount, metadata, data1)

/-- `interfaceStatus` -/
def interfaceStatus (env : Env) (log : List Event) (name : Text) : Bool :=
  env.getIfStatus log name = "up".toList

/-- `locationStatus` -/
def locationStatus (env : Env) (log : List Event) (name : Text) : Bool :=
  env.getLocation log = name

/-- The loops of `interfaceEval` and `resolveLocation`, for the clauses that call them;
`pass` is what the other clauses give. -/
def checkedNames (env : Env) (log : List Event) (pass : Bool) (c : Clause) : Option Bool :=
  match c.keyword with
  | .inter => names interSize (interfaceStatus env log) false [] c.data
  | .loc => names locSize (locationStatus env log) true [] c.data
  | _ => some pass

/-- `evaluate` -/
def checkedEvaluate (env : Env) (log : List Event) (act : Action) (c : Clause) :
    Option (Bool × Action × Query) :=
  (checkedNames env log (evaluate env log act c).1 c).map fun pass =>
    (pass, (evaluate env log act c).2)

/-- The clause of a rule's header. -/
def checkedEvaluateHeader (env : Env) (log : List Event) (act : Action) (c : Clause) :
    Option (Bool × Action × Query) :=
  (checkedNames env log (evaluateHeader env log act c).1 c).map fun pass =>
    (pass, (evaluateHeader env log act c).2)

/-! ## The evaluator -/

/-- The loop over the clauses of a condition line, from `condOffset` on. -/
def checkedClauses (env : Env) :
    Nat → Text → Action → List Event → Option (Bool × Action × List Event)
  | 0, _, act, log => some (true, act, log)
  | n + 1, line, act, log =>
    if line = [] then some (true, act, log)
    else do
      let (c, rest) ← checkedCondition line
      let (pass, act, query) ← checkedEvaluate env log act c
      let log := .clause c query :: log
      if pass then checkedClauses env n (rest.getD []) act log else return (false, act, log)

/-- One condition line; `retInter` is written before the commands. -/
def checkedLine (env : Env) (appID : Int) (pos : Nat) (text : Text) (act : Action)
    (log : List Event) : Option (Option Text × Action × List Event) := do
  let (pass, act, log) ← checkedClauses env text.length text act (.line pos text :: log)
  if pass then
    let retInter ← fill retInterSize act.interface
    match activate env appID act log with
    | (true, log) => return (some retInter, act, log)
    | (false, log) => return (none, act, log)
  else return (none, act, log)

/-- What `getline(str, n)` stores. -/
def incoming (n : Nat) (r : Reader) : Text :=
  if r.failed then [] else (r.rest.headD []).take (n - 1)

def checkedGetline (n : Nat) (r : Reader) : Option Reader :=
  (fill strSize (incoming n r)).map fun _ => r.getline n

def checkedSkip : Nat → Reader → Option Reader
  | 0, r => some r
  | n + 1, r => do
    let r ← checkedGetline 255 r
    checkedSkip n r

/-- The loop over the condition lines of a rule. -/
def checkedLines (env : Env) (appID : Int) :
    Nat → Reader → Action → List Event → Option (Option Text × Reader × List Event)
  | 0, r, _, log => some (none, r, log)
  | n + 1, r, act, log => do
    let pos := r.pos
    let r ← checkedGetline 255 r
    match ← checkedLine env appID pos (cstr r.str) act log with
    | (some retInter, _, log) => return (some retInter, r, log)
    | (none, act, log) => checkedLines env appID n r act log

/-- The header of the rule with number `index`; the entry written is `rules[j]`. -/
def checkedHeader (env : Env) (index pos : Nat) (text : Text) (log : List Event) :
    Option (Nat × Bool × Action × List Event) := do
  let (strCondCount, metadata, data1) ← checkedHeaderLine text
  let j := (data1.getD []).length
  if j = index then
    let log := .rule pos text :: log
    let c : Clause := ⟨keyword metadata, data1.getD (env.data1 log)⟩
    let (pass, act, query) ← checkedEvaluateHeader env log newAction c
    return ((atoi strCondCount).toNat, pass, act, .header c query :: log)
  else none

/-- The loop over the rules of a policy, from the rule with number `index` on. -/
def checkedRules (env : Env) (appID : Int) :
    Nat → Nat → Reader → List Event → Option (Option Text × List Event)
  | _, 0, _, log => some (none, log)
  | index, n + 1, r, log => do
    let pos := r.pos
    let r ← checkedGetline 255 r
    match ← checkedHeader env index pos (cstr r.str) log with
    | (condCount, false, _, log) =>
      let r ← checkedSkip condCount r
      checkedRules env appID (index + 1) n r log
    | (condCount, true, act, log) =>
      match ← checkedLines env appID condCount r act log with
      | (some retInter, _, log) => return (some retInter, log)
      | (none, r, log) => checkedRules env appID (index + 1) n r log

/-- The branch of a line with the application's number. -/
def checkedPolicy (env : Env) (appID : Int) (pos : Nat) (r : Reader) :
    Option (Result × List Event) := do
  match ← checkedRules env appID 0 (ruleCount r.str) r [.policy pos] with
  | (some retInter, log) => return (.name retInter, log)
  | (none, log) => return (.null, log)

/-- The loop `while(in)`. -/
def checkedSearch (env : Env) (appID : Int) :
    List Text → Nat → Text → Option (Result × List Event)
  | [], pos, str => do
    let r ← checkedGetline 150 ⟨[], pos, false, str⟩
    let (strAppID, _) ← scanCleared strAppIDSize ',' (cstr r.str)
    if atoi strAppID = appID then checkedPolicy env appID pos r else return (.noReturn, [])
  | line :: rest, pos, str => do
    let r ← checkedGetline 150 ⟨line :: rest, pos, false, str⟩
    let (strAppID, _) ← scanCleared strAppIDSize ',' (cstr r.str)
    if atoi strAppID = appID then checkedPolicy env appID pos r
    else if r.failed then return (.noReturn, [])
    else checkedSearch env appID rest (pos + 1) r.str

/-- `policyModel` -/
def checkedPolicyModel (env : Env) (file : Option (List Text)) (appID : Int) :
    Option (Result × List Event) :=
  match file with
  | none => some (.null, [])
  | some lines => checkedSearch env appID lines 0 []

/-! ## What a run stores -/

/-- The steps of a run that store something, or read what was stored. -/
inductive Visit where
  /-- The start of a line is copied to `strAppID`. -/
  | search (str : Text)
  /-- `getline` stores a line. -/
  | read (line : Text)
  /-- The header line of the rule with number `index`. -/
  | header (index : Nat) (str : Text)
  /-- Names are copied to `inter` or `loc`. -/
  | names (size : Nat) (asked : List Text)
  /-- `parseCondition` with the rest of a line. -/
  | condition (line : Text)
  | retInter (name : Text)
  deriving DecidableEq, Repr

/-- A clause fits `metadata` and the array of its value. -/
def SplitFits (dataSize : Nat) (tempStore : Text) : Prop :=
  (upTo ' ' tempStore).length < metadataSize ∧
    ∀ data, dataOf tempStore = some data → data.length < dataSize

/-- The arrays have room for what the step stores, with a terminator. -/
def Visit.Fits : Visit → Prop
  | .search str => (upTo ',' str).length < strAppIDSize
  | .read line => line.length < strSize
  | .header index str =>
    (upTo ',' str).length < strCondCountSize ∧ (headerText str).length < tempStoreSize ∧
      SplitFits data1Size (headerText str) ∧ ((dataOf (headerText str)).getD []).length = index
  | .names size asked => ∀ name ∈ asked, name.length < size
  | .condition line =>
    (upTo ',' line).length < tempStoreSize ∧ SplitFits data2Size (upTo ',' line)
  | .retInter name => name.length < retInterSize

def Fit (visits : List Visit) : Prop := ∀ v ∈ visits, v.Fits

section

variable (env : Env) (appID : Int)

/-- The names a clause asks for. -/
def namesVisits (log : List Event) (c : Clause) : List Visit :=
  match c.keyword with
  | .inter => [.names interSize (asked (interfaceStatus env log) false (words c.data))]
  | .loc => [.names locSize (asked (locationStatus env log) true (words c.data))]
  | _ => []

/-- What the loops over the names answer. -/
def namesPass (log : List Event) (pass : Bool) (c : Clause) : Bool :=
  match c.keyword with
  | .inter => verdict (interfaceStatus env log) false (words c.data)
  | .loc => verdict (locationStatus env log) true (words c.data)
  | _ => pass

def clauseVisits : Nat → Text → Action → List Event → List Visit
  | 0, _, _, _ => []
  | n + 1, line, act, log =>
    if line = [] then []
    else
      let c := clauseOf (upTo ',' line)
      let e := evaluate env log act c
      .condition line :: namesVisits env log c ++
        if e.1 then clauseVisits n ((after ',' line).getD []) e.2.1 (.clause c e.2.2 :: log)
        else []

def lineVisits (pos : Nat) (text : Text) (act : Action) (log : List Event) : List Visit :=
  let log := .line pos text :: log
  let e := evalClauses env (pieces ',' text) act log
  clauseVisits env text.length text act log ++ if e.1 then [.retInter e.2.1.interface] else []

def skipVisits : Nat → Reader → List Visit
  | 0, _ => []
  | n + 1, r => .read (incoming 255 r) :: skipVisits n (r.getline 255)

def linesVisits : Nat → Reader → Action → List Event → List Visit
  | 0, _, _, _ => []
  | n + 1, r, act, log =>
    let text := cstr (r.getline 255).str
    .read (incoming 255 r) :: lineVisits env r.pos text act log ++
      match tryLine env appID r.pos text act log with
      | (some _, _, _) => []
      | (none, act, log) => linesVisits n (r.getline 255) act log

def headerVisits (index pos : Nat) (text : Text) (log : List Event) : List Visit :=
  let log := .rule pos text :: log
  .header index text :: namesVisits env log (headerClause (env.data1 log) text)

/-- The header of a rule, with the loops over the names of its clause. -/
def headerResult (pos : Nat) (text : Text) (log : List Event) : Bool × Action × List Event :=
  let log := .rule pos text :: log
  let c := headerClause (env.data1 log) text
  let e := evaluateHeader env log newAction c
  (namesPass env log e.1 c, e.2.1, .header c e.2.2 :: log)

def ruleVisits : Nat → Nat → Reader → List Event → List Visit
  | _, 0, _, _ => []
  | index, n + 1, r, log =>
    let pos := r.pos
    let line := incoming 255 r
    let r := r.getline 255
    let text := cstr r.str
    .read line :: headerVisits env index pos text log ++
      match headerResult env pos text log with
      | (false, _, log) =>
        skipVisits (condCount text) r ++
          ruleVisits (index + 1) n (r.skip (condCount text)) log
      | (true, act, log) =>
        linesVisits env appID (condCount text) r act log ++
          match evalLines env appID (condCount text) r act log with
          | (some _, _, _) => []
          | (none, r, log) => ruleVisits (index + 1) n r log

def searchVisits : List Text → Nat → Text → List Visit
  | [], pos, str =>
    let r := Reader.getline 150 ⟨[], pos, false, str⟩
    .search (cstr r.str) ::
      if leadingNumber (cstr r.str) = appID then
        ruleVisits env appID 0 (ruleCount r.str) r [.policy pos]
      else []
  | line :: rest, pos, str =>
    let r := Reader.getline 150 ⟨line :: rest, pos, false, str⟩
    .search (cstr r.str) ::
      if leadingNumber (cstr r.str) = appID then
        ruleVisits env appID 0 (ruleCount r.str) r [.policy pos]
      else if r.failed then []
      else searchVisits rest (pos + 1) r.str

/-- The steps of a call of `policyModel`, in order. -/
def visits (file : Option (List Text)) : List Visit :=
  match file with
  | none => []
  | some lines => searchVisits env appID lines 0 []

end

/-! ## Every step stores inside the arrays exactly if it fits -/

theorem fit_nil : Fit [] := nofun

theorem fit_cons {v : Visit} {vs : List Visit} : Fit (v :: vs) ↔ v.Fits ∧ Fit vs :=
  List.forall_mem_cons

theorem fit_append {vs ws : List Visit} : Fit (vs ++ ws) ↔ Fit vs ∧ Fit ws :=
  List.forall_mem_append

theorem splitClause_guarded (dataSize : Nat) (t : Text) :
    Guarded (SplitFits dataSize t) (splitClause dataSize t) (upTo ' ' t, dataOf t) := by
  have hmeta := scan_guarded metadataSize ' ' t
  unfold splitClause
  cases hrest : after ' ' t with
  | none =>
    rw [hrest] at hmeta
    have hdata : dataOf t = none := by rw [dataOf, hrest]; rfl
    rw [hdata]
    refine Guarded.congr (hmeta.bind_some rfl) ?_
    unfold SplitFits
    rw [hdata]
    simp only [reduceCtorEq, false_implies, implies_true, and_true]
  | some rest =>
    rw [hrest] at hmeta
    have hdata : dataOf t = some (upTo ' ' rest) := by rw [dataOf, hrest]; rfl
    rw [hdata]
    refine Guarded.congr (hmeta.bind ((scan_guarded dataSize ' ' rest).bind_some rfl)) ?_
    unfold SplitFits
    rw [hdata]
    simp only [Option.some.injEq, forall_eq']

theorem checkedCondition_guarded (line : Text) :
    Guarded (Visit.condition line).Fits (checkedCondition line)
      (clauseOf (upTo ',' line), after ',' line) :=
  (scanCleared_guarded tempStoreSize ',' line).bind
    ((splitClause_guarded data2Size (upTo ',' line)).bind_some rfl)

theorem names_guarded (size : Nat) (ask : Text → Bool) (last : Bool) (t : Text) :
    Guarded (Visit.names size (asked ask last (words t))).Fits (names size ask last [] t)
      (verdict ask last (words t)) := by
  rw [names_eq]
  show Guarded (∀ name ∈ asked ask last (words t), name.length < size) _ _
  exact Guarded.ite _

theorem checkedNames_guarded (env : Env) (log : List Event) (pass : Bool) (c : Clause) :
    Guarded (Fit (namesVisits env log c)) (checkedNames env log pass c)
      (namesPass env log pass c) := by
  obtain ⟨kw, data⟩ := c
  have hnone : Guarded (Fit []) (some pass) pass :=
    (Guarded.pure pass).congr (iff_of_true trivial fit_nil)
  cases kw with
  | inter =>
    exact (names_guarded interSize (interfaceStatus env log) false data).congr
      List.forall_mem_singleton.symm
  | loc =>
    exact (names_guarded locSize (locationStatus env log) true data).congr
      List.forall_mem_singleton.symm
  | band => exact hnone
  | cost => exact hnone
  | limit => exact hnone
  | encrypt => exact hnone
  | other => exact hnone

/-- A value without blanks is one name, and the loops do with it what `evaluate` and
`evaluateHeader` do. -/
theorem namesPass_word (env : Env) (log : List Event) (act : Action) {c : Clause}
    (h : ' ' ∉ c.data) :
    namesPass env log (evaluate env log act c).1 c = (evaluate env log act c).1 ∧
    namesPass env log (evaluateHeader env log act c).1 c = (evaluateHeader env log act c).1 := by
  obtain ⟨kw, data⟩ := c
  have hwords : words data = [data] := words_eq_singleton h
  cases kw with
  | inter =>
    have hpass : namesPass env log (evaluate env log act ⟨.inter, data⟩).1 ⟨.inter, data⟩ =
        interfaceStatus env log data := by
      show verdict _ _ (words data) = _
      rw [hwords, verdict_singleton]
    exact ⟨hpass, hpass⟩
  | loc =>
    have hpass : namesPass env log (evaluate env log act ⟨.loc, data⟩).1 ⟨.loc, data⟩ =
        locationStatus env log data := by
      show verdict _ _ (words data) = _
      rw [hwords, verdict_singleton]
    exact ⟨hpass, hpass⟩
  | band => exact ⟨rfl, rfl⟩
  | cost => exact ⟨rfl, rfl⟩
  | limit => exact ⟨rfl, rfl⟩
  | encrypt => exact ⟨rfl, rfl⟩
  | other => exact ⟨rfl, rfl⟩

theorem not_mem_dataOf {t data : Text} (h : dataOf t = some data) : ' ' ∉ data := by
  obtain ⟨rest, -, rfl⟩ := Option.map_eq_some_iff.mp h
  exact not_mem_upTo ' ' rest

theorem clauseOf_word (t : Text) : ' ' ∉ (clauseOf t).data := by
  show ' ' ∉ (dataOf t).getD []
  cases h : dataOf t with
  | none => exact List.not_mem_nil
  | some data => exact not_mem_dataOf h

theorem checkedEvaluate_guarded (env : Env) (log : List Event) (act : Action) {c : Clause}
    (h : ' ' ∉ c.data) :
    Guarded (Fit (namesVisits env log c)) (checkedEvaluate env log act c)
      (evaluate env log act c) := by
  have hnames := checkedNames_guarded env log (evaluate env log act c).1 c
  rw [(namesPass_word env log act h).1] at hnames
  exact hnames.map _

/-- The rounds are enough: each takes at least one character of the line. -/
theorem checkedClauses_guarded (env : Env) : ∀ (n : Nat) (line : Text) (act : Action)
    (log : List Event), line.length ≤ n →
    Guarded (Fit (clauseVisits env n line act log)) (checkedClauses env n line act log)
      (evalClauses env (pieces ',' line) act log)
  | 0, line, act, log, hn => by
    rw [List.length_eq_zero_iff.mp (Nat.le_zero.mp hn)]
    exact (Guarded.pure _).congr (iff_of_true trivial fit_nil)
  | n + 1, line, act, log, hn => by
    rw [checkedClauses, clauseVisits]
    by_cases hline : line = []
    · rw [if_pos hline, if_pos hline, hline]
      exact (Guarded.pure _).congr (iff_of_true trivial fit_nil)
    · have hshorter := after_length_lt hline ','
      have hword := clauseOf_word (upTo ',' line)
      rw [if_neg hline, if_neg hline, pieces_eq hline, evalClauses]
      simp only [List.cons_append, fit_cons, fit_append]
      refine (checkedCondition_guarded line).bind
        ((checkedEvaluate_guarded env log act hword).bind ?_)
      cases hpass : (evaluate env log act (clauseOf (upTo ',' line))).1 with
      | false =>
        simp only [Bool.false_eq_true, if_false]
        exact (Guarded.pure _).congr (iff_of_true trivial fit_nil)
      | true =>
        simp only [if_true]
        exact checkedClauses_guarded env n _ _ _ (by omega)

theorem checkedLine_guarded (env : Env) (appID : Int) (pos : Nat) (text : Text) (act : Action)
    (log : List Event) :
    Guarded (Fit (lineVisits env pos text act log)) (checkedLine env appID pos text act log)
      (tryLine env appID pos text act log) := by
  have hclauses := checkedClauses_guarded env text.length text act (.line pos text :: log) le_rfl
  unfold checkedLine lineVisits tryLine
  simp only [fit_append]
  refine hclauses.bind ?_
  obtain ⟨pass, act, log⟩ := evalClauses env (pieces ',' text) act (.line pos text :: log)
  cases pass with
  | false => exact (Guarded.pure _).congr (iff_of_true trivial fit_nil)
  | true =>
    have hret : (Visit.retInter act.interface).Fits ↔ Fit [.retInter act.interface] :=
      List.forall_mem_singleton.symm
    refine Guarded.congr ((fill_guarded retInterSize act.interface).bind_some ?_) hret
    dsimp only
    obtain ⟨ok, log⟩ := activate env appID act log
    cases ok <;> rfl

theorem checkedGetline_guarded (n : Nat) (r : Reader) :
    Guarded (Visit.read (incoming n r)).Fits (checkedGetline n r) (r.getline n) :=
  (fill_guarded strSize (incoming n r)).map _

theorem checkedSkip_guarded : ∀ (n : Nat) (r : Reader),
    Guarded (Fit (skipVisits n r)) (checkedSkip n r) (r.skip n)
  | 0, r => (Guarded.pure r).congr (iff_of_true trivial fit_nil)
  | n + 1, r =>
    Guarded.congr ((checkedGetline_guarded 255 r).bind (checkedSkip_guarded n (r.getline 255)))
      fit_cons.symm

theorem checkedLines_guarded (env : Env) (appID : Int) : ∀ (n : Nat) (r : Reader) (act : Action)
    (log : List Event),
    Guarded (Fit (linesVisits env appID n r act log)) (checkedLines env appID n r act log)
      (evalLines env appID n r act log)
  | 0, r, act, log => (Guarded.pure _).congr (iff_of_true trivial fit_nil)
  | n + 1, r, act, log => by
    have hline := checkedLine_guarded env appID r.pos (cstr (r.getline 255).str) act log
    unfold checkedLines linesVisits evalLines
    simp only [List.cons_append, fit_cons, fit_append]
    refine (checkedGetline_guarded 255 r).bind (hline.bind ?_)
    obtain ⟨ret, act, log⟩ := tryLine env appID r.pos (cstr (r.getline 255).str) act log
    cases ret with
    | some retInter => exact (Guarded.pure _).congr (iff_of_true trivial fit_nil)
    | none => exact checkedLines_guarded env appID n _ act log

theorem checkedEvaluateHeader_guarded (env : Env) (log : List Event) (act : Action) (c : Clause) :
    Guarded (Fit (namesVisits env log c)) (checkedEvaluateHeader env log act c)
      (namesPass env log (evaluateHeader env log act c).1 c, (evaluateHeader env log act c).2) :=
  (checkedNames_guarded env log (evaluateHeader env log act c).1 c).map _

theorem checkedHeaderLine_guarded (text : Text) :
    Guarded ((upTo ',' text).length < strCondCountSize ∧
        (headerText text).length < tempStoreSize ∧ SplitFits data1Size (headerText text))
      (checkedHeaderLine text)
      (upTo ',' text, upTo ' ' (headerText text), dataOf (headerText text)) :=
  (scanCleared_guarded strCondCountSize ',' text).bind
    ((fill_guarded tempStoreSize (headerText text)).bind
      ((splitClause_guarded data1Size (headerText text)).bind_some rfl))

theorem checkedHeader_guarded (env : Env) (index pos : Nat) (text : Text) (log : List Event) :
    Guarded (Fit (headerVisits env index pos text log)) (checkedHeader env index pos text log)
      (condCount text, headerResult env pos text log) := by
  have hclause := checkedEvaluateHeader_guarded env (.rule pos text :: log) newAction
    (headerClause (env.data1 (.rule pos text :: log)) text)
  refine Guarded.congr ((checkedHeaderLine_guarded text).bind
    (Q := ((dataOf (headerText text)).getD []).length = index ∧
      Fit (namesVisits env (.rule pos text :: log)
        (headerClause (env.data1 (.rule pos text :: log)) text))) ?_) ?_
  · exact Guarded.guard (hclause.bind_some rfl)
  · show _ ↔ Fit (.header index text :: _)
    rw [fit_cons, Visit.Fits]
    simp only [and_assoc]

/-! ## Whole runs -/

/-- What an uninitialised `data1` holds is one word. -/
def WordOnStack (env : Env) : Prop := ∀ log, ' ' ∉ env.data1 log

theorem headerResult_eq {env : Env} (h : WordOnStack env) (pos : Nat) (text : Text)
    (log : List Event) : headerResult env pos text log = tryHeader env pos text log := by
  have hword : ' ' ∉ (headerClause (env.data1 (.rule pos text :: log)) text).data := by
    show ' ' ∉ (dataOf (headerText text)).getD _
    cases hdata : dataOf (headerText text) with
    | none => exact h _
    | some data => exact not_mem_dataOf hdata
  unfold headerResult tryHeader
  simp only [(namesPass_word env _ newAction hword).2]

/-- The result of a run with arrays, where it has one, is that of the evaluator without
them, unless the names in `data1` were never written. -/
def Runs (env : Env) {α : Type} (vs : List Visit) (x : Option α) (ideal : α) : Prop :=
  ∃ a, Guarded (Fit vs) x a ∧ (WordOnStack env → a = ideal)

theorem runs_pure (env : Env) {α : Type} (a : α) : Runs env [] (some a) a :=
  ⟨a, (Guarded.pure a).congr (iff_of_true trivial fit_nil), fun _ => rfl⟩

section

variable {env : Env} {α β : Type} {x : Option α} {a : α} {f : α → Option β} {b : β}
  {vs ws : List Visit}

theorem runs_append (hx : Guarded (Fit vs) x a) (hf : Runs env ws (f a) b) :
    Runs env (vs ++ ws) (x.bind f) b := by
  obtain ⟨c, hc, hcb⟩ := hf
  exact ⟨c, (hx.bind hc).congr fit_append.symm, hcb⟩

theorem runs_cons {v : Visit} (hx : Guarded v.Fits x a) (hf : Runs env ws (f a) b) :
    Runs env (v :: ws) (x.bind f) b := by
  obtain ⟨c, hc, hcb⟩ := hf
  exact ⟨c, (hx.bind hc).congr fit_cons.symm, hcb⟩

theorem runs_of_fits {P : Prop} (hx : Guarded P x a) (hP : P) (hf : Runs env ws (f a) b) :
    Runs env ws (x.bind f) b := by
  rw [hx.1 hP]
  exact hf

theorem runs_bind_some (hx : Runs env vs x a) {g : α → β} (hf : ∀ c, f c = some (g c)) :
    Runs env vs (x.bind f) (g a) := by
  obtain ⟨c, hc, hca⟩ := hx
  exact ⟨g c, hc.bind_some (hf c), fun hw => congrArg g (hca hw)⟩

theorem runs_ite {c : Prop} [Decidable c] {y : Option α} {a' : α} (hx : c → Runs env vs x a)
    (hy : ¬c → Runs env ws y a') :
    Runs env (if c then vs else ws) (if c then x else y) (if c then a else a') := by
  split
  next h => exact hx h
  next h => exact hy h

theorem Runs.of_eq {a' : α} (h : Runs env vs x a) (ha : WordOnStack env → a' = a) :
    Runs env vs x a' := by
  obtain ⟨c, hc, hca⟩ := h
  exact ⟨c, hc, fun hw => (hca hw).trans (ha hw).symm⟩

end

/-- The rules from a header on that was evaluated already. -/
def afterHeader (env : Env) (appID : Int) (n : Nat) (r : Reader) (text : Text) :
    Bool × Action × List Event → Option Text × List Event
  | (false, _, log) => evalRules env appID n (r.skip (condCount text)) log
  | (true, act, log) =>
    match evalLines env appID (condCount text) r act log with
    | (some retInter, _, log) => (some retInter, log)
    | (none, r, log) => evalRules env appID n r log

theorem checkedRules_runs (env : Env) (appID : Int) : ∀ (n index : Nat) (r : Reader)
    (log : List Event),
    Runs env (ruleVisits env appID index n r log) (checkedRules env appID index n r log)
      (evalRules env appID n r log)
  | 0, _, _, log => runs_pure env (none, log)
  | n + 1, index, r, log => by
    have hruns : Runs env (ruleVisits env appID index (n + 1) r log)
        (checkedRules env appID index (n + 1) r log)
        (afterHeader env appID n (r.getline 255) (cstr (r.getline 255).str)
          (headerResult env r.pos (cstr (r.getline 255).str) log)) := by
      refine runs_cons (checkedGetline_guarded 255 r) (runs_append
        (checkedHeader_guarded env index r.pos (cstr (r.getline 255).str) log) ?_)
      obtain ⟨pass, act, log⟩ := headerResult env r.pos (cstr (r.getline 255).str) log
      cases pass with
      | false =>
        exact runs_append (checkedSkip_guarded _ _) (checkedRules_runs env appID n _ _ _)
      | true =>
        refine runs_append (checkedLines_guarded env appID _ _ _ _) ?_
        unfold afterHeader
        dsimp only
        obtain ⟨ret, r, log⟩ := evalLines env appID _ (r.getline 255) act log
        cases ret with
        | some retInter => exact runs_pure env (some retInter, log)
        | none => exact checkedRules_runs env appID n _ r log
    refine hruns.of_eq fun hw => ?_
    rw [headerResult_eq hw]
    rfl

theorem checkedPolicy_runs (env : Env) (appID : Int) (pos : Nat) (r : Reader) :
    Runs env (ruleVisits env appID 0 (ruleCount r.str) r [.policy pos])
      (checkedPolicy env appID pos r) (evalPolicy env appID pos r) := by
  refine (runs_bind_some (checkedRules_runs env appID (ruleCount r.str) 0 r [.policy pos])
    (g := fun res => match res with
      | (some retInter, log) => (Result.name retInter, log)
      | (none, log) => (Result.null, log)) fun res => ?_).of_eq fun _ => ?_
  · obtain ⟨ret, log⟩ := res
    cases ret <;> rfl
  · unfold evalPolicy
    rfl

/-- In the search `getline` has the right limit. -/
theorem incoming_fits (r : Reader) : (Visit.read (incoming 150 r)).Fits := by
  show (incoming 150 r).length < strSize
  unfold incoming strSize
  split
  · exact Nat.succ_pos _
  · rw [List.length_take]
    omega

theorem search_guarded (str : Text) :
    Guarded (Visit.search str).Fits (scanCleared strAppIDSize ',' str)
      (upTo ',' str, after ',' str) :=
  scanCleared_guarded strAppIDSize ',' str

theorem checkedSearch_runs (env : Env) (appID : Int) : ∀ (lines : List Text) (pos : Nat)
    (str : Text),
    Runs env (searchVisits env appID lines pos str) (checkedSearch env appID lines pos str)
      (search env appID lines pos str)
  | [], pos, str => by
    rw [checkedSearch, searchVisits, search]
    refine runs_of_fits (checkedGetline_guarded 150 _) (incoming_fits _)
      (runs_cons (search_guarded _) (runs_ite ?_ ?_))
    · exact fun _ => checkedPolicy_runs env appID pos _
    · exact fun _ => runs_pure env _
  | line :: rest, pos, str => by
    rw [checkedSearch, searchVisits, search]
    refine runs_of_fits (checkedGetline_guarded 150 _) (incoming_fits _)
      (runs_cons (search_guarded _) (runs_ite ?_ fun _ => runs_ite ?_ ?_))
    · exact fun _ => checkedPolicy_runs env appID pos _
    · exact fun _ => runs_pure env _
    · exact fun _ => checkedSearch_runs env appID rest _ _

theorem checkedPolicyModel_runs (env : Env) (file : Option (List Text)) (appID : Int) :
    Runs env (visits env appID file) (checkedPolicyModel env file appID)
      (policyModel env file appID) := by
  cases file with
  | none => exact runs_pure env _
  | some lines => exact checkedSearch_runs env appID lines 0 []

/-- With its arrays the evaluator does what it does without them, as far as it gets. -/
theorem policyModel_of_checked {env : Env} (h : WordOnStack env) {file : Option (List Text)}
    {appID : Int} {res : Result × List Event}
    (hres : checkedPolicyModel env file appID = some res) :
    policyModel env file appID = res := by
  obtain ⟨a, ha, hideal⟩ := checkedPolicyModel_runs env file appID
  rw [← hideal h]
  exact (ha.eq_some_iff.mp hres).2

/-- Nothing is stored outside an array or in the entry of another rule, and no string is
read past the end of its array, exactly if every step of the run fits. -/
theorem in_range_iff (env : Env) (file : Option (List Text)) (appID : Int) :
    (checkedPolicyModel env file appID).isSome = true ↔ ∀ v ∈ visits env appID file, v.Fits := by
  obtain ⟨a, ha, -⟩ := checkedPolicyModel_runs env file appID
  exact ha.isSome_iff

/-- The start of the file that comes with the program: the header `2,loc columbia` writes
`rules[8]`, where there are three. -/
theorem shipped_not_in_range :
    (fun env => checkedPolicyModel env (some ["35,3".toList, "2,loc columbia".toList,
      "inter wlan0,band 1-1,cost 1000-5,limit 1000,encrypt on".toList,
      "inter ppp0,band 1-1,cost 1000-5,limit 400,encrypt off".toList]) 35) = fun _ => none := by
  rfl

end Manhattan.Middleware.PolicyArrays
