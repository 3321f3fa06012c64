import Manhattan.Lib.Text

/-!
# The policy evaluator (`PolicyModel.cpp`)

`policyModel` reads the policy file from its beginning. It searches for a line that
starts with the application's number, and takes the digit after the comma for the number
of rules. A rule is a header line, `condCount,clause`, and `condCount` condition lines.
If the header's clause fails the lines are skipped; otherwise they are alternatives, and
the first one whose clauses all hold is activated: encryption is set, the network
manager is told to use the interface, and the user has to authenticate over it. Where
that fails the next line is tried.

The interface and the encryption are collected in one `Action` object for the whole
rule. A clause `inter` or `encrypt` writes it when it is read.

Mirroring notes:
- A file is the list of its lines. `Reader` is the stream together with the array `str`,
  which keeps the end of an earlier line behind a shorter one.
- `getline(str, n)` reads a line of fewer than `n` characters. At the end of the file, at
  a longer line and ever after the stream has failed and the string read is empty or cut.
- `Env` is what the outside world answers. An answer may depend on everything that has
  happened in the call, so that two queries for the same thing are independent.
- `data1` and `strOffset` are arrays that are not initialised. Where a header clause has
  no second word, or a bound no `-`, what they held is used (`Env.data1`,
  `Env.strOffset`).
- The other fixed arrays are taken to be long enough, and `atoi` has no limits. The field
  `policy.rule` and the object `cl` are written and never read.
- `SINE_SECURITY` and `WITH_MIPV6` are 1 and `WITH_BROWSER` is 0.
- `Event` is what happens in a call, newest first; the lines have their positions.
- Without a matching line the function ends without a `return` (`Result.noReturn`).
-/

namespace Manhattan.Middleware.PolicyModel

open Manhattan.Lib

/-! ## Clauses -/

inductive Keyword where
  | inter | loc | band | cost | limit | encrypt | other
  deriving DecidableEq, Repr

/-- The `strcmp` chain over `metadata`. -/
def keyword (metadata : Text) : Keyword :=
  if metadata = "inter".toList then .inter
  else if metadata = "loc".toList then .loc
  else if metadata = "band".toList then .band
  else if metadata = "cost".toList then .cost
  else if metadata = "limit".toList then .limit
  else if metadata = "encrypt".toList then .encrypt
  else .other

structure Clause where
  keyword : Keyword
  data : Text
  deriving DecidableEq, Repr

/-- The second word of a clause. -/
def dataOf (t : Text) : Option Text := (after ' ' t).map (upTo ' ')

/-- What `parseCondition` makes of one clause of a condition line. -/
def clauseOf (t : Text) : Clause := ⟨keyword (upTo ' ' t), (dataOf t).getD []⟩

/-- The number of condition lines in a rule's header line. -/
def condCount (text : Text) : Nat := (atoi (upTo ',' text)).toNat

/-- `tempStore`: what follows the comma of a header line. -/
def headerText (text : Text) : Text := (after ',' text).getD []

/-- The clause of a header line; `data1` is what the array held. -/
def headerClause (data1 : Text) (text : Text) : Clause :=
  ⟨keyword (upTo ' ' (headerText text)), (dataOf (headerText text)).getD data1⟩

/-- `Action` -/
structure Action where
  interface : Text
  encrypted : Bool
  deriving DecidableEq, Repr

/-- `Action()` -/
def newAction : Action := ⟨[], true⟩

/-! ## The outside world -/

/-- What a clause asked for, and the answer. -/
inductive Query where
  | nothing
  | status (name answer : Text)
  | location (answer : Text)
  | bandwidth (name : Text) (answer : Int)
  | cost (name : Text) (answer : Int)
  deriving DecidableEq, Repr

inductive Event where
  /-- A line was taken for the header of the policy. -/
  | policy (pos : Nat)
  /-- A line was taken for the header of a rule. -/
  | rule (pos : Nat) (text : Text)
  /-- The header's clause was evaluated. -/
  | header (clause : Clause) (query : Query)
  /-- A line was taken for a condition line. -/
  | line (pos : Nat) (text : Text)
  /-- A clause of it was evaluated. -/
  | clause (clause : Clause) (query : Query)
  | hipEncrypt (on : Bool)
  | setHipIf (name : Text)
  | setMipIf (name : Text)
  | shib (name : Text) (ok : Bool)
  | confirmHipIf (name : Text)
  deriving DecidableEq, Repr

structure Env where
  getIfStatus : List Event → Text → Text
  getLocation : List Event → Text
  getBandwidth : List Event → Text → Int
  getCost : List Event → Text → Int
  shib : List Event → Text → Bool
  data1 : List Event → Text
  strOffset : List Event → Text

/-! ## Evaluation -/

/-- The two numbers of a bound, `value-offset`. -/
def bound (strOffset : Text) (data : Text) : Int × Int :=
  (atoi (upTo '-' data), atoi (((after '-' data).map (upTo '-')).getD strOffset))

/-- `interfaceEval`, of one name. -/
def interfaceEval (env : Env) (log : List Event) (name : Text) : Bool × Query :=
  let answer := env.getIfStatus log name
  (answer = "up".toList, .status name answer)

/-- `resolveLocation`, of one name. -/
def resolveLocation (env : Env) (log : List Event) (location : Text) : Bool × Query :=
  let answer := env.getLocation log
  (answer = location, .location answer)

/-- `evaluate` -/
def evaluate (env : Env) (log : List Event) (act : Action) (c : Clause) :
    Bool × Action × Query :=
  match c.keyword with
  | .inter =>
    let (pass, query) := interfaceEval env log c.data
    (pass, { act with interface := c.data }, query)
  | .loc =>
    let (pass, query) := resolveLocation env log c.data
    (pass, act, query)
  | .band =>
    let (bandwidth, offset) := bound (env.strOffset log) c.data
    let answer := env.getBandwidth log act.interface
    (bandwidth - offset ≤ answer, act, .bandwidth act.interface answer)
  | .cost =>
    let (cost, offset) := bound (env.strOffset log) c.data
    let answer := env.getCost log act.interface
    (cost + offset ≥ answer, act, .cost act.interface answer)
  | .encrypt => (true, { act with encrypted := c.data ≠ "off".toList }, .nothing)
  | .limit | .other => (true, act, .nothing)

/-- The clause of a rule's header: bounds are not checked here. -/
def evaluateHeader (env : Env) (log : List Event) (act : Action) (c : Clause) :
    Bool × Action × Query :=
  match c.keyword with
  | .inter =>
    let (pass, query) := interfaceEval env log c.data
    (pass, { act with interface := c.data }, query)
  | .loc =>
    let (pass, query) := resolveLocation env log c.data
    (pass, act, query)
  | .encrypt => (true, { act with encrypted := c.data ≠ "off".toList }, .nothing)
  | .band | .cost | .limit | .other => (true, act, .nothing)

/-- The loop over the clauses of a condition line. -/
def evalClauses (env : Env) : List Text → Action → List Event → Bool × Action × List Event
  | [], act, log => (true, act, log)
  | t :: ts, act, log =>
    let c := clauseOf t
    let (pass, act, query) := evaluate env log act c
    let log := .clause c query :: log
    if pass then evalClauses env ts act log else (false, act, log)

/-- The commands for a line whose clauses hold; whether they lead to a `return`. -/
def activate (env : Env) (appID : Int) (act : Action) (log : List Event) :
    Bool × List Event :=
  let retInter := act.interface
  if appID = 36 then
    let log := .setMipIf retInter :: log
    let ok := env.shib log retInter
    (ok, .shib retInter ok :: log)
  else
    let log := .setHipIf retInter :: .hipEncrypt act.encrypted :: log
    let ok := env.shib log retInter
    if ok then (true, .confirmHipIf retInter :: .shib retInter ok :: log)
    else (false, .shib retInter ok :: log)

/-- One condition line. -/
def tryLine (env : Env) (appID : Int) (pos : Nat) (text : Text) (act : Action)
    (log : List Event) : Option Text × Action × List Event :=
  match evalClauses env (pieces ',' text) act (.line pos text :: log) with
  | (false, act, log) => (none, act, log)
  | (true, act, log) =>
    match activate env appID act log with
    | (true, log) => (some act.interface, act, log)
    | (false, log) => (none, act, log)

/-- One rule's header. -/
def tryHeader (env : Env) (pos : Nat) (text : Text) (log : List Event) :
    Bool × Action × List Event :=
  let log := .rule pos text :: log
  let c := headerClause (env.data1 log) text
  let (pass, act, query) := evaluateHeader env log newAction c
  (pass, act, .header c query :: log)

/-! ## The file -/

structure Reader where
  rest : List Text
  /-- The position of the next line. -/
  pos : Nat
  failed : Bool
  str : Text
  deriving DecidableEq, Repr

/-- `in.getline(str, n)` -/
def Reader.getline (n : Nat) (r : Reader) : Reader :=
  if r.failed then { r with str := store [] r.str }
  else
    match r.rest with
    | [] => { r with failed := true, str := store [] r.str }
    | line :: rest =>
      if line.length < n then ⟨rest, r.pos + 1, false, store line r.str⟩
      else { r with failed := true, str := store (line.take (n - 1)) r.str }

/-- The loop that skips condition lines. -/
def Reader.skip : Nat → Reader → Reader
  | 0, r => r
  | n + 1, r => (r.getline 255).skip n

/-- The loop over the condition lines of a rule. -/
def evalLines (env : Env) (appID : Int) :
    Nat → Reader → Action → List Event → Option Text × Reader × List Event
  | 0, r, _, log => (none, r, log)
  | n + 1, r, act, log =>
    let pos := r.pos
    let r := r.getline 255
    match tryLine env appID pos (cstr r.str) act log with
    | (some retInter, _, log) => (some retInter, r, log)
    | (none, act, log) => evalLines env appID n r act log

/-- The loop over the rules of a policy. -/
def evalRules (env : Env) (appID : Int) :
    Nat → Reader → List Event → Option Text × List Event
  | 0, _, log => (none, log)
  | n + 1, r, log =>
    let pos := r.pos
    let r := r.getline 255
    let text := cstr r.str
    match tryHeader env pos text log with
    | (false, _, log) => evalRules env appID n (r.skip (condCount text)) log
    | (true, act, log) =>
      match evalLines env appID (condCount text) r act log with
      | (some retInter, _, log) => (some retInter, log)
      | (none, r, log) => evalRules env appID n r log

inductive Result where
  | null
  | name (retInter : Text)
  | noReturn
  deriving DecidableEq, Repr

/-- The number a line starts with, as the search for the policy reads it. -/
def leadingNumber (text : Text) : Int := atoi (upTo ',' text)

/-- The number of rules: the character after the comma, wherever that is. -/
def ruleCount (str : Text) : Nat :=
  (atoi [str.getD ((upTo ',' (cstr str)).length + 1) nul]).toNat

/-- The branch of a line with the application's number. -/
def evalPolicy (env : Env) (appID : Int) (pos : Nat) (r : Reader) : Result × List Event :=
  match evalRules env appID (ruleCount r.str) r [.policy pos] with
  | (some retInter, log) => (.name retInter, log)
  | (none, log) => (.null, log)

/-- The loop `while(in)`. At the end of the file it goes round once more, with an empty
string. -/
def search (env : Env) (appID : Int) : List Text → Nat → Text → Result × List Event
  | [], pos, str =>
    let r := Reader.getline 150 ⟨[], pos, false, str⟩
    if leadingNumber (cstr r.str) = appID then evalPolicy env appID pos r else (.noReturn, [])
  | line :: rest, pos, str =>
    let r := Reader.getline 150 ⟨line :: rest, pos, false, str⟩
    if leadingNumber (cstr r.str) = appID then evalPolicy env appID pos r
    else if r.failed then (.noReturn, [])
    else search env appID rest (pos + 1) r.str

/-- `policyModel`; `file` is `none` where it cannot be opened. -/
def policyModel (env : Env) (file : Option (List Text)) (appID : Int) : Result × List Event :=
  match file with
  | none => (.null, [])
  | some lines => search env appID lines 0 []

end Manhattan.Middleware.PolicyModel
