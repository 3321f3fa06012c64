import Mathlib.Data.List.Infix
import Manhattan.Middleware.PolicyTrace

/-!
# The framing of the policy file

A policy file is written from its policies (`renderFile`): a line `appID,ruleCount`, for
each rule a line `condCount,clause` and its condition lines, and empty lines between the
policies. `interpret` says what the call is to make of it: it evaluates the rules of the
policy that was asked for, line by line, and knows nothing of the file's text.

`policyModel` searches the text. It compares the number at the start of each line with
the application's, whatever kind of line it is, it takes one digit for the number of
rules, and it has no `return` after the search. `framed_iff` is the exact condition under
which that comes to the same.

Mirroring notes:
- Positions are those of the lines in the file. They are part of the events, so that
  `interpret` also says which line is taken for what.
- A line fits the array if it has fewer than 150 characters; a NUL character would cut
  it off.
-/

namespace Manhattan.Middleware.PolicyModel

open Manhattan.Lib

/-! ## Writing -/

structure PolicyRule where
  clause : Text
  lines : List Text
  deriving DecidableEq, Repr

structure Policy where
  appID : Int
  rules : List PolicyRule
  /-- The empty lines after it. -/
  blanks : Nat
  deriving DecidableEq, Repr

def PolicyRule.header (rule : PolicyRule) : Text :=
  decimal rule.lines.length ++ ',' :: rule.clause

def PolicyRule.render (rule : PolicyRule) : List Text := rule.header :: rule.lines

def Policy.header (p : Policy) : Text := decimal p.appID ++ ',' :: decimal p.rules.length

def Policy.body (p : Policy) : List Text := p.rules.flatMap PolicyRule.render

def Policy.render (p : Policy) : List Text :=
  p.header :: (p.body ++ List.replicate p.blanks [])

def renderFile (ps : List Policy) : List Text := ps.flatMap Policy.render

/-- A line that the array holds. -/
def Fits (line : Text) : Prop := line.length < 150 ∧ nul ∉ line

instance decFits (line : Text) : Decidable (Fits line) :=
  inferInstanceAs (Decidable (line.length < 150 ∧ nul ∉ line))

/-! ## What a call is to do -/

section

variable (env : Env) (appID : Int)

def interpretLines : List Text → Nat → Action → List Event → Option Text × List Event
  | [], _, _, log => (none, log)
  | line :: lines, pos, act, log =>
    match tryLine env appID pos line act log with
    | (some retInter, _, log) => (some retInter, log)
    | (none, act, log) => interpretLines lines (pos + 1) act log

def interpretRules : List PolicyRule → Nat → List Event → Option Text × List Event
  | [], _, log => (none, log)
  | rule :: rules, pos, log =>
    let next := pos + 1 + rule.lines.length
    match tryHeader env pos rule.header log with
    | (false, _, log) => interpretRules rules next log
    | (true, act, log) =>
      match interpretLines env appID rule.lines (pos + 1) act log with
      | (some retInter, log) => (some retInter, log)
      | (none, log) => interpretRules rules next log

/-- The policy of an application, and the position of its header. -/
def locate : List Policy → Nat → Option (Nat × Policy)
  | [], _ => none
  | p :: ps, pos => if p.appID = appID then some (pos, p) else locate ps (pos + p.render.length)

/-- What the rules of a policy come to. -/
def resultOf : Option Text × List Event → Result × List Event
  | (some retInter, log) => (.name retInter, log)
  | (none, log) => (.null, log)

/-- What a call is to do: null without a policy, and else what its rules say. -/
def interpret (ps : List Policy) : Result × List Event :=
  match locate appID ps 0 with
  | none => (.null, [])
  | some (pos, p) => resultOf (interpretRules env appID p.rules (pos + 1) [.policy pos])

end

/-- **The file is read as it was written**, whatever the outside world answers. -/
def Framed (ps : List Policy) (appID : Int) : Prop :=
  ∀ env, policyModel env (some (renderFile ps)) appID = interpret env appID ps

/-- There is a policy for the application, it has nine rules at most, and no line before
its header starts with the application's number. -/
def Findable (ps : List Policy) (appID : Int) : Prop :=
  ∃ pos p, locate appID ps 0 = some (pos, p) ∧ p.rules.length ≤ 9 ∧
    ∀ line ∈ (renderFile ps).take pos, leadingNumber line ≠ appID

/-! ## Reading lines -/

/-- The stream is in order, and these are the lines to come. -/
structure Reader.At (r : Reader) (lines : List Text) (pos : Nat) : Prop where
  good : r.failed = false
  rest : r.rest = lines
  pos : r.pos = pos

theorem getline_fits {line : Text} {n : Nat} (h : line.length < n) (lines : List Text)
    (pos : Nat) (str : Text) :
    Reader.getline n ⟨line :: lines, pos, false, str⟩ =
      ⟨lines, pos + 1, false, store line str⟩ := by
  unfold Reader.getline
  exact if_pos h

theorem Reader.At.getline {r : Reader} {line : Text} {lines : List Text} {pos n : Nat}
    (h : r.At (line :: lines) pos) (hfit : line.length < n) :
    (r.getline n).At lines (pos + 1) ∧ (r.getline n).str = store line r.str := by
  cases r with
  | mk rest pos' failed str =>
    cases h.good
    cases h.rest
    cases h.pos
    rw [getline_fits hfit]
    exact ⟨⟨rfl, rfl, rfl⟩, rfl⟩

/-- A line that fits is read whole, as a condition line or a header. -/
theorem Reader.At.read {r : Reader} {line : Text} {lines : List Text} {pos n : Nat}
    (h : r.At (line :: lines) pos) (hfit : Fits line) (hn : 150 ≤ n) :
    (r.getline n).At lines (pos + 1) ∧ cstr (r.getline n).str = line := by
  obtain ⟨hat, hstr⟩ := h.getline (Nat.lt_of_lt_of_le hfit.1 hn)
  refine ⟨hat, ?_⟩
  rw [hstr]
  exact cstr_store hfit.2 r.str

theorem Reader.At.skip {lines post : List Text} (hfit : ∀ line ∈ lines, Fits line) :
    ∀ {r : Reader} {pos : Nat}, r.At (lines ++ post) pos →
      (r.skip lines.length).At post (pos + lines.length) := by
  induction lines with
  | nil => exact fun h => h
  | cons line lines ih =>
    intro r pos h
    obtain ⟨hat, -⟩ := h.read (hfit line List.mem_cons_self) (n := 255) (by decide)
    have hskip := ih (fun l hl => hfit l (List.mem_cons_of_mem _ hl)) hat
    rw [Nat.add_assoc, Nat.add_comm 1] at hskip
    exact hskip

theorem condCount_header (rule : PolicyRule) : condCount rule.header = rule.lines.length := by
  unfold condCount PolicyRule.header
  rw [upTo_append (not_mem_decimal (by decide) (by decide) _), atoi_decimal]
  rfl

theorem leadingNumber_header (p : Policy) : leadingNumber p.header = p.appID := by
  unfold leadingNumber Policy.header
  rw [upTo_append (not_mem_decimal (by decide) (by decide) _), atoi_decimal]

/-! ## Rules that are read as they were written -/

section

variable (env : Env) (appID : Int)

theorem evalLines_render {lines post : List Text} (hfit : ∀ line ∈ lines, Fits line) :
    ∀ {r : Reader} {pos : Nat} (act : Action) (log : List Event), r.At (lines ++ post) pos →
      ∃ r', evalLines env appID lines.length r act log =
          ((interpretLines env appID lines pos act log).1, r',
            (interpretLines env appID lines pos act log).2) ∧
        ((interpretLines env appID lines pos act log).1 = none →
          r'.At post (pos + lines.length)) := by
  induction lines with
  | nil => exact fun {r} _ _ _ h => ⟨r, rfl, fun _ => h⟩
  | cons line lines ih =>
    intro r pos act log h
    obtain ⟨hat, hstr⟩ := h.read (hfit line List.mem_cons_self) (n := 255) (by decide)
    rw [List.length_cons]
    unfold evalLines interpretLines
    dsimp only
    rw [hstr, h.pos]
    cases htry : tryLine env appID pos line act log with
    | mk found rest =>
      obtain ⟨act', log'⟩ := rest
      cases found with
      | some retInter => exact ⟨_, rfl, fun hnone => absurd hnone (Option.some_ne_none _)⟩
      | none =>
        have hrest := ih (fun l hl => hfit l (List.mem_cons_of_mem _ hl)) act' log' hat
        rw [Nat.add_assoc, Nat.add_comm 1] at hrest
        exact hrest

theorem evalRules_render {rules : List PolicyRule} {post : List Text}
    (hfit : ∀ line ∈ rules.flatMap PolicyRule.render, Fits line) :
    ∀ {r : Reader} {pos : Nat} (log : List Event),
      r.At (rules.flatMap PolicyRule.render ++ post) pos →
      evalRules env appID rules.length r log = interpretRules env appID rules pos log := by
  induction rules with
  | nil => exact fun _ _ => rfl
  | cons rule rules ih =>
    intro r pos log h
    rw [List.flatMap_cons] at hfit h
    have hrule : ∀ line ∈ rule.render, Fits line :=
      fun line hl => hfit line (List.mem_append_left _ hl)
    have hlines : ∀ line ∈ rule.lines, Fits line :=
      fun line hl => hrule line (List.mem_cons_of_mem _ hl)
    have ih := fun {r : Reader} {pos : Nat} => @ih
      (fun line hl => hfit line (List.mem_append_right _ hl)) r pos
    rw [List.append_assoc] at h
    obtain ⟨hat, hstr⟩ := Reader.At.read h (hrule _ List.mem_cons_self) (n := 255) (by decide)
    rw [List.length_cons]
    unfold evalRules interpretRules
    dsimp only
    rw [hstr, h.pos, condCount_header]
    cases htry : tryHeader env pos rule.header log with
    | mk pass rest =>
      obtain ⟨act, log'⟩ := rest
      cases pass with
      | false => exact ih log' (Reader.At.skip hlines hat)
      | true =>
        dsimp only
        obtain ⟨r', heval, hnext⟩ := evalLines_render env appID hlines act log' hat
        rw [heval]
        cases hfound : interpretLines env appID rule.lines (pos + 1) act log' with
        | mk found log'' =>
          rw [hfound] at hnext
          cases found with
          | some retInter => rfl
          | none => exact ih log'' (hnext rfl)

end

/-! ## The search -/

theorem ruleCount_le (str : Text) : ruleCount str ≤ 9 := by
  have hle := atoi_singleton_le (str.getD ((upTo ',' (cstr str)).length + 1) nul)
  unfold ruleCount
  omega

/-- The number of rules is right if it is written with one digit. -/
theorem ruleCount_header {p : Policy} (hnul : nul ∉ p.header) (hle : p.rules.length ≤ 9)
    (str : Text) : ruleCount (store p.header str) = p.rules.length := by
  obtain ⟨c, hc, hvalue⟩ := decimal_of_lt (Nat.lt_succ_of_le hle)
  have hchar : (store p.header str).getD
      ((upTo ',' (cstr (store p.header str))).length + 1) nul = c := by
    rw [cstr_store hnul]
    unfold Policy.header store
    rw [upTo_append (not_mem_decimal (by decide) (by decide) _), hc]
    simp
  unfold ruleCount
  rw [hchar, hvalue]
  rfl

theorem evalPolicy_eq (env : Env) (appID : Int) (pos : Nat) (r : Reader) :
    evalPolicy env appID pos r =
      resultOf (evalRules env appID (ruleCount r.str) r [.policy pos]) := by
  unfold evalPolicy
  cases evalRules env appID (ruleCount r.str) r [.policy pos] with
  | mk found log => cases found <;> rfl

section

variable (env : Env) (appID : Int)

/-- The first line with the number is taken for the header. -/
theorem search_found {pre post : List Text} {line : Text}
    (hpre : ∀ l ∈ pre, leadingNumber l ≠ appID) (hline : leadingNumber line = appID)
    (hfit : ∀ l ∈ pre ++ line :: post, Fits l) :
    ∀ (pos : Nat) (str : Text), ∃ str', search env appID (pre ++ line :: post) pos str =
      evalPolicy env appID (pos + pre.length)
        ⟨post, pos + pre.length + 1, false, store line str'⟩ := by
  induction pre with
  | nil =>
    intro pos str
    have hthis : Fits line := hfit line List.mem_cons_self
    refine ⟨str, ?_⟩
    rw [List.nil_append]
    unfold search
    dsimp only
    rw [getline_fits hthis.1, if_pos (by rw [cstr_store hthis.2]; exact hline)]
    rfl
  | cons l pre ih =>
    intro pos str
    have hthis : Fits l := hfit l List.mem_cons_self
    obtain ⟨str', hrest⟩ := ih (fun l' hl => hpre l' (List.mem_cons_of_mem _ hl))
      (fun l' hl => hfit l' (List.mem_cons_of_mem _ hl)) (pos + 1) (store l str)
    refine ⟨str', ?_⟩
    rw [List.cons_append]
    unfold search
    dsimp only
    rw [getline_fits hthis.1,
      if_neg (by rw [cstr_store hthis.2]; exact hpre l List.mem_cons_self),
      if_neg Bool.false_ne_true, hrest, List.length_cons, Nat.add_assoc pos 1, Nat.add_comm 1]

/-- Some line is taken for the header, and none before it has the number; or the call
ends without a `return`. -/
theorem search_cases {lines : List Text} (hfit : ∀ l ∈ lines, Fits l) :
    ∀ (pos : Nat) (str : Text), search env appID lines pos str = (.noReturn, []) ∨
      ∃ k r, (∀ l ∈ lines.take k, leadingNumber l ≠ appID) ∧
        search env appID lines pos str = evalPolicy env appID (pos + k) r := by
  induction lines with
  | nil =>
    -- the end of the file counts as an empty line, which starts with 0
    intro pos str
    unfold search
    dsimp only
    split
    · exact Or.inr ⟨0, _, fun l hl => absurd hl List.not_mem_nil, rfl⟩
    · exact Or.inl rfl
  | cons line lines ih =>
    intro pos str
    have hthis : Fits line := hfit line List.mem_cons_self
    unfold search
    dsimp only
    rw [getline_fits hthis.1, cstr_store hthis.2]
    split
    · exact Or.inr ⟨0, _, fun l hl => absurd hl List.not_mem_nil, rfl⟩
    next hne =>
      rw [if_neg Bool.false_ne_true]
      rcases ih (fun l hl => hfit l (List.mem_cons_of_mem _ hl)) (pos + 1) (store line str) with
        hend | ⟨k, r, hk, hfound⟩
      · exact Or.inl hend
      · refine Or.inr ⟨k + 1, r, ?_, ?_⟩
        · intro l hl
          rcases List.mem_cons.mp hl with rfl | hl
          · exact hne
          · exact hk l hl
        · rw [hfound, Nat.add_assoc, Nat.add_comm 1]

end

/-- Where the policy stands in the file. -/
theorem locate_split {appID : Int} {ps : List Policy} {pos₀ pos : Nat} {p : Policy}
    (h : locate appID ps pos₀ = some (pos, p)) :
    p.appID = appID ∧ ∃ pre post, renderFile ps = pre ++ p.header :: (p.body ++ post) ∧
      pos = pos₀ + pre.length := by
  induction ps generalizing pos₀ with
  | nil => cases h
  | cons q ps ih =>
    unfold locate at h
    have hfile : renderFile (q :: ps) = q.render ++ renderFile ps := List.flatMap_cons
    split at h
    next hid =>
      cases h
      refine ⟨hid, [], List.replicate p.blanks [] ++ renderFile ps, ?_, rfl⟩
      rw [hfile]
      unfold Policy.render
      rw [List.nil_append, List.cons_append, List.append_assoc]
    next =>
      obtain ⟨hid, pre, post, hps, hpos⟩ := ih h
      refine ⟨hid, q.render ++ pre, post, ?_, ?_⟩
      · rw [hfile, hps, List.append_assoc]
      · rw [hpos, List.length_append, Nat.add_assoc]

/-! ## What the events give away -/

section

variable {env : Env} {appID : Int}

/-- Nothing that has happened is forgotten. -/
theorem activate_suffix (act : Action) (log : List Event) :
    log <:+ (activate env appID act log).2 := by
  unfold activate
  split
  · exact ⟨[_, _], rfl⟩
  · dsimp only
    split
    · exact ⟨[_, _, _, _], rfl⟩
    · exact ⟨[_, _, _], rfl⟩

theorem steps_suffix {s s' : Action × List Event}
    (h : Relation.ReflTransGen (Step env appID) s s') : s.2 <:+ s'.2 := by
  induction h with
  | refl => exact List.suffix_rfl
  | tail _ hstep ih =>
    refine ih.trans ?_
    cases hstep with
    | rule act log pos text => exact ⟨[_, _], rfl⟩
    | inRule hstep =>
      cases hstep with
      | line act log pos text => exact ⟨[_], rfl⟩
      | clause act log t => exact ⟨[_], rfl⟩
      | refused act log hc hr => exact activate_suffix act log

theorem evalRules_suffix (n : Nat) (r : Reader) (log : List Event) :
    log <:+ (evalRules env appID n r log).2 := by
  obtain ⟨act, log', hsteps, hend⟩ := evalRules_steps env appID n r newAction log
  have hsuffix : log <:+ log' := steps_suffix hsteps
  rcases hend with hnone | ⟨-, hsome⟩
  · rw [hnone]
    exact hsuffix
  · rw [hsome]
    exact hsuffix.trans (activate_suffix act log')

def Event.isRule : Event → Bool
  | .rule _ _ => true
  | _ => false

theorem activate_rules (act : Action) (log : List Event) :
    (activate env appID act log).2.countP Event.isRule = log.countP Event.isRule := by
  unfold activate
  split
  · rfl
  · dsimp only
    split <;> rfl

/-- No header is read inside a rule. -/
theorem lineSteps_rules {s s' : Action × List Event} (h : LineSteps env appID s s') :
    s'.2.countP Event.isRule = s.2.countP Event.isRule := by
  induction h with
  | refl => rfl
  | tail _ hstep ih =>
    rw [← ih]
    cases hstep with
    | line act log pos text => rfl
    | clause act log t => rfl
    | refused act log hc hr => exact activate_rules act log

theorem activate_refused (hno : ∀ log name, env.shib log name = false) (act : Action)
    (log : List Event) : (activate env appID act log).1 = false := by
  unfold activate
  split
  · exact hno _ _
  · dsimp only
    rw [hno]
    rfl

/-- Where every authentication fails all the rules are read. -/
theorem evalRules_rules (hno : ∀ log name, env.shib log name = false) (n : Nat) (r : Reader)
    (log : List Event) :
    (evalRules env appID n r log).2.countP Event.isRule = n + log.countP Event.isRule := by
  induction n generalizing r log with
  | zero => exact (Nat.zero_add _).symm
  | succ n ih =>
    have hheader := tryHeader_view env r.pos (cstr (r.getline 255).str) log
    have hcount : (tryHeader env r.pos (cstr (r.getline 255).str) log).2.2.countP Event.isRule =
        log.countP Event.isRule + 1 := by
      unfold tryHeader
      dsimp only
      rw [List.countP_cons_of_neg Bool.false_ne_true, List.countP_cons_of_pos rfl]
    unfold evalRules
    dsimp only
    generalize tryHeader env r.pos (cstr (r.getline 255).str) log = h at *
    obtain ⟨pass, act₁, log₁⟩ := h
    dsimp only at hcount hheader
    cases pass with
    | false =>
      dsimp only
      rw [ih, hcount]
      omega
    | true =>
      dsimp only
      obtain ⟨act₂, log₂, r', hlines, hend⟩ :=
        evalLines_steps env appID (condCount (cstr (r.getline 255).str)) (r.getline 255) act₁
          hheader
      have hsame : log₂.countP Event.isRule = log₁.countP Event.isRule := lineSteps_rules hlines
      rcases hend with hnone | ⟨⟨-, hok⟩, -⟩
      · rw [hnone]
        dsimp only
        rw [ih, hsame, hcount]
        omega
      · rw [activate_refused hno] at hok
        cases hok

end

/-! ## The file -/

/-- Where nobody can log in. -/
def refusing : Env :=
  ⟨fun _ _ => [], fun _ => [], fun _ _ => 0, fun _ _ => 0, fun _ _ => false, fun _ => [],
    fun _ => []⟩

theorem resultOf_snd (x : Option Text × List Event) : (resultOf x).2 = x.2 := by
  cases x with
  | mk found log => cases found <;> rfl

theorem resultOf_ne_noReturn (x : Option Text × List Event) : (resultOf x).1 ≠ .noReturn := by
  cases x with
  | mk found log => cases found <;> exact fun h => nomatch h

/-- A log starts with one policy header. -/
theorem policy_pos_unique {pos pos' : Nat} {log : List Event} (h : [.policy pos] <:+ log)
    (h' : [.policy pos'] <:+ log) : pos = pos' := by
  have heq : [Event.policy pos] = [.policy pos'] :=
    (List.suffix_of_suffix_length_le h h' (Nat.le_refl _)).eq_of_length rfl
  cases heq
  rfl

theorem framed_of_findable {ps : List Policy} {appID : Int}
    (hfit : ∀ line ∈ renderFile ps, Fits line) (h : Findable ps appID) : Framed ps appID := by
  obtain ⟨pos, p, hlocate, hrules, hbefore⟩ := h
  obtain ⟨rfl, pre, post, hfile, hpos⟩ := locate_split hlocate
  rw [Nat.zero_add] at hpos
  intro env
  rw [hfile] at hfit hbefore
  rw [hpos, List.take_left] at hbefore
  have hheader : Fits p.header := hfit _ (List.mem_append_right _ List.mem_cons_self)
  have hbody : ∀ line ∈ p.body, Fits line := fun line hl =>
    hfit line (List.mem_append_right _ (List.mem_cons_of_mem _ (List.mem_append_left _ hl)))
  obtain ⟨str, hsearch⟩ := search_found env p.appID hbefore (leadingNumber_header p) hfit 0 []
  unfold policyModel interpret
  dsimp only
  rw [hfile, hsearch, hlocate, evalPolicy_eq, ruleCount_header hheader.2 hrules, Nat.zero_add,
    ← hpos]
  exact congrArg resultOf (evalRules_render env p.appID hbody _ ⟨rfl, rfl, rfl⟩)

theorem findable_of_framed {ps : List Policy} {appID : Int}
    (hfit : ∀ line ∈ renderFile ps, Fits line) (h : Framed ps appID) : Findable ps appID := by
  have hcall := h refusing
  unfold policyModel interpret at hcall
  dsimp only at hcall
  cases hlocate : locate appID ps 0 with
  | none =>
    -- no policy: the call has no `return`, or takes a line for a header
    rw [hlocate] at hcall
    rcases search_cases refusing appID hfit 0 [] with hend | ⟨k, r, -, hfound⟩
    · rw [hend] at hcall
      cases hcall
    · rw [hfound, evalPolicy_eq] at hcall
      have hsuffix : [Event.policy (0 + k)] <:+
          (evalRules refusing appID (ruleCount r.str) r [.policy (0 + k)]).2 :=
        evalRules_suffix _ r _
      rw [← resultOf_snd, hcall] at hsuffix
      cases List.suffix_nil.mp hsuffix
  | some found =>
    obtain ⟨pos, p⟩ := found
    obtain ⟨rfl, pre, post, hfile, -⟩ := locate_split hlocate
    rw [hlocate] at hcall
    dsimp only at hcall
    -- the rules as they are to be read, and as a stream of their lines is read
    have hbody : ∀ line ∈ p.body, Fits line := by
      intro line hl
      rw [hfile] at hfit
      exact hfit line (List.mem_append_right _ (List.mem_cons_of_mem _ (List.mem_append_left _ hl)))
    have hat : Reader.At ⟨p.body, pos + 1, false, []⟩ (p.body ++ []) (pos + 1) :=
      ⟨rfl, (List.append_nil _).symm, rfl⟩
    rw [← evalRules_render refusing p.appID hbody [.policy pos] hat] at hcall
    rcases search_cases refusing p.appID hfit 0 [] with hend | ⟨k, r, hk, hfound⟩
    · rw [hend] at hcall
      exact absurd (congrArg Prod.fst hcall).symm (resultOf_ne_noReturn _)
    · rw [hfound, evalPolicy_eq, Nat.zero_add] at hcall
      have hlog := congrArg Prod.snd hcall
      rw [resultOf_snd, resultOf_snd] at hlog
      have hsuffix : [Event.policy k] <:+
          (evalRules refusing p.appID (ruleCount r.str) r [.policy k]).2 :=
        evalRules_suffix _ r _
      rw [hlog] at hsuffix
      have hpos : k = pos := policy_pos_unique hsuffix (evalRules_suffix _ _ _)
      -- with ten rules or more, one digit is too small a number of rules
      have hcount := congrArg (List.countP Event.isRule) hlog
      rw [evalRules_rules (fun _ _ => rfl), evalRules_rules (fun _ _ => rfl)] at hcount
      have hle := ruleCount_le r.str
      refine ⟨pos, p, hlocate, ?_, hpos ▸ hk⟩
      have hsame : ruleCount r.str = p.rules.length := by
        simpa [Event.isRule] using hcount
      omega

/-- **The file is read as it was written**, for an application and whatever the outside
world answers, exactly if there is a policy for it with nine rules at most, and no line
before that policy starts with the application's number. -/
theorem framed_iff (ps : List Policy) (appID : Int)
    (hfit : ∀ line ∈ renderFile ps, Fits line) : Framed ps appID ↔ Findable ps appID :=
  ⟨findable_of_framed hfit, framed_of_findable hfit⟩

/-- Two policies, with two rules and with one. -/
def twoPolicies : List Policy :=
  [⟨35, [⟨"loc home".toList, ["inter wlan0".toList, "inter eth0".toList]⟩,
      ⟨"inter ppp0".toList, ["loc car".toList]⟩], 1⟩,
   ⟨36, [⟨"loc home".toList, ["inter eth0".toList]⟩], 0⟩]

theorem framed_iff_twoPolicies : Framed twoPolicies 36 :=
  (framed_iff twoPolicies 36 (by decide)).mpr ⟨7, _, rfl, by decide, by decide⟩

/-- The second policy is for application 2. -/
def smallNumber : List Policy :=
  [⟨35, [⟨"loc home".toList, ["inter wlan0".toList, "inter eth0".toList]⟩], 1⟩,
   ⟨2, [⟨"loc home".toList, ["inter eth0".toList]⟩], 0⟩]

/-- **A rule is taken for a policy**: the header of a rule with two lines (position 1) is
found before the policy of application 2 (position 5). And a call for an application
without a policy has no `return`. -/
theorem rule_is_taken_for_policy :
    ((policyModel refusing (some (renderFile smallNumber)) 2).2.getLast? = some (.policy 1) ∧
      (interpret refusing 2 smallNumber).2.getLast? = some (.policy 5) ∧
      ¬ Framed smallNumber 2) ∧
    (policyModel refusing (some (renderFile smallNumber)) 7).1 = .noReturn ∧
      (interpret refusing 7 smallNumber).1 = .null ∧ ¬ Framed smallNumber 7 := by
  have hmistaken : (policyModel refusing (some (renderFile smallNumber)) 2).2.getLast? =
      some (.policy 1) := by decide
  have hmeant : (interpret refusing 2 smallNumber).2.getLast? = some (.policy 5) := by decide
  have hnothing : (policyModel refusing (some (renderFile smallNumber)) 7).1 = .noReturn := by
    decide
  have hnull : (interpret refusing 7 smallNumber).1 = .null := by decide
  refine ⟨⟨hmistaken, hmeant, fun h => ?_⟩, hnothing, hnull, fun h => ?_⟩
  · rw [h refusing, hmeant] at hmistaken
    exact absurd hmistaken (by decide)
  · rw [h refusing, hnull] at hnothing
    cases hnothing

end Manhattan.Middleware.PolicyModel
