import Manhattan.Lib.CopyLoop
import Manhattan.Middleware.PolicyModel

/-!
# Taking a condition line apart (`parseCondition` of `PolicyModel.cpp`)

The clause loop of `policyModel` calls `parseCondition` with an offset into the line and
gets the offset of the next comma back, or of the end of the line. It goes on one
character behind it: behind the comma, or behind the terminator, where the loop ends.
`parseCondition` copies the clause to `tempStore`, and from there the first word to
`metadata` and the second to `data2`.

All this happens in arrays that are used again for the next clause. `tempStore` is cleared
before, `metadata` in its first half only, and `data2` is new each time. The loops for the
words go on until the terminator included, and the second one starts behind it if there
was no second word.

`PolicyModel` works on texts and has the clauses from `pieces`. Here are the arrays and the
indexes; `clauses_handed` says that with at most 19 characters for a clause nothing of
this shows.

Mirroring notes:
- `str` is the array with the line: its string is the line, and anything may follow.
- `evaluate` is any function of the two strings and of a state of its own, and
  `clauseLoop_evalClauses` is the case of the evaluator.
- A round is given for every character of the line, and one more; `Fault.rounds` is a loop
  that has not ended then.
-/

namespace Manhattan.Middleware.ClauseLoop

open Manhattan.Lib
open Manhattan.Middleware.PolicyModel (dataOf)

/-! ## `parseCondition` -/

/-- The test of the two loops over `tempStore`. -/
def wordChar (c : Char) : Bool := c ≠ ' ' && c ≠ nul

/-- The two loops over `tempStore`: `metadata` and `data2`. -/
def splitWords (tempStore metadata data2 : Text) (init2 j : Nat) : Option (Text × Text) := do
  let len ← strlen tempStore
  let (init2, metadata) ← copyLoop wordChar tempStore (len + 1 - init2) init2 j metadata
  let init2 := init2 + 1
  let (_, data2) ← copyLoop wordChar tempStore (len + 1 - init2) init2 0 data2
  return (metadata, data2)

/-- What a call of `parseCondition` leaves in its arrays, and what it returns. -/
structure Parsed where
  tempStore : Text
  metadata : Text
  data2 : Text
  condOffset : Nat
  deriving DecidableEq, Repr

/-- `parseCondition` -/
def parseCondition (tempStore metadata data2 str : Text) (condOffset init2 dataIndex j : Nat) :
    Option Parsed := do
  let len ← strlen str
  let (condOffset, tempStore) ←
    copyLoop (· ≠ ',') str (len - condOffset) condOffset dataIndex tempStore
  let (metadata, data2) ← splitWords tempStore metadata data2 init2 j
  return ⟨tempStore, metadata, data2, condOffset⟩

/-! ## The loop -/

inductive Fault where
  | outside
  | rounds
  deriving DecidableEq, Repr

/-- The calls of `evaluate`, in order, what they make of the state, and `status`. -/
structure Outcome (σ : Type) where
  calls : List (Text × Text)
  state : σ
  status : Bool
  deriving DecidableEq, Repr

def Outcome.called {σ : Type} (call : Text × Text) (o : Outcome σ) : Outcome σ :=
  { o with calls := call :: o.calls }

section

variable {σ : Type} (evaluate : σ → Text × Text → Bool × σ)

/-- The loop over `condOffset`. -/
def clauseLoop (str : Text) : Nat → Nat → Text → Text → σ → Except Fault (Outcome σ)
  | 0, _, _, _, _ => .error .rounds
  | n + 1, condOffset, tempStore, metadata, state =>
    match strlen str with
    | none => .error .outside
    | some len =>
      if condOffset < len then
        match parseCondition (memset 20 tempStore) (memset 10 metadata) (List.replicate 20 nul)
            str condOffset 0 0 0 with
        | none => .error .outside
        | some p =>
          let call := (cstr p.metadata, cstr p.data2)
          if (evaluate state call).1 then
            (clauseLoop str n (p.condOffset + 1) p.tempStore p.metadata (evaluate state call).2).map
              (Outcome.called call)
          else .ok ⟨[call], (evaluate state call).2, false⟩
      else .ok ⟨[], state, true⟩

/-- One clause after the other, until one is rejected. -/
def evalAll : List (Text × Text) → σ → Outcome σ
  | [], state => ⟨[], state, true⟩
  | c :: cs, state =>
    if (evaluate state c).1 then (evalAll cs (evaluate state c).2).called c
    else ⟨[c], (evaluate state c).2, false⟩

/-- No clause is rejected when they are evaluated one after the other. -/
def NoneRejected : List (Text × Text) → σ → Prop
  | [], _ => True
  | c :: cs, state => (evaluate state c).1 = true ∧ NoneRejected cs (evaluate state c).2

end

/-! ## The clauses of a line -/

/-- The texts between the commas, without an empty one behind the last. -/
def clauses (line : Text) : List Text :=
  if (line.splitOn ',').getLast? = some [] then (line.splitOn ',').dropLast else line.splitOn ','

/-- The text before the first blank, and between the first and the second. -/
def pair (clause : Text) : Text × Text := (upTo ' ' clause, (dataOf clause).getD [])

theorem splitOn_comma (line : Text) :
    line.splitOn ',' = upTo ',' line ::
      ((after ',' line).map fun rest => rest.splitOn ',').getD [] := by
  induction line with
  | nil => rfl
  | cons x t ih =>
    rw [List.splitOn_eq_splitOnP, List.splitOnP_cons_eq_if_modifyHead, after]
    by_cases hx : x = ','
    · rw [if_pos (by simpa using hx), if_pos hx, hx]
      rfl
    · have hup : upTo ',' (x :: t) = x :: upTo ',' t :=
        List.takeWhile_cons_of_pos (by simpa using hx)
      rw [if_neg (by simpa using hx), if_neg hx, hup, ← List.splitOn_eq_splitOnP, ih]
      rfl

/-- A word with a comma behind it is the first clause. -/
theorem clauses_of_after {line rest : Text} (h : after ',' line = some rest) :
    clauses line = upTo ',' line :: clauses rest := by
  have hsplit : line.splitOn ',' = upTo ',' line :: rest.splitOn ',' := by
    rw [splitOn_comma, h]
    rfl
  obtain ⟨c, cs, hrest⟩ := List.exists_cons_of_ne_nil (List.splitOn_ne_nil ',' rest)
  unfold clauses
  rw [hsplit, hrest, List.getLast?_cons_cons, List.dropLast_cons_cons]
  split <;> rfl

theorem clauses_of_none {line : Text} (hne : line ≠ []) (h : after ',' line = none) :
    clauses line = [upTo ',' line] := by
  have hword : upTo ',' line = line := by
    obtain ⟨-, hsame⟩ | ⟨rest, hafter, -⟩ := upTo_cases ',' line
    · exact hsame
    · cases h.symm.trans hafter
  have hsplit : line.splitOn ',' = [upTo ',' line] := by
    rw [splitOn_comma, h]
    rfl
  unfold clauses
  rw [hsplit, hword, if_neg (by simpa using hne)]

theorem clauses_eq_pieces (line : Text) : clauses line = pieces ',' line := by
  induction hn : line.length using Nat.strong_induction_on generalizing line with
  | _ n ih =>
    by_cases hline : line = []
    · rw [hline]
      rfl
    · rw [pieces_eq hline]
      have hshorter := after_length_lt hline ','
      cases hafter : after ',' line with
      | none => exact clauses_of_none hline hafter
      | some rest =>
        rw [hafter] at hshorter
        rw [clauses_of_after hafter, ih _ (hn ▸ hshorter) rest rfl]
        rfl

/-! ## One round -/

section

variable {w : Text} (hnul : nul ∉ w)

include hnul

/-- One word, from a place in an array with the terminator behind the text. -/
theorem copyLoop_word {src r dst : Text} {i : Nat} (hdrop : src.drop i = w ++ nul :: r)
    (hroom : w.length < dst.length) :
    copyLoop wordChar src (w.length + 1) i 0 dst =
      some (i + (upTo ' ' w).length, store (upTo ' ' w) dst) := by
  have hle := upTo_length_le ' ' w
  have hword : ∀ c ∈ upTo ' ' w, wordChar c = true := by
    intro c hc
    have hblank : c ≠ ' ' := fun e => not_mem_upTo ' ' w (e ▸ hc)
    have hnot : c ≠ nul := fun e => not_mem_upTo_of_not_mem hnul ' ' (e ▸ hc)
    simp [wordChar, hblank, hnot]
  obtain ⟨-, hsame⟩ | ⟨v, -, hsplit⟩ := upTo_cases ' ' w
  · rw [← hsame] at hdrop
    exact copyLoop_stop hword (by decide) hdrop (Nat.lt_succ_of_le hle)
      (Nat.lt_of_le_of_lt hle hroom)
  · have hblank : src.drop i = upTo ' ' w ++ ' ' :: (v ++ nul :: r) := by
      calc src.drop i = w ++ nul :: r := hdrop
        _ = (upTo ' ' w ++ ' ' :: v) ++ nul :: r := congrArg (· ++ nul :: r) hsplit.symm
        _ = upTo ' ' w ++ ' ' :: (v ++ nul :: r) := List.append_assoc _ _ _
    exact copyLoop_stop hword (by decide) hblank (Nat.lt_succ_of_le hle)
      (Nat.lt_of_le_of_lt hle hroom)

/-- The two words of a clause; without a blank `data2` is left alone. -/
theorem splitWords_eq (r : Text) {metadata data2 : Text} (hmetadata : w.length < metadata.length)
    (hdata2 : w.length < data2.length) :
    splitWords (w ++ nul :: r) metadata data2 0 0 =
      some (store (upTo ' ' w) metadata, ((dataOf w).map fun d => store d data2).getD data2) := by
  have hstart : (w ++ nul :: r).drop 0 = w ++ nul :: r := rfl
  have hfirst := copyLoop_word hnul hstart hmetadata
  unfold splitWords
  rw [strlen_append hnul]
  simp only [Option.bind_eq_bind, Option.bind_some, Nat.sub_zero, hfirst, Nat.zero_add]
  obtain ⟨hafter, hsame⟩ | ⟨v, hafter, hsplit⟩ := upTo_cases ' ' w
  · rw [hsame, Nat.sub_self, dataOf, hafter]
    rfl
  · have hlen : (upTo ' ' w).length + 1 + v.length = w.length := by
      rw [← congrArg List.length hsplit, List.length_append, List.length_cons]
      omega
    have hv : nul ∉ v := not_mem_of_after hnul hafter
    have hdrop : (w ++ nul :: r).drop ((upTo ' ' w).length + 1) = v ++ nul :: r := by
      have hparts : w ++ nul :: r = upTo ' ' w ++ (' ' :: v ++ nul :: r) :=
        (congrArg (· ++ nul :: r) hsplit.symm).trans (List.append_assoc _ _ _)
      rw [hparts, ← List.drop_drop, List.drop_left]
      rfl
    have hrounds : w.length + 1 - ((upTo ' ' w).length + 1) = v.length + 1 := by omega
    rw [hrounds, copyLoop_word hv hdrop (by omega), dataOf, hafter]
    rfl

end

/-- The strings of the two arrays are the pair. -/
theorem cstr_words {w : Text} (hnul : nul ∉ w) (metadata : Text) :
    cstr (store (upTo ' ' w) metadata) = (pair w).1 ∧
      cstr (((dataOf w).map fun d => store d (List.replicate 20 nul)).getD
        (List.replicate 20 nul)) = (pair w).2 := by
  refine ⟨cstr_store (not_mem_upTo_of_not_mem hnul ' ') metadata, ?_⟩
  unfold pair
  cases hafter : after ' ' w with
  | none =>
    rw [dataOf, hafter]
    rfl
  | some v =>
    rw [dataOf, hafter]
    exact cstr_store (not_mem_upTo_of_not_mem (not_mem_of_after hnul hafter) ' ') _

/-- The clause at an offset is in `tempStore`, whether a comma ends it or the line. -/
theorem copyLoop_clause (done rest : Text) {line : Text}
    (hshort : (upTo ',' line).length ≤ 19) :
    copyLoop (· ≠ ',') (done ++ (line ++ nul :: rest)) line.length done.length 0
      (List.replicate 20 nul) =
        some (done.length + (upTo ',' line).length,
          store (upTo ',' line) (List.replicate 20 nul)) := by
  have hstays : ∀ c ∈ upTo ',' line, decide (c ≠ ',') = true :=
    fun c hc => decide_eq_true fun e => not_mem_upTo ',' line (e ▸ hc)
  have hdrop : (done ++ (line ++ nul :: rest)).drop done.length = line ++ nul :: rest :=
    List.drop_left
  obtain ⟨-, hsame⟩ | ⟨more, -, hsplit⟩ := upTo_cases ',' line
  · -- no comma: the loop runs to the limit, and the terminator is that of the cleared array
    rw [hsame] at hstays hshort ⊢
    rw [copyLoop_all hstays hdrop (by rw [List.length_replicate]; omega),
      append_cleared (Nat.lt_succ_of_le hshort)]
  · have hlen := congrArg List.length hsplit
    rw [List.length_append, List.length_cons] at hlen
    have hcomma : (done ++ (line ++ nul :: rest)).drop done.length =
        upTo ',' line ++ ',' :: (more ++ nul :: rest) := by
      rw [hdrop]
      exact (congrArg (· ++ nul :: rest) hsplit.symm).trans (List.append_assoc _ _ _)
    exact copyLoop_stop hstays (by decide) hcomma (by omega)
      (by rw [List.length_replicate]; omega)

/-- The arrays keep their sizes. -/
structure Sized (tempStore metadata : Text) : Prop where
  tempStore : tempStore.length = 20
  metadata : metadata.length = 20

section

variable {done line tempStore metadata : Text} (rest : Text)
variable (hdone : nul ∉ done) (hline : nul ∉ line)

include hdone hline

theorem strlen_line :
    strlen (done ++ (line ++ nul :: rest)) = some (done.length + line.length) := by
  rw [← List.append_assoc, strlen_append (fun h => (List.mem_append.mp h).elim hdone hline),
    List.length_append]

/-- A call returns the offset of the clause's end, with the clause's pair in the arrays. -/
theorem parseCondition_clause (hshort : (upTo ',' line).length ≤ 19)
    (hsized : Sized tempStore metadata) :
    ∃ p, parseCondition (memset 20 tempStore) (memset 10 metadata) (List.replicate 20 nul)
        (done ++ (line ++ nul :: rest)) done.length 0 0 0 = some p ∧
      p.condOffset = done.length + (upTo ',' line).length ∧ Sized p.tempStore p.metadata ∧
      (cstr p.metadata, cstr p.data2) = pair (upTo ',' line) := by
  have hclear : memset 20 tempStore = List.replicate 20 nul := by
    unfold memset
    rw [List.drop_eq_nil_of_le (Nat.le_of_eq hsized.tempStore), List.append_nil]
  have hmetadata : (memset 10 metadata).length = 20 := by
    rw [memset_length (by rw [hsized.metadata]; decide), hsized.metadata]
  have hwnul : nul ∉ upTo ',' line := not_mem_upTo_of_not_mem hline ','
  have hwords : splitWords (store (upTo ',' line) (List.replicate 20 nul)) (memset 10 metadata)
      (List.replicate 20 nul) 0 0 =
        some (store (upTo ' ' (upTo ',' line)) (memset 10 metadata),
          ((dataOf (upTo ',' line)).map fun d => store d (List.replicate 20 nul)).getD
            (List.replicate 20 nul)) :=
    splitWords_eq hwnul _ (by omega) (by rw [List.length_replicate]; omega)
  have hparsed : parseCondition (memset 20 tempStore) (memset 10 metadata) (List.replicate 20 nul)
      (done ++ (line ++ nul :: rest)) done.length 0 0 0 =
        some ⟨store (upTo ',' line) (List.replicate 20 nul),
          store (upTo ' ' (upTo ',' line)) (memset 10 metadata),
          ((dataOf (upTo ',' line)).map fun d => store d (List.replicate 20 nul)).getD
            (List.replicate 20 nul), done.length + (upTo ',' line).length⟩ := by
    unfold parseCondition
    rw [strlen_line rest hdone hline, hclear]
    simp only [Option.bind_eq_bind, Option.bind_some, Nat.add_sub_cancel_left,
      copyLoop_clause done rest hshort, hwords, Option.pure_def]
  have hfirst := upTo_length_le ' ' (upTo ',' line)
  obtain ⟨hone, htwo⟩ := cstr_words hwnul (memset 10 metadata)
  refine ⟨_, hparsed, rfl, ⟨?_, ?_⟩, Prod.ext hone htwo⟩
  · exact (store_length (by rw [List.length_replicate]; omega)).trans List.length_replicate
  · exact (store_length (by omega)).trans hmetadata

/-! ## A whole line -/

/-- Behind the last comma, or behind the terminator, the loop is over. -/
theorem clauseLoop_end {σ : Type} (evaluate : σ → Text × Text → Bool × σ) {offset : Nat}
    (hoffset : done.length + line.length ≤ offset) (n : Nat) (state : σ) :
    clauseLoop evaluate (done ++ (line ++ nul :: rest)) (n + 1) offset tempStore metadata state =
      .ok ⟨[], state, true⟩ := by
  rw [clauseLoop, strlen_line rest hdone hline]
  exact if_neg (Nat.not_lt_of_le hoffset)

end

/-- From any offset where a clause starts, the rest of the line goes to `evaluate`. -/
theorem clauseLoop_eq {σ : Type} (evaluate : σ → Text × Text → Bool × σ) (rest : Text) :
    ∀ (n : Nat) (done line tempStore metadata : Text) (state : σ),
      nul ∉ done → nul ∉ line → (∀ c ∈ pieces ',' line, c.length ≤ 19) →
      Sized tempStore metadata → line.length < n →
      clauseLoop evaluate (done ++ (line ++ nul :: rest)) n done.length tempStore metadata state =
        .ok (evalAll evaluate ((pieces ',' line).map pair) state) := by
  intro n
  induction n with
  | zero =>
    intro done line tempStore metadata state _ _ _ _ hn
    omega
  | succ n ih =>
    intro done line tempStore metadata state hdone hline hshort hsized hn
    by_cases hempty : line = []
    · subst hempty
      exact clauseLoop_end rest hdone hline evaluate (Nat.le_refl _) n state
    · have hpieces := pieces_eq hempty ','
      rw [hpieces] at hshort ⊢
      obtain ⟨p, hparsed, hoffset, hsized', hcall⟩ :=
        parseCondition_clause rest hdone hline (hshort _ List.mem_cons_self) hsized
      have hmore : done.length < done.length + line.length :=
        Nat.lt_add_of_pos_right (List.length_pos_iff.mpr hempty)
      have hnext : ∀ state, clauseLoop evaluate (done ++ (line ++ nul :: rest)) n (p.condOffset + 1)
          p.tempStore p.metadata state =
            .ok (evalAll evaluate ((pieces ',' ((after ',' line).getD [])).map pair) state) := by
        intro state
        obtain ⟨hafter, hsame⟩ | ⟨more, hafter, hsplit⟩ := upTo_cases ',' line
        · -- the offset is one behind the terminator
          rw [hafter]
          obtain ⟨m, rfl⟩ := Nat.exists_eq_succ_of_ne_zero
            (Nat.ne_of_gt (Nat.lt_of_lt_of_le (List.length_pos_iff.mpr hempty)
              (Nat.le_of_lt_succ hn)))
          exact clauseLoop_end rest hdone hline evaluate (by rw [hoffset, hsame]; omega) m state
        · have hstr : done ++ (line ++ nul :: rest) =
              (done ++ (upTo ',' line ++ [','])) ++ (more ++ nul :: rest) := by
            calc done ++ (line ++ nul :: rest)
                = done ++ ((upTo ',' line ++ ',' :: more) ++ nul :: rest) := by rw [hsplit]
              _ = _ := by simp
          have hlen : (done ++ (upTo ',' line ++ [','])).length = p.condOffset + 1 := by
            rw [hoffset, List.length_append, List.length_append, List.length_singleton,
              Nat.add_assoc]
          have hshorter := after_length_lt hempty ','
          rw [hafter] at hshort hshorter ⊢
          rw [hstr, ← hlen]
          refine ih _ more _ _ state ?_ ?_ (fun c hc => hshort c (List.mem_cons_of_mem _ hc))
            hsized' (by change more.length < _ at hshorter; omega)
          · simp only [List.mem_append, List.mem_singleton, not_or]
            exact ⟨hdone, not_mem_upTo_of_not_mem hline ',', by decide⟩
          · exact not_mem_of_after hline hafter
      rw [clauseLoop, strlen_line rest hdone hline]
      simp only [if_pos hmore, hparsed, hcall, hnext]
      rw [List.map_cons, evalAll]
      split
      · rfl
      · rfl

section

variable {σ : Type} (evaluate : σ → Text × Text → Bool × σ)

theorem evalAll_of_noneRejected {cs : List (Text × Text)} {state : σ}
    (h : NoneRejected evaluate cs state) :
    (evalAll evaluate cs state).calls = cs ∧ (evalAll evaluate cs state).status = true := by
  induction cs generalizing state with
  | nil => exact ⟨rfl, rfl⟩
  | cons c cs ih =>
    obtain ⟨hcalls, hstatus⟩ := ih h.2
    rw [evalAll, if_pos h.1]
    exact ⟨congrArg (c :: ·) hcalls, hstatus⟩

/-- Otherwise the calls end with the first clause that is rejected. -/
theorem evalAll_of_rejected {cs : List (Text × Text)} {state : σ}
    (h : ¬ NoneRejected evaluate cs state) :
    (evalAll evaluate cs state).calls <+: cs ∧ (evalAll evaluate cs state).status = false := by
  induction cs generalizing state with
  | nil => exact absurd trivial h
  | cons c cs ih =>
    rw [evalAll]
    split
    next hpass =>
      obtain ⟨hcalls, hstatus⟩ := ih fun hrest => h ⟨hpass, hrest⟩
      exact ⟨List.cons_prefix_cons.mpr ⟨rfl, hcalls⟩, hstatus⟩
    next => exact ⟨List.cons_prefix_cons.mpr ⟨rfl, List.nil_prefix⟩, rfl⟩

/-- No text of a pair is from another clause. -/
theorem pair_infix (clause : Text) : (pair clause).1 <:+: clause ∧ (pair clause).2 <:+: clause := by
  have hword : ∀ t, upTo ' ' t <+: t := fun t => List.takeWhile_prefix _
  refine ⟨(hword clause).isInfix, ?_⟩
  unfold pair dataOf
  obtain ⟨hafter, -⟩ | ⟨v, hafter, hsplit⟩ := upTo_cases ' ' clause
  · rw [hafter]
    exact List.nil_infix
  · rw [hafter]
    have hbehind : v <:+ clause :=
      ⟨upTo ' ' clause ++ [' '], (List.append_assoc _ _ _).trans hsplit⟩
    exact (hword v).isInfix.trans hbehind.isInfix

theorem mem_splitOn_of_mem_clauses {line c : Text} (h : c ∈ clauses line) :
    c ∈ line.splitOn ',' := by
  unfold clauses at h
  split at h
  · exact (List.dropLast_sublist _).subset h
  · exact h

/-- The loop ends, and does what `evaluate` does with the clauses of the line as pairs, one
after the other: it gets all of them if it rejects none, and otherwise a beginning. -/
theorem clauses_handed (line rest tempStore metadata : Text) (n : Nat) (state : σ)
    (hline : nul ∉ line) (hshort : ∀ c ∈ line.splitOn ',', c.length ≤ 19)
    (hsized : Sized tempStore metadata) (hn : line.length < n) :
    ∃ o, clauseLoop evaluate (line ++ nul :: rest) n 0 tempStore metadata state = .ok o ∧
      o = evalAll evaluate ((clauses line).map pair) state ∧
      (NoneRejected evaluate ((clauses line).map pair) state →
        o.calls = (clauses line).map pair ∧ o.status = true) ∧
      (¬ NoneRejected evaluate ((clauses line).map pair) state →
        o.calls <+: (clauses line).map pair ∧ o.status = false) ∧
      ∀ clause, (pair clause).1 <:+: clause ∧ (pair clause).2 <:+: clause := by
  have hpieces : ∀ c ∈ pieces ',' line, c.length ≤ 19 := by
    intro c hc
    rw [← clauses_eq_pieces] at hc
    exact hshort c (mem_splitOn_of_mem_clauses hc)
  have hrun := clauseLoop_eq evaluate rest n [] line tempStore metadata state List.not_mem_nil
    hline hpieces hsized hn
  rw [← clauses_eq_pieces] at hrun
  exact ⟨_, hrun, rfl, evalAll_of_noneRejected evaluate, evalAll_of_rejected evaluate, pair_infix⟩

end

/-- A value that is absent, an empty clause, a third word and a comma at the end. -/
theorem clauses_handed_line :
    clauses "loc,,inter eth0 x,".toList = ["loc".toList, [], "inter eth0 x".toList] ∧
      ∃ o, clauseLoop (fun (k : Nat) _ => (true, k + 1)) ("loc,,inter eth0 x,".toList ++ [nul, 'y'])
          19 0 (List.replicate 20 'z') (List.replicate 20 'z') 0 = .ok o ∧
        o.calls = [("loc".toList, []), ([], []), ("inter".toList, "eth0".toList)] := by
  refine ⟨by decide, ?_⟩
  obtain ⟨o, hrun, -, hall, -⟩ := clauses_handed (fun (k : Nat) _ => (true, k + 1))
    "loc,,inter eth0 x,".toList ['y'] (List.replicate 20 'z') (List.replicate 20 'z') 19 0
    (by decide) (by decide) ⟨by decide, by decide⟩ (by decide)
  exact ⟨o, hrun, (hall ⟨rfl, rfl, rfl, trivial⟩).1⟩

/-! ## The evaluator -/

section

open PolicyModel (Env Action Event Clause keyword evalClauses)

/-- `evaluate(&act, cl, metadata, data2)`, with what it asks put on the log. -/
def evaluator (env : Env) (state : Action × List Event) (call : Text × Text) :
    Bool × Action × List Event :=
  let c : Clause := ⟨keyword call.1, call.2⟩
  let (pass, act, query) := PolicyModel.evaluate env state.2 state.1 c
  (pass, act, .clause c query :: state.2)

theorem evalAll_evaluator (env : Env) (ts : List Text) (act : Action) (log : List Event) :
    (evalAll (evaluator env) (ts.map pair) (act, log)).status = (evalClauses env ts act log).1 ∧
      (evalAll (evaluator env) (ts.map pair) (act, log)).state =
        (evalClauses env ts act log).2 := by
  induction ts generalizing act log with
  | nil => exact ⟨rfl, rfl⟩
  | cons t ts ih =>
    rw [List.map_cons, evalAll, evalClauses]
    rcases hr : PolicyModel.evaluate env log act (PolicyModel.clauseOf t) with
      ⟨pass, act', query⟩
    have heval : evaluator env (act, log) (pair t) =
        (pass, act', .clause (PolicyModel.clauseOf t) query :: log) := by
      unfold evaluator
      change PolicyModel.evaluate env log act ⟨keyword (pair t).1, (pair t).2⟩ = _ at hr
      dsimp only
      rw [hr]
      rfl
    rw [heval]
    cases pass with
    | true => exact ih act' _
    | false => exact ⟨rfl, rfl⟩

/-- The loop over the arrays does what `PolicyModel` has for a condition line. -/
theorem clauseLoop_evalClauses (env : Env) {line tempStore metadata : Text} (rest : Text) {n : Nat}
    (act : Action) (log : List Event) (hline : nul ∉ line)
    (hshort : ∀ c ∈ pieces ',' line, c.length ≤ 19) (hsized : Sized tempStore metadata)
    (hn : line.length < n) :
    ∃ o, clauseLoop (evaluator env) (line ++ nul :: rest) n 0 tempStore metadata (act, log) =
        .ok o ∧
      (o.status, o.state) = evalClauses env (pieces ',' line) act log := by
  obtain ⟨hstatus, hstate⟩ := evalAll_evaluator env (pieces ',' line) act log
  exact ⟨_, clauseLoop_eq (evaluator env) rest n [] line tempStore metadata (act, log) nofun hline
    hshort hsized hn, Prod.ext hstatus hstate⟩

end

end Manhattan.Middleware.ClauseLoop
