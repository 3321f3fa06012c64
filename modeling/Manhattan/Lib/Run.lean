/-!
# Schedules of a step function

Every concurrent component below is modelled the same way: one state, one type
of actions (an action names the thread or the environment that moves, and what
the outside world answers it), and a partial function `step` that is `none`
where the action is not possible. An interleaving is then nothing but a list of
actions, and "for every interleaving" is "for every list `as` with
`run step s as = some s'`". Prefixes of a schedule are schedules, so a fact
about the last state of every schedule is a fact about every state reached.

Most of the guarantees proved over this hold only along runs whose steps avoid
one particular mistake. `Meets step ok s as` says that every action of the
schedule `as` satisfies `ok` in the state it is taken from, and
`run_inv` is the induction that turns a step lemma into a run lemma:

> an invariant that every `ok` step preserves holds wherever an `ok` schedule
> ends.

`run_iff` is its exact form, for a property that a step loses for good whenever it
is not `ok`; `run_always_iff` the one for a property that a later step may restore. Where
the actions so far say which steps are `ok`, `meets_iff_history` gives the condition in
terms of the schedule alone.
-/

namespace Manhattan.Lib

variable {σ α : Type}

/-- Run a schedule; `none` as soon as one of its actions is not possible. -/
def run (step : σ → α → Option σ) : σ → List α → Option σ
  | s, [] => some s
  | s, a :: as => (step s a).bind fun s' => run step s' as

/-- Every action of the schedule satisfies `ok` in the state it is taken from. -/
def Meets (step : σ → α → Option σ) (ok : σ → α → Prop) : σ → List α → Prop
  | _, [] => True
  | s, a :: as => ok s a ∧ ∀ s', step s a = some s' → Meets step ok s' as

/-- A schedule that runs takes its first step and runs on from there. -/
theorem run_cons {step : σ → α → Option σ} {s t : σ} {a : α} {as : List α}
    (h : run step s (a :: as) = some t) :
    ∃ s', step s a = some s' ∧ run step s' as = some t :=
  Option.bind_eq_some_iff.mp h

theorem run_append (step : σ → α → Option σ) (s : σ) (as bs : List α) :
    run step s (as ++ bs) = (run step s as).bind fun s' => run step s' bs := by
  induction as generalizing s with
  | nil => rfl
  | cons a as ih =>
    show (step s a).bind _ = ((step s a).bind _).bind _
    cases step s a with
    | none => rfl
    | some s₁ => exact ih s₁

/-- **The invariant rule.** What every `ok` step preserves holds at the end of
every `ok` schedule. -/
theorem run_inv {step : σ → α → Option σ} {ok : σ → α → Prop} {I : σ → Prop}
    (hstep : ∀ {s a s'}, I s → ok s a → step s a = some s' → I s') :
    ∀ (as : List α) {s t : σ}, I s → Meets step ok s as → run step s as = some t → I t := by
  intro as
  induction as with
  | nil => intro s t hI _ hr; cases hr; exact hI
  | cons a as ih =>
    intro s t hI hm hr
    obtain ⟨s', hs, hr'⟩ := run_cons hr
    exact ih (hstep hI hm.1 hs) (hm.2 s' hs) hr'

/-- The unconditional case: every step preserves `I`. -/
theorem run_inv_all {step : σ → α → Option σ} {I : σ → Prop}
    (hstep : ∀ {s a s'}, I s → step s a = some s' → I s') :
    ∀ (as : List α) {s t : σ}, I s → run step s as = some t → I t := by
  intro as
  induction as with
  | nil => intro s t hI hr; cases hr; exact hI
  | cons a as ih =>
    intro s t hI hr
    obtain ⟨s', hs, hr'⟩ := run_cons hr
    exact ih (hstep hI hs) hr'

/-- **The exact rule.** Where a step keeps `P` exactly if it is `ok`, a run keeps `P`
exactly if all its steps are. -/
theorem run_iff {step : σ → α → Option σ} {ok : σ → α → Prop} {I P : σ → Prop}
    (hI : ∀ {s a s'}, I s → step s a = some s' → I s')
    (hP : ∀ {s a s'}, I s → step s a = some s' → (P s' ↔ P s ∧ ok s a)) :
    ∀ (as : List α) {s t : σ}, I s → run step s as = some t →
      (P t ↔ P s ∧ Meets step ok s as) := by
  intro as
  induction as with
  | nil => intro s t _ hr; cases hr; exact (and_iff_left trivial).symm
  | cons a as ih =>
    intro s t hs hr
    obtain ⟨s', hstep, hr'⟩ := run_cons hr
    rw [ih (hI hs hstep) hr', hP hs hstep, and_assoc]
    refine and_congr_right fun _ => and_congr_right fun _ => ?_
    constructor
    · intro hm s'' hstep'
      cases hstep.symm.trans hstep'
      exact hm
    · intro hm
      exact hm s' hstep

/-- **The rule for properties that come and go.** Where `P` still holds after a step exactly
if the step is `ok`, it holds in every state of a run exactly if all steps of the run are. -/
theorem run_always_iff {step : σ → α → Option σ} {ok : σ → α → Prop} {P : σ → Prop}
    (hP : ∀ {s a s'}, P s → step s a = some s' → (P s' ↔ ok s a)) :
    ∀ (as : List α) {s t : σ}, P s → run step s as = some t →
      ((∀ pre, pre <+: as → ∀ u, run step s pre = some u → P u) ↔ Meets step ok s as) := by
  intro as
  induction as with
  | nil =>
    intro s t hs _
    refine ⟨fun _ => trivial, fun _ pre hpre u hu => ?_⟩
    rw [List.prefix_nil.mp hpre] at hu
    cases hu
    exact hs
  | cons a as ih =>
    intro s t hs hr
    obtain ⟨s', hstep, hr'⟩ := run_cons hr
    have hone : run step s [a] = some s' := by
      show (step s a).bind some = some s'
      rw [hstep]
      rfl
    have hfrom : ∀ pre, run step s (a :: pre) = run step s' pre := by
      intro pre
      show (step s a).bind _ = _
      rw [hstep]
      rfl
    constructor
    · intro h
      have hs' : P s' := h [a] (List.cons_prefix_cons.mpr ⟨rfl, List.nil_prefix⟩) s' hone
      refine ⟨(hP hs hstep).mp hs', fun s'' hstep' => ?_⟩
      cases hstep.symm.trans hstep'
      refine (ih hs' hr').mp fun pre hpre u hu => ?_
      exact h (a :: pre) (List.cons_prefix_cons.mpr ⟨rfl, hpre⟩) u ((hfrom pre).trans hu)
    · intro hm pre hpre u hu
      cases pre with
      | nil => cases hu; exact hs
      | cons b pre =>
        obtain ⟨rfl, hpre'⟩ := List.cons_prefix_cons.mp hpre
        have hs' : P s' := (hP hs hstep).mpr hm.1
        exact (ih hs' hr').mpr (hm.2 s' hstep) pre hpre' u ((hfrom pre).symm.trans hu)

/-- **The history rule.** `I` says what the actions so far tell about the state. If it is
enough to know which actions are `ok`, it is a condition on the schedule that all are. -/
theorem meets_iff_history {step : σ → α → Option σ} {ok : σ → α → Prop}
    {I : List α → σ → Prop} {Ok : List α → α → Prop}
    (hok : ∀ {before s a}, I before s → (ok s a ↔ Ok before a))
    (hnext : ∀ {before s a}, I before s → ok s a →
      ∃ s', step s a = some s' ∧ I (before ++ [a]) s') :
    ∀ (as before : List α) {s : σ}, I before s →
      (Meets step ok s as ↔ ∀ done a rest, as = done ++ a :: rest → Ok (before ++ done) a) := by
  intro as
  induction as with
  | nil =>
    intro before s _
    refine iff_of_true trivial fun done a rest h => ?_
    cases done <;> cases h
  | cons a as ih =>
    intro before s hs
    constructor
    · intro hm done b rest hsplit
      cases done with
      | nil =>
        cases hsplit
        rw [List.append_nil]
        exact (hok hs).mp hm.1
      | cons c done =>
        cases hsplit
        obtain ⟨s', hstep, hs'⟩ := hnext hs hm.1
        have hrest := (ih (before ++ [a]) hs').mp (hm.2 s' hstep) done b rest rfl
        rwa [List.append_assoc] at hrest
    · intro h
      have hhere : ok s a := (hok hs).mpr (List.append_nil before ▸ h [] a as rfl)
      obtain ⟨s', hstep, hs'⟩ := hnext hs hhere
      refine ⟨hhere, fun s'' hstep' => ?_⟩
      cases hstep.symm.trans hstep'
      refine (ih (before ++ [a]) hs').mpr fun done b rest hsplit => ?_
      have hrest := h (a :: done) b rest (congrArg (a :: ·) hsplit)
      rwa [List.append_assoc]

/-- `Meets` is decided by running the schedule. -/
instance decMeets (step : σ → α → Option σ) (ok : σ → α → Prop)
    [hok : ∀ s a, Decidable (ok s a)] :
    ∀ (s : σ) (as : List α), Decidable (Meets step ok s as)
  | _, [] => isTrue trivial
  | s, a :: as =>
    match hok s a, hs : step s a with
    | isFalse h, _ => isFalse fun hm => h hm.1
    | isTrue h, none => isTrue ⟨h, fun _ hs' => nomatch hs.symm.trans hs'⟩
    | isTrue h, some s₁ =>
      match decMeets step ok s₁ as with
      | isTrue hm => isTrue ⟨h, fun _ hs' => Option.some.inj (hs.symm.trans hs') ▸ hm⟩
      | isFalse hm => isFalse fun h' => hm (h'.2 s₁ hs)

end Manhattan.Lib
