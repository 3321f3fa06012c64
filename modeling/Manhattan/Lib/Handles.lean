import Manhattan.Lib.Run

/-!
# Handles that are opened and closed

A program opens files and directories, works with them and closes them. What it does with
its handles is a list of calls in the order in which they are made (`Call`), every opening
with a handle of its own. A handle goes through a `Life`, in which a call that is not
allowed has no next state: a handle cannot be used or closed before it is opened or after it
is closed. A list of calls is `ClosedOnce` if it goes through for every handle and leaves
none of them open.
-/

namespace Manhattan.Lib

variable {η : Type}

inductive Use where
  | opened
  | used
  | closed
  deriving DecidableEq

/-- A call that takes or returns a handle. -/
structure Call (η : Type) where
  handle : η
  use : Use
  deriving DecidableEq

inductive Life where
  | unopened
  | live
  | closed
  deriving DecidableEq

def Life.next : Life → Use → Option Life
  | .unopened, .opened => some .live
  | .live, .used => some .live
  | .live, .closed => some .closed
  | _, _ => none

section
variable [DecidableEq η]

/-- What a call is to the handle `h`. -/
def lifeStep (h : η) (s : Life) (c : Call η) : Option Life :=
  if c.handle = h then s.next c.use else some s

/-- What becomes of the handle `h`. -/
def life (h : η) (calls : List (Call η)) : Option Life := run (lifeStep h) .unopened calls

/-- Every handle that is opened is closed once, and not used after that. -/
def ClosedOnce (calls : List (Call η)) : Prop :=
  ∀ h, life h calls = some .unopened ∨ life h calls = some .closed

/-- A call on the handle. -/
@[simp] theorem run_cons_self (h : η) (s : Life) (u : Use) (calls : List (Call η)) :
    run (lifeStep h) s (⟨h, u⟩ :: calls)
      = (s.next u).bind fun s' => run (lifeStep h) s' calls := by
  show (lifeStep h s ⟨h, u⟩).bind _ = _
  rw [lifeStep, if_pos rfl]

/-- A call on another one. -/
@[simp] theorem run_cons_other {h h' : η} (hne : h' ≠ h) (s : Life) (u : Use)
    (calls : List (Call η)) :
    run (lifeStep h) s (⟨h', u⟩ :: calls) = run (lifeStep h) s calls := by
  show (lifeStep h s ⟨h', u⟩).bind _ = _
  rw [lifeStep, if_neg hne]
  rfl

/-- Calls on other handles. -/
theorem run_others {h : η} {calls : List (Call η)} (hother : ∀ c ∈ calls, c.handle ≠ h)
    (s : Life) : run (lifeStep h) s calls = some s := by
  induction calls with
  | nil => rfl
  | cons c calls ih =>
    rw [run_cons_other (hother c List.mem_cons_self)]
    exact ih fun c' hc' => hother c' (List.mem_cons_of_mem c hc')

/-- Calls that use an open handle leave it open. -/
theorem run_used {h : η} {calls : List (Call η)}
    (hused : ∀ c ∈ calls, c.handle = h → c.use = .used) :
    run (lifeStep h) .live calls = some .live := by
  induction calls with
  | nil => rfl
  | cons c calls ih =>
    obtain ⟨h', u⟩ := c
    have ih' : run (lifeStep h) .live calls = some .live :=
      ih fun c hc => hused c (List.mem_cons_of_mem _ hc)
    by_cases hh : h' = h
    · subst hh
      have hu : u = .used := hused _ List.mem_cons_self rfl
      rw [run_cons_self, hu]
      exact ih'
    · rw [run_cons_other hh]
      exact ih'

theorem life_append (h : η) (calls calls' : List (Call η)) :
    life h (calls ++ calls') = (life h calls).bind fun s => run (lifeStep h) s calls' :=
  run_append _ _ _ _

/-- The last open handle is closed. -/
theorem closedOnce_close {calls : List (Call η)} {h : η} (hlive : life h calls = some .live)
    (hothers : ∀ h', h ≠ h' → life h' calls = some .unopened ∨ life h' calls = some .closed) :
    ClosedOnce (calls ++ [⟨h, .closed⟩]) := by
  intro h'
  rw [life_append]
  by_cases hh : h = h'
  · subst hh
    rw [hlive, Option.bind_some, run_cons_self]
    exact Or.inr rfl
  · have hsame : ∀ s, run (lifeStep h') s [⟨h, .closed⟩] = some s :=
      fun s => run_cons_other hh s .closed []
    rw [Option.bind_congr fun s _ => hsame s, Option.bind_fun_some]
    exact hothers h' hh

/-- Where all handles are closed, none can be closed. -/
theorem ClosedOnce.not_close {calls : List (Call η)} (hcalls : ClosedOnce calls) (h : η) :
    ¬ ClosedOnce (calls ++ [⟨h, .closed⟩]) := by
  intro hall
  have hnone : life h (calls ++ [⟨h, .closed⟩]) = none := by
    rw [life_append]
    rcases hcalls h with hs | hs
    · rw [hs, Option.bind_some, run_cons_self]
      rfl
    · rw [hs, Option.bind_some, run_cons_self]
      rfl
  rcases hall h with hs | hs
  · cases hnone.symm.trans hs
  · cases hnone.symm.trans hs

end

end Manhattan.Lib
