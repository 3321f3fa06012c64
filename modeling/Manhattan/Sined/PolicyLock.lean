import Mathlib.Logic.Function.Basic
import Manhattan.Lib.Run
import Manhattan.Lib.Mutex

/-!
# The policy list under `policy_mutex`

`parse_policies` runs in one thread (the main thread calls it when the connection
manager is already serving clients), `evaluate` in any number of others: the
connection manager's thread inside `add_connection`, the policy engine's inside
`evaluate_all`. Both reach the list through `policy_mutex`.

`parse_policies` takes the lock twice, three times on a file it accepts, and
releases it once more than that. On the success path it unlocks after the tree
walk, dumps the list (a lock and an unlock of its own), sets `need_evaluation` and
then falls through into the label `error:`, which unlocks again, a lock the
thread does not hold.

Mirroring notes:
- A policy file is what the three checks of `parse_policies` see of it. The
  content under an accepted root is walked inside the building section and takes
  no part in the locking.
- `Parser.building` lasts from the second `pthread_mutex_lock` to the jump to
  `error:` or the unlock after the walk; `xmlParseFile` runs inside it.
- The interface changes `evaluate` makes while it walks the list are its
  `reading` phase.

`safe_of_run` proves the discipline for every run in which each file given to
`parse_policies` is rejected, and that a run in which one was accepted and
`parse_policies` has returned has always broken it.
-/

namespace Manhattan.Sined.PolicyLock

open Manhattan.Lib

/-- A policy file, as far as the checks of `parse_policies` look. -/
inductive PolicyFile where
  /-- `xmlParseFile` returns `NULL`. -/
  | unparsable
  /-- There is no root element. -/
  | empty
  /-- The root element has this name. -/
  | rooted (name : String)
  deriving DecidableEq, Repr

/-- All three checks of `parse_policies` pass. -/
def PolicyFile.accepted : PolicyFile → Bool
  | .unparsable => false
  | .empty => false
  | .rooted name => name = "UserPolicies"

/-- The thread in `parse_policies`. -/
inductive Parser where
  | idle
  /-- At the lock of `free_policies`. -/
  | lockFree (file : PolicyFile)
  | freeing (file : PolicyFile)
  /-- At the lock of `parse_policies` itself. -/
  | lockBuild (file : PolicyFile)
  | building (file : PolicyFile)
  /-- At the lock of `dump_policies`. -/
  | lockDump
  | dumping
  /-- At the unlock under `error:`, reached from the end of the success path or
  from a failed check. -/
  | atError (success : Bool)
  deriving DecidableEq, Repr

/-- A thread that calls `evaluate`. -/
inductive Worker where
  | out
  | atLock
  | reading
  deriving DecidableEq, Repr

inductive Thread where
  | parser
  | worker (n : Nat)
  deriving DecidableEq, Repr

structure State where
  mutex : Mutex Thread
  parser : Parser
  workers : Nat → Worker
  /-- Calls of `parse_policies` that returned after accepting their file. -/
  loaded : Nat

def init : State := ⟨Mutex.free, .idle, fun _ => .out, 0⟩

inductive Act where
  | parse (file : PolicyFile)
  | parserStep
  | evaluate (n : Nat)
  | workerStep (n : Nat)

/-- One statement of `parse_policies` and the functions it calls. -/
def parserStep (s : State) : Option State :=
  match s.parser with
  | .idle => none
  | .lockFree file => (s.mutex.lock .parser).map fun m =>
      { s with mutex := m, parser := .freeing file }
  | .freeing file => some { s with mutex := s.mutex.unlock .parser, parser := .lockBuild file }
  | .lockBuild file => (s.mutex.lock .parser).map fun m =>
      { s with mutex := m, parser := .building file }
  | .building file =>
    if file.accepted then some { s with mutex := s.mutex.unlock .parser, parser := .lockDump }
    else some { s with parser := .atError false }
  | .lockDump => (s.mutex.lock .parser).map fun m => { s with mutex := m, parser := .dumping }
  | .dumping => some { s with mutex := s.mutex.unlock .parser, parser := .atError true }
  | .atError success =>
    some { s with
      mutex := s.mutex.unlock .parser, parser := .idle, loaded := s.loaded + success.toNat }

/-- One statement of `evaluate` in thread `n`. -/
def workerStep (s : State) (n : Nat) : Option State :=
  match s.workers n with
  | .out => none
  | .atLock => (s.mutex.lock (.worker n)).map fun m =>
      { s with mutex := m, workers := Function.update s.workers n .reading }
  | .reading => some { s with
      mutex := s.mutex.unlock (.worker n), workers := Function.update s.workers n .out }

def step (s : State) : Act → Option State
  | .parse file => if s.parser = .idle then some { s with parser := .lockFree file } else none
  | .parserStep => parserStep s
  | .evaluate n =>
    if s.workers n = .out then some { s with workers := Function.update s.workers n .atLock }
    else none
  | .workerStep n => workerStep s n

/-- Inside the freeing or the building section. -/
def Parser.inSection : Parser → Bool
  | .freeing _ => true
  | .building _ => true
  | _ => false

/-- Only the holder has released the lock, and nobody reads the list while it is
freed or built. -/
def Safe (s : State) : Prop :=
  s.mutex.foreign = false ∧ ∀ n, s.workers n = .reading → s.parser.inSection = false

/-- The file `parse_policies` is called with is one it rejects. -/
def ok (_ : State) : Act → Prop
  | .parse file => file.accepted = false
  | _ => True

instance decOk (s : State) : (a : Act) → Decidable (ok s a)
  | .parse file => inferInstanceAs (Decidable (file.accepted = false))
  | .parserStep => isTrue trivial
  | .evaluate _ => isTrue trivial
  | .workerStep _ => isTrue trivial

/-! ## Who believes to hold the lock -/

/-- Between a lock of `parse_policies` and the unlock meant for it. -/
def Parser.holds : Parser → Bool
  | .freeing _ => true
  | .building _ => true
  | .dumping => true
  | .atError success => !success
  | _ => false

def Holds (s : State) : Thread → Prop
  | .parser => s.parser.holds = true
  | .worker n => s.workers n = .reading

/-- The parser handles a rejected file. -/
def Parser.rejecting : Parser → Prop
  | .idle => True
  | .lockFree file => file.accepted = false
  | .freeing file => file.accepted = false
  | .lockBuild file => file.accepted = false
  | .building file => file.accepted = false
  | .lockDump => False
  | .dumping => False
  | .atError success => success = false

structure Inv (s : State) : Prop where
  tracks : Tracks s.mutex (Holds s)
  rejecting : s.parser.rejecting

theorem init_inv : Inv init where
  tracks := by
    refine ⟨fun t => ?_, rfl⟩
    cases t with
    | parser => simp [init, Mutex.free, Holds, Parser.holds]
    | worker n => simp [init, Mutex.free, Holds]
  rejecting := trivial

/-- A step of the parser leaves the workers' claims alone. -/
theorem holds_worker {s s' : State} (hw : s'.workers = s.workers) :
    ∀ u, u ≠ Thread.parser → (Holds s' u ↔ Holds s u) := by
  intro u hu
  cases u with
  | parser => exact absurd rfl hu
  | worker n =>
    show s'.workers n = .reading ↔ s.workers n = .reading
    rw [hw]

/-- A step of worker `n` leaves the others' claims alone. -/
theorem holds_others {s s' : State} {n : Nat} {w : Worker} (hp : s'.parser = s.parser)
    (hw : s'.workers = Function.update s.workers n w) :
    ∀ u, u ≠ Thread.worker n → (Holds s' u ↔ Holds s u) := by
  intro u hu
  cases u with
  | parser =>
    show s'.parser.holds = true ↔ s.parser.holds = true
    rw [hp]
  | worker k =>
    have hk : k ≠ n := fun e => hu (by rw [e])
    show s'.workers k = .reading ↔ s.workers k = .reading
    rw [hw, Function.update_of_ne hk]

/-- A step that moves no claim keeps the lock tracked. -/
theorem Inv.tracks_of_parser {s s' : State} (h : Inv s) (hm : s'.mutex = s.mutex)
    (hw : s'.workers = s.workers) (hp : s'.parser.holds = s.parser.holds) :
    Tracks s'.mutex (Holds s') := by
  rw [hm]
  refine h.tracks.congr fun u => ?_
  by_cases hu : u = Thread.parser
  · subst hu
    show s'.parser.holds = true ↔ s.parser.holds = true
    rw [hp]
  · exact holds_worker hw u hu

theorem Inv.lockParser {s s' : State} (h : Inv s) (hm : s.mutex.lock .parser = some s'.mutex)
    (hw : s'.workers = s.workers) (hp : s'.parser.holds = true) (hr : s'.parser.rejecting) :
    Inv s' :=
  ⟨h.tracks.lock hm hp (holds_worker hw), hr⟩

theorem Inv.unlockParser {s s' : State} (h : Inv s) (hm : s'.mutex = s.mutex.unlock .parser)
    (hw : s'.workers = s.workers) (hp : s.parser.holds = true) (hp' : s'.parser.holds = false)
    (hr : s'.parser.rejecting) : Inv s' := by
  refine ⟨?_, hr⟩
  rw [hm]
  refine h.tracks.unlock (show Holds s .parser from hp) ?_ (holds_worker hw)
  show ¬ s'.parser.holds = true
  rw [hp']
  exact Bool.false_ne_true

theorem parserStep_inv {s s' : State} (h : Inv s) (hs : parserStep s = some s') : Inv s' := by
  have hrej := h.rejecting
  unfold parserStep at hs
  split at hs
  next => cases hs
  next file hp =>
    rw [hp] at hrej
    obtain ⟨m, hl, rfl⟩ := Option.map_eq_some_iff.mp hs
    exact h.lockParser hl rfl rfl hrej
  next file hp =>
    rw [hp] at hrej
    cases hs
    exact h.unlockParser rfl rfl (by rw [hp]; rfl) rfl hrej
  next file hp =>
    rw [hp] at hrej
    obtain ⟨m, hl, rfl⟩ := Option.map_eq_some_iff.mp hs
    exact h.lockParser hl rfl rfl hrej
  next file hp =>
    rw [hp] at hrej
    have hna : ¬ file.accepted = true := by rw [show file.accepted = false from hrej]; simp
    rw [if_neg hna] at hs
    cases hs
    exact ⟨h.tracks_of_parser rfl rfl (by rw [hp]; rfl), rfl⟩
  next hp => rw [hp] at hrej; exact hrej.elim
  next hp => rw [hp] at hrej; exact hrej.elim
  next success hp =>
    rw [hp] at hrej
    cases hs
    have hsucc : success = false := hrej
    exact h.unlockParser rfl rfl (by rw [hp, hsucc]; rfl) rfl trivial

theorem workerStep_inv {s s' : State} {n : Nat} (h : Inv s) (hs : workerStep s n = some s') :
    Inv s' := by
  unfold workerStep at hs
  split at hs
  next => cases hs
  next hw =>
    obtain ⟨m, hl, rfl⟩ := Option.map_eq_some_iff.mp hs
    refine ⟨h.tracks.lock hl ?_ (holds_others (n := n) (w := .reading) rfl rfl), h.rejecting⟩
    show Function.update s.workers n Worker.reading n = .reading
    rw [Function.update_self]
  next hw =>
    cases hs
    refine ⟨h.tracks.unlock (show Holds s (.worker n) from hw) ?_
      (holds_others (n := n) (w := .out) rfl rfl), h.rejecting⟩
    show ¬ Function.update s.workers n Worker.out n = .reading
    rw [Function.update_self]
    exact fun e => nomatch e

theorem step_inv {s s' : State} {a : Act} (h : Inv s) (hok : ok s a) (hs : step s a = some s') :
    Inv s' := by
  cases a with
  | parse file =>
    simp only [step] at hs
    split at hs
    next hp =>
      cases hs
      exact ⟨h.tracks_of_parser rfl rfl (by rw [hp]; rfl), hok⟩
    next => cases hs
  | parserStep => exact parserStep_inv h hs
  | evaluate n =>
    simp only [step] at hs
    split at hs
    next hw =>
      cases hs
      refine ⟨h.tracks.congr ?_, h.rejecting⟩
      intro u
      by_cases hu : u = Thread.worker n
      · subst hu
        show Function.update s.workers n Worker.atLock n = .reading ↔ s.workers n = .reading
        rw [hw]
        simp
      · refine holds_others (w := .atLock) ?_ ?_ u hu <;> rfl
    next => cases hs
  | workerStep n => exact workerStep_inv h hs

theorem Parser.holds_of_inSection {p : Parser} (h : p.inSection = true) : p.holds = true := by
  cases p <;> first | rfl | cases h

theorem Inv.safe {s : State} (h : Inv s) : Safe s := by
  refine ⟨h.tracks.clean, fun n hn => ?_⟩
  by_contra hsec
  have hp : Holds s .parser := Parser.holds_of_inSection (by simpa using hsec)
  exact Thread.noConfusion (h.tracks.exclusive hp (show Holds s (.worker n) from hn))

/-! ## The release after an accepted file -/

/-- What every run keeps, accepted files included: the parser owns the lock only
where it believes to, which the label `error:` after a success is not. -/
structure Stray (s : State) : Prop where
  owner : s.mutex.owner = some .parser → s.parser.holds = true
  loaded : 0 < s.loaded → s.mutex.foreign = true

theorem init_stray : Stray init where
  owner := by intro h; cases h
  loaded := by intro h; cases h

theorem Stray.unlock {s s' : State} {t : Thread} (h : Stray s) (hm : s'.mutex = s.mutex.unlock t)
    (hl : s'.loaded = s.loaded) : Stray s' := by
  refine ⟨fun ho => ?_, fun hpos => ?_⟩
  · rw [hm] at ho
    cases ho
  · rw [hm]
    show (s.mutex.foreign || _) = true
    rw [h.loaded (hl ▸ hpos)]
    rfl

theorem Stray.lock {s s' : State} {t : Thread} (h : Stray s) (hm : s.mutex.lock t = some s'.mutex)
    (hl : s'.loaded = s.loaded) (hp : t = .parser → s'.parser.holds = true) : Stray s' := by
  obtain ⟨-, he⟩ := Mutex.lock_some hm
  refine ⟨fun ho => hp ?_, fun hpos => ?_⟩
  · rw [he] at ho
    exact Option.some.inj ho
  · rw [he]
    exact h.loaded (hl ▸ hpos)

theorem parserStep_stray {s s' : State} (h : Stray s) (hs : parserStep s = some s') :
    Stray s' := by
  unfold parserStep at hs
  split at hs
  next => cases hs
  next file hp =>
    obtain ⟨m, hl, rfl⟩ := Option.map_eq_some_iff.mp hs
    exact h.lock hl rfl fun _ => rfl
  next file hp => cases hs; exact h.unlock rfl rfl
  next file hp =>
    obtain ⟨m, hl, rfl⟩ := Option.map_eq_some_iff.mp hs
    exact h.lock hl rfl fun _ => rfl
  next file hp =>
    split at hs
    next => cases hs; exact h.unlock rfl rfl
    next => cases hs; exact ⟨fun _ => rfl, h.loaded⟩
  next hp =>
    obtain ⟨m, hl, rfl⟩ := Option.map_eq_some_iff.mp hs
    exact h.lock hl rfl fun _ => rfl
  next hp => cases hs; exact h.unlock rfl rfl
  next success hp =>
    cases success with
    | false => cases hs; exact h.unlock rfl rfl
    | true =>
      cases hs
      have hno : s.mutex.owner ≠ some .parser := by
        intro ho
        have := h.owner ho
        rw [hp] at this
        cases this
      refine ⟨(fun ho => nomatch ho), fun _ => ?_⟩
      show (s.mutex.foreign || decide (s.mutex.owner ≠ some .parser)) = true
      rw [decide_eq_true hno, Bool.or_true]

theorem step_stray {s s' : State} {a : Act} (h : Stray s) (hs : step s a = some s') :
    Stray s' := by
  cases a with
  | parse file =>
    simp only [step] at hs
    split at hs
    next hp =>
      cases hs
      refine ⟨fun ho => ?_, h.loaded⟩
      have := h.owner ho
      rw [hp] at this
      cases this
    next => cases hs
  | parserStep => exact parserStep_stray h hs
  | evaluate n =>
    simp only [step] at hs
    split at hs
    next => cases hs; exact ⟨h.owner, h.loaded⟩
    next => cases hs
  | workerStep n =>
    simp only [step, workerStep] at hs
    split at hs
    next => cases hs
    next =>
      obtain ⟨m, hl, rfl⟩ := Option.map_eq_some_iff.mp hs
      exact h.lock hl rfl fun e => nomatch e
    next => cases hs; exact h.unlock rfl rfl

/-- **Mutual exclusion on the policy list**, over every interleaving of
`parse_policies` with any number of `evaluate` calls. As long as every policy file
is rejected, only the holder releases the lock and no `evaluate` reads the list
while it is freed or built; once a call has returned from an accepted file, the
lock has been released by a thread that did not hold it. -/
theorem safe_of_run (as : List Act) {s : State} (hr : run step init as = some s) :
    (Meets step ok init as → Safe s) ∧ (0 < s.loaded → ¬ Safe s) := by
  constructor
  · intro hok
    exact (run_inv step_inv as init_inv hok hr).safe
  · intro hpos hsafe
    have h : Stray s := run_inv_all step_stray as init_stray hr
    have := h.loaded hpos
    rw [hsafe.1] at this
    cases this

/-- A file of the wrong type, with an `evaluate` waiting for the lock. -/
def wrongRoot : List Act :=
  [.parse (.rooted "policies"), .parserStep, .evaluate 0, .parserStep, .workerStep 0,
   .workerStep 0, .parserStep, .parserStep, .parserStep]

theorem safe_of_run_wrongRoot :
    ∃ s, run step init wrongRoot = some s ∧ s.parser = .idle ∧ Safe s :=
  ⟨_, rfl, rfl, (safe_of_run wrongRoot rfl).1 (by decide)⟩

/-- The connection manager's `evaluate` takes the lock before `parse_policies`
gets to its label `error:`, and the file is loaded a second time. -/
def loadedTwice : List Act :=
  [.parse (.rooted "UserPolicies"), .parserStep, .parserStep, .parserStep, .parserStep,
   .parserStep, .parserStep, .evaluate 0, .workerStep 0, .parserStep,
   .parse (.rooted "UserPolicies"), .parserStep]

/-- **The lock is released under its holder.** The unlock under `error:` frees the
lock worker `0` holds, and the next `free_policies` frees the list it is
reading. -/
theorem accepted_file_releases_foreign_lock :
    ∃ s, run step init loadedTwice = some s ∧ s.mutex.foreign = true ∧
      s.workers 0 = .reading ∧ s.parser = .freeing (.rooted "UserPolicies") ∧ ¬ Safe s := by
  refine ⟨_, rfl, rfl, rfl, rfl, ?_⟩
  intro h
  exact absurd h.1 (by decide)

end Manhattan.Sined.PolicyLock
