import Manhattan.Lib.Run
import Manhattan.Lib.Mutex
import Manhattan.Sined.Conmgr

/-!
# How long the connection table lives

`con_tbl_head` is created before the threads start and set to `NULL` by
`free_connection_table`, which the connection manager runs when it leaves its
loop: on the exit pipe, on a failed `select`, and on any `recvfrom` that returns
zero or less, which is what a datagram without bytes makes it return. Two other
threads walk the table: the policy engine in `evaluate_all` and the location
thread in `conmgr_dump_connections` (the input line `l`). Both dereference
`con_tbl_head` as soon as they have `con_tbl_mutex`; neither looks at the pointer
or at `exit_flag` again after having taken it.

Mirroring notes:
- `sine_exit` sets `exit_flag` and then writes the exit pipe; a thread in `select`
  wakes up for the pipe only, so the two are separate steps.
- `Engine.atLock` and `Locmgr.atLock` are the readers between their decision to
  walk the table and `pthread_mutex_lock`, `Engine.deciding` is the policy engine that
  has found `exit_flag` unset and not yet read `need_evaluation`. `Locmgr.reading` is the
  location thread that `select` has sent to `getline`.
- Of a datagram only the receive result and the message decoded from the buffer
  matter here; how the buffer is filled is `Datagram`'s subject.
- `nullRead` records that a reader has dereferenced the null pointer, `discarded`
  that a receive result has ended the connection manager's loop while `exit_flag`
  was 0.

`table_lives` is the guarantee that is left: if nothing empty is received before
shutdown, and the table is freed only when shutdown has begun and neither reader
is on its way to the table.
-/

namespace Manhattan.Sined.TableLife

open Manhattan.Lib

/-- The connection manager's thread. -/
inductive Conmgr where
  | testing
  | selecting
  | receiving
  | serving (msg : ConMsg)
  | updating (env : AddEnv) (msg : ConMsg)
  /-- Behind the label `error:`. -/
  | stopping
  | freeing
  | gone

/-- The policy engine's thread. -/
inductive Engine where
  | testing
  /-- Between the tests of `exit_flag` and of `need_evaluation`. -/
  | deciding
  | atLock
  | walking
  | clearing
  | gone
  deriving DecidableEq, Repr

/-- The location manager's thread. -/
inductive Locmgr where
  | testing
  | selecting
  | reading
  | atLock
  | walking
  | gone
  deriving DecidableEq, Repr

inductive Thread where
  | conmgr
  | engine
  | locmgr
  deriving DecidableEq, Repr

structure State where
  exitFlag : Bool
  exitPipe : Bool
  needEvaluation : Bool
  /-- `con_tbl_head`: `none` is `NULL`. -/
  head : Option (List Connection)
  mutex : Mutex Thread
  conmgr : Conmgr
  engine : Engine
  locmgr : Locmgr
  nullRead : Bool
  discarded : Bool

def init : State :=
  ⟨false, false, false, some [], Mutex.free, .testing, .testing, .testing, false, false⟩

/-- The moves of the connection manager, with what the kernel and the heap answer. -/
inductive ConmgrAct where
  | test
  | select (failed : Bool)
  | receive (r : Int) (msg : ConMsg)
  | serve (env : AddEnv)
  | update
  | free
  | freed

inductive EngineAct where
  | test
  | decide
  | lock
  | unlock (evaluate : Connection → Connection)
  | clear

inductive LocmgrAct where
  | test
  | select (failed : Bool)
  /-- `getline` returns a line, or nothing. -/
  | line (text : Option String)
  | lock
  | unlock

inductive Act where
  | setExitFlag
  | writeExitPipe
  | trigger
  | conmgr (a : ConmgrAct)
  | engine (a : EngineAct)
  | locmgr (a : LocmgrAct)

/-- `add_connection` past its allocations, and `remove_connection`. -/
def takesTable (env : AddEnv) (msg : ConMsg) : Bool :=
  (msg.cmd = cmdAdd && env.mallocs) || msg.cmd = cmdRemove

/-- `conmgr_main_loop` and `free_connection_table`. -/
def conmgrStep (s : State) : ConmgrAct → Option State
  | .test =>
    match s.conmgr with
    | .testing => some { s with conmgr := if s.exitFlag then .stopping else .selecting }
    | _ => none
  | .select failed =>
    match s.conmgr with
    | .selecting => some { s with conmgr := if failed || s.exitPipe then .stopping else .receiving }
    | _ => none
  | .receive r msg =>
    match s.conmgr with
    | .receiving =>
      if 0 < r then some { s with conmgr := .serving msg }
      else some { s with conmgr := .stopping, discarded := s.discarded || !s.exitFlag }
    | _ => none
  | .serve env =>
    match s.conmgr with
    | .serving msg =>
      if takesTable env msg then
        (s.mutex.lock .conmgr).map fun m => { s with mutex := m, conmgr := .updating env msg }
      else some { s with conmgr := .testing }
    | _ => none
  | .update =>
    match s.conmgr with
    | .updating env msg => some { s with
        head := s.head.map (handleMsg env msg)
        mutex := s.mutex.unlock .conmgr
        conmgr := .testing }
    | _ => none
  | .free =>
    match s.conmgr with
    | .stopping =>
      if s.head.isNone then some { s with conmgr := .gone }
      else (s.mutex.lock .conmgr).map fun m => { s with mutex := m, conmgr := .freeing }
    | _ => none
  | .freed =>
    match s.conmgr with
    | .freeing => some { s with head := none, mutex := s.mutex.unlock .conmgr, conmgr := .gone }
    | _ => none

/-- `pe_main_loop` and `evaluate_all`. -/
def engineStep (s : State) : EngineAct → Option State
  | .test =>
    match s.engine with
    | .testing => some { s with engine := if s.exitFlag then .gone else .deciding }
    | _ => none
  | .decide =>
    match s.engine with
    | .deciding => some { s with engine := if s.needEvaluation then .atLock else .testing }
    | _ => none
  | .lock =>
    match s.engine with
    | .atLock => (s.mutex.lock .engine).map fun m =>
        { s with mutex := m, engine := .walking, nullRead := s.nullRead || s.head.isNone }
    | _ => none
  | .unlock evaluate =>
    match s.engine with
    | .walking => some { s with
        head := s.head.map (List.map evaluate)
        mutex := s.mutex.unlock .engine
        engine := .clearing }
    | _ => none
  | .clear =>
    match s.engine with
    | .clearing => some { s with needEvaluation := false, engine := .testing }
    | _ => none

/-- `locmgr_main_loop` and `conmgr_dump_connections`. -/
def locmgrStep (s : State) : LocmgrAct → Option State
  | .test =>
    match s.locmgr with
    | .testing => some { s with locmgr := if s.exitFlag then .gone else .selecting }
    | _ => none
  | .select failed =>
    match s.locmgr with
    | .selecting => some { s with locmgr := if failed || s.exitPipe then .gone else .reading }
    | _ => none
  | .line line =>
    match s.locmgr, line with
    | .reading, none => some { s with locmgr := .testing }
    | .reading, some text =>
      if text = "l" then some { s with locmgr := .atLock }
      else some { s with needEvaluation := true, locmgr := .testing }
    | _, _ => none
  | .lock =>
    match s.locmgr with
    | .atLock => (s.mutex.lock .locmgr).map fun m =>
        { s with mutex := m, locmgr := .walking, nullRead := s.nullRead || s.head.isNone }
    | _ => none
  | .unlock =>
    match s.locmgr with
    | .walking => some { s with mutex := s.mutex.unlock .locmgr, locmgr := .testing }
    | _ => none

def step (s : State) : Act → Option State
  | .setExitFlag => some { s with exitFlag := true }
  | .writeExitPipe => if s.exitFlag then some { s with exitPipe := true } else none
  | .trigger => some { s with needEvaluation := true }
  | .conmgr a => conmgrStep s a
  | .engine a => engineStep s a
  | .locmgr a => locmgrStep s a

/-- No reader has met the null pointer, and no receive result has ended the
connection manager before shutdown. -/
def Safe (s : State) : Prop := s.nullRead = false ∧ s.discarded = false

/-- The engine is not between its test of `exit_flag` and the end of its walk. -/
def Engine.away : Engine → Bool
  | .deciding => false
  | .atLock => false
  | .walking => false
  | _ => true

/-- The location thread is not between its test of `exit_flag` and the end of its
walk; in `select`, the written exit pipe is what it will wake up for. -/
def Locmgr.away (exitPipe : Bool) : Locmgr → Bool
  | .testing => true
  | .selecting => exitPipe
  | .gone => true
  | _ => false

/-- Shutdown has begun and no reader is on its way to the table. -/
def State.idle (s : State) : Prop :=
  s.exitFlag = true ∧ s.engine.away = true ∧ s.locmgr.away s.exitPipe = true

/-- What the table's life depends on: nothing empty is received before shutdown,
and the table is freed only when shutdown has begun and nobody is on the way to
it. -/
def ok (s : State) : Act → Prop
  | .conmgr (.receive r _) => 0 < r ∨ s.exitFlag = true
  | .conmgr .free => s.idle
  | _ => True

instance decOk (s : State) : (a : Act) → Decidable (ok s a)
  | .conmgr (.receive r _) => inferInstanceAs (Decidable (0 < r ∨ s.exitFlag = true))
  | .conmgr .free => inferInstanceAs (Decidable
      (s.exitFlag = true ∧ s.engine.away = true ∧ s.locmgr.away s.exitPipe = true))
  | .conmgr .test | .conmgr (.select _) | .conmgr (.serve _) | .conmgr .update | .conmgr .freed
  | .setExitFlag | .writeExitPipe | .trigger | .engine _ | .locmgr _ => isTrue trivial

/-! ## The invariant -/

/-- The table is gone or about to go. -/
def State.ending (s : State) : Prop := s.head = none ∨ s.conmgr = .freeing

structure Inv (s : State) : Prop where
  idle : s.ending → s.idle
  safe : Safe s

theorem init_inv : Inv init where
  idle := by rintro (h | h) <;> cases h
  safe := ⟨rfl, rfl⟩

/-- Steps that neither free the table nor send a reader to it. -/
theorem Inv.mono {s s' : State} (h : Inv s) (hend : s'.ending → s.ending)
    (hidle : s.idle → s'.idle) (hsafe : Safe s → Safe s') : Inv s' :=
  ⟨fun he => hidle (h.idle (hend he)), hsafe h.safe⟩

/-- A step of the connection manager that leaves the table in place. -/
theorem Inv.conmgr {s s' : State} (h : Inv s) (hc : s'.conmgr ≠ .freeing)
    (hhead : s'.head = none → s.head = none) (hflag : s'.exitFlag = s.exitFlag)
    (hpipe : s'.exitPipe = s.exitPipe) (he : s'.engine = s.engine) (hl : s'.locmgr = s.locmgr)
    (hsafe : Safe s → Safe s') : Inv s' := by
  refine h.mono (fun hend => Or.inl (hhead (hend.resolve_right hc))) (fun hi => ?_) hsafe
  unfold State.idle
  rw [hflag, hpipe, he, hl]
  exact hi

/-- Whoever is not away finds the table there: it is not being freed. -/
theorem Inv.there {s : State} (h : Inv s)
    (hin : ¬ (s.engine.away = true ∧ s.locmgr.away s.exitPipe = true)) : ¬ s.ending :=
  fun hend => hin (h.idle hend).2

/-- A reader taking the lock reads a pointer that is not null. -/
theorem Inv.lockTable {s s' : State} (h : Inv s)
    (hin : ¬ (s.engine.away = true ∧ s.locmgr.away s.exitPipe = true))
    (hhead : s'.head = s.head) (hc : s'.conmgr = s.conmgr)
    (hn : s'.nullRead = (s.nullRead || s.head.isNone)) (hd : s'.discarded = s.discarded) :
    Inv s' := by
  have hthere := h.there hin
  refine ⟨fun hend => absurd ?_ hthere, ?_, by rw [hd]; exact h.safe.2⟩
  · unfold State.ending at hend
    rw [hhead, hc] at hend
    exact hend
  · rw [hn, h.safe.1]
    cases hs : s.head with
    | none => exact absurd (Or.inl hs) hthere
    | some tbl => rfl

/-- A reader that was not away may move anywhere: the table is not ending. -/
theorem Inv.move {s s' : State} (h : Inv s)
    (hin : ¬ (s.engine.away = true ∧ s.locmgr.away s.exitPipe = true))
    (hhead : s'.head = none → s.head = none) (hc : s'.conmgr = s.conmgr)
    (hsafe : Safe s → Safe s') : Inv s' := by
  refine ⟨fun hend => absurd ?_ (h.there hin), hsafe h.safe⟩
  unfold State.ending at hend
  rw [hc] at hend
  exact hend.imp_left hhead

theorem conmgrStep_inv {s s' : State} {a : ConmgrAct} (h : Inv s) (hok : ok s (.conmgr a))
    (hs : conmgrStep s a = some s') : Inv s' := by
  cases a with
  | test =>
    simp only [conmgrStep] at hs
    split at hs
    next => cases hs; refine h.conmgr ?_ id rfl rfl rfl rfl id; split <;> exact fun e => nomatch e
    next => cases hs
  | select failed =>
    simp only [conmgrStep] at hs
    split at hs
    next => cases hs; refine h.conmgr ?_ id rfl rfl rfl rfl id; split <;> exact fun e => nomatch e
    next => cases hs
  | receive r msg =>
    simp only [conmgrStep] at hs
    split at hs
    next =>
      split at hs
      next => cases hs; exact h.conmgr (fun e => nomatch e) id rfl rfl rfl rfl id
      next hr =>
        cases hs
        have hflag : s.exitFlag = true := hok.resolve_left hr
        refine h.conmgr (fun e => nomatch e) id rfl rfl rfl rfl fun hsafe => ⟨hsafe.1, ?_⟩
        show (s.discarded || !s.exitFlag) = false
        rw [hsafe.2, hflag]
        rfl
    next => cases hs
  | serve env =>
    simp only [conmgrStep] at hs
    split at hs
    next =>
      split at hs
      next =>
        obtain ⟨m, -, rfl⟩ := Option.map_eq_some_iff.mp hs
        exact h.conmgr (fun e => nomatch e) id rfl rfl rfl rfl id
      next => cases hs; exact h.conmgr (fun e => nomatch e) id rfl rfl rfl rfl id
    next => cases hs
  | update =>
    simp only [conmgrStep] at hs
    split at hs
    next =>
      cases hs
      exact h.conmgr (fun e => nomatch e) Option.map_eq_none_iff.mp rfl rfl rfl rfl id
    next => cases hs
  | free =>
    simp only [conmgrStep] at hs
    split at hs
    next =>
      split at hs
      next => cases hs; exact h.conmgr (fun e => nomatch e) id rfl rfl rfl rfl id
      next =>
        obtain ⟨m, -, rfl⟩ := Option.map_eq_some_iff.mp hs
        exact ⟨fun _ => hok, h.safe⟩
    next => cases hs
  | freed =>
    simp only [conmgrStep] at hs
    split at hs
    next hc => cases hs; exact ⟨fun _ => h.idle (Or.inr hc), h.safe⟩
    next => cases hs

theorem engineStep_inv {s s' : State} {a : EngineAct} (h : Inv s)
    (hs : engineStep s a = some s') : Inv s' := by
  cases a with
  | test =>
    simp only [engineStep] at hs
    split at hs
    next =>
      cases hs
      refine h.mono id (fun hi => ⟨hi.1, ?_, hi.2.2⟩) id
      show Engine.away (if s.exitFlag = true then _ else _) = true
      rw [if_pos hi.1]
      rfl
    next => cases hs
  | decide =>
    simp only [engineStep] at hs
    split at hs
    next he => cases hs; exact h.move (by rw [he]; exact fun hi => nomatch hi.1) id rfl id
    next => cases hs
  | lock =>
    simp only [engineStep] at hs
    split at hs
    next he =>
      obtain ⟨m, -, rfl⟩ := Option.map_eq_some_iff.mp hs
      exact h.lockTable (by rw [he]; exact fun hi => nomatch hi.1) rfl rfl rfl rfl
    next => cases hs
  | unlock evaluate =>
    simp only [engineStep] at hs
    split at hs
    next he =>
      cases hs
      exact h.move (by rw [he]; exact fun hi => nomatch hi.1) Option.map_eq_none_iff.mp rfl id
    next => cases hs
  | clear =>
    simp only [engineStep] at hs
    split at hs
    next => cases hs; exact h.mono id (fun hi => ⟨hi.1, rfl, hi.2.2⟩) id
    next => cases hs

theorem locmgrStep_inv {s s' : State} {a : LocmgrAct} (h : Inv s)
    (hs : locmgrStep s a = some s') : Inv s' := by
  cases a with
  | test =>
    simp only [locmgrStep] at hs
    split at hs
    next =>
      cases hs
      refine h.mono id (fun hi => ⟨hi.1, hi.2.1, ?_⟩) id
      show Locmgr.away s.exitPipe (if s.exitFlag = true then _ else _) = true
      rw [if_pos hi.1]
      rfl
    next => cases hs
  | select failed =>
    simp only [locmgrStep] at hs
    split at hs
    next hl =>
      cases hs
      refine h.mono id (fun hi => ⟨hi.1, hi.2.1, ?_⟩) id
      have hpipe : s.exitPipe = true := by
        have := hi.2.2
        rw [hl] at this
        exact this
      show Locmgr.away s.exitPipe (if (failed || s.exitPipe) = true then _ else _) = true
      rw [hpipe, Bool.or_true, if_pos rfl]
      rfl
    next => cases hs
  | line text =>
    simp only [locmgrStep] at hs
    split at hs
    next hl =>
      cases hs
      exact h.move (by rw [hl]; exact fun hi => nomatch hi.2) id rfl id
    next text hl =>
      have hin : ¬ (s.engine.away = true ∧ s.locmgr.away s.exitPipe = true) := by
        rw [hl]; exact fun hi => nomatch hi.2
      split at hs
      next => cases hs; exact h.move hin id rfl id
      next => cases hs; exact h.move hin id rfl id
    next => cases hs
  | lock =>
    simp only [locmgrStep] at hs
    split at hs
    next hl =>
      obtain ⟨m, -, rfl⟩ := Option.map_eq_some_iff.mp hs
      exact h.lockTable (by rw [hl]; exact fun hi => nomatch hi.2) rfl rfl rfl rfl
    next => cases hs
  | unlock =>
    simp only [locmgrStep] at hs
    split at hs
    next hl => cases hs; exact h.move (by rw [hl]; exact fun hi => nomatch hi.2) id rfl id
    next => cases hs

theorem Locmgr.away_of_pipe {l : Locmgr} {p : Bool} (h : l.away p = true) : l.away true = true := by
  cases l <;> first | rfl | exact h

theorem step_inv {s s' : State} {a : Act} (h : Inv s) (hok : ok s a) (hs : step s a = some s') :
    Inv s' := by
  cases a with
  | setExitFlag => cases hs; exact h.mono id (fun hi => ⟨rfl, hi.2⟩) id
  | writeExitPipe =>
    simp only [step] at hs
    split at hs
    next => cases hs; exact h.mono id (fun hi => ⟨hi.1, hi.2.1, Locmgr.away_of_pipe hi.2.2⟩) id
    next => cases hs
  | trigger => cases hs; exact h.mono id id id
  | conmgr a => exact conmgrStep_inv h hok hs
  | engine a => exact engineStep_inv h hs
  | locmgr a => exact locmgrStep_inv h hs

/-- **The table is there whenever it is used.** Over every interleaving of the
three threads, every sequence of receive results and a shutdown at any moment: if
nothing empty is received before shutdown, and the table is freed only after
shutdown has begun and while no reader is between its test of `exit_flag` and the
end of its walk, then no walk meets the null pointer and no datagram has ended the
connection manager before shutdown. -/
theorem table_lives (as : List Act) {s : State} (hok : Meets step ok init as)
    (hr : run step init as = some s) : Safe s :=
  (run_inv step_inv as init_inv hok hr).safe

def plainEnv : AddEnv := ⟨true, true, true, some "/usr/bin/ssh", fun _ => 1⟩

/-- A connection is added, dumped and evaluated; then `sined` shuts down. -/
def orderlyExit : List Act :=
  [.conmgr .test, .conmgr (.select false), .conmgr (.receive 144 ⟨cmdAdd, 40, 5, 16, []⟩),
   .conmgr (.serve plainEnv), .conmgr .update, .locmgr .test, .locmgr (.select false),
   .locmgr (.line (some "l")), .locmgr .lock, .locmgr .unlock, .engine .test, .trigger,
   .engine .decide, .engine .lock, .engine (.unlock id), .engine .clear, .locmgr .test,
   .conmgr .test,
   .setExitFlag, .writeExitPipe, .conmgr (.select false), .conmgr .free, .conmgr .freed,
   .engine .test, .locmgr (.select false)]

theorem table_lives_orderlyExit :
    ∃ s, run step init orderlyExit = some s ∧ s.head = none ∧ Safe s :=
  ⟨_, rfl, rfl, table_lives orderlyExit (by decide) rfl⟩

/-- A datagram without bytes, then a policy evaluation. -/
def emptyDatagram : List Act :=
  [.conmgr .test, .conmgr (.select false), .conmgr (.receive 0 ⟨cmdAdd, 0, 0, 0, []⟩),
   .conmgr .free, .conmgr .freed, .trigger, .engine .test, .engine .decide, .engine .lock]

/-- The location thread has read its line when the shutdown begins, and dumps the
table after it is freed. -/
def dumpDuringExit : List Act :=
  [.conmgr .test, .locmgr .test, .locmgr (.select false), .locmgr (.line (some "l")), .setExitFlag,
   .writeExitPipe, .conmgr (.select false), .conmgr .free, .conmgr .freed, .locmgr .lock]

/-- **The table is walked after its end.** An empty datagram makes the connection
manager free the table while `sined` runs on, and the next pass of the policy
engine dereferences `NULL`; and so does a dump that was asked for just before a
shutdown. -/
theorem empty_datagram_frees_table :
    (∃ s, run step init emptyDatagram = some s ∧ s.exitFlag = false ∧ s.discarded = true ∧
      s.nullRead = true ∧ ¬ Safe s) ∧
    ∃ s, run step init dumpDuringExit = some s ∧ s.discarded = false ∧ s.nullRead = true := by
  refine ⟨⟨_, rfl, rfl, rfl, rfl, ?_⟩, _, rfl, rfl, rfl⟩
  intro h
  exact Bool.noConfusion h.1

end Manhattan.Sined.TableLife
