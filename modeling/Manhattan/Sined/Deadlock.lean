import Manhattan.Lib.Run
import Manhattan.Lib.LockOrder
import Manhattan.Sined.Pe
import Manhattan.Sined.PolicyLock

/-!
# Who waits for whom in `sined`

Three locks are taken while another thread may want them: `con_tbl_mutex` by the
connection manager (`add_connection`, `remove_connection`, `free_connection_table`), the
policy engine (`evaluate_all`) and the location thread (`conmgr_dump_connections`);
`location_mutex` by the location thread and inside `evaluate`; `policy_mutex` inside
`evaluate` and by the main thread in `parse_policies`. `evaluate` runs with
`con_tbl_mutex` held and takes the other two one after the other; nobody takes
`con_tbl_mutex` while holding either of them. The SOCKS and forwarding threads hold no
lock, and wait in `sine_sendto_conmgr` for the connection manager's acknowledgement.

Mirroring notes:
- A program point is a place before or between the lock operations; `parse_policies` is
  the parser of `PolicyLock`, with its release too many.
- The exchanges of `evaluate` with the MIH user are answered or time out (`Query`); here
  the walk over the policies is one step for each policy.
- What `evaluate` writes into a connection, and whether the table still exists when a
  thread walks it, are the subjects of `Pe` and `TableLife`.
- A thread in `recvfrom` has a timeout or not: between `socket` and `setsockopt` another
  thread may already use the socket. `Waits` counts both.

`no_deadlock` is the result.
-/

namespace Manhattan.Sined.Deadlock

open Manhattan.Lib
open PolicyLock (PolicyFile Parser)

inductive Lock where
  | conTbl
  | policy
  | location
  deriving DecidableEq, Repr

inductive Thread where
  | conmgr
  | engine
  | locmgr
  | main
  | client (n : Nat)
  deriving DecidableEq, Repr

/-- What a thread takes `con_tbl_mutex` for. -/
inductive Job where
  | add (client : Nat) (conn : Connection)
  | remove (client : Nat) (appID sockfd : Int)
  | free
  | evaluateAll
  | dump
  deriving DecidableEq, Repr

/-- Who has called `evaluate`: `add_connection`, or `evaluate_all` with the connections
that remain. -/
inductive Caller where
  | add (client : Nat) (conn : Connection)
  | evaluateAll (rest : List Connection)
  deriving DecidableEq, Repr

inductive Pc where
  | idle
  /-- At `pthread_mutex_lock(&con_tbl_mutex)`. -/
  | atTable (job : Job)
  | inTable (job : Job)
  /-- In `evaluate`, at the lock of `locmgr_get_location`. -/
  | atLocation (caller : Caller)
  | inLocation (caller : Caller)
  /-- In `evaluate`, at the lock of the policies. -/
  | atPolicy (caller : Caller)
  | inPolicy (rest : List Policy) (caller : Caller)
  | evaluated (caller : Caller)
  /-- Before the connection manager's `sendto`. -/
  | acking (client : Nat)
  /-- In `locmgr_main_loop`, at the lock of the location. -/
  | atUpdate (loc : String)
  | inUpdate (loc : String)
  /-- In `parse_policies`, with the policies of the file. -/
  | parsing (parser : Parser) (loaded : List Policy)
  /-- In `recvfrom` of `sine_sendto_conmgr`. -/
  | waiting (client : Nat) (timed : Bool)
  deriving DecidableEq, Repr

/-- The data the threads work on. -/
structure Data where
  table : List Connection
  policies : List Policy
  location : String
  /-- The datagrams for the connection manager. -/
  requests : List (Nat × ConMsg)
  /-- The clients whose acknowledgement has arrived. -/
  acks : List Nat

structure State where
  threads : Threads Thread Lock Pc
  data : Data

def init (table : List Connection) (policies : List Policy) (location : String) : State :=
  ⟨⟨fun _ => Mutex.free, fun _ => .idle⟩, ⟨table, policies, location, [], []⟩⟩

/-! ## The step of a thread -/

/-- The parser's next step: the operations on `policy_mutex`, and the list. -/
def parserNext (d : Data) (loaded : List Policy) : Parser → Option (Op Lock × Pc × Data)
  | .idle => none
  | .lockFree file => some (.lock .policy, .parsing (.freeing file) loaded, d)
  | .freeing file =>
    some (.unlock .policy, .parsing (.lockBuild file) loaded, { d with policies := [] })
  | .lockBuild file => some (.lock .policy, .parsing (.building file) loaded, d)
  | .building file =>
    if file.accepted then
      some (.unlock .policy, .parsing .lockDump loaded, { d with policies := loaded })
    else some (.pass, .parsing (.atError false) loaded, d)
  | .lockDump => some (.lock .policy, .parsing .dumping loaded, d)
  | .dumping => some (.unlock .policy, .parsing (.atError true) loaded, d)
  | .atError _ => some (.unlock .policy, .idle, d)

/-- With `con_tbl_mutex` taken, the two callers of `evaluate` go on there. -/
def lockedFor (d : Data) : Job → Pc
  | .add client conn => .atLocation (.add client conn)
  | .evaluateAll => .evaluated (.evaluateAll d.table)
  | job => .inTable job

/-- The rest of the critical section of the other three. -/
def tableNext (d : Data) : Job → Pc × Data
  | .remove client appID sockfd =>
    (.acking client, { d with table := removeConnection appID sockfd d.table })
  | .free => (.idle, { d with table := [] })
  | _ => (.idle, d)

def next (d : Data) : Pc → Option (Op Lock × Pc × Data)
  | .idle => none
  | .atTable job => some (.lock .conTbl, lockedFor d job, d)
  | .inTable job => some (.unlock .conTbl, (tableNext d job).1, (tableNext d job).2)
  | .atLocation caller => some (.lock .location, .inLocation caller, d)
  | .inLocation caller => some (.unlock .location, .atPolicy caller, d)
  | .atPolicy caller => some (.lock .policy, .inPolicy d.policies caller, d)
  | .inPolicy [] caller => some (.unlock .policy, .evaluated caller, d)
  | .inPolicy (_ :: rest) caller => some (.pass, .inPolicy rest caller, d)
  | .evaluated (.add client conn) =>
    some (.unlock .conTbl, .acking client, { d with table := d.table ++ [conn] })
  | .evaluated (.evaluateAll []) => some (.unlock .conTbl, .idle, d)
  | .evaluated (.evaluateAll (_ :: rest)) => some (.pass, .atLocation (.evaluateAll rest), d)
  | .acking client => some (.pass, .idle, { d with acks := client :: d.acks })
  | .atUpdate loc => some (.lock .location, .inUpdate loc, d)
  | .inUpdate loc => some (.unlock .location, .idle, { d with location := loc })
  | .parsing parser loaded => parserNext d loaded parser
  | .waiting client _ =>
    if client ∈ d.acks then some (.pass, .idle, { d with acks := d.acks.erase client }) else none

/-- The place the connection manager goes to with a message. -/
def receiveMsg (env : AddEnv) (client : Nat) (msg : ConMsg) : Pc :=
  if msg.cmd = cmdAdd then
    match makeConnection env msg.pid msg.sockfd msg.addr msg.addrlen with
    | some conn => .atTable (.add client { conn with activeRule := env.evaluate conn })
    | none => .acking client
  else if msg.cmd = cmdRemove then .atTable (.remove client msg.pid msg.sockfd)
  else .acking client

inductive Act where
  /-- A SOCKS or forwarding thread sends a message to the connection manager. -/
  | request (n : Nat) (msg : ConMsg) (timed : Bool)
  | timeout (n : Nat)
  | receive (env : AddEnv)
  /-- The connection manager leaves its loop. -/
  | exit
  /-- `need_evaluation` is seen. -/
  | trigger
  | line (text : String)
  | parse (file : PolicyFile) (loaded : List Policy)
  | step (t : Thread)

/-- An idle thread begins something. -/
def begin (s : State) (t : Thread) (p : Pc) (d : Data) : Option State :=
  if s.threads.pc t = .idle then (s.threads.move t .pass p).map fun th => ⟨th, d⟩ else none

def step (s : State) : Act → Option State
  | .request n msg timed =>
    begin s (.client n) (.waiting n timed) { s.data with requests := s.data.requests ++ [(n, msg)] }
  | .timeout n =>
    match s.threads.pc (.client n) with
    | .waiting _ true => (s.threads.move (.client n) .pass .idle).map fun th => ⟨th, s.data⟩
    | _ => none
  | .receive env =>
    match s.data.requests with
    | [] => none
    | (client, msg) :: rest =>
      begin s .conmgr (receiveMsg env client msg) { s.data with requests := rest }
  | .exit => begin s .conmgr (.atTable .free) s.data
  | .trigger => begin s .engine (.atTable .evaluateAll) s.data
  | .line text => begin s .locmgr (if text = "l" then .atTable .dump else .atUpdate text) s.data
  | .parse file loaded => begin s .main (.parsing (.lockFree file) loaded) s.data
  | .step t => (next s.data (s.threads.pc t)).bind fun (op, p, d) =>
      (s.threads.move t op p).map fun th => ⟨th, d⟩

/-! ## Locks held and locks wanted -/

/-- Between a lock and the unlock meant for it. -/
def Pc.holds : Pc → Lock → Bool
  | .inTable _, .conTbl => true
  | .atLocation _, .conTbl => true
  | .inLocation _, .conTbl => true
  | .inLocation _, .location => true
  | .atPolicy _, .conTbl => true
  | .inPolicy _ _, .conTbl => true
  | .inPolicy _ _, .policy => true
  | .evaluated _, .conTbl => true
  | .inUpdate _, .location => true
  | .parsing parser _, .policy => parser.holds
  | _, _ => false

/-- The lock the next step takes. -/
def Pc.wants : Pc → Option Lock
  | .atTable _ => some .conTbl
  | .atLocation _ => some .location
  | .atPolicy _ => some .policy
  | .atUpdate _ => some .location
  | .parsing (.lockFree _) _ => some .policy
  | .parsing (.lockBuild _) _ => some .policy
  | .parsing .lockDump _ => some .policy
  | _ => none

/-- `t` waits for a lock that `u` owns, or for an acknowledgement of `u`, with a timeout or
without. -/
def Waits (s : State) (t u : Thread) : Prop :=
  (∃ l, (s.threads.pc t).wants = some l ∧ (s.threads.mutex l).owner = some u) ∨
  (∃ n timed, s.threads.pc t = .waiting n timed) ∧ u = .conmgr

/-- A thread that wants a lock while it holds one holds `con_tbl_mutex` and wants another. -/
theorem Pc.wants_of_holds {p : Pc} {l l' : Lock} (hh : p.holds l = true)
    (hw : p.wants = some l') : l = .conTbl ∧ l' ≠ .conTbl := by
  cases p with
  | atTable job => cases l <;> cases hh
  | atUpdate loc => cases l <;> cases hh
  | atLocation caller =>
    cases hw
    cases l with
    | conTbl => exact ⟨rfl, by decide⟩
    | policy => cases hh
    | location => cases hh
  | atPolicy caller =>
    cases hw
    cases l with
    | conTbl => exact ⟨rfl, by decide⟩
    | policy => cases hh
    | location => cases hh
  | parsing parser loaded =>
    -- the parser has given `policy_mutex` up wherever it wants it
    cases parser with
    | lockFree file => cases l <;> cases hh
    | lockBuild file => cases l <;> cases hh
    | lockDump => cases l <;> cases hh
    | _ => cases hw
  | _ => cases hw

/-- What `Keeps` asks for one of the locks, computed. -/
def keepsLock (p : Pc) (op : Op Lock) (p' : Pc) (l : Lock) : Bool :=
  match op with
  | .pass => !p.holds l || p'.holds l
  | .lock taken => p'.holds taken && (!p.holds l || p'.holds l)
  | .unlock released => l = released || !p.holds l || p'.holds l

/-- There are three locks to look at. -/
theorem keeps_of_locks {p p' : Pc} {op : Op Lock} (hconTbl : keepsLock p op p' .conTbl = true)
    (hpolicy : keepsLock p op p' .policy = true)
    (hlocation : keepsLock p op p' .location = true) :
    Keeps (fun p l => p.holds l = true) p op p' := by
  have hall : ∀ l, keepsLock p op p' l = true := by
    intro l
    cases l with
    | conTbl => exact hconTbl
    | policy => exact hpolicy
    | location => exact hlocation
  cases op with
  | pass =>
    intro l hl
    simpa [keepsLock, hl] using hall l
  | lock taken =>
    refine ⟨?_, fun l hl => ?_⟩
    · simpa [keepsLock] using (Bool.and_eq_true_iff.mp (hall taken)).1
    · simpa [hl] using (Bool.and_eq_true_iff.mp (hall l)).2
  | unlock released =>
    intro l hne hl
    simpa [keepsLock, hne, hl] using hall l

theorem parserNext_keeps {d d' : Data} {loaded : List Policy} {parser : Parser} {op : Op Lock}
    {p : Pc} (h : parserNext d loaded parser = some (op, p, d')) :
    Keeps (fun p l => p.holds l = true) (.parsing parser loaded) op p := by
  cases parser with
  | idle => cases h
  | building file =>
    simp only [parserNext] at h
    split at h
    · cases h; exact keeps_of_locks rfl rfl rfl
    · cases h; exact keeps_of_locks rfl rfl rfl
  | _ => cases h; exact keeps_of_locks rfl rfl rfl

theorem next_keeps {d d' : Data} {p p' : Pc} {op : Op Lock} (h : next d p = some (op, p', d')) :
    Keeps (fun p l => p.holds l = true) p op p' := by
  cases p with
  | idle => cases h
  | atTable job =>
    -- where the thread goes on depends on what it has to do
    cases h
    cases job <;> exact keeps_of_locks rfl rfl rfl
  | inPolicy rest caller =>
    cases rest with
    | nil => cases h; exact keeps_of_locks rfl rfl rfl
    | cons policy rest => cases h; exact keeps_of_locks rfl rfl rfl
  | evaluated caller =>
    -- `add_connection` gives `con_tbl_mutex` up, and so does `evaluate_all` at the end
    cases caller with
    | add client conn => cases h; exact keeps_of_locks rfl rfl rfl
    | evaluateAll rest =>
      cases rest with
      | nil => cases h; exact keeps_of_locks rfl rfl rfl
      | cons conn rest => cases h; exact keeps_of_locks rfl rfl rfl
  | parsing parser loaded => exact parserNext_keeps h
  | waiting client timed =>
    simp only [next] at h
    split at h
    · cases h; exact keeps_of_locks rfl rfl rfl
    · cases h
  | _ => cases h; exact keeps_of_locks rfl rfl rfl

/-- The step of a thread never leads to `recvfrom` of `sine_sendto_conmgr`. -/
theorem next_ne_waiting {d d' : Data} {p p' : Pc} {op : Op Lock}
    (h : next d p = some (op, p', d')) (n : Nat) (timed : Bool) : p' ≠ .waiting n timed := by
  rintro rfl
  revert h
  fun_cases next d p with
  | case2 job => cases job <;> simp [lockedFor]
  | case3 job => cases job <;> simp [tableNext]
  | case15 parser loaded => fun_cases parserNext d loaded parser <;> simp
  | _ => simp

/-! ## The invariant -/

/-- The owner of a lock is where the lock is held, and only clients wait for the connection
manager. -/
structure Inv (s : State) : Prop where
  placed : Placed (fun p l => p.holds l = true) s.threads
  clients : ∀ t n timed, s.threads.pc t = .waiting n timed → ∃ m, t = .client m

theorem inv_init (table : List Connection) (policies : List Policy) (location : String) :
    Inv (init table policies location) where
  placed := fun _ _ howner => absurd howner (Option.some_ne_none _).symm
  clients := fun _ _ _ hwait => absurd hwait Pc.noConfusion

theorem Inv.move {s : State} {th : Threads Thread Lock Pc} {d : Data} {t : Thread}
    {op : Op Lock} {p : Pc} (h : Inv s)
    (hkeeps : Keeps (fun p l => p.holds l = true) (s.threads.pc t) op p)
    (hclient : ∀ n timed, p = .waiting n timed → ∃ m, t = .client m)
    (hmove : s.threads.move t op p = some th) : Inv ⟨th, d⟩ where
  placed := h.placed.move hkeeps hmove
  clients := by
    intro u n timed hwait
    rw [Threads.move_pc hmove] at hwait
    by_cases hu : u = t
    · rw [hu, Function.update_self] at hwait
      exact hu ▸ hclient n timed hwait
    · rw [Function.update_of_ne hu] at hwait
      exact h.clients u n timed hwait

/-- An idle thread holds no lock, so what it begins cannot lose one. -/
theorem Inv.begin {s s' : State} {t : Thread} {p : Pc} {d : Data} (h : Inv s)
    (hclient : ∀ n timed, p = .waiting n timed → ∃ m, t = .client m)
    (hs : begin s t p d = some s') : Inv s' := by
  unfold Deadlock.begin at hs
  split at hs
  case isTrue hidle =>
    obtain ⟨th, hmove, rfl⟩ := Option.map_eq_some_iff.mp hs
    refine h.move ?_ hclient hmove
    intro l hl
    rw [hidle] at hl
    cases hl
  case isFalse => cases hs

theorem receiveMsg_ne_waiting (env : AddEnv) (client : Nat) (msg : ConMsg) (n : Nat)
    (timed : Bool) : receiveMsg env client msg ≠ .waiting n timed := by
  fun_cases receiveMsg env client msg <;> simp

theorem Inv.step {s s' : State} {a : Act} (h : Inv s) (hs : step s a = some s') : Inv s' := by
  cases a with
  | request n msg timed => exact h.begin (fun _ _ _ => ⟨n, rfl⟩) hs
  | timeout n =>
    simp only [Deadlock.step] at hs
    split at hs
    next heq =>
      obtain ⟨th, hmove, rfl⟩ := Option.map_eq_some_iff.mp hs
      refine h.move ?_ (fun _ _ hp => absurd hp Pc.noConfusion) hmove
      intro l hl
      rw [heq] at hl
      cases hl
    next => cases hs
  | receive env =>
    simp only [Deadlock.step] at hs
    split at hs
    next => cases hs
    next => exact h.begin (fun _ _ hp => absurd hp (receiveMsg_ne_waiting _ _ _ _ _)) hs
  | exit => exact h.begin (fun _ _ hp => absurd hp Pc.noConfusion) hs
  | trigger => exact h.begin (fun _ _ hp => absurd hp Pc.noConfusion) hs
  | line text =>
    refine h.begin (fun n timed hp => ?_) hs
    split at hp <;> cases hp
  | parse file loaded => exact h.begin (fun _ _ hp => absurd hp Pc.noConfusion) hs
  | step t =>
    obtain ⟨⟨op, p, d⟩, hnext, hmap⟩ := Option.bind_eq_some_iff.mp hs
    obtain ⟨th, hmove, rfl⟩ := Option.map_eq_some_iff.mp hmap
    exact h.move (next_keeps hnext)
      (fun n timed hp => absurd hp (next_ne_waiting hnext n timed)) hmove

/-! ## No deadlock -/

/-- A waiting client waits for the connection manager, which may wait for `con_tbl_mutex`,
whose owner may wait for one of the other two, whose owners do not wait. -/
def Pc.rank : Pc → Nat
  | .waiting _ _ => 3
  | p =>
    match p.wants with
    | some .conTbl => 2
    | some _ => 1
    | none => 0

theorem Pc.rank_of_wants {p : Pc} {l : Lock} (h : p.wants = some l) :
    p.rank = if l = .conTbl then 2 else 1 := by
  unfold Pc.rank
  split
  next => cases h
  next => rw [h]; cases l <;> rfl

theorem Waits.rank_lt {s : State} (h : Inv s) {t u v : Thread} (htu : Waits s t u)
    (huv : Waits s u v) : (s.threads.pc u).rank < (s.threads.pc t).rank := by
  rcases htu with ⟨l, hwant, howner⟩ | ⟨⟨n, timed, hwait⟩, rfl⟩
  · -- `u` owns a lock, so it is at a place that holds one
    have hholds : (s.threads.pc u).holds l = true := h.placed l u howner
    rcases huv with ⟨l', hwant', -⟩ | ⟨⟨n, timed, hwait⟩, -⟩
    · obtain ⟨hl, hl'⟩ := Pc.wants_of_holds hholds hwant'
      rw [Pc.rank_of_wants hwant, Pc.rank_of_wants hwant', if_pos hl, if_neg hl']
      omega
    · rw [hwait] at hholds
      cases hholds
  · -- the connection manager waits for a lock, not for itself
    rcases huv with ⟨l', hwant', -⟩ | ⟨⟨n', timed', hwait'⟩, -⟩
    · rw [hwait, Pc.rank_of_wants hwant']
      show _ < 3
      split <;> omega
    · obtain ⟨m, hm⟩ := h.clients _ _ _ hwait'
      cases hm

/-- **No deadlock.** Whatever the connections, the policies and the interleaving, no set
of threads waits for itself, even if the clients' timeouts never fire. -/
theorem no_deadlock (table : List Connection) (policies : List Policy) (location : String)
    (acts : List Act) (s : State) (hr : run step (init table policies location) acts = some s)
    (S : Set Thread) : ¬ Knot (Waits s) S := by
  have hinv : Inv s := run_inv_all (fun hi hs => hi.step hs) acts (inv_init _ _ _) hr
  exact not_knot_of_rank (fun t => (s.threads.pc t).rank)
    (fun htu huv => Waits.rank_lt hinv htu huv) S

/-- The engine is inside the policies when a client asks for a new connection and the main
thread reloads the file. -/
def crowded : List Act :=
  [.trigger, .step .engine, .step .engine, .step .engine, .step .engine, .step .engine,
   .request 0 ⟨cmdAdd, 7, 4, 0, []⟩ true, .receive ⟨true, true, true, none, fun _ => 0⟩,
   .parse (.rooted "UserPolicies") []]

theorem no_deadlock_crowded :
    ∃ s, run step (init [⟨5, some "app", 3, 0, [], 0, 0⟩] [⟨some "app", []⟩] "home") crowded =
        some s ∧
      Waits s (.client 0) .conmgr ∧ Waits s .conmgr .engine ∧ Waits s .main .engine ∧
      ∀ S, ¬ Knot (Waits s) S :=
  ⟨_, rfl, .inr ⟨⟨0, true, rfl⟩, rfl⟩, .inl ⟨.conTbl, rfl, rfl⟩, .inl ⟨.policy, rfl, rfl⟩,
    no_deadlock [⟨5, some "app", 3, 0, [], 0, 0⟩] [⟨some "app", []⟩] "home" crowded _ rfl⟩

end Manhattan.Sined.Deadlock
