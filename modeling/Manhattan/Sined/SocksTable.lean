import Manhattan.Lib.Run
import Manhattan.Lib.Fd
import Manhattan.Lib.OwnedTable
import Manhattan.Sined.Conmgr

/-!
# The SOCKS server against the connection table

Three kinds of threads meet at the connection table. The main thread of the SOCKS
server (`socks_main_loop`, `socks_establish`) accepts a client, opens `rem_sock`,
connects it and mails `ADD(pid, rem_sock)` to the connection manager; one
`forward_loop` thread per connection ends with `close(cli_sock)`,
`close(rem_sock)` and *then* `REMOVE(pid, rem_sock)`; the connection manager
serves the datagrams in arrival order. Descriptors are handed out by the kernel
rule (`lowestFree`), so between `close(rem_sock)` and the `REMOVE` the number is
free, and the main thread may get it for the next connection of the same
application.

Mirroring notes:
- `Main.opened` is the main thread between `socket()` and the `ADD`;
  `Act.sendAdd` is the successful `connect` together with the datagram (the reply
  to the client touches neither the table nor the descriptors) and starts the
  forwarding thread.
- Descriptors opened and closed by the rest of the process (`/proc` files,
  `info_sock`, `lib_sock`) are the list `others`.
- Entries and datagrams carry the index of the connection they belong to. This is
  bookkeeping for the statements: `serveDgram_erase` shows that the table under
  the tags is the one `handleMsg` computes.

The order of the last two steps of `forward_loop` is what the agreement between
table and connections hangs on. `agree_of_run` proves it for the runs in which no
`ADD` is mailed while another connection with the same key sits between its
`close` and its `REMOVE`; `recycled_descriptor_loses_entry` is the run in which
one does, and the live connection's entry is gone. (`sine_close` in `libsine`
mails the `REMOVE` first and closes afterwards.)
-/

namespace Manhattan.Sined.SocksTable

open Manhattan.Lib

/-- Where a forwarded connection is; `forwarding` from its `ADD` on. -/
inductive Phase where
  | forwarding
  | cliClosed
  | remClosed
  | removed
  deriving DecidableEq, Repr

/-- A forwarded connection: the arguments of its `forward_loop` thread. -/
structure Conn where
  pid : Int
  cliSock : Nat
  remSock : Nat
  phase : Phase
  deriving DecidableEq, Repr

/-- What the connection manager identifies the connection by. -/
def Conn.key (c : Conn) : Int × Int := (c.pid, c.remSock)

/-- `rem_sock` has not been closed. -/
def Conn.live (c : Conn) : Bool := c.phase = .forwarding || c.phase = .cliClosed

/-- The descriptors the connection keeps open. -/
def Conn.fds (c : Conn) : List Nat :=
  match c.phase with
  | .forwarding => [c.cliSock, c.remSock]
  | .cliClosed => [c.remSock]
  | .remClosed => []
  | .removed => []

/-- The main thread of the SOCKS server. -/
inductive Main where
  | idle
  | accepted (pid : Int) (cliSock : Nat)
  | opened (pid : Int) (cliSock remSock : Nat)
  deriving DecidableEq, Repr

def Main.fds : Main → List Nat
  | .idle => []
  | .accepted _ cliSock => [cliSock]
  | .opened _ cliSock remSock => [cliSock, remSock]

/-- The key of the `ADD` the main thread is about to mail. -/
def Main.key : Main → Option (Int × Int)
  | .opened pid _ remSock => some (pid, remSock)
  | _ => none

/-- A datagram in the connection manager's socket, with the connection it is
about. -/
structure Dgram where
  sender : Nat
  msg : ConMsg
  deriving DecidableEq, Repr

structure State where
  others : List Nat
  main : Main
  conns : List Conn
  queue : List Dgram
  table : List (Nat × Connection)

def init (others : List Nat) : State := ⟨others, .idle, [], [], []⟩

/-- Every open descriptor of the process. -/
def State.openFds (s : State) : List Nat :=
  s.others ++ s.main.fds ++ s.conns.flatMap Conn.fds

inductive Act where
  | openOther
  | closeOther (fd : Nat)
  | accept (pid : Int)
  | reject
  | socket
  | connectFails
  | sendAdd (addr : List UInt8) (addrlen : Nat)
  | closeCli (i : Nat)
  | closeRem (i : Nat)
  | sendRemove (i : Nat)
  | process (env : AddEnv)

def addMsg (pid : Int) (remSock : Nat) (addr : List UInt8) (addrlen : Nat) : ConMsg :=
  ⟨cmdAdd, pid, remSock, addrlen, addr⟩

/-- `forward_loop` leaves `addr` and `addrlen` of its message unset; `REMOVE`
reads neither. -/
def removeMsg (c : Conn) : ConMsg := ⟨cmdRemove, c.pid, c.remSock, 0, []⟩

/-- `handleMsg` on the tagged table. -/
def serveDgram (env : AddEnv) (d : Dgram) (t : List (Nat × Connection)) :
    List (Nat × Connection) :=
  if d.msg.cmd = cmdAdd then
    match makeConnection env d.msg.pid d.msg.sockfd d.msg.addr d.msg.addrlen with
    | none => t
    | some conn => t ++ [(d.sender, { conn with activeRule := env.evaluate conn })]
  else if d.msg.cmd = cmdRemove then
    t.filter fun e => !e.2.hasKey d.msg.pid d.msg.sockfd
  else t

/-- Under the tags the table is the connection manager's own. -/
theorem serveDgram_erase (env : AddEnv) (d : Dgram) (t : List (Nat × Connection)) :
    (serveDgram env d t).map Prod.snd = handleMsg env d.msg (t.map Prod.snd) := by
  unfold serveDgram handleMsg addConnection
  split
  · cases makeConnection env d.msg.pid d.msg.sockfd d.msg.addr d.msg.addrlen with
    | none => rfl
    | some conn => simp
  · split
    · rw [removeConnection_eq_filter, List.filter_map]
      rfl
    · rfl

/-- A forwarding thread's next system call: `close(cli_sock)`, `close(rem_sock)`
or the `REMOVE`. -/
def advance (s : State) (i : Nat) (src dst : Phase) : Option State :=
  match s.conns[i]? with
  | none => none
  | some c =>
    if c.phase = src then some { s with conns := s.conns.set i { c with phase := dst } } else none

def step (s : State) : Act → Option State
  | .openOther => some { s with others := lowestFree s.openFds :: s.others }
  | .closeOther fd =>
    if fd ∈ s.others then some { s with others := s.others.erase fd } else none
  | .accept pid =>
    match s.main with
    | .idle => some { s with main := .accepted pid (lowestFree s.openFds) }
    | _ => none
  | .reject =>
    match s.main with
    | .accepted _ _ => some { s with main := .idle }
    | _ => none
  | .socket =>
    match s.main with
    | .accepted pid cliSock => some { s with main := .opened pid cliSock (lowestFree s.openFds) }
    | _ => none
  | .connectFails =>
    match s.main with
    | .opened _ _ _ => some { s with main := .idle }
    | _ => none
  | .sendAdd addr addrlen =>
    match s.main with
    | .opened pid cliSock remSock =>
      some { s with
        main := .idle
        conns := s.conns ++ [⟨pid, cliSock, remSock, .forwarding⟩]
        queue := s.queue ++ [⟨s.conns.length, addMsg pid remSock addr addrlen⟩] }
    | _ => none
  | .closeCli i => advance s i .forwarding .cliClosed
  | .closeRem i => advance s i .cliClosed .remClosed
  | .sendRemove i =>
    match s.conns[i]? with
    | none => none
    | some c =>
      if c.phase = .remClosed then
        some { s with
          conns := s.conns.set i { c with phase := .removed }
          queue := s.queue ++ [⟨i, removeMsg c⟩] }
      else none
  | .process env =>
    match s.queue with
    | [] => none
    | d :: q =>
      some { s with
        queue := q
        table := serveDgram env d s.table }

/-! ## The specification -/

/-- The `ADD` of connection `i` still waits in the connection manager's socket.
A connection mails one `ADD`, so from then on "processed" is "not pending". -/
def State.addPending (s : State) (i : Nat) : Bool :=
  s.queue.any fun d => d.sender = i && d.msg.cmd = cmdAdd

/-- The connections behind the table entries under a key, in table order. -/
def State.owners (s : State) (k : Int × Int) : List Nat :=
  (s.table.filter fun e => e.2.hasKey k.1 k.2).map Prod.fst

/-- Every connection whose `ADD` has been processed and whose `rem_sock` is open
has exactly one entry under its key, and it is its own. -/
def Agree (s : State) : Prop :=
  ∀ i c, s.conns[i]? = some c → c.live = true → s.addPending i = false → s.owners c.key = [i]

/-- The `REMOVE` to be processed next matches no entry but its sender's. -/
def RemoveOwn (s : State) : Prop :=
  ∀ d q, s.queue = d :: q → d.msg.cmd = cmdRemove →
    ∀ e ∈ s.table, e.2.hasKey d.msg.pid d.msg.sockfd = true → e.1 = d.sender

/-- No `ADD` is mailed while a connection with the same key is between its
`close(rem_sock)` and its `REMOVE`, and the allocations of `add_connection`
succeed. -/
def ok (s : State) : Act → Prop
  | .sendAdd _ _ => ∀ c ∈ s.conns, c.phase = .remClosed → s.main.key ≠ some c.key
  | .process env => env.mallocs = true
  | _ => True

instance decOk (s : State) : (a : Act) → Decidable (ok s a)
  | .sendAdd _ _ =>
    inferInstanceAs (Decidable (∀ c ∈ s.conns, c.phase = .remClosed → s.main.key ≠ some c.key))
  | .process env => inferInstanceAs (Decidable (env.mallocs = true))
  | .openOther | .closeOther _ | .accept _ | .reject | .socket | .connectFails
  | .closeCli _ | .closeRem _ | .sendRemove _ => isTrue trivial

/-! ## The invariant -/

/-- The table reduced to what the keys decide: owner and `(appID, sockfd)`. -/
def absTable (t : List (Nat × Connection)) : List (Nat × (Int × Int)) :=
  t.map fun e => (e.1, (e.2.appID, e.2.sockfd))

def absReq (d : Dgram) : Req Nat (Int × Int) :=
  if d.msg.cmd = cmdAdd then .add d.sender (d.msg.pid, d.msg.sockfd)
  else .del d.sender (d.msg.pid, d.msg.sockfd)

/-- The table once every datagram in the socket has been processed. -/
def State.final (s : State) : List (Nat × (Int × Int)) :=
  serveAll (absTable s.table) (s.queue.map absReq)

/-- The final table is exactly the connections whose `REMOVE` is not out yet,
under distinct keys, and every datagram on the way there is harmless; a
descriptor the main thread has just opened is nobody else's. -/
structure Inv (s : State) : Prop where
  cmds : ∀ d ∈ s.queue, d.msg.cmd = cmdAdd ∨ d.msg.cmd = cmdRemove
  ready : Ready (absTable s.table) (s.queue.map absReq)
  holds : ∀ i k, (i, k) ∈ s.final ↔
    ∃ c, s.conns[i]? = some c ∧ c.phase ≠ .removed ∧ c.key = k
  keys : (s.final.map Prod.snd).Nodup
  fresh : ∀ pid cliSock remSock, s.main = .opened pid cliSock remSock →
    ∀ c ∈ s.conns, c.live = true → c.remSock ≠ remSock

theorem init_inv (others : List Nat) : Inv (init others) where
  cmds := by intro d hd; cases hd
  ready := trivial
  holds := by
    intro i k
    constructor
    · intro h; cases h
    · rintro ⟨c, hc, -⟩; cases hc
  keys := List.nodup_nil
  fresh := by intro pid cliSock remSock h; cases h

theorem hasKey_iff {c : Connection} {k : Int × Int} :
    c.hasKey k.1 k.2 = true ↔ (c.appID, c.sockfd) = k := by
  unfold Connection.hasKey
  rw [Prod.ext_iff]
  simp [and_comm]

/-- Serving a datagram is serving its request, once the allocations succeed. -/
theorem serveDgram_abs {env : AddEnv} {d : Dgram} (t : List (Nat × Connection))
    (hcmd : d.msg.cmd = cmdAdd ∨ d.msg.cmd = cmdRemove) (hm : env.mallocs = true) :
    absTable (serveDgram env d t) = serve (absTable t) (absReq d) := by
  unfold serveDgram absReq makeConnection
  by_cases hadd : d.msg.cmd = cmdAdd
  · rw [if_pos hadd, if_pos hadd, if_pos hm]
    simp [absTable, serve]
  · have hrem : d.msg.cmd = cmdRemove := hcmd.resolve_left hadd
    rw [if_neg hadd, if_neg hadd, if_pos hrem]
    show absTable (t.filter _) = (absTable t).filter _
    unfold absTable
    rw [List.filter_map]
    refine congrArg _ (List.filter_congr fun e _ => ?_)
    have hiff := hasKey_iff (c := e.2) (k := (d.msg.pid, d.msg.sockfd))
    by_cases hk : (e.2.appID, e.2.sockfd) = (d.msg.pid, d.msg.sockfd)
    · simp [hiff.mpr hk, hk]
    · simp [Bool.eq_false_iff.mpr (mt hiff.mp hk), hk]

/-- Reading the connection list after one thread moved. -/
theorem getElem?_set_some {l : List Conn} {i : Nat} {c : Conn} (h : l[i]? = some c) (c' : Conn)
    (j : Nat) : (l.set i c')[j]? = if j = i then some c' else l[j]? := by
  have hi : i < l.length := (List.getElem?_eq_some_iff.mp h).1
  rw [List.getElem?_set]
  by_cases hij : i = j
  · rw [if_pos hij, if_pos hij.symm, if_pos hi]
  · rw [if_neg hij, if_neg fun e => hij e.symm]

/-- Steps that leave connections, mail and table alone only owe `fresh`. -/
theorem Inv.frame {s s' : State} (h : Inv s) (hq : s'.queue = s.queue) (ht : s'.table = s.table)
    (hc : s'.conns = s.conns)
    (hf : ∀ pid cliSock remSock, s'.main = .opened pid cliSock remSock →
      ∀ c ∈ s.conns, c.live = true → c.remSock ≠ remSock) : Inv s' := by
  have hfin : s'.final = s.final := by unfold State.final; rw [hq, ht]
  refine ⟨by rw [hq]; exact h.cmds, by rw [hq, ht]; exact h.ready, ?_, by rw [hfin]; exact h.keys,
    by rw [hc]; exact hf⟩
  intro i k
  rw [hfin, hc]
  exact h.holds i k

/-- An open `rem_sock` is an open descriptor. -/
theorem remSock_mem_openFds {s : State} {c : Conn} (hc : c ∈ s.conns) (hl : c.live = true) :
    c.remSock ∈ s.openFds := by
  refine List.mem_append_right _ (List.mem_flatMap.mpr ⟨c, hc, ?_⟩)
  unfold Conn.live at hl
  unfold Conn.fds
  cases hp : c.phase
  · simp
  · simp
  · rw [hp] at hl; simp at hl
  · rw [hp] at hl; simp at hl

/-- A forwarding thread closing a socket: the same connections are still to be
removed, and none becomes live. -/
theorem advance_inv {s s' : State} {i : Nat} {src dst : Phase} (h : Inv s)
    (hsrc : src = .forwarding ∨ src = .cliClosed) (hdst : dst ≠ .removed)
    (hs : advance s i src dst = some s') : Inv s' := by
  unfold advance at hs
  cases hc : s.conns[i]? with
  | none => rw [hc] at hs; cases hs
  | some c =>
    rw [hc] at hs
    dsimp only at hs
    by_cases hp : c.phase = src
    · rw [if_pos hp] at hs
      cases hs
      have hcl : c.live = true := by
        unfold Conn.live
        rw [hp]
        rcases hsrc with e | e <;> rw [e] <;> rfl
      have hcr : c.phase ≠ .removed := by
        rw [hp]
        rcases hsrc with e | e <;> rw [e] <;> simp
      refine ⟨h.cmds, h.ready, ?_, h.keys, ?_⟩
      · intro j k
        refine (h.holds j k).trans ?_
        show _ ↔ ∃ c', (s.conns.set i { c with phase := dst })[j]? = some c' ∧ _
        rw [getElem?_set_some hc]
        by_cases hji : j = i
        · subst hji
          rw [if_pos rfl, hc]
          constructor
          · rintro ⟨c₁, h₁, -, hk⟩
            cases h₁
            exact ⟨_, rfl, hdst, hk⟩
          · rintro ⟨c₁, h₁, -, hk⟩
            cases h₁
            exact ⟨c, rfl, hcr, hk⟩
        · rw [if_neg hji]
      · intro pid cliSock remSock hm c' hc' hl
        rcases List.mem_or_eq_of_mem_set hc' with hold | rfl
        · exact h.fresh pid cliSock remSock hm c' hold hl
        · exact h.fresh pid cliSock remSock hm c (List.mem_of_getElem? hc) hcl
    · rw [if_neg hp] at hs
      cases hs

/-- The key of the connection being opened is not in the final table: an entry under
it would belong to a connection that is open (then the kernel would not have handed
out its number) or that `hok` excludes. -/
theorem Inv.unused {s : State} {pid : Int} {cliSock remSock : Nat} (h : Inv s)
    (hm : s.main = .opened pid cliSock remSock)
    (hok : ∀ c ∈ s.conns, c.phase = .remClosed → s.main.key ≠ some c.key) :
    ∀ e ∈ s.final, e.2 ≠ (pid, (remSock : Int)) := by
  rintro ⟨i, k⟩ he hk
  obtain ⟨c, hc, hcr, hck⟩ := (h.holds i k).mp he
  have hmem := List.mem_of_getElem? hc
  have hkey : c.key = (pid, (remSock : Int)) := hck.trans hk
  have hdead : ¬ c.live = true := by
    intro hl
    have hsock : (c.remSock : Int) = remSock := congrArg Prod.snd hkey
    exact h.fresh pid cliSock remSock hm c hmem hl (Int.ofNat.inj hsock)
  cases hp : c.phase with
  | forwarding => exact hdead (by unfold Conn.live; rw [hp]; rfl)
  | cliClosed => exact hdead (by unfold Conn.live; rw [hp]; rfl)
  | remClosed => exact hok c hmem hp (by rw [hm, hkey]; rfl)
  | removed => exact hcr hp

/-- Mailing an `ADD` whose key no connection still owes a `REMOVE` for. -/
theorem sendAdd_inv {s s' : State} {pid : Int} {cliSock remSock addrlen : Nat} {addr : List UInt8}
    (h : Inv s) (hm : s.main = .opened pid cliSock remSock)
    (hok : ∀ c ∈ s.conns, c.phase = .remClosed → s.main.key ≠ some c.key)
    (hm' : s'.main = .idle) (hc' : s'.conns = s.conns ++ [⟨pid, cliSock, remSock, .forwarding⟩])
    (hq' : s'.queue = s.queue ++ [⟨s.conns.length, addMsg pid remSock addr addrlen⟩])
    (ht' : s'.table = s.table) : Inv s' := by
  have hunused := h.unused hm hok
  have hfin : s'.final = s.final ++ [(s.conns.length, (pid, (remSock : Int)))] := by
    unfold State.final
    rw [hq', ht', List.map_append, List.map_singleton, serveAll_snoc]
    rfl
  refine ⟨?_, ?_, ?_, ?_, ?_⟩
  · intro d hd
    rw [hq'] at hd
    rcases List.mem_append.mp hd with hq | hnew
    · exact h.cmds d hq
    · rw [List.mem_singleton.mp hnew]
      exact Or.inl rfl
  · rw [hq', ht', List.map_append]
    exact ready_snoc _ h.ready ⟨hunused, trivial⟩
  · intro i k
    rw [hfin, hc', List.mem_append, List.mem_singleton, List.getElem?_append]
    by_cases hi : i < s.conns.length
    · rw [if_pos hi]
      constructor
      · rintro (hold | hnew)
        · exact (h.holds i k).mp hold
        · exact absurd (congrArg Prod.fst hnew) (Nat.ne_of_lt hi)
      · intro hc
        exact Or.inl ((h.holds i k).mpr hc)
    · rw [if_neg hi]
      constructor
      · rintro (hold | hnew)
        · obtain ⟨c, hc, -⟩ := (h.holds i k).mp hold
          exact absurd (List.getElem?_eq_some_iff.mp hc).1 hi
        · cases hnew
          exact ⟨⟨pid, cliSock, remSock, .forwarding⟩, by simp, by simp, rfl⟩
      · rintro ⟨c, hc, -, hk⟩
        have hi0 : i - s.conns.length = 0 := by
          have := (List.getElem?_eq_some_iff.mp hc).1
          simpa using this
        rw [hi0] at hc
        cases hc
        have hin : i = s.conns.length := by omega
        rw [hin, ← hk]
        exact Or.inr rfl
  · rw [hfin, List.map_append, List.map_singleton]
    refine List.Nodup.append h.keys (List.nodup_singleton _) ?_
    intro k hk hk'
    obtain ⟨e, he, hek⟩ := List.mem_map.mp hk
    exact hunused e he (hek.trans (List.mem_singleton.mp hk'))
  · intro pid' cliSock' remSock' hmain
    rw [hm'] at hmain
    cases hmain

/-- Mailing a `REMOVE`: by the distinct keys it takes its sender's entry and no
other out of the final table. -/
theorem sendRemove_inv {s s' : State} {i : Nat} {c : Conn} (h : Inv s)
    (hc : s.conns[i]? = some c) (hp : c.phase = .remClosed) (hm' : s'.main = s.main)
    (hc' : s'.conns = s.conns.set i { c with phase := .removed })
    (hq' : s'.queue = s.queue ++ [⟨i, removeMsg c⟩]) (ht' : s'.table = s.table) : Inv s' := by
  have hfin : s'.final = s.final.filter fun e => e.2 ≠ c.key := by
    unfold State.final
    rw [hq', ht', List.map_append, List.map_singleton, serveAll_snoc]
    rfl
  have hown : (i, c.key) ∈ s.final := (h.holds i c.key).mpr ⟨c, hc, by rw [hp]; simp, rfl⟩
  have hsole : ∀ e ∈ s.final, e.2 = c.key → e = (i, c.key) := by
    intro e he hek
    exact List.inj_on_of_nodup_map h.keys he hown hek
  refine ⟨?_, ?_, ?_, ?_, ?_⟩
  · intro d hd
    rw [hq'] at hd
    rcases List.mem_append.mp hd with hq | hnew
    · exact h.cmds d hq
    · rw [List.mem_singleton.mp hnew]
      exact Or.inr rfl
  · rw [hq', ht', List.map_append]
    exact ready_snoc _ h.ready ⟨fun e he hek => congrArg Prod.fst (hsole e he hek), trivial⟩
  · intro j k
    rw [hfin, hc', List.mem_filter, h.holds j k, getElem?_set_some hc]
    by_cases hji : j = i
    · subst hji
      rw [if_pos rfl, hc]
      constructor
      · rintro ⟨⟨c₁, h₁, -, hk⟩, hne⟩
        cases h₁
        exact absurd hk.symm (by simpa using hne)
      · rintro ⟨c₁, h₁, hr, -⟩
        cases h₁
        exact absurd rfl hr
    · rw [if_neg hji]
      constructor
      · rintro ⟨hj, -⟩
        exact hj
      · intro hj
        refine ⟨hj, ?_⟩
        have hne : k ≠ c.key := by
          intro hk
          exact hji (congrArg Prod.fst (hsole (j, k) ((h.holds j k).mpr hj) hk))
        simpa using hne
  · rw [hfin]
    exact h.keys.sublist (List.Sublist.map _ List.filter_sublist)
  · intro pid cliSock remSock hm c₁ hc₁ hl
    rw [hm'] at hm
    rw [hc'] at hc₁
    rcases List.mem_or_eq_of_mem_set hc₁ with hold | rfl
    · exact h.fresh pid cliSock remSock hm c₁ hold hl
    · simp [Conn.live] at hl

/-- Processing the oldest datagram moves the table towards the final one. -/
theorem process_inv {s s' : State} {env : AddEnv} {d : Dgram} {q : List Dgram} (h : Inv s)
    (hq : s.queue = d :: q) (hm : env.mallocs = true) (hm' : s'.main = s.main)
    (hc' : s'.conns = s.conns) (hq' : s'.queue = q)
    (ht' : s'.table = serveDgram env d s.table) : Inv s' := by
  have hcmd : d.msg.cmd = cmdAdd ∨ d.msg.cmd = cmdRemove :=
    h.cmds d (by rw [hq]; exact List.mem_cons_self ..)
  have hserve : absTable s'.table = serve (absTable s.table) (absReq d) := by
    rw [ht']
    exact serveDgram_abs s.table hcmd hm
  have hfin : s'.final = s.final := by
    unfold State.final
    rw [hserve, hq', hq, List.map_cons, serveAll_cons]
  refine ⟨?_, ?_, ?_, by rw [hfin]; exact h.keys, by rw [hm', hc']; exact h.fresh⟩
  · intro d' hd'
    rw [hq'] at hd'
    exact h.cmds d' (by rw [hq]; exact List.mem_cons_of_mem _ hd')
  · have hr := h.ready
    rw [hq, List.map_cons] at hr
    rw [hserve, hq']
    exact hr.tail
  · intro i k
    rw [hfin, hc']
    exact h.holds i k

/-- One `ok` step preserves the invariant. -/
theorem step_inv {s s' : State} {a : Act} (h : Inv s) (hok : ok s a) (hs : step s a = some s') :
    Inv s' := by
  cases a with
  | openOther =>
    cases hs
    exact h.frame rfl rfl rfl h.fresh
  | closeOther fd =>
    simp only [step] at hs
    split at hs
    next => cases hs; exact h.frame rfl rfl rfl h.fresh
    next => cases hs
  | accept pid =>
    simp only [step] at hs
    split at hs
    next => cases hs; exact h.frame rfl rfl rfl (by intro _ _ _ hm; cases hm)
    next => cases hs
  | reject =>
    simp only [step] at hs
    split at hs
    next => cases hs; exact h.frame rfl rfl rfl (by intro _ _ _ hm; cases hm)
    next => cases hs
  | socket =>
    simp only [step] at hs
    split at hs
    next =>
      cases hs
      refine h.frame rfl rfl rfl ?_
      intro pid cliSock remSock hm c hc hl hrem
      cases hm
      exact lowestFree_not_mem s.openFds (hrem ▸ remSock_mem_openFds hc hl)
    next => cases hs
  | connectFails =>
    simp only [step] at hs
    split at hs
    next => cases hs; exact h.frame rfl rfl rfl (by intro _ _ _ hm; cases hm)
    next => cases hs
  | sendAdd addr addrlen =>
    simp only [step] at hs
    split at hs
    next pid cliSock remSock hm =>
      cases hs
      exact sendAdd_inv h hm hok rfl rfl rfl rfl
    next => cases hs
  | closeCli i => exact advance_inv h (Or.inl rfl) (by simp) hs
  | closeRem i => exact advance_inv h (Or.inr rfl) (by simp) hs
  | sendRemove i =>
    simp only [step] at hs
    split at hs
    next => cases hs
    next c hc =>
      split at hs
      next hp => cases hs; exact sendRemove_inv h hc hp rfl rfl rfl rfl
      next => cases hs
  | process env =>
    simp only [step] at hs
    split at hs
    next => cases hs
    next d q hq => cases hs; exact process_inv h hq hok rfl rfl rfl rfl

/-! ## Agreement of table and connections -/

theorem Inv.agree {s : State} (h : Inv s) : Agree s := by
  intro i c hc hl hpend
  have hnr : c.phase ≠ .removed := by
    intro hp
    rw [Conn.live, hp] at hl
    simp at hl
  have hno : ∀ k, Req.add i k ∉ s.queue.map absReq := by
    intro k hk
    obtain ⟨d, hd, hdk⟩ := List.mem_map.mp hk
    unfold absReq at hdk
    split at hdk
    next hcmd =>
      cases hdk
      have hall := List.any_eq_false.mp hpend d hd
      simp [hcmd] at hall
    next => cases hdk
  have hsole := sole_entry hno h.keys ((h.holds i c.key).mpr ⟨c, hc, hnr, rfl⟩)
  -- the entries `owners` counts are the ones the reduced table has under the key
  have hown : s.owners c.key
      = ((absTable s.table).filter fun e => e.2 = c.key).map Prod.fst := by
    unfold State.owners absTable
    rw [List.filter_map, List.map_map]
    refine congrArg _ (List.filter_congr fun e _ => ?_)
    have hiff := hasKey_iff (c := e.2) (k := c.key)
    by_cases hk : (e.2.appID, e.2.sockfd) = c.key
    · simp [hiff.mpr hk, hk]
    · simp [Bool.eq_false_iff.mpr (mt hiff.mp hk), hk]
  rw [hown, hsole]
  rfl

theorem Inv.removeOwn {s : State} (h : Inv s) : RemoveOwn s := by
  intro d q hq hcmd e he hk
  have hr := h.ready
  have hreq : absReq d = .del d.sender (d.msg.pid, d.msg.sockfd) := by
    unfold absReq
    rw [if_neg (by rw [hcmd]; decide)]
  rw [hq, List.map_cons, hreq] at hr
  have hmem : (e.1, (e.2.appID, e.2.sockfd)) ∈ absTable s.table := List.mem_map_of_mem he
  exact hr.1 _ hmem (hasKey_iff.mp hk)

/-- **Table agreement.** However the SOCKS main thread, the forwarding threads and
the connection manager interleave, and whatever pids the clients have: as long as
no `ADD` goes out while a connection with the same key is between `close(rem_sock)`
and its `REMOVE` (and memory lasts), every live connection whose `ADD` has been
processed has exactly one entry, its own, and a `REMOVE` deletes nothing but its
sender's entry. -/
theorem agree_of_run (others : List Nat) (as : List Act) {s : State}
    (hok : Meets step ok (init others) as) (hr : run step (init others) as = some s) :
    Agree s ∧ RemoveOwn s := by
  have hinv : Inv s := run_inv step_inv as (init_inv others) hok hr
  exact ⟨hinv.agree, hinv.removeOwn⟩

/-- An `add_connection` that finds memory and the application's path. -/
def plainEnv : AddEnv := ⟨true, true, true, some "/usr/bin/vlc", fun _ => 0⟩

/-- One client's connection over descriptors 3 and 4, and the next client (of the
same application) over the same descriptors once the first `REMOVE` is out. -/
def twoClients : List Act :=
  [.accept 7, .socket, .sendAdd [] 0, .process plainEnv, .closeCli 0, .closeRem 0, .sendRemove 0,
   .accept 7, .socket, .sendAdd [] 0, .process plainEnv, .process plainEnv]

theorem agree_of_run_twoClients :
    ∃ s, run step (init [0, 1, 2]) twoClients = some s ∧ (Agree s ∧ RemoveOwn s) ∧
      s.owners (7, 4) = [1] :=
  ⟨_, rfl, agree_of_run [0, 1, 2] twoClients (by decide) rfl, by decide⟩

/-- The same two clients, but the second `ADD` overtakes the first `REMOVE`. -/
def recycled : List Act :=
  [.accept 7, .socket, .sendAdd [] 0, .process plainEnv, .closeCli 0, .closeRem 0,
   .accept 7, .socket, .sendAdd [] 0, .sendRemove 0, .process plainEnv, .process plainEnv]

/-- **A recycled descriptor loses the entry.** The first connection closes
descriptor 4, the kernel hands it to the next client of the same application, and
the late `REMOVE` deletes both entries: the live connection has none. -/
theorem recycled_descriptor_loses_entry :
    ∃ s, run step (init [0, 1, 2]) recycled = some s ∧ ¬ Agree s := by
  refine ⟨_, rfl, ?_⟩
  intro h
  have hown := h 1 ⟨7, 3, 4, .forwarding⟩ rfl rfl rfl
  exact absurd hown (by decide)

end Manhattan.Sined.SocksTable
