import Manhattan.Lib.Roster
import Manhattan.Lib.Udp

/-!
# The location manager (`locationMgr.cpp`)

One thread, `query_handler`, serves a datagram socket: `r` registers the sender for
notifications, `d` deregisters it, `q` asks for the location. The other, `main`, reads the
location from the keyboard and tells everyone on the list.

A client is its whole address, but only its port is compared: a second client with the
port of a registered one is told `nak`, and a `d` from any address with that port takes
the first one off the list.

Mirroring notes:
- `new client_info` is never deleted; the list holds copies, and only those are modelled.
- A `sendto` that fails is logged and changes nothing; the model records what was handed
  to it.
- `main` walks the vector without a lock. Here a walk is one step, between two datagrams.
-/

namespace Manhattan.Middleware.LocationMgr

open Manhattan.Lib

/-- `class client_info`; `addr_len` is the size of its address. -/
structure ClientInfo where
  cliAddr : SockAddr
  deriving DecidableEq, Repr

def ClientInfo.getPort (client : ClientInfo) : UInt16 := client.cliAddr.port

def ClientInfo.sendMsg (msg : String) (client : ClientInfo) : Packet := ⟨client.cliAddr, msg⟩

structure State where
  applist : List ClientInfo
  loc : String
  deriving DecidableEq, Repr

def init : State := ⟨[], "columbia"⟩

/-- The `switch` of `query_handler`, with what it sends. -/
def queryHandler (s : State) (d : Datagram) : State × List Packet :=
  match d.buf with
  | [] => (s, [])
  | 'r' :: _ =>
    let client : ClientInfo := ⟨d.src⟩
    if s.applist.any fun it => it.getPort = client.getPort then (s, [⟨d.src, "nak"⟩])
    else ({ s with applist := s.applist ++ [client] }, [⟨d.src, "ack"⟩])
  | 'd' :: _ =>
    let portno := d.src.port
    ({ s with applist := s.applist.eraseP fun it => it.getPort = portno }, [⟨d.src, "ack"⟩])
  | 'q' :: _ => (s, [⟨d.src, s.loc⟩])
  | _ => (s, [])

/-- The loop body of `main`: the new location, and the broadcast. -/
def changeLocation (s : State) (input : String) : State × List Packet :=
  ({ s with loc := input }, s.applist.map (·.sendMsg ""))

inductive Input where
  | datagram (d : Datagram)
  | line (input : String)
  deriving DecidableEq, Repr

def step (s : State) : Input → State × List Packet
  | .datagram d => queryHandler s d
  | .line input => changeLocation s input

def State.ports (s : State) : List UInt16 := s.applist.map (·.getPort)

/-! ## The ports are a roster -/

/-- What a message says about its sender's port. -/
def move (d : Datagram) : Option (Move UInt16) :=
  match d.buf with
  | 'r' :: _ => some (.join d.src.port)
  | 'd' :: _ => some (.leave d.src.port)
  | _ => none

theorem queryHandler_register {d : Datagram} {rest : List Char} (hd : d.buf = 'r' :: rest)
    (s : State) :
    queryHandler s d =
      if s.applist.any fun it => it.getPort = d.src.port then (s, [⟨d.src, "nak"⟩])
      else ({ s with applist := s.applist ++ [⟨d.src⟩] }, [⟨d.src, "ack"⟩]) := by
  simp only [queryHandler, hd]
  rfl

theorem queryHandler_deregister {d : Datagram} {rest : List Char} (hd : d.buf = 'd' :: rest)
    (s : State) :
    queryHandler s d =
      ({ s with applist := s.applist.eraseP fun it => it.getPort = d.src.port },
        [⟨d.src, "ack"⟩]) := by
  simp only [queryHandler, hd]

theorem queryHandler_other {d : Datagram} (hr : ∀ rest, d.buf ≠ 'r' :: rest)
    (hd : ∀ rest, d.buf ≠ 'd' :: rest) (s : State) : (queryHandler s d).1 = s := by
  fun_cases queryHandler s d with
  | case2 _ h => exact absurd h (hr _)
  | case3 _ h => exact absurd h (hr _)
  | case4 _ h => exact absurd h (hd _)
  | _ => rfl

theorem queryHandler_ports (s : State) (d : Datagram) :
    (queryHandler s d).1.ports = ((move d).map (Move.apply s.ports)).getD s.ports := by
  fun_cases move d with
  | case1 rest h =>
    rw [queryHandler_register h]
    refine Eq.trans ?_ (map_join ClientInfo.getPort ⟨d.src⟩ s.applist)
    refine congrArg (List.map ClientInfo.getPort) ?_
    exact apply_ite (fun r : State × List Packet => r.1.applist) _ _ _
  | case2 rest h =>
    rw [queryHandler_deregister h]
    exact map_leave ClientInfo.getPort d.src.port s.applist
  | case3 hr hd =>
    rw [queryHandler_other hr hd]
    rfl

def Input.move : Input → Option (Move UInt16)
  | .datagram d => LocationMgr.move d
  | .line _ => none

theorem step_ports (s : State) (input : Input) :
    (step s input).1.ports = (input.move.map (Move.apply s.ports)).getD s.ports := by
  cases input with
  | datagram d => exact queryHandler_ports s d
  | line input => rfl

/-! ## What a list of clients promises -/

/-- No port twice, and exactly those whose last message was a registration. -/
structure Kept (ports : List UInt16) (moves : List (Move UInt16)) : Prop where
  nodup : ports.Nodup
  mem : ∀ p, p ∈ ports ↔ lastJoins p moves = true

/-- One packet to each of the ports, and none to others. -/
def Notified (ports : List UInt16) (packets : List Packet) : Prop :=
  ∀ p, packets.countP (fun packet => packet.dst.port = p) = if p ∈ ports then 1 else 0

theorem kept_roster (moves : List (Move UInt16)) : Kept (roster moves) moves :=
  ⟨roster_nodup moves, mem_roster moves⟩

theorem notified_of_nodup {applist : List ClientInfo} (h : (applist.map (·.getPort)).Nodup)
    (msg : String) : Notified (applist.map (·.getPort)) (applist.map (·.sendMsg msg)) := by
  intro p
  rw [← h.count, List.count, List.countP_map, List.countP_map]
  refine List.countP_congr fun client _ => ?_
  simp [ClientInfo.sendMsg, ClientInfo.getPort]

/-- Whatever the location manager has received and read, its list is kept and a change of
the location reaches everyone on it once. -/
theorem run_kept (inputs : List Input) :
    Kept (respond step init inputs).1.ports (inputs.filterMap Input.move) ∧
    ∀ input, Notified (respond step init inputs).1.ports
      (step (respond step init inputs).1 (.line input)).2 := by
  have hkept : Kept (respond step init inputs).1.ports (inputs.filterMap Input.move) := by
    rw [respond_roster step_ports inputs rfl]
    exact kept_roster _
  exact ⟨hkept, fun input => notified_of_nodup hkept.nodup ""⟩

end Manhattan.Middleware.LocationMgr
