import Manhattan.Middleware.LocationMgr
import Manhattan.Mih.LinkTable

/-!
# The MIH user's list of applications (`_applist`)

Applications register on the socket of `socket_handler` with `r` and deregister with `d`,
as they do with the location manager; the two programs were written separately.
`link_up` of a link that is not on the list of links, and `link_down` of one that is, send
every application an empty message.

`services_agree` says that the two services are one: the same answers and the same list
after the same messages, no port twice, a port on the list exactly if it registered last,
and one message to each port when something changes.

Mirroring notes:
- `client_info` is the location manager's class with a request type that these functions
  do not read.
- The other commands of `socket_handler` are those of `SocketHandler`; none touches the
  list. The answers to `i`, `c` and `b` are sent later, by the thread of the MIH user.
- The link events come in on another thread. Here an event is one step, between two
  datagrams.
-/

namespace Manhattan.Mih.Registration

open Manhattan.Lib
open Manhattan.Middleware
open Manhattan.Middleware.LocationMgr (ClientInfo Kept Notified)
open LinkTable (Naming LinkInfo Event)

structure State (L : Type) where
  applist : List ClientInfo
  lnks : List (LinkInfo L)

def init (L : Type) : State L := ⟨[], []⟩

/-- `mih_user::register_app` -/
def registerApp (client : ClientInfo) (applist : List ClientInfo) : Bool × List ClientInfo :=
  if applist.any fun it => it.getPort = client.getPort then (false, applist)
  else (true, applist ++ [client])

/-- `mih_user::deregister_app` -/
def deregisterApp (portno : UInt16) (applist : List ClientInfo) : Bool × List ClientInfo :=
  (true, applist.eraseP fun it => it.getPort = portno)

section

variable {L : Type}

/-- What `socket_handler` does with a datagram, and what it sends. -/
def socketHandler (s : State L) (d : Datagram) : State L × List Packet :=
  match d.buf with
  | [] => (s, [])
  | 'r' :: _ =>
    let (ok, applist) := registerApp ⟨d.src⟩ s.applist
    ({ s with applist }, [⟨d.src, if ok then "ack" else "nak"⟩])
  | 'd' :: _ =>
    let (ok, applist) := deregisterApp d.src.port s.applist
    ({ s with applist }, [⟨d.src, if ok then "ack" else "nak"⟩])
  | buf => (s, ((job buf).reply (s.lnks.map (·.ifname))).toList.map fun text => ⟨d.src, text⟩)

def State.ports (s : State L) : List UInt16 := s.applist.map (·.getPort)

/-! ## The ports are a roster here too -/

theorem socketHandler_register {d : Datagram} {rest : List Char} (hd : d.buf = 'r' :: rest)
    (s : State L) :
    socketHandler s d =
      if s.applist.any fun it => it.getPort = d.src.port then (s, [⟨d.src, "nak"⟩])
      else ({ s with applist := s.applist ++ [⟨d.src⟩] }, [⟨d.src, "ack"⟩]) := by
  by_cases h : (s.applist.any fun it => it.getPort = d.src.port) = true
  · have hreg : registerApp ⟨d.src⟩ s.applist = (false, s.applist) := if_pos h
    rw [if_pos h]
    simp only [socketHandler, hd, hreg]
    rfl
  · have hreg : registerApp ⟨d.src⟩ s.applist = (true, s.applist ++ [⟨d.src⟩]) := if_neg h
    rw [if_neg h]
    simp only [socketHandler, hd, hreg]
    rfl

theorem socketHandler_deregister {d : Datagram} {rest : List Char} (hd : d.buf = 'd' :: rest)
    (s : State L) :
    socketHandler s d =
      ({ s with applist := s.applist.eraseP fun it => it.getPort = d.src.port },
        [⟨d.src, "ack"⟩]) := by
  simp only [socketHandler, hd, deregisterApp]
  rfl

theorem socketHandler_other {d : Datagram} (hr : ∀ rest, d.buf ≠ 'r' :: rest)
    (hd : ∀ rest, d.buf ≠ 'd' :: rest) (s : State L) : (socketHandler s d).1 = s := by
  fun_cases socketHandler s d with
  | case2 _ h => exact absurd h (hr _)
  | case3 _ h => exact absurd h (hd _)
  | _ => rfl

/-- A registration or a deregistration gets the same answer from both, and both lists
change alike. -/
theorem handlers_agree {d : Datagram} (hd : (LocationMgr.move d).isSome)
    {s : LocationMgr.State} {t : State L} (h : s.applist = t.applist) :
    (LocationMgr.queryHandler s d).2 = (socketHandler t d).2 ∧
    (LocationMgr.queryHandler s d).1.applist = (socketHandler t d).1.applist := by
  revert hd
  fun_cases LocationMgr.move d with
  | case1 rest hbuf =>
    intro _
    rw [LocationMgr.queryHandler_register hbuf, socketHandler_register hbuf, h]
    split
    case isTrue => exact ⟨rfl, h⟩
    case isFalse => exact ⟨rfl, rfl⟩
  | case2 rest hbuf =>
    intro _
    rw [LocationMgr.queryHandler_deregister hbuf, socketHandler_deregister hbuf, h]
    exact ⟨rfl, rfl⟩
  | case3 =>
    intro hd
    cases hd

/-- The list changes as the location manager's would. -/
theorem socketHandler_ports (s : State L) (d : Datagram) :
    (socketHandler s d).1.ports =
      ((LocationMgr.move d).map (Move.apply s.ports)).getD s.ports := by
  let twin : LocationMgr.State := ⟨s.applist, ""⟩
  cases hmove : LocationMgr.move d with
  | some m =>
    have hsome : (LocationMgr.move d).isSome := hmove ▸ rfl
    have hlist := (handlers_agree (s := twin) (t := s) hsome rfl).2
    have hports := LocationMgr.queryHandler_ports twin d
    rw [hmove] at hports
    exact (congrArg (List.map ClientInfo.getPort) hlist).symm.trans hports
  | none =>
    have hsame : (socketHandler s d).1 = s := by
      refine socketHandler_other (fun rest hr => ?_) (fun rest hd => ?_) s
      · simp [LocationMgr.move, hr] at hmove
      · simp [LocationMgr.move, hd] at hmove
    rw [hsame]
    rfl

/-! ## Events -/

variable [DecidableEq L]

/-- The link is on the list. -/
def known (lid : L) (s : State L) : Bool := s.lnks.any fun e => e.lid = lid

def notifyAll (s : State L) : List Packet := s.applist.map (·.sendMsg "")

/-- The events that change the list of links, with what they send. -/
def eventHandler (name : Naming L) (s : State L) : Event L → State L × List Packet
  | .discover ntal evt =>
    ({ s with lnks := LinkTable.capabilityDiscoverConfirm name ntal evt s.lnks }, [])
  | .linkUp lid found =>
    ({ s with lnks := LinkTable.linkUp name lid found s.lnks },
      if known lid s then [] else notifyAll s)
  | .linkDown lid =>
    ({ s with lnks := LinkTable.linkDown lid s.lnks }, if known lid s then notifyAll s else [])
  | .other => (s, [])

inductive Input (L : Type) where
  | datagram (d : Datagram)
  | event (event : Event L)

def step (name : Naming L) (s : State L) : Input L → State L × List Packet
  | .datagram d => socketHandler s d
  | .event event => eventHandler name s event

def Input.move : Input L → Option (Move UInt16)
  | .datagram d => LocationMgr.move d
  | .event _ => none

theorem step_ports (name : Naming L) (s : State L) (input : Input L) :
    (step name s input).1.ports = (input.move.map (Move.apply s.ports)).getD s.ports := by
  cases input with
  | datagram d => exact socketHandler_ports s d
  | event event => cases event <;> rfl

/-- A new link that comes up, and a known one that goes down, are told to everyone. -/
def Announces (name : Naming L) (s : State L) : Prop :=
  ∀ lid, (known lid s = false →
      ∀ found, Notified s.ports (step name s (.event (.linkUp lid found))).2) ∧
    (known lid s = true → Notified s.ports (step name s (.event (.linkDown lid))).2)

theorem announces_of_nodup (name : Naming L) {s : State L} (h : s.ports.Nodup) :
    Announces name s := by
  have hall : Notified s.ports (notifyAll s) :=
    LocationMgr.notified_of_nodup h ""
  intro lid
  constructor
  · intro hknown found
    show Notified s.ports (if known lid s then [] else notifyAll s)
    rw [hknown]
    exact hall
  · intro hknown
    show Notified s.ports (if known lid s then notifyAll s else [])
    rw [hknown]
    exact hall

theorem run_kept (name : Naming L) (inputs : List (Input L)) :
    Kept (respond (step name) (init L) inputs).1.ports (inputs.filterMap Input.move) ∧
    Announces name (respond (step name) (init L) inputs).1 := by
  have hkept : Kept (respond (step name) (init L) inputs).1.ports
      (inputs.filterMap Input.move) := by
    rw [respond_roster (step_ports name) inputs rfl]
    exact LocationMgr.kept_roster _
  exact ⟨hkept, announces_of_nodup name hkept.nodup⟩

/-! ## The two services -/

/-- The same answers, message by message, and the same clients in the end. -/
def Agree (L : Type) (msgs : List Datagram) : Prop :=
  (respond LocationMgr.queryHandler LocationMgr.init msgs).2 =
    (respond socketHandler (init L) msgs).2 ∧
  (respond LocationMgr.queryHandler LocationMgr.init msgs).1.applist =
    (respond socketHandler (init L) msgs).1.applist

/-- What the location manager has promised after these inputs. -/
def LocationKept (inputs : List LocationMgr.Input) : Prop :=
  let s := (respond LocationMgr.step LocationMgr.init inputs).1
  Kept s.ports (inputs.filterMap LocationMgr.Input.move) ∧
  ∀ input, Notified s.ports (LocationMgr.step s (.line input)).2

/-- What the MIH user has promised after these inputs. -/
def MihKept (name : Naming L) (inputs : List (Input L)) : Prop :=
  let s := (respond (step name) (init L) inputs).1
  Kept s.ports (inputs.filterMap Input.move) ∧ Announces name s

/-- **The two registration services are one.** After any registrations and
deregistrations they have sent the same answers and hold the same clients; and in every
state either can reach, with whatever else it serves, no port is twice on the list, a port
is on it exactly if it registered last, and a change is told once to each of them. -/
theorem services_agree (name : Naming L) (msgs : List Datagram)
    (hmsgs : ∀ d ∈ msgs, (LocationMgr.move d).isSome)
    (inputs : List LocationMgr.Input) (inputs' : List (Input L)) :
    Agree L msgs ∧ LocationKept inputs ∧ MihKept name inputs' := by
  refine ⟨?_, LocationMgr.run_kept inputs, run_kept name inputs'⟩
  exact respond_rel (R := fun (s : LocationMgr.State) (t : State L) =>
    s.applist = t.applist) (fun hd h => handlers_agree hd h) msgs hmsgs rfl

/-- Two clients register, one of them twice; it leaves, and the port that never
registered is told `ack` too. -/
def fiveMessages : List Datagram :=
  [⟨⟨1, 5000⟩, ['r']⟩, ⟨⟨2, 5000⟩, ['r', ' ', '1']⟩, ⟨⟨1, 5001⟩, ['r']⟩, ⟨⟨1, 5000⟩, ['d']⟩,
   ⟨⟨1, 5002⟩, ['d']⟩]

theorem services_agree_fiveMessages :
    (∀ d ∈ fiveMessages, (LocationMgr.move d).isSome) ∧ Agree Nat fiveMessages ∧
    LocationKept (fiveMessages.map .datagram) ∧
    MihKept (fun _ : Nat => ⟨"eth0", by decide⟩)
      (.event (.linkUp 1 true) :: fiveMessages.map .datagram) ∧
    (respond socketHandler (init Nat) fiveMessages).1.applist = [⟨⟨1, 5001⟩⟩] :=
  have hmsgs : ∀ d ∈ fiveMessages, (LocationMgr.move d).isSome := by decide
  have hall := services_agree (fun _ : Nat => ⟨"eth0", by decide⟩) fiveMessages hmsgs
    (fiveMessages.map .datagram) (.event (.linkUp 1 true) :: fiveMessages.map .datagram)
  ⟨hmsgs, hall.1, hall.2.1, hall.2.2, by decide⟩

end

end Manhattan.Mih.Registration
