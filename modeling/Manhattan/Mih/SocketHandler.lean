/-!
# The MIH user's side of the network manager (`mih_usr.cpp`)

The MIH user knows which links are up and talks to the two mobility daemons. Its
`socket_handler` takes one datagram at a time: `e` asks whether a link exists, `h`
and `m` set the interface of the HIP and of the Mobile IPv6 daemon, `g` confirms a
HIP interface. The first byte is the command, the name starts at the third.

The handler calls `send_hipd` and `send_mip6d` and drops what they return: `h`, `g`
and `m` are answered `ack` whatever became of the daemon call. A daemon call takes
time, the HIP one ten seconds at most, and the handler serves nobody else
meanwhile.

Mirroring notes:
- The remaining commands of the `switch` (`i`, `c`, `b`, and `r`, `d` of the event
  socket) are never sent by `netmgr_send_info`; they are the job `other`, without
  a reply on this socket.
- Times are milliseconds; `none` is a call that never returns.
- A query that fits `sined`'s buffer of 32 bytes fits the handler's of 256, so the
  latter is not modelled.
-/

namespace Manhattan.Mih

/-- `mih_user::exist_link` over the names of the links the MIH user has. -/
def existLink : List String → String → Bool
  | [], _ => false
  | name :: links, ifname => if name = ifname then true else existLink links ifname

theorem existLink_iff (links : List String) (ifname : String) :
    existLink links ifname = true ↔ ifname ∈ links := by
  induction links with
  | nil => exact ⟨(fun h => nomatch h), fun h => nomatch h⟩
  | cons name links ih =>
    unfold existLink
    by_cases h : name = ifname
    · rw [if_pos h, h]
      exact ⟨fun _ => List.mem_cons_self, fun _ => rfl⟩
    · rw [if_neg h, ih, List.mem_cons]
      exact ⟨Or.inr, fun h' => h'.resolve_left fun e => h e.symm⟩

/-- The interface named to a daemon (`"pref "` and this): a tunnel stands in for
the point-to-point links. -/
def prefTarget (arg : List Char) : String :=
  match arg with
  | 'p' :: 'p' :: 'p' :: _ => "sixxs"
  | _ => String.ofList arg

/-- What the `switch` of `socket_handler` does with a message. -/
inductive Job where
  | exist (ifname : String)
  | hip (target : String)
  | confirm
  | mip (target : String)
  | other
  deriving DecidableEq, Repr

/-- The `switch`, over the text of a message. The terminator is sent with it, so the
test `len < 3` asks for a command and the byte behind it: a text that lacks one of them
matches no pattern and is ignored like the other commands. -/
def job (buf : List Char) : Job :=
  match buf with
  | 'e' :: _ :: arg => .exist (String.ofList arg)
  | 'h' :: _ :: arg => .hip (prefTarget arg)
  | 'g' :: _ :: _ => .confirm
  | 'm' :: _ :: arg => .mip (prefTarget arg)
  | _ => .other

/-- The text the handler sends back. -/
def Job.reply (links : List String) : Job → Option String
  | .exist ifname => some (if existLink links ifname then "up" else "down")
  | .hip _ => some "ack"
  | .confirm => some "ack"
  | .mip _ => some "ack"
  | .other => none

/-! ## The daemon calls -/

/-- What became of a daemon call: its return value, how long it took, and whether
the daemon took the command over as its preference. -/
structure Called where
  ret : Int
  elapsed : Option Nat
  accepted : Bool
  deriving DecidableEq, Repr

/-- The receive timeout of `send_hipd`, ten seconds. -/
def hipdTimeout : Nat := 10000

/-- What `send_hipd` meets: its own system calls, a datagram to the daemon, the
daemon's decision and its answer, after some time or not at all. -/
structure HipdEnv where
  socketOk : Bool
  setsockoptOk : Bool
  sendtoOk : Bool
  delivered : Bool
  accepts : Bool
  answer : Option Nat
  deriving DecidableEq, Repr

/-- `send_hipd`. The answer's text is only logged: a refusal returns 0 as well. -/
def sendHipd (env : HipdEnv) : Called :=
  if !env.socketOk then ⟨-1, some 0, false⟩
  else if !env.setsockoptOk then ⟨-1, some 0, false⟩
  else if !env.sendtoOk then ⟨-1, some 0, false⟩
  else
    match env.answer with
    | some t =>
      if t < hipdTimeout then ⟨0, some t, env.delivered && env.accepts⟩
      else ⟨-1, some hipdTimeout, env.delivered && env.accepts⟩
    | none => ⟨-1, some hipdTimeout, env.delivered && env.accepts⟩

/-- What `send_mip6d` meets on its TCP connection. `greeting` and `answer` are its
two `read` calls, which have no timeout; `answer` says whether the second one
succeeds. -/
structure Mip6dEnv where
  socketOk : Bool
  connectOk : Bool
  greeting : Option Nat
  writeOk : Bool
  accepts : Bool
  answer : Option (Nat × Bool)
  deriving DecidableEq, Repr

/-- `send_mip6d` -/
def sendMip6d (env : Mip6dEnv) : Called :=
  if !env.socketOk then ⟨-1, some 0, false⟩
  else if !env.connectOk then ⟨-1, some 0, false⟩
  else
    match env.greeting with
    | none => ⟨-1, none, false⟩
    | some t₁ =>
      if !env.writeOk then ⟨-1, some t₁, false⟩
      else
        match env.answer with
        | none => ⟨-1, none, env.accepts⟩
        | some (t₂, readOk) => ⟨if readOk then 0 else -1, some (t₁ + t₂), env.accepts⟩

end Manhattan.Mih
