import Manhattan.Lib.Buffer
import Manhattan.Sined.Handshake

/-!
# The answer to a SOCKS request (`socks_establish`, second half)

After the method selection the server receives the request, finds the address to
connect to, connects, answers and hands both sockets to a thread that runs
`forward_loop`. Every check that fails jumps to the label `error:`, which closes the
sockets and says nothing to the client. The reply is the request with its second byte
(the command) overwritten by the reply code, and it is as long as what was received.

Mirroring notes:
- `Env` is what the system calls answer. `connect` and `getaddrinfo` answer for the
  address they are given.
- `Effect` is what a request leads to, in its order; `send` is one call with the reply,
  whatever it returns.
- An address is written as a `Target` that is not a name.
- A name in brackets that is shorter than them (see `Handshake`), and a write through
  the null pointer of a failed `malloc`, are `undefined`.
- `forward_loop` closes both sockets and sends the `REMOVE` when it ends; here it is
  `forward`, the thread that was started.

`answered_iff` is the exact condition under which a request is answered once and
nothing is left behind.
-/

namespace Manhattan.Sined.Reply

open Manhattan.Lib Manhattan.Sined.Handshake

/-- The codes `SOCKS_REP_…` that the server uses. -/
def repSucceeded : UInt8 := 0

def repGeneralFailure : UInt8 := 1

def repNetworkUnreachable : UInt8 := 3

def repHostUnreachable : UInt8 := 4

def repConnectionRefused : UInt8 := 5

def repCmdNotSupported : UInt8 := 7

def repAtypNotSupported : UInt8 := 8

/-- The `errno` of a failed `connect`. -/
inductive Errno where
  | enetunreach | etimedout | econnrefused | other
  deriving DecidableEq, Repr

def Errno.reply : Errno → UInt8
  | .enetunreach => repNetworkUnreachable
  | .etimedout => repHostUnreachable
  | .econnrefused => repConnectionRefused
  | .other => repGeneralFailure

/-- One result of `getaddrinfo`, by its `ai_family`. -/
inductive AddrInfo where
  | inet (addr : List UInt8) (port : Nat)
  | inet6 (addr : List UInt8) (port flowinfo scopeId : Nat)
  | other
  deriving DecidableEq, Repr

/-- What the system calls answer. -/
structure Env where
  /-- `none` where the name cannot be resolved. -/
  getaddrinfo : List UInt8 → Nat → Option (List AddrInfo)
  /-- Whether `socket` returns a descriptor. -/
  socket : Bool
  /-- `none` where the connection is established. -/
  connect : Target → Option Errno
  send : Int
  malloc : Bool
  /-- Whether the connection manager gets the `ADD`. -/
  conmgr : Bool
  pthreadCreate : Bool

inductive Effect where
  | socket
  | connect (dst : Target) (established : Bool)
  | send (msg : List UInt8)
  | add (dst : Target)
  | forward
  | closeRem
  | closeCli
  | undefined
  deriving DecidableEq, Repr

/-- Why the server does not get to the reply. -/
inductive Stop where
  | error | undefined
  deriving DecidableEq, Repr

/-- The target of a request by its address type; `none` for an unknown type. -/
def requestTarget (q v6 : Mem) : Except Stop (Option Target) :=
  if q 3 = atypIpv4 then .ok (some (.sockaddrIn (slice q 4 4) (u16be q 8)))
  else if q 3 = atypDomain then
    match domainTarget q with
    | some target => .ok (some target)
    | none => .error .undefined
  else if q 3 = atypIpv6 then
    .ok (some (.sockaddrIn6 (slice q 4 16) (u16be q 20) (u32le v6 4) (u32le v6 24)))
  else .ok none

/-- The loop over the results: the first of a family the server knows. -/
def firstUsable : List AddrInfo → Option Target
  | [] => none
  | .inet addr port :: _ => some (.sockaddrIn addr port)
  | .inet6 addr port flowinfo scopeId :: _ => some (.sockaddrIn6 addr port flowinfo scopeId)
  | .other :: rest => firstUsable rest

/-- A name is looked up; an address is taken as it is. -/
def resolve (env : Env) : Target → Except Stop (Option Target)
  | .name node service =>
    match env.getaddrinfo node service with
    | none => .error .error
    | some result => .ok (firstUsable result)
  | target => .ok (some target)

/-- `rem_addr_ptr` after the `switch`; `none` is the null pointer. -/
def remoteAddr (env : Env) (q v6 : Mem) : Except Stop (Option Target) :=
  match requestTarget q v6 with
  | .ok (some target) => resolve env target
  | r => r

/-- The part "set reply": the reply code, and what was done for it. -/
def setReply (env : Env) (q : Mem) : Option Target → UInt8 × List Effect
  | none => (repAtypNotSupported, [])
  | some dst =>
    if q 1 ≠ cmdConnect then (repCmdNotSupported, [])
    else if !env.socket then (repGeneralFailure, [])
    else
      match env.connect dst with
      | some errno => (errno.reply, [.socket, .connect dst false])
      | none => (repSucceeded, [.socket, .connect dst true])

/-- The reply: the bytes received, with the code in the place of the command. -/
def replyMsg (q : Mem) (len : Nat) (code : UInt8) : List UInt8 := (slice q 0 len).set 1 code

/-- The label `error:`. -/
def errorExit (remSock : Bool) : List Effect :=
  (if remSock then [.closeRem] else []) ++ [.closeCli]

/-- From the check of `send` on. -/
def afterReply (env : Env) (len : Nat) (dst : Option Target) (code : UInt8) (remSock : Bool) :
    List Effect :=
  if env.send ≠ len then errorExit remSock
  else if code = repSucceeded then
    if !env.malloc then [.undefined]
    else (if env.conmgr then dst.toList.map .add else []) ++
      -- the return value of `pthread_create` is not looked at
      (if env.pthreadCreate then [.forward] else [])
  else errorExit remSock

/-- `socks_establish`, from the `recv` of the request on. -/
def serveClient (env : Env) (st : Stack) (recv : List UInt8) : List Effect :=
  if recv = [] then errorExit false
  else
    let q := overlay recv st.socksReq
    if q 0 ≠ socksV5 then errorExit false
    else
      match remoteAddr env q st.remAddrV6 with
      | .error .error => errorExit false
      | .error .undefined => [.undefined]
      | .ok dst =>
        let (code, connecting) := setReply env q dst
        connecting ++ .send (replyMsg q recv.length code) ::
          afterReply env recv.length dst code (Effect.socket ∈ connecting)

/-! ## What a client may rely on -/

/-- The request is answered: one reply with a reply code goes out before `cli_sock` is
closed or given away, and the code is `SUCCEEDED` exactly if the connection stands. -/
def Answered (effects : List Effect) : Prop :=
  ∃ pre msg code post, effects = pre ++ .send msg :: post ∧
    (∀ msg', .send msg' ∉ pre ++ post) ∧ .closeCli ∉ pre ∧ .forward ∉ pre ∧
    msg[1]? = some code ∧ code ≤ repAtypNotSupported ∧
    (code = repSucceeded ↔ ∃ dst, .connect dst true ∈ effects)

/-- Nothing is left behind where no thread takes over: the sockets are closed, and the
connection manager has got no `ADD`. -/
def Released (effects : List Effect) : Prop :=
  .forward ∉ effects → .closeCli ∈ effects ∧ (.socket ∈ effects → .closeRem ∈ effects) ∧
    ∀ dst, .add dst ∉ effects

/-- The connection is established. -/
def Connected (env : Env) (q : Mem) (dst : Option Target) : Prop :=
  q 1 = cmdConnect ∧ env.socket = true ∧ ∃ target, dst = some target ∧ env.connect target = none

/-- The request has a version and a command, its name (if it has one) can be looked up,
and if the client was told of a connection there is a thread for it. -/
def Servable (env : Env) (st : Stack) (recv : List UInt8) : Prop :=
  let q := overlay recv st.socksReq
  q 0 = socksV5 ∧ 2 ≤ recv.length ∧ ∃ dst, remoteAddr env q st.remAddrV6 = .ok dst ∧
    (Connected env q dst → env.send = recv.length →
      env.malloc = true ∧ env.pthreadCreate = true)

/-! ## The steps -/

/-- The two halves of `socks_establish` read a request alike. -/
theorem serveRequest_eq {q : Mem} (v6 : Mem) (hver : q 0 = socksV5) :
    serveRequest q v6 = match requestTarget q v6 with
      | .ok (some target) => replyTo q target
      | .ok none => .atypNotSupported
      | .error _ => .undefined := by
  unfold serveRequest requestTarget
  rw [if_neg (fun hne => hne hver)]
  split
  · rfl
  split
  · cases domainTarget q <;> rfl
  split <;> rfl

theorem reply_ne_succeeded (errno : Errno) : errno.reply ≠ repSucceeded := by
  cases errno <;> decide

/-- What is done for the reply: a socket is opened and connected, at most. -/
theorem setReply_connecting (env : Env) (q : Mem) (dst : Option Target) :
    ∀ e ∈ (setReply env q dst).2,
      e = .socket ∨ ∃ target established, e = .connect target established := by
  intro e he
  unfold setReply at he
  split at he
  · cases he
  split at he
  · cases he
  split at he
  · cases he
  split at he
  all_goals
    rcases List.mem_cons.mp he with rfl | he
    · exact Or.inl rfl
    · exact Or.inr ⟨_, _, List.mem_singleton.mp he⟩

theorem not_mem_connecting {env : Env} {q : Mem} {dst : Option Target} {e : Effect}
    (hsocket : e ≠ .socket) (hconnect : ∀ target established, e ≠ .connect target established) :
    e ∉ (setReply env q dst).2 := by
  intro he
  rcases setReply_connecting env q dst e he with h | ⟨target, established, h⟩
  · exact hsocket h
  · exact hconnect target established h

theorem setReply_le (env : Env) (q : Mem) (dst : Option Target) :
    (setReply env q dst).1 ≤ repAtypNotSupported := by
  unfold setReply
  split
  · exact UInt8.le_refl _
  split
  · exact show repCmdNotSupported ≤ repAtypNotSupported by decide
  split
  · exact show repGeneralFailure ≤ repAtypNotSupported by decide
  split
  · rename_i errno _
    cases errno <;> exact of_decide_eq_true rfl
  · exact show repSucceeded ≤ repAtypNotSupported by decide

/-- The code is `SUCCEEDED`, and `connect` has succeeded, exactly if the connection is
established. -/
theorem setReply_code (env : Env) (q : Mem) (dst : Option Target) :
    ((setReply env q dst).1 = repSucceeded ↔ Connected env q dst) ∧
      ((∃ target, .connect target true ∈ (setReply env q dst).2) ↔ Connected env q dst) := by
  unfold setReply Connected
  cases dst with
  | none => exact ⟨by simp [repAtypNotSupported, repSucceeded], by simp⟩
  | some dst =>
    by_cases hcmd : q 1 = cmdConnect
    · cases hsock : env.socket with
      | false => exact ⟨by simp [hcmd, repGeneralFailure, repSucceeded], by simp [hcmd]⟩
      | true =>
        cases hconn : env.connect dst with
        | none => exact ⟨by simp [hcmd, hconn], by simp [hcmd, hconn]⟩
        | some errno =>
          exact ⟨by simp [hcmd, hconn, reply_ne_succeeded], by simp [hcmd, hconn]⟩
    · exact ⟨by simp [hcmd, repCmdNotSupported, repSucceeded], by simp [hcmd]⟩

theorem mem_errorExit {remSock : Bool} {e : Effect} :
    e ∈ errorExit remSock ↔ (remSock = true ∧ e = .closeRem) ∨ e = .closeCli := by
  unfold errorExit
  cases remSock <;> simp

/-- After the reply there is no other, and nothing is opened or connected. -/
theorem afterReply_quiet {env : Env} {len : Nat} {dst : Option Target} {code : UInt8}
    {remSock : Bool} {e : Effect} (he : e ∈ afterReply env len dst code remSock) :
    (∀ msg, e ≠ .send msg) ∧ e ≠ .socket ∧
      ∀ target established, e ≠ .connect target established := by
  unfold afterReply at he
  have hexit : e ∈ errorExit remSock → e = .closeRem ∨ e = .closeCli := by
    rw [mem_errorExit]
    exact Or.imp And.right id
  split at he
  · rcases hexit he with rfl | rfl <;> simp
  split at he
  · split at he
    · rw [List.mem_singleton.mp he]
      simp
    · rcases List.mem_append.mp he with hadd | hfwd
      · split at hadd
        · obtain ⟨target, -, rfl⟩ := List.mem_map.mp hadd
          simp
        · cases hadd
      · split at hfwd
        · rw [List.mem_singleton.mp hfwd]
          simp
        · cases hfwd
  · rcases hexit he with rfl | rfl <;> simp

/-- The sockets are closed or a thread has them, unless the client was told of a
connection that no thread was made for. -/
theorem afterReply_released (env : Env) (len : Nat) (dst : Option Target) (code : UInt8)
    (remSock : Bool) :
    (.forward ∉ afterReply env len dst code remSock →
      .closeCli ∈ afterReply env len dst code remSock ∧
      (remSock = true → .closeRem ∈ afterReply env len dst code remSock) ∧
      ∀ target, .add target ∉ afterReply env len dst code remSock) ↔
    (code = repSucceeded → env.send = len → env.malloc = true ∧ env.pthreadCreate = true) := by
  unfold afterReply
  by_cases hsend : env.send = len
  · by_cases hcode : code = repSucceeded
    · cases hmalloc : env.malloc with
      | false => simp [hsend, hcode]
      | true =>
        cases hthread : env.pthreadCreate with
        | true => simp [hsend, hcode]
        | false => cases env.conmgr <;> simp [hsend, hcode]
    · simp [hsend, hcode, mem_errorExit]
  · simp [hsend, mem_errorExit]

/-! ## The whole request -/

theorem not_answered_of_no_send {effects : List Effect} (h : ∀ msg, .send msg ∉ effects) :
    ¬ Answered effects := by
  rintro ⟨pre, msg, code, post, rfl, -⟩
  exact h msg (List.mem_append_right _ List.mem_cons_self)

theorem not_answered_errorExit (remSock : Bool) : ¬ Answered (errorExit remSock) := by
  apply not_answered_of_no_send
  intro msg hmem
  rcases mem_errorExit.mp hmem with ⟨-, h⟩ | h <;> cases h

theorem replyMsg_code {q : Mem} {len : Nat} (code : UInt8) (hlen : 2 ≤ len) :
    (replyMsg q len code)[1]? = some code := by
  unfold replyMsg
  rw [List.getElem?_set_self (by rw [slice_length]; omega)]

section

variable (env : Env) (q : Mem) (len : Nat) (dst : Option Target)

/-- The effects of a request that gets a reply. -/
def replied : List Effect :=
  (setReply env q dst).2 ++ .send (replyMsg q len (setReply env q dst).1) ::
    afterReply env len dst (setReply env q dst).1 (Effect.socket ∈ (setReply env q dst).2)

theorem mem_replied {e : Effect} :
    e ∈ replied env q len dst ↔ e ∈ (setReply env q dst).2 ∨
      e = .send (replyMsg q len (setReply env q dst).1) ∨
      e ∈ afterReply env len dst (setReply env q dst).1
        (Effect.socket ∈ (setReply env q dst).2) := by
  unfold replied
  rw [List.mem_append, List.mem_cons]

/-- The reply is the only message that is sent. -/
theorem send_mem_replied {msg : List UInt8} (h : .send msg ∈ replied env q len dst) :
    msg = replyMsg q len (setReply env q dst).1 := by
  rcases (mem_replied env q len dst).mp h with hpre | h | hpost
  · exact absurd hpre (not_mem_connecting (by simp) (by simp))
  · exact Effect.send.inj h
  · exact absurd rfl ((afterReply_quiet hpost).1 msg)

theorem connect_mem_replied {target : Target} :
    .connect target true ∈ replied env q len dst ↔
      .connect target true ∈ (setReply env q dst).2 := by
  rw [mem_replied]
  refine ⟨fun h => ?_, Or.inl⟩
  rcases h with hpre | h | hpost
  · exact hpre
  · cases h
  · exact absurd rfl ((afterReply_quiet hpost).2.2 target true)

/-- A reply that is long enough to hold its code answers the request. -/
theorem answered_replied : Answered (replied env q len dst) ↔ 2 ≤ len := by
  constructor
  · -- the message that answers can only be the reply, which must reach its second byte
    rintro ⟨pre, msg, code, post, heq, -, -, -, hcode, -⟩
    have hmsg : msg = replyMsg q len (setReply env q dst).1 := by
      apply send_mem_replied env q len dst
      rw [heq]
      exact List.mem_append_right _ List.mem_cons_self
    obtain ⟨hlt, -⟩ := List.getElem?_eq_some_iff.mp hcode
    rw [hmsg] at hlt
    unfold replyMsg at hlt
    rw [List.length_set, slice_length] at hlt
    exact hlt
  · intro hlen
    refine ⟨_, _, _, _, rfl, ?_, not_mem_connecting (by simp) (by simp),
      not_mem_connecting (by simp) (by simp), replyMsg_code _ hlen, setReply_le env q dst, ?_⟩
    · intro msg hmem
      rcases List.mem_append.mp hmem with hmem | hmem
      · exact not_mem_connecting (by simp) (by simp) hmem
      · exact (afterReply_quiet hmem).1 msg rfl
    · rw [(setReply_code env q dst).1, ← (setReply_code env q dst).2]
      exact exists_congr fun target => (connect_mem_replied env q len dst).symm

/-- What the connecting leaves open is what `afterReply` has to close. -/
theorem released_replied :
    Released (replied env q len dst) ↔
      (Connected env q dst → env.send = len → env.malloc = true ∧ env.pthreadCreate = true) := by
  have hmem : ∀ e : Effect, e ≠ .socket → (∀ target established, e ≠ .connect target established) →
      (∀ msg, e ≠ .send msg) →
      (e ∈ replied env q len dst ↔ e ∈ afterReply env len dst (setReply env q dst).1
        (Effect.socket ∈ (setReply env q dst).2)) := by
    intro e hsocket hconnect hsend
    rw [mem_replied, or_iff_right (not_mem_connecting hsocket hconnect), or_iff_right (hsend _)]
  have hsocket : Effect.socket ∈ replied env q len dst ↔
      decide (Effect.socket ∈ (setReply env q dst).2) = true := by
    rw [mem_replied, decide_eq_true_iff]
    refine or_iff_left fun h => ?_
    rcases h with h | hpost
    · cases h
    · exact absurd rfl (afterReply_quiet hpost).2.1
  unfold Released
  rw [← (setReply_code env q dst).1, ← afterReply_released env len dst, hsocket,
    hmem .forward (by simp) (by simp) (by simp), hmem .closeCli (by simp) (by simp) (by simp),
    hmem .closeRem (by simp) (by simp) (by simp)]
  refine imp_congr_right fun _ => and_congr_right fun _ => and_congr_right fun _ => ?_
  exact forall_congr' fun target =>
    not_congr (hmem (.add target) (by simp) (by simp) (by simp))

end

/-- **A request is answered once and leaves nothing behind** exactly if it is of version
5 and two bytes long at least, the name it asks for (if any) can be looked up, and a
thread is started for a connection the client was told of. -/
theorem answered_iff (env : Env) (st : Stack) (recv : List UInt8) :
    (Answered (serveClient env st recv) ∧ Released (serveClient env st recv)) ↔
      Servable env st recv := by
  unfold serveClient Servable
  by_cases hrecv : recv = []
  · rw [if_pos hrecv, hrecv]
    exact iff_of_false (fun h => not_answered_errorExit _ h.1) (fun h => absurd h.2.1 (by decide))
  rw [if_neg hrecv]
  generalize overlay recv st.socksReq = q
  dsimp only
  by_cases hver : q 0 = socksV5
  · rw [if_neg (fun hne => hne hver)]
    cases hto : remoteAddr env q st.remAddrV6 with
    | error stop =>
      refine iff_of_false (fun h => ?_) (fun h => ?_)
      · cases stop with
        | error => exact not_answered_errorExit _ h.1
        | undefined => exact not_answered_of_no_send (fun msg hm => by simp at hm) h.1
      · obtain ⟨-, -, dst, hok, -⟩ := h
        cases hok
    | ok dst =>
      show Answered (replied env q recv.length dst) ∧ Released (replied env q recv.length dst) ↔ _
      rw [answered_replied, released_replied]
      constructor
      · rintro ⟨hlen, hthread⟩
        exact ⟨hver, hlen, dst, rfl, hthread⟩
      · rintro ⟨-, hlen, dst', hok, hthread⟩
        cases hok
        exact ⟨hlen, hthread⟩
  · rw [if_pos hver]
    exact iff_of_false (fun h => not_answered_errorExit _ h.1) (fun h => hver h.1)

/-- All calls succeed but `getaddrinfo` and `pthread_create`. -/
def poorEnv : Env :=
  ⟨fun _ _ => none, true, fun _ => none, 10, true, true, false⟩

def cleanStack : Stack := ⟨fun _ => 0, fun _ => 0, fun _ => 0⟩

/-- Connect to 192.0.2.1, port 80. -/
def byAddress : List UInt8 := [5, 1, 0, 1, 192, 0, 2, 1, 0, 80]

/-- Connect to the host "abc", port 80. -/
def byName : List UInt8 := [5, 1, 0, 3, 3, 97, 98, 99, 0, 80]

/-- **Requests go unanswered and connections are left behind**: where a name cannot be
looked up the client's socket is closed without a word, and where no thread can be made
the client is told of a connection that nobody serves, and that stays in the table. -/
theorem unknown_name_gets_no_reply :
    (serveClient poorEnv cleanStack byName = [.closeCli] ∧
      ¬ Answered (serveClient poorEnv cleanStack byName)) ∧
    (serveClient poorEnv cleanStack byAddress =
        [.socket, .connect (.sockaddrIn [192, 0, 2, 1] 80) true,
          .send [5, 0, 0, 1, 192, 0, 2, 1, 0, 80], .add (.sockaddrIn [192, 0, 2, 1] 80)] ∧
      ¬ Released (serveClient poorEnv cleanStack byAddress)) := by
  have hname : serveClient poorEnv cleanStack byName = [.closeCli] := by decide
  have haddress : serveClient poorEnv cleanStack byAddress =
      [.socket, .connect (.sockaddrIn [192, 0, 2, 1] 80) true,
        .send [5, 0, 0, 1, 192, 0, 2, 1, 0, 80], .add (.sockaddrIn [192, 0, 2, 1] 80)] := by
    decide
  refine ⟨⟨hname, ?_⟩, haddress, ?_⟩
  · rw [hname]
    exact not_answered_errorExit false
  · rw [haddress]
    intro h
    exact absurd (h (by decide)).1 (by decide)

end Manhattan.Sined.Reply
