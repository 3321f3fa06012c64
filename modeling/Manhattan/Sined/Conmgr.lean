/-!
# The connection manager's table (`sined/src/conmgr.c`)

`sined` keeps one entry per application connection in a linked list guarded by
`con_tbl_mutex`; the connection manager thread adds and removes entries on
request of the SOCKS server and of `libsine`, the policy engine walks the list
to re-evaluate every connection. Here the list is a Lean list: the dummy head
node and the `next` pointers carry no information beyond the order.

What the source asks its surroundings for is an explicit argument (`AddEnv`): the
two `malloc` calls of `add_connection`, the link target of `/proc/<pid>/exe`
behind `get_app_path`, and the value `evaluate` (`sined/src/pe.c`) leaves in
`active_rule` — the only field `evaluate` writes.
-/

namespace Manhattan.Sined

/-- `CONMGR_CMD_ADD` -/
def cmdAdd : Int := 0

/-- `CONMGR_CMD_REMOVE` -/
def cmdRemove : Int := 1

/-- `CONMGR_PROTO_UNSPEC` -/
def protoUnspec : Int := 0

/-- `LINE_BUF_SIZE` of `sined.h`. -/
def lineBufSize : Nat := 256

/-- `struct connection`, without its `next` pointer. -/
structure Connection where
  appID : Int
  appDesc : Option String
  sockfd : Int
  addrlen : Nat
  addr : List UInt8
  protocol : Int
  activeRule : Int
  deriving DecidableEq, Repr

/-- `conmsg_t`; `addr` holds the bytes found from `&con_msg.addr` on. -/
structure ConMsg where
  cmd : Int
  pid : Int
  sockfd : Int
  addrlen : Nat
  addr : List UInt8
  deriving DecidableEq, Repr

/-- `sizeof(conmsg_t)`: four integers and a `sockaddr_storage`. -/
def conmsgSize : Nat := 144

/-- `readlink`: at most `size` characters of the link's target, silently
truncated; `none` when the link cannot be read. -/
def readlink (target : Option String) (size : Nat) : Option String :=
  target.map fun t => String.ofList (t.toList.take size)

/-- `get_app_path`: a first `readlink` into a buffer of `LINE_BUF_SIZE` bytes, a
second one when the buffer came back full. The terminator goes to index `r` of
the first call's result in both cases. -/
def getAppPath (exe : Option String) (mallocOk : Bool) : Option String :=
  match readlink exe lineBufSize with
  | none => none
  | some buf =>
    if mallocOk then
      if buf.length < lineBufSize then some buf
      else (readlink exe (buf.length + 1)).map fun p => String.ofList (p.toList.take buf.length)
    else none

/-- The answers `add_connection` gets from the heap, from `/proc` and from the
policy engine. -/
structure AddEnv where
  mallocConn : Bool
  mallocPath : Bool
  mallocAddr : Bool
  exe : Option String
  evaluate : Connection → Int

/-- Both allocations `add_connection` itself checks succeed. -/
def AddEnv.mallocs (env : AddEnv) : Bool := env.mallocConn && env.mallocAddr

/-- The node `add_connection` fills before it takes `con_tbl_mutex`; `none` on
its error path. -/
def makeConnection (env : AddEnv) (appID sockfd : Int) (addr : List UInt8) (addrlen : Nat) :
    Option Connection :=
  if env.mallocs then
    some { appID := appID, appDesc := getAppPath env.exe env.mallocPath, sockfd := sockfd,
           addrlen := addrlen, addr := addr.take addrlen, protocol := protoUnspec,
           activeRule := 0 }
  else none

/-- `add_connection`: evaluate the new node, link it behind the tail. -/
def addConnection (env : AddEnv) (appID sockfd : Int) (addr : List UInt8) (addrlen : Nat)
    (tbl : List Connection) : Int × List Connection :=
  match makeConnection env appID sockfd addr addrlen with
  | none => (-1, tbl)
  | some conn => (0, tbl ++ [{ conn with activeRule := env.evaluate conn }])

/-- The test of `remove_connection`'s loop. -/
def Connection.hasKey (conn : Connection) (appID sockfd : Int) : Bool :=
  conn.sockfd = sockfd && conn.appID = appID

/-- `remove_connection`: unlink every entry of the application with that
descriptor, front to back. -/
def removeConnection (appID sockfd : Int) : List Connection → List Connection
  | [] => []
  | curr :: rest =>
    if curr.hasKey appID sockfd then removeConnection appID sockfd rest
    else curr :: removeConnection appID sockfd rest

/-- The loop removes *all* matching entries and keeps the others in order. -/
theorem removeConnection_eq_filter (appID sockfd : Int) (tbl : List Connection) :
    removeConnection appID sockfd tbl = tbl.filter fun c => !c.hasKey appID sockfd := by
  induction tbl with
  | nil => rfl
  | cons c rest ih =>
    rw [removeConnection, List.filter_cons]
    cases hm : c.hasKey appID sockfd
    · simp [ih]
    · simp [ih]

/-- The `switch` of `conmgr_main_loop` on one received message. -/
def handleMsg (env : AddEnv) (msg : ConMsg) (tbl : List Connection) : List Connection :=
  if msg.cmd = cmdAdd then (addConnection env msg.pid msg.sockfd msg.addr msg.addrlen tbl).2
  else if msg.cmd = cmdRemove then removeConnection msg.pid msg.sockfd tbl
  else tbl

end Manhattan.Sined
