import Mathlib.Data.List.Basic
import Manhattan.Lib.Run

/-!
# The middleware's connection table (`connectionMgr.c`, `sine_socket.c`)

The table is a linked list with a dummy record at its head. `sine_socket` and
`sine_accept` append a record for the descriptor they return, nothing ever takes one
off, and the other calls look their descriptor up and write the record's status or
address. The two update functions walk the list with

    node = connection_tbl[0]->next;
    while(node->next != NULL) { ... node = node->next; }

so they read `node->next` before they know that there is a record, they take the first
record of a descriptor, not the latest, and they never look at the last record of the
list. The last record is the one `sine_socket` has just appended when it updates it.

Mirroring notes:
- `connectionTbl` is `none` until `init_connection_tbl` has run, and then holds the
  records after the dummy one. `last_connection` is the last of them, or the dummy.
- The calls are taken one at a time, and `calloc` succeeds.
- `registered` (the descriptors in the order of their registration), `openFds` and
  `updates` are bookkeeping: what the calls have been asked, and what the kernel knows.
- The kernel never returns a descriptor that is open.
- A null pointer ends the process (`dead`).

`tracks_iff` says exactly which sequences of calls the table follows.
-/

namespace Manhattan.Middleware.ConnectionTable

open Manhattan.Lib

/-- `enum connection_status` -/
inductive ConnectionStatus where
  | new | send | recv | connect | listen | fin
  deriving DecidableEq, Repr

/-- `struct connection`; the list is the `next` pointers. -/
structure Connection where
  sockfd : Int
  parentSockfd : Int
  appGuid : Int
  policyGuid : Int
  status : ConnectionStatus
  addrlen : Int
  addr : Option Nat
  deriving DecidableEq, Repr

/-- `add_connection` -/
def addConnection (sockfd appGuid : Int) (records : List Connection) : List Connection :=
  records ++ [⟨sockfd, 0, appGuid, 0, .new, 0, none⟩]

/-- `add_child_connection` -/
def addChildConnection (sockfd newSockfd : Int) (records : List Connection) :
    List Connection :=
  records ++ [⟨newSockfd, sockfd, 31, 0, .new, 0, none⟩]

/-- What an update writes into the record it finds. -/
inductive Write where
  | status (status : ConnectionStatus)
  | bind (addr : Option Nat) (addrlen : Int)
  deriving DecidableEq, Repr

def Write.apply : Write → Connection → Connection
  | .status st, node => { node with status := st }
  | .bind addr addrlen, node => { node with addr := addr, addrlen := addrlen }

/-- The table an update leaves, what it returns, and the position of the record it has
written. -/
structure Outcome where
  records : List Connection
  ret : Int
  written : Option Nat
  deriving DecidableEq, Repr

/-- The loop of both update functions; `none` where it reads through a null pointer. -/
def updateLoop (w : Write) (sockfd : Int) : List Connection → Option Outcome
  | [] => none
  | [node] => some ⟨[node], 1, none⟩
  | node :: next :: rest =>
    if node.sockfd = sockfd then some ⟨w.apply node :: next :: rest, 0, some 0⟩
    else (updateLoop w sockfd (next :: rest)).map fun o =>
      ⟨node :: o.records, o.ret, o.written.map (· + 1)⟩

/-- `connection_tbl[0]->next` -/
def updateConnection (w : Write) (sockfd : Int) (connectionTbl : Option (List Connection)) :
    Option Outcome :=
  connectionTbl.bind (updateLoop w sockfd)

/-- `update_connection_status` -/
def updateConnectionStatus (sockfd : Int) (status : ConnectionStatus) :
    Option (List Connection) → Option Outcome :=
  updateConnection (.status status) sockfd

/-- `update_connection_bind` -/
def updateConnectionBind (sockfd : Int) (addr : Option Nat) (addrlen : Int) :
    Option (List Connection) → Option Outcome :=
  updateConnection (.bind addr addrlen) sockfd

/-! ## The calls -/

/-- An update that was made: what it was given, and what came of it. -/
structure Update where
  sockfd : Int
  write : Write
  registered : List Int
  before : List Connection
  outcome : Option Outcome
  deriving DecidableEq, Repr

structure State where
  connectionTbl : Option (List Connection)
  registered : List Int
  openFds : List Int
  /-- Newest first. -/
  updates : List Update
  dead : Bool
  deriving DecidableEq, Repr

def init : State := ⟨none, [], [], [], false⟩

/-- The calls that write a status. -/
inductive StatusCall where
  | connect | send | write | recv | read | listen | shutdown | close
  deriving DecidableEq, Repr

def StatusCall.status : StatusCall → ConnectionStatus
  | .connect => .connect
  | .send | .write => .send
  | .recv | .read => .recv
  | .listen => .listen
  | .shutdown | .close => .fin

inductive Call where
  /-- `sine_socket`, where `socket` returns `fd`. -/
  | socket (fd appGuid : Int)
  /-- `sine_accept` on `s`, where `accept` returns `newFd`. -/
  | accept (s newFd : Int)
  | bind (fd : Int) (addr : Option Nat) (addrlen : Int)
  | status (call : StatusCall) (s : Int)
  deriving DecidableEq, Repr

/-- The state after an update with the given outcome. -/
def State.updated (s : State) (sockfd : Int) (w : Write) (outcome : Option Outcome) : State :=
  let updates := ⟨sockfd, w, s.registered, s.connectionTbl.getD [], outcome⟩ :: s.updates
  match outcome with
  | none => { s with updates := updates, dead := true }
  | some o => { s with connectionTbl := some o.records, updates := updates }

/-- `sine_socket` -/
def sineSocket (s : State) (fd appGuid : Int) : State :=
  -- `init_connection_tbl` does nothing the second time
  let records := s.connectionTbl.getD []
  if fd > -1 then
    let s := { s with
      connectionTbl := some (addConnection fd appGuid records)
      registered := s.registered ++ [fd]
      openFds := fd :: s.openFds }
    s.updated fd (.status .new) (updateConnectionStatus fd .new s.connectionTbl)
  else { s with connectionTbl := some records }

/-- `sine_accept` -/
def sineAccept (s : State) (sock newFd : Int) : State :=
  if newFd > -1 then
    match s.connectionTbl with
    -- `last_connection` is still null
    | none => { s with dead := true }
    | some records => { s with
        connectionTbl := some (addChildConnection sock newFd records)
        registered := s.registered ++ [newFd]
        openFds := newFd :: s.openFds }
  else s

/-- `sine_bind` -/
def sineBind (s : State) (fd : Int) (addr : Option Nat) (addrlen : Int) : State :=
  s.updated fd (.bind addr addrlen) (updateConnectionBind fd addr addrlen s.connectionTbl)

/-- `sine_connect`, `sine_send`, `sine_write`, `sine_recv`, `sine_read`, `sine_listen`,
`sine_shutdown` and `sine_close`: the record's status first, then the system call. -/
def sineStatus (s : State) (call : StatusCall) (fd : Int) : State :=
  let s := s.updated fd (.status call.status)
    (updateConnectionStatus fd call.status s.connectionTbl)
  if call = .close then { s with openFds := s.openFds.filter (· ≠ fd) } else s

def step (s : State) (call : Call) : Option State :=
  if s.dead then none
  else match call with
  | .socket fd appGuid => if fd ∈ s.openFds then none else some (sineSocket s fd appGuid)
  | .accept sock newFd => if newFd ∈ s.openFds then none else some (sineAccept s sock newFd)
  | .bind fd addr addrlen => some (sineBind s fd addr addrlen)
  | .status call fd => some (sineStatus s call fd)

/-! ## What the table is for -/

/-- The position of the latest registration of a descriptor. -/
def latest (fd : Int) : List Int → Option Nat
  | [] => none
  | fd' :: registered =>
    match latest fd registered with
    | some i => some (i + 1)
    | none => if fd' = fd then some 0 else none

/-- **The update is right**: it returns 0 exactly for a registered descriptor, and writes
the record of the latest registration and no other. -/
def Update.Right (u : Update) : Prop :=
  ∃ o, u.outcome = some o ∧ (o.ret = 0 ↔ u.sockfd ∈ u.registered) ∧
    o.written = latest u.sockfd u.registered ∧
    o.records = match latest u.sockfd u.registered with
      | some i => u.before.modify i u.write.apply
      | none => u.before

/-- Every update that was made is right. -/
def Tracks (s : State) : Prop :=
  ∀ u ∈ s.updates, u.Right

/-- A descriptor the loop finds the right record of: there is a record at all, the
descriptor has one at most, and it is not the last of the list. -/
def Locatable (fd : Int) (registered : List Int) : Prop :=
  registered ≠ [] ∧ registered.count fd ≤ 1 ∧ registered.getLast? ≠ some fd

/-- `sine_socket` returns no descriptor (if it does, the record it updates is the last),
and every other update is of a descriptor that can be found. -/
def ok (s : State) : Call → Prop
  | .socket fd _ => ¬ fd > -1
  | .accept _ _ => True
  | .bind fd _ _ => Locatable fd s.registered
  | .status _ fd => Locatable fd s.registered

instance decLocatable (fd : Int) (registered : List Int) : Decidable (Locatable fd registered) :=
  inferInstanceAs (Decidable (registered ≠ [] ∧ registered.count fd ≤ 1 ∧
    registered.getLast? ≠ some fd))

instance decOk (s : State) : (call : Call) → Decidable (ok s call)
  | .socket fd _ => inferInstanceAs (Decidable (¬ fd > -1))
  | .accept _ _ => isTrue trivial
  | .bind fd _ _ => decLocatable fd s.registered
  | .status _ fd => decLocatable fd s.registered

/-! ## The loop -/

theorem latest_eq_none {fd : Int} {registered : List Int} :
    latest fd registered = none ↔ fd ∉ registered := by
  induction registered with
  | nil => exact iff_of_true rfl List.not_mem_nil
  | cons fd' registered ih =>
    unfold latest
    rw [List.mem_cons, not_or, ← ih]
    cases latest fd registered with
    | some i => exact iff_of_false (fun h => nomatch h) (fun h => nomatch h.2)
    | none =>
      by_cases h : fd' = fd
      · exact iff_of_false (by simp [h]) (fun hn => hn.1 h.symm)
      · exact iff_of_true (by simp [h]) ⟨Ne.symm h, rfl⟩

/-- Where the loop finds nothing it returns 1 and writes nothing; else it returns 0 and
writes the record it has found. -/
theorem updateLoop_outcome {w : Write} {fd : Int} {records : List Connection} {o : Outcome}
    (h : updateLoop w fd records = some o) :
    (o.ret = 0 ↔ o.written ≠ none) ∧
      o.records = match o.written with
        | some i => records.modify i w.apply
        | none => records := by
  induction records generalizing o with
  | nil => cases h
  | cons node rest ih =>
    cases rest with
    | nil => cases h; exact ⟨iff_of_false (by show ¬ (1 : Int) = 0; decide) (fun h => h rfl), rfl⟩
    | cons next rest =>
      unfold updateLoop at h
      split at h
      next => cases h; exact ⟨iff_of_true rfl (fun h => nomatch h), rfl⟩
      next =>
        obtain ⟨o', ho', rfl⟩ := Option.map_eq_some_iff.mp h
        obtain ⟨hret, hrecords⟩ := ih ho'
        refine ⟨?_, ?_⟩
        · rw [hret, ne_eq, ne_eq, Option.map_eq_none_iff]
        · rw [hrecords]
          cases o'.written <;> rfl

/-- There is an outcome exactly if there is a record. -/
theorem updateLoop_isSome (w : Write) (fd : Int) {records : List Connection}
    (h : records ≠ []) : ∃ o, updateLoop w fd records = some o := by
  induction records with
  | nil => exact absurd rfl h
  | cons node rest ih =>
    cases rest with
    | nil => exact ⟨_, rfl⟩
    | cons next rest =>
      obtain ⟨o, ho⟩ := ih (List.cons_ne_nil _ _)
      unfold updateLoop
      split
      next => exact ⟨_, rfl⟩
      next => exact ⟨_, by rw [ho]; rfl⟩

/-- The loop writes the latest record exactly if that is the only one and not the last of
the list. -/
theorem updateLoop_written {w : Write} {fd : Int} {records : List Connection} {o : Outcome}
    (h : updateLoop w fd records = some o) :
    o.written = latest fd (records.map (·.sockfd)) ↔
      (records.map (·.sockfd)).count fd ≤ 1 ∧ (records.map (·.sockfd)).getLast? ≠ some fd := by
  induction records generalizing o with
  | nil => cases h
  | cons node rest ih =>
    cases rest with
    | nil =>
      -- the last record: the loop does not look at it
      cases h
      by_cases hfd : node.sockfd = fd <;> simp [latest, hfd]
    | cons next rest =>
      have hlast : ((node :: next :: rest).map (·.sockfd)).getLast? =
          ((next :: rest).map (·.sockfd)).getLast? := rfl
      unfold updateLoop at h
      rw [hlast, List.map_cons]
      split at h
      next hfd =>
        -- found here: right if no later record has the descriptor
        cases h
        rw [hfd, List.count_cons_self]
        have hnone : some 0 = latest fd (fd :: (next :: rest).map (·.sockfd)) ↔
            fd ∉ (next :: rest).map (·.sockfd) := by
          rw [← latest_eq_none]
          conv_lhs => unfold latest
          cases latest fd ((next :: rest).map (·.sockfd)) <;> simp
        rw [hnone, Nat.succ_le_succ_iff, Nat.le_zero, List.count_eq_zero]
        refine ⟨fun hn => ⟨hn, fun hl => hn (List.mem_of_getLast? hl)⟩, And.left⟩
      next hfd =>
        obtain ⟨o', ho', rfl⟩ := Option.map_eq_some_iff.mp h
        rw [List.count_cons_of_ne hfd, ← ih ho']
        conv_lhs => rhs; unfold latest
        cases latest fd ((next :: rest).map (·.sockfd)) <;> simp [hfd]

/-- **One update**: it is right exactly if its descriptor can be found. -/
theorem right_iff {connectionTbl : Option (List Connection)} {registered : List Int}
    (hreg : (connectionTbl.getD []).map (·.sockfd) = registered) (w : Write) (fd : Int) :
    Update.Right ⟨fd, w, registered, connectionTbl.getD [], updateConnection w fd connectionTbl⟩ ↔
      Locatable fd registered := by
  subst hreg
  have hupd : updateConnection w fd connectionTbl = updateLoop w fd (connectionTbl.getD []) := by
    cases connectionTbl <;> rfl
  rw [hupd]
  generalize connectionTbl.getD [] = records
  unfold Update.Right Locatable
  simp only
  constructor
  · rintro ⟨o, ho, -, hwritten, -⟩
    refine ⟨?_, (updateLoop_written ho).mp hwritten⟩
    intro hnil
    rw [List.map_eq_nil_iff.mp hnil] at ho
    cases ho
  · rintro ⟨hne, hcount⟩
    obtain ⟨o, ho⟩ := updateLoop_isSome w fd (fun hnil : records = [] => hne (by rw [hnil]; rfl))
    obtain ⟨hret, hrecords⟩ := updateLoop_outcome ho
    have hwritten := (updateLoop_written ho).mpr hcount
    refine ⟨o, ho, ?_, hwritten, ?_⟩
    · rw [hret, hwritten, ne_eq, latest_eq_none, not_not]
    · rw [hrecords, hwritten]

/-! ## The runs -/

/-- The records are those of the registrations, in their order. -/
def Inv (s : State) : Prop :=
  (s.connectionTbl.getD []).map (·.sockfd) = s.registered

theorem apply_sockfd (w : Write) (node : Connection) : (w.apply node).sockfd = node.sockfd := by
  cases w <;> rfl

/-- No update changes which descriptor a record is of. -/
theorem updateLoop_sockfds {w : Write} {fd : Int} {records : List Connection} {o : Outcome}
    (h : updateLoop w fd records = some o) :
    o.records.map (·.sockfd) = records.map (·.sockfd) := by
  induction records generalizing o with
  | nil => cases h
  | cons node rest ih =>
    cases rest with
    | nil => cases h; rfl
    | cons next rest =>
      unfold updateLoop at h
      split at h
      next => cases h; rw [List.map_cons, apply_sockfd]; rfl
      next =>
        obtain ⟨o', ho', rfl⟩ := Option.map_eq_some_iff.mp h
        rw [List.map_cons, ih ho']; rfl

theorem updated_inv {s : State} (h : Inv s) (fd : Int) (w : Write) :
    Inv (s.updated fd w (updateConnection w fd s.connectionTbl)) := by
  unfold State.updated
  split
  next => exact h
  next o ho =>
    obtain ⟨records, htbl, hloop⟩ := Option.bind_eq_some_iff.mp ho
    have hrecords : records.map (·.sockfd) = s.registered := by
      rw [← h, htbl]; rfl
    exact (updateLoop_sockfds hloop).trans hrecords

/-- What an update adds to the updates made. -/
theorem updated_tracks {s : State} (h : Inv s) (fd : Int) (w : Write) :
    Tracks (s.updated fd w (updateConnection w fd s.connectionTbl)) ↔
      Tracks s ∧ Locatable fd s.registered := by
  have hupdates : (s.updated fd w (updateConnection w fd s.connectionTbl)).updates =
      ⟨fd, w, s.registered, s.connectionTbl.getD [], updateConnection w fd s.connectionTbl⟩ ::
        s.updates := by
    unfold State.updated
    split <;> simp_all
  unfold Tracks
  rw [hupdates, List.forall_mem_cons, right_iff h]
  exact And.comm

/-- A record that was just appended is the last. -/
theorem not_locatable_new (fd : Int) (registered : List Int) :
    ¬ Locatable fd (registered ++ [fd]) :=
  fun h => h.2.2 List.getLast?_concat

/-- The state of `sine_socket` between the registration and the update. -/
theorem registered_inv {s : State} (h : Inv s) (node : Connection) (openFds : List Int) :
    Inv { s with
      connectionTbl := some (s.connectionTbl.getD [] ++ [node])
      registered := s.registered ++ [node.sockfd]
      openFds := openFds } := by
  show ((s.connectionTbl.getD [] ++ [node]).map (·.sockfd)) = s.registered ++ [node.sockfd]
  rw [List.map_append, h]
  rfl

/-- What a call that is possible does. -/
def perform (s : State) : Call → State
  | .socket fd appGuid => sineSocket s fd appGuid
  | .accept sock newFd => sineAccept s sock newFd
  | .bind fd addr addrlen => sineBind s fd addr addrlen
  | .status call fd => sineStatus s call fd

theorem step_eq {s s' : State} {call : Call} (hs : step s call = some s') :
    perform s call = s' := by
  unfold step at hs
  obtain ⟨-, hs⟩ := Option.ite_none_left_eq_some.mp hs
  cases call with
  | socket fd appGuid => exact Option.some.inj (Option.ite_none_left_eq_some.mp hs).2
  | accept sock newFd => exact Option.some.inj (Option.ite_none_left_eq_some.mp hs).2
  | bind fd addr addrlen => exact Option.some.inj hs
  | status call fd => exact Option.some.inj hs

theorem perform_inv {s : State} (h : Inv s) (call : Call) : Inv (perform s call) := by
  cases call with
  | socket fd appGuid =>
    show Inv (sineSocket s fd appGuid)
    unfold sineSocket
    split
    next => exact updated_inv (registered_inv h _ _) fd _
    next => exact h
  | accept sock newFd =>
    show Inv (sineAccept s sock newFd)
    unfold sineAccept
    split
    next =>
      cases htbl : s.connectionTbl with
      | none =>
        unfold Inv at h
        rw [htbl] at h
        exact h
      | some records =>
        have hnew := registered_inv h ⟨newFd, sock, 31, 0, .new, 0, none⟩ (newFd :: s.openFds)
        rw [htbl] at hnew
        exact hnew
    next => exact h
  | bind fd addr addrlen => exact updated_inv h fd _
  | status call fd =>
    show Inv (sineStatus s call fd)
    unfold sineStatus
    split <;> exact updated_inv h fd (.status call.status)

/-- A call keeps the table right exactly if it is `ok`. -/
theorem perform_tracks {s : State} (h : Inv s) (call : Call) :
    Tracks (perform s call) ↔ Tracks s ∧ ok s call := by
  cases call with
  | socket fd appGuid =>
    show Tracks (sineSocket s fd appGuid) ↔ _
    unfold sineSocket
    split
    next hfd =>
      refine iff_of_false ?_ (fun hok => hok.2 hfd)
      intro htracks
      have hupd := (updated_tracks (registered_inv h ⟨fd, 0, appGuid, 0, .new, 0, none⟩
        (fd :: s.openFds)) fd (.status .new)).mp htracks
      exact not_locatable_new fd s.registered hupd.2
    next hfd => exact (and_iff_left hfd).symm
  | accept sock newFd =>
    have hupdates : (sineAccept s sock newFd).updates = s.updates := by
      unfold sineAccept
      split
      · cases s.connectionTbl <;> rfl
      · rfl
    show Tracks (sineAccept s sock newFd) ↔ _
    unfold Tracks
    rw [hupdates]
    exact (and_iff_left trivial).symm
  | bind fd addr addrlen => exact updated_tracks h fd _
  | status call fd =>
    have hupd := updated_tracks h fd (.status call.status)
    show Tracks (sineStatus s call fd) ↔ _
    unfold sineStatus
    split <;> exact hupd

theorem step_inv {s s' : State} {call : Call} (h : Inv s) (hs : step s call = some s') :
    Inv s' := by
  rw [← step_eq hs]
  exact perform_inv h call

theorem step_tracks {s s' : State} {call : Call} (h : Inv s) (hs : step s call = some s') :
    Tracks s' ↔ Tracks s ∧ ok s call := by
  rw [← step_eq hs]
  exact perform_tracks h call

/-- **The table tracks the sockets** along a sequence of calls exactly if `sine_socket`
never returns a descriptor in it and every other update is of a descriptor that can be
found: there is a record, and the descriptor has none or just one that is not the last. -/
theorem tracks_iff (calls : List Call) {s : State} (hr : run step init calls = some s) :
    Tracks s ↔ Meets step ok init calls := by
  have hinv : Inv init := rfl
  have htracks : Tracks init := fun u hu => nomatch hu
  rw [run_iff (I := Inv) step_inv step_tracks calls hinv hr]
  exact and_iff_right htracks

/-- The table is initialised by a `socket` that fails; two connections of a listening
socket are accepted, and the first is used and closed. -/
def acceptTwo : List Call :=
  [.socket (-1) 7, .accept 3 5, .accept 3 6, .status .recv 5, .bind 5 (some 9) 16,
   .status .close 5, .status .shutdown 8]

theorem tracks_iff_acceptTwo :
    ∃ s, run step init acceptTwo = some s ∧ s.updates.length = 4 ∧ Tracks s :=
  ⟨_, rfl, rfl, (tracks_iff acceptTwo rfl).mpr (by decide)⟩

/-- **The table loses sockets**: the only socket is never found, so that its address is
not recorded; the second of two sockets with one descriptor is confused with the first,
which was closed; and a call before the first socket reads through a null pointer. -/
theorem only_socket_is_not_found :
    (∃ s, run step init [.socket 3 7, .bind 3 (some 9) 16] = some s ∧ ¬ Tracks s ∧
      s.connectionTbl = some [⟨3, 0, 7, 0, .new, 0, none⟩]) ∧
    (∃ s, run step init [.socket 3 7, .socket 4 7, .status .close 3, .socket 3 7] = some s ∧
      ¬ Tracks s ∧ s.connectionTbl.map (·.map (·.status)) = some [.new, .new, .new]) ∧
    ∃ s, run step init [.bind 3 (some 9) 16] = some s ∧ ¬ Tracks s ∧ s.dead = true := by
  refine ⟨⟨_, rfl, ?_, rfl⟩, ⟨_, rfl, ?_, rfl⟩, _, rfl, ?_, rfl⟩
  · intro h
    obtain ⟨o, ho, hret, -⟩ := h _ List.mem_cons_self
    cases ho
    exact absurd (hret.mpr (by decide)) (by decide)
  · intro h
    obtain ⟨o, ho, -, hwritten, -⟩ := h _ List.mem_cons_self
    cases ho
    exact absurd hwritten (by decide)
  · intro h
    obtain ⟨o, ho, -⟩ := h _ List.mem_cons_self
    cases ho

end Manhattan.Middleware.ConnectionTable
