import Mathlib.Logic.Function.Basic
import Mathlib.Data.List.Nodup
import Manhattan.Lib.Run
import Manhattan.Sined.Netmgr
import Manhattan.Mih.SocketHandler

/-!
# Queries to the MIH user (`netmgr_send_info`)

`netmgr_send_info` keeps one datagram socket, `info_sock`, for all its calls. It
sends the query and takes the next datagram that arrives for the reply; nothing in
a reply says which query it belongs to. When sending or receiving fails (five
seconds without a reply are a failure) the socket is closed, and the next call
opens a new one, with a new port.

That is enough. A query that was given up has its reply sent to a port nobody
listens on any more, and a port that is still in use has had all its queries
answered and all the answers taken. The invariant `Inv` says just that: on the
port of the open socket there is at most the exchange of the call in progress.

Mirroring notes:
- Calls are serialised by `con_tbl_mutex`, which both callers of `evaluate` hold.
- Queries, replies on their way and replies in the socket are one list `flight`;
  an exchange moves through the three stages, or is lost. The handler and the
  network take them in any order.
- The kernel never hands out a port that an unfinished exchange is still bound to,
  and `socket` never returns descriptor 0: that one is the standard input or, where
  it was closed, an end of `exit_pipe`. The error path closes a socket only if its
  descriptor is positive.
- `handledWith` records, for each query by its number, the links the MIH user had
  when it handled it; the code keeps no such record.
- The 32 bytes of the callers' buffer are not modelled: what `sprintf` does to a
  longer name is not defined by the program.
-/

namespace Manhattan.Sined.Query

open Manhattan.Lib
open Manhattan.Mih (job existLink)

/-- `sprintf(buf, "e %s", ifname)` and its siblings. -/
def request (cmd : Char) (ifname : Option String) : List Char :=
  cmd :: ' ' :: (printed ifname).toList

/-- How far an exchange has got. -/
inductive Stage where
  | asked
  | answered (text : String)
  /-- The reply lies in the socket. -/
  | arrived (text : String)
  deriving DecidableEq, Repr

/-- A query on its way, or its reply. -/
structure Exchange where
  port : Nat
  id : Nat
  buf : List Char
  stage : Stage
  deriving DecidableEq, Repr

/-- Where the caller is in `netmgr_send_info`. -/
inductive Phase where
  | idle
  | opening (buf : List Char)
  | sending (buf : List Char)
  | receiving (id : Nat) (buf : List Char)
  deriving DecidableEq, Repr

/-- A finished call: the query and the text left in `buf`. -/
structure Result where
  id : Option Nat
  buf : List Char
  text : String
  deriving DecidableEq, Repr

structure State where
  /-- Descriptor and port of `info_sock`, if it is open. -/
  infoSock : Option (Nat × Nat)
  phase : Phase
  flight : List Exchange
  sent : Nat
  links : List String
  handledWith : Nat → Option (List Char × List String)
  results : List Result

def init (links : List String) : State := ⟨none, .idle, [], 0, links, fun _ => none, []⟩

inductive Act where
  | setLinks (links : List String)
  | call (buf : List Char)
  | socketFails
  | socket (fd port : Nat)
  | setsockoptFails (fd port : Nat)
  | send
  | sendFails
  | receive (i : Nat)
  | receiveFails
  /-- The MIH user takes query `i`; `sent` says whether its `sendto` succeeds. -/
  | handle (i : Nat) (sent : Bool)
  | lose (i : Nat)
  | deliver (i : Nat)

/-- The label `error:` of `netmgr_send_info`. The socket's queue goes with it. -/
def State.fail (s : State) (id : Option Nat) (buf : List Char) : State :=
  let closes := s.infoSock.any fun sock => 0 < sock.1
  { s with
    phase := .idle
    infoSock := if closes then none else s.infoSock
    flight := if closes then s.flight.filter fun e =>
        match e.stage with
        | .arrived _ => false
        | _ => true
      else s.flight
    results := s.results ++ [⟨id, buf, ""⟩] }

/-- A port that no unfinished exchange is bound to. -/
def State.fresh (s : State) (port : Nat) : Prop := ∀ e ∈ s.flight, e.port ≠ port

instance (s : State) (port : Nat) : Decidable (s.fresh port) :=
  inferInstanceAs (Decidable (∀ e ∈ s.flight, e.port ≠ port))

def step (s : State) : Act → Option State
  | .setLinks links => some { s with links := links }
  | .call buf =>
    match s.phase with
    | .idle => some { s with phase := if s.infoSock.isSome then .sending buf else .opening buf }
    | _ => none
  | .socketFails =>
    match s.phase with
    | .opening buf => some (s.fail none buf)
    | _ => none
  | .socket fd port =>
    match s.phase with
    | .opening buf =>
      if 0 < fd ∧ s.fresh port then
        some { s with infoSock := some (fd, port), phase := .sending buf }
      else none
    | _ => none
  | .setsockoptFails fd port =>
    match s.phase with
    | .opening buf =>
      if 0 < fd ∧ s.fresh port then
        some ({ s with infoSock := some (fd, port) }.fail none buf)
      else none
    | _ => none
  | .send =>
    match s.phase, s.infoSock with
    | .sending buf, some (_, port) => some { s with
        phase := .receiving s.sent buf
        flight := s.flight ++ [⟨port, s.sent, buf, .asked⟩]
        sent := s.sent + 1 }
    | _, _ => none
  | .sendFails =>
    match s.phase with
    | .sending buf => some (s.fail none buf)
    | _ => none
  | .receive i =>
    match s.phase, s.flight[i]? with
    | .receiving id buf, some ⟨_, _, _, .arrived text⟩ => some { s with
        phase := .idle
        flight := s.flight.eraseIdx i
        results := s.results ++ [⟨some id, buf, text⟩] }
    | _, _ => none
  | .receiveFails =>
    match s.phase with
    | .receiving id buf => some (s.fail (some id) buf)
    | _ => none
  | .handle i sent =>
    match s.flight[i]? with
    | some ⟨port, id, buf, .asked⟩ =>
      let handled := Function.update s.handledWith id (some (buf, s.links))
      match (job buf).reply s.links, sent with
      | some text, true => some { s with
          flight := s.flight.set i ⟨port, id, buf, .answered text⟩, handledWith := handled }
      | _, _ => some { s with flight := s.flight.eraseIdx i, handledWith := handled }
    | _ => none
  | .lose i =>
    match s.flight[i]? with
    | some ⟨_, _, _, .asked⟩ => some { s with flight := s.flight.eraseIdx i }
    | some ⟨_, _, _, .answered _⟩ => some { s with flight := s.flight.eraseIdx i }
    | _ => none
  | .deliver i =>
    match s.flight[i]? with
    | some ⟨port, id, buf, .answered text⟩ =>
      if s.infoSock.any fun sock => sock.2 = port then
        some { s with flight := s.flight.set i ⟨port, id, buf, .arrived text⟩ }
      else some { s with flight := s.flight.eraseIdx i }
    | _ => none

/-- The text in `buf` is the reply the MIH user produced for this query. -/
def Result.Matched (s : State) (r : Result) : Prop :=
  ∃ id links, r.id = some id ∧ s.handledWith id = some (r.buf, links) ∧
    (job r.buf).reply links = some r.text

/-- `netmgr_interface_on`, from the text left in `buf`. -/
def interfaceOn (text : String) : Int := if text = "up" then 1 else 0

/-! ## At most one exchange on the open port -/

/-- What an exchange is about; the stages do not change it. -/
def Exchange.key (e : Exchange) : Nat × Nat × List Char := (e.port, e.id, e.buf)

/-- The exchanges bound to a port. -/
def State.onPort (s : State) (port : Nat) : List (Nat × Nat × List Char) :=
  (s.flight.map Exchange.key).filter fun k => k.1 = port

/-- The exchange the call in progress waits for, as a list of at most one. -/
def State.expected (s : State) (port : Nat) : List (Nat × Nat × List Char) :=
  match s.phase with
  | .receiving id buf => [(port, id, buf)]
  | _ => []

/-- Stage and record agree: a query that waits has not been handled, a reply is
the one its query was given. -/
def Exchange.Recorded (e : Exchange) (handled : Option (List Char × List String)) : Prop :=
  match e.stage with
  | .asked => handled = none
  | .answered text => ∃ links, handled = some (e.buf, links) ∧ (job e.buf).reply links = some text
  | .arrived text => ∃ links, handled = some (e.buf, links) ∧ (job e.buf).reply links = some text

/-- The part of the invariant that does not look at the socket. -/
structure Records (s : State) : Prop where
  ids : (s.flight.map Exchange.id).Nodup
  bound : ∀ e ∈ s.flight, e.id < s.sent
  unsent : ∀ n, s.sent ≤ n → s.handledWith n = none
  recorded : ∀ e ∈ s.flight, e.Recorded (s.handledWith e.id)
  matched : ∀ r ∈ s.results, r.text = "" ∨ r.Matched s

structure Inv (s : State) : Prop extends Records s where
  alone : ∀ fd port, s.infoSock = some (fd, port) →
    0 < fd ∧ (s.onPort port).Sublist (s.expected port)
  closed : ∀ buf, s.phase = .opening buf → s.infoSock = none
  arrived : ∀ e ∈ s.flight, ∀ text, e.stage = .arrived text →
    ∃ fd, s.infoSock = some (fd, e.port)

theorem init_inv (links : List String) : Inv (init links) where
  ids := List.nodup_nil
  bound := by intro e he; cases he
  unsent := by intro n _; rfl
  recorded := by intro e he; cases he
  matched := by intro r hr; cases hr
  alone := by intro fd port h; cases h
  closed := by intro buf h; cases h
  arrived := by intro e he; cases he

/-! ### Steps of the list of exchanges -/

/-- Erasing the one element that a filter lets through leaves it nothing. -/
theorem filter_eraseIdx_nil {α : Type} {p : α → Bool} {l : List α} {i : Nat} {a x : α}
    (hsub : (l.filter p).Sublist [x]) (hi : l[i]? = some a) (hp : p a = true) :
    (l.eraseIdx i).filter p = [] := by
  obtain ⟨hlt, ha⟩ := List.getElem?_eq_some_iff.mp hi
  have hsplit : l.filter p = (l.take i).filter p ++ a :: (l.drop (i + 1)).filter p := by
    have hl : l = l.take i ++ a :: l.drop (i + 1) := by
      rw [← ha, List.getElem_cons_drop, List.take_append_drop]
    have := congrArg (List.filter p) hl
    rw [List.filter_append, List.filter_cons, if_pos hp] at this
    exact this
  have hlen := hsub.length_le
  rw [hsplit, List.length_append, List.length_cons, List.length_singleton] at hlen
  rw [List.eraseIdx_eq_take_drop_succ, List.filter_append, List.append_eq_nil_iff]
  exact ⟨List.length_eq_zero_iff.mp (by omega), List.length_eq_zero_iff.mp (by omega)⟩

theorem map_eraseIdx {α β : Type} (f : α → β) (l : List α) (i : Nat) :
    (l.eraseIdx i).map f = (l.map f).eraseIdx i := by
  rw [List.eraseIdx_eq_take_drop_succ, List.map_append, List.map_take, List.map_drop,
    ← List.eraseIdx_eq_take_drop_succ]

/-- An exchange in another stage is still about the same. -/
theorem map_set_stage {β : Type} {f : Exchange → β} {l : List Exchange} {i : Nat}
    {e e' : Exchange} (hi : l[i]? = some e) (hf : f e' = f e) : (l.set i e').map f = l.map f := by
  obtain ⟨hlt, he⟩ := List.getElem?_eq_some_iff.mp hi
  rw [List.map_set, hf, ← he, ← List.map_set, List.set_getElem_self]

theorem onPort_sublist {s s' : State} (h : s'.flight.Sublist s.flight) (port : Nat) :
    (s'.onPort port).Sublist (s.onPort port) :=
  (h.map Exchange.key).filter _

/-- Some exchanges disappear; calls that end leave an empty text or the reply to
their query. -/
theorem Records.shrink {s s' : State} (h : Records s) (hf : s'.flight.Sublist s.flight)
    (hn : s'.sent = s.sent) (hh : s'.handledWith = s.handledWith)
    (hr : ∀ r ∈ s'.results, r ∈ s.results ∨ r.text = "" ∨ r.Matched s) : Records s' where
  ids := h.ids.sublist (hf.map Exchange.id)
  bound := by intro e he; rw [hn]; exact h.bound e (hf.subset he)
  unsent := by intro n hn'; rw [hh]; exact h.unsent n (hn ▸ hn')
  recorded := by
    intro e he
    rw [hh]
    exact h.recorded e (hf.subset he)
  matched := by
    intro r hr'
    unfold Result.Matched
    rw [hh]
    rcases hr r hr' with hold | hnew
    · exact h.matched r hold
    · exact hnew

/-- Exchanges are lost while the call in progress goes on. -/
theorem Inv.shrink {s s' : State} (h : Inv s) (hf : s'.flight.Sublist s.flight)
    (hi : s'.infoSock = s.infoSock) (hp : s'.phase = s.phase) (hrec : Records s') : Inv s' where
  toRecords := hrec
  alone := by
    intro fd port hs
    rw [hi] at hs
    have := h.alone fd port hs
    refine ⟨this.1, (onPort_sublist hf port).trans ?_⟩
    unfold State.expected
    rw [hp]
    exact this.2
  closed := by intro buf hb; rw [hi]; exact h.closed buf (hp ▸ hb)
  arrived := by intro e he; rw [hi]; exact h.arrived e (hf.subset he)

/-- The error path: the socket is closed and its queue with it. -/
theorem fail_inv {s : State} {id : Option Nat} {buf : List Char} (h : Records s)
    (hpos : ∀ sock, s.infoSock = some sock → 0 < sock.1)
    (harr : s.infoSock = none → ∀ e ∈ s.flight, ∀ text, e.stage ≠ .arrived text) :
    Inv (s.fail id buf) := by
  have hsub : (s.fail id buf).flight.Sublist s.flight := by
    show (if _ then _ else _ : List Exchange).Sublist s.flight
    split
    · exact List.filter_sublist
    · exact List.Sublist.refl _
  have hnone : (s.fail id buf).infoSock = none := by
    show (if _ then _ else _) = none
    cases hs : s.infoSock with
    | none => split <;> rfl
    | some sock => rw [if_pos (by simpa using hpos sock hs)]
  have hrec : Records (s.fail id buf) := by
    refine h.shrink hsub rfl rfl fun r hr => ?_
    rcases List.mem_append.mp hr with hold | hnew
    · exact Or.inl hold
    · rw [List.mem_singleton.mp hnew]
      exact Or.inr (Or.inl rfl)
  refine ⟨hrec, ?_, ?_, ?_⟩
  · intro fd port hs
    rw [hnone] at hs
    cases hs
  · intro buf' hb
    cases hb
  · intro e he text ht
    exfalso
    have hflight : e ∈ (if (s.infoSock.any fun sock => 0 < sock.1) = true then
        s.flight.filter fun e => match e.stage with
          | .arrived _ => false
          | _ => true
        else s.flight) := he
    split at hflight
    next =>
      have := (List.mem_filter.mp hflight).2
      rw [ht] at this
      cases this
    next hclosed =>
      refine harr ?_ e hflight text ht
      cases hs : s.infoSock with
      | none => rfl
      | some sock =>
        rw [hs] at hclosed
        exact absurd (by simpa using hpos sock hs) hclosed

theorem Inv.pos {s : State} (h : Inv s) : ∀ sock, s.infoSock = some sock → 0 < sock.1 := by
  rintro ⟨fd, port⟩ hs
  exact (h.alone fd port hs).1

theorem Inv.noArrived {s : State} (h : Inv s) :
    s.infoSock = none → ∀ e ∈ s.flight, ∀ text, e.stage ≠ .arrived text := by
  intro hs e he text ht
  obtain ⟨fd, hfd⟩ := h.arrived e he text ht
  rw [hs] at hfd
  cases hfd

/-- A socket that was just opened has nothing on its port. -/
theorem onPort_fresh {s : State} {port : Nat} (h : s.fresh port) : s.onPort port = [] := by
  unfold State.onPort
  rw [List.filter_eq_nil_iff]
  intro k hk
  obtain ⟨e, he, rfl⟩ := List.mem_map.mp hk
  exact fun hport => h e he (of_decide_eq_true hport)

/-- Opening the socket. -/
theorem socket_inv {s : State} {fd port : Nat} {buf : List Char} (h : Inv s)
    (hp : s.phase = .opening buf) (hfd : 0 < fd) (hfresh : s.fresh port) :
    Inv { s with infoSock := some (fd, port), phase := .sending buf } := by
  refine ⟨⟨h.ids, h.bound, h.unsent, h.recorded, h.matched⟩, ?_, ?_, ?_⟩
  · intro fd' port' hs
    obtain ⟨rfl, rfl⟩ := Prod.mk.inj (Option.some.inj hs)
    refine ⟨hfd, ?_⟩
    show (s.onPort port).Sublist _
    rw [onPort_fresh hfresh]
    exact List.nil_sublist _
  · intro buf' hb
    cases hb
  · intro e he text ht
    exact absurd ht (h.noArrived (h.closed buf hp) e he text)

/-- Sending: the query is the first exchange on the port. -/
theorem send_inv {s : State} {fd port : Nat} {buf : List Char} (h : Inv s)
    (hp : s.phase = .sending buf) (hs : s.infoSock = some (fd, port)) :
    Inv { s with
      phase := .receiving s.sent buf
      flight := s.flight ++ [⟨port, s.sent, buf, .asked⟩]
      sent := s.sent + 1 } := by
  have halone : s.onPort port = [] := by
    have := (h.alone fd port hs).2
    unfold State.expected at this
    rw [hp] at this
    exact List.sublist_nil.mp this
  refine ⟨⟨?_, ?_, ?_, ?_, h.matched⟩, ?_, ?_, ?_⟩
  · rw [List.map_append, List.nodup_append]
    refine ⟨h.ids, List.nodup_singleton _, ?_⟩
    intro n hn n' hn' e
    obtain ⟨x, hx, rfl⟩ := List.mem_map.mp hn
    have hlt := h.bound x hx
    rw [e, List.mem_singleton.mp hn'] at hlt
    exact Nat.lt_irrefl _ hlt
  · intro e he
    rcases List.mem_append.mp he with hold | hnew
    · exact Nat.lt_succ_of_lt (h.bound e hold)
    · rw [List.mem_singleton.mp hnew]
      exact Nat.lt_succ_self _
  · intro n hn
    exact h.unsent n (Nat.le_of_succ_le hn)
  · intro e he
    rcases List.mem_append.mp he with hold | hnew
    · exact h.recorded e hold
    · rw [List.mem_singleton.mp hnew]
      exact h.unsent s.sent (Nat.le_refl _)
  · intro fd' port' hs'
    obtain ⟨rfl, rfl⟩ := Prod.mk.inj (Option.some.inj (hs.symm.trans hs'))
    refine ⟨(h.alone fd port hs).1, ?_⟩
    show ((s.flight ++ [_]).map Exchange.key |>.filter _).Sublist [(port, s.sent, buf)]
    rw [List.map_append, List.filter_append, show List.filter _ (s.flight.map _) = _ from halone,
      List.nil_append]
    exact List.filter_sublist
  · intro buf' hb
    cases hb
  · intro e he text ht
    rcases List.mem_append.mp he with hold | hnew
    · exact h.arrived e hold text ht
    · rw [List.mem_singleton.mp hnew] at ht
      cases ht

/-- The reply taken from the socket is the reply to this call's query, and it was
the last exchange on the port. -/
theorem receive_inv {s : State} {i id : Nat} {buf : List Char} {e : Exchange} {text : String}
    (h : Inv s) (hp : s.phase = .receiving id buf) (hi : s.flight[i]? = some e)
    (he : e.stage = .arrived text) :
    Inv { s with
      phase := .idle
      flight := s.flight.eraseIdx i
      results := s.results ++ [⟨some id, buf, text⟩] } := by
  have hmem : e ∈ s.flight := List.mem_of_getElem? hi
  obtain ⟨fd, hs⟩ := h.arrived e hmem text he
  have hsub : (s.onPort e.port).Sublist [(e.port, id, buf)] := by
    have := (h.alone fd e.port hs).2
    unfold State.expected at this
    rw [hp] at this
    exact this
  have hkey : e.key = (e.port, id, buf) := by
    refine List.mem_singleton.mp (hsub.subset (List.mem_filter.mpr ⟨List.mem_map_of_mem hmem, ?_⟩))
    exact decide_eq_true rfl
  have hid : e.id = id := congrArg (fun k => k.2.1) hkey
  have hbuf : e.buf = buf := congrArg (fun k => k.2.2) hkey
  have hmatched : (⟨some id, buf, text⟩ : Result).Matched s := by
    have := h.recorded e hmem
    unfold Exchange.Recorded at this
    rw [he, hid, hbuf] at this
    obtain ⟨links, hlinks, hreply⟩ := this
    exact ⟨id, links, rfl, hlinks, hreply⟩
  refine ⟨h.toRecords.shrink (List.eraseIdx_sublist ..) rfl rfl fun r hr => ?_, ?_, ?_, ?_⟩
  · rcases List.mem_append.mp hr with hold | hnew
    · exact Or.inl hold
    · rw [List.mem_singleton.mp hnew]
      exact Or.inr (Or.inr hmatched)
  · intro fd' port' hs'
    obtain ⟨rfl, rfl⟩ := Prod.mk.inj (Option.some.inj (hs.symm.trans hs'))
    refine ⟨(h.alone fd e.port hs).1, List.sublist_nil.mpr ?_⟩
    show ((s.flight.eraseIdx i).map Exchange.key).filter _ = []
    rw [map_eraseIdx]
    refine filter_eraseIdx_nil hsub (a := e.key) ?_ (decide_eq_true rfl)
    rw [List.getElem?_map, hi]
    rfl
  · intro buf' hb
    cases hb
  · intro x hx
    exact h.arrived x ((List.eraseIdx_sublist ..).subset hx)

/-- Recording what a query was handled with disturbs no other exchange and no
result: the query had not been handled before. -/
theorem handled_records {s : State} {i : Nat} {e : Exchange} (h : Records s)
    (hi : s.flight[i]? = some e) (he : e.stage = .asked) :
    Records { s with
      flight := s.flight.eraseIdx i
      handledWith := Function.update s.handledWith e.id (some (e.buf, s.links)) } ∧
    ∀ x ∈ s.flight.eraseIdx i, x.id ≠ e.id := by
  have hmem : e ∈ s.flight := List.mem_of_getElem? hi
  have hsub : (s.flight.eraseIdx i).Sublist s.flight := List.eraseIdx_sublist ..
  have hnone : s.handledWith e.id = none := by
    have := h.recorded e hmem
    unfold Exchange.Recorded at this
    rw [he] at this
    exact this
  have hother : ∀ x ∈ s.flight.eraseIdx i, x.id ≠ e.id := by
    intro x hx heq
    obtain ⟨j, hj, hx⟩ := List.mem_eraseIdx_iff_getElem?.mp hx
    have hlt : j < (s.flight.map Exchange.id).length := by
      rw [List.length_map]
      exact (List.getElem?_eq_some_iff.mp hx).1
    refine hj ((List.getElem?_inj hlt h.ids).mp ?_)
    rw [List.getElem?_map, List.getElem?_map, hx, hi]
    exact congrArg some heq
  refine ⟨⟨h.ids.sublist (hsub.map _), fun x hx => h.bound x (hsub.subset hx), ?_, ?_, ?_⟩, hother⟩
  · intro n hn
    have hne : n ≠ e.id := by
      have := h.bound e hmem
      have : s.sent ≤ n := hn
      omega
    show Function.update s.handledWith e.id _ n = none
    rw [Function.update_of_ne hne]
    exact h.unsent n hn
  · intro x hx
    show x.Recorded (Function.update s.handledWith e.id _ x.id)
    rw [Function.update_of_ne (hother x hx)]
    exact h.recorded x (hsub.subset hx)
  · intro r hr
    refine (h.matched r hr).imp_right ?_
    rintro ⟨id, links, hid, hl, hreply⟩
    have hne : id ≠ e.id := by
      intro heq
      rw [heq, hnone] at hl
      cases hl
    exact ⟨id, links, hid, (Function.update_of_ne hne _ _).trans hl, hreply⟩

theorem mem_set_cases {l : List Exchange} {i : Nat} {e x : Exchange} (hx : x ∈ l.set i e) :
    x ∈ l.eraseIdx i ∨ x = e := by
  obtain ⟨j, hj⟩ := List.mem_iff_getElem?.mp hx
  rw [List.getElem?_set] at hj
  by_cases hij : i = j
  · rw [if_pos hij] at hj
    split at hj
    next => exact Or.inr (Option.some.inj hj).symm
    next => cases hj
  · rw [if_neg hij] at hj
    exact Or.inl (List.mem_eraseIdx_iff_getElem?.mpr ⟨j, fun h => hij h.symm, hj⟩)

/-- One exchange moves to its next stage, the others stay. -/
theorem Inv.restage {s s' : State} {i : Nat} {e e' : Exchange} (h : Inv s)
    (hi : s.flight[i]? = some e) (hf : s'.flight = s.flight.set i e') (hkey : e'.key = e.key)
    (hs : s'.infoSock = s.infoSock) (hp : s'.phase = s.phase) (hn : s'.sent = s.sent)
    (hrest : Records { s' with flight := s.flight.eraseIdx i })
    (hrec : e'.Recorded (s'.handledWith e'.id))
    (harr : ∀ text, e'.stage = .arrived text → ∃ fd, s'.infoSock = some (fd, e'.port)) :
    Inv s' := by
  have hid : e'.id = e.id := congrArg (fun k => k.2.1) hkey
  have hmem := List.mem_of_getElem? hi
  refine ⟨⟨?_, ?_, hrest.unsent, ?_, hrest.matched⟩, ?_, ?_, ?_⟩
  · rw [hf, map_set_stage hi hid]
    exact h.ids
  · intro x hx
    rw [hf] at hx
    rw [hn]
    rcases List.mem_or_eq_of_mem_set hx with hold | rfl
    · exact h.bound x hold
    · rw [hid]
      exact h.bound e hmem
  · intro x hx
    rw [hf] at hx
    rcases mem_set_cases hx with hold | rfl
    · exact hrest.recorded x hold
    · exact hrec
  · intro fd port hs'
    rw [hs] at hs'
    have := h.alone fd port hs'
    refine ⟨this.1, ?_⟩
    unfold State.expected State.onPort
    rw [hp, hf, map_set_stage hi hkey]
    exact this.2
  · intro buf hb
    rw [hs]
    exact h.closed buf (hp ▸ hb)
  · intro x hx text ht
    rw [hf] at hx
    rcases List.mem_or_eq_of_mem_set hx with hold | rfl
    · rw [hs]
      exact h.arrived x hold text ht
    · exact harr text ht

/-- `netmgr_send_info` is called; it opens `info_sock` only if it is closed. -/
theorem call_inv {s : State} {buf : List Char} (h : Inv s) (hp : s.phase = .idle) :
    Inv { s with phase := if s.infoSock.isSome then .sending buf else .opening buf } := by
  refine ⟨⟨h.ids, h.bound, h.unsent, h.recorded, h.matched⟩, ?_, ?_, h.arrived⟩
  · intro fd port hi
    have := h.alone fd port hi
    refine ⟨this.1, ?_⟩
    unfold State.expected at this ⊢
    rw [hp] at this
    rw [show s.infoSock = some (fd, port) from hi]
    exact this.2
  · intro buf' hb
    cases hi : s.infoSock with
    | none => rfl
    | some sock =>
      have : (if s.infoSock.isSome = true then Phase.sending buf else .opening buf) =
          .opening buf' := hb
      rw [hi] at this
      cases this

theorem step_inv {s s' : State} {a : Act} (h : Inv s) (hs : step s a = some s') : Inv s' := by
  cases a with
  | setLinks links =>
    cases hs
    exact ⟨⟨h.ids, h.bound, h.unsent, h.recorded, h.matched⟩, h.alone, h.closed, h.arrived⟩
  | call buf =>
    simp only [step] at hs
    split at hs
    next hp =>
      cases hs
      exact call_inv h hp
    next => cases hs
  | socketFails =>
    simp only [step] at hs
    split at hs
    next => cases hs; exact fail_inv h.toRecords h.pos h.noArrived
    next => cases hs
  | socket fd port =>
    simp only [step] at hs
    split at hs
    next buf hp =>
      split at hs
      next hg => cases hs; exact socket_inv h hp hg.1 hg.2
      next => cases hs
    next => cases hs
  | setsockoptFails fd port =>
    simp only [step] at hs
    split at hs
    next buf hp =>
      split at hs
      next hg =>
        cases hs
        refine fail_inv ⟨h.ids, h.bound, h.unsent, h.recorded, h.matched⟩ ?_ ?_
        · intro sock hsock
          rw [← Option.some.inj hsock]
          exact hg.1
        · intro hnone
          cases hnone
      next => cases hs
    next => cases hs
  | send =>
    simp only [step] at hs
    split at hs
    next buf fd port hp hsock => cases hs; exact send_inv h hp hsock
    next => cases hs
  | sendFails =>
    simp only [step] at hs
    split at hs
    next => cases hs; exact fail_inv h.toRecords h.pos h.noArrived
    next => cases hs
  | receive i =>
    simp only [step] at hs
    split at hs
    next hp hi => cases hs; exact receive_inv h hp hi rfl
    next => cases hs
  | receiveFails =>
    simp only [step] at hs
    split at hs
    next => cases hs; exact fail_inv h.toRecords h.pos h.noArrived
    next => cases hs
  | handle i sent =>
    simp only [step] at hs
    split at hs
    next port id buf hi =>
      obtain ⟨hrest, -⟩ := handled_records h.toRecords hi rfl
      split at hs
      next _ text hreply =>
        cases hs
        refine h.restage hi rfl rfl rfl rfl rfl hrest ?_ (fun text ht => nomatch ht)
        exact ⟨s.links, Function.update_self .., hreply⟩
      next => cases hs; exact h.shrink (List.eraseIdx_sublist ..) rfl rfl hrest
    next => cases hs
  | lose i =>
    have hlost : Inv { s with flight := s.flight.eraseIdx i } :=
      h.shrink (List.eraseIdx_sublist ..) rfl rfl
        (h.toRecords.shrink (List.eraseIdx_sublist ..) rfl rfl fun r hr => Or.inl hr)
    simp only [step] at hs
    split at hs
    next => cases hs; exact hlost
    next => cases hs; exact hlost
    next => cases hs
  | deliver i =>
    have hrest : Records { s with flight := s.flight.eraseIdx i } :=
      h.toRecords.shrink (List.eraseIdx_sublist ..) rfl rfl fun r hr => Or.inl hr
    simp only [step] at hs
    split at hs
    next port id buf text hi =>
      split at hs
      next hopen =>
        cases hs
        refine h.restage hi rfl rfl rfl rfl rfl hrest ?_ fun _ _ => ?_
        · have := h.recorded _ (List.mem_of_getElem? hi)
          exact this
        · cases hsock : s.infoSock with
          | none => rw [hsock] at hopen; cases hopen
          | some sock =>
            rw [hsock] at hopen
            have hport : sock.2 = port := of_decide_eq_true hopen
            exact ⟨sock.1, by rw [← hport]⟩
      next => cases hs; exact h.shrink (List.eraseIdx_sublist ..) rfl rfl hrest
    next => cases hs

/-! ## The queries of a run -/

theorem job_exist (ifname : Option String) :
    job (request 'e' ifname) = .exist (printed ifname) := by
  show Mih.Job.exist (String.ofList (printed ifname).toList) = _
  rw [String.ofList_toList]

/-- **Every reply belongs to its query.** Over every sequence of queries and every
choice of delays, losses and failures, the text a call leaves in `buf` is empty or
the reply the MIH user produced for that very query; so `netmgr_interface_on(x)`
returns 1 only if the link `x` existed when the MIH user handled this query. -/
theorem replies_matched (links : List String) (as : List Act) {s : State}
    (hr : run step (init links) as = some s) :
    ∀ r ∈ s.results, (r.text = "" ∨ r.Matched s) ∧
      ∀ ifname, r.buf = request 'e' ifname → interfaceOn r.text = 1 →
        ∃ id handled, r.id = some id ∧ s.handledWith id = some (r.buf, handled) ∧
          existLink handled (printed ifname) = true := by
  have h : Inv s := run_inv_all step_inv as (init_inv links) hr
  intro r hmem
  refine ⟨h.matched r hmem, fun ifname hx hon => ?_⟩
  have hup : r.text = "up" := by
    unfold interfaceOn at hon
    split at hon
    next e => exact e
    next => cases hon
  rcases h.matched r hmem with hempty | ⟨id, handled, hid, hhandled, hreply⟩
  · rw [hempty] at hup
    exact absurd hup (by decide)
  · refine ⟨id, handled, hid, hhandled, ?_⟩
    rw [hx, job_exist, hup] at hreply
    cases hex : existLink handled (printed ifname) with
    | true => rfl
    | false =>
      simp only [Mih.Job.reply, hex] at hreply
      exact absurd hreply (by decide)

/-- A query times out and is answered late, at a port that is closed by then; the
next one gets its own answer. -/
def lateReply : List Act :=
  [.call (request 'e' (some "wlan0")), .socket 7 40000, .send, .receiveFails,
   .call (request 'e' (some "eth0")), .socket 7 40001, .send, .handle 0 true, .handle 1 true,
   .deliver 0, .deliver 0, .receive 0]

theorem replies_matched_lateReply :
    ∃ s, run step (init ["wlan0"]) lateReply = some s ∧
      s.results.map (fun r => r.text) = ["", "down"] ∧
      ∀ r ∈ s.results, r.text = "" ∨ r.Matched s :=
  ⟨_, rfl, by decide, fun r hr => (replies_matched ["wlan0"] lateReply rfl r hr).1⟩

end Manhattan.Sined.Query
