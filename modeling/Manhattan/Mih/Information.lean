import Mathlib.Data.List.Nodup
import Mathlib.Data.List.Perm.Basic
import Manhattan.Lib.Run

/-!
# Information queries of the MIH user (`information_request`)

A client asks the MIH user for the cost, the bandwidth or everything it knows about
an interface. `information_request` sends a query for the name to the MIHF and puts
the client on `_waitlist`; `information_response` is called with the result, some
time later, and passes its first item on to *everybody* on the list, which it then
empties. Nothing connects an entry of the list with a query. A result of another
query, or a query that failed, is all it takes for a client to get the numbers of an
interface it did not ask about, which `sine_getCost` and `sine_getBandwidth` then
take for those of its own.

Mirroring notes:
- The query is sent before the client is put on the list, and the result arrives in
  another thread: the two are separate steps, `entering` are the requests between
  them.
- `information_response` is one step; the vectors it shares with the other threads
  are not protected.
- Requests and queries carry a number, which is bookkeeping for the statements.
  `late` records that the request's own query had failed when the message was sent.
- `client_info::respond` cuts its text out of the result by fixed offsets. A result
  too short for them makes `substr` throw, which ends the process (`dead`).

`answered_of_run` is the condition under which every message is about the interface
its client asked about. That nobody gets two messages for one request holds always.
-/

namespace Manhattan.Mih.Information

open Manhattan.Lib

/-- `req_info_type` -/
inductive ReqInfo where
  | all
  | cost
  | bandwidth
  deriving DecidableEq, Repr

/-! ## `client_info::respond` -/

/-- The first position from `i` on at which `pat` stands, where `s` begins at `i`. -/
def position (pat : List Char) : List Char → Nat → Option Nat
  | [], i => if pat = [] then some i else none
  | c :: s, i => if pat.isPrefixOf (c :: s) then some i else position pat s (i + 1)

/-- `std::string::find`; -1 is `npos`. -/
def find (s : List Char) (pat : String) (start : Nat) : Int :=
  if start ≤ s.length then
    match position pat.toList (s.drop start) start with
    | some i => i
    | none => -1
  else -1

/-- `std::string::substr`; a negative length is a huge `size_t`. -/
def substr (s : List Char) (begin : Nat) (len : Int) : Option (List Char) :=
  if s.length < begin then none
  else if len < 0 then some (s.drop begin)
  else some ((s.drop begin).take len.toNat)

/-- The text a client is sent, `none` if an exception is thrown. -/
def respond (reqType : ReqInfo) (xmlInfo : List Char) : Option (List Char) :=
  let (first, last) : Int × Int :=
    match reqType with
    | .all => (find xmlInfo "<result>" 0 + 9, find xmlInfo "</result>" 0 - 5)
    | .cost =>
      let first := find xmlInfo "<binding name=\"cost_value\"" 0 + 36
      (first, find xmlInfo "</literal>" first.toNat)
    | .bandwidth =>
      let first := find xmlInfo "<binding name=\"bandwidth\"" 0 + 35
      (first, find xmlInfo "</literal>" first.toNat)
  let (first, last) := if last = -1 then (0, 0) else (first, last)
  (substr xmlInfo first.toNat (last - first)).map (·.takeWhile (· ≠ '\x00'))

/-! ## The state -/

structure Query where
  id : Nat
  ifname : String
  deriving DecidableEq, Repr

/-- A client's request: a `client_info`, and the query made for it. -/
structure Request where
  query : Query
  port : Nat
  reqType : ReqInfo
  deriving DecidableEq, Repr

/-- A message of `client_info::respond`. -/
structure Message where
  request : Request
  /-- The query whose result it is taken from. -/
  source : Query
  text : List Char
  late : Bool
  deriving DecidableEq, Repr

structure State where
  nextId : Nat
  /-- queries without a response yet -/
  outstanding : List Query
  entering : List Request
  waitlist : List Request
  /-- requests whose query has failed, by number -/
  failed : List Nat
  /-- the results of the queries that succeeded -/
  results : List (Query × List (List Char))
  sent : List Message
  dead : Bool
  deriving DecidableEq, Repr

def init : State := ⟨0, [], [], [], [], [], [], false⟩

inductive Act where
  /-- A datagram for the socket handler. -/
  | datagram (port : Nat) (buf : List Char)
  /-- The keyboard's `i`. -/
  | keyboard (ifname : String)
  /-- The end of `information_request`. -/
  | enter (i : Nat)
  /-- `information_response` for an outstanding query. -/
  | response (i : Nat) (success : Bool) (items : List (List Char))
  deriving DecidableEq, Repr

/-- The commands of `socket_handler` that lead to `information_request`. The test
`len < 3` (the terminator is counted) is the missing bytes of the patterns, as in `job`. -/
def infoJob (buf : List Char) : Option (ReqInfo × String) :=
  match buf with
  | 'i' :: _ :: arg => some (.all, String.ofList arg)
  | 'c' :: _ :: arg => some (.cost, String.ofList arg)
  | 'b' :: _ :: arg => some (.bandwidth, String.ofList arg)
  | _ => none

/-- `information_request` up to the sending of the query. -/
def informationRequest (ifname : String) (client : Option (Nat × ReqInfo)) (s : State) : State :=
  let query : Query := ⟨s.nextId, ifname⟩
  { s with
    nextId := s.nextId + 1
    outstanding := s.outstanding ++ [query]
    entering := s.entering ++ (client.map fun c => ⟨query, c.1, c.2⟩).toList }

/-- The loop over `_waitlist`, and whether `respond` has thrown an exception. -/
def respondAll (source : Query) (failed : List Nat) (data : List Char) :
    List Request → List Message × Bool
  | [] => ([], false)
  | request :: rest =>
    match respond request.reqType data with
    | none => ([], true)
    | some text =>
      let (messages, thrown) := respondAll source failed data rest
      (⟨request, source, text, decide (request.query.id ∈ failed)⟩ :: messages, thrown)

/-- The loop over the items of a result. -/
def respondItems (source : Query) : List (List Char) → State → State
  | [], s => s
  | data :: items, s =>
    let (messages, thrown) := respondAll source s.failed data s.waitlist
    if thrown then { s with sent := s.sent ++ messages, dead := true }
    else respondItems source items { s with sent := s.sent ++ messages, waitlist := [] }

/-- `information_response` -/
def informationResponse (source : Query) (success : Bool) (items : List (List Char)) (s : State) :
    State :=
  if success then respondItems source items { s with results := (source, items) :: s.results }
  else { s with failed := source.id :: s.failed }

def step (s : State) (a : Act) : Option State :=
  if s.dead then none
  else
    match a with
    | .datagram port buf =>
      (infoJob buf).map fun (reqType, ifname) =>
        informationRequest ifname (some (port, reqType)) s
    | .keyboard ifname => some (informationRequest ifname none s)
    | .enter i =>
      (s.entering[i]?).map fun request =>
        { s with entering := s.entering.eraseIdx i, waitlist := s.waitlist ++ [request] }
    | .response i success items =>
      (s.outstanding[i]?).map fun source =>
        informationResponse source success items
          { s with outstanding := s.outstanding.eraseIdx i }

/-- The message is what `respond` makes of an item of its query's result. -/
def Message.Taken (m : Message) (s : State) : Prop :=
  ∃ items, (m.source, items) ∈ s.results ∧
    ∃ data ∈ items, respond m.request.reqType data = some m.text

/-- **A message answers its request**: the query it is taken from was for the interface
the client asked about, and it came before any failure of the client's own query. -/
def Message.Answers (m : Message) : Prop :=
  m.source.ifname = m.request.query.ifname ∧ m.late = false

/-- Whenever a result with an item arrives, everybody on the list has asked about that
query's interface, and nobody's own query has failed. -/
def ok (s : State) : Act → Prop
  | .response i true (_ :: _) => ∀ source ∈ s.outstanding[i]?, ∀ request ∈ s.waitlist,
      source.ifname = request.query.ifname ∧ request.query.id ∉ s.failed
  | _ => True

instance decOk (s : State) : (a : Act) → Decidable (ok s a)
  | .response i true (_ :: _) =>
    inferInstanceAs (Decidable (∀ source ∈ s.outstanding[i]?, ∀ request ∈ s.waitlist,
      source.ifname = request.query.ifname ∧ request.query.id ∉ s.failed))
  | .response _ true [] | .response _ false _ | .datagram _ _ | .keyboard _ | .enter _ =>
    isTrue trivial

/-! ## What a response sends -/

/-- The requests that have a message or will get one, by number. -/
def State.ids (s : State) : List Nat :=
  s.sent.map (·.request.query.id) ++ (s.waitlist ++ s.entering).map (·.query.id)

/-- The messages of one item: to the clients on the list, in its order, up to an
exception. -/
theorem respondAll_ids (source : Query) (failed : List Nat) (data : List Char)
    (waitlist : List Request) :
    (respondAll source failed data waitlist).1.map (·.request.query.id) <+:
        waitlist.map (·.query.id) ∧
      ((respondAll source failed data waitlist).2 = false →
        (respondAll source failed data waitlist).1.map (·.request.query.id) =
          waitlist.map (·.query.id)) := by
  induction waitlist with
  | nil => exact ⟨List.prefix_refl _, fun _ => rfl⟩
  | cons request rest ih =>
    unfold respondAll
    cases respond request.reqType data with
    | none => exact ⟨List.nil_prefix, fun h => nomatch h⟩
    | some text =>
      refine ⟨?_, fun h => ?_⟩
      · exact (List.prefix_cons_inj _).mpr ih.1
      · exact congrArg _ (ih.2 h)

theorem respondAll_mem {source : Query} {failed : List Nat} {data : List Char}
    {waitlist : List Request} {m : Message}
    (hm : m ∈ (respondAll source failed data waitlist).1) :
    m.request ∈ waitlist ∧ m.source = source ∧ m.late = decide (m.request.query.id ∈ failed) ∧
      respond m.request.reqType data = some m.text := by
  induction waitlist with
  | nil => cases hm
  | cons request rest ih =>
    unfold respondAll at hm
    cases hr : respond request.reqType data with
    | none => rw [hr] at hm; cases hm
    | some text =>
      rw [hr] at hm
      rcases List.mem_cons.mp hm with rfl | hrest
      · exact ⟨List.mem_cons_self, rfl, rfl, hr⟩
      · exact ⟨List.mem_cons_of_mem _ (ih hrest).1, (ih hrest).2⟩

/-- What a loop over the items of a result does: it sends messages taken from them to
clients on the list, one each. -/
structure Served (source : Query) (items : List (List Char)) (s s' : State) : Prop where
  nextId : s'.nextId = s.nextId
  failed : s'.failed = s.failed
  results : s'.results = s.results
  entering : s'.entering = s.entering
  sent : ∀ m ∈ s'.sent, m ∈ s.sent ∨ (m.request ∈ s.waitlist ∧ m.source = source ∧
    m.late = decide (m.request.query.id ∈ s.failed) ∧
    ∃ data ∈ items, respond m.request.reqType data = some m.text)
  ids : s'.dead = false → s'.ids = s.ids
  sentIds : s'.sent.map (·.request.query.id) <+: s.ids

theorem respondItems_served (source : Query) (items : List (List Char)) :
    ∀ s, Served source items s (respondItems source items s) := by
  induction items with
  | nil =>
    intro s
    exact ⟨rfl, rfl, rfl, rfl, fun m hm => Or.inl hm, fun _ => rfl, List.prefix_append _ _⟩
  | cons data items ih =>
    intro s
    have hids := respondAll_ids source s.failed data s.waitlist
    have hmem : ∀ {m}, m ∈ s.sent ++ (respondAll source s.failed data s.waitlist).1 →
        m ∈ s.sent ∨ (m.request ∈ s.waitlist ∧ m.source = source ∧
          m.late = decide (m.request.query.id ∈ s.failed) ∧
          ∃ d ∈ data :: items, respond m.request.reqType d = some m.text) := by
      intro m hm
      refine (List.mem_append.mp hm).imp_right fun hnew => ?_
      obtain ⟨hreq, hsource, hlate, htext⟩ := respondAll_mem hnew
      exact ⟨hreq, hsource, hlate, data, List.mem_cons_self, htext⟩
    unfold respondItems
    cases hthrown : (respondAll source s.failed data s.waitlist).2 with
    | true =>
      simp only [hthrown, if_true]
      refine ⟨rfl, rfl, rfl, rfl, fun m hm => hmem hm, fun h => (nomatch h), ?_⟩
      show List.map _ (s.sent ++ _) <+: s.ids
      unfold State.ids
      rw [List.map_append, List.map_append, List.prefix_append_right_inj]
      exact hids.1.trans (List.prefix_append _ _)
    | false =>
      simp only [hthrown, if_false, Bool.false_eq_true]
      have h := ih { s with
        sent := s.sent ++ (respondAll source s.failed data s.waitlist).1, waitlist := [] }
      have heq : State.ids { s with
          sent := s.sent ++ (respondAll source s.failed data s.waitlist).1, waitlist := [] } =
          s.ids := by
        unfold State.ids
        rw [List.map_append, hids.2 hthrown, List.nil_append, List.map_append, List.append_assoc]
      refine ⟨h.nextId, h.failed, h.results, h.entering, fun m hm => ?_, fun hd => ?_, ?_⟩
      · rcases h.sent m hm with hold | ⟨hreq, -⟩
        · exact hmem hold
        · cases hreq
      · exact (h.ids hd).trans heq
      · rw [← heq]
        exact h.sentIds

/-! ## The invariant -/

structure Inv (s : State) : Prop where
  /-- A request is on its way to the list, on it, or has its message. -/
  apart : s.dead = false → s.ids.Nodup
  once : (s.sent.map (·.request.query.id)).Nodup
  bound : s.dead = false → ∀ id ∈ s.ids, id < s.nextId
  taken : ∀ m ∈ s.sent, m.Taken s

theorem init_inv : Inv init :=
  ⟨fun _ => List.nodup_nil, List.nodup_nil, (fun _ _ hid => nomatch hid), fun _ hm => nomatch hm⟩

theorem request_inv {s : State} (h : Inv s) (hd : s.dead = false) (ifname : String)
    (client : Option (Nat × ReqInfo)) : Inv (informationRequest ifname client s) := by
  have hids : (informationRequest ifname client s).ids =
      s.ids ++ (client.map fun _ => s.nextId).toList := by
    unfold informationRequest State.ids
    cases client <;> simp
  have hnew : ∀ id ∈ (client.map fun _ => s.nextId).toList, id = s.nextId := by
    intro id hid
    cases client with
    | none => cases hid
    | some c => exact List.mem_singleton.mp hid
  refine ⟨fun _ => ?_, h.once, fun _ id hid => ?_, h.taken⟩
  · rw [hids]
    refine List.Nodup.append (h.apart hd) ?_ ?_
    · cases client with
      | none => exact List.nodup_nil
      | some c => exact List.nodup_singleton _
    · intro id hold hid
      have := h.bound hd id hold
      rw [hnew id hid] at this
      exact Nat.lt_irrefl _ this
  · show id < s.nextId + 1
    rw [hids] at hid
    rcases List.mem_append.mp hid with hold | hid
    · exact Nat.lt_succ_of_lt (h.bound hd id hold)
    · rw [hnew id hid]
      exact Nat.lt_succ_self _

theorem enter_inv {s : State} {i : Nat} {request : Request} (h : Inv s) (hd : s.dead = false)
    (hi : s.entering[i]? = some request) :
    Inv { s with entering := s.entering.eraseIdx i, waitlist := s.waitlist ++ [request] } := by
  obtain ⟨hlt, hget⟩ := List.getElem?_eq_some_iff.mp hi
  have hperm : List.Perm (State.ids { s with
      entering := s.entering.eraseIdx i, waitlist := s.waitlist ++ [request] }) s.ids := by
    unfold State.ids
    refine List.Perm.append_left _ (List.Perm.map _ ?_)
    rw [List.append_assoc, List.singleton_append, ← hget]
    exact List.Perm.append_left _ (List.getElem_cons_eraseIdx_perm hlt)
  refine ⟨fun _ => hperm.nodup_iff.mpr (h.apart hd), h.once, fun _ id hid => ?_, h.taken⟩
  exact h.bound hd id (hperm.mem_iff.mp hid)

theorem response_inv {s : State} {i : Nat} {success : Bool} {items : List (List Char)}
    {source : Query} (h : Inv s) (hd : s.dead = false) :
    Inv (informationResponse source success items
      { s with outstanding := s.outstanding.eraseIdx i }) := by
  unfold informationResponse
  cases success with
  | false => exact ⟨h.apart, h.once, h.bound, h.taken⟩
  | true =>
    have hserved := respondItems_served source items
      { s with
        outstanding := s.outstanding.eraseIdx i, results := (source, items) :: s.results }
    refine ⟨fun hd' => ?_, ?_, fun hd' id hid => ?_, fun m hm => ?_⟩
    · exact (hserved.ids hd').symm ▸ h.apart hd
    · exact (h.apart hd).sublist hserved.sentIds.sublist
    · have hid' : id ∈ s.ids := hserved.ids hd' ▸ hid
      exact Nat.lt_of_lt_of_eq (h.bound hd id hid') hserved.nextId.symm
    · unfold Message.Taken
      rw [if_pos rfl, hserved.results]
      rcases hserved.sent m hm with hold | ⟨-, hsource, -, hdata⟩
      · obtain ⟨items', hin, hrest⟩ := h.taken m hold
        exact ⟨items', List.mem_cons_of_mem _ hin, hrest⟩
      · exact ⟨items, by rw [hsource]; exact List.mem_cons_self, hdata⟩

theorem step_inv {s s' : State} {a : Act} (h : Inv s) (hs : step s a = some s') : Inv s' := by
  unfold step at hs
  split at hs
  next => cases hs
  next hdead =>
    have hd : s.dead = false := Bool.eq_false_iff.mpr hdead
    cases a with
    | datagram port buf =>
      obtain ⟨⟨reqType, ifname⟩, -, rfl⟩ := Option.map_eq_some_iff.mp hs
      exact request_inv h hd _ _
    | keyboard ifname => cases hs; exact request_inv h hd _ _
    | enter i =>
      obtain ⟨request, hi, rfl⟩ := Option.map_eq_some_iff.mp hs
      exact enter_inv h hd hi
    | response i success items =>
      obtain ⟨source, hi, rfl⟩ := Option.map_eq_some_iff.mp hs
      exact response_inv h hd

/-- Under the condition every message that is sent answers its request. -/
theorem step_answers {s s' : State} {a : Act} (h : ∀ m ∈ s.sent, m.Answers) (hok : ok s a)
    (hs : step s a = some s') : ∀ m ∈ s'.sent, m.Answers := by
  unfold step at hs
  split at hs
  next => cases hs
  next =>
    cases a with
    | datagram port buf =>
      obtain ⟨⟨reqType, ifname⟩, -, rfl⟩ := Option.map_eq_some_iff.mp hs
      exact h
    | keyboard ifname => cases hs; exact h
    | enter i =>
      obtain ⟨request, -, rfl⟩ := Option.map_eq_some_iff.mp hs
      exact h
    | response i success items =>
      obtain ⟨source, hi, rfl⟩ := Option.map_eq_some_iff.mp hs
      cases success with
      | false => exact h
      | true =>
        intro m hm
        have hserved := respondItems_served source items
          { s with
            outstanding := s.outstanding.eraseIdx i, results := (source, items) :: s.results }
        rcases hserved.sent m hm with hold | ⟨hreq, hsource, hlate, data, hdata, -⟩
        · exact h m hold
        · cases items with
          | nil => cases hdata
          | cons item items =>
            obtain ⟨hname, hfailed⟩ := hok source hi m.request hreq
            refine ⟨by rw [hsource]; exact hname, ?_⟩
            rw [hlate]
            exact decide_eq_false hfailed

/-- **Information replies**, over every interleaving of requests and responses: each
message is made from an item of some query's result, and no request gets two. If
whenever a result arrives everybody on the list has asked about its interface and
nobody's own query has failed, then each message answers its request. -/
theorem answered_of_run (as : List Act) {s : State} (hr : run step init as = some s) :
    (s.sent.map (·.request.query.id)).Nodup ∧ (∀ m ∈ s.sent, m.Taken s) ∧
      (Meets step ok init as → ∀ m ∈ s.sent, m.Answers) := by
  have h : Inv s := run_inv_all step_inv as init_inv hr
  refine ⟨h.once, h.taken, fun hok => ?_⟩
  exact run_inv (I := fun s => ∀ m ∈ s.sent, m.Answers) step_answers as (fun m hm => nomatch hm)
    hok hr

/-- The result for an interface with the given cost. -/
def costResult (cost : String) : List Char :=
  ("<binding name=\"cost_value\"><literal>" ++ cost ++ "</literal></binding>").toList

/-- Two clients ask about `wlan0`, and the first result serves both; when the second
has arrived, one asks about `eth0`. -/
def oneByOne : List Act :=
  [.datagram 4001 "c wlan0".toList, .enter 0, .datagram 4002 "c wlan0".toList, .enter 0,
   .response 0 true [costResult "20"], .response 0 true [costResult "20"],
   .datagram 4001 "c eth0".toList, .enter 0, .response 0 true [costResult "5", costResult "6"]]

theorem answered_of_run_oneByOne :
    ∃ s, run step init oneByOne = some s ∧
      s.sent.map (fun m => (m.request.port, m.text)) =
        [(4001, "20".toList), (4002, "20".toList), (4001, "5".toList)] ∧
      ∀ m ∈ s.sent, m.Answers :=
  ⟨_, rfl, by decide, (answered_of_run oneByOne rfl).2.2 (by decide)⟩

/-- Requests about two interfaces overlap. -/
def overlapping : List Act :=
  [.datagram 4001 "c wlan0".toList, .enter 0, .datagram 4002 "c eth0".toList, .enter 0,
   .response 1 true [costResult "5"]]

/-- **A client gets another interface's numbers.** The client that asked for the cost of
`wlan0` is told that of `eth0`. -/
theorem overlapping_requests_are_mixed_up :
    ∃ s, run step init overlapping = some s ∧
      (∃ m ∈ s.sent, m.request.query.ifname = "wlan0" ∧ m.source.ifname = "eth0" ∧
        m.text = "5".toList ∧ ¬ m.Answers) := by
  refine ⟨_, rfl, _, List.mem_cons_self, by decide, by decide, by decide, ?_⟩
  intro h
  exact absurd h.1 (by decide)

end Manhattan.Mih.Information
