import Mathlib.Data.List.Nodup
import Manhattan.Lib.Run
import Manhattan.Mih.Transaction

/-!
# Whom an answer is for

A user's request goes out under the name of the MIH function and under an identifier of its
own; `local_transaction_pool` remembers the user and the identifier that the user gave. The
answer of the peer is looked up by its sender and identifier and gets both back
(`set_user_tid`). A request to a link SAP keeps its identifier. One to another MIH function
gets the next one of `message_out`, unless its own one is that of a source transaction with
the peer: then it takes the place of that transaction's message. `set_remote_tid` looks for
the entry *by the identifier of the user* among the identifiers of the network.

> `answers_to_askers`: as long as no identifier that goes out, and none that a message comes
> to `message_out` under, is pending with the same peer, every answer goes to the user that
> asked, under the identifier of that user.
>
> `answers_swapped`: a request whose identifier is pending with its peer changes places with
> the pending one, so that each of the two users gets the answer of the other, if the pending
> one has no transaction any more. If it has, the next answer is for the first user,
> whichever request it answers.

Mirroring notes:
- The list is locked by each operation. Between `add` and `set_remote_tid` other operations
  can come; here the two are one step.
- An entry whose answer never comes is never removed, so the pending identifiers are those of
  all requests without an answer, however old.
- Of a source transaction only the peer and the identifier are kept, from its start until it
  leaves `_tpool`; one that is over at once leaves in the next step.
- `_tid` has 16 bits, starts anywhere and leaves out zero.
- `del` has no caller.
-/

namespace Manhattan.Mih.LocalPool

open Manhattan.Lib
open Manhattan.Mih.Transaction (Id Message nextTid)

/-- `pending_transaction` -/
structure Pending where
  user : Id
  destination : Id
  ltid : UInt16
  rtid : UInt16
deriving DecidableEq, Repr

abbrev Pool := List Pending

def Pending.key (e : Pending) : Id × UInt16 := (e.destination, e.rtid)

/-- The comparison of `find`. -/
def Pending.is (dst : Id) (tid : UInt16) (e : Pending) : Bool :=
  e.destination == dst && e.rtid == tid

namespace Pool

def find (p : Pool) (dst : Id) (tid : UInt16) : Option Pending := p.find? (Pending.is dst tid)

def add (p : Pool) (m : Message) : Pool := p ++ [⟨m.source, m.destination, m.tid, m.tid⟩]

def setRemoteTid (dst : Id) (ltid rtid : UInt16) : Pool → Pool
  | [] => []
  | e :: p =>
    if e.is dst ltid then { e with rtid := rtid } :: p else e :: setRemoteTid dst ltid rtid p

/-- `set_user_tid`: the message and the pool after it, if there is an entry. -/
def setUserTid (p : Pool) (m : Message) : Option (Message × Pool) :=
  (p.find m.source m.tid).map fun e =>
    ({ m with tid := e.ltid, destination := e.user }, p.eraseP (Pending.is m.source m.tid))

/-- `add`, and `set_remote_tid` with the new identifier `tid`. -/
def forward (p : Pool) (m : Message) (tid : UInt16) : Pool :=
  setRemoteTid m.destination m.tid tid (p.add m)

/-- The user and the identifier that an answer is given back to. -/
def owner (p : Pool) (dst : Id) (tid : UInt16) : Option (Id × UInt16) :=
  (p.find dst tid).map fun e => (e.user, e.ltid)

/-! ## Look-ups -/

theorem is_iff {dst : Id} {tid : UInt16} {e : Pending} :
    e.is dst tid = true ↔ e.key = (dst, tid) := by
  simp [Pending.is, Pending.key]

/-- No two entries are found by one look-up. -/
def Keyed (p : Pool) : Prop := (p.map Pending.key).Nodup

theorem find_cons (e : Pending) (p : Pool) (dst : Id) (tid : UInt16) :
    find (e :: p) dst tid = if e.is dst tid then some e else find p dst tid := by
  unfold find
  rw [List.find?_cons]
  cases e.is dst tid <;> rfl

theorem find_eq_none {p : Pool} {dst : Id} {tid : UInt16} :
    p.find dst tid = none ↔ (dst, tid) ∉ p.map Pending.key := by
  unfold find
  rw [List.find?_eq_none, List.mem_map]
  exact ⟨fun h ⟨e, he, hk⟩ => h e he (is_iff.mpr hk), fun h e he hk => h ⟨e, he, is_iff.mp hk⟩⟩

/-- The first entry that is found, with what stands before it. -/
theorem find_split {p : Pool} {dst : Id} {tid : UInt16} {e : Pending}
    (h : p.find dst tid = some e) :
    ∃ l r, p = l ++ e :: r ∧ l.find dst tid = none ∧ e.key = (dst, tid) := by
  induction p with
  | nil => cases h
  | cons e' p ih =>
    rw [find_cons] at h
    split at h
    · next his =>
      cases h
      exact ⟨[], p, rfl, rfl, is_iff.mp his⟩
    · next his =>
      obtain ⟨l, r, rfl, hl, hk⟩ := ih h
      refine ⟨e' :: l, r, rfl, ?_, hk⟩
      rw [find_cons, if_neg his]
      exact hl

theorem setRemoteTid_append {l p : Pool} {dst : Id} {ltid rtid : UInt16}
    (h : l.find dst ltid = none) :
    setRemoteTid dst ltid rtid (l ++ p) = l ++ setRemoteTid dst ltid rtid p := by
  induction l with
  | nil => rfl
  | cons e l ih =>
    rw [find_cons] at h
    split at h
    · cases h
    · next his =>
      rw [List.cons_append, setRemoteTid, if_neg his, ih h, List.cons_append]

theorem setRemoteTid_of_none {p : Pool} {dst : Id} {ltid rtid : UInt16}
    (h : p.find dst ltid = none) : setRemoteTid dst ltid rtid p = p := by
  have happ : setRemoteTid dst ltid rtid (p ++ []) = p ++ setRemoteTid dst ltid rtid [] :=
    setRemoteTid_append h
  rwa [setRemoteTid, List.append_nil] at happ

theorem setRemoteTid_cons {p : Pool} {dst : Id} {ltid : UInt16} {e : Pending} (rtid : UInt16)
    (h : e.key = (dst, ltid)) :
    setRemoteTid dst ltid rtid (e :: p) = { e with rtid := rtid } :: p :=
  if_pos (is_iff.mpr h)

/-- A look-up in a list with one entry singled out. -/
theorem find_middle (l r : Pool) (e : Pending) (dst : Id) (tid : UInt16) :
    find (l ++ e :: r) dst tid =
      (l.find dst tid).or (if e.is dst tid then some e else r.find dst tid) := by
  unfold find
  rw [List.find?_append, List.find?_cons]
  cases e.is dst tid <;> rfl

theorem is_eq_false {dst : Id} {tid : UInt16} {e : Pending} (h : e.key ≠ (dst, tid)) :
    ¬e.is dst tid = true :=
  fun his => h (is_iff.mp his)

/-! ## One operation -/

/-- The identifier of the request is not pending with the peer. -/
theorem forward_of_none {p : Pool} {m : Message} (tid : UInt16)
    (h : p.find m.destination m.tid = none) :
    p.forward m tid = p ++ [⟨m.source, m.destination, m.tid, tid⟩] := by
  unfold forward add
  rw [setRemoteTid_append h, setRemoteTid_cons (e := ⟨_, _, _, _⟩) tid rfl]

/-- It is: the pending entry gets the new identifier, and the new entry keeps the old one. -/
theorem forward_of_some {l r : Pool} {e : Pending} {m : Message} (tid : UInt16)
    (hl : l.find m.destination m.tid = none) (he : e.key = (m.destination, m.tid)) :
    forward (l ++ e :: r) m tid =
      l ++ { e with rtid := tid } :: (r ++ [⟨m.source, m.destination, m.tid, m.tid⟩]) := by
  unfold forward add
  rw [List.append_assoc, setRemoteTid_append hl, List.cons_append, setRemoteTid_cons tid he]

theorem owner_middle (l r : Pool) (e : Pending) (dst : Id) (tid : UInt16) :
    owner (l ++ e :: r) dst tid =
      (l.owner dst tid).or
        (if e.key = (dst, tid) then some (e.user, e.ltid) else r.owner dst tid) := by
  unfold owner
  rw [find_middle, Option.map_or]
  by_cases he : e.key = (dst, tid)
  · rw [if_pos (is_iff.mpr he), if_pos he]
    rfl
  · rw [if_neg (is_eq_false he), if_neg he]

theorem owner_eq_none {p : Pool} {dst : Id} {tid : UInt16} :
    p.owner dst tid = none ↔ (dst, tid) ∉ p.map Pending.key :=
  Option.map_eq_none_iff.trans find_eq_none

theorem Keyed.append {p : Pool} {e : Pending} (hk : Keyed p) (he : e.key ∉ p.map Pending.key) :
    Keyed (p ++ [e]) := by
  show ((p ++ [e]).map Pending.key).Nodup
  rw [List.map_append, List.map_singleton]
  exact (List.perm_append_singleton _ _).nodup_iff.mpr (List.nodup_cons.mpr ⟨he, hk⟩)

/-- A new entry is found behind all others. -/
theorem owner_add (p : Pool) (m : Message) (d : Id) (t : UInt16) :
    (p.add m).owner d t =
      (p.owner d t).or (if (m.destination, m.tid) = (d, t) then some (m.source, m.tid) else none) :=
  owner_middle p [] _ d t

theorem Keyed.setRemoteTid {p : Pool} {dst : Id} {ltid rtid : UInt16} (hk : Keyed p)
    (hfresh : p.owner dst rtid = none) : Keyed (Pool.setRemoteTid dst ltid rtid p) := by
  cases hfind : p.find dst ltid with
  | none => rwa [setRemoteTid_of_none hfind]
  | some e =>
    obtain ⟨l, r, rfl, hl, he⟩ := find_split hfind
    rw [setRemoteTid_append hl, setRemoteTid_cons rtid he]
    have hek : ({ e with rtid := rtid } : Pending).key = (dst, rtid) :=
      congrArg (·, rtid) (congrArg Prod.fst he)
    have hk' : ((l ++ e :: r).map Pending.key).Nodup := hk
    have hnew := owner_eq_none.mp hfresh
    show ((l ++ _ :: r).map Pending.key).Nodup
    rw [List.map_append, List.map_cons] at hk' hnew ⊢
    rw [hek]
    have hrest := List.nodup_cons.mp (List.nodup_middle.mp hk')
    refine List.nodup_middle.mpr (List.nodup_cons.mpr ⟨fun hmem => hnew ?_, hrest.2⟩)
    exact (List.mem_append.mp hmem).elim (List.mem_append_left _) fun h =>
      List.mem_append_right _ (List.mem_cons_of_mem _ h)

/-- **What the two do to the answers.** The new identifier belongs to the user
that has the identifier of the request with the peer already, if there is one, and that
identifier goes to the user that asks now. -/
theorem owner_forward {p : Pool} {m : Message} {tid : UInt16} (hk : Keyed p)
    (hfresh : p.owner m.destination tid = none) :
    Keyed (p.forward m tid) ∧ ∀ d t, (p.forward m tid).owner d t =
      if (m.destination, tid) = (d, t) then
        some ((p.owner m.destination m.tid).getD (m.source, m.tid))
      else if (m.destination, m.tid) = (d, t) then
        (p.owner m.destination m.tid).map fun _ => (m.source, m.tid)
      else p.owner d t := by
  have hnew := owner_eq_none.mp hfresh
  cases hfind : p.find m.destination m.tid with
  | none =>
    have hown : p.owner m.destination m.tid = none := by rw [owner, hfind]; rfl
    rw [forward_of_none tid hfind, hown]
    refine ⟨hk.append hnew, fun d t => ?_⟩
    rw [owner_middle]
    show Option.or _ (if (m.destination, tid) = (d, t) then _ else _) = _
    split
    · next h => cases h; rw [hfresh]; rfl
    · split
      · next h => cases h; rw [hown]; rfl
      · exact Option.or_none
  | some e =>
    obtain ⟨l, r, rfl, hl, he⟩ := find_split hfind
    have hown : owner (l ++ e :: r) m.destination m.tid = some (e.user, e.ltid) := by
      rw [owner, hfind]
      rfl
    rw [forward_of_some tid hl he, hown]
    have hkeys : (l.map Pending.key ++ (m.destination, m.tid) :: r.map Pending.key).Nodup := by
      have hk' : ((l ++ e :: r).map Pending.key).Nodup := hk
      rwa [List.map_append, List.map_cons, he] at hk'
    rw [List.map_append, List.map_cons, he] at hnew
    have hek : ({ e with rtid := tid } : Pending).key = (m.destination, tid) :=
      congrArg (·, tid) (congrArg Prod.fst he)
    refine ⟨?_, fun d t => ?_⟩
    · -- the keys are the old ones and the new one, in another order
      show ((l ++ _ :: (r ++ [_])).map Pending.key).Nodup
      rw [List.map_append, List.map_cons, List.map_append, List.map_singleton, hek]
      refine (List.Perm.nodup_iff (List.perm_middle.trans (.cons _ ?_))).mpr
        (List.nodup_cons.mpr ⟨hnew, hkeys⟩)
      exact (List.perm_append_singleton _ _).append_left _
    · have hr : (m.destination, m.tid) ∉ r.map Pending.key :=
        (List.nodup_cons.mp (List.nodup_append.mp hkeys).2.1).1
      have hl' : l.owner m.destination m.tid = none := by rw [owner, hl]; rfl
      have hlnew : l.owner m.destination tid = none :=
        owner_eq_none.mpr fun h => hnew (List.mem_append_left _ h)
      rw [owner_middle, owner_middle l r, owner_middle r [], he, hek]
      show Option.or _ (if (m.destination, tid) = (d, t) then _ else
        Option.or _ (if (m.destination, m.tid) = (d, t) then _ else none)) = _
      split
      · next h => cases h; rw [hlnew]; rfl
      · split
        · next h => cases h; rw [hl', owner_eq_none.mpr hr]; rfl
        · rw [Option.or_none]

/-- The entry that an answer finds goes with it. -/
theorem setUserTid_middle {l r : Pool} {e : Pending} {a : Message}
    (hl : l.find a.source a.tid = none) (he : e.key = (a.source, a.tid)) :
    setUserTid (l ++ e :: r) a =
      some ({ a with tid := e.ltid, destination := e.user }, l ++ r) := by
  have hfind : find (l ++ e :: r) a.source a.tid = some e := by
    rw [find_middle, hl, if_pos (is_iff.mpr he)]
    rfl
  have herase : (l ++ e :: r).eraseP (Pending.is a.source a.tid) = l ++ r := by
    rw [List.eraseP_append_right _ (List.find?_eq_none.mp hl),
      List.eraseP_cons_of_pos (is_iff.mpr he)]
  rw [setUserTid, hfind, Option.map_some, herase]

/-- An answer takes its entry with it. -/
theorem setUserTid_owner {p : Pool} {a : Message} (hk : Keyed p) :
    match p.setUserTid a with
    | none => p.owner a.source a.tid = none
    | some (a', p') => p.owner a.source a.tid = some (a'.destination, a'.tid) ∧
        a' = { a with destination := a'.destination, tid := a'.tid } ∧ Keyed p' ∧
        ∀ d t, p'.owner d t = if (a.source, a.tid) = (d, t) then none else p.owner d t := by
  cases hfind : p.find a.source a.tid with
  | none =>
    rw [setUserTid, hfind]
    exact Option.map_eq_none_iff.mpr hfind
  | some e =>
    obtain ⟨l, r, rfl, hl, he⟩ := find_split hfind
    have hkeys : (l.map Pending.key ++ (a.source, a.tid) :: r.map Pending.key).Nodup := by
      have hk' : ((l ++ e :: r).map Pending.key).Nodup := hk
      rwa [List.map_append, List.map_cons, he] at hk'
    have hgone := List.nodup_cons.mp (List.nodup_middle.mp hkeys)
    rw [setUserTid_middle hl he, owner, hfind]
    refine ⟨rfl, rfl, ?_, fun d t => ?_⟩
    · show ((l ++ r).map Pending.key).Nodup
      rw [List.map_append]
      exact hgone.2
    · split
      · next h =>
        cases h
        exact owner_eq_none.mpr (by rw [List.map_append]; exact hgone.1)
      · next h =>
        rw [owner_middle, he, if_neg h]
        unfold owner find
        rw [List.find?_append, Option.map_or]

end Pool

/-! ## All operations -/

/-- What `message_out` reads and writes: the local pool, the identifier that was given last,
and the peer and identifier of each source transaction in `_tpool`. -/
structure State where
  tid : UInt16
  pool : Pool := []
  srcs : List (Id × UInt16) := []
deriving DecidableEq, Repr

namespace State

/-- The look-up of a source transaction. -/
def live (s : State) (m : Message) : Bool := s.srcs.contains (m.destination, m.tid)

/-- `message_out::new_src_transaction` -/
def newSrcTransaction (s : State) (m : Message) : State :=
  let tid := nextTid s.tid
  { tid := tid
    pool := Pool.setRemoteTid m.destination m.tid tid s.pool
    srcs := (m.destination, tid) :: s.srcs }

/-- `message_out::operator()` for a request or an indication; a transaction that is found
sends the message under the identifier that it has. -/
def messageOut (s : State) (m : Message) : State :=
  if s.live m then s else s.newSrcTransaction m

/-- `forward_request` -/
def forwardRequest (s : State) (m : Message) : State :=
  messageOut { s with pool := s.pool.add m } m

/-- The identifier that a message goes out under. -/
def outTid (s : State) (m : Message) : UInt16 := if s.live m then m.tid else nextTid s.tid

end State

/-- What happens to the pool: a request to a link SAP, one to another MIH function with the
identifier it gets, a message that nobody waits for an answer of, a response that comes too
late for its transaction, the end of a source transaction, and an answer. -/
inductive Op
  | ask (m : Message)
  | forward (m : Message) (tid : UInt16)
  | send (m : Message)
  | late (m : Message)
  | ended (peer : Id) (tid : UInt16)
  | answer (a : Message)

def step (s : State) : Op → Option State
  | .ask m => some { s with pool := s.pool.add m }
  | .forward m tid => if tid = s.outTid m then some (s.forwardRequest m) else none
  | .send m => some (s.messageOut m)
  | .late m => some (s.newSrcTransaction m)
  | .ended peer tid => some { s with srcs := s.srcs.erase (peer, tid) }
  | .answer a => (s.pool.setUserTid a).map fun r => { s with pool := r.2 }

/-- An identifier that goes out is not pending with its destination. -/
def Fresh (s : State) : Op → Prop
  | .ask m => s.pool.owner m.destination m.tid = none
  | .forward m tid => s.pool.owner m.destination tid = none
  | .send m => s.live m = false → s.pool.owner m.destination (nextTid s.tid) = none
  | .late m => s.pool.owner m.destination (nextTid s.tid) = none
  | .ended _ _ => True
  | .answer _ => True

/-- Nor is the one that a message comes to `message_out` under, if it has no transaction. -/
def Apart (s : State) (o : Op) : Prop :=
  Fresh s o ∧ match o with
    | .forward m _ => s.pool.owner m.destination m.tid = none
    | .send m => s.live m = false → s.pool.owner m.destination m.tid = none
    | .late m => s.pool.owner m.destination m.tid = none
    | _ => True

namespace State

variable {s s' : State} {m : Message}

theorem forwardRequest_live (h : s.live m = true) :
    (s.forwardRequest m).pool = s.pool.add m ∧ s.outTid m = m.tid :=
  ⟨congrArg State.pool (if_pos h), if_pos h⟩

theorem forwardRequest_new (h : ¬s.live m = true) :
    (s.forwardRequest m).pool = s.pool.forward m (nextTid s.tid) ∧
      s.outTid m = nextTid s.tid :=
  ⟨congrArg State.pool (if_neg h), if_neg h⟩

theorem messageOut_live (h : s.live m = true) : s.messageOut m = s := if_pos h

theorem messageOut_new (h : ¬s.live m = true) : s.messageOut m = s.newSrcTransaction m := if_neg h

end State

theorem keyed_step {s s' : State} {o : Op} (hk : s.pool.Keyed) (ho : Fresh s o)
    (h : step s o = some s') : s'.pool.Keyed := by
  cases o with
  | ask m =>
    cases h
    exact hk.append (Pool.owner_eq_none.mp ho)
  | forward m tid =>
    obtain ⟨rfl, ⟨⟩⟩ := Option.ite_none_right_eq_some.mp h
    have ho : s.pool.owner m.destination (s.outTid m) = none := ho
    -- the identifier that goes out is the one of the user, or the next of the counter
    by_cases hlive : s.live m = true
    · obtain ⟨hpool, htid⟩ := State.forwardRequest_live hlive
      rw [htid] at ho
      rw [hpool]
      exact hk.append (Pool.owner_eq_none.mp ho)
    · obtain ⟨hpool, htid⟩ := State.forwardRequest_new hlive
      rw [htid] at ho
      rw [hpool]
      exact (Pool.owner_forward hk ho).1
  | send m =>
    cases h
    by_cases hlive : s.live m = true
    · rwa [State.messageOut_live hlive]
    · rw [State.messageOut_new hlive]
      exact hk.setRemoteTid (ho (Bool.not_eq_true _ |>.mp hlive))
  | late m =>
    cases h
    exact hk.setRemoteTid ho
  | ended peer tid =>
    cases h
    exact hk
  | answer a =>
    obtain ⟨⟨a', p⟩, ha, rfl⟩ := Option.map_eq_some_iff.mp h
    have hspec := Pool.setUserTid_owner (a := a) hk
    rw [ha] at hspec
    exact hspec.2.2.1

/-! ## What the users expect -/

/-- The questions that wait for an answer: who has asked, by peer and identifier. -/
abbrev Asked := Id → UInt16 → Option (Id × UInt16)

/-- The operations on the questions themselves. -/
def Asked.step (q : Asked) : Op → Asked
  | .ask m => fun d t =>
    if (m.destination, m.tid) = (d, t) then some (m.source, m.tid) else q d t
  | .forward m tid => fun d t =>
    if (m.destination, tid) = (d, t) then some (m.source, m.tid) else q d t
  | .answer a => fun d t => if (a.source, a.tid) = (d, t) then none else q d t
  | _ => q

theorem owner_add_of_none {p : Pool} {m : Message} (h : p.owner m.destination m.tid = none) :
    (p.add m).owner = Asked.step p.owner (.forward m m.tid) := by
  funext d t
  rw [Pool.owner_add]
  show _ = if _ then _ else _
  split
  · next hd => cases hd; rw [h]; rfl
  · exact Option.or_none

theorem owner_forward_of_none {p : Pool} {m : Message} {tid : UInt16} (hk : p.Keyed)
    (hfresh : p.owner m.destination tid = none) (h : p.owner m.destination m.tid = none) :
    (p.forward m tid).owner = Asked.step p.owner (.forward m tid) := by
  funext d t
  rw [(Pool.owner_forward hk hfresh).2 d t, h]
  show _ = if _ then _ else _
  split
  · rfl
  · split
    · next hd => cases hd; exact h.symm
    · rfl

theorem newSrcTransaction_pool {s : State} {m : Message}
    (h : s.pool.owner m.destination m.tid = none) : (s.newSrcTransaction m).pool = s.pool :=
  Pool.setRemoteTid_of_none (Option.map_eq_none_iff.mp h)

/-- One operation does to the pool what it does to the questions. -/
theorem owner_step {s s' : State} {o : Op} (hk : s.pool.Keyed) (ho : Apart s o)
    (h : step s o = some s') : s'.pool.owner = Asked.step s.pool.owner o := by
  obtain ⟨hfresh, hapart⟩ := ho
  cases o with
  | ask m =>
    cases h
    exact owner_add_of_none hfresh
  | forward m tid =>
    obtain ⟨rfl, ⟨⟩⟩ := Option.ite_none_right_eq_some.mp h
    have hfresh : s.pool.owner m.destination (s.outTid m) = none := hfresh
    by_cases hlive : s.live m = true
    · obtain ⟨hpool, htid⟩ := State.forwardRequest_live hlive
      rw [hpool, htid]
      exact owner_add_of_none hapart
    · obtain ⟨hpool, htid⟩ := State.forwardRequest_new hlive
      rw [htid] at hfresh
      rw [hpool, htid]
      exact owner_forward_of_none hk hfresh hapart
  | send m =>
    cases h
    show (s.messageOut m).pool.owner = s.pool.owner
    -- `set_remote_tid` finds nothing under the identifier of a message nobody waits for
    by_cases hlive : s.live m = true
    · rw [State.messageOut_live hlive]
    · rw [State.messageOut_new hlive,
        newSrcTransaction_pool (hapart (Bool.not_eq_true _ |>.mp hlive))]
  | late m =>
    cases h
    exact congrArg Pool.owner (newSrcTransaction_pool hapart)
  | ended peer tid =>
    cases h
    rfl
  | answer a =>
    obtain ⟨⟨a', p⟩, ha, rfl⟩ := Option.map_eq_some_iff.mp h
    have hspec := Pool.setUserTid_owner (a := a) hk
    rw [ha] at hspec
    exact funext fun d => funext fun t => hspec.2.2.2 d t

/-- The pool holds exactly the questions, after any operations whose identifiers are apart. -/
theorem owner_run {ops : List Op} : ∀ {s s' : State}, s.pool.Keyed → Meets step Apart s ops →
    run step s ops = some s' →
    s'.pool.Keyed ∧ s'.pool.owner = ops.foldl Asked.step s.pool.owner := by
  induction ops with
  | nil => intro s s' hk _ h; cases h; exact ⟨hk, rfl⟩
  | cons o ops ih =>
    intro s s' hk hmeets h
    obtain ⟨s₁, h₁, h₂⟩ := run_cons h
    have hk₁ := keyed_step hk hmeets.1.1 h₁
    have hrest := ih hk₁ (hmeets.2 s₁ h₁) h₂
    rw [owner_step hk hmeets.1 h₁] at hrest
    exact hrest

theorem Pool.Keyed.setUserTid_fst {p : Pool} (hk : p.Keyed) (a : Message) :
    (p.setUserTid a).map (·.1) =
      (p.owner a.source a.tid).map fun u => { a with destination := u.1, tid := u.2 } := by
  have hspec := Pool.setUserTid_owner (a := a) hk
  cases hset : p.setUserTid a with
  | none =>
    rw [hset] at hspec
    rw [show p.owner a.source a.tid = none from hspec]
    rfl
  | some ap =>
    rw [hset] at hspec
    rw [hspec.1, Option.map_some, Option.map_some]
    exact congrArg some hspec.2.1

theorem keyed_nil : Pool.Keyed [] := List.nodup_nil

/-- **Answers go to those who asked.** Let no identifier that goes out be pending with its
destination, whoever has chosen it, and none that a message comes to `message_out` under.
Then after any requests, messages and answers, an answer is passed on exactly if there is a
question for it, and the user that asked gets it under the identifier that the user gave. -/
theorem answers_to_askers (first : UInt16) (ops : List Op) (s : State) (a : Message)
    (hmeets : Meets step Apart { tid := first } ops)
    (hrun : run step { tid := first } ops = some s) :
    (s.pool.setUserTid a).map (·.1) =
      (ops.foldl Asked.step (fun _ _ => none) a.source a.tid).map fun u =>
        { a with destination := u.1, tid := u.2 } := by
  obtain ⟨hk, hown⟩ := owner_run keyed_nil hmeets hrun
  rw [hk.setUserTid_fst, hown]
  rfl

/-- Two users ask one peer under one identifier, and the second one is answered first. -/
theorem answers_to_askers_two :
    let ops : List Op := [.forward { source := [1], destination := [9], tid := 7 } 1,
      .forward { source := [2], destination := [9], tid := 7 } 2,
      .answer { source := [9], tid := 2 }]
    ∃ s, Meets step Apart { tid := 65535 } ops ∧ run step { tid := 65535 } ops = some s ∧
      (s.pool.setUserTid { source := [9], tid := 1 }).map (·.1) =
        some { source := [9], destination := [1], tid := 7 } := by
  intro ops
  have hmeets : Meets step Apart { tid := 65535 } ops := by
    refine ⟨⟨rfl, rfl⟩, fun s₁ h₁ => ?_⟩
    obtain rfl := Option.some.inj h₁
    refine ⟨⟨rfl, rfl⟩, fun s₂ h₂ => ?_⟩
    obtain rfl := Option.some.inj h₂
    exact ⟨⟨trivial, trivial⟩, fun _ _ => trivial⟩
  exact ⟨_, hmeets, rfl, (answers_to_askers 65535 ops _ _ hmeets rfl).trans rfl⟩

/-- The pending request and the one that carries its identifier change places. -/
theorem Pool.Keyed.setUserTid_swapped {p : Pool} {m a : Message} {u : Id × UInt16} {tid : UInt16}
    (hk : p.Keyed) (hfresh : p.owner m.destination tid = none)
    (hpend : p.owner m.destination m.tid = some u) (ha : a.source = m.destination) :
    (a.tid = tid → ((p.forward m tid).setUserTid a).map (·.1) =
      some { a with destination := u.1, tid := u.2 }) ∧
    (a.tid = m.tid → ((p.forward m tid).setUserTid a).map (·.1) =
      some { a with destination := m.source, tid := m.tid }) := by
  obtain ⟨hk', hown⟩ := Pool.owner_forward (m := m) hk hfresh
  have hne : tid ≠ m.tid := by
    intro h
    rw [h] at hfresh
    cases hfresh.symm.trans hpend
  rw [hk'.setUserTid_fst, hown, ha, hpend]
  refine ⟨fun ht => ?_, fun ht => ?_⟩
  · rw [ht, if_pos rfl]
    rfl
  · rw [ht, if_neg fun h => hne (congrArg Prod.snd h), if_pos rfl]
    rfl

/-- Of two entries under one identifier the first is found, and then the second. -/
theorem Pool.Keyed.setUserTid_add {p : Pool} {m a : Message} {u : Id × UInt16} (hk : p.Keyed)
    (hpend : p.owner m.destination m.tid = some u) (ha : a.source = m.destination)
    (ht : a.tid = m.tid) :
    ∃ p', (p.add m).setUserTid a = some ({ a with destination := u.1, tid := u.2 }, p') ∧
      (p'.setUserTid a).map (·.1) = some { a with destination := m.source, tid := m.tid } := by
  obtain ⟨e, hfind, rfl⟩ := Option.map_eq_some_iff.mp hpend
  obtain ⟨l, r, rfl, hl, he⟩ := Pool.find_split hfind
  have hkeys := List.nodup_middle.mp
    (show (l.map Pending.key ++ e.key :: r.map Pending.key).Nodup by
      rw [← List.map_cons, ← List.map_append]
      exact hk)
  rw [he, ← List.map_append] at hkeys
  have hnone : Pool.find (l ++ r) a.source a.tid = none := by
    rw [ha, ht]
    exact Pool.find_eq_none.mpr (List.nodup_cons.mp hkeys).1
  rw [← ha, ← ht] at hl he
  refine ⟨l ++ r ++ [⟨m.source, m.destination, m.tid, m.tid⟩], ?_, ?_⟩
  · rw [Pool.add, List.append_assoc, List.cons_append, Pool.setUserTid_middle hl he,
      List.append_assoc]
  · have hnew : Pending.key ⟨m.source, m.destination, m.tid, m.tid⟩ = (a.source, a.tid) := by
      rw [ha, ht]
      rfl
    rw [Pool.setUserTid_middle hnone hnew]
    rfl

end Manhattan.Mih.LocalPool
