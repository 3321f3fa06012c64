import Manhattan.Lib.Run
import Manhattan.Lib.Chain
import Manhattan.Sined.Conmgr

/-!
# The connection table in memory

`Conmgr` takes the table of the connection manager for a list. In the source it is a
linked list with a dummy head node, `con_tbl_head`, and a pointer `con_tbl_tail` to the
last node, where `add_connection` links the next one. This file models the three
functions on the nodes and pointers themselves and shows that the two views agree after
every sequence of calls.

Mirroring notes:
- A call carries the answers it gets: the allocator (`Malloc`) places the new node at any
  address that is not in use, and `AddEnv` says which allocations succeed.
- The node's own `addr` and `app_desc` buffers are part of its content here; on the error
  path `add_connection` frees the node and not the path.
- `init_connection_table` clears the new node before it looks whether there is one, so a
  failed allocation there is a write through a null pointer (`none`), as is a node linked
  or looked for before the table exists.

`connection_list_refines` is the result: the chain holds what the list model says, and
no pointer leads to a freed node.
-/

namespace Manhattan.Sined.ConnectionList

open Manhattan.Lib

/-- The heap with `con_tbl_head` and `con_tbl_tail`. -/
abbrev State := LinkedTable Connection

/-- A node after `memset`. -/
def cleared : Connection := ⟨0, none, 0, 0, [], 0, 0⟩

/-- `init_connection_table` -/
def initConnectionTable (malloc : Malloc Connection) (mallocOk : Bool) (s : State) :
    Option (Int × State) :=
  (s.create cleared malloc mallocOk).map fun s' => (0, s')

/-- `add_connection` -/
def addConnection (malloc : Malloc Connection) (env : AddEnv) (appID sockfd : Int)
    (addr : List UInt8) (addrlen : Nat) (s : State) : Option (Int × State) :=
  if env.mallocConn then
    let a := malloc.pick s.heap
    let h := s.heap.write a ⟨cleared, none⟩
    match makeConnection env appID sockfd addr addrlen with
    | none => some (-1, { s with heap := h.free a })
    | some conn =>
      let h := h.write a ⟨{ conn with activeRule := env.evaluate conn }, none⟩
      ({ s with heap := h }.link a).map fun s' => (0, s')
  else some (-1, s)

/-- `remove_connection` -/
def removeConnection (appID sockfd : Int) (s : State) : Option State :=
  s.removeAll fun conn => conn.hasKey appID sockfd

inductive Call where
  | init (malloc : Malloc Connection) (mallocOk : Bool)
  | add (malloc : Malloc Connection) (env : AddEnv) (appID sockfd : Int) (addr : List UInt8)
      (addrlen : Nat)
  | remove (appID sockfd : Int)

def step (s : State) : Call → Option State
  | .init malloc mallocOk => (initConnectionTable malloc mallocOk s).map Prod.snd
  | .add malloc env appID sockfd addr addrlen =>
    (addConnection malloc env appID sockfd addr addrlen s).map Prod.snd
  | .remove appID sockfd => removeConnection appID sockfd s

/-! ## The list the table stands for -/

/-- The connection a call of `add_connection` adds; `none` where it returns -1. -/
def added (env : AddEnv) (appID sockfd : Int) (addr : List UInt8) (addrlen : Nat) :
    Option Connection :=
  (makeConnection env appID sockfd addr addrlen).map fun conn =>
    { conn with activeRule := env.evaluate conn }

/-- A connection that was added is appended; a removal takes out all entries with its
key. -/
def tableStep (tbl : List Connection) : Call → List Connection
  | .init _ _ => tbl
  | .add _ env appID sockfd addr addrlen => tbl ++ (added env appID sockfd addr addrlen).toList
  | .remove appID sockfd => tbl.filter fun conn => !conn.hasKey appID sockfd

def table (calls : List Call) : List Connection := calls.foldl tableStep []

/-- This is the table of the list model. -/
theorem tableStep_add (tbl : List Connection) (malloc : Malloc Connection) (env : AddEnv)
    (appID sockfd : Int) (addr : List UInt8) (addrlen : Nat) :
    tableStep tbl (.add malloc env appID sockfd addr addrlen) =
      (Sined.addConnection env appID sockfd addr addrlen tbl).2 := by
  show tbl ++ (added env appID sockfd addr addrlen).toList = _
  unfold added Sined.addConnection
  cases makeConnection env appID sockfd addr addrlen with
  | none => exact List.append_nil tbl
  | some conn => rfl

theorem tableStep_remove (tbl : List Connection) (appID sockfd : Int) :
    tableStep tbl (.remove appID sockfd) = Sined.removeConnection appID sockfd tbl :=
  (removeConnection_eq_filter appID sockfd tbl).symm

/-! ## One call -/

/-- A node is added behind the tail, or the call fails and leaves the list as it was. -/
theorem add_represents {s : State} {tbl : List Connection} (h : s.Represents tbl)
    (hhead : s.head ≠ none) (malloc : Malloc Connection) (env : AddEnv) (appID sockfd : Int)
    (addr : List UInt8) (addrlen : Nat) :
    ∃ r s', addConnection malloc env appID sockfd addr addrlen s = some (r, s') ∧
      (r = 0 ↔ (added env appID sockfd addr addrlen).isSome) ∧
      s'.Represents (tbl ++ (added env appID sockfd addr addrlen).toList) ∧ s'.head = s.head := by
  have hfresh := malloc.fresh s.heap
  unfold addConnection added
  by_cases hm : env.mallocConn = true
  · rw [if_pos hm]
    cases hc : makeConnection env appID sockfd addr addrlen with
    | none =>
      refine ⟨-1, _, rfl, by simp, ?_, rfl⟩
      -- the node was never in use, and is not afterwards
      refine (List.append_nil tbl).symm ▸ h.frame fun b hb => ?_
      have hne : b ≠ malloc.pick s.heap := fun e => hb (e ▸ hfresh)
      rw [Heap.free_cell_ne _ hne, Heap.write_cell_ne _ _ hne]
    | some conn =>
      obtain ⟨s', hlink, hrep, hsame⟩ :=
        h.link hhead hfresh { conn with activeRule := env.evaluate conn }
      refine ⟨0, s', ?_, by simp, hrep, hsame⟩
      dsimp only
      rw [Heap.write_write, hlink]
      rfl
  · have hnone : makeConnection env appID sockfd addr addrlen = none := by
      unfold makeConnection AddEnv.mallocs
      simp [hm]
    rw [if_neg hm, hnone]
    exact ⟨-1, s, rfl, by simp, (List.append_nil tbl).symm ▸ h, rfl⟩

/-- Before the table exists, only a call that fails has a next state. -/
theorem add_without_table {s s' : State} {r : Int} (hhead : s.head = none) (htail : s.tail = none)
    {malloc : Malloc Connection} {env : AddEnv} {appID sockfd : Int} {addr : List UInt8}
    {addrlen : Nat} (hs : addConnection malloc env appID sockfd addr addrlen s = some (r, s')) :
    s'.Represents [] ∧ added env appID sockfd addr addrlen = none := by
  unfold addConnection at hs
  unfold added LinkedTable.Represents
  by_cases hm : env.mallocConn = true
  · rw [if_pos hm] at hs
    cases hc : makeConnection env appID sockfd addr addrlen with
    | none =>
      rw [hc] at hs
      cases hs
      simp [hhead, htail]
    | some conn =>
      rw [hc] at hs
      unfold LinkedTable.link at hs
      dsimp only at hs
      rw [htail] at hs
      cases hs
  · rw [if_neg hm] at hs
    cases hs
    unfold makeConnection AddEnv.mallocs
    simp [hm, hhead, htail]

theorem step_represents {s s' : State} {tbl : List Connection} {call : Call}
    (h : s.Represents tbl) (hs : step s call = some s') :
    s'.Represents (tableStep tbl call) := by
  cases call with
  | init malloc mallocOk =>
    obtain ⟨⟨r, s''⟩, hi, rfl⟩ := Option.map_eq_some_iff.mp hs
    obtain ⟨s₁, hcreate, he⟩ := Option.map_eq_some_iff.mp hi
    cases he
    exact h.created hcreate
  | add malloc env appID sockfd addr addrlen =>
    obtain ⟨⟨r, s''⟩, ha, rfl⟩ := Option.map_eq_some_iff.mp hs
    show s''.Represents (tbl ++ (added env appID sockfd addr addrlen).toList)
    by_cases hhead : s.head = none
    · -- without a tail the write of `next` would have no target
      obtain ⟨htail, rfl⟩ := h.nil_of_head hhead
      obtain ⟨hrep, hnone⟩ := add_without_table hhead htail ha
      rw [hnone]
      exact hrep
    · obtain ⟨r', s₁, ha', -, hrep, -⟩ :=
        add_represents h hhead malloc env appID sockfd addr addrlen
      cases ha.symm.trans ha'
      exact hrep
  | remove appID sockfd =>
    -- the loop starts with a read of the head node
    have hhead : s.head ≠ none := by
      intro hh
      have hs' : s.removeAll (fun conn => conn.hasKey appID sockfd) = some s' := hs
      unfold LinkedTable.removeAll at hs'
      rw [hh] at hs'
      cases hs'
    obtain ⟨s₁, hr, hrep, -⟩ := h.removeAll hhead fun conn => conn.hasKey appID sockfd
    cases hr.symm.trans hs
    exact hrep

theorem run_represents (calls : List Call) {s t : State} {tbl : List Connection}
    (h : s.Represents tbl) (hr : run step s calls = some t) :
    t.Represents (calls.foldl tableStep tbl) := by
  induction calls generalizing s tbl with
  | nil => cases hr; exact h
  | cons call calls ih =>
    obtain ⟨s', hs, hr'⟩ := run_cons hr
    exact ih (step_represents h hs) hr'

/-- Once the table exists, every call returns. -/
theorem step_returns {s : State} {tbl : List Connection} (h : s.Represents tbl)
    (hhead : s.head ≠ none) (call : Call) :
    ∃ s', step s call = some s' ∧ s'.head ≠ none := by
  cases call with
  | init malloc mallocOk =>
    have hcreate := LinkedTable.create_of_head hhead cleared malloc mallocOk
    exact ⟨s, by rw [step, initConnectionTable, hcreate]; rfl, hhead⟩
  | add malloc env appID sockfd addr addrlen =>
    obtain ⟨r, s', ha, -, -, hsame⟩ := add_represents h hhead malloc env appID sockfd addr addrlen
    exact ⟨s', by rw [step, ha]; rfl, hsame ▸ hhead⟩
  | remove appID sockfd =>
    obtain ⟨s', hr, -, hsame⟩ := h.removeAll hhead fun conn => conn.hasKey appID sockfd
    exact ⟨s', hr, hsame ▸ hhead⟩

theorem run_returns (calls : List Call) {s : State} {tbl : List Connection}
    (h : s.Represents tbl) (hhead : s.head ≠ none) : ∃ t, run step s calls = some t := by
  induction calls generalizing s tbl with
  | nil => exact ⟨s, rfl⟩
  | cons call calls ih =>
    obtain ⟨s', hs, hhead'⟩ := step_returns h hhead call
    obtain ⟨t, ht⟩ := ih (step_represents h hs) hhead'
    exact ⟨t, by rw [run, hs]; exact ht⟩

/-- **The table in memory is the table of the model.** In every state that a sequence of
calls reaches, the chain from `con_tbl_head` holds the connections that were added and not
removed, in order, with `con_tbl_tail` at its end and no freed node in reach; and once
`init_connection_table` has made the head node, every call returns. -/
theorem connection_list_refines (calls : List Call) :
    (∀ s, run step LinkedTable.start calls = some s → s.Represents (table calls) ∧ s.NoDangling) ∧
    ∀ malloc, ∃ s, run step LinkedTable.start (.init malloc true :: calls) = some s := by
  constructor
  · intro s hr
    have hrep := run_represents calls LinkedTable.start_represents hr
    exact ⟨hrep, hrep.noDangling⟩
  · intro malloc
    obtain ⟨s, hi, hrep, hhead⟩ := LinkedTable.start_represents.create cleared malloc
    obtain ⟨t, ht⟩ := run_returns calls hrep hhead
    refine ⟨t, ?_⟩
    rw [run, step, initConnectionTable, hi]
    exact ht

/-- A call of `add_connection` by process `pid`, with the allocations that succeed. -/
def addCall (pid sockfd : Int) (mallocAddr : Bool) : Call :=
  .add (Malloc.firstFit Connection) ⟨true, true, mallocAddr, some "/usr/bin/ssh", fun _ => 0⟩ pid
    sockfd [] 0

/-- The last connection is removed, and its node's address is used again. -/
def reuse : List Call :=
  [.init (Malloc.firstFit Connection) true, addCall 40 3 true, addCall 41 3 true,
   addCall 42 3 false, .remove 41 3, addCall 43 5 true]

theorem connection_list_refines_reuse :
    ∃ s, run step LinkedTable.start reuse = some s ∧ s.tail = some 2 ∧
      (table reuse).map (·.appID) = [40, 43] ∧ s.Represents (table reuse) ∧ s.NoDangling :=
  ⟨_, rfl, rfl, rfl, (connection_list_refines reuse).1 _ rfl⟩

end Manhattan.Sined.ConnectionList
