import Manhattan.Lib.Run
import Manhattan.Lib.Chain

/-!
# The network manager's link table (`sined/src/netmgr.c`)

The table of links is built like the connection table: a linked list with a dummy head
node and a pointer to its tail. `remove_link` is the loop of `remove_connection` with
another test. `add_link` makes a node, fills it, reports it in the log and returns 0; the
two assignments that would link it behind the tail are not there. So the table stays what
`init_link_table` has made it, and every node that was added is lost.

Mirroring notes:
- The calls are the successful ones. `add_link` copies the name into a buffer of
  `strlen(name)` bytes, one too short for the terminator; what that byte overwrites is not
  modelled.
- `init_link_table` clears its node before it looks whether there is one, like
  `init_connection_table`.

`faithful_iff` says for which sequences of calls the table is right nevertheless.
-/

namespace Manhattan.Sined.Links

open Manhattan.Lib

/-- `struct link`, without its `next` pointer. -/
structure Link where
  type : Int
  name : Option String
  deriving DecidableEq, Repr

/-- `str_link_type` -/
def strLinkType : List String := ["Ethernet", "Wi-Fi", "WiMAX", "LTE"]

/-- `str_to_lt` -/
def strToLt (name : String) : Int :=
  match strLinkType.findIdx? (· = name) with
  | some i => i
  | none => -1

/-- The heap with `link_tbl_head` and `link_tbl_tail`. -/
abbrev State := LinkedTable Link

/-- A node after `memset`. -/
def cleared : Link := ⟨0, none⟩

/-- `init_link_table` -/
def initLinkTable (malloc : Malloc Link) (mallocOk : Bool) (s : State) : Option (Int × State) :=
  (s.create cleared malloc mallocOk).map fun s' => (0, s')

/-- `add_link`, where both allocations succeed. -/
def addLink (malloc : Malloc Link) (type name : String) (s : State) : Int × State :=
  (0, { s with heap := s.heap.write (malloc.pick s.heap) ⟨⟨strToLt type, some name⟩, none⟩ })

/-- `remove_link` -/
def removeLink (name : String) (s : State) : Option State :=
  s.removeAll fun lnk => lnk.name = some name

/-- `netmgr_link_up` -/
def netmgrLinkUp (name : String) (s : State) : Option Int :=
  (s.find fun lnk => lnk.name = some name).map fun curr => if curr.isSome then 1 else 0

inductive Call where
  | add (malloc : Malloc Link) (type name : String)
  | remove (name : String)

def step (s : State) : Call → Option State
  | .add malloc type name => some (addLink malloc type name s).2
  | .remove name => removeLink name s

/-- The link a call is about. -/
def Call.name : Call → String
  | .add _ _ name => name
  | .remove name => name

def Call.isAdd : Call → Bool
  | .add _ _ _ => true
  | .remove _ => false

/-- The last call about this link was an `add_link`. -/
def lastIsAdd (name : String) (calls : List Call) : Bool :=
  match (calls.filter fun call => call.name = name).getLast? with
  | some call => call.isAdd
  | none => false

/-- `link_tbl_tail` is the last node of the chain from `link_tbl_head`. -/
def TailIsLast (s : State) : Prop :=
  ∃ head tail nodes, s.head = some head ∧ s.tail = some tail ∧ Linked s.heap head tail nodes

/-- **The table is a set of names**: a link is up exactly if it was added last, and the
tail pointer is right. -/
def Faithful (s : State) (calls : List Call) : Prop :=
  (∀ name, netmgrLinkUp name s = some 1 ↔ lastIsAdd name calls = true) ∧ TailIsLast s

/-- The table of `init_link_table`: a head node, and nothing behind it. -/
def Bare (s : State) : Prop := s.head ≠ none ∧ s.Represents []

theorem init_bare {malloc : Malloc Link} {r : Int} {s : State}
    (h : initLinkTable malloc true LinkedTable.start = some (r, s)) : Bare s := by
  obtain ⟨s', hcreate, hrep, hhead⟩ := LinkedTable.start_represents.create cleared malloc
  unfold initLinkTable at h
  rw [hcreate] at h
  cases h
  exact ⟨hhead, hrep⟩

/-- The new node is not linked anywhere; a removal finds nothing. -/
theorem step_bare {s s' : State} {call : Call} (h : Bare s) (hs : step s call = some s') :
    Bare s' := by
  cases call with
  | add malloc type name =>
    -- the allocator gives a cell that no chain goes through
    cases hs
    refine ⟨h.1, h.2.frame fun b hb => Heap.write_cell_ne _ _ fun e => ?_⟩
    exact hb (e ▸ malloc.fresh s.heap)
  | remove name =>
    obtain ⟨s₁, hr, hrep, hsame⟩ := h.2.removeAll h.1 fun lnk => lnk.name = some name
    cases hr.symm.trans hs
    exact ⟨hsame ▸ h.1, hrep⟩

/-- No link is ever up. -/
theorem Bare.linkUp {s : State} (h : Bare s) (name : String) : netmgrLinkUp name s = some 0 := by
  obtain ⟨curr, hfind, hsome⟩ := h.2.find h.1 fun lnk => lnk.name = some name
  have hnone : ¬ curr.isSome = true := by
    rw [hsome]
    rintro ⟨x, hx, -⟩
    exact absurd hx List.not_mem_nil
  unfold netmgrLinkUp
  rw [hfind, Option.map_some, if_neg hnone]

/-- **When the link table is right**: after `init_link_table`, exactly when no link is left
that was added and not removed since. -/
theorem faithful_iff (malloc : Malloc Link) (calls : List Call) {r : Int} {s₀ s : State}
    (h₀ : initLinkTable malloc true LinkedTable.start = some (r, s₀))
    (hr : run step s₀ calls = some s) :
    Faithful s calls ↔ ∀ name, lastIsAdd name calls = false := by
  have hbare : Bare s := run_inv_all step_bare calls (init_bare h₀) hr
  have hup : ∀ name, ¬ netmgrLinkUp name s = some 1 := by
    intro name
    rw [hbare.linkUp name]
    decide
  constructor
  · intro h name
    exact Bool.eq_false_iff.mpr fun hadd => hup name ((h.1 name).mpr hadd)
  · intro h
    refine ⟨fun name => ?_, ?_⟩
    · exact ⟨fun hone => absurd hone (hup name), fun hadd => absurd hadd (by rw [h name]; decide)⟩
    · obtain ⟨head, hh⟩ := Option.ne_none_iff_exists'.mp hbare.1
      obtain ⟨tail, nodes, ht, hl, -⟩ := hbare.2.linked hh
      exact ⟨head, tail, nodes, hh, ht, hl⟩

/-- `eth0` is added and removed. -/
def upAndDown : List Call :=
  [.add (Malloc.firstFit Link) "Ethernet" "eth0", .remove "eth0"]

theorem faithful_iff_upAndDown :
    ∃ s₀ s, initLinkTable (Malloc.firstFit Link) true LinkedTable.start = some (0, s₀) ∧
      run step s₀ upAndDown = some s ∧ Faithful s upAndDown := by
  refine ⟨_, _, rfl, rfl, (faithful_iff (Malloc.firstFit Link) upAndDown rfl rfl).mpr ?_⟩
  intro name
  by_cases h : "eth0" = name
  · simp [lastIsAdd, upAndDown, Call.name, Call.isAdd, h]
  · simp [lastIsAdd, upAndDown, Call.name, h]

/-- **A link that was added is not up.** -/
theorem added_link_is_not_up :
    ∃ s₀ s, initLinkTable (Malloc.firstFit Link) true LinkedTable.start = some (0, s₀) ∧
      run step s₀ (upAndDown.take 1) = some s ∧ netmgrLinkUp "eth0" s = some 0 ∧
      ¬ Faithful s (upAndDown.take 1) := by
  refine ⟨_, _, rfl, rfl, rfl, fun h => ?_⟩
  exact absurd ((h.1 "eth0").mpr (by decide)) (by decide)

end Manhattan.Sined.Links
