import Mathlib.Data.List.Nodup
import Mathlib.Data.List.Perm.Subperm
import Mathlib.Logic.Relation

/-!
# Linked lists in a heap

The C programs keep their tables as singly linked lists with a dummy node at the head
and a second pointer to the last node. Here such a list is what it is in memory: a heap
of nodes, each with a pointer to the next one (`none` is `NULL`). Reading or writing a
node that is not allocated, because it never was or because it was freed, is `none`: the
program has no further behaviour to speak of. An allocator may hand out any address that
is not in use, also one that was freed before.

`Chain h p nodes` says which nodes, with which contents, lie on the way from `p` to
`NULL`; `Linked` adds that no node lies there twice and that the tail pointer is the
last one's address. Each loop over the list comes with the lemma that says what it does
to a `Linked` list, and that it ends: a loop gets `h.limit` rounds, and a chain without
repetition is not longer than that.

A `LinkedTable` is the heap with the program's two pointers, `NULL` until the dummy node
was made, and `Represents t xs` says that it holds `xs`. The four operations on it
(`create`, `link`, `removeAll`, `find`) have one rule each.
-/

namespace Manhattan.Lib

abbrev Addr := Nat

structure Node (α : Type) where
  data : α
  next : Option Addr
  deriving DecidableEq, Repr

/-- The allocated nodes, all below `limit`. -/
structure Heap (α : Type) where
  cell : Addr → Option (Node α)
  limit : Nat
  cell_limit : ∀ a, limit ≤ a → cell a = none

namespace Heap

variable {α : Type}

def empty : Heap α := ⟨fun _ => none, 0, fun _ _ => rfl⟩

/-- Allocate a node, or store a new content in it. -/
def write (h : Heap α) (a : Addr) (n : Node α) : Heap α where
  cell b := if b = a then some n else h.cell b
  limit := max h.limit (a + 1)
  cell_limit b hb := by
    have hne : b ≠ a := by omega
    rw [if_neg hne]
    exact h.cell_limit b (by omega)

def free (h : Heap α) (a : Addr) : Heap α where
  cell b := if b = a then none else h.cell b
  limit := h.limit
  cell_limit b hb := by
    rw [h.cell_limit b hb, ite_self]

/-- `a->next = next` -/
def setNext (h : Heap α) (a : Addr) (next : Option Addr) : Option (Heap α) :=
  (h.cell a).map fun n => h.write a { n with next := next }

/-- `a->next` -/
def next (h : Heap α) (a : Addr) : Option (Option Addr) := (h.cell a).map (·.next)

@[simp] theorem write_write (h : Heap α) (a : Addr) (m n : Node α) :
    (h.write a m).write a n = h.write a n := by
  unfold write
  congr 1
  · funext b
    by_cases hb : b = a
    · rw [if_pos hb, if_pos hb]
    · rw [if_neg hb, if_neg hb]
      exact if_neg hb
  · show max (max h.limit (a + 1)) (a + 1) = max h.limit (a + 1)
    omega

@[simp] theorem write_cell_self (h : Heap α) (a : Addr) (n : Node α) :
    (h.write a n).cell a = some n :=
  if_pos rfl

@[simp] theorem write_cell_ne (h : Heap α) {a b : Addr} (n : Node α) (hb : b ≠ a) :
    (h.write a n).cell b = h.cell b :=
  if_neg hb

@[simp] theorem free_cell_ne (h : Heap α) {a b : Addr} (hb : b ≠ a) :
    (h.free a).cell b = h.cell b :=
  if_neg hb

theorem lt_limit {h : Heap α} {a : Addr} (ha : h.cell a ≠ none) : a < h.limit :=
  Nat.lt_of_not_le fun hle => ha (h.cell_limit a hle)

/-- Storing what is there already changes nothing. -/
theorem write_self {h : Heap α} {a : Addr} {n : Node α} (ha : h.cell a = some n) :
    h.write a n = h := by
  have hlt : a < h.limit := lt_limit (ha ▸ Option.some_ne_none n)
  obtain ⟨cell, limit, hlimit⟩ := h
  unfold write
  congr 1
  · funext b
    by_cases hb : b = a
    · rw [if_pos hb, hb]
      exact ha.symm
    · exact if_neg hb
  · exact Nat.max_eq_left hlt

theorem setNext_cell_ne {h h' : Heap α} {a b : Addr} {next : Option Addr}
    (hset : h.setNext a next = some h') (hb : b ≠ a) : h'.cell b = h.cell b := by
  obtain ⟨n, -, rfl⟩ := Option.map_eq_some_iff.mp hset
  exact h.write_cell_ne _ hb

/-- The node `a` points to the node `b`. -/
def Points (h : Heap α) (a b : Addr) : Prop := ∃ x, h.cell a = some ⟨x, some b⟩

/-- Following pointers from `a` one comes to `b`. -/
def Reaches (h : Heap α) : Addr → Addr → Prop := Relation.ReflTransGen h.Points

end Heap

/-- An allocator returns an address that is not in use. -/
structure Malloc (α : Type) where
  pick : Heap α → Addr
  fresh : ∀ h : Heap α, h.cell (pick h) = none

/-- The allocator that returns the lowest free address. -/
def Malloc.firstFit (α : Type) : Malloc α where
  pick h := ((List.range h.limit).find? fun a => (h.cell a).isNone).getD h.limit
  fresh h := by
    cases hf : (List.range h.limit).find? fun a => (h.cell a).isNone with
    | none => exact h.cell_limit _ (Nat.le_refl _)
    | some a =>
      have hnone : (h.cell a).isNone = true :=
        List.find?_some (p := fun a => (h.cell a).isNone) hf
      exact Option.isNone_iff_eq_none.mp hnone

variable {α : Type}

/-- The nodes from a pointer to `NULL`, with their addresses. -/
inductive Chain (h : Heap α) : Option Addr → List (Addr × α) → Prop where
  | nil : Chain h none []
  | cons {a : Addr} {x : α} {next : Option Addr} {nodes : List (Addr × α)} :
      h.cell a = some ⟨x, next⟩ → Chain h next nodes → Chain h (some a) ((a, x) :: nodes)

namespace Chain

variable {h h' : Heap α} {p : Option Addr} {nodes : List (Addr × α)}

/-- Memory outside the chain does not matter. -/
theorem frame (hc : Chain h p nodes)
    (hsame : ∀ b ∈ nodes.map Prod.fst, h'.cell b = h.cell b) : Chain h' p nodes := by
  induction hc with
  | nil => exact .nil
  | cons hcell _ ih =>
    refine .cons ((hsame _ List.mem_cons_self).trans hcell) (ih fun b hb => ?_)
    exact hsame b (List.mem_cons_of_mem _ hb)

/-- Every node of a chain is allocated. -/
theorem allocated (hc : Chain h p nodes) : ∀ b ∈ nodes.map Prod.fst, h.cell b ≠ none := by
  induction hc with
  | nil => exact fun b hb => absurd hb List.not_mem_nil
  | cons hcell _ ih =>
    intro b hb
    rcases List.mem_cons.mp hb with rfl | hb
    · rw [hcell]
      exact Option.some_ne_none _
    · exact ih b hb

/-- One node gets a new content and keeps its pointer. -/
theorem store (hc : Chain h p nodes) {a : Addr} {x : α} {next : Option Addr}
    (ha : h.cell a = some ⟨x, next⟩) (y : α) :
    Chain (h.write a ⟨y, next⟩) p (nodes.map fun n => if n.1 = a then (a, y) else n) := by
  induction hc with
  | nil => exact .nil
  | @cons b z next' nodes hcell _ ih =>
    rw [List.map_cons]
    by_cases hb : b = a
    · rw [hb] at hcell
      cases ha.symm.trans hcell
      rw [if_pos hb, hb]
      exact .cons (h.write_cell_self a _) ih
    · rw [if_neg hb]
      exact .cons ((h.write_cell_ne _ hb).trans hcell) ih

theorem cell_of_mem (hc : Chain h p nodes) {a : Addr} {x : α} (hm : (a, x) ∈ nodes) :
    ∃ next, h.cell a = some ⟨x, next⟩ := by
  induction hc with
  | nil => exact absurd hm List.not_mem_nil
  | @cons b y next nodes hcell _ ih =>
    rcases List.mem_cons.mp hm with heq | hm
    · cases heq
      exact ⟨next, hcell⟩
    · exact ih hm

/-- What can be reached from the first node is on the chain. -/
theorem mem_of_reaches {a b : Addr} (hc : Chain h (some a) nodes) (hr : h.Reaches a b) :
    b ∈ nodes.map Prod.fst := by
  induction hr using Relation.ReflTransGen.head_induction_on generalizing nodes with
  | refl => cases hc; exact List.mem_cons_self
  | head hab _ ih =>
    obtain ⟨x, hx⟩ := hab
    cases hc with
    | cons hcell hrest =>
      cases hx.symm.trans hcell
      exact List.mem_cons_of_mem _ (ih hrest)

theorem reaches_of_mem {a b : Addr} (hc : Chain h (some a) nodes)
    (hb : b ∈ nodes.map Prod.fst) : h.Reaches a b := by
  induction nodes generalizing a with
  | nil => exact absurd hb List.not_mem_nil
  | cons node nodes ih =>
    cases hc with
    | cons hcell hrest =>
      rcases List.mem_cons.mp hb with rfl | hb
      · exact .refl
      · cases hrest with
        | nil => exact absurd hb List.not_mem_nil
        | cons hcell' hrest' => exact .head ⟨_, hcell⟩ (ih (.cons hcell' hrest') hb)

/-- A chain without repetition fits below the heap's limit. -/
theorem length_le (hc : Chain h p nodes) (hn : (nodes.map Prod.fst).Nodup) :
    nodes.length ≤ h.limit := by
  have hsub : nodes.map Prod.fst ⊆ List.range h.limit :=
    fun b hb => List.mem_range.mpr (Heap.lt_limit (hc.allocated b hb))
  have hle := (List.subperm_of_subset hn hsub).length_le
  rwa [List.length_map, List.length_range] at hle

end Chain

/-- A list with a dummy node `head` and a pointer `tail` to its last node. -/
structure Linked (h : Heap α) (head tail : Addr) (nodes : List (Addr × α)) : Prop where
  chain : ∃ dummy, Chain h (some head) ((head, dummy) :: nodes)
  nodup : (head :: nodes.map Prod.fst).Nodup
  last : tail = (nodes.map Prod.fst).getLastD head

namespace Linked

variable {h h' : Heap α} {head tail : Addr} {nodes : List (Addr × α)}

theorem frame (hl : Linked h head tail nodes)
    (hsame : ∀ b ∈ head :: nodes.map Prod.fst, h'.cell b = h.cell b) :
    Linked h' head tail nodes := by
  obtain ⟨dummy, hc⟩ := hl.chain
  exact ⟨⟨dummy, hc.frame hsame⟩, hl.nodup, hl.last⟩

theorem allocated (hl : Linked h head tail nodes) {b : Addr}
    (hb : b ∈ head :: nodes.map Prod.fst) : h.cell b ≠ none := by
  obtain ⟨dummy, hc⟩ := hl.chain
  exact hc.allocated b hb

/-- Writing to an address that is not in use leaves the list alone. -/
theorem write_fresh (hl : Linked h head tail nodes) {a : Addr} (ha : h.cell a = none)
    (n : Node α) : Linked (h.write a n) head tail nodes := by
  refine hl.frame fun b hb => h.write_cell_ne n fun e => ?_
  exact hl.allocated hb (e ▸ ha)

theorem tail_mem (hl : Linked h head tail nodes) : tail ∈ head :: nodes.map Prod.fst := by
  rw [hl.last]
  cases hn : nodes.map Prod.fst with
  | nil => exact List.mem_cons_self
  | cons b bs =>
    rw [List.getLastD_cons]
    exact List.mem_cons_of_mem _ (List.getLastD_mem_cons)

/-- Only nodes of the list can be reached from its two pointers. -/
theorem allocated_of_reaches (hl : Linked h head tail nodes) {b : Addr}
    (hr : h.Reaches head b ∨ h.Reaches tail b) : h.cell b ≠ none := by
  obtain ⟨dummy, hc⟩ := hl.chain
  rcases hr with hr | hr
  · exact hc.allocated b (hc.mem_of_reaches hr)
  · exact hc.allocated b (hc.mem_of_reaches ((hc.reaches_of_mem hl.tail_mem).trans hr))

/-- The entries are what can be reached behind the head. -/
theorem mem_iff_reaches (hl : Linked h head tail nodes) {b : Addr} {x : α} :
    (b, x) ∈ nodes ↔ b ≠ head ∧ h.Reaches head b ∧ ∃ next, h.cell b = some ⟨x, next⟩ := by
  obtain ⟨dummy, hc⟩ := hl.chain
  have hn := (List.nodup_cons.mp hl.nodup).1
  constructor
  · intro hm
    have hkey : b ∈ nodes.map Prod.fst := List.mem_map_of_mem hm
    refine ⟨fun e => hn (e ▸ hkey), ?_, hc.cell_of_mem (List.mem_cons_of_mem _ hm)⟩
    exact hc.reaches_of_mem (List.mem_cons_of_mem _ hkey)
  · intro ⟨hne, hr, next, hcell⟩
    have hkey := hc.mem_of_reaches hr
    rw [List.map_cons, List.mem_cons] at hkey
    obtain ⟨⟨b, y⟩, hm, rfl⟩ := List.mem_map.mp (hkey.resolve_left hne)
    obtain ⟨next', hcell'⟩ := hc.cell_of_mem (List.mem_cons_of_mem _ hm)
    cases hcell.symm.trans hcell'
    exact hm

/-- A node alone is a list without entries. -/
theorem single {h : Heap α} {head : Addr} {dummy : α} (hcell : h.cell head = some ⟨dummy, none⟩) :
    Linked h head head [] :=
  ⟨⟨dummy, .cons hcell .nil⟩, List.nodup_singleton _, rfl⟩

end Linked

/-! ## Linking a node behind the tail -/

theorem Chain.snoc {h : Heap α} {a p : Addr} {d x : α} {nodes : List (Addr × α)}
    (hc : Chain h (some p) ((p, d) :: nodes)) (hn : (p :: nodes.map Prod.fst).Nodup)
    (ha : h.cell a = some ⟨x, none⟩) (hnew : a ∉ p :: nodes.map Prod.fst) {h' : Heap α}
    (hset : h.setNext ((nodes.map Prod.fst).getLastD p) (some a) = some h') :
    Chain h' (some p) ((p, d) :: nodes ++ [(a, x)]) := by
  obtain ⟨n, hcell, rfl⟩ := Option.map_eq_some_iff.mp hset
  induction nodes generalizing p d with
  | nil =>
    -- the last node is `p` itself
    have hne : a ≠ p := fun e => hnew (e ▸ List.mem_cons_self)
    cases hc with
    | cons hp hrest =>
      cases hrest
      have hcell' : h.cell p = some n := hcell
      cases hp.symm.trans hcell'
      refine .cons (h.write_cell_self _ _) (.cons ?_ .nil)
      exact (h.write_cell_ne _ hne).trans ha
  | cons node nodes ih =>
    cases hc with
    | cons hp hrest =>
      cases hrest with
      | @cons b y next _ hb hrest =>
        have hn' := List.nodup_cons.mp hn
        have hlast : (((b, y) :: nodes).map Prod.fst).getLastD p =
            (nodes.map Prod.fst).getLastD b := List.getLastD_cons
        rw [hlast] at hset hcell ⊢
        -- the node that is written lies behind `p`
        have hne : p ≠ (nodes.map Prod.fst).getLastD b := by
          intro e
          exact hn'.1 (e ▸ List.getLastD_mem_cons)
        refine .cons ((h.write_cell_ne _ hne).trans hp) ?_
        exact ih (.cons hb hrest) hn'.2 (fun hm => hnew (List.mem_cons_of_mem _ hm)) hcell hset

/-- `tail->next = a; tail = a;` -/
theorem Linked.snoc {h : Heap α} {head tail a : Addr} {x : α} {nodes : List (Addr × α)}
    (hl : Linked h head tail nodes) (ha : h.cell a = some ⟨x, none⟩)
    (hnew : a ∉ head :: nodes.map Prod.fst) :
    ∃ h', h.setNext tail (some a) = some h' ∧ Linked h' head a (nodes ++ [(a, x)]) := by
  obtain ⟨n, hcell⟩ := Option.ne_none_iff_exists'.mp (hl.allocated hl.tail_mem)
  have hset : h.setNext tail (some a) = some (h.write tail { n with next := some a }) := by
    unfold Heap.setNext
    rw [hcell]
    rfl
  obtain ⟨dummy, hc⟩ := hl.chain
  refine ⟨_, hset, ⟨dummy, ?_⟩, ?_, ?_⟩
  · exact hc.snoc hl.nodup ha hnew (hl.last ▸ hset)
  · rw [List.map_append, List.map_singleton, ← List.cons_append]
    refine List.Nodup.append hl.nodup (List.nodup_singleton _) ?_
    intro b hb hb'
    rw [List.mem_singleton.mp hb'] at hb
    exact hnew hb
  · rw [List.map_append, List.map_singleton, List.getLastD_concat]

/-- Make a new node and link it behind the last one. -/
def Heap.extend (malloc : Malloc α) (x : α) (last : Addr) (h : Heap α) :
    Option (Addr × Heap α) :=
  ((h.write (malloc.pick h) ⟨x, none⟩).setNext last (some (malloc.pick h))).map
    fun h' => (malloc.pick h, h')

theorem Linked.extend {h : Heap α} {head tail : Addr} {nodes : List (Addr × α)}
    (hl : Linked h head tail nodes) (malloc : Malloc α) (x : α) :
    ∃ a h', h.extend malloc x tail = some (a, h') ∧ h.cell a = none ∧
      Linked h' head a (nodes ++ [(a, x)]) ∧
      ∀ b, b ≠ a → b ∉ head :: nodes.map Prod.fst → h'.cell b = h.cell b := by
  have hfresh := malloc.fresh h
  have hnew : malloc.pick h ∉ head :: nodes.map Prod.fst := fun hm => hl.allocated hm hfresh
  obtain ⟨h', hset, hl'⟩ :=
    (hl.write_fresh hfresh ⟨x, none⟩).snoc (h.write_cell_self _ _) hnew
  refine ⟨_, h', ?_, hfresh, hl', fun b hb hb' => ?_⟩
  · unfold Heap.extend
    rw [hset]
    rfl
  · have hlast : b ≠ tail := fun e => hb' (e ▸ hl.tail_mem)
    rw [Heap.setNext_cell_ne hset hlast, Heap.write_cell_ne _ _ hb]

theorem Chain.cell_last {h : Heap α} {p : Option Addr} {a : Addr} {x : α}
    {nodes : List (Addr × α)} (hc : Chain h p (nodes ++ [(a, x)])) :
    h.cell a = some ⟨x, none⟩ := by
  induction nodes generalizing p with
  | nil =>
    cases hc with
    | cons hcell hrest =>
      cases hrest
      exact hcell
  | cons node nodes ih =>
    cases hc with
    | cons _ hrest => exact ih hrest

theorem Linked.cell_last {h : Heap α} {head tail a : Addr} {x : α} {nodes : List (Addr × α)}
    (hl : Linked h head tail (nodes ++ [(a, x)])) : h.cell a = some ⟨x, none⟩ := by
  obtain ⟨dummy, hc⟩ := hl.chain
  have hc' : Chain h (some head) ((head, dummy) :: nodes ++ [(a, x)]) := hc
  exact hc'.cell_last

/-- The last node gets a new content. -/
theorem Linked.store_last {h : Heap α} {head tail a : Addr} {x : α} {nodes : List (Addr × α)}
    (hl : Linked h head tail (nodes ++ [(a, x)])) (y : α) :
    Linked (h.write a ⟨y, none⟩) head tail (nodes ++ [(a, y)]) := by
  have hkeys : (nodes ++ [(a, y)]).map Prod.fst = (nodes ++ [(a, x)]).map Prod.fst := by
    rw [List.map_append, List.map_append]
    rfl
  have hnodup := hl.nodup
  rw [List.map_append, List.map_singleton, ← List.cons_append, List.nodup_append] at hnodup
  have hne : ∀ b ∈ head :: nodes.map Prod.fst, b ≠ a :=
    fun b hb => hnodup.2.2 b hb a List.mem_cons_self
  have hsame : nodes.map (fun n => if n.1 = a then (a, y) else n) = nodes := by
    rw [List.map_congr_left (g := id), List.map_id]
    intro n hn
    exact if_neg (hne n.1 (List.mem_cons_of_mem _ (List.mem_map_of_mem hn)))
  obtain ⟨dummy, hc⟩ := hl.chain
  refine ⟨⟨dummy, ?_⟩, hkeys ▸ hl.nodup, hkeys ▸ hl.last⟩
  have hc' := hc.store hl.cell_last y
  rwa [List.map_cons, if_neg (hne head List.mem_cons_self), List.map_append, hsame,
    List.map_singleton, if_pos rfl] at hc'

/-! ## Removing nodes -/

theorem Linked.next_nil {h : Heap α} {head tail : Addr} (hl : Linked h head tail []) :
    h.next head = some none := by
  obtain ⟨dummy, hc⟩ := hl.chain
  cases hc with
  | cons hcell hrest =>
    cases hrest
    unfold Heap.next
    rw [hcell]
    rfl

/-- `head->next = first->next; free(first);` -/
theorem Linked.unlink {h : Heap α} {head tail a : Addr} {x : α} {nodes : List (Addr × α)}
    (hl : Linked h head tail ((a, x) :: nodes)) :
    ∃ next h', h.next head = some (some a) ∧ h.cell a = some ⟨x, next⟩ ∧
      h.setNext head next = some h' ∧
      Linked (h'.free a) head ((nodes.map Prod.fst).getLastD head) nodes ∧
      ∀ b, b ≠ head → b ≠ a → (h'.free a).cell b = h.cell b := by
  obtain ⟨dummy, hc⟩ := hl.chain
  obtain ⟨hhead, hnodes⟩ := List.nodup_cons.mp hl.nodup
  obtain ⟨ha, hn⟩ := List.nodup_cons.mp hnodes
  have hne : head ≠ a := fun e => hhead (e ▸ List.mem_cons_self)
  have hnot : head ∉ nodes.map Prod.fst := fun hm => hhead (List.mem_cons_of_mem _ hm)
  have hframe : ∀ next b, b ≠ head → b ≠ a →
      ((h.write head ⟨dummy, next⟩).free a).cell b = h.cell b := by
    intro next b hb hb'
    rw [Heap.free_cell_ne _ hb', Heap.write_cell_ne _ _ hb]
  cases hc with
  | cons hcell hrest =>
    cases hrest with
    | @cons _ _ next _ hcell' hrest =>
      have hcell₂ : ((h.write head ⟨dummy, next⟩).free a).cell head = some ⟨dummy, next⟩ := by
        rw [Heap.free_cell_ne _ hne, Heap.write_cell_self]
      refine ⟨next, h.write head ⟨dummy, next⟩, ?_, hcell', ?_,
        ⟨⟨dummy, .cons hcell₂ ?_⟩, List.nodup_cons.mpr ⟨hnot, hn⟩, rfl⟩, hframe next⟩
      · unfold Heap.next
        rw [hcell]
        rfl
      · unfold Heap.setNext
        rw [hcell]
        rfl
      · refine hrest.frame fun b hb => hframe next b ?_ ?_
        · exact fun e => hnot (e ▸ hb)
        · exact fun e => ha (e ▸ hb)

/-- The loop that unlinks and frees every node with the property `p`, given the node
before the current one. The tail pointer moves when the last node was removed. -/
def removeLoop (p : α → Bool) : Nat → Heap α → Addr → Option Addr → Option Addr →
    Option (Heap α × Option Addr)
  | _, h, _, none, tail => some (h, tail)
  | 0, _, _, some _, _ => none
  | n + 1, h, pred, some curr, tail =>
    (h.cell curr).bind fun node =>
      if p node.data then
        (h.setNext pred node.next).bind fun h₁ =>
          ((h₁.free curr).next pred).bind fun next =>
            match next with
            | none => some (h₁.free curr, some pred)
            | some curr' => removeLoop p n (h₁.free curr) pred (some curr') tail
      else removeLoop p n h curr node.next tail

/-- The loop keeps the other nodes in order and touches nothing outside the list. -/
theorem removeLoop_spec (p : α → Bool) (nodes : List (Addr × α)) :
    ∀ {fuel : Nat} {h : Heap α} {pred : Addr} {d : α} {curr tail : Option Addr},
      h.cell pred = some ⟨d, curr⟩ → Chain h curr nodes → (pred :: nodes.map Prod.fst).Nodup →
      nodes.length ≤ fuel → tail = some ((nodes.map Prod.fst).getLastD pred) →
      ∃ h', removeLoop p fuel h pred curr tail =
          some (h', some (((nodes.filter fun n => !p n.2).map Prod.fst).getLastD pred)) ∧
        Chain h' (some pred) ((pred, d) :: nodes.filter fun n => !p n.2) ∧
        ∀ b, b ∉ pred :: nodes.map Prod.fst → h'.cell b = h.cell b := by
  induction nodes with
  | nil =>
    intro fuel h pred d curr tail hp hc _ _ ht
    cases hc
    refine ⟨h, ?_, .cons hp .nil, fun _ _ => rfl⟩
    rw [ht]
    cases fuel <;> rfl
  | cons node nodes ih =>
    intro fuel h pred d curr tail hp hc hn hf ht
    cases hc with
    | @cons a x next _ ha hrest =>
      obtain ⟨fuel, rfl⟩ : ∃ n, fuel = n + 1 := ⟨fuel - 1, by simp at hf; omega⟩
      have hf' : nodes.length ≤ fuel := by simpa using hf
      obtain ⟨hpn, hnodes⟩ := List.nodup_cons.mp hn
      obtain ⟨han, -⟩ := List.nodup_cons.mp hnodes
      have hpa : pred ≠ a := fun e => hpn (e ▸ List.mem_cons_self)
      have hlast : (((a, x) :: nodes).map Prod.fst).getLastD pred =
          (nodes.map Prod.fst).getLastD a := List.getLastD_cons
      unfold removeLoop
      rw [ha, Option.bind_some]
      by_cases hx : p x = true
      · -- the node is unlinked and freed; the loop goes on behind the same predecessor
        have hset : h.setNext pred next = some (h.write pred ⟨d, next⟩) := by
          unfold Heap.setNext
          rw [hp]
          rfl
        generalize hh₂ : (h.write pred ⟨d, next⟩).free a = h₂
        have hp₂ : h₂.cell pred = some ⟨d, next⟩ := by
          rw [← hh₂, Heap.free_cell_ne _ hpa, Heap.write_cell_self]
        have hsame : ∀ b, b ∉ [pred, a] → h₂.cell b = h.cell b := by
          intro b hb
          rw [List.mem_cons, List.mem_singleton, not_or] at hb
          rw [← hh₂, Heap.free_cell_ne _ hb.2, Heap.write_cell_ne _ _ hb.1]
        have hrest₂ : Chain h₂ next nodes := by
          refine hrest.frame fun b hb => hsame b ?_
          rw [List.mem_cons, List.mem_singleton, not_or]
          exact ⟨fun e => hpn (e ▸ List.mem_cons_of_mem _ hb), fun e => han (e ▸ hb)⟩
        have hnext : h₂.next pred = some next := by
          unfold Heap.next
          rw [hp₂]
          rfl
        rw [if_pos hx, hset, Option.bind_some, hh₂, hnext, Option.bind_some,
          List.filter_cons_of_neg (by simpa using hx)]
        cases hrest₂ with
        | nil => exact ⟨h₂, rfl, .cons hp₂ .nil, fun b hb => hsame b hb⟩
        | @cons c y next' nodes' hc' hrest' =>
          have ht₂ : tail = some ((((c, y) :: nodes').map Prod.fst).getLastD pred) := by
            rw [ht, hlast]
            rfl
          have hn₂ : (pred :: ((c, y) :: nodes').map Prod.fst).Nodup :=
            List.nodup_cons.mpr ⟨fun hm => hpn (List.mem_cons_of_mem _ hm),
              (List.nodup_cons.mp hnodes).2⟩
          obtain ⟨h', hloop, hchain, hframe⟩ := ih hp₂ (.cons hc' hrest') hn₂ hf' ht₂
          refine ⟨h', hloop, hchain, fun b hb => ?_⟩
          have hb' : b ∉ pred :: ((c, y) :: nodes').map Prod.fst := by
            intro hm
            rcases List.mem_cons.mp hm with rfl | hm
            · exact hb List.mem_cons_self
            · exact hb (List.mem_cons_of_mem _ (List.mem_cons_of_mem _ hm))
          rw [hframe b hb']
          refine hsame b fun hm => hb ?_
          rcases List.mem_cons.mp hm with rfl | hm
          · exact List.mem_cons_self
          · exact List.mem_cons_of_mem _ (List.mem_singleton.mp hm ▸ List.mem_cons_self)
      · -- the node stays and becomes the predecessor
        have ht' : tail = some ((nodes.map Prod.fst).getLastD a) := by rw [ht, hlast]
        obtain ⟨h', hloop, hchain, hframe⟩ := ih ha hrest hnodes hf' ht'
        rw [if_neg hx, List.filter_cons_of_pos (by simpa using hx), hloop]
        refine ⟨h', ?_, .cons ((hframe pred hpn).trans hp) hchain, fun b hb => ?_⟩
        · rw [List.map_cons, List.getLastD_cons]
        · exact hframe b fun hm => hb (List.mem_cons_of_mem _ hm)

/-- `pred = head; curr = pred->next;` and the loop. -/
def Heap.removeAll (p : α → Bool) (h : Heap α) (head : Addr) (tail : Option Addr) :
    Option (Heap α × Option Addr) :=
  (h.next head).bind fun curr => removeLoop p h.limit h head curr tail

theorem Linked.removeAll {h : Heap α} {head tail : Addr} {nodes : List (Addr × α)}
    (hl : Linked h head tail nodes) (p : α → Bool) :
    ∃ h' tail', h.removeAll p head (some tail) = some (h', some tail') ∧
      Linked h' head tail' (nodes.filter fun n => !p n.2) := by
  obtain ⟨dummy, hc⟩ := hl.chain
  have hlen := hc.length_le hl.nodup
  cases hc with
  | @cons _ _ curr _ hcell hrest =>
    have hf : nodes.length ≤ h.limit := Nat.le_of_succ_le hlen
    obtain ⟨h', hloop, hchain, -⟩ :=
      removeLoop_spec p nodes hcell hrest hl.nodup hf (congrArg some hl.last)
    refine ⟨h', _, ?_, ⟨dummy, hchain⟩, ?_, rfl⟩
    · unfold Heap.removeAll Heap.next
      rw [hcell, Option.map_some, Option.bind_some, hloop]
    · exact hl.nodup.sublist (((List.filter_sublist).map Prod.fst).cons_cons head)

/-! ## Looking for a node -/

/-- The loop that follows the list up to the first node with the property `p`. -/
def findLoop (p : α → Bool) : Nat → Heap α → Option Addr → Option (Option Addr)
  | _, _, none => some none
  | 0, _, some _ => none
  | n + 1, h, some curr =>
    (h.cell curr).bind fun node =>
      if p node.data then some (some curr) else findLoop p n h node.next

def Heap.find (p : α → Bool) (h : Heap α) (head : Addr) : Option (Option Addr) :=
  (h.next head).bind fun curr => findLoop p h.limit h curr

theorem findLoop_spec (p : α → Bool) {nodes : List (Addr × α)} :
    ∀ {fuel : Nat} {h : Heap α} {curr : Option Addr}, Chain h curr nodes → nodes.length ≤ fuel →
      findLoop p fuel h curr = some ((nodes.find? fun n => p n.2).map Prod.fst) := by
  induction nodes with
  | nil => intro fuel h curr hc _; cases hc; cases fuel <;> rfl
  | cons node nodes ih =>
    intro fuel h curr hc hf
    cases hc with
    | @cons a x next _ ha hrest =>
      obtain ⟨fuel, rfl⟩ : ∃ n, fuel = n + 1 := ⟨fuel - 1, by simp at hf; omega⟩
      unfold findLoop
      rw [ha, Option.bind_some, List.find?_cons]
      cases p x with
      | true => rfl
      | false => exact ih hrest (by simpa using hf)

theorem Linked.find {h : Heap α} {head tail : Addr} {nodes : List (Addr × α)}
    (hl : Linked h head tail nodes) (p : α → Bool) :
    h.find p head = some ((nodes.find? fun n => p n.2).map Prod.fst) := by
  obtain ⟨dummy, hc⟩ := hl.chain
  have hlen := hc.length_le hl.nodup
  cases hc with
  | cons hcell hrest =>
    unfold Heap.find Heap.next
    rw [hcell, Option.map_some, Option.bind_some]
    exact findLoop_spec p hrest (Nat.le_of_succ_le hlen)

/-! ## Reading a list -/

/-- The contents of the nodes from a pointer on. -/
def readLoop : Nat → Heap α → Option Addr → Option (List α)
  | _, _, none => some []
  | 0, _, some _ => none
  | n + 1, h, some curr =>
    (h.cell curr).bind fun node => (readLoop n h node.next).map (node.data :: ·)

/-- The contents of the nodes behind the head. -/
def Heap.toList (h : Heap α) (head : Addr) : Option (List α) :=
  (h.next head).bind (readLoop h.limit h)

theorem readLoop_spec {nodes : List (Addr × α)} :
    ∀ {fuel : Nat} {h : Heap α} {curr : Option Addr}, Chain h curr nodes → nodes.length ≤ fuel →
      readLoop fuel h curr = some (nodes.map Prod.snd) := by
  induction nodes with
  | nil => intro fuel h curr hc _; cases hc; cases fuel <;> rfl
  | cons node nodes ih =>
    intro fuel h curr hc hf
    cases hc with
    | @cons a x next _ ha hrest =>
      rw [List.length_cons] at hf
      obtain ⟨fuel, rfl⟩ : ∃ n, fuel = n + 1 := ⟨fuel - 1, by omega⟩
      unfold readLoop
      rw [ha, Option.bind_some, ih hrest (by omega)]
      rfl

theorem Linked.toList {h : Heap α} {head tail : Addr} {nodes : List (Addr × α)}
    (hl : Linked h head tail nodes) : h.toList head = some (nodes.map Prod.snd) := by
  obtain ⟨dummy, hc⟩ := hl.chain
  have hlen := hc.length_le hl.nodup
  cases hc with
  | cons hcell hrest =>
    unfold Heap.toList Heap.next
    rw [hcell, Option.map_some, Option.bind_some]
    exact readLoop_spec hrest (Nat.le_of_succ_le hlen)

/-! ## Tables -/

/-- A list in memory and the program's two pointers to it. -/
structure LinkedTable (α : Type) where
  heap : Heap α
  head : Option Addr
  tail : Option Addr

namespace LinkedTable

def start : LinkedTable α := ⟨Heap.empty, none, none⟩

/-- Make the dummy node, unless there is one. It is written to before the pointer is
tested, so a failed allocation has no next state. -/
def create (dummy : α) (malloc : Malloc α) (mallocOk : Bool) (t : LinkedTable α) :
    Option (LinkedTable α) :=
  match t.head with
  | some _ => some t
  | none =>
    if mallocOk then
      some ⟨t.heap.write (malloc.pick t.heap) ⟨dummy, none⟩, some (malloc.pick t.heap),
        some (malloc.pick t.heap)⟩
    else none

/-- `tail->next = a; tail = a;` -/
def link (a : Addr) (t : LinkedTable α) : Option (LinkedTable α) :=
  t.tail.bind fun tail =>
    (t.heap.setNext tail (some a)).map fun h => { t with heap := h, tail := some a }

def removeAll (p : α → Bool) (t : LinkedTable α) : Option (LinkedTable α) :=
  t.head.bind fun head =>
    (t.heap.removeAll p head t.tail).map fun r => { t with heap := r.1, tail := r.2 }

def find (p : α → Bool) (t : LinkedTable α) : Option (Option Addr) :=
  t.head.bind fun head => t.heap.find p head

/-- The chain from the head is finite and without repetition, the tail is its last node,
and it holds `xs`. -/
def Represents (t : LinkedTable α) (xs : List α) : Prop :=
  match t.head with
  | none => t.tail = none ∧ xs = []
  | some head => ∃ tail nodes, t.tail = some tail ∧ Linked t.heap head tail nodes ∧
      nodes.map Prod.snd = xs

/-- No freed node can be reached from the two pointers. -/
def NoDangling (t : LinkedTable α) : Prop :=
  ∀ p, p ∈ t.head ∨ p ∈ t.tail → ∀ a, t.heap.Reaches p a → t.heap.cell a ≠ none

/-- A table that exists is not made again. -/
theorem create_of_head {t : LinkedTable α} (hhead : t.head ≠ none) (dummy : α)
    (malloc : Malloc α) (mallocOk : Bool) : t.create dummy malloc mallocOk = some t := by
  obtain ⟨head, hh⟩ := Option.ne_none_iff_exists'.mp hhead
  unfold create
  rw [hh]

theorem start_represents : Represents (start : LinkedTable α) [] := ⟨rfl, rfl⟩

namespace Represents

variable {t : LinkedTable α} {xs : List α}

/-- A table that exists is a list. -/
theorem linked (h : Represents t xs) {head : Addr} (hh : t.head = some head) :
    ∃ tail nodes, t.tail = some tail ∧ Linked t.heap head tail nodes ∧ nodes.map Prod.snd = xs := by
  unfold Represents at h
  rw [hh] at h
  exact h

theorem of_linked {head tail : Addr} {nodes : List (Addr × α)} (hh : t.head = some head)
    (ht : t.tail = some tail) (hl : Linked t.heap head tail nodes)
    (hxs : nodes.map Prod.snd = xs) : Represents t xs := by
  unfold Represents
  rw [hh]
  exact ⟨tail, nodes, ht, hl, hxs⟩

theorem nil_of_head (h : Represents t xs) (hh : t.head = none) : t.tail = none ∧ xs = [] := by
  unfold Represents at h
  rw [hh] at h
  exact h

/-- Memory that was not in use does not matter. -/
theorem frame (h : Represents t xs) {heap : Heap α}
    (hsame : ∀ b, t.heap.cell b ≠ none → heap.cell b = t.heap.cell b) :
    Represents { t with heap := heap } xs := by
  cases hh : t.head with
  | none => exact h.nil_of_head hh
  | some head =>
    obtain ⟨tail, nodes, ht, hl, hxs⟩ := h.linked hh
    exact of_linked rfl ht (hl.frame fun b hb => hsame b (hl.allocated hb)) hxs

theorem noDangling (h : Represents t xs) : NoDangling t := by
  intro p hp a hr
  cases hh : t.head with
  | none =>
    rw [hh, (h.nil_of_head hh).1] at hp
    exact absurd hp (by simp)
  | some head =>
    obtain ⟨tail, nodes, ht, hl, -⟩ := h.linked hh
    rw [hh, ht] at hp
    refine hl.allocated_of_reaches ?_
    rcases hp with hp | hp
    · exact Or.inl (Option.some.inj hp ▸ hr)
    · exact Or.inr (Option.some.inj hp ▸ hr)

theorem create (h : Represents t xs) (dummy : α) (malloc : Malloc α) :
    ∃ t', t.create dummy malloc true = some t' ∧ Represents t' xs ∧ t'.head ≠ none := by
  unfold LinkedTable.create
  cases hh : t.head with
  | some head => exact ⟨t, rfl, h, by rw [hh]; exact Option.some_ne_none _⟩
  | none =>
    refine ⟨_, rfl, ?_, Option.some_ne_none _⟩
    refine of_linked rfl rfl (Linked.single (Heap.write_cell_self _ _ _)) ?_
    exact (h.nil_of_head hh).2.symm

theorem created (h : Represents t xs) {dummy : α} {malloc : Malloc α} {mallocOk : Bool}
    {t' : LinkedTable α} (hc : t.create dummy malloc mallocOk = some t') : Represents t' xs := by
  cases mallocOk with
  | true =>
    obtain ⟨t₁, hc', hrep, -⟩ := h.create dummy malloc
    cases hc.symm.trans hc'
    exact hrep
  | false =>
    unfold LinkedTable.create at hc
    cases hh : t.head with
    | some head => rw [hh] at hc; cases hc; exact h
    | none => rw [hh] at hc; cases hc

/-- A node that was not in use is filled and linked behind the tail. -/
theorem link (h : Represents t xs) (hhead : t.head ≠ none) {a : Addr} (ha : t.heap.cell a = none)
    (x : α) : ∃ t', { t with heap := t.heap.write a ⟨x, none⟩ }.link a = some t' ∧
      Represents t' (xs ++ [x]) ∧ t'.head = t.head := by
  obtain ⟨head, hh⟩ := Option.ne_none_iff_exists'.mp hhead
  obtain ⟨tail, nodes, ht, hl, hxs⟩ := h.linked hh
  have hnew : a ∉ head :: nodes.map Prod.fst := fun hm => hl.allocated hm ha
  obtain ⟨h', hset, hl'⟩ :=
    (hl.write_fresh ha ⟨x, none⟩).snoc (Heap.write_cell_self _ _ _) hnew
  refine ⟨⟨h', t.head, some a⟩, ?_, of_linked hh rfl hl' ?_, rfl⟩
  · unfold LinkedTable.link
    dsimp only
    rw [ht, Option.bind_some, hset]
    rfl
  · rw [List.map_append, hxs]
    rfl

theorem removeAll (h : Represents t xs) (hhead : t.head ≠ none) (p : α → Bool) :
    ∃ t', t.removeAll p = some t' ∧ Represents t' (xs.filter fun x => !p x) ∧
      t'.head = t.head := by
  obtain ⟨head, hh⟩ := Option.ne_none_iff_exists'.mp hhead
  obtain ⟨tail, nodes, ht, hl, hxs⟩ := h.linked hh
  obtain ⟨h', tail', hrem, hl'⟩ := hl.removeAll p
  refine ⟨⟨h', t.head, some tail'⟩, ?_, of_linked hh rfl hl' ?_, rfl⟩
  · unfold LinkedTable.removeAll
    rw [hh, Option.bind_some, ht, hrem]
    rfl
  · rw [← hxs, List.filter_map]
    rfl

theorem find (h : Represents t xs) (hhead : t.head ≠ none) (p : α → Bool) :
    ∃ curr, t.find p = some curr ∧ (curr.isSome ↔ ∃ x ∈ xs, p x = true) := by
  obtain ⟨head, hh⟩ := Option.ne_none_iff_exists'.mp hhead
  obtain ⟨tail, nodes, ht, hl, hxs⟩ := h.linked hh
  refine ⟨(nodes.find? fun n => p n.2).map Prod.fst, ?_, ?_⟩
  · unfold LinkedTable.find
    rw [hh, Option.bind_some, hl.find p]
  · rw [Option.isSome_map, List.find?_isSome, ← hxs]
    constructor
    · intro ⟨n, hn, hp⟩
      exact ⟨n.2, List.mem_map_of_mem hn, hp⟩
    · intro ⟨x, hx, hp⟩
      obtain ⟨n, hn, rfl⟩ := List.mem_map.mp hx
      exact ⟨n, hn, hp⟩

end Represents

end LinkedTable

end Manhattan.Lib
