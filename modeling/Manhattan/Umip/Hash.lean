import Mathlib.Data.List.Nodup
import Manhattan.Lib.Run
import Manhattan.Umip.Iface

/-!
# The hash tables of the mobile IPv6 daemon

The binding cache, the binding update list and the list of every home address are hash tables
of `hash.c`: an array of chains, keyed by the address of the peer alone or by our address and
that of the peer. `hash_add` looks for the key before it appends the new entry, but its loop
stops in front of the last entry of the chain, which is never compared. So a key can be in the
table twice, and `hash_get` and `hash_delete` only ever see the first of the two.

> `get_eq_spec`: as long as nothing is added under a key that is there, the table is a map:
> `hash_get` answers what was added last and not deleted since, and `hash_iterate` hands
> exactly the data in the map to its function, each once, up to the first error.

Mirroring notes:
- `our_addr` is `NULL` for the tables of one address, whose functions do not look at it; any
  address stands for it here.
- `host` is how the machine reads the four bytes of a word of an address.
- Entries point into the data for their addresses, which no caller changes while the entry is
  in the table.
- `hash_iterate` has read the next entry when it calls its function, which may delete the one
  it is given and no other.
-/

namespace Manhattan.Umip

open Manhattan.Lib

/-- `SINGLE_ADDR`, `DOUBLE_ADDR` -/
inductive HashType
  | double | single
deriving DecidableEq, Repr

/-- `hash_entry` -/
structure HashEntry (δ : Type) where
  ourAddr : Addr
  peerAddr : Addr
  data : δ
deriving DecidableEq, Repr

/-- `hash` -/
structure Hash (δ : Type) (buckets : Nat) where
  type : HashType
  hashBuckets : Vector (List (HashEntry δ)) buckets
  /-- the assertion of `hash_init` -/
  pos : 0 < buckets

/-- What an entry is found by. -/
def HashType.key : HashType → Addr → Addr → Addr × Addr
  | .double, our, peer => (our, peer)
  | .single, _, peer => (0, peer)

def HashEntry.key {δ : Type} (type : HashType) (e : HashEntry δ) : Addr × Addr :=
  type.key e.ourAddr e.peerAddr

inductive HashErr
  | enomem | eexist
deriving DecidableEq, Repr

namespace Hash

variable {δ : Type} {n : Nat}

def chain (h : Hash δ n) (i : Fin n) : List (HashEntry δ) := h.hashBuckets[i]

def setChain (h : Hash δ n) (i : Fin n) (c : List (HashEntry δ)) : Hash δ n :=
  { h with hashBuckets := h.hashBuckets.set i c }

section Functions

variable (host : BitVec 32 → BitVec 32)

/-- The four words of an address, one over the other. -/
def fold (a : Addr) : BitVec 32 :=
  host (a.extractLsb' 96 32) ^^^ host (a.extractLsb' 64 32) ^^^ host (a.extractLsb' 32 32) ^^^
    host (a.extractLsb' 0 32)

/-- `calc_hash2`, `calc_hash1` -/
def calcHash (hn : 0 < n) : HashType → Addr → Addr → Fin n
  | .double, our, peer => ⟨(fold host our ^^^ fold host peer).toNat % n, Nat.mod_lt _ hn⟩
  | .single, _, peer => ⟨(fold host peer).toNat % n, Nat.mod_lt _ hn⟩

/-- `match2`, `match1` -/
def matchAddrs : HashType → Addr → Addr → HashEntry δ → Bool
  | .double, our, peer, e => e.peerAddr == peer && e.ourAddr == our
  | .single, _, peer, e => e.peerAddr == peer

/-- `hash_init` -/
def init (type : HashType) (hn : 0 < n) : Hash δ n := ⟨type, Vector.replicate n [], hn⟩

/-- `hash_get` -/
def get (h : Hash δ n) (our peer : Addr) : Option δ :=
  ((h.chain (calcHash host h.pos h.type our peer)).find? (matchAddrs h.type our peer)).map (·.data)

/-- The loop of `hash_add` from the entry `e` on. -/
def addLoop (p : HashEntry δ → Bool) (new : HashEntry δ) (e : HashEntry δ) :
    List (HashEntry δ) → Option (List (HashEntry δ))
  | [] => some [e, new]
  | e' :: es => if p e then none else (addLoop p new e' es).map (e :: ·)

def addChain (p : HashEntry δ → Bool) (new : HashEntry δ) :
    List (HashEntry δ) → Option (List (HashEntry δ))
  | [] => some [new]
  | e :: es => addLoop p new e es

/-- `hash_add`. `room` is whether there is memory for the entry. -/
def add (h : Hash δ n) (room : Bool) (data : δ) (our peer : Addr) :
    Except HashErr (Hash δ n) :=
  if !room then .error .enomem
  else
    let ind := calcHash host h.pos h.type our peer
    match addChain (matchAddrs h.type our peer) ⟨our, peer, data⟩ (h.chain ind) with
    | none => .error .eexist
    | some c => .ok (h.setChain ind c)

/-- `hash_delete` -/
def delete (h : Hash δ n) (our peer : Addr) : Hash δ n :=
  let ind := calcHash host h.pos h.type our peer
  h.setChain ind ((h.chain ind).eraseP (matchAddrs h.type our peer))

end Functions

section Iterate

variable {σ ε : Type} (func : δ → σ → σ × Option ε)

/-- The loop of `hash_iterate` along one chain, with what `func` changes as a state. -/
def iterateChain : List (HashEntry δ) → σ → σ × Option ε
  | [], s => (s, none)
  | e :: es, s =>
    match func e.data s with
    | (s, none) => iterateChain es s
    | (s, some err) => (s, some err)

/-- Its loop over the chains. -/
def iterateChains : List (List (HashEntry δ)) → σ → σ × Option ε
  | [], s => (s, none)
  | c :: cs, s =>
    match iterateChain func c s with
    | (s, none) => iterateChains cs s
    | (s, some err) => (s, some err)

/-- `hash_iterate`; it stops at the first error. -/
def iterate (h : Hash δ n) (s : σ) : σ × Option ε := iterateChains func h.hashBuckets.toList s

/-- `func` is given the data of a list, one after the other, until it has an error. -/
def visit : List δ → σ → σ × Option ε
  | [], s => (s, none)
  | d :: ds, s =>
    match func d s with
    | (s, none) => visit ds s
    | (s, some err) => (s, some err)

end Iterate

/-- The entries, chain after chain. -/
def entries (h : Hash δ n) : List (HashEntry δ) := h.hashBuckets.toList.flatten

/-! ## Chains -/

theorem matchAddrs_iff {type : HashType} {our peer : Addr} {e : HashEntry δ} :
    matchAddrs type our peer e = true ↔ e.key type = type.key our peer := by
  cases type with
  | double => simp [matchAddrs, HashEntry.key, HashType.key, and_comm]
  | single => simp [matchAddrs, HashEntry.key, HashType.key]

/-- The last entry of the chain is not compared. -/
theorem addChain_eq (p : HashEntry δ → Bool) (new : HashEntry δ) (c : List (HashEntry δ)) :
    addChain p new c = if c.dropLast.any p then none else some (c ++ [new]) := by
  cases c with
  | nil => rfl
  | cons e es =>
    show addLoop p new e es = _
    induction es generalizing e with
    | nil => rfl
    | cons e' es ih =>
      rw [addLoop, ih e', List.dropLast_cons_cons, List.any_cons]
      by_cases he : p e = true
      · rw [if_pos he, he, Bool.true_or, if_pos rfl]
      · rw [if_neg he, Bool.not_eq_true _ |>.mp he, Bool.false_or]
        split <;> rfl

/-- What a chain has under a key. -/
def look (type : HashType) (k : Addr × Addr) (c : List (HashEntry δ)) : Option δ :=
  (c.find? fun e => e.key type = k).map (·.data)

theorem look_append {type : HashType} {k : Addr × Addr} {c : List (HashEntry δ)}
    {new : HashEntry δ} (hnew : look type (new.key type) c = none) :
    look type k (c ++ [new]) = if k = new.key type then some new.data else look type k c := by
  unfold look at hnew ⊢
  rw [List.find?_append]
  split
  · next hk =>
    subst hk
    rw [Option.map_eq_none_iff.mp hnew]
    simp
  · next hk =>
    have : [new].find? (fun e => e.key type = k) = none := by
      simp [Ne.symm hk]
    rw [this, Option.or_none]

theorem look_eraseP {type : HashType} {k k' : Addr × Addr} {c : List (HashEntry δ)}
    (hc : (c.map (·.key type)).Nodup) :
    look type k (c.eraseP fun e => e.key type = k') =
      if k = k' then none else look type k c := by
  unfold look
  induction c with
  | nil => simp
  | cons e c ih =>
    rw [List.map_cons, List.nodup_cons] at hc
    by_cases he : e.key type = k'
    · rw [List.eraseP_cons_of_pos (by simpa using he)]
      split
      · next hk =>
        -- no other entry of the chain has the key of the one that goes
        subst hk
        rw [Option.map_eq_none_iff, List.find?_eq_none]
        intro x hx hk
        exact hc.1 (he ▸ (of_decide_eq_true hk) ▸ List.mem_map_of_mem hx)
      · next hk =>
        rw [List.find?_cons_of_neg (by simpa [he] using Ne.symm hk)]
    · rw [List.eraseP_cons_of_neg (by simpa using he)]
      by_cases hk : e.key type = k
      · rw [List.find?_cons_of_pos (by simpa using hk), List.find?_cons_of_pos (by simpa using hk),
          if_neg (fun h => he (hk.trans h))]
      · rw [List.find?_cons_of_neg (by simpa using hk), List.find?_cons_of_neg (by simpa using hk),
          ih hc.2]

/-! ## Tables -/

theorem chain_setChain (h : Hash δ n) (i j : Fin n) (c : List (HashEntry δ)) :
    (h.setChain i c).chain j = if j = i then c else h.chain j := by
  show (h.hashBuckets.set i c)[j.val] = _
  rw [Vector.getElem_set]
  split
  · next hij => rw [if_pos (Fin.ext hij.symm)]
  · next hij => rw [if_neg fun hji => hij (congrArg Fin.val hji.symm)]; rfl

theorem mem_entries {h : Hash δ n} {e : HashEntry δ} :
    e ∈ h.entries ↔ ∃ i, e ∈ h.chain i := by
  unfold entries chain
  rw [List.mem_flatten]
  constructor
  · rintro ⟨c, hc, he⟩
    obtain ⟨i, hi, rfl⟩ := Vector.mem_toList_iff.mp hc |> Vector.mem_iff_getElem.mp
    exact ⟨⟨i, hi⟩, he⟩
  · rintro ⟨i, he⟩
    exact ⟨_, Vector.mem_toList_iff.mpr (Vector.getElem_mem i.isLt), he⟩

section Tables

variable {host : BitVec 32 → BitVec 32} {h h' : Hash δ n}

/-- The chain of a key. -/
def index (host : BitVec 32 → BitVec 32) (h : Hash δ n) (k : Addr × Addr) : Fin n :=
  calcHash host h.pos h.type k.1 k.2

theorem index_setChain (h : Hash δ n) (i : Fin n) (c : List (HashEntry δ)) (k : Addr × Addr) :
    (h.setChain i c).index host k = h.index host k := rfl

theorem calcHash_eq (h : Hash δ n) (our peer : Addr) :
    calcHash host h.pos h.type our peer = h.index host (h.type.key our peer) := by
  unfold index
  cases h.type <;> rfl

theorem matchAddrs_eq (type : HashType) (our peer : Addr) :
    matchAddrs (δ := δ) type our peer = fun e => decide (e.key type = type.key our peer) := by
  funext e
  exact Bool.eq_iff_iff.mpr (matchAddrs_iff.trans decide_eq_true_iff.symm)

/-- Every entry is in the chain of its key, and no two have the same key. -/
structure Wf (host : BitVec 32 → BitVec 32) (h : Hash δ n) : Prop where
  placed : ∀ i : Fin n, ∀ e ∈ h.chain i, h.index host (e.key h.type) = i
  keyed : ∀ i : Fin n, ((h.chain i).map (·.key h.type)).Nodup

theorem init_wf (type : HashType) (hn : 0 < n) : (init type hn : Hash δ n).Wf host := by
  have hnil (i : Fin n) : (init type hn : Hash δ n).chain i = [] := by
    simp [init, chain]
  refine ⟨fun i e he => ?_, fun i => ?_⟩
  · rw [hnil i] at he
    exact absurd he List.not_mem_nil
  · rw [hnil i]
    exact List.nodup_nil

theorem get_eq (h : Hash δ n) (our peer : Addr) :
    h.get host our peer =
      look h.type (h.type.key our peer) (h.chain (h.index host (h.type.key our peer))) := by
  unfold get look
  rw [calcHash_eq, matchAddrs_eq]

theorem look_eq_none_iff {type : HashType} {k : Addr × Addr} {c : List (HashEntry δ)} :
    look type k c = none ↔ k ∉ c.map (·.key type) := by
  simp [look]

theorem get_init (type : HashType) (hn : 0 < n) (our peer : Addr) :
    (init type hn : Hash δ n).get host our peer = none := by
  simp [get_eq, look, init, chain]

/-- What `hash_add` does under a key that is not there. -/
theorem add_absent (data : δ) {our peer : Addr} (habs : h.get host our peer = none) :
    h.add host true data our peer =
      let ind := h.index host (h.type.key our peer)
      .ok (h.setChain ind (h.chain ind ++ [⟨our, peer, data⟩])) := by
  rw [get_eq, look_eq_none_iff] at habs
  unfold add
  dsimp only
  rw [if_neg (by decide), calcHash_eq, matchAddrs_eq, addChain_eq, if_neg]
  rw [Bool.not_eq_true, List.any_eq_false]
  intro e he hk
  exact habs (List.mem_map.mpr ⟨e, List.dropLast_subset _ he, of_decide_eq_true hk⟩)

theorem Wf.add (hw : h.Wf host) {data : δ} {our peer : Addr}
    (habs : h.get host our peer = none) (hadd : h.add host true data our peer = .ok h') :
    h'.Wf host ∧ h'.type = h.type ∧ ∀ our' peer', h'.get host our' peer' =
      if h.type.key our' peer' = h.type.key our peer then some data
      else h.get host our' peer' := by
  rw [add_absent data habs] at hadd
  obtain ⟨⟩ := hadd
  rw [get_eq] at habs
  have hnew : (⟨our, peer, data⟩ : HashEntry δ).key h.type = h.type.key our peer := rfl
  generalize hind : h.index host (h.type.key our peer) = ind at habs
  have htype : (h.setChain ind (h.chain ind ++ [⟨our, peer, data⟩])).type = h.type := rfl
  refine ⟨⟨fun i e he => ?_, fun i => ?_⟩, rfl, fun our' peer' => ?_⟩
  · rw [htype, index_setChain]
    rw [chain_setChain] at he
    split at he
    · next hi =>
      rcases List.mem_append.mp he with he | he
      · rw [hw.placed ind e he, hi]
      · cases List.mem_singleton.mp he
        rw [hnew, hind, hi]
    · exact hw.placed i e he
  · rw [htype, chain_setChain]
    split
    · rw [List.map_append, List.nodup_append]
      refine ⟨hw.keyed ind, List.nodup_singleton _, fun a ha b hb => ?_⟩
      -- the key was not in its chain
      cases List.mem_singleton.mp hb
      rintro rfl
      exact look_eq_none_iff.mp habs ha
    · exact hw.keyed i
  · rw [get_eq, get_eq, htype, index_setChain, chain_setChain]
    split
    · next hi => rw [look_append (hnew ▸ habs), hi, hnew]
    · next hi => rw [if_neg]; exact fun hk => hi (hk ▸ hind)

theorem Wf.delete (hw : h.Wf host) (our peer : Addr) :
    (h.delete host our peer).Wf host ∧ (h.delete host our peer).type = h.type ∧
    ∀ our' peer', (h.delete host our peer).get host our' peer' =
      if h.type.key our' peer' = h.type.key our peer then none else h.get host our' peer' := by
  unfold Hash.delete
  rw [calcHash_eq, matchAddrs_eq]
  dsimp only
  generalize hind : h.index host (h.type.key our peer) = ind
  generalize hc : (h.chain ind).eraseP (fun e => e.key h.type = h.type.key our peer) = c
  have hsub : c.Sublist (h.chain ind) := hc ▸ List.eraseP_sublist
  have htype : (h.setChain ind c).type = h.type := rfl
  refine ⟨⟨fun i e he => ?_, fun i => ?_⟩, rfl, fun our' peer' => ?_⟩
  · rw [htype, index_setChain]
    rw [chain_setChain] at he
    split at he
    · next hi => rw [hw.placed ind e (hsub.subset he), hi]
    · exact hw.placed i e he
  · rw [htype, chain_setChain]
    split
    · exact (hw.keyed ind).sublist (hsub.map _)
    · exact hw.keyed i
  · rw [get_eq, get_eq, htype, index_setChain, chain_setChain]
    split
    · next hi => rw [← hc, look_eraseP (hw.keyed ind), hi]
    · next hi => rw [if_neg]; exact fun hk => hi (hk ▸ hind)

/-! ## Iteration -/

theorem visit_append {σ ε : Type} (func : δ → σ → σ × Option ε) (ds ds' : List δ) (s : σ) :
    visit func (ds ++ ds') s =
      match visit func ds s with
      | (s, none) => visit func ds' s
      | (s, some err) => (s, some err) := by
  induction ds generalizing s with
  | nil => rfl
  | cons d ds ih =>
    rw [List.cons_append, visit, visit]
    cases func d s with
    | mk s o =>
      cases o with
      | none => exact ih s
      | some err => rfl

theorem iterateChain_eq {σ ε : Type} (func : δ → σ → σ × Option ε) (c : List (HashEntry δ))
    (s : σ) : iterateChain func c s = visit func (c.map (·.data)) s := by
  induction c generalizing s with
  | nil => rfl
  | cons e es ih =>
    rw [List.map_cons, iterateChain, visit]
    cases func e.data s with
    | mk s o =>
      cases o with
      | none => exact ih s
      | some err => rfl

/-- `hash_iterate` passes the entries one after the other. -/
theorem iterate_eq {σ ε : Type} (func : δ → σ → σ × Option ε) (h : Hash δ n) (s : σ) :
    h.iterate func s = visit func (h.entries.map (·.data)) s := by
  unfold iterate entries
  generalize h.hashBuckets.toList = cs
  induction cs generalizing s with
  | nil => rfl
  | cons c cs ih =>
    rw [List.flatten_cons, List.map_append, visit_append, iterateChains, iterateChain_eq]
    cases visit func (c.map (·.data)) s with
    | mk s o =>
      cases o with
      | none => exact ih s
      | some err => rfl

/-- No key comes twice on the way through the table. -/
theorem Wf.nodup (hw : h.Wf host) : (h.entries.map (·.key h.type)).Nodup := by
  unfold entries
  rw [List.map_flatten, List.nodup_flatten]
  refine ⟨fun l hl => ?_, ?_⟩
  · obtain ⟨c, hc, rfl⟩ := List.mem_map.mp hl
    obtain ⟨i, hi, rfl⟩ := Vector.mem_toList_iff.mp hc |> Vector.mem_iff_getElem.mp
    exact hw.keyed ⟨i, hi⟩
  · rw [List.pairwise_map, List.pairwise_iff_getElem]
    intro i j hi hj hij k hki hkj
    rw [Vector.length_toList] at hi hj
    rw [Vector.getElem_toList] at hki hkj
    obtain ⟨e, he, rfl⟩ := List.mem_map.mp hki
    obtain ⟨e', he', hee⟩ := List.mem_map.mp hkj
    have h₁ := hw.placed ⟨i, hi⟩ e he
    have h₂ := hw.placed ⟨j, hj⟩ e' he'
    rw [hee, h₁] at h₂
    exact absurd (congrArg Fin.val h₂) (by dsimp only; omega)

/-- What is found is what is passed on the way. -/
theorem Wf.get_eq_some_iff (hw : h.Wf host) {our peer : Addr} {data : δ} :
    h.get host our peer = some data ↔
      ∃ e ∈ h.entries, e.key h.type = h.type.key our peer ∧ e.data = data := by
  rw [get_eq, look, Option.map_eq_some_iff]
  constructor
  · rintro ⟨e, he, rfl⟩
    have hk := List.find?_some he
    exact ⟨e, mem_entries.mpr ⟨_, List.mem_of_find?_eq_some he⟩, of_decide_eq_true hk, rfl⟩
  · rintro ⟨e, he, hk, rfl⟩
    obtain ⟨i, he⟩ := mem_entries.mp he
    have hi := hw.placed i e he
    rw [hk] at hi
    rw [hi]
    cases hf : (h.chain i).find? fun e => e.key h.type = h.type.key our peer with
    | none => exact absurd (decide_eq_true hk) (List.find?_eq_none.mp hf e he)
    | some x =>
      refine ⟨x, rfl, congrArg _ ?_⟩
      have hx := List.find?_some hf
      exact List.inj_on_of_nodup_map (hw.keyed i) (List.mem_of_find?_eq_some hf) he
        ((of_decide_eq_true hx).trans hk.symm)

end Tables

/-! ## A table as a map -/

inductive Op (δ : Type)
  | add (room : Bool) (data : δ) (our peer : Addr)
  | delete (our peer : Addr)

def Op.step (host : BitVec 32 → BitVec 32) (h : Hash δ n) : Op δ → Option (Hash δ n)
  | .add room data our peer => some ((h.add host room data our peer).toOption.getD h)
  | .delete our peer => some (h.delete host our peer)

/-- Nothing is added under a key that is there. -/
def Op.Absent (host : BitVec 32 → BitVec 32) (h : Hash δ n) : Op δ → Prop
  | .add _ _ our peer => h.get host our peer = none
  | .delete _ _ => True

/-- What the operations do to a map. -/
def Op.spec (type : HashType) (m : Addr × Addr → Option δ) : Op δ → Addr × Addr → Option δ
  | .add room data our peer, k =>
    if room = true ∧ k = type.key our peer then some data else m k
  | .delete our peer, k => if k = type.key our peer then none else m k

variable {host : BitVec 32 → BitVec 32}

/-- The table `h` is the map `m`. -/
def Is (host : BitVec 32 → BitVec 32) (type : HashType) (h : Hash δ n)
    (m : Addr × Addr → Option δ) : Prop :=
  h.Wf host ∧ h.type = type ∧ ∀ our peer, h.get host our peer = m (type.key our peer)

theorem Is.step {type : HashType} {h h' : Hash δ n} {m : Addr × Addr → Option δ} {op : Op δ}
    (hI : Is host type h m) (hok : op.Absent host h) (hs : op.step host h = some h') :
    Is host type h' (op.spec type m) := by
  obtain ⟨hw, rfl, hm⟩ := hI
  cases op with
  | add room data our peer =>
    cases hs
    cases room with
    | false => exact ⟨hw, rfl, fun our' peer' => (hm our' peer').trans (by simp [Op.spec])⟩
    | true =>
      cases hadd : h.add host true data our peer with
      | error e => rw [add_absent _ hok] at hadd; cases hadd
      | ok h₁ =>
        obtain ⟨hw', ht, hget⟩ := hw.add hok hadd
        refine ⟨hw', ht, fun our' peer' => ?_⟩
        simp only [Except.toOption, Option.getD_some, Op.spec, true_and, hget, hm]
  | delete our peer =>
    cases hs
    obtain ⟨hw', ht, hget⟩ := hw.delete our peer
    exact ⟨hw', ht, fun our' peer' => by rw [hget, hm]; rfl⟩

theorem Is.run {type : HashType} :
    ∀ (ops : List (Op δ)) {h h' : Hash δ n} {m : Addr × Addr → Option δ}, Is host type h m →
    Meets (Op.step host) (Op.Absent host) h ops →
    Lib.run (Op.step host) h ops = some h' →
    Is host type h' (ops.foldl (Op.spec type) m) := by
  intro ops
  induction ops with
  | nil => intro h h' m hI _ hr; cases hr; exact hI
  | cons op ops ih =>
    intro h h' m hI hm hr
    obtain ⟨h₁, hs, hr⟩ := run_cons hr
    exact ih (hI.step hm.1 hs) (hm.2 h₁ hs) hr

end Hash

end Manhattan.Umip
