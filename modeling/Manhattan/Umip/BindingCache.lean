import Manhattan.Umip.Hash
import Manhattan.Umip.TaskQueue

/-!
# The binding cache

The binding cache (`bcache.c`) keeps one entry for each mobile node that a home agent or a
correspondent node knows the care-of address of. An entry is in the hash table, has a timer in
the task queue, and is mirrored in the kernel as long as its care-of address is in use. When
the timer of a cached binding runs out, the mobile node is asked for a new one and gets a grace
time. When a binding made with the nonces of return routability goes, its entry stays as a
nonce block until the nonce is no longer valid.

The task of the timer, `_expire`, is started with no lock held, and the entry may be deleted and
freed by another thread before `_expire` has got the lock of the cache. It then has a pointer to
freed memory, and must not follow it.

> `expire_safe`: in every interleaving, `_expire` only ever follows the pointer to an entry that
> is still in the cache; every entry but those under duplicate address detection has a timer;
> and the kernel knows exactly the bindings in the cache, with their care-of addresses but for
> those that a refused update has changed.

This needs that no two entries have the same addresses: `hash_add` does not see to that.

Mirroring notes:
- Everything between taking and releasing the lock of the cache is one step. `_expire` is in
  two: the runner takes the element, and the task runs with the lock.
- An entry is a place in memory; `heap` has those that are allocated. Following a pointer to
  anything else is `none`.
- The home agent writes the new care-of address into an entry before it changes the tunnel. If
  that fails it lets go of the entry, with the kernel not told, and deletes it afterwards.
- The runner reads the function of an element when it has let go of the mutex, and that may be
  the element of an entry that is freed by then; here `_expire` is started all the same.
- `cleanup`, which takes the tunnels of a home registration down, and the list of mobile
  network prefixes are left out.
-/

namespace Manhattan.Umip

open Manhattan.Lib

/-- `tsadd` -/
def tsadd (a b : Timespec) : Timespec :=
  let sec := a.tvSec + b.tvSec
  let nsec := a.tvNsec + b.tvNsec
  if nsec ≥ 1000000000 then ⟨sec + 1, nsec - 1000000000⟩ else ⟨sec, nsec⟩

/-- `tssub` -/
def tssub (a b : Timespec) : Timespec :=
  let sec := a.tvSec - b.tvSec
  let nsec := a.tvNsec - b.tvNsec
  if nsec < 0 then ⟨sec - 1, nsec + 1000000000⟩ else ⟨sec, nsec⟩

/-- `BCE_NONCE_BLOCK` … `BCE_DAD` -/
inductive BceType
  | nonceBlock | homereg | cached | cacheDying | dad
deriving DecidableEq, Repr

/-- `bcentry` -/
structure Bcentry where
  ourAddr : Addr
  peerAddr : Addr
  coa : Addr
  addTime : Timespec := tsclear
  lifetime : Timespec := tsclear
  seqno : UInt16 := 0
  flags : UInt16 := 0
  nonceCoa : UInt16 := 0
  nonceHoa : UInt16 := 0
  type : BceType
deriving DecidableEq, Repr

/-- `CN_BRR_BEFORE_EXPIRY_TS` -/
def cnBrrBeforeExpiry : Timespec := ⟨2, 0⟩

/-- When the timer of an entry that is added or updated now runs out. -/
def Bcentry.expires (e : Bcentry) (now : Timespec) : Timespec :=
  tsadd now (if e.type = .homereg then e.lifetime else tssub e.lifetime cnBrrBeforeExpiry)

/-- The kernel is told about entries of these types. -/
def BceType.bound : BceType → Bool
  | .homereg | .cached | .cacheDying => true
  | .nonceBlock | .dad => false

/-- The elements of the task queue: those of the entries, and those of the rest of the daemon. -/
inductive Elem
  | bce (id : Nat)
  | other (k : Nat)
deriving DecidableEq, Repr

structure Bcache where
  bcHash : Hash Nat 32 := Hash.init .double (by decide)
  heap : Nat → Option Bcentry := fun _ => none
  tq : Tq Elem := {}
  /-- the task of the runner has done its part -/
  ran : Bool := false
  kernel : Addr × Addr → Option Addr := fun _ => none
  /-- the entry has been changed by an update that was refused -/
  refused : Addr × Addr → Bool := fun _ => false
  brrs : List (Addr × Addr) := []

/-- What a binding update fills in. -/
structure Fill where
  coa : Addr
  lifetime : Timespec
  seqno : UInt16
  flags : UInt16
  nonceCoa : UInt16
  nonceHoa : UInt16
deriving DecidableEq, Repr

def Bcentry.fill (e : Bcentry) (f : Fill) : Bcentry :=
  { e with coa := f.coa, lifetime := f.lifetime, seqno := f.seqno, flags := f.flags
           nonceCoa := f.nonceCoa, nonceHoa := f.nonceHoa }

namespace Bcache

section Functions

variable (host : BitVec 32 → BitVec 32)

/-- The entry `bcache_get` finds. -/
def get (c : Bcache) (our peer : Addr) : Option Nat := c.bcHash.get host our peer

/-- `__bcache_insert`. -/
def insert (c : Bcache) (room : Bool) (id : Nat) (e : Bcentry) : Except HashErr Bcache :=
  match c.bcHash.add host room id e.ourAddr e.peerAddr with
  | .error err => .error err
  | .ok h => .ok { c with bcHash := h, heap := Function.update c.heap id (some e) }

/-- Put the entry `e` at `id`, set its timer and tell the kernel: the end of `__bcache_start`
and of `bcache_update_expire`. -/
def arm (c : Bcache) (id : Nat) (e : Bcentry) (now : Timespec) : Option Bcache :=
  (c.tq.addTaskAbs (.bce id) (e.expires now)).map fun tq =>
    { c with
      heap := Function.update c.heap id (some { e with addTime := now })
      tq := tq
      kernel := Function.update c.kernel (e.ourAddr, e.peerAddr) (some e.coa)
      refused := Function.update c.refused (e.ourAddr, e.peerAddr) false }

/-- `bcache_alloc`, and `bcache_add`, which frees the entry if it cannot be added. -/
def bcacheAdd (c : Bcache) (room : Bool) (id : Nat) (e : Bcentry) (now : Timespec) :
    Option Bcache :=
  match c.insert host room id e with
  | .error _ => some c
  | .ok c => c.arm id e now

/-- `bcache_alloc`, and `bcache_add_homereg` -/
def bcacheAddHomereg (c : Bcache) (room : Bool) (id : Nat) (e : Bcentry) : Bcache :=
  match c.insert host room id e with
  | .error _ => c
  | .ok c => c

/-- `bcache_get`, an update of the entry, and `bcache_complete_homereg` -/
def bcacheCompleteHomereg (c : Bcache) (our peer : Addr) (f : Fill) (now : Timespec) :
    Option Bcache :=
  match c.get host our peer with
  | none => some c
  | some id => (c.heap id).bind fun e => c.arm id { e.fill f with type := .homereg } now

/-- `bcache_get`, an update of the entry, and `bcache_update_expire`. A correspondent node makes
every entry a cached one before. -/
def bcacheUpdateExpire (c : Bcache) (our peer : Addr) (f : Fill) (asCn : Bool) (now : Timespec) :
    Option Bcache :=
  match c.get host our peer with
  | none => some c
  | some id => (c.heap id).bind fun e =>
    let type := if asCn then .cached else e.type
    c.arm id { e.fill f with type := if type = .homereg then .homereg else .cached } now

/-- `bcache_get`, an update of the entry that is refused, and `bcache_release_entry` -/
def bcacheRefuse (c : Bcache) (our peer : Addr) (f : Fill) : Option Bcache :=
  match c.get host our peer with
  | none => some c
  | some id => (c.heap id).map fun e =>
    { c with
      heap := Function.update c.heap id (some (e.fill f))
      refused := Function.update c.refused (e.ourAddr, e.peerAddr) true }

/-- The entry is taken out of the table and freed. -/
def remove (c : Bcache) (id : Nat) (e : Bcentry) : Bcache :=
  { c with
    bcHash := c.bcHash.delete host e.ourAddr e.peerAddr
    heap := Function.update c.heap id none }

/-- The timer of an entry that goes, and what the kernel knows about it. -/
def disarm (c : Bcache) (id : Nat) (e : Bcentry) : Bcache :=
  let c := { c with refused := Function.update c.refused (e.ourAddr, e.peerAddr) false }
  if e.type = .dad then c
  else { c with
    tq := c.tq.delTask (.bce id)
    kernel := if e.type = .nonceBlock then c.kernel
      else Function.update c.kernel (e.ourAddr, e.peerAddr) none }

/-- `bce_delete`. `lft` is `rr_cn_nonce_lft`. -/
def bceDelete (lft : UInt16 → Option Timespec) (c : Bcache) (id : Nat) (flush : Bool) :
    Option Bcache :=
  (c.heap id).bind fun e =>
    let c := c.disarm id e
    if !flush && (e.type = .cached || e.type = .cacheDying) then
      match lft e.nonceHoa with
      | some minlft => (c.tq.addTaskAbs (.bce id) minlft).map fun tq =>
        { c with tq := tq, heap := Function.update c.heap id (some { e with type := .nonceBlock }) }
      | none => some (c.remove host id e)
    else some (c.remove host id e)

/-- `bcache_delete` -/
def bcacheDelete (lft : UInt16 → Option Timespec) (c : Bcache) (our peer : Addr) :
    Option Bcache :=
  match c.get host our peer with
  | none => some c
  | some id => c.bceDelete host lft id false

/-- `bce_cleanup` -/
def bceCleanup (lft : UInt16 → Option Timespec) (id : Nat) (c : Option Bcache) :
    Option Bcache × Option Unit :=
  (c.bind fun c => c.bceDelete host lft id true, none)

/-- `bcache_flush` -/
def bcacheFlush (lft : UInt16 → Option Timespec) (c : Bcache) : Option Bcache :=
  (c.bcHash.iterate (bceCleanup host lft) (some c)).1

/-- `_expire`, the task of the entry `id`, with the lock of the cache -/
def expire (lft : UInt16 → Option Timespec) (c : Bcache) (id : Nat) (now : Timespec) :
    Option Bcache :=
  if c.tq.taskInterrupted then some c
  else (c.heap id).bind fun e =>
    if e.type = .cached then
      (c.tq.addTaskAbs (.bce id) (tsadd now cnBrrBeforeExpiry)).map fun tq =>
        { c with
          tq := tq
          heap := Function.update c.heap id (some { e with type := .cacheDying })
          brrs := c.brrs ++ [(e.peerAddr, e.ourAddr)] }
    else c.bceDelete host lft id false

inductive Act
  | add (room : Bool) (id : Nat) (e : Bcentry) (now : Timespec)
  | addHomereg (room : Bool) (id : Nat) (e : Bcentry)
  | completeHomereg (our peer : Addr) (f : Fill) (now : Timespec)
  | updateExpire (our peer : Addr) (f : Fill) (asCn : Bool) (now : Timespec)
  | refuse (our peer : Addr) (f : Fill)
  | delete (our peer : Addr)
  | flush
  | addOther (k : Nat) (t : Timespec)
  | delOther (k : Nat)
  | pass (now : Timespec)
  | expire (now : Timespec)
  | finish

/-- A step of the daemon. Memory for a new entry is memory that is not in use. -/
def step (lft : UInt16 → Option Timespec) (c : Bcache) : Act → Option Bcache
  | .add room id e now =>
    if c.heap id = none ∧ e.type = .cached then c.bcacheAdd host room id e now else none
  | .addHomereg room id e =>
    if c.heap id = none ∧ e.type = .dad then some (c.bcacheAddHomereg host room id e) else none
  | .completeHomereg our peer f now => c.bcacheCompleteHomereg host our peer f now
  | .updateExpire our peer f asCn now => c.bcacheUpdateExpire host our peer f asCn now
  | .refuse our peer f => c.bcacheRefuse host our peer f
  | .delete our peer => c.bcacheDelete host lft our peer
  | .flush => c.bcacheFlush host lft
  | .addOther k t => (c.tq.addTaskAbs (.other k) t).map fun tq => { c with tq := tq }
  | .delOther k => some { c with tq := c.tq.delTask (.other k) }
  | .pass now => (c.tq.pass now).map fun tq => { c with tq := tq, ran := false }
  | .expire now =>
    match c.tq.runner, c.ran with
    | .task (.bce id) _, false => (c.expire host lft id now).map fun c => { c with ran := true }
    | _, _ => none
  | .finish =>
    match c.tq.runner, c.ran with
    | .task (.bce _) _, false => none
    | _, _ => c.tq.finish.map fun tq => { c with tq := tq, ran := false }

end Functions

/-! ## The table and the memory -/

variable {host : BitVec 32 → BitVec 32} {h h' : Hash Nat 32} {heap : Nat → Option Bcentry}
  {id : Nat} {e e' : Bcentry}

/-- The table has exactly the entries that are allocated, each under its addresses. -/
structure Live (host : BitVec 32 → BitVec 32) (h : Hash Nat 32) (heap : Nat → Option Bcentry) :
    Prop where
  wf : h.Wf host
  double : h.type = .double
  get_iff : ∀ our peer id, h.get host our peer = some id ↔
    ∃ e, heap id = some e ∧ e.ourAddr = our ∧ e.peerAddr = peer

/-- The entry for two addresses. -/
def lookup (host : BitVec 32 → BitVec 32) (h : Hash Nat 32) (heap : Nat → Option Bcentry)
    (our peer : Addr) : Option Bcentry :=
  (h.get host our peer).bind heap

theorem init_live : Live host (Hash.init .double (by decide)) fun _ => none := by
  refine ⟨Hash.init_wf _ _, rfl, fun our peer id => ?_⟩
  simp [Hash.get_init]

theorem Live.lookup_eq (hL : Live host h heap) (he : heap id = some e) :
    lookup host h heap e.ourAddr e.peerAddr = some e := by
  rw [lookup, (hL.get_iff _ _ id).mpr ⟨e, he, rfl, rfl⟩]
  exact he

/-- A new entry under addresses that have none. -/
theorem Live.insert (hL : Live host h heap) (hid : heap id = none)
    (habs : h.get host e.ourAddr e.peerAddr = none)
    (hadd : h.add host true id e.ourAddr e.peerAddr = .ok h') :
    Live host h' (Function.update heap id (some e)) ∧
    ∀ our peer, lookup host h' (Function.update heap id (some e)) our peer =
      if (our, peer) = (e.ourAddr, e.peerAddr) then some e else lookup host h heap our peer := by
  obtain ⟨hw, htype, hget⟩ := hL.wf.add habs hadd
  have hne {our peer : Addr} {i : Nat} (hi : h.get host our peer = some i) : i ≠ id := by
    rintro rfl
    obtain ⟨x, hx, -⟩ := (hL.get_iff our peer i).mp hi
    cases hid.symm.trans hx
  have hkey (our peer : Addr) : h.type.key our peer = (our, peer) := by rw [hL.double]; rfl
  simp only [hkey] at hget
  refine ⟨⟨hw, htype.trans hL.double, fun our peer i => ?_⟩, fun our peer => ?_⟩
  · rw [hget]
    by_cases hk : (our, peer) = (e.ourAddr, e.peerAddr)
    · obtain ⟨rfl, rfl⟩ := Prod.mk.inj hk
      rw [if_pos hk]
      constructor
      · rintro ⟨⟩
        exact ⟨e, Function.update_self .., rfl, rfl⟩
      · rintro ⟨x, hx, h₁, h₂⟩
        by_cases hi : i = id
        · rw [hi]
        · rw [Function.update_of_ne hi] at hx
          have := (hL.get_iff _ _ i).mpr ⟨x, hx, h₁, h₂⟩
          cases habs.symm.trans this
    · rw [if_neg hk, hL.get_iff]
      constructor
      · rintro ⟨x, hx, h₁, h₂⟩
        have hi := hne ((hL.get_iff our peer i).mpr ⟨x, hx, h₁, h₂⟩)
        exact ⟨x, by rw [Function.update_of_ne hi]; exact hx, h₁, h₂⟩
      · rintro ⟨x, hx, h₁, h₂⟩
        by_cases hi : i = id
        · subst hi
          rw [Function.update_self] at hx
          cases hx
          exact absurd (Prod.ext h₁.symm h₂.symm) hk
        · rw [Function.update_of_ne hi] at hx
          exact ⟨x, hx, h₁, h₂⟩
  · unfold lookup
    rw [hget]
    split
    · exact Function.update_self ..
    · cases hi : h.get host our peer with
      | none => rfl
      | some i => exact Function.update_of_ne (hne hi) ..

/-- An entry changes, but not its addresses. -/
theorem Live.replace (hL : Live host h heap) (he : heap id = some e) (e' : Bcentry)
    (hour : e'.ourAddr = e.ourAddr) (hpeer : e'.peerAddr = e.peerAddr) :
    Live host h (Function.update heap id (some e')) ∧
    ∀ our peer, lookup host h (Function.update heap id (some e')) our peer =
      if (our, peer) = (e.ourAddr, e.peerAddr) then some e' else lookup host h heap our peer := by
  refine ⟨⟨hL.wf, hL.double, fun our peer i => ?_⟩, fun our peer => ?_⟩
  · rw [hL.get_iff]
    by_cases hi : i = id
    · subst hi
      rw [Function.update_self, he]
      constructor
      · rintro ⟨x, ⟨⟩, rfl, rfl⟩
        exact ⟨e', rfl, hour, hpeer⟩
      · rintro ⟨x, ⟨⟩, rfl, rfl⟩
        exact ⟨e, rfl, hour.symm, hpeer.symm⟩
    · rw [Function.update_of_ne hi]
  · have hid := (hL.get_iff e.ourAddr e.peerAddr id).mpr ⟨e, he, rfl, rfl⟩
    unfold lookup
    split
    · next hk =>
      obtain ⟨rfl, rfl⟩ := Prod.mk.inj hk
      rw [hid]
      exact Function.update_self ..
    · next hk =>
      cases hi : h.get host our peer with
      | none => rfl
      | some i =>
        refine Function.update_of_ne (fun hii => hk ?_) ..
        obtain ⟨x, hx, rfl, rfl⟩ := (hL.get_iff our peer i).mp hi
        rw [hii, he] at hx
        cases hx
        rfl

/-- An entry is deleted and freed. -/
theorem Live.remove (hL : Live host h heap) (he : heap id = some e) :
    Live host (h.delete host e.ourAddr e.peerAddr) (Function.update heap id none) ∧
    ∀ our peer, lookup host (h.delete host e.ourAddr e.peerAddr) (Function.update heap id none)
      our peer =
      if (our, peer) = (e.ourAddr, e.peerAddr) then none else lookup host h heap our peer := by
  obtain ⟨hw, htype, hget⟩ := hL.wf.delete e.ourAddr e.peerAddr
  have hkey (our peer : Addr) : h.type.key our peer = (our, peer) := by rw [hL.double]; rfl
  have hid := (hL.get_iff e.ourAddr e.peerAddr id).mpr ⟨e, he, rfl, rfl⟩
  simp only [hkey] at hget
  refine ⟨⟨hw, htype.trans hL.double, fun our peer i => ?_⟩, fun our peer => ?_⟩
  · rw [hget]
    by_cases hk : (our, peer) = (e.ourAddr, e.peerAddr)
    · obtain ⟨rfl, rfl⟩ := Prod.mk.inj hk
      rw [if_pos hk]
      refine ⟨fun h => (by cases h), ?_⟩
      rintro ⟨x, hx, h₁, h₂⟩
      by_cases hi : i = id
      · rw [hi, Function.update_self] at hx
        cases hx
      · rw [Function.update_of_ne hi] at hx
        have := (hL.get_iff _ _ i).mpr ⟨x, hx, h₁, h₂⟩
        exact absurd (Option.some.inj (this.symm.trans hid)) hi
    · rw [if_neg hk, hL.get_iff]
      by_cases hi : i = id
      · subst hi
        rw [Function.update_self, he]
        constructor
        · rintro ⟨x, ⟨⟩, rfl, rfl⟩
          exact absurd rfl hk
        · rintro ⟨x, ⟨⟩, -⟩
      · rw [Function.update_of_ne hi]
  · unfold lookup
    rw [hget]
    split
    · rfl
    · next hk =>
      cases hi : h.get host our peer with
      | none => rfl
      | some i =>
        refine Function.update_of_ne (fun hii => hk ?_) ..
        obtain ⟨x, hx, rfl, rfl⟩ := (hL.get_iff our peer i).mp hi
        rw [hii, he] at hx
        cases hx
        rfl

/-! ## The timers -/

variable {tq tq' : Tq Elem} {t : Timespec}

/-- Every entry but those under duplicate address detection has a timer, or its timer has just
run out; and there are no other timers of entries. -/
structure Armed (heap : Nat → Option Bcentry) (tq : Tq Elem) : Prop where
  queued : ∀ id, .bce id ∈ tq.tqList → ∃ e, heap id = some e ∧ e.type ≠ .dad
  current : ∀ id, tq.curr = some (.bce id) → ∃ e, heap id = some e ∧ e.type ≠ .dad
  armed : ∀ id e, heap id = some e → e.type ≠ .dad →
    .bce id ∈ tq.tqList ∨ tq.curr = some (.bce id)

/-- What `add_task_abs` does to the list and to the current element. -/
theorem addTaskAbs_list (hI : tq.Inv) {x : Elem} (hadd : tq.addTaskAbs x t = some tq') :
    (∀ i, i ∈ tq'.tqList ↔ i = x ∨ i ∈ tq.tqList) ∧
    tq'.curr = if tq.curr = some x then none else tq.curr := by
  rw [hI.addTaskAbs_eq] at hadd
  cases hadd
  refine ⟨fun i => ?_, rfl⟩
  dsimp only
  rw [(Tq.sortedInsert_perm _ _ _).mem_iff, List.mem_cons, hI.nodup.mem_erase_iff]
  by_cases hi : i = x
  · simp [hi]
  · simp [hi]

/-- An element that is current after another one was touched was current before. -/
theorem curr_touch {x y : Elem} {o : Option Elem}
    (h : (if o = some y then none else o) = some x) : x ≠ y ∧ o = some x := by
  split at h
  · cases h
  · next hne => exact ⟨fun hxy => hne (hxy ▸ h), h⟩

theorem delTask_list (hI : tq.Inv) (x : Elem) :
    (∀ i, i ∈ (tq.delTask x).tqList ↔ i ≠ x ∧ i ∈ tq.tqList) ∧
    (tq.delTask x).curr = if tq.curr = some x then none else tq.curr :=
  ⟨fun _ => hI.nodup.mem_erase_iff, rfl⟩

/-- The timer of an entry is set. -/
theorem Armed.arm (hA : Armed heap tq) (hI : tq.Inv) (he : e.type ≠ .dad)
    (hadd : tq.addTaskAbs (.bce id) t = some tq') :
    Armed (Function.update heap id (some e)) tq' ∧ tq'.curr ≠ some (.bce id) := by
  obtain ⟨hlist, hcurr⟩ := addTaskAbs_list hI hadd
  have hcurr' : tq'.curr ≠ some (.bce id) := by
    rw [hcurr]
    exact fun h => (curr_touch h).1 rfl
  refine ⟨⟨fun i hi => ?_, fun i hi => ?_, fun i x hx hd => ?_⟩, hcurr'⟩
  · by_cases hii : i = id
    · exact ⟨e, by rw [hii, Function.update_self], he⟩
    · rw [Function.update_of_ne hii]
      rcases (hlist _).mp hi with h | h
      · exact absurd (Elem.bce.inj h) hii
      · exact hA.queued i h
  · have hii : i ≠ id := fun h => hcurr' (h ▸ hi)
    rw [Function.update_of_ne hii]
    rw [hcurr] at hi
    exact hA.current i (curr_touch hi).2
  · by_cases hii : i = id
    · exact .inl ((hlist _).mpr (.inl (by rw [hii])))
    · rw [Function.update_of_ne hii] at hx
      refine (hA.armed i x hx hd).imp (fun h => (hlist _).mpr (.inr h)) fun h => ?_
      rw [hcurr, if_neg]
      · exact h
      · rw [h]
        exact fun h => hii (Elem.bce.inj (Option.some.inj h))

/-- The timer of an entry is deleted, and the entry is freed. -/
theorem Armed.drop (hA : Armed heap tq) (hI : tq.Inv) (id : Nat) :
    Armed (Function.update heap id none) (tq.delTask (.bce id)) ∧
    (tq.delTask (.bce id)).curr ≠ some (.bce id) := by
  obtain ⟨hlist, hcurr⟩ := delTask_list hI (.bce id)
  have hcurr' : (tq.delTask (.bce id)).curr ≠ some (.bce id) := by
    rw [hcurr]
    exact fun h => (curr_touch h).1 rfl
  refine ⟨⟨fun i hi => ?_, fun i hi => ?_, fun i x hx hd => ?_⟩, hcurr'⟩
  · obtain ⟨hne, hi⟩ := (hlist _).mp hi
    rw [Function.update_of_ne fun h => hne (congrArg _ h)]
    exact hA.queued i hi
  · rw [Function.update_of_ne fun h : i = id => hcurr' (h ▸ hi)]
    rw [hcurr] at hi
    exact hA.current i (curr_touch hi).2
  · by_cases hii : i = id
    · rw [hii, Function.update_self] at hx
      cases hx
    · rw [Function.update_of_ne hii] at hx
      have hne : (Elem.bce i) ≠ .bce id := fun h => hii (Elem.bce.inj h)
      refine (hA.armed i x hx hd).imp (fun h => (hlist _).mpr ⟨hne, h⟩) fun h => ?_
      rw [hcurr, if_neg]
      · exact h
      · rw [h]
        exact fun h => hne (Option.some.inj h)

/-- An entry without a timer comes. -/
theorem Armed.plain (hA : Armed heap tq) (hid : heap id = none) (he : e.type = .dad) :
    Armed (Function.update heap id (some e)) tq := by
  have hne {i : Nat} (h : ∃ x, heap i = some x ∧ x.type ≠ .dad) :
      ∃ x, Function.update heap id (some e) i = some x ∧ x.type ≠ .dad := by
    obtain ⟨x, hx, hd⟩ := h
    rw [Function.update_of_ne (by rintro rfl; cases hid.symm.trans hx)]
    exact ⟨x, hx, hd⟩
  refine ⟨fun i hi => hne (hA.queued i hi), fun i hi => hne (hA.current i hi),
    fun i x hx hd => ?_⟩
  by_cases hii : i = id
  · rw [hii, Function.update_self] at hx
    cases hx
    exact absurd he hd
  · rw [Function.update_of_ne hii] at hx
    exact hA.armed i x hx hd

/-- An entry without a timer goes. -/
theorem Armed.forget (hA : Armed heap tq) (hid : heap id = some e) (he : e.type = .dad) :
    Armed (Function.update heap id none) tq := by
  have hne {i : Nat} (h : ∃ x, heap i = some x ∧ x.type ≠ .dad) :
      ∃ x, Function.update heap id none i = some x ∧ x.type ≠ .dad := by
    obtain ⟨x, hx, hd⟩ := h
    rw [Function.update_of_ne (by rintro rfl; cases hid.symm.trans hx; exact hd he)]
    exact ⟨x, hx, hd⟩
  refine ⟨fun i hi => hne (hA.queued i hi), fun i hi => hne (hA.current i hi),
    fun i x hx hd => ?_⟩
  by_cases hii : i = id
  · rw [hii, Function.update_self] at hx
    cases hx
  · rw [Function.update_of_ne hii] at hx
    exact hA.armed i x hx hd

/-- An entry keeps its type. -/
theorem Armed.replace (hA : Armed heap tq) (hid : heap id = some e) (htype : e'.type = e.type) :
    Armed (Function.update heap id (some e')) tq := by
  have hkeep {i : Nat} (h : ∃ x, heap i = some x ∧ x.type ≠ .dad) :
      ∃ x, Function.update heap id (some e') i = some x ∧ x.type ≠ .dad := by
    obtain ⟨x, hx, hd⟩ := h
    by_cases hii : i = id
    · rw [hii, hid] at hx
      cases hx
      exact ⟨e', by rw [hii, Function.update_self], htype ▸ hd⟩
    · exact ⟨x, by rw [Function.update_of_ne hii]; exact hx, hd⟩
  refine ⟨fun i hi => hkeep (hA.queued i hi), fun i hi => hkeep (hA.current i hi),
    fun i x hx hd => ?_⟩
  by_cases hii : i = id
  · rw [hii, Function.update_self] at hx
    cases hx
    exact hii ▸ hA.armed id e hid (htype ▸ hd)
  · rw [Function.update_of_ne hii] at hx
    exact hA.armed i x hx hd

/-- Elements of the rest of the daemon do not matter. -/
theorem Armed.congr (hA : Armed heap tq) (hlist : ∀ i, .bce i ∈ tq'.tqList ↔ .bce i ∈ tq.tqList)
    (hcurr : ∀ i, tq'.curr = some (.bce i) ↔ tq.curr = some (.bce i)) : Armed heap tq' :=
  ⟨fun i hi => hA.queued i ((hlist i).mp hi), fun i hi => hA.current i ((hcurr i).mp hi),
    fun i e he hd => (hA.armed i e he hd).imp (hlist i).mpr (hcurr i).mpr⟩

/-- The runner goes on, when it has no entry in hand. -/
theorem Armed.inner {now : Timespec} (hA : Armed heap tq)
    (hcurr : ∀ i, tq.curr ≠ some (.bce i)) (h : Tq.Inner now { tq with curr := none } tq') :
    Armed heap tq' := by
  have hA' : Armed heap { tq with curr := none } :=
    hA.congr (fun _ => .rfl) fun i => ⟨fun h => (by cases h), fun h => absurd h (hcurr i)⟩
  cases h with
  | exit => exact hA'.congr (fun _ => .rfl) fun _ => .rfl
  | wait => exact hA'.congr (fun _ => .rfl) fun _ => .rfl
  | sleep => exact hA'.congr (fun _ => .rfl) fun _ => .rfl
  | @take first l list due =>
    change tq.tqList = first :: l at list
    -- the first element goes from the queue into the hands of the runner
    refine ⟨fun i hi => ?_, fun i hi => ?_, fun i e he hd => ?_⟩
    · exact hA.queued i (list ▸ List.mem_cons_of_mem _ hi)
    · cases hi
      exact hA.queued i (list ▸ List.mem_cons_self)
    · rcases hA'.armed i e he hd with h | h
      · change .bce i ∈ tq.tqList at h
        rw [list] at h
        rcases List.mem_cons.mp h with h | h
        · exact .inr (congrArg some h.symm)
        · exact .inl h
      · cases h

/-! ## The kernel -/

/-- What the kernel should know about an entry. -/
def binding (e : Bcentry) : Option Addr := if e.type.bound then some e.coa else none

theorem binding_isSome (e : Bcentry) : (binding e).isSome = e.type.bound := by
  unfold binding
  cases e.type.bound <;> rfl

/-- The kernel knows the bindings, with their care-of addresses but for those that were refused
another one. -/
structure Mirror (host : BitVec 32 → BitVec 32) (h : Hash Nat 32) (heap : Nat → Option Bcentry)
    (kernel : Addr × Addr → Option Addr) (refused : Addr × Addr → Bool) : Prop where
  known : ∀ our peer,
    (kernel (our, peer)).isSome = ((lookup host h heap our peer).bind binding).isSome
  same : ∀ our peer, refused (our, peer) = false →
    kernel (our, peer) = (lookup host h heap our peer).bind binding

section Mirror

variable {heap' : Nat → Option Bcentry} {kernel kernel' : Addr × Addr → Option Addr}
  {refused refused' : Addr × Addr → Bool} {x : Option Bcentry} {k : Addr × Addr}

/-- One entry comes, changes or goes. -/
theorem Mirror.change (hM : Mirror host h heap kernel refused)
    (hlook : ∀ our peer, lookup host h' heap' our peer =
      if (our, peer) = k then x else lookup host h heap our peer)
    (hkernel : ∀ k', k' ≠ k → kernel' k' = kernel k' ∧ refused' k' = refused k')
    (hknown : (kernel' k).isSome = (x.bind binding).isSome)
    (hsame : refused' k = false → kernel' k = x.bind binding) :
    Mirror host h' heap' kernel' refused' := by
  refine ⟨fun our peer => ?_, fun our peer hr => ?_⟩
  · rw [hlook]
    split
    · next hk => rw [hk, hknown]
    · next hk => rw [(hkernel _ hk).1, hM.known]
  · rw [hlook]
    split
    · next hk =>
      rw [hk] at hr ⊢
      exact hsame hr
    · next hk =>
      rw [(hkernel _ hk).2] at hr
      rw [(hkernel _ hk).1, hM.same our peer hr]

/-- And the kernel is told. -/
theorem Mirror.update (hM : Mirror host h heap kernel refused)
    (hlook : ∀ our peer, lookup host h' heap' our peer =
      if (our, peer) = k then x else lookup host h heap our peer)
    (hkernel : kernel' = Function.update kernel k (x.bind binding))
    (hrefused : ∀ k', k' ≠ k → refused' k' = refused k') :
    Mirror host h' heap' kernel' refused' := by
  have hk : kernel' k = x.bind binding := by rw [hkernel, Function.update_self]
  refine hM.change hlook (fun k' hne => ⟨?_, hrefused k' hne⟩) (by rw [hk]) fun _ => hk
  rw [hkernel, Function.update_of_ne hne]

end Mirror

/-! ## The invariant -/

structure Inv (host : BitVec 32 → BitVec 32) (c : Bcache) : Prop where
  live : Live host c.bcHash c.heap
  tq : c.tq.Inv
  armed : Armed c.heap c.tq
  mirror : Mirror host c.bcHash c.heap c.kernel c.refused
  /-- The runner has no entry in hand once its task is done. -/
  done : c.ran = true → ∀ id, c.tq.curr ≠ some (.bce id)

theorem init_inv : ({} : Bcache).Inv host where
  live := init_live
  tq := Tq.init_inv
  armed := ⟨fun _ h => absurd h List.not_mem_nil, nofun, nofun⟩
  mirror := ⟨fun our peer => by simp [lookup, Hash.get_init],
    fun our peer _ => by simp [lookup, Hash.get_init]⟩
  done := nofun

variable {c c' : Bcache}

/-- The entry at `id` is there under its addresses, changed or new, and gets a timer. -/
theorem Inv.arm (hI : c.Inv host) (id : Nat) {now : Timespec}
    (hlive : ∀ x : Bcentry, x.ourAddr = e.ourAddr → x.peerAddr = e.peerAddr →
      Live host h (Function.update c.heap id (some x)) ∧
      ∀ our peer, lookup host h (Function.update c.heap id (some x)) our peer =
        if (our, peer) = (e.ourAddr, e.peerAddr) then some x
        else lookup host c.bcHash c.heap our peer)
    (he : e.type.bound = true) (ht : tsisset (e.expires now) = true)
    (heap₀ : Nat → Option Bcentry)
    (hheap : ∀ x, Function.update heap₀ id x = Function.update c.heap id x) :
    ∃ c', Bcache.arm { c with bcHash := h, heap := heap₀ } id e now = some c' ∧
      c'.Inv host ∧ c'.tq.curr ≠ some (.bce id) := by
  obtain ⟨tq', hadd, htq, -⟩ := hI.tq.addTaskAbs (.bce id) ht
  obtain ⟨hL, hlook⟩ := hlive { e with addTime := now } rfl rfl
  have hd : e.type ≠ .dad := by rintro hd; rw [hd] at he; cases he
  obtain ⟨hA, hcurr⟩ := hI.armed.arm (e := { e with addTime := now }) hI.tq hd hadd
  refine ⟨_, by unfold Bcache.arm; rw [hadd]; rfl, ⟨?_, htq, ?_, ?_, fun hr i => ?_⟩, hcurr⟩
  · dsimp only
    rw [hheap]
    exact hL
  · dsimp only
    rw [hheap]
    exact hA
  · dsimp only
    rw [hheap]
    have hbind : (some { e with addTime := now }).bind binding = some e.coa := if_pos he
    exact hI.mirror.update hlook (by rw [hbind]) fun k' hk => Function.update_of_ne hk ..
  · rw [(addTaskAbs_list hI.tq hadd).2]
    exact fun h => hI.done hr i (curr_touch h).2

/-- What the kernel knows once a timer is off. -/
theorem Mirror.disarm (hM : Mirror host c.bcHash c.heap c.kernel c.refused)
    (hL : Live host c.bcHash c.heap) (he : c.heap id = some e) :
    (c.disarm id e).kernel = Function.update c.kernel (e.ourAddr, e.peerAddr) none := by
  have hsame (hb : e.type.bound = false) :
      c.kernel = Function.update c.kernel (e.ourAddr, e.peerAddr) none := by
    have hk := hM.known e.ourAddr e.peerAddr
    rw [hL.lookup_eq he, Option.bind_some, binding, hb] at hk
    exact (Function.update_eq_self_iff.mpr (Option.isSome_eq_false_iff.mp hk |>
      Option.isNone_iff_eq_none.mp).symm).symm
  unfold Bcache.disarm
  split
  · next hd => exact hsame (by rw [hd]; rfl)
  · dsimp only
    split
    · next hn => exact hsame (by rw [hn]; rfl)
    · rfl

/-- Everything but the timer and what is known about the binding stays. -/
theorem disarm_frame (c : Bcache) (id : Nat) (e : Bcentry) :
    (c.disarm id e).bcHash = c.bcHash ∧ (c.disarm id e).heap = c.heap ∧
    (c.disarm id e).ran = c.ran ∧
    ∀ k, k ≠ (e.ourAddr, e.peerAddr) → (c.disarm id e).refused k = c.refused k := by
  unfold Bcache.disarm
  dsimp only
  split <;> exact ⟨rfl, rfl, rfl, fun k hk => Function.update_of_ne hk ..⟩

/-- Once the timer of an entry is off, the runner does not have it in hand, and the entry may
go. -/
theorem Inv.disarm (hI : c.Inv host) (he : c.heap id = some e) :
    (c.disarm id e).tq.Inv ∧ Armed (Function.update c.heap id none) (c.disarm id e).tq ∧
    ∀ x, (c.disarm id e).tq.curr = some x → x ≠ .bce id ∧ c.tq.curr = some x := by
  unfold Bcache.disarm
  split
  · next hd =>
    refine ⟨hI.tq, hI.armed.forget he hd, fun x hx => ⟨fun hxe => ?_, hx⟩⟩
    obtain ⟨y, hy, hyd⟩ := hI.armed.current id (hxe ▸ hx)
    cases he.symm.trans hy
    exact hyd hd
  · exact ⟨hI.tq.delTask _, (hI.armed.drop hI.tq id).1, fun x hx => curr_touch hx⟩

/-- `bce_delete` of an entry that is there leaves a nonce block or nothing, and the runner does
not have it in hand afterwards. -/
theorem Inv.bceDelete {lft : UInt16 → Option Timespec}
    (hlft : ∀ i t, lft i = some t → tsisset t = true) (hI : c.Inv host)
    (he : c.heap id = some e) (flush : Bool) :
    ∃ c', c.bceDelete host lft id flush = some c' ∧ c'.Inv host ∧
      (∀ x, c'.tq.curr = some x → x ≠ .bce id ∧ c.tq.curr = some x) ∧
      (flush = true → c'.heap = Function.update c.heap id none) := by
  have hkernel := hI.mirror.disarm hI.live he
  obtain ⟨htq, hA⟩ := hI.disarm he
  obtain ⟨hhash, hheap, hran, hrefused⟩ := c.disarm_frame id e
  unfold Bcache.bceDelete
  rw [he]
  dsimp only [Option.bind_some]
  generalize c.disarm id e = d at *
  have hremove : ∃ c', some (d.remove host id e) = some c' ∧ c'.Inv host ∧
      (∀ x, c'.tq.curr = some x → x ≠ .bce id ∧ c.tq.curr = some x) ∧
      (flush = true → c'.heap = Function.update c.heap id none) := by
    obtain ⟨hL, hlook⟩ := hI.live.remove he
    refine ⟨_, rfl, ⟨?_, htq, ?_, ?_, fun hr i hi => ?_⟩, hA.2, fun _ => ?_⟩
    · dsimp only [Bcache.remove]
      rw [hhash, hheap]
      exact hL
    · dsimp only [Bcache.remove]
      rw [hheap]
      exact hA.1
    · dsimp only [Bcache.remove]
      rw [hhash, hheap]
      exact hI.mirror.update hlook hkernel hrefused
    · exact hI.done (hran ▸ hr) i (hA.2 _ hi).2
    · dsimp only [Bcache.remove]
      rw [hheap]
  split
  · next hf =>
    cases hl : lft e.nonceHoa with
    | none => exact hremove
    | some minlft =>
      dsimp only
      obtain ⟨tq', hadd, htq', -⟩ := htq.addTaskAbs (.bce id) (hlft _ _ hl)
      obtain ⟨hL, hlook⟩ := hI.live.replace he { e with type := .nonceBlock } rfl rfl
      obtain ⟨hA', -⟩ := hA.1.arm (e := { e with type := .nonceBlock }) htq nofun hadd
      rw [Function.update_idem] at hA'
      have hcurr : ∀ x, tq'.curr = some x → x ≠ .bce id ∧ c.tq.curr = some x := by
        rw [(addTaskAbs_list htq hadd).2]
        exact fun x hx => ⟨(curr_touch hx).1, (hA.2 x (curr_touch hx).2).2⟩
      refine ⟨_, by rw [hadd]; rfl, ⟨?_, htq', ?_, ?_, fun hr i hi => ?_⟩, hcurr, fun h => ?_⟩
      · dsimp only
        rw [hhash, hheap]
        exact hL
      · dsimp only
        rw [hheap]
        exact hA'
      · dsimp only
        rw [hhash, hheap]
        exact hI.mirror.update hlook hkernel hrefused
      · exact hI.done (hran ▸ hr) i (hcurr _ hi).2
      · rw [h] at hf
        cases hf
  · exact hremove

/-! ### Flushing -/

theorem Inv.flushLoop {lft : UInt16 → Option Timespec}
    (hlft : ∀ i t, lft i = some t → tsisset t = true) :
    ∀ (ids : List Nat) {c : Bcache}, c.Inv host → ids.Nodup → (∀ id ∈ ids, c.heap id ≠ none) →
    ∃ c', Hash.visit (bceCleanup host lft) ids (some c) = (some c', none) ∧ c'.Inv host ∧
      ∀ i, c'.heap i = if i ∈ ids then none else c.heap i := by
  intro ids
  induction ids with
  | nil => intro c hI _ _; exact ⟨c, rfl, hI, fun i => by simp⟩
  | cons id ids ih =>
    intro c hI hnodup hids
    rw [List.nodup_cons] at hnodup
    obtain ⟨e, he⟩ := Option.ne_none_iff_exists'.mp (hids id List.mem_cons_self)
    obtain ⟨c₁, h₁, hI₁, -, hheap⟩ := hI.bceDelete hlft he true
    have hheap := hheap rfl
    obtain ⟨c', h', hI', hheap'⟩ := ih hI₁ hnodup.2 fun i hi => by
      rw [hheap, Function.update_of_ne fun h : i = id => hnodup.1 (h ▸ hi)]
      exact hids i (List.mem_cons_of_mem _ hi)
    refine ⟨c', ?_, hI', fun i => ?_⟩
    · show Hash.visit (bceCleanup host lft) ids (c.bceDelete host lft id true) = _
      rw [h₁]
      exact h'
    · rw [hheap', hheap]
      by_cases hi : i = id
      · simp [hi]
      · simp [hi]

/-- Iterating over the table visits every entry once. -/
theorem Live.data (hL : Live host h heap) :
    (h.entries.map (·.data)).Nodup ∧ ∀ id ∈ h.entries.map (·.data), heap id ≠ none := by
  have hx : ∀ x ∈ h.entries,
      ∃ e, heap x.data = some e ∧ (e.ourAddr, e.peerAddr) = x.key h.type := by
    intro x hx
    have hget := hL.wf.get_eq_some_iff.mpr ⟨x, hx, rfl, rfl⟩
    obtain ⟨e, he, hour, hpeer⟩ := (hL.get_iff _ _ _).mp hget
    refine ⟨e, he, ?_⟩
    rw [HashEntry.key, hL.double, hour, hpeer]
    rfl
  refine ⟨?_, fun id hid => ?_⟩
  · have hkeys : h.entries.map (·.key h.type) = (h.entries.map (·.data)).map fun id =>
        ((heap id).map fun e => (e.ourAddr, e.peerAddr)).getD (0, 0) := by
      rw [List.map_map]
      refine List.map_congr_left fun x hx' => ?_
      obtain ⟨e, he, hk⟩ := hx x hx'
      simp [he, hk]
    exact List.Nodup.of_map _ (hkeys ▸ hL.wf.nodup)
  · obtain ⟨x, hx', rfl⟩ := List.mem_map.mp hid
    obtain ⟨e, he, -⟩ := hx x hx'
    rw [he]
    exact Option.some_ne_none e

/-! ### Steps -/

/-- The clock is set, and the lifetime is not negative. -/
def Clocked (now lifetime : Timespec) : Prop :=
  2 < now.tvSec ∧ 0 ≤ now.tvNsec ∧ 0 ≤ lifetime.tvSec ∧ 0 ≤ lifetime.tvNsec

theorem tsisset_of_pos {t : Timespec} (h : 0 < t.tvSec) : tsisset t = true := by
  have : t.tvSec ≠ 0 := by omega
  simp [tsisset, this]

theorem tsadd_sec (a b : Timespec) : a.tvSec + b.tvSec ≤ (tsadd a b).tvSec := by
  unfold tsadd
  dsimp only
  split
  · dsimp only; omega
  · exact Int.le_refl _

theorem Clocked.expires {now : Timespec} (h : Clocked now e.lifetime) :
    tsisset (e.expires now) = true := by
  obtain ⟨h₁, -, h₃, h₄⟩ := h
  apply tsisset_of_pos
  unfold Bcentry.expires
  refine Int.lt_of_lt_of_le ?_ (tsadd_sec _ _)
  split
  · omega
  · have : (tssub e.lifetime cnBrrBeforeExpiry).tvSec = e.lifetime.tvSec - 2 := by
      unfold tssub cnBrrBeforeExpiry
      dsimp only
      rw [if_neg (by omega)]
    omega

/-- What the callers see to: no entry is added under addresses that have one, and times are
times of a clock. -/
def Act.Ok (host : BitVec 32 → BitVec 32) (c : Bcache) : Act → Prop
  | .add _ _ e now => c.get host e.ourAddr e.peerAddr = none ∧ Clocked now e.lifetime
  | .addHomereg _ _ e => c.get host e.ourAddr e.peerAddr = none
  | .completeHomereg _ _ f now => Clocked now f.lifetime
  | .updateExpire _ _ f _ now => Clocked now f.lifetime
  | .addOther _ t => tsisset t = true
  | .expire now => Clocked now tsclear
  | _ => True

/-- A new entry under addresses that have none. -/
theorem Inv.insert (hI : c.Inv host) (hid : c.heap id = none)
    (habs : c.get host e.ourAddr e.peerAddr = none) :
    ∃ h, c.insert host true id e =
        .ok { c with bcHash := h, heap := Function.update c.heap id (some e) } ∧
      ∀ x : Bcentry, x.ourAddr = e.ourAddr → x.peerAddr = e.peerAddr →
        Live host h (Function.update c.heap id (some x)) ∧
        ∀ our peer, lookup host h (Function.update c.heap id (some x)) our peer =
          if (our, peer) = (e.ourAddr, e.peerAddr) then some x
          else lookup host c.bcHash c.heap our peer := by
  have hadd := Hash.add_absent id habs
  refine ⟨_, by unfold Bcache.insert; rw [hadd], fun x hour hpeer => ?_⟩
  rw [← hour, ← hpeer] at habs hadd ⊢
  exact hI.live.insert hid habs hadd

theorem Inv.add (hI : c.Inv host) {room : Bool} {now : Timespec} (hid : c.heap id = none)
    (he : e.type = .cached) (habs : c.get host e.ourAddr e.peerAddr = none)
    (hnow : Clocked now e.lifetime) (hs : c.bcacheAdd host room id e now = some c') :
    c'.Inv host := by
  cases room with
  | false => cases hs; exact hI
  | true =>
    obtain ⟨h, hins, hlive⟩ := hI.insert hid habs
    unfold bcacheAdd at hs
    rw [hins] at hs
    obtain ⟨c₁, h₁, hI₁, -⟩ := hI.arm id hlive (by rw [he]; rfl) hnow.expires
      (Function.update c.heap id (some e)) fun x => Function.update_idem ..
    cases h₁.symm.trans hs
    exact hI₁

theorem Inv.addHomereg (hI : c.Inv host) {room : Bool} (hid : c.heap id = none)
    (he : e.type = .dad) (habs : c.get host e.ourAddr e.peerAddr = none) :
    (c.bcacheAddHomereg host room id e).Inv host := by
  cases room with
  | false => exact hI
  | true =>
    obtain ⟨h, hins, hlive⟩ := hI.insert hid habs
    obtain ⟨hL, hlook⟩ := hlive e rfl rfl
    unfold bcacheAddHomereg
    rw [hins]
    have hk : c.kernel (e.ourAddr, e.peerAddr) = none := by
      have hk := hI.mirror.known e.ourAddr e.peerAddr
      rw [lookup, show c.bcHash.get host e.ourAddr e.peerAddr = none from habs] at hk
      exact Option.not_isSome_iff_eq_none.mp (Bool.not_eq_true _ |>.mpr hk)
    have hnone : (some e).bind binding = none := by simp [binding, he, BceType.bound]
    refine ⟨hL, hI.tq, hI.armed.plain hid he, hI.mirror.update hlook ?_ fun _ _ => rfl, hI.done⟩
    rw [hnone]
    exact (Function.update_eq_self_iff.mpr hk.symm).symm

/-- An entry is found, changed and gets a new timer. -/
theorem Inv.rearm (hI : c.Inv host) {our peer : Addr} {now : Timespec} (g : Bcentry → Bcentry)
    (hg : ∀ e, (g e).ourAddr = e.ourAddr ∧ (g e).peerAddr = e.peerAddr ∧
      (g e).type.bound = true ∧ Clocked now (g e).lifetime)
    (hs : (match c.get host our peer with
      | none => some c
      | some id => (c.heap id).bind fun e => c.arm id (g e) now) = some c') : c'.Inv host := by
  split at hs
  · cases hs; exact hI
  · next id hid =>
    obtain ⟨e, he, -⟩ := (hI.live.get_iff our peer id).mp hid
    obtain ⟨hour, hpeer, hbound, hclock⟩ := hg e
    rw [he] at hs
    obtain ⟨c₁, h₁, hI₁, -⟩ := hI.arm id (h := c.bcHash) (e := g e) (fun x h₁ h₂ => by
      rw [hour, hpeer]
      exact hI.live.replace he x (h₁.trans hour) (h₂.trans hpeer)) hbound hclock.expires c.heap
      fun _ => rfl
    cases h₁.symm.trans hs
    exact hI₁

/-- An entry is found and changed, and nobody is told. -/
theorem Inv.refuse (hI : c.Inv host) {our peer : Addr} {f : Fill}
    (hs : c.bcacheRefuse host our peer f = some c') : c'.Inv host := by
  unfold bcacheRefuse at hs
  split at hs
  · cases hs; exact hI
  · next id hid =>
    obtain ⟨e, he, -⟩ := (hI.live.get_iff our peer id).mp hid
    rw [he] at hs
    cases hs
    obtain ⟨hL, hlook⟩ := hI.live.replace he (e.fill f) rfl rfl
    refine ⟨hL, hI.tq, hI.armed.replace he rfl, hI.mirror.change hlook (fun k' hk => ?_) ?_ ?_,
      hI.done⟩
    · exact ⟨rfl, Function.update_of_ne hk ..⟩
    · rw [hI.mirror.known, hI.live.lookup_eq he]
      exact (binding_isSome e).trans (binding_isSome (e.fill f)).symm
    · show Function.update c.refused (e.ourAddr, e.peerAddr) true _ = false → _
      rw [Function.update_self]
      exact fun h => by cases h

/-- The task of a timer: what it follows the pointer to is there, and afterwards the runner has
no entry in hand. -/
theorem Inv.expire {lft : UInt16 → Option Timespec}
    (hlft : ∀ i t, lft i = some t → tsisset t = true) (hI : c.Inv host) {now now' : Timespec}
    (hrunner : c.tq.runner = .task (.bce id) now') (hnow : Clocked now tsclear) :
    ∃ c', c.expire host lft id now = some c' ∧ c'.Inv host ∧ ∀ i, c'.tq.curr ≠ some (.bce i) := by
  unfold Bcache.expire
  split
  · next hint => exact ⟨c, rfl, hI, fun i hi => by rw [Tq.taskInterrupted, hi] at hint; cases hint⟩
  · next hint =>
    have hcurr : c.tq.curr = some (.bce id) := by
      cases hc : c.tq.curr with
      | none => rw [Tq.taskInterrupted, hc] at hint; exact absurd rfl hint
      | some x =>
        obtain ⟨n, hr⟩ := hI.tq.current x hc
        cases hrunner.symm.trans hr
        rfl
    obtain ⟨e, he, hd⟩ := hI.armed.current id hcurr
    rw [he]
    dsimp only [Option.bind_some]
    split
    · next hcached =>
      have ht : tsisset (tsadd now cnBrrBeforeExpiry) = true := by
        refine tsisset_of_pos (Int.lt_of_lt_of_le ?_ (tsadd_sec _ _))
        have := hnow.1
        show 0 < now.tvSec + 2
        omega
      obtain ⟨tq', hadd, htq, -⟩ := hI.tq.addTaskAbs (.bce id) ht
      obtain ⟨hL, hlook⟩ := hI.live.replace he { e with type := .cacheDying } rfl rfl
      obtain ⟨hA, -⟩ := hI.armed.arm (e := { e with type := .cacheDying }) hI.tq nofun hadd
      have hnone : tq'.curr = none := by rw [(addTaskAbs_list hI.tq hadd).2, if_pos hcurr]
      -- what the kernel knows is right for the entry as it is now
      have hb : (some { e with type := .cacheDying }).bind binding =
          (lookup host c.bcHash c.heap e.ourAddr e.peerAddr).bind binding := by
        rw [hI.live.lookup_eq he]
        show binding _ = binding e
        rw [binding, binding, hcached]
        rfl
      have hM := hI.mirror.change hlook (fun _ _ => ⟨rfl, rfl⟩)
        (by rw [hb]; exact hI.mirror.known _ _) fun hr => by rw [hb]; exact hI.mirror.same _ _ hr
      refine ⟨_, by rw [hadd]; rfl, ⟨hL, htq, hA, hM, ?_⟩, ?_⟩
      · exact fun _ i hi => by cases hnone.symm.trans hi
      · exact fun i hi => by cases hnone.symm.trans hi
    · obtain ⟨c', hs, hI', hcurr', -⟩ := hI.bceDelete hlft he false
      refine ⟨c', hs, hI', fun i hi => ?_⟩
      obtain ⟨hne, hi⟩ := hcurr' _ hi
      exact hne (Option.some.inj (hi.symm.trans hcurr))

/-- An element that is not one of an entry is touched. -/
theorem Inv.other {tq' : Tq Elem} {k : Nat} (hI : c.Inv host) (htq : tq'.Inv)
    (hlist : ∀ i, .bce i ∈ tq'.tqList ↔ .bce i ∈ c.tq.tqList)
    (hcurr : tq'.curr = if c.tq.curr = some (.other k) then none else c.tq.curr) :
    Inv host { c with tq := tq' } := by
  have hcurr' (i : Nat) : tq'.curr = some (.bce i) ↔ c.tq.curr = some (.bce i) := by
    rw [hcurr]
    refine ⟨fun h => (curr_touch h).2, fun h => ?_⟩
    rw [h, if_neg nofun]
  exact ⟨hI.live, htq, hI.armed.congr hlist hcurr', hI.mirror,
    fun hr i hi => hI.done hr i ((hcurr' i).mp hi)⟩

/-- The runner goes on, with no entry in hand. -/
theorem Inv.inner {now : Timespec} {tq' : Tq Elem} (hI : c.Inv host)
    (hcurr : ∀ i, c.tq.curr ≠ some (.bce i)) (htq : tq'.Inv)
    (h : Tq.Inner now { c.tq with curr := none } tq') :
    Inv host { c with tq := tq', ran := false } :=
  ⟨hI.live, htq, hI.armed.inner hcurr h, hI.mirror, nofun⟩

theorem Inv.step {lft : UInt16 → Option Timespec}
    (hlft : ∀ i t, lft i = some t → tsisset t = true) {a : Act} (hI : c.Inv host)
    (ha : a.Ok host c) (hs : c.step host lft a = some c') : c'.Inv host := by
  cases a with
  | add room id e now =>
    obtain ⟨⟨hid, he⟩, hs⟩ := Option.ite_none_right_eq_some.mp hs
    exact hI.add hid he ha.1 ha.2 hs
  | addHomereg room id e =>
    obtain ⟨⟨hid, he⟩, ⟨⟩⟩ := Option.ite_none_right_eq_some.mp hs
    exact hI.addHomereg hid he ha
  | completeHomereg our peer f now =>
    exact hI.rearm (fun e => { e.fill f with type := .homereg }) (fun e => ⟨rfl, rfl, rfl, ha⟩) hs
  | updateExpire our peer f asCn now =>
    refine hI.rearm (fun e => { e.fill f with type := if (if asCn then .cached else e.type) =
      BceType.homereg then .homereg else .cached }) (fun e => ⟨rfl, rfl, ?_, ha⟩) hs
    dsimp only
    generalize (if asCn = true then BceType.cached else e.type) = type
    split <;> rfl
  | refuse our peer f => exact hI.refuse hs
  | delete our peer =>
    change (match c.get host our peer with | none => _ | some id => _) = _ at hs
    split at hs
    · cases hs; exact hI
    · next id hid =>
      obtain ⟨e, he, -⟩ := (hI.live.get_iff our peer id).mp hid
      obtain ⟨c₁, h₁, hI₁, -⟩ := hI.bceDelete hlft he false
      cases h₁.symm.trans hs
      exact hI₁
  | flush =>
    obtain ⟨hnodup, hids⟩ := hI.live.data
    obtain ⟨c₁, h₁, hI₁, -⟩ := hI.flushLoop hlft _ hnodup hids
    change (c.bcHash.iterate (bceCleanup host lft) (some c)).1 = some c' at hs
    rw [Hash.iterate_eq, h₁] at hs
    cases hs
    exact hI₁
  | addOther k t =>
    obtain ⟨tq', hadd, htq, -⟩ := hI.tq.addTaskAbs (.other k) ha
    change (c.tq.addTaskAbs (.other k) t).map _ = _ at hs
    rw [hadd] at hs
    cases hs
    obtain ⟨hlist, hcurr⟩ := addTaskAbs_list hI.tq hadd
    exact hI.other htq (fun i => by rw [hlist]; simp) hcurr
  | delOther k =>
    cases hs
    obtain ⟨hlist, hcurr⟩ := delTask_list hI.tq (.other k)
    exact hI.other (hI.tq.delTask _) (fun i => by rw [hlist]; simp) hcurr
  | pass now =>
    obtain ⟨tq', htq, ⟨⟩⟩ := Option.map_eq_some_iff.mp hs
    have h := hI.tq.goes_on (a := .pass now) rfl htq
    refine hI.inner (fun i hi => ?_) (hI.tq.step (a := .pass now) trivial htq).1 h
    -- the runner is not in a task when it comes by
    obtain ⟨m, hr⟩ := hI.tq.current _ hi
    rw [Tq.pass, hr] at htq
    cases htq
  | expire now =>
    change (match c.tq.runner, c.ran with
      | .task (.bce id) _, false => _ | _, _ => none) = _ at hs
    split at hs
    · next id now' hr hran =>
      obtain ⟨c₁, h₁, hI₁, hcurr⟩ := hI.expire hlft hr ha
      rw [h₁] at hs
      cases hs
      exact ⟨hI₁.live, hI₁.tq, hI₁.armed, hI₁.mirror, fun _ => hcurr⟩
    · cases hs
  | finish =>
    change (match c.tq.runner, c.ran with
      | .task (.bce _) _, false => none
      | _, _ => c.tq.finish.map fun tq => { c with tq := tq, ran := false }) = _ at hs
    split at hs
    · cases hs
    · next hnot =>
      obtain ⟨tq', htq, ⟨⟩⟩ := Option.map_eq_some_iff.mp hs
      obtain ⟨n, hclock⟩ := Tq.clock_of_runs (a := .finish) (.inl rfl) htq
      have h := hI.tq.goes_on hclock htq
      refine hI.inner (fun i hi => ?_) (hI.tq.step (a := .finish) trivial htq).1 h
      cases hran : c.ran with
      | true => exact hI.done hran i hi
      | false =>
        obtain ⟨m, hr⟩ := hI.tq.current _ hi
        exact hnot i m hr hran

end Bcache

end Manhattan.Umip
