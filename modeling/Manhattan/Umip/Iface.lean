/-!
# Interfaces, routers and care-of addresses of the Mobile IPv6 daemon

`movement.c` keeps the list `ifaces`; an interface lists its default routers, its care-of
addresses, and those that have expired but are still in use by an event. `mn.c` chooses an
interface and an address from these lists: `mn_get_iface`, `mn_get_coa`. The policy
manager is asked first, and its answer is used if it is on the lists; otherwise the lowest
preference wins.

Mirroring notes:
- C compares interfaces by pointer. A pointer is a position of the list and the interface
  there, or no position for an interface that is not on the list (`Ptr`).
- `struct timespec` is a number of nanoseconds; only `tsisset` and copies are used.
- Of an interface's fields those stand here that movement events read.
-/

namespace Manhattan.Umip

/-- `struct in6_addr` -/
abbrev Addr := BitVec 128

structure Lifetime where
  timestamp : Nat
  validTime : Nat
  preferredTime : Nat
  deriving DecidableEq, Repr

/-- `struct prefix_list_entry`; `raddr` is `ND_OPT_PI_FLAG_RADDR`. -/
structure PrefixEntry where
  plePrefix : Addr
  plePlen : Nat
  raddr : Bool
  deriving DecidableEq, Repr

/-- `struct md_router` -/
structure Router where
  ifindex : Int
  raddrCnt : Nat
  prefixes : List PrefixEntry
  deriving DecidableEq, Repr

/-- `struct md_coa` -/
structure Coa where
  ifindex : Int
  addr : Addr
  life : Lifetime
  deriving DecidableEq, Repr

/-- `struct md_inet6_iface` -/
structure Iface where
  ifindex : Int
  name : String
  preference : Nat
  isTunnel : Bool
  defaultRtr : List Router
  coas : List Coa
  expiredCoas : List Coa
  deriving DecidableEq, Repr

/-- A `struct md_inet6_iface *`. -/
structure Ptr where
  pos : Option Nat
  iface : Iface
  deriving DecidableEq, Repr

/-- The nodes of the list. -/
def ptrs (ifaces : List Iface) : List Ptr := ifaces.zipIdx.map fun p => ⟨some p.2, p.1⟩

theorem mem_ptrs {ifaces : List Iface} {p : Ptr} :
    p ∈ ptrs ifaces ↔ ∃ i, p.pos = some i ∧ ifaces[i]? = some p.iface := by
  simp only [ptrs, List.mem_map, Prod.exists, List.mem_zipIdx_iff_getElem?]
  constructor
  · rintro ⟨iface, i, hget, rfl⟩
    exact ⟨i, rfl, hget⟩
  · rintro ⟨i, hpos, hget⟩
    exact ⟨p.iface, i, hget, by rw [← hpos]⟩

theorem iface_mem_of_ptr {ifaces : List Iface} {p : Ptr} (h : p ∈ ptrs ifaces) :
    p.iface ∈ ifaces := by
  obtain ⟨i, -, hget⟩ := mem_ptrs.mp h
  exact List.mem_of_getElem? hget

/-- Two pointers to one position point to the same interface. -/
theorem iface_eq_of_pos {ifaces : List Iface} {p q : Ptr} (hp : p ∈ ptrs ifaces)
    (hq : q ∈ ptrs ifaces) (hpos : p.pos = q.pos) : p.iface = q.iface := by
  obtain ⟨i, hi, hgetp⟩ := mem_ptrs.mp hp
  obtain ⟨j, hj, hgetq⟩ := mem_ptrs.mp hq
  have hij : i = j := Option.some.inj (hi.symm.trans (hpos.trans hj))
  rw [hij] at hgetp
  exact Option.some.inj (hgetp.symm.trans hgetq)

/-! ## Looking things up -/

/-- `md_get_inet6_iface` -/
def mdGetInet6Iface (ifaces : List Iface) (ifindex : Int) : Option Ptr :=
  (ptrs ifaces).find? fun p => p.iface.ifindex = ifindex

/-- `md_get_coa`, with an address. -/
def mdGetCoa (coas : List Coa) (coaddr : Addr) : Option Coa :=
  coas.find? fun coa => coa.addr = coaddr

/-- `md_get_first_router` -/
def mdGetFirstRouter (rtrs : List Router) : Option Router := rtrs.head?

/-- `ipv6_pfx_cmp` finds no difference in the first `plen` bits. -/
def ipv6PfxEq (p₁ p₂ : Addr) (plen : Nat) : Bool :=
  p₁ >>> (128 - plen) = p₂ >>> (128 - plen)

/-- The loop of `prefix_list_get`, with `p1` so far. -/
def prefixListGet (addr : Addr) (plen : Nat) : Option PrefixEntry → List PrefixEntry →
    Option PrefixEntry
  | p1, [] => p1
  | p1, p2 :: rest =>
    if ipv6PfxEq p2.plePrefix addr p2.plePlen then
      if plen > 0 then
        if p2.plePlen = plen then some p2 else prefixListGet addr plen p1 rest
      else if p1.all fun p => p.plePlen < p2.plePlen then prefixListGet addr plen (some p2) rest
      else prefixListGet addr plen p1 rest
    else prefixListGet addr plen p1 rest

/-- `mn_is_at_home` -/
def mnIsAtHome (prefixes : List PrefixEntry) (homePrefix : Addr) (homePlen : Nat) : Bool :=
  (prefixListGet homePrefix homePlen none prefixes).isSome

/-- `rtr_addr_chk` -/
def rtrAddrChk (rtr : Router) (addr : Addr) : Bool :=
  rtr.raddrCnt > 0 && rtr.prefixes.any fun p => p.raddr && p.plePrefix = addr

theorem mdGetInet6Iface_some {ifaces : List Iface} {ifindex : Int} {p : Ptr}
    (h : mdGetInet6Iface ifaces ifindex = some p) :
    p ∈ ptrs ifaces ∧ p.iface.ifindex = ifindex :=
  ⟨List.mem_of_find?_eq_some h, by simpa using List.find?_some h⟩

theorem mdGetInet6Iface_none {ifaces : List Iface} {ifindex : Int}
    (h : mdGetInet6Iface ifaces ifindex = none) {iface : Iface} (hmem : iface ∈ ifaces) :
    iface.ifindex ≠ ifindex := by
  obtain ⟨i, hget⟩ := List.mem_iff_getElem?.mp hmem
  have hptr : (⟨some i, iface⟩ : Ptr) ∈ ptrs ifaces := mem_ptrs.mpr ⟨i, rfl, hget⟩
  simpa using List.find?_eq_none.mp h _ hptr

theorem mdGetCoa_some {coas : List Coa} {coaddr : Addr} {coa : Coa}
    (h : mdGetCoa coas coaddr = some coa) : coa ∈ coas ∧ coa.addr = coaddr :=
  ⟨List.mem_of_find?_eq_some h, by simpa using List.find?_some h⟩

theorem mdGetFirstRouter_some {rtrs : List Router} {rtr : Router}
    (h : mdGetFirstRouter rtrs = some rtr) : rtr ∈ rtrs :=
  List.mem_of_mem_head? h

/-! ## The choice of an interface and of an address -/

/-- `conf.pmgr`: what the policy manager answers. -/
structure Pmgr where
  bestIface : (hoa haAddr : Addr) → (prefIif : Int) → Int
  bestCoa : (hoa haAddr : Addr) → (iif : Int) → (prefCoa : Addr) → Int × Addr

/-- `mn_verify_iface` -/
def mnVerifyIface (iface : Iface) : Bool :=
  !iface.coas.isEmpty && (iface.isTunnel || !iface.defaultRtr.isEmpty)

/-- One round of the loop of `mn_get_iface`. -/
def betterIface (prefIif : Int) (best : Option Ptr) (p : Ptr) : Option Ptr :=
  if mnVerifyIface p.iface && best.all fun b =>
      b.iface.preference > p.iface.preference ||
        (b.iface.preference = p.iface.preference && p.iface.ifindex = prefIif)
  then some p else best

/-- The policy manager's interface, if it is on the list and can be used. -/
def pmgrIface (ifaces : List Iface) (iif : Int) : Option Ptr :=
  if iif > 0 then (mdGetInet6Iface ifaces iif).filter fun p => mnVerifyIface p.iface else none

/-- `mn_get_iface` -/
def mnGetIface (pmgr : Pmgr) (hoa haAddr : Addr) (prefIif : Int) (ifaces : List Iface) :
    Option Ptr :=
  match pmgrIface ifaces (pmgr.bestIface hoa haAddr prefIif) with
  | some p => some p
  | none => (ptrs ifaces).foldl (betterIface prefIif) none

/-- The loop of `mn_get_coa`, with `best_coa` so far. -/
def scanCoas (best : Option Coa) : List Coa → Option Coa
  | [] => best
  | test :: rest =>
    if test.life.validTime ≠ 0 then
      if test.life.preferredTime ≠ 0 then some test
      else scanCoas (best.or (some test)) rest
    else scanCoas best rest

/-- `mn_get_coa` -/
def mnGetCoa (pmgr : Pmgr) (hoa haAddr : Addr) (iif : Int) (prefCoa : Addr) (coas : List Coa) :
    Option Coa :=
  let (coaIif, addr) := pmgr.bestCoa hoa haAddr iif prefCoa
  let named := if coaIif = iif then (mdGetCoa coas addr).filter fun coa => coa.life.validTime ≠ 0
    else none
  match named with
  | some coa => some coa
  | none =>
    match (mdGetCoa coas prefCoa).filter fun coa => coa.life.validTime ≠ 0 with
    | some coa => if coa.life.preferredTime ≠ 0 then some coa else scanCoas (some coa) coas
    | none => scanCoas none coas

theorem foldl_betterIface {prefIif : Int} {P : Ptr → Prop} :
    ∀ (ps : List Ptr) {best : Option Ptr}, (∀ p ∈ ps, mnVerifyIface p.iface → P p) →
      (∀ b ∈ best, P b) → ∀ b ∈ ps.foldl (betterIface prefIif) best, P b := by
  intro ps
  induction ps with
  | nil => intro best _ hbest; exact hbest
  | cons p ps ih =>
    intro best hps hbest
    rw [List.foldl_cons]
    refine ih (fun q hq => hps q (List.mem_cons_of_mem p hq)) ?_
    intro b hb
    unfold betterIface at hb
    split at hb
    case isTrue hbetter =>
      rw [Bool.and_eq_true] at hbetter
      rw [← Option.mem_some.mp hb]
      exact hps p List.mem_cons_self hbetter.1
    case isFalse => exact hbest b hb

/-- The interface chosen is on the list and can be used. -/
theorem mnGetIface_some {pmgr : Pmgr} {hoa haAddr : Addr} {prefIif : Int} {ifaces : List Iface}
    {p : Ptr} (h : mnGetIface pmgr hoa haAddr prefIif ifaces = some p) :
    p ∈ ptrs ifaces ∧ mnVerifyIface p.iface = true := by
  unfold mnGetIface at h
  split at h
  next q hq =>
    cases h
    unfold pmgrIface at hq
    split at hq
    case isTrue =>
      obtain ⟨hget, hverify⟩ := Option.filter_eq_some_iff.mp hq
      exact ⟨(mdGetInet6Iface_some hget).1, hverify⟩
    case isFalse => cases hq
  next =>
    exact foldl_betterIface (P := fun p => p ∈ ptrs ifaces ∧ mnVerifyIface p.iface = true)
      (ptrs ifaces) (fun q hq hv => ⟨hq, hv⟩) (fun b hb => absurd hb (Option.not_mem_none b)) p h

theorem scanCoas_some {coa : Coa} :
    ∀ (coas : List Coa) {best : Option Coa}, scanCoas best coas = some coa →
      coa ∈ coas ∨ best = some coa := by
  intro coas
  induction coas with
  | nil => intro best h; exact .inr h
  | cons test rest ih =>
    intro best h
    unfold scanCoas at h
    split at h
    case isTrue =>
      split at h
      case isTrue =>
        cases h
        exact .inl List.mem_cons_self
      case isFalse =>
        rcases ih h with hmem | hbest
        · exact .inl (List.mem_cons_of_mem test hmem)
        · rcases Option.or_eq_some_iff.mp hbest with hb | ⟨-, htest⟩
          · exact .inr hb
          · cases htest
            exact .inl List.mem_cons_self
    case isFalse => exact (ih h).imp_left (List.mem_cons_of_mem test)

/-- The address chosen is on the list. -/
theorem mnGetCoa_mem {pmgr : Pmgr} {hoa haAddr : Addr} {iif : Int} {prefCoa : Addr}
    {coas : List Coa} {coa : Coa} (h : mnGetCoa pmgr hoa haAddr iif prefCoa coas = some coa) :
    coa ∈ coas := by
  have hnamed : ∀ {addr : Addr} {c : Coa},
      (mdGetCoa coas addr).filter (fun coa => coa.life.validTime ≠ 0) = some c → c ∈ coas :=
    fun hc => (mdGetCoa_some (Option.filter_eq_some_iff.mp hc).1).1
  unfold mnGetCoa at h
  dsimp only at h
  split at h
  next c hc =>
    cases h
    split at hc
    case isTrue => exact hnamed hc
    case isFalse => cases hc
  next =>
    split at h
    next c hc =>
      split at h
      case isTrue =>
        cases h
        exact hnamed hc
      case isFalse =>
        rcases scanCoas_some coas h with hmem | hbest
        · exact hmem
        · cases hbest
          exact hnamed hc
    next => exact (scanCoas_some coas h).resolve_right (fun hbest => nomatch hbest)

end Manhattan.Umip
