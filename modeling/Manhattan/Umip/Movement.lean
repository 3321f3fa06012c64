import Mathlib.Data.List.Nodup
import Manhattan.Lib.Roster
import Manhattan.Umip.Handover

/-!
# A deleted address (`movement.c`)

The kernel tells the daemon that an address is gone: `process_del_addr` takes the care-of
address off its interface and raises `ME_COA_EXPIRED`, and `mn_movement_event` checks
every home address against it.

The event has to pass two tests of the project's patch. It is not raised for an interface
with preference above 1; and a home address that would have to move to an interface with
preference above 1 stays where it is. In both cases a record that used the address keeps
it. `deleted_dropped_iff` is the exact condition.

Mirroring notes:
- `conf.net_ifaces` tells which indexes are tunnels.
- `pref_change` also changes routes and asks for a router; only the preferences are
  modelled here.
- Registrations that `mn_movement_event` sends afterwards do not change `primary_coa`.
-/

namespace Manhattan.Umip

structure State where
  ifaces : List Iface
  homeAddrList : List HomeAddrInfo
  deriving DecidableEq, Repr

/-- `in6_is_addr_routable_unicast` -/
def in6IsAddrRoutableUnicast (a : Addr) : Bool :=
  a ≠ 0 && a ≠ 1 && a >>> 120 ≠ 0xff && a >>> 118 ≠ 0x3fa

/-- `pref_change`, as far as the preferences go. -/
def prefChange (ifname : String) (ifaces : List Iface) : Int × List Iface :=
  (if ifaces.any fun iface => iface.name = ifname && iface.preference > 1 then 0 else -1,
   ifaces.map fun iface => { iface with preference := if iface.name = ifname then 1 else 2 })

/-! ## The event for every home address -/

/-- The loop of `mn_movement_event` over the home addresses. -/
def checkAll (pmgr : Pmgr) (me : MovementEvent) : List HomeAddrInfo → Option (List HomeAddrInfo)
  | [] => some []
  | hai :: rest =>
    (mnChkHoVerdict pmgr me hai).bind fun c => (checkAll pmgr me rest).map fun rest => c.hai :: rest

/-- The home address of a home agent discovery, `mn_get_home_addr_by_dhaadid`. -/
def checkDhaad (pmgr : Pmgr) (me : MovementEvent) : List HomeAddrInfo → Option (List HomeAddrInfo)
  | [] => some []
  | hai :: rest =>
    if hai.dhaadId = me.data then (mnChkHoVerdict pmgr me hai).map fun c => c.hai :: rest
    else (checkDhaad pmgr me rest).map fun rest => hai :: rest

/-- `mn_movement_event` -/
def mnMovementEvent (pmgr : Pmgr) (me : MovementEvent) (hais : List HomeAddrInfo) :
    Option (List HomeAddrInfo) :=
  if me.eventType = .dhaad then checkDhaad pmgr me hais else checkAll pmgr me hais

/-- `__md_trigger_movement_event`, with what `mn.c` makes of the event. -/
def triggerMovementEvent (pmgr : Pmgr) (me : MovementEvent) (hais : List HomeAddrInfo) :
    Option (List HomeAddrInfo) :=
  match mdTriggerMovementEvent me with
  | none => some hais
  | some me => mnMovementEvent pmgr me hais

theorem triggerMovementEvent_of_gt {pmgr : Pmgr} {me : MovementEvent}
    (h : 1 < me.iface.iface.preference) (hais : List HomeAddrInfo) :
    triggerMovementEvent pmgr me hais = some hais := by
  rw [triggerMovementEvent, mdTriggerMovementEvent, if_pos h]

theorem triggerMovementEvent_expired {pmgr : Pmgr} {me : MovementEvent}
    (htype : me.eventType = .coaExpired) (h : me.iface.iface.preference ≤ 1)
    (hais : List HomeAddrInfo) :
    triggerMovementEvent pmgr me hais = checkAll pmgr me hais := by
  have hraised : mdTriggerMovementEvent me = some me := if_neg (Nat.not_lt_of_ge h)
  rw [triggerMovementEvent, hraised]
  show mnMovementEvent pmgr me hais = _
  rw [mnMovementEvent, htype, if_neg (by decide)]

/-! ## `process_del_addr` -/

/-- An `RTM_DELADDR`: whether `ifa_scope` is `RT_SCOPE_UNIVERSE`, `IFA_ADDRESS`, `ifa_index`. -/
structure DelAddr where
  scopeUniverse : Bool
  addr : Addr
  index : Int
  deriving DecidableEq, Repr

/-- The stack objects `iface_h` and `coa_h`. -/
def freshIface (tunnels : List Int) (index : Int) : Iface :=
  ⟨index, "", 0, index ∈ tunnels, [], [], []⟩

def freshCoa (msg : DelAddr) : Coa := ⟨msg.index, msg.addr, ⟨0, 0, 0⟩⟩

/-- The address moves to the expired ones, if the interface has it. -/
def expireCoa (iface : Iface) (addr : Addr) : Iface :=
  match mdGetCoa iface.coas addr with
  | some coa => { iface with
      coas := iface.coas.eraseP fun c => c.addr = addr, expiredCoas := iface.expiredCoas ++ [coa] }
  | none => iface

/-- The address of the event: the interface's, an expired one, or `coa_h`. -/
def expiredCoa (iface : Iface) (msg : DelAddr) : Coa :=
  ((mdGetCoa iface.coas msg.addr).or (mdGetCoa iface.expiredCoas msg.addr)).getD (freshCoa msg)

/-- The interface once the event's address is freed. -/
def freeCoa (iface : Iface) (addr : Addr) : Iface :=
  if (mdGetCoa iface.coas addr).isSome then
    { iface with coas := iface.coas.eraseP fun c => c.addr = addr }
  else { iface with expiredCoas := iface.expiredCoas.eraseP fun c => c.addr = addr }

def setAt (ifaces : List Iface) (pos : Option Nat) (iface : Iface) : List Iface :=
  match pos with
  | some i => ifaces.set i iface
  | none => ifaces

theorem setAt_getElem? {ifaces : List Iface} {p : Ptr} (hp : p ∈ ptrs ifaces) (iface : Iface)
    (i : Nat) (hi : p.pos = some i) : (setAt ifaces p.pos iface)[i]? = some iface := by
  obtain ⟨j, hj, hget⟩ := mem_ptrs.mp hp
  have hij : j = i := Option.some.inj (hj.symm.trans hi)
  have hlt : i < ifaces.length := hij ▸ (List.getElem?_eq_some_iff.mp hget).1
  rw [hi]
  exact List.getElem?_set_self hlt

/-- The event that `process_del_addr` raises. -/
def deletedEvent (tunnels : List Int) (msg : DelAddr) (ifaces : List Iface) : MovementEvent :=
  match h : mdGetInet6Iface ifaces msg.index with
  | some p =>
    { eventType := .coaExpired, data := 0,
      ifaces := setAt ifaces p.pos (expireCoa p.iface msg.addr),
      iface := ⟨p.pos, expireCoa p.iface msg.addr⟩,
      coa := some (expiredCoa p.iface msg),
      listed := setAt_getElem? (mdGetInet6Iface_some h).1 _ }
  | none =>
    { eventType := .coaExpired, data := 0, ifaces,
      iface := ⟨none, freshIface tunnels msg.index⟩, coa := some (freshCoa msg),
      listed := fun _ h => nomatch h }

/-- `process_del_addr` -/
def processDelAddr (pmgr : Pmgr) (tunnels : List Int) (msg : DelAddr) (s : State) : Option State :=
  if !msg.scopeUniverse || !in6IsAddrRoutableUnicast msg.addr then some s
  else (triggerMovementEvent pmgr (deletedEvent tunnels msg s.ifaces) s.homeAddrList).map
    fun hais => ⟨match mdGetInet6Iface s.ifaces msg.index with
      | some p => setAt s.ifaces p.pos (freeCoa p.iface msg.addr)
      | none => s.ifaces, hais⟩

/-! ## Well-formed lists -/

/-- No index and no address of an interface is listed twice, and what an interface lists
carries its index. -/
structure WellFormed (ifaces : List Iface) : Prop where
  nodup : (ifaces.map (·.ifindex)).Nodup
  indexed : ∀ iface ∈ ifaces, Indexed iface
  expired : ∀ iface ∈ ifaces, ∀ coa ∈ iface.expiredCoas, coa.ifindex = iface.ifindex
  addrs : ∀ iface ∈ ifaces, (iface.coas.map (·.addr)).Nodup

instance decWellFormed (ifaces : List Iface) : Decidable (WellFormed ifaces) :=
  decidable_of_iff ((ifaces.map (·.ifindex)).Nodup ∧ (∀ iface ∈ ifaces, Indexed iface) ∧
    (∀ iface ∈ ifaces, ∀ coa ∈ iface.expiredCoas, coa.ifindex = iface.ifindex) ∧
    ∀ iface ∈ ifaces, (iface.coas.map (·.addr)).Nodup)
    ⟨fun h => ⟨h.1, h.2.1, h.2.2.1, h.2.2.2⟩, fun h => ⟨h.1, h.2, h.3, h.4⟩⟩

/-- The record uses this address of this interface. -/
def Uses (index : Int) (addr : Addr) (hai : HomeAddrInfo) : Prop :=
  hai.primaryCoa.iif = index ∧ hai.primaryCoa.addr = addr

instance decUses (index : Int) (addr : Addr) (hai : HomeAddrInfo) :
    Decidable (Uses index addr hai) :=
  inferInstanceAs (Decidable (hai.primaryCoa.iif = index ∧ hai.primaryCoa.addr = addr))

/-- The record has somewhere to go: home, nowhere, or to an interface it may use. -/
def Leaves (pmgr : Pmgr) (me : MovementEvent) (hai : HomeAddrInfo) : Prop :=
  (homeRouter me hai).isSome ∨
  ∀ new ∈ mnGetIface pmgr hai.hoa hai.haAddr (prefIif me hai) me.ifaces,
    new.iface.preference ≤ 1

instance decLeaves (pmgr : Pmgr) (me : MovementEvent) (hai : HomeAddrInfo) :
    Decidable (Leaves pmgr me hai) :=
  inferInstanceAs (Decidable ((homeRouter me hai).isSome ∨
    ∀ new ∈ mnGetIface pmgr hai.hoa hai.haAddr (prefIif me hai) me.ifaces,
      new.iface.preference ≤ 1))

/-! ## What the event finds

`Gone me k a` says that `me` is the expiry of `a` on `k`, that nothing listed is that address
any more, and that the event's interface is the one with index `k`. -/

structure Gone (me : MovementEvent) (index : Int) (addr : Addr) : Prop where
  eventType : me.eventType = .coaExpired
  coa : ∃ coa, me.coa = some coa ∧ eventCoa me = some coa ∧ coa.addr = addr
  unlisted : ∀ iface ∈ me.ifaces, ∀ coa ∈ iface.coas, ¬ (coa.ifindex = index ∧ coa.addr = addr)
  indexed : ∀ iface ∈ me.ifaces, Indexed iface
  own : ∀ p, mdGetInet6Iface me.ifaces index = some p → p.pos = me.iface.pos

section

variable {pmgr : Pmgr} {me : MovementEvent} {hai : HomeAddrInfo} {index : Int} {addr : Addr}

/-- A record that uses the address goes on to the choice of an interface. -/
theorem Gone.switchEvent_uses (h : Gone me index addr) (hindex : 0 < index)
    (huses : Uses index addr hai) : switchEvent me hai = some (.choose false) := by
  obtain ⟨coa, -, hcoa, haddr⟩ := h.coa
  unfold switchEvent
  rw [h.eventType, hcoa]
  show some (onExpired me hai coa) = _
  have hall : ((oldIface me hai).all fun p =>
      p.pos = me.iface.pos && hai.primaryCoa.addr = coa.addr) = true := by
    rw [Option.all_eq_true]
    intro p hp
    unfold oldIface at hp
    rw [huses.1, if_pos hindex] at hp
    simp [h.own p hp, huses.2, haddr]
  rw [onExpired, if_pos hall]

/-- Any record is left alone or goes on to the choice. -/
theorem Gone.switchEvent (h : Gone me index addr) (hai : HomeAddrInfo) :
    switchEvent me hai = some (.choose false) ∨ switchEvent me hai = some (.verdict .ignore) := by
  obtain ⟨coa, -, hcoa, -⟩ := h.coa
  unfold Umip.switchEvent
  rw [h.eventType, hcoa]
  show some (onExpired me hai coa) = _ ∨ some (onExpired me hai coa) = _
  unfold onExpired
  split
  case isTrue => exact .inl rfl
  case isFalse => exact .inr rfl

/-- `rtr_addr_chk` has a router if the record is at home. -/
theorem chkHome_isSome {rtr : Option Router} (h : rtr.isSome ∨ hai.atHome = false)
    (moveHome : Bool) : (chkHome hai rtr moveHome).isSome := by
  unfold chkHome
  split
  case isTrue hhome =>
    split
    case isTrue =>
      rcases h with hsome | haway
      · rw [Option.isSome_map]
        exact hsome
      · rw [haway] at hhome
        cases hhome
    case isFalse => rfl
  case isFalse => rfl

theorem exists_map_of_isSome {α β : Type} {o : Option α} (h : o.isSome) {f : α → β} {P : β → Prop}
    (hP : ∀ x, P (f x)) : ∃ y, o.map f = some y ∧ P y := by
  obtain ⟨x, rfl⟩ := Option.isSome_iff_exists.mp h
  exact ⟨f x, rfl, hP x⟩

theorem mnHomeRtrChk_hoa : (mnHomeRtrChk hai).1.hoa = hai.hoa := by
  unfold mnHomeRtrChk
  split <;> rfl

theorem carryOut_returnHome (hai : HomeAddrInfo) (rtr : Router) :
    ∃ c, carryOut (.returnHome rtr) hai = some c ∧ c.hai.primaryCoa.addr = hai.hoa :=
  exists_map_of_isSome (chkHome_isSome (.inl rfl) _) fun _ => mnHomeRtrChk_hoa

/-- After a handover the record uses the new address. -/
theorem carryOut_proceed (hai : HomeAddrInfo) (coa : Coa) {rtr : Option Router}
    (h : rtr.isSome ∨ hai.atHome = false) :
    ∃ c, carryOut (.proceed coa rtr) hai = some c ∧
      c.hai.primaryCoa = ⟨coa.addr, coa.ifindex, coa.life⟩ := by
  refine exists_map_of_isSome (chkHome_isSome ?_ _) fun _ => rfl
  cases rtr with
  | none => exact .inr (h.resolve_left (by simp))
  | some rtr => exact .inl rfl

/-- The record after a choice that was not for a tunnel, or with `at_home` cleared. -/
theorem Chosen.router {new : Ptr}
    (hrouter : new.iface.isTunnel = true ∨ new.iface.defaultRtr.isEmpty = false) (atHome : Bool) :
    (mdGetFirstRouter new.iface.defaultRtr).isSome ∨
      (if new.iface.isTunnel then false else atHome) = false := by
  rcases hrouter with htunnel | hnonempty
  · exact .inr (if_pos htunnel)
  · refine .inl ?_
    cases hr : new.iface.defaultRtr with
    | nil => rw [hr] at hnonempty; cases hnonempty
    | cons rtr rest => rfl

/-- After the choice a record uses the deleted address only if it did and was told to
ignore the event. -/
theorem Gone.chosen (h : Gone me index addr) (hindex : 0 < index) {d : Decision}
    {hai' : HomeAddrInfo} (hchosen : Chosen pmgr me hai false (d, hai')) :
    ∃ c, carryOut d { hai' with verdict := d.verdict } = some c ∧
      (Uses index addr c.hai ↔ Uses index addr hai ∧ d = .ignore) := by
  -- `MN_HO_INVALIDATE` leaves interface 0 in the record
  have hzero : (0 : Int) ≠ index := Int.ne_of_lt hindex
  cases hchosen with
  | nowhere hnew => exact ⟨_, rfl, fun huses => absurd huses.1 hzero, fun huses => nomatch huses.2⟩
  | notPreferred new hnew hpref => exact ⟨_, rfl, fun huses => ⟨huses, rfl⟩, And.left⟩
  | noAddress new hnew hpref =>
    exact ⟨_, rfl, fun huses => absurd huses.1 hzero, fun huses => nomatch huses.2⟩
  | stay => exact ⟨_, rfl, fun huses => ⟨huses, rfl⟩, And.left⟩
  | go new coa hnew hpref hcoa hrouter =>
    have hmem : new.iface ∈ me.ifaces := iface_mem_of_ptr (mnGetIface_some hnew).1
    obtain ⟨c, hcarry, hprimary⟩ := carryOut_proceed
      { hai with
        atHome := if new.iface.isTunnel then false else hai.atHome, verdict := .proceed }
      coa (Chosen.router hrouter hai.atHome)
    refine ⟨c, hcarry, fun huses => ?_, fun huses => nomatch huses.2⟩
    unfold Uses at huses
    rw [hprimary] at huses
    exact absurd huses (h.unlisted new.iface hmem coa hcoa)

theorem leaves_of_preferred {new : Ptr}
    (hnew : mnGetIface pmgr hai.hoa hai.haAddr (prefIif me hai) me.ifaces = some new)
    (hpref : new.iface.preference ≤ 1) : Leaves pmgr me hai := by
  refine .inr fun new' hnew' => ?_
  rw [← Option.some.inj (hnew.symm.trans hnew')]
  exact hpref

/-- A record that uses the deleted address is told to ignore the event exactly if it has
nowhere to go. -/
theorem Gone.ignore_iff (h : Gone me index addr) (huses : Uses index addr hai)
    (hhome : homeRouter me hai = none) {d : Decision} {hai' : HomeAddrInfo}
    (hchosen : Chosen pmgr me hai false (d, hai')) : d = .ignore ↔ ¬ Leaves pmgr me hai := by
  cases hchosen with
  | nowhere hnew =>
    have hleaves : Leaves pmgr me hai := .inr fun new hnew' => by rw [hnew] at hnew'; cases hnew'
    exact ⟨fun hd => (nomatch hd), fun hnot => absurd hleaves hnot⟩
  | notPreferred new hnew hpref =>
    refine ⟨fun _ hleaves => ?_, fun _ => rfl⟩
    rcases hleaves with hsome | hall
    · rw [hhome] at hsome
      cases hsome
    · exact absurd (hall new hnew) (Nat.not_le_of_gt hpref)
  | noAddress new hnew hpref =>
    exact ⟨fun hd => (nomatch hd), fun hnot => absurd (leaves_of_preferred hnew hpref) hnot⟩
  | stay new old coa hnew hpref hcoa hforce hold hpos haddr =>
    -- the address is gone, so it cannot be the one that was chosen
    have hptr := (mnGetIface_some hnew).1
    have hsame : new.iface = old.iface := iface_eq_of_pos hptr (oldIface_some hold).1 hpos
    have hmem : new.iface ∈ me.ifaces := iface_mem_of_ptr hptr
    have hindex : coa.ifindex = index := by
      rw [(h.indexed new.iface hmem).coas coa hcoa, hsame, (oldIface_some hold).2, huses.1]
    exact absurd ⟨hindex, haddr.trans huses.2⟩ (h.unlisted new.iface hmem coa hcoa)
  | go new coa hnew hpref =>
    exact ⟨fun hd => (nomatch hd), fun hnot => absurd (leaves_of_preferred hnew hpref) hnot⟩

theorem Gone.expiresHoa (h : Gone me index addr) (hhoa : hai.hoa ≠ addr) :
    expiresHoa me hai = false := by
  obtain ⟨coa, hcoa, -, haddr⟩ := h.coa
  simp [Umip.expiresHoa, hcoa, haddr, Ne.symm hhoa]

/-- **One record.** After the expiry of an address the record does not use it, except if it
did and has nowhere to go. -/
theorem Gone.chk (h : Gone me index addr) (hindex : 0 < index) (hhoa : hai.hoa ≠ addr)
    (pmgr : Pmgr) :
    ∃ c, mnChkHoVerdict pmgr me hai = some c ∧
      (¬ Uses index addr c.hai ↔ (Uses index addr hai → Leaves pmgr me hai)) := by
  unfold mnChkHoVerdict mnMakeHoVerdict
  rw [h.expiresHoa hhoa, if_neg Bool.false_ne_true]
  cases hhome : homeRouter me hai with
  | some rtr =>
    obtain ⟨c, hcarry, haddr⟩ := carryOut_returnHome { hai with verdict := .returnHome } rtr
    refine ⟨c, hcarry, fun _ _ => .inl (by rw [hhome]; rfl), fun _ huses => ?_⟩
    exact hhoa (haddr.symm.trans huses.2)
  | none =>
    have hchosen := chooseIface_chosen pmgr me hai false
    obtain ⟨c, hcarry, hc⟩ := h.chosen hindex hchosen
    by_cases huses : Uses index addr hai
    · rw [h.switchEvent_uses hindex huses]
      refine ⟨c, hcarry, ?_⟩
      rw [hc, h.ignore_iff huses hhome hchosen]
      simp [huses]
    · -- a record that uses another address may move as well, but not to this one
      rcases h.switchEvent hai with hswitch | hswitch
      · rw [hswitch]
        exact ⟨c, hcarry, fun _ hu => absurd hu huses, fun _ hu => huses (hc.mp hu).1⟩
      · rw [hswitch]
        exact ⟨_, rfl, fun _ hu => absurd hu huses, fun _ => huses⟩

/-- **All records.** -/
theorem Gone.checkAll (h : Gone me index addr) (hindex : 0 < index) (pmgr : Pmgr) :
    ∀ hais : List HomeAddrInfo, (∀ hai ∈ hais, hai.hoa ≠ addr) →
      ∃ hais', checkAll pmgr me hais = some hais' ∧
        ((∀ hai ∈ hais', ¬ Uses index addr hai) ↔
          ∀ hai ∈ hais, Uses index addr hai → Leaves pmgr me hai) := by
  intro hais
  induction hais with
  | nil => exact fun _ => ⟨[], rfl, by simp⟩
  | cons hai rest ih =>
    intro hhoa
    obtain ⟨c, hchk, hc⟩ := h.chk hindex (hhoa hai List.mem_cons_self) pmgr
    obtain ⟨rest', hrest, hiff⟩ := ih fun hai' hmem => hhoa hai' (List.mem_cons_of_mem hai hmem)
    refine ⟨c.hai :: rest', by rw [Umip.checkAll, hchk, hrest]; rfl, ?_⟩
    rw [List.forall_mem_cons, List.forall_mem_cons, hc, hiff]

end

/-! ## The event of `process_del_addr` -/

section

variable {ifaces : List Iface} {iface : Iface} {p : Ptr} {msg : DelAddr} {addr : Addr}

theorem expireCoa_ifindex (iface : Iface) (addr : Addr) :
    (expireCoa iface addr).ifindex = iface.ifindex := by
  unfold expireCoa
  split <;> rfl

theorem Indexed.expireCoa (h : Indexed iface) : Indexed (expireCoa iface addr) := by
  unfold Umip.expireCoa
  split
  next => exact ⟨fun coa hcoa => h.coas coa (List.mem_of_mem_eraseP hcoa), h.routers⟩
  next => exact h

theorem not_mem_expireCoa (h : (iface.coas.map (·.addr)).Nodup) {coa : Coa}
    (hcoa : coa ∈ (expireCoa iface addr).coas) : coa.addr ≠ addr := by
  unfold expireCoa at hcoa
  split at hcoa
  next =>
    -- the addresses are distinct, so the first entry was the only one
    have hmem := List.mem_map_of_mem (f := fun c : Coa => c.addr) hcoa
    rw [Lib.map_leave] at hmem
    exact fun heq => h.not_mem_erase (heq ▸ hmem)
  next hnone => simpa using List.find?_eq_none.mp hnone coa hcoa

theorem expiredCoa_spec (hindexed : Indexed iface)
    (hexpired : ∀ coa ∈ iface.expiredCoas, coa.ifindex = iface.ifindex)
    (hindex : iface.ifindex = msg.index) :
    (expiredCoa iface msg).ifindex = msg.index ∧ (expiredCoa iface msg).addr = msg.addr := by
  unfold expiredCoa
  cases hcoa : mdGetCoa iface.coas msg.addr with
  | some coa =>
    obtain ⟨hmem, haddr⟩ := mdGetCoa_some hcoa
    exact ⟨(hindexed.coas coa hmem).trans hindex, haddr⟩
  | none =>
    cases hold : mdGetCoa iface.expiredCoas msg.addr with
    | some coa =>
      obtain ⟨hmem, haddr⟩ := mdGetCoa_some hold
      exact ⟨(hexpired coa hmem).trans hindex, haddr⟩
    | none => exact ⟨rfl, rfl⟩

theorem mem_setAt {x : Iface} (h : x ∈ setAt ifaces p.pos iface) : x ∈ ifaces ∨ x = iface := by
  unfold setAt at h
  split at h
  next => exact List.mem_or_eq_of_mem_set h
  next => exact .inl h

/-- An interface replaced by one with its index leaves the indexes as they were. -/
theorem map_setAt (hp : p ∈ ptrs ifaces) (hindex : iface.ifindex = p.iface.ifindex) :
    (setAt ifaces p.pos iface).map (·.ifindex) = ifaces.map (·.ifindex) := by
  obtain ⟨i, hi, hget⟩ := mem_ptrs.mp hp
  rw [hi]
  show (ifaces.set i iface).map (·.ifindex) = _
  obtain ⟨hlt, hi⟩ := List.getElem?_eq_some_iff.mp hget
  have hlt' : i < (ifaces.map (·.ifindex)).length := by rw [List.length_map]; exact hlt
  have hval : (ifaces.map (·.ifindex))[i] = iface.ifindex := by
    rw [List.getElem_map, hi, hindex]
  rw [List.map_set, ← hval]
  exact List.set_getElem_self hlt'

/-- Two positions with one index are the same. -/
theorem pos_eq_of_ifindex (h : (ifaces.map (·.ifindex)).Nodup) {q : Ptr} (hp : p ∈ ptrs ifaces)
    (hq : q ∈ ptrs ifaces) (hindex : p.iface.ifindex = q.iface.ifindex) : p.pos = q.pos := by
  obtain ⟨i, hi, hgetp⟩ := mem_ptrs.mp hp
  obtain ⟨j, hj, hgetq⟩ := mem_ptrs.mp hq
  have hlt : i < (ifaces.map (·.ifindex)).length := by
    rw [List.length_map]
    exact (List.getElem?_eq_some_iff.mp hgetp).1
  have hij : i = j := by
    rw [← List.getElem?_inj hlt h, List.getElem?_map, List.getElem?_map, hgetp, hgetq]
    exact congrArg some hindex
  rw [hi, hj, hij]

/-- The lists that the event sees. -/
theorem WellFormed.indexed_setAt (h : WellFormed ifaces) (hp : p ∈ ptrs ifaces) :
    ∀ x ∈ setAt ifaces p.pos (expireCoa p.iface addr), Indexed x := by
  intro x hx
  rcases mem_setAt hx with hmem | rfl
  · exact h.indexed x hmem
  · exact (h.indexed p.iface (iface_mem_of_ptr hp)).expireCoa

/-- Nobody lists an address that was taken off the only interface with that index. -/
theorem gone_deletedEvent (h : WellFormed ifaces) (tunnels : List Int) (msg : DelAddr) :
    Gone (deletedEvent tunnels msg ifaces) msg.index msg.addr := by
  unfold deletedEvent
  split
  next p hget =>
    -- the event sees the interface at its old place, without the address
    obtain ⟨hp, hindex⟩ := mdGetInet6Iface_some hget
    have hmem : p.iface ∈ ifaces := iface_mem_of_ptr hp
    have hown : (expireCoa p.iface msg.addr).ifindex = msg.index :=
      (expireCoa_ifindex p.iface msg.addr).trans hindex
    have hmap := map_setAt hp (expireCoa_ifindex p.iface msg.addr)
    have hnodup : ((setAt ifaces p.pos (expireCoa p.iface msg.addr)).map (·.ifindex)).Nodup :=
      hmap ▸ h.nodup
    have hlisted : (⟨p.pos, expireCoa p.iface msg.addr⟩ : Ptr) ∈
        ptrs (setAt ifaces p.pos (expireCoa p.iface msg.addr)) := by
      obtain ⟨i, hi, -⟩ := mem_ptrs.mp hp
      exact mem_ptrs.mpr ⟨i, hi, setAt_getElem? hp _ i hi⟩
    have hcoa := expiredCoa_spec (h.indexed p.iface hmem) (h.expired p.iface hmem) hindex
    refine ⟨rfl, ⟨_, rfl, ?_, hcoa.2⟩, ?_, h.indexed_setAt hp, ?_⟩
    · exact Option.filter_some_pos (by simp [hcoa.1, hown])
    · -- an entry with this index is on the interface it was taken off
      intro iface hiface coa hmemCoa hgone
      have hsame : iface = expireCoa p.iface msg.addr := by
        refine List.inj_on_of_nodup_map hnodup hiface (iface_mem_of_ptr hlisted) ?_
        rw [hown, ← hgone.1]
        exact ((h.indexed_setAt hp iface hiface).coas coa hmemCoa).symm
      rw [hsame] at hmemCoa
      exact not_mem_expireCoa (h.addrs p.iface hmem) hmemCoa hgone.2
    · intro q hq
      obtain ⟨hqmem, hqindex⟩ := mdGetInet6Iface_some hq
      exact pos_eq_of_ifindex hnodup hqmem hlisted (hqindex.trans hown.symm)
  next hnone =>
    -- the daemon does not know the interface, and nothing listed has its index
    refine ⟨rfl, ⟨_, rfl, ?_, rfl⟩, ?_, h.indexed, ?_⟩
    · exact Option.filter_some_pos (by simp [freshIface, freshCoa])
    · intro iface hiface coa hcoa hgone
      have hindex := (h.indexed iface hiface).coas coa hcoa
      exact mdGetInet6Iface_none hnone hiface (hindex.symm.trans hgone.1)
    · intro q hq
      rw [hnone] at hq
      cases hq

/-- The message raises an event: its address counts, and its interface, if the daemon knows
it, has preference at most 1. -/
def Raised (msg : DelAddr) (ifaces : List Iface) : Prop :=
  msg.scopeUniverse = true ∧ in6IsAddrRoutableUnicast msg.addr = true ∧
  ∀ p ∈ mdGetInet6Iface ifaces msg.index, p.iface.preference ≤ 1

instance decRaised (msg : DelAddr) (ifaces : List Iface) : Decidable (Raised msg ifaces) :=
  inferInstanceAs (Decidable (msg.scopeUniverse = true ∧
    in6IsAddrRoutableUnicast msg.addr = true ∧
    ∀ p ∈ mdGetInet6Iface ifaces msg.index, p.iface.preference ≤ 1))

theorem expireCoa_preference (iface : Iface) (addr : Addr) :
    (expireCoa iface addr).preference = iface.preference := by
  unfold expireCoa
  split <;> rfl

theorem deletedEvent_preference (tunnels : List Int) (msg : DelAddr) (ifaces : List Iface) :
    (deletedEvent tunnels msg ifaces).iface.iface.preference ≤ 1 ↔
      ∀ p ∈ mdGetInet6Iface ifaces msg.index, p.iface.preference ≤ 1 := by
  unfold deletedEvent
  split
  next p hget =>
    show (expireCoa p.iface msg.addr).preference ≤ 1 ↔ _
    rw [expireCoa_preference]
    exact ⟨fun hle q hq => Option.some.inj (hget.symm.trans hq) ▸ hle, fun hall => hall p hget⟩
  next hnone =>
    refine ⟨fun _ q hq => ?_, fun _ => Nat.zero_le 1⟩
    rw [hnone] at hq
    cases hq

end

/-- No record uses the address of the message. -/
def Dropped (msg : DelAddr) (s : State) : Prop :=
  ∀ hai ∈ s.homeAddrList, ¬ Uses msg.index msg.addr hai

instance decDropped (msg : DelAddr) (s : State) : Decidable (Dropped msg s) :=
  inferInstanceAs (Decidable (∀ hai ∈ s.homeAddrList, ¬ Uses msg.index msg.addr hai))

theorem dropped_iff_of_not_raised {msg : DelAddr} {s : State} {P : HomeAddrInfo → Prop}
    (h : ¬ Raised msg s.ifaces) :
    Dropped msg s ↔ ∀ hai ∈ s.homeAddrList, Uses msg.index msg.addr hai →
      Raised msg s.ifaces ∧ P hai :=
  ⟨fun hdropped hai hmem huses => absurd huses (hdropped hai hmem),
    fun hall hai hmem huses => h (hall hai hmem huses).1⟩

/-- **A deleted address is dropped exactly if** every record that uses it hears of it, and
has somewhere to go. -/
theorem deleted_dropped_iff (pmgr : Pmgr) (tunnels : List Int) (msg : DelAddr) (s : State)
    (hwf : WellFormed s.ifaces) (hindex : 0 < msg.index)
    (hhoa : ∀ hai ∈ s.homeAddrList, hai.hoa ≠ msg.addr) :
    ∃ s', processDelAddr pmgr tunnels msg s = some s' ∧
      (Dropped msg s' ↔ ∀ hai ∈ s.homeAddrList, Uses msg.index msg.addr hai →
        Raised msg s.ifaces ∧ Leaves pmgr (deletedEvent tunnels msg s.ifaces) hai) := by
  unfold processDelAddr
  split
  case isTrue hskip =>
    refine ⟨s, rfl, dropped_iff_of_not_raised fun hraised => ?_⟩
    simp [hraised.1, hraised.2.1] at hskip
  case isFalse hcounts =>
    simp only [Bool.or_eq_true, Bool.not_eq_true', not_or, Bool.not_eq_false] at hcounts
    by_cases hpref : (deletedEvent tunnels msg s.ifaces).iface.iface.preference ≤ 1
    · have hgone := gone_deletedEvent hwf tunnels msg
      obtain ⟨hais, hall, hiff⟩ := hgone.checkAll hindex pmgr s.homeAddrList hhoa
      have hraised : Raised msg s.ifaces :=
        ⟨hcounts.1, hcounts.2, (deletedEvent_preference tunnels msg s.ifaces).mp hpref⟩
      rw [triggerMovementEvent_expired hgone.eventType hpref, hall]
      refine ⟨_, rfl, hiff.trans ?_⟩
      simp only [hraised, true_and]
    · rw [triggerMovementEvent_of_gt (Nat.lt_of_not_ge hpref)]
      refine ⟨_, rfl, ?_⟩
      have hnot : ¬ Raised msg s.ifaces := fun hraised =>
        hpref ((deletedEvent_preference tunnels msg s.ifaces).mpr hraised.2.2)
      exact dropped_iff_of_not_raised hnot

/-- With both interfaces preferred the laptop moves from the wireless one to the other. -/
theorem deleted_dropped_iff_bothPreferred :
    ∃ s', processDelAddr silentPmgr [] ⟨true, 0x30, 3⟩
        ⟨[eth0, { wlan0 with preference := 1 }], [onWireless]⟩ = some s' ∧
      Dropped ⟨true, 0x30, 3⟩ s' := by
  obtain ⟨s', hs, hiff⟩ := deleted_dropped_iff silentPmgr [] ⟨true, 0x30, 3⟩
    ⟨[eth0, { wlan0 with preference := 1 }], [onWireless]⟩ (by decide) (by decide) (by decide)
  exact ⟨s', hs, hiff.mpr (by decide)⟩

/-- **A deleted address is kept.** After `pref eth0` the record still uses the wireless
interface, and does not hear that its address is gone; and a record on the Ethernet
interface, which has lost its only address, does not move to the wireless one and keeps
it. -/
theorem deleted_address_is_kept :
    (∃ s', processDelAddr silentPmgr [] ⟨true, 0x30, 3⟩
        ⟨(prefChange "eth0" [eth0, wlan0]).2, [onWireless]⟩ = some s' ∧
      ¬ Dropped ⟨true, 0x30, 3⟩ s') ∧
    ∃ s', processDelAddr silentPmgr [] ⟨true, 0x20, 2⟩
        ⟨(prefChange "eth0" [eth0, wlan0]).2,
          [{ onWireless with primaryCoa := ⟨0x20, 2, ⟨0, 60, 60⟩⟩ }]⟩ = some s' ∧
      ¬ Dropped ⟨true, 0x20, 2⟩ s' :=
  ⟨⟨_, rfl, by decide⟩, _, rfl, by decide⟩

end Manhattan.Umip
