import Manhattan.Umip.Iface

/-!
# What a movement event does to a home address (`mn.c`)

`mn_make_ho_verdict` decides from an event, the interfaces and the record of a home
address whether to stay, to move to another care-of address, to re-establish the one in
use or to return home; `mn_chk_ho_verdict` carries the decision out on the record. The
project's patch is the test of the chosen interface's preference, and the case of a
tunnel, which has no router.

`handover_to_preferred` is the result: every verdict that uses an interface uses one with
preference at most 1. Only `MN_HO_PROCEED` passes the patched test; for the other three
the interface is the event's own, which passed the test before the event was raised.

Mirroring notes:
- A decision carries the router and the care-of address that its path sets in `next_rtr`
  and `next_coa`. `none` for a decision is a failed `assert`, and for a check also a null
  pointer that is used.
- `mn_coa_updated`, `mn_move` and `mn_do_dad` write neither `primary_coa` nor `at_home`;
  that they are called is recorded. They may set the verdict to `MN_HO_NONE` again, so the
  verdict that was set is recorded too.
- The lifetimes of the home address, which `mn_home_rtr_chk` updates, are not modelled.
-/

namespace Manhattan.Umip

inductive EventType where
  | dhaad
  | ifaceUp
  | ifaceDown
  | linkUp
  | linkDown
  | rtrNew
  | rtrExpired
  | rtrBack
  | rtrUpdated
  | coaNew
  | coaExpired
  | coaLftDec
  | coaLftInc
  deriving DecidableEq, Repr

/-- `struct movement_event`. The interface is on the list where its pointer says. -/
structure MovementEvent where
  eventType : EventType
  data : Int
  ifaces : List Iface
  iface : Ptr
  coa : Option Coa
  listed : ∀ i, iface.pos = some i → ifaces[i]? = some iface.iface

/-- `__md_trigger_movement_event`: the event that reaches `mn.c`. -/
def mdTriggerMovementEvent (me : MovementEvent) : Option MovementEvent :=
  if me.iface.iface.preference > 1 then none else some me

inductive Verdict where
  | none
  | invalidate
  | ignore
  | proceed
  | reestablish
  | checkLifetime
  | returnHome
  deriving DecidableEq, Repr

/-- `positive_ho_verdict` -/
def positiveHoVerdict : Verdict → Bool
  | .proceed | .reestablish | .checkLifetime | .returnHome => true
  | _ => false

/-- `struct mn_addr` -/
structure MnAddr where
  addr : Addr
  iif : Int
  life : Lifetime
  deriving DecidableEq, Repr

/-- `struct home_addr_info`. `registered` is `home_reg_status != HOME_REG_NONE`. -/
structure HomeAddrInfo where
  hoa : Addr
  haAddr : Addr
  homePrefix : Addr
  homePlen : Nat
  dhaadId : Int
  registered : Bool
  pendBa : Bool
  atHome : Bool
  primaryCoa : MnAddr
  verdict : Verdict
  deriving DecidableEq, Repr

/-- A verdict with what it sets in `next_rtr` and `next_coa`. -/
inductive Decision where
  | ignore
  | invalidate
  | proceed (coa : Coa) (rtr : Option Router)
  | reestablish (coa : Coa) (rtr : Option Router)
  | checkLifetime (coa : Coa)
  | returnHome (rtr : Router)
  deriving DecidableEq, Repr

def Decision.verdict : Decision → Verdict
  | .ignore => .ignore
  | .invalidate => .invalidate
  | .proceed _ _ => .proceed
  | .reestablish _ _ => .reestablish
  | .checkLifetime _ => .checkLifetime
  | .returnHome _ => .returnHome

/-- The test at the beginning: the event's interface has a router of the home network. -/
def homeRouter (me : MovementEvent) (hai : HomeAddrInfo) : Option Router :=
  if me.iface.iface.isTunnel then none
  else (mdGetFirstRouter me.iface.iface.defaultRtr).filter fun rtr =>
    mnIsAtHome rtr.prefixes hai.homePrefix hai.homePlen

/-- The interface in use, if it is still on the list. -/
def oldIface (me : MovementEvent) (hai : HomeAddrInfo) : Option Ptr :=
  if hai.primaryCoa.iif > 0 then mdGetInet6Iface me.ifaces hai.primaryCoa.iif else none

/-- Where the `switch` leads: a verdict, or to the choice of an interface. -/
inductive Branch where
  | verdict (d : Decision)
  | choose (force : Bool)
  deriving DecidableEq, Repr

/-- The care-of address of the event, which is one of the event's interface. -/
def eventCoa (me : MovementEvent) : Option Coa :=
  me.coa.filter fun coa => me.iface.iface.ifindex = coa.ifindex

/-- `ME_IFACE_DOWN`, `ME_LINK_DOWN`, `ME_RTR_EXPIRED` -/
def onDown (me : MovementEvent) (hai : HomeAddrInfo) : Branch :=
  if (oldIface me hai).all fun p => p.pos = me.iface.pos then .choose false
  else .verdict .ignore

/-- `ME_RTR_BACK`, `ME_RTR_UPDATED` -/
def onRouter (me : MovementEvent) (hai : HomeAddrInfo) : Branch :=
  match oldIface me hai with
  | none => .choose false
  | some p =>
    if p.pos = me.iface.pos then
      match mdGetCoa p.iface.coas hai.primaryCoa.addr with
      | none => .choose false
      | some coa => .verdict (.reestablish coa (mdGetFirstRouter p.iface.defaultRtr))
    else .verdict .ignore

/-- `ME_COA_EXPIRED` -/
def onExpired (me : MovementEvent) (hai : HomeAddrInfo) (coa : Coa) : Branch :=
  if (oldIface me hai).all fun p => p.pos = me.iface.pos && hai.primaryCoa.addr = coa.addr
  then .choose false else .verdict .ignore

/-- `ME_COA_LFT_DEC`, `ME_COA_LFT_INC` -/
def onLifetime (me : MovementEvent) (hai : HomeAddrInfo) (coa : Coa) : Branch :=
  if (oldIface me hai).any fun p => p.pos = me.iface.pos then
    if hai.primaryCoa.addr = coa.addr then .verdict (.checkLifetime coa) else .verdict .ignore
  else .choose false

/-- The assertion that the event's interface has a default router. -/
def withRouter (me : MovementEvent) (b : Branch) : Option Branch :=
  if me.iface.iface.defaultRtr.isEmpty then none else some b

/-- The `switch` of `mn_make_ho_verdict`. -/
def switchEvent (me : MovementEvent) (hai : HomeAddrInfo) : Option Branch :=
  match me.eventType with
  | .dhaad => some (.choose true)
  | .ifaceDown | .linkDown | .rtrExpired => some (onDown me hai)
  | .rtrNew => withRouter me (.choose false)
  | .linkUp => some (.choose false)
  | .rtrBack | .rtrUpdated => withRouter me (onRouter me hai)
  | .coaNew => (eventCoa me).map fun _ => .choose false
  | .coaExpired => (eventCoa me).map fun coa => onExpired me hai coa
  | .coaLftDec | .coaLftInc => (eventCoa me).map fun coa => onLifetime me hai coa
  | .ifaceUp => some (.verdict .ignore)

/-- The interface to prefer: the one in use, unless it is gone. -/
def prefIif (me : MovementEvent) (hai : HomeAddrInfo) : Int :=
  if hai.primaryCoa.iif > 0 && (oldIface me hai).isNone then 0 else hai.primaryCoa.iif

/-- The second half of `mn_make_ho_verdict`: the choice, and the record with `at_home`
cleared for a tunnel. -/
def chooseIface (pmgr : Pmgr) (me : MovementEvent) (hai : HomeAddrInfo) (force : Bool) :
    Decision × HomeAddrInfo :=
  match mnGetIface pmgr hai.hoa hai.haAddr (prefIif me hai) me.ifaces with
  | none => (.invalidate, hai)
  | some new =>
    if new.iface.preference > 1 then (.ignore, hai)
    else match mnGetCoa pmgr hai.hoa hai.haAddr new.iface.ifindex hai.primaryCoa.addr
        new.iface.coas with
      | none => (.invalidate, hai)
      | some coa =>
        if !force && (oldIface me hai).any (fun p => new.pos = p.pos) &&
            coa.addr = hai.primaryCoa.addr then (.ignore, hai)
        else if !new.iface.isTunnel && new.iface.defaultRtr.isEmpty then (.ignore, hai)
        else (.proceed coa (mdGetFirstRouter new.iface.defaultRtr),
          { hai with atHome := if new.iface.isTunnel then false else hai.atHome })

/-- `mn_make_ho_verdict` -/
def mnMakeHoVerdict (pmgr : Pmgr) (me : MovementEvent) (hai : HomeAddrInfo) :
    Option (Decision × HomeAddrInfo) :=
  match homeRouter me hai with
  | some rtr => some (.returnHome rtr, hai)
  | none => (switchEvent me hai).map fun
    | .verdict d => (d, hai)
    | .choose force => chooseIface pmgr me hai force

/-! ## Carrying it out -/

inductive Call where
  | coaUpdated
  | move
  | doDad
  deriving DecidableEq, Repr

/-- The record after `mn_chk_ho_verdict`, the verdict it set, and what it called. -/
structure Checked where
  hai : HomeAddrInfo
  set : Option Verdict
  calls : List Call
  deriving DecidableEq, Repr

/-- `mn_home_rtr_chk`: whether the node has just come home. -/
def mnHomeRtrChk (hai : HomeAddrInfo) : HomeAddrInfo × Bool :=
  if hai.verdict ≠ .returnHome then ({ hai with atHome := false }, false)
  else ({ hai with atHome := true }, !hai.atHome)

/-- Called if there is a router. -/
def checkRouter (hai : HomeAddrInfo) (rtr : Option Router) : HomeAddrInfo × Bool :=
  if rtr.isSome then mnHomeRtrChk hai else (hai, false)

/-- The end of `mn_chk_ho_verdict`; `rtr_addr_chk` uses the router. -/
def chkHome (hai : HomeAddrInfo) (rtr : Option Router) (moveHome : Bool) : Option (List Call) :=
  if hai.atHome && !hai.pendBa then
    if hai.registered then
      rtr.map fun rtr => if rtrAddrChk rtr hai.haAddr then [.move] else [.doDad]
    else some (if moveHome then [.doDad] else [])
  else some []

/-- The rest of `mn_chk_ho_verdict`, by the verdict it has set. -/
def carryOut (d : Decision) (hai : HomeAddrInfo) : Option Checked :=
  match d with
  | .ignore => some ⟨hai, some .ignore, []⟩
  | .invalidate =>
    some ⟨{ hai with primaryCoa := { hai.primaryCoa with iif := 0 } }, some .invalidate, []⟩
  | .checkLifetime coa =>
    some ⟨{ hai with primaryCoa := { hai.primaryCoa with life := coa.life } },
      some .checkLifetime, [.coaUpdated]⟩
  | .reestablish coa rtr =>
    let (hai, _) := checkRouter hai rtr
    some ⟨{ hai with primaryCoa := { hai.primaryCoa with iif := coa.ifindex, life := coa.life } },
      some .reestablish, [.coaUpdated]⟩
  | .proceed coa rtr =>
    let (hai, moveHome) := checkRouter hai rtr
    let hai := { hai with primaryCoa := ⟨coa.addr, coa.ifindex, coa.life⟩ }
    (chkHome hai rtr moveHome).map fun calls => ⟨hai, some .proceed, calls⟩
  | .returnHome rtr =>
    let (hai, moveHome) := checkRouter hai (some rtr)
    let hai := { hai with
      primaryCoa := { hai.primaryCoa with iif := rtr.ifindex, addr := hai.hoa } }
    (chkHome hai (some rtr) moveHome).map fun calls => ⟨hai, some .returnHome, calls⟩

/-- The expiry of the home address itself, which `mn_chk_ho_verdict` leaves alone. -/
def expiresHoa (me : MovementEvent) (hai : HomeAddrInfo) : Bool :=
  me.eventType = .coaExpired && me.coa.any fun coa => coa.addr = hai.hoa

/-- `mn_chk_ho_verdict` -/
def mnChkHoVerdict (pmgr : Pmgr) (me : MovementEvent) (hai : HomeAddrInfo) : Option Checked :=
  if expiresHoa me hai then some ⟨hai, none, []⟩
  else (mnMakeHoVerdict pmgr me hai).bind fun (d, hai) =>
    carryOut d { hai with verdict := d.verdict }

/-! ## Handovers go to a preferred interface -/

/-- The care-of addresses and the routers of an interface carry its index. -/
structure Indexed (iface : Iface) : Prop where
  coas : ∀ coa ∈ iface.coas, coa.ifindex = iface.ifindex
  routers : ∀ rtr ∈ iface.defaultRtr, rtr.ifindex = iface.ifindex

instance decIndexed (iface : Iface) : Decidable (Indexed iface) :=
  decidable_of_iff ((∀ coa ∈ iface.coas, coa.ifindex = iface.ifindex) ∧
    ∀ rtr ∈ iface.defaultRtr, rtr.ifindex = iface.ifindex)
    ⟨fun h => ⟨h.1, h.2⟩, fun h => ⟨h.1, h.2⟩⟩

/-- `index` belongs to an interface of the event with preference at most 1. -/
def Preferred (me : MovementEvent) (index : Int) : Prop :=
  ∃ iface, (iface ∈ me.ifaces ∨ iface = me.iface.iface) ∧ iface.ifindex = index ∧
    iface.preference ≤ 1

/-- The interface a decision leaves in `primary_coa`. -/
def Decision.index? (hai : HomeAddrInfo) : Decision → Option Int
  | .ignore => none
  | .invalidate => none
  | .proceed coa _ => some coa.ifindex
  | .reestablish coa _ => some coa.ifindex
  | .checkLifetime _ => some hai.primaryCoa.iif
  | .returnHome rtr => some rtr.ifindex

section

variable {pmgr : Pmgr} {me : MovementEvent} {hai hai' : HomeAddrInfo} {d : Decision}

theorem carryOut_iif {c : Checked} (h : carryOut d hai = some c) :
    c.set = some d.verdict ∧ ∀ i ∈ d.index? hai, c.hai.primaryCoa.iif = i := by
  cases d with
  | ignore => cases h; exact ⟨rfl, fun i hi => nomatch hi⟩
  | invalidate => cases h; exact ⟨rfl, fun i hi => nomatch hi⟩
  | checkLifetime coa => cases h; exact ⟨rfl, fun i hi => Option.mem_some.mp hi⟩
  | reestablish coa rtr => cases h; exact ⟨rfl, fun i hi => Option.mem_some.mp hi⟩
  | proceed coa rtr =>
    obtain ⟨calls, -, rfl⟩ := Option.map_eq_some_iff.mp h
    exact ⟨rfl, fun i hi => Option.mem_some.mp hi⟩
  | returnHome rtr =>
    obtain ⟨calls, -, rfl⟩ := Option.map_eq_some_iff.mp h
    exact ⟨rfl, fun i hi => Option.mem_some.mp hi⟩

theorem homeRouter_some {rtr : Router} (h : homeRouter me hai = some rtr) :
    rtr ∈ me.iface.iface.defaultRtr := by
  unfold homeRouter at h
  split at h
  case isTrue => cases h
  case isFalse => exact mdGetFirstRouter_some (Option.filter_eq_some_iff.mp h).1

theorem oldIface_some {p : Ptr} (h : oldIface me hai = some p) :
    p ∈ ptrs me.ifaces ∧ p.iface.ifindex = hai.primaryCoa.iif := by
  unfold oldIface at h
  split at h
  case isTrue => exact mdGetInet6Iface_some h
  case isFalse => cases h

/-- The event's interface is the one in use if the pointers are equal. -/
theorem oldIface_same {p : Ptr} (h : oldIface me hai = some p) (hpos : p.pos = me.iface.pos) :
    me.iface.iface = p.iface ∧ me.iface.iface.ifindex = hai.primaryCoa.iif := by
  obtain ⟨hmem, hindex⟩ := oldIface_some h
  obtain ⟨i, hi, hget⟩ := mem_ptrs.mp hmem
  have hsame : me.iface.iface = p.iface :=
    Option.some.inj ((me.listed i (hpos ▸ hi)).symm.trans hget)
  exact ⟨hsame, by rw [hsame, hindex]⟩

/-- A verdict that uses an interface uses the event's. -/
def Branch.Own (me : MovementEvent) (hai : HomeAddrInfo) : Branch → Prop
  | .choose _ => True
  | .verdict .ignore => True
  | .verdict (.reestablish coa _) => coa ∈ me.iface.iface.coas
  | .verdict (.checkLifetime _) => me.iface.iface.ifindex = hai.primaryCoa.iif
  | .verdict _ => False

theorem own_choose (force : Bool) : (Branch.choose force).Own me hai := trivial

theorem onDown_own : (onDown me hai).Own me hai := by
  unfold onDown
  split <;> trivial

theorem onRouter_own : (onRouter me hai).Own me hai := by
  unfold onRouter
  split
  next => trivial
  next p hold =>
    split
    case isTrue hpos =>
      split
      next => trivial
      next coa hcoa =>
        show coa ∈ me.iface.iface.coas
        rw [(oldIface_same hold hpos).1]
        exact (mdGetCoa_some hcoa).1
    case isFalse => trivial

theorem onExpired_own (coa : Coa) : (onExpired me hai coa).Own me hai := by
  unfold onExpired
  split <;> trivial

theorem onLifetime_own (coa : Coa) : (onLifetime me hai coa).Own me hai := by
  unfold onLifetime
  split
  case isTrue hany =>
    obtain ⟨p, hold, hpos⟩ := (Option.any_eq_true _ _).mp hany
    split
    case isTrue => exact (oldIface_same hold (of_decide_eq_true hpos)).2
    case isFalse => trivial
  case isFalse => trivial

theorem withRouter_own {b : Branch} (hb : b.Own me hai) :
    ∀ b' ∈ withRouter me b, b'.Own me hai := by
  intro b' h
  unfold withRouter at h
  split at h
  case isTrue => cases h
  case isFalse =>
    rw [← Option.mem_some.mp h]
    exact hb

theorem map_eventCoa_own {f : Coa → Branch} (hf : ∀ coa, (f coa).Own me hai) :
    ∀ b ∈ (eventCoa me).map f, b.Own me hai := by
  intro b h
  obtain ⟨coa, -, rfl⟩ := Option.map_eq_some_iff.mp h
  exact hf coa

/-- The verdicts of the `switch` are about the event's own interface. -/
theorem switchEvent_own {b : Branch} (h : switchEvent me hai = some b) : b.Own me hai := by
  unfold switchEvent at h
  cases ht : me.eventType with
  | dhaad => rw [ht] at h; cases h; trivial
  | ifaceDown => rw [ht] at h; cases h; exact onDown_own
  | linkDown => rw [ht] at h; cases h; exact onDown_own
  | rtrExpired => rw [ht] at h; cases h; exact onDown_own
  | rtrNew => rw [ht] at h; exact withRouter_own (own_choose false) b h
  | linkUp => rw [ht] at h; cases h; trivial
  | rtrBack => rw [ht] at h; exact withRouter_own onRouter_own b h
  | rtrUpdated => rw [ht] at h; exact withRouter_own onRouter_own b h
  | coaNew => rw [ht] at h; exact map_eventCoa_own (fun _ => own_choose false) b h
  | coaExpired => rw [ht] at h; exact map_eventCoa_own onExpired_own b h
  | coaLftDec => rw [ht] at h; exact map_eventCoa_own onLifetime_own b h
  | coaLftInc => rw [ht] at h; exact map_eventCoa_own onLifetime_own b h
  | ifaceUp => rw [ht] at h; cases h; trivial

/-- What the choice can come to. -/
inductive Chosen (pmgr : Pmgr) (me : MovementEvent) (hai : HomeAddrInfo) (force : Bool) :
    Decision × HomeAddrInfo → Prop
  | nowhere (h : mnGetIface pmgr hai.hoa hai.haAddr (prefIif me hai) me.ifaces = none) :
    Chosen pmgr me hai force (.invalidate, hai)
  | notPreferred (new : Ptr)
    (h : mnGetIface pmgr hai.hoa hai.haAddr (prefIif me hai) me.ifaces = some new)
    (hpref : 1 < new.iface.preference) : Chosen pmgr me hai force (.ignore, hai)
  | noAddress (new : Ptr)
    (h : mnGetIface pmgr hai.hoa hai.haAddr (prefIif me hai) me.ifaces = some new)
    (hpref : new.iface.preference ≤ 1) : Chosen pmgr me hai force (.invalidate, hai)
  | stay (new old : Ptr) (coa : Coa)
    (h : mnGetIface pmgr hai.hoa hai.haAddr (prefIif me hai) me.ifaces = some new)
    (hpref : new.iface.preference ≤ 1) (hcoa : coa ∈ new.iface.coas) (hforce : force = false)
    (hold : oldIface me hai = some old) (hpos : new.pos = old.pos)
    (haddr : coa.addr = hai.primaryCoa.addr) : Chosen pmgr me hai force (.ignore, hai)
  | go (new : Ptr) (coa : Coa)
    (h : mnGetIface pmgr hai.hoa hai.haAddr (prefIif me hai) me.ifaces = some new)
    (hpref : new.iface.preference ≤ 1) (hcoa : coa ∈ new.iface.coas)
    (hrouter : new.iface.isTunnel = true ∨ new.iface.defaultRtr.isEmpty = false) :
    Chosen pmgr me hai force (.proceed coa (mdGetFirstRouter new.iface.defaultRtr),
      { hai with atHome := if new.iface.isTunnel then false else hai.atHome })

theorem chooseIface_chosen (pmgr : Pmgr) (me : MovementEvent) (hai : HomeAddrInfo) (force : Bool) :
    Chosen pmgr me hai force (chooseIface pmgr me hai force) := by
  unfold chooseIface
  split
  next hnew => exact .nowhere hnew
  next new hnew =>
    split
    case isTrue hpref => exact .notPreferred new hnew hpref
    case isFalse hpref =>
      have hle : new.iface.preference ≤ 1 := Nat.le_of_not_gt hpref
      split
      next => exact .noAddress new hnew hle
      next coa hcoa =>
        have hmem : coa ∈ new.iface.coas := mnGetCoa_mem hcoa
        split
        case isTrue hsame =>
          simp only [Bool.and_eq_true, Bool.not_eq_true', decide_eq_true_eq,
            Option.any_eq_true] at hsame
          obtain ⟨⟨hforce, old, hold, hpos⟩, haddr⟩ := hsame
          exact .stay new old coa hnew hle hmem hforce hold hpos haddr
        case isFalse =>
          -- an interface that was verified is a tunnel or has a router
          have hverify := (mnGetIface_some hnew).2
          simp only [mnVerifyIface, Bool.and_eq_true, Bool.or_eq_true, Bool.not_eq_true'] at hverify
          split
          case isTrue hrouter =>
            simp only [Bool.and_eq_true, Bool.not_eq_true'] at hrouter
            rcases hverify.2 with htunnel | hnonempty
            · rw [hrouter.1] at htunnel
              cases htunnel
            · rw [hrouter.2] at hnonempty
              cases hnonempty
          case isFalse => exact .go new coa hnew hle hmem hverify.2

/-- What `mn_make_ho_verdict` can come to: home, a verdict of the `switch`, or a choice. -/
theorem mnMakeHoVerdict_cases (h : mnMakeHoVerdict pmgr me hai = some (d, hai')) :
    (∃ rtr, homeRouter me hai = some rtr ∧ d = .returnHome rtr ∧ hai' = hai) ∨
    (Branch.Own me hai (.verdict d) ∧ hai' = hai) ∨
    ∃ force, Chosen pmgr me hai force (d, hai') := by
  unfold mnMakeHoVerdict at h
  split at h
  next rtr hhome => cases h; exact .inl ⟨rtr, hhome, rfl, rfl⟩
  next =>
    obtain ⟨b, hb, hmap⟩ := Option.map_eq_some_iff.mp h
    cases b with
    | verdict d' => cases hmap; exact .inr (.inl ⟨switchEvent_own hb, rfl⟩)
    | choose force =>
      refine .inr (.inr ⟨force, ?_⟩)
      rw [← hmap]
      exact chooseIface_chosen pmgr me hai force

theorem Preferred.own (hraised : me.iface.iface.preference ≤ 1) {i : Int}
    (hi : me.iface.iface.ifindex = i) : Preferred me i :=
  ⟨me.iface.iface, .inr rfl, hi, hraised⟩

theorem mnMakeHoVerdict_preferred (hlisted : ∀ iface ∈ me.ifaces, Indexed iface)
    (hown : Indexed me.iface.iface) (hraised : me.iface.iface.preference ≤ 1)
    (h : mnMakeHoVerdict pmgr me hai = some (d, hai')) :
    ∀ i ∈ d.index? hai', Preferred me i := by
  intro i hi
  rcases mnMakeHoVerdict_cases h with ⟨rtr, hhome, rfl, rfl⟩ | ⟨hverdict, rfl⟩ | ⟨force, hchosen⟩
  · -- the router that brought the node home is one of the event's interface
    have hindex := hown.routers rtr (homeRouter_some hhome)
    exact .own hraised (hindex.symm.trans (Option.mem_some.mp hi))
  · cases d with
    | ignore => cases hi
    | invalidate => cases hverdict
    | proceed coa rtr => cases hverdict
    | returnHome rtr => cases hverdict
    | reestablish coa rtr =>
      have hindex := hown.coas coa hverdict
      exact .own hraised (hindex.symm.trans (Option.mem_some.mp hi))
    | checkLifetime coa => exact .own hraised (Eq.trans hverdict (Option.mem_some.mp hi))
  · cases hchosen with
    | nowhere => cases hi
    | notPreferred => cases hi
    | noAddress => cases hi
    | stay => cases hi
    | go new coa hnew hpref hcoa =>
      have hmem : new.iface ∈ me.ifaces := iface_mem_of_ptr (mnGetIface_some hnew).1
      have hindex := (hlisted new.iface hmem).coas coa hcoa
      exact ⟨new.iface, .inl hmem, hindex.symm.trans (Option.mem_some.mp hi), hpref⟩

end

/-- **Handovers go to a preferred interface.** Whatever the policy manager answers: when an
event that was raised makes `mn_chk_ho_verdict` set a verdict that uses an interface, the
interface in use afterwards has a preference of at most 1. -/
theorem handover_to_preferred (pmgr : Pmgr) (me me' : MovementEvent) (hai : HomeAddrInfo)
    (hraised : mdTriggerMovementEvent me = some me')
    (hlisted : ∀ iface ∈ me'.ifaces, Indexed iface) (hown : Indexed me'.iface.iface)
    (c : Checked) (hc : mnChkHoVerdict pmgr me' hai = some c) (v : Verdict) (hv : c.set = some v)
    (hpositive : positiveHoVerdict v = true) : Preferred me' c.hai.primaryCoa.iif := by
  unfold mdTriggerMovementEvent at hraised
  split at hraised
  case isTrue => cases hraised
  case isFalse hpref =>
    cases hraised
    unfold mnChkHoVerdict at hc
    split at hc
    case isTrue => cases hc; cases hv
    case isFalse =>
      obtain ⟨⟨d, hai'⟩, hmake, hcarry⟩ := Option.bind_eq_some_iff.mp hc
      obtain ⟨hset, hiif⟩ := carryOut_iif hcarry
      have hd : d.verdict = v := Option.some.inj (hset.symm.trans hv)
      have hall := mnMakeHoVerdict_preferred hlisted hown (Nat.le_of_not_gt hpref) hmake
      -- a positive verdict uses an interface
      cases d with
      | ignore => rw [← hd] at hpositive; cases hpositive
      | invalidate => rw [← hd] at hpositive; cases hpositive
      | proceed coa rtr => rw [hiif _ rfl]; exact hall _ rfl
      | reestablish coa rtr => rw [hiif _ rfl]; exact hall _ rfl
      | checkLifetime coa => rw [hiif _ rfl]; exact hall _ rfl
      | returnHome rtr => rw [hiif _ rfl]; exact hall _ rfl

/-! A laptop on the road: an Ethernet interface, a wireless one, and a home address that
uses the wireless one. -/

/-- A policy manager without an opinion. -/
def silentPmgr : Pmgr := ⟨fun _ _ _ => 0, fun _ _ _ _ => (0, 0)⟩

def eth0 : Iface := ⟨2, "eth0", 1, false, [⟨2, 0, []⟩], [⟨2, 0x20, ⟨0, 60, 60⟩⟩], []⟩

def wlan0 : Iface := ⟨3, "wlan0", 2, false, [⟨3, 0, []⟩], [⟨3, 0x30, ⟨0, 60, 60⟩⟩], []⟩

def onWireless : HomeAddrInfo :=
  ⟨0x10, 0x11, 0x10, 64, 0, true, false, false, ⟨0x30, 3, ⟨0, 60, 60⟩⟩, .none⟩

/-- The Ethernet interface gets its address. -/
def newOnEthernet : MovementEvent where
  eventType := .coaNew
  data := 0
  ifaces := [eth0, wlan0]
  iface := ⟨some 0, eth0⟩
  coa := some ⟨2, 0x20, ⟨0, 60, 60⟩⟩
  listed := fun _ h => Option.some.inj h ▸ rfl

theorem handover_to_preferred_ethernet :
    ∃ c, mnChkHoVerdict silentPmgr newOnEthernet onWireless = some c ∧ c.set = some .proceed ∧
      c.hai.primaryCoa.iif = 2 ∧ Preferred newOnEthernet c.hai.primaryCoa.iif :=
  ⟨_, rfl, rfl, rfl, handover_to_preferred silentPmgr newOnEthernet newOnEthernet onWireless rfl
    (by decide) (by decide) _ rfl .proceed rfl rfl⟩

end Manhattan.Umip
