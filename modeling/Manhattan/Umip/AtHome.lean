import Manhattan.Umip.Handover

/-!
# At home or not (`mn_chk_ho_verdict` of `mn.c`)

`at_home` is written in two places. `mn_home_rtr_chk` sets it from the verdict, and it is
called if the verdict came with a router. A tunnel may have none, and so the project
clears `at_home` for a tunnel where the verdict is made. The end of `mn_chk_ho_verdict`
gives the router to `rtr_addr_chk` without looking at it, if `at_home` is set.

`atHome_sound` says that the two places are enough: after a verdict to use an interface,
the node is at home exactly if the verdict was to return home, and `rtr_addr_chk` never
gets a null pointer. What makes it work is `Decision.Ready`: a verdict comes with a
router, or `at_home` has been cleared with it.

Mirroring notes:
- `rtrAddrChkArgs` lists the pointers `rtr_addr_chk` is called with; `carryOut_eq_none`
  says that a null pointer among them is the only way in which `carryOut` fails, and
  `mnChkHoVerdict_eq_none` that it never does.
- The assertions of the `switch` are part of the model: an event that fails one has no
  verdict.
-/

namespace Manhattan.Umip

/-! ## The pointers given to `rtr_addr_chk` -/

/-- The call at the end of `mn_chk_ho_verdict`. -/
def addrChkArgs (hai : HomeAddrInfo) (rtr : Option Router) : List (Option Router) :=
  if hai.atHome && !hai.pendBa && hai.registered then [rtr] else []

def Decision.addrChkArgs (hai : HomeAddrInfo) : Decision → List (Option Router)
  | .proceed _ rtr => Umip.addrChkArgs (checkRouter hai rtr).1 rtr
  | .returnHome rtr => Umip.addrChkArgs (checkRouter hai (some rtr)).1 (some rtr)
  | _ => []

/-- The calls of `rtr_addr_chk` in `mn_chk_ho_verdict`. -/
def rtrAddrChkArgs (pmgr : Pmgr) (me : MovementEvent) (hai : HomeAddrInfo) :
    List (Option Router) :=
  if expiresHoa me hai then []
  else match mnMakeHoVerdict pmgr me hai with
    | none => []
    | some (d, hai) => d.addrChkArgs { hai with verdict := d.verdict }

theorem chkHome_eq_none {hai : HomeAddrInfo} {rtr : Option Router} {moveHome : Bool} :
    chkHome hai rtr moveHome = none ↔ none ∈ addrChkArgs hai rtr := by
  unfold chkHome addrChkArgs
  cases hai.atHome && !hai.pendBa with
  | false => exact iff_of_false nofun nofun
  | true =>
    cases hai.registered with
    | false => exact iff_of_false nofun nofun
    | true =>
      show rtr.map _ = none ↔ none ∈ [rtr]
      rw [Option.map_eq_none_iff, List.mem_singleton]
      exact eq_comm

/-- Carrying a verdict out fails at a null pointer in `rtr_addr_chk` only. -/
theorem carryOut_eq_none {d : Decision} {hai : HomeAddrInfo} :
    carryOut d hai = none ↔ none ∈ d.addrChkArgs hai := by
  cases d with
  | ignore => exact iff_of_false nofun nofun
  | invalidate => exact iff_of_false nofun nofun
  | checkLifetime coa => exact iff_of_false nofun nofun
  | reestablish coa rtr => exact iff_of_false nofun nofun
  | proceed coa rtr => exact Option.map_eq_none_iff.trans chkHome_eq_none
  | returnHome rtr => exact Option.map_eq_none_iff.trans chkHome_eq_none

/-! ## A verdict and its router -/

section

variable {pmgr : Pmgr} {me : MovementEvent} {hai hai' : HomeAddrInfo} {d : Decision}

/-- A verdict of the `switch` to re-establish comes with a router. -/
def Branch.Routed : Branch → Prop
  | .verdict (.reestablish _ rtr) => rtr.isSome = true
  | _ => True

theorem routed_choose (force : Bool) : (Branch.choose force).Routed := trivial

theorem onDown_routed : (onDown me hai).Routed := by
  unfold onDown
  split <;> trivial

theorem onExpired_routed (coa : Coa) : (onExpired me hai coa).Routed := by
  unfold onExpired
  split <;> trivial

theorem onLifetime_routed (coa : Coa) : (onLifetime me hai coa).Routed := by
  unfold onLifetime
  split
  · split <;> trivial
  · trivial

theorem mdGetFirstRouter_isSome {rtrs : List Router} (h : rtrs.isEmpty = false) :
    (mdGetFirstRouter rtrs).isSome = true := by
  cases rtrs with
  | nil => cases h
  | cons rtr rtrs => rfl

/-- The interface in use is the event's, for which a router was asserted. -/
theorem onRouter_routed (hrouter : me.iface.iface.defaultRtr.isEmpty = false) :
    (onRouter me hai).Routed := by
  unfold onRouter
  split
  next => trivial
  next p hold =>
    split
    case isTrue hpos =>
      split
      next => trivial
      next coa hcoa =>
        show (mdGetFirstRouter p.iface.defaultRtr).isSome = true
        rw [← (oldIface_same hold hpos).1]
        exact mdGetFirstRouter_isSome hrouter
    case isFalse => trivial

theorem withRouter_routed {b : Branch}
    (hb : me.iface.iface.defaultRtr.isEmpty = false → b.Routed) :
    ∀ b' ∈ withRouter me b, b'.Routed := by
  intro b' h
  unfold withRouter at h
  split at h
  case isTrue => cases h
  case isFalse hrouter =>
    rw [← Option.mem_some.mp h]
    exact hb (Bool.eq_false_iff.mpr hrouter)

theorem map_eventCoa_routed {f : Coa → Branch} (hf : ∀ coa, (f coa).Routed) :
    ∀ b ∈ (eventCoa me).map f, b.Routed := by
  intro b h
  obtain ⟨coa, -, rfl⟩ := Option.map_eq_some_iff.mp h
  exact hf coa

theorem switchEvent_routed {b : Branch} (h : switchEvent me hai = some b) : b.Routed := by
  unfold switchEvent at h
  cases ht : me.eventType with
  | dhaad => rw [ht] at h; cases h; trivial
  | ifaceDown => rw [ht] at h; cases h; exact onDown_routed
  | linkDown => rw [ht] at h; cases h; exact onDown_routed
  | rtrExpired => rw [ht] at h; cases h; exact onDown_routed
  | rtrNew => rw [ht] at h; exact withRouter_routed (fun _ => routed_choose false) b h
  | linkUp => rw [ht] at h; cases h; trivial
  | rtrBack => rw [ht] at h; exact withRouter_routed onRouter_routed b h
  | rtrUpdated => rw [ht] at h; exact withRouter_routed onRouter_routed b h
  | coaNew => rw [ht] at h; exact map_eventCoa_routed (fun _ => routed_choose false) b h
  | coaExpired => rw [ht] at h; exact map_eventCoa_routed onExpired_routed b h
  | coaLftDec => rw [ht] at h; exact map_eventCoa_routed onLifetime_routed b h
  | coaLftInc => rw [ht] at h; exact map_eventCoa_routed onLifetime_routed b h
  | ifaceUp => rw [ht] at h; cases h; trivial

/-- What `mn_make_ho_verdict` has seen to: the router of a verdict that needs one, or
`at_home` in its place, and the record is otherwise as it was. -/
def Decision.Ready (hai hai' : HomeAddrInfo) : Decision → Prop
  | .proceed _ rtr => rtr.isSome = true ∨ hai'.atHome = false
  | .reestablish _ rtr => rtr.isSome = true
  | .returnHome _ => True
  | _ => hai' = hai

theorem chosen_ready {force : Bool} (h : Chosen pmgr me hai force (d, hai')) :
    d.Ready hai hai' := by
  cases h with
  | nowhere => rfl
  | notPreferred => rfl
  | noAddress => rfl
  | stay => rfl
  | go new coa hnew hpref hcoa hrouter =>
    obtain htunnel | hrouter := hrouter
    · exact .inr (if_pos htunnel)
    · exact .inl (mdGetFirstRouter_isSome hrouter)

theorem mnMakeHoVerdict_ready (h : mnMakeHoVerdict pmgr me hai = some (d, hai')) :
    d.Ready hai hai' := by
  unfold mnMakeHoVerdict at h
  split at h
  next rtr hhome =>
    cases h
    trivial
  next =>
    obtain ⟨b, hb, hmap⟩ := Option.map_eq_some_iff.mp h
    cases b with
    | choose force =>
      have hchosen : Chosen pmgr me hai force (d, hai') := by
        rw [← hmap]
        exact chooseIface_chosen pmgr me hai force
      exact chosen_ready hchosen
    | verdict d' =>
      cases hmap
      have hrouted := switchEvent_routed hb
      have hown := switchEvent_own hb
      cases d with
      | ignore => rfl
      | invalidate => rfl
      | checkLifetime coa => rfl
      | reestablish coa rtr => exact hrouted
      | proceed coa rtr => cases hown
      | returnHome rtr => trivial

/-! ## Carrying it out -/

/-- `mn_home_rtr_chk` clears `at_home` for every verdict but the return. -/
theorem checkRouter_atHome {rtr : Option Router} (hv : hai.verdict ≠ .returnHome)
    (h : rtr.isSome = true ∨ hai.atHome = false) : (checkRouter hai rtr).1.atHome = false := by
  unfold checkRouter
  cases rtr with
  | none => exact h.resolve_left nofun
  | some rtr =>
    show (mnHomeRtrChk hai).1.atHome = false
    unfold mnHomeRtrChk
    rw [if_pos hv]

theorem checkRouter_home (hv : hai.verdict = .returnHome) (rtr : Router) :
    (checkRouter hai (some rtr)).1.atHome = true := by
  show (mnHomeRtrChk hai).1.atHome = true
  unfold mnHomeRtrChk
  rw [if_neg fun h => h hv]

/-- No call of `rtr_addr_chk` without a router. -/
theorem addrChkArgs_isSome (hready : d.Ready hai hai') :
    ∀ r ∈ d.addrChkArgs { hai' with verdict := d.verdict }, r.isSome = true := by
  intro r hr
  cases d with
  | ignore => cases hr
  | invalidate => cases hr
  | checkLifetime coa => cases hr
  | reestablish coa rtr => cases hr
  | proceed coa rtr =>
    -- away from home it is not called at all
    have haway : (checkRouter { hai' with verdict := .proceed } rtr).1.atHome = false :=
      checkRouter_atHome nofun hready
    have hnone :
        Decision.addrChkArgs { hai' with verdict := .proceed } (.proceed coa rtr) = [] := by
      rw [Decision.addrChkArgs, addrChkArgs, haway]
      rfl
    rw [Decision.verdict, hnone] at hr
    cases hr
  | returnHome rtr =>
    simp only [Decision.addrChkArgs, addrChkArgs] at hr
    split at hr
    · rw [List.mem_singleton] at hr
      rw [hr]
      rfl
    · cases hr

theorem carryOut_atHome {c : Checked} (hready : d.Ready hai hai')
    (h : carryOut d { hai' with verdict := d.verdict } = some c) :
    c.set = some d.verdict ∧
    (d.verdict = .proceed ∨ d.verdict = .reestablish ∨ d.verdict = .returnHome →
      (c.hai.atHome = true ↔ d.verdict = .returnHome)) ∧
    (d.verdict = .ignore ∨ d.verdict = .invalidate → c.hai.atHome = hai.atHome) := by
  have hsame : hai' = hai → hai'.atHome = hai.atHome := fun e => by rw [e]
  refine ⟨(carryOut_iif h).1, ?_⟩
  cases d with
  | ignore =>
    cases h
    exact ⟨nofun, fun _ => hsame hready⟩
  | invalidate =>
    cases h
    exact ⟨nofun, fun _ => hsame hready⟩
  | checkLifetime coa => exact ⟨nofun, nofun⟩
  | reestablish coa rtr =>
    have haway : (checkRouter { hai' with verdict := .reestablish } rtr).1.atHome = false :=
      checkRouter_atHome nofun (.inl hready)
    cases h
    exact ⟨fun _ => iff_of_false (Bool.eq_false_iff.mp haway) nofun, nofun⟩
  | proceed coa rtr =>
    have haway : (checkRouter { hai' with verdict := .proceed } rtr).1.atHome = false :=
      checkRouter_atHome nofun hready
    obtain ⟨calls, -, rfl⟩ := Option.map_eq_some_iff.mp h
    exact ⟨fun _ => iff_of_false (Bool.eq_false_iff.mp haway) nofun, nofun⟩
  | returnHome rtr =>
    have hhome : (checkRouter { hai' with verdict := .returnHome } (some rtr)).1.atHome = true :=
      checkRouter_home rfl rtr
    obtain ⟨calls, -, rfl⟩ := Option.map_eq_some_iff.mp h
    exact ⟨fun _ => iff_of_true hhome rfl, nofun⟩

/-- So every verdict is carried out: only a failed assertion stops the function. -/
theorem mnChkHoVerdict_eq_none :
    mnChkHoVerdict pmgr me hai = none ↔
      expiresHoa me hai = false ∧ mnMakeHoVerdict pmgr me hai = none := by
  unfold mnChkHoVerdict
  cases expiresHoa me hai with
  | true => exact iff_of_false nofun nofun
  | false =>
    rw [if_neg nofun, and_iff_right rfl]
    cases hmake : mnMakeHoVerdict pmgr me hai with
    | none => exact iff_of_true rfl rfl
    | some p =>
      refine iff_of_false (fun hnone => ?_) nofun
      have hnull := carryOut_eq_none.mp hnone
      have hsome := addrChkArgs_isSome (mnMakeHoVerdict_ready hmake) none hnull
      cases hsome

end

/-- **The fix for tunnels is sound.** Whatever the event, the interfaces, the record and the
policy manager's answers: after a verdict to proceed, to re-establish or to return home the
node is at home exactly if it was to return home; `rtr_addr_chk` is called with a router
only; and a verdict to ignore or to invalidate leaves `at_home` as it was. -/
theorem atHome_sound (pmgr : Pmgr) (me : MovementEvent) (hai : HomeAddrInfo) :
    (∀ c v, mnChkHoVerdict pmgr me hai = some c → c.set = some v →
      (v = .proceed ∨ v = .reestablish ∨ v = .returnHome →
        (c.hai.atHome = true ↔ v = .returnHome)) ∧
      (v = .ignore ∨ v = .invalidate → c.hai.atHome = hai.atHome)) ∧
    (∀ r ∈ rtrAddrChkArgs pmgr me hai, r.isSome = true) := by
  constructor
  · intro c v hc hv
    unfold mnChkHoVerdict at hc
    split at hc
    case isTrue =>
      cases hc
      cases hv
    case isFalse =>
      obtain ⟨⟨d, hai'⟩, hmake, hcarry⟩ := Option.bind_eq_some_iff.mp hc
      obtain ⟨hset, hparts⟩ := carryOut_atHome (mnMakeHoVerdict_ready hmake) hcarry
      have hd : d.verdict = v := Option.some.inj (hset.symm.trans hv)
      rw [← hd]
      exact hparts
  · intro r hr
    unfold rtrAddrChkArgs at hr
    split at hr
    case isTrue => cases hr
    case isFalse =>
      split at hr
      next => cases hr
      next d hai' hmake =>
        exact addrChkArgs_isSome (mnMakeHoVerdict_ready hmake) r hr

/-- A tunnel, which has no router. -/
def sit0 : Iface := ⟨4, "sit0", 1, true, [], [⟨4, 0x40, ⟨0, 60, 60⟩⟩], []⟩

/-- The tunnel gets its address. -/
def newOnTunnel : MovementEvent where
  eventType := .coaNew
  data := 0
  ifaces := [wlan0, sit0]
  iface := ⟨some 1, sit0⟩
  coa := some ⟨4, 0x40, ⟨0, 60, 60⟩⟩
  listed := fun _ h => Option.some.inj h ▸ rfl

/-- A node that was at home leaves for the tunnel; there is no router to ask. -/
theorem atHome_sound_tunnel :
    ∃ c, mnChkHoVerdict silentPmgr newOnTunnel { onWireless with atHome := true } = some c ∧
      c.set = some .proceed ∧ (c.hai.atHome = true ↔ Verdict.proceed = .returnHome) :=
  ⟨_, rfl, rfl, ((atHome_sound silentPmgr newOnTunnel { onWireless with atHome := true }).1 _
    .proceed rfl rfl).1 (.inl rfl)⟩

end Manhattan.Umip
