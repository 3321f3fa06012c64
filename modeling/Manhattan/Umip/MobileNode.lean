import Manhattan.Umip.BindingUpdate

/-!
# The mobile node

For each home address and home agent the mobile node (`mn.c`, `bul.c`) has an entry in its
binding update list: the sequence number and the care-of address of the last binding update,
whether an acknowledgement is still missing, and a timer with what is to be done when it runs
out. An update is sent when the mobile node moves, again and again with a growing delay until
it is acknowledged, and before the binding expires. Each one has the next sequence number,
except that an acknowledgement which says that the number is out of range makes the mobile node
go on from the number of the home agent.

Every function below returns the mobile node afterwards and the updates that it has sent.
`Effect` is what any of them can do as long as there is memory for an update, as far as the home
agent is concerned:

> `sendHomeBu_effect`, `timer_effect`, `recvBa_effect`: nothing; or an update with the next
> number; or the number of a home agent is taken over; or the update is acknowledged; or the
> entry goes.

Mirroring notes:
- This is the entry of one home address for one home agent. When the mobile node turns to
  another one (`mn_change_ha`), what it does with that one is left out.
- The tunnel, the routes, the IPsec policies and what is sent to correspondent nodes are left
  out; that setting them up fails is an argument.
- `random`, the clock and the remaining lifetimes of the addresses are arguments.
- When an update cannot be allocated, `mn_send_bu_msg` returns before it has set `wait_ack`. No
  caller looks at that: the number and the care-of address are those of an update that was not
  sent, and after a move the entry does not wait for an acknowledgement of it.
-/

namespace Manhattan.Umip

/-- `BUL_ENTRY` … `UNREACH_ENTRY` -/
inductive BulType
  | bulEntry | nonMipCn | unreach
deriving DecidableEq, Repr

/-- `callback` of an entry -/
inductive Callback
  | buResend | buRefresh | bulExpire
deriving DecidableEq, Repr

/-- `bulentry` -/
structure Bulentry where
  coa : Addr := 0
  type : BulType := .bulEntry
  seq : UInt16
  flags : UInt16 := 0
  lastCoa : Addr
  lastsent : Timespec := tsclear
  lifetime : Timespec := tsclear
  delay : Timespec := tsclear
  hardExpire : Timespec := tsclear
  consecutiveResends : Nat := 0
  waitAck : Bool := false
  callback : Callback := .buResend
deriving DecidableEq, Repr

inductive HomeReg
  | none | uncertain | valid
deriving DecidableEq, Repr

/-- What the code reads of `conf`. -/
structure MnConf where
  firstReg : Timespec
  reReg : Timespec
  maxHaBindingLife : Nat
  /-- `UseMnHaIPsec && KeyMngMobCapability` -/
  keyMng : Bool
deriving DecidableEq, Repr

/-- `home_addr_info` -/
structure MnHome where
  hoa : Addr
  primaryCoa : Addr
  atHome : Bool
  useDhaad : Bool
  /-- `lladdr_comp | mob_rtr` -/
  extraFlags : UInt16
  homeRegStatus : HomeReg := .none
  bule : Option Bulentry := none
deriving DecidableEq, Repr

/-- What a function is told by the world around it. -/
structure World where
  now : Timespec
  /-- remaining lifetimes of the care-of and the home address -/
  coaLft : Nat
  hoaLft : Nat
  /-- `random` -/
  seed : UInt16
  /-- the tunnel, the policies and the hash tables play along -/
  works : Bool
  /-- there is memory for an update -/
  memory : Bool
deriving DecidableEq, Repr

namespace MnHome

variable (cf : MnConf) (w : World)

/-- `mn_get_home_lifetime`, with whether this is a de-registration -/
def getHomeLifetime (m : MnHome) : Timespec × Bool :=
  if m.atHome then (tsclear, true)
  else (mpdSanitizeLft ⟨(min (min w.coaLft w.hoaLft) cf.maxHaBindingLife : Nat), 0⟩, false)

/-- What `mh_bu_parse` makes of the update for an entry at the home agent. -/
def update (m : MnHome) (b : Bulentry) : Bu :=
  { seqno := b.seq, flags := b.flags, coa := b.coa
    lft := if b.coa = m.hoa then tsclear else wireLft b.lifetime }

/-- `mn_send_bu_msg` -/
def sendBuMsg (m : MnHome) (b : Bulentry) : Bulentry × List Bu :=
  if !w.memory then (b, [])
  else ({ b with waitAck := b.waitAck || b.flags &&& buAck != 0 }, [m.update b])

/-- `bul_delete`, with the cleanups of an entry for a home agent -/
def bulDelete (m : MnHome) (b : Bulentry) : MnHome :=
  { m with bule := none, homeRegStatus := if b.type = .bulEntry then .none else m.homeRegStatus }

/-- `bule_invalidate` -/
def buleInvalidate (m : MnHome) (b : Bulentry) (block : Bool) : MnHome :=
  if b.type ≠ .bulEntry then m
  else if m.atHome then m.bulDelete b
  else { m.bulDelete b with bule := some {
      type := if block then .nonMipCn else .unreach
      coa := 0, lastCoa := m.hoa, seq := w.seed, flags := b.flags, lastsent := w.now
      lifetime := ⟨420, 0⟩, delay := ⟨420, 0⟩, callback := .bulExpire } }

/-- `process_first_home_bu` -/
def processFirstHomeBu (m : MnHome) (b : Bulentry) (lifetime : Timespec) : Bulentry :=
  { b with
    type := .bulEntry
    flags := buHome ||| buAck ||| m.extraFlags ||| (if cf.keyMng then buKeym else 0)
    coa := m.primaryCoa
    lifetime := lifetime
    delay := cf.firstReg
    callback := .buResend
    consecutiveResends := 0 }

/-- `mn_bu_ratelimit`: whether nothing is to be sent, or the entry. -/
def buRatelimit (b : Bulentry) : Option Bulentry :=
  if b.coa = b.lastCoa then if b.waitAck then none else some b
  else some { b with waitAck := false, consecutiveResends := 0 }

/-- The end of `mn_send_home_bu`: the update is sent, unless the mobile node has come home
after the registration has expired. -/
def sendHomeBuEnd (m : MnHome) (b : Bulentry) (returns : Bool) : MnHome × List Bu :=
  let expired := returns && tsisset b.hardExpire && tsbefore b.lastsent b.hardExpire
  if expired then (m.bulDelete b, [])
  else
    let (b, bus) := m.sendBuMsg w b
    ({ m with bule := some { b with lastCoa := b.coa } }, bus)

/-- `mn_send_home_bu` -/
def sendHomeBu (m : MnHome) : MnHome × List Bu :=
  let lifetime := (m.getHomeLifetime cf w).1
  match m.bule with
  | none =>
    -- there is an assertion that the mobile node is not at home
    if m.atHome || !tsisset lifetime || !w.works then (m, [])
    else
      let b := m.processFirstHomeBu cf
        { seq := w.seed, lastCoa := m.hoa, lastsent := w.now } lifetime
      { m with homeRegStatus := .uncertain }.sendHomeBuEnd w b false
  | some b =>
    if b.type = .bulEntry then
      let b := { b with lastsent := w.now }
      if m.hoa = b.coa then
        if !w.works then (m.bulDelete b, [])
        else
          let b := m.processFirstHomeBu cf b lifetime
          { m with homeRegStatus := .uncertain }.sendHomeBuEnd w { b with seq := b.seq + 1 } false
      else
        let b := { b with coa := m.primaryCoa }
        match buRatelimit b with
        | none => ({ m with bule := some b }, [])
        | some b =>
          m.sendHomeBuEnd w { b with
            lifetime := if m.atHome then tsclear else lifetime
            delay := cf.reReg, callback := .buResend, seq := b.seq + 1 } m.atHome
    else (m, [])

/-- `bu_lft_check`: the entry, and whether its lifetime has run out -/
def buLftCheck (m : MnHome) (b : Bulentry) : Bulentry × Bool :=
  if !tsisset b.lifetime then (b, false)
  else
    let (lifetime, dereg) := m.getHomeLifetime cf w
    ({ b with lifetime := lifetime }, !dereg && !tsisset lifetime)

/-- `tsmin` -/
def tsmin (a b : Timespec) : Timespec := if tsbefore a b then b else a

/-- `bu_resend` -/
def buResend (m : MnHome) (b : Bulentry) : MnHome × List Bu :=
  let b := { b with
    lastsent := w.now
    delay := tsmin (tsadd b.delay b.delay) ⟨32, 0⟩
    consecutiveResends := b.consecutiveResends + 1 }
  let (b, expired) := m.buLftCheck cf w b
  let b := { b with seq := b.seq + 1 }
  if m.useDhaad && b.consecutiveResends > 5 then (m.buleInvalidate w b false, [])
  else
    let (b, bus) := m.sendBuMsg w b
    if expired then (m.bulDelete b, bus) else ({ m with bule := some b }, bus)

/-- `bu_refresh` -/
def buRefresh (m : MnHome) (b : Bulentry) : MnHome × List Bu :=
  let (b, expired) := m.buLftCheck cf w { b with lastsent := w.now, delay := cf.reReg }
  let b := { b with seq := b.seq + 1, callback := .buResend }
  let (b, bus) := m.sendBuMsg w b
  if expired then (m.bulDelete b, bus) else ({ m with bule := some b }, bus)

/-- The timer of the entry has run out. -/
def timer (m : MnHome) : MnHome × List Bu :=
  match m.bule with
  | none => (m, [])
  | some b =>
    match b.callback with
    | .buResend => m.buResend cf w b
    | .buRefresh => m.buRefresh cf w b
    | .bulExpire => (m.bulDelete b, [])

/-- `set_bule_lifetime` -/
def setBuleLifetime (b : Bulentry) (baLifetime brAdvice : Timespec) : Bulentry :=
  let lifetime := tsmin b.lifetime baLifetime
  let delay := ⟨lifetime.tvSec * 95 / 100, 0⟩
  { b with lifetime := lifetime, delay := if tsbefore delay brAdvice then brAdvice else delay }

/-- `mn_recv_ba`, for an acknowledgement of the home agent -/
def recvBa (m : MnHome) (ba : Ba) : MnHome × List Bu :=
  match m.bule with
  | none => (m, [])
  | some b =>
    if b.type ≠ .bulEntry then (m, [])
    else if b.seq ≠ ba.seqno ∧ ba.status ≠ basSeqnoBad then (m, [])
    else
      let b := { b with consecutiveResends := 0 }
      if ba.status = basSeqnoBad then
        let b := { b with
          lastsent := w.now, seq := ba.seqno + 1
          lifetime := (m.getHomeLifetime cf w).1, callback := .buResend }
        let (b, bus) := m.sendBuMsg w b
        ({ m with bule := some { b with delay := cf.reReg } }, bus)
      else if ba.status ≥ basUnspecified then
        if m.atHome then (m.bulDelete b, [])
        else (m.buleInvalidate w b !m.useDhaad, [])
      else if !b.waitAck then ({ m with bule := some b }, [])
      else
        let b := { b with waitAck := false, hardExpire := tsadd b.lastsent ba.lifetime }
        if b.flags &&& buMr ≠ 0 ∧ ba.mr = false then
          -- the home agent does not do mobile routers: `mn_change_ha` or `mn_dereg`
          if m.useDhaad then (m.bulDelete b, [])
          else
            let (b, bus) := m.sendBuMsg w { b with seq := b.seq + 1, lifetime := tsclear }
            (m.bulDelete b, bus)
        else if !tsisset ba.lifetime then (m.bulDelete b, [])
        else
          let b := if ba.keym then b else { b with flags := b.flags &&& ~~~buKeym }
          ({ m with
              homeRegStatus := .valid
              bule := some { setBuleLifetime b ba.lifetime (ba.refresh.getD ba.lifetime) with
                callback := .buRefresh } }, [])

/-! ## What a function can do -/

/-- The entry, if it stands for a registration. -/
def entry (m : MnHome) : Option Bulentry := m.bule.filter (·.type = .bulEntry)

theorem entry_eq_some_iff {m : MnHome} {b : Bulentry} :
    m.entry = some b ↔ m.bule = some b ∧ b.type = .bulEntry := by
  simp [entry, Option.filter_eq_some_iff]

/-- What holds between two calls. -/
structure Wf (m : MnHome) : Prop where
  /-- the care-of address is the one of the last update -/
  coa : ∀ b, m.entry = some b → b.coa = b.lastCoa
  /-- updates ask for an acknowledgement -/
  acks : ∀ b, m.entry = some b → Acks b.flags
  /-- what is no registration sends nothing -/
  callback : ∀ b, m.bule = some b → b.type ≠ .bulEntry → b.callback = .bulExpire

/-- Why a function is called. -/
inductive Cause
  | send (seed : UInt16)
  | timer
  | recv (ba : Ba)
deriving DecidableEq, Repr

/-- What a call can do. -/
inductive Effect (cause : Cause) (m : MnHome) : MnHome × List Bu → Prop
  | quiet {m' : MnHome} (same : ∀ b', m'.entry = some b' → ∃ b, m.entry = some b ∧
      b'.seq = b.seq ∧ b'.coa = b.coa ∧ b'.waitAck = b.waitAck) : Effect cause m (m', [])
  | gone {m' : MnHome} {bus : List Bu} (none : m'.entry = none)
      (bus_eq : bus = [] ∨ ∃ b bu, m.entry = some b ∧ bus = [bu] ∧ bu.seqno = b.seq + 1) :
      Effect cause m (m', bus)
  | first {m' : MnHome} {b' : Bulentry} {bu : Bu} (asked : cause = .send b'.seq)
      (before : m.entry = none) (after : m'.entry = some b') (seq : bu.seqno = b'.seq)
      (coa : bu.coa = b'.coa) (wait : b'.waitAck = true) : Effect cause m (m', [bu])
  | next {m' : MnHome} {b b' : Bulentry} {bu : Bu} (before : m.entry = some b)
      (after : m'.entry = some b') (succ : b'.seq = b.seq + 1) (seq : bu.seqno = b'.seq)
      (coa : bu.coa = b'.coa) (wait : b'.waitAck = true) : Effect cause m (m', [bu])
  | resync {m' : MnHome} {a : Ba} {b b' : Bulentry} {bu : Bu} (arrived : cause = .recv a)
      (bad : a.status = basSeqnoBad) (before : m.entry = some b) (after : m'.entry = some b')
      (succ : b'.seq = a.seqno + 1) (seq : bu.seqno = b'.seq) (coa : bu.coa = b'.coa)
      (wait : b'.waitAck = true) : Effect cause m (m', [bu])
  | acked {m' : MnHome} {a : Ba} {b b' : Bulentry} (arrived : cause = .recv a)
      (good : a.status < basUnspecified) (life : tsisset a.lifetime = true)
      (before : m.entry = some b) (after : m'.entry = some b') (seqno : a.seqno = b.seq)
      (seq : b'.seq = b.seq) (coa : b'.coa = b.coa) : Effect cause m (m', [])

variable {cf w} {cause : Cause} {m m' : MnHome} {b b' : Bulentry}

theorem sendBuMsg_snd (hmem : w.memory = true) : (m.sendBuMsg w b).2 = [m.update b] := by
  unfold sendBuMsg
  rw [hmem]
  rfl

theorem sendBuMsg_fst (hack : Acks b.flags) (hwait : b.waitAck = true ∨ w.memory = true) :
    (m.sendBuMsg w b).1 = { b with waitAck := true } := by
  unfold sendBuMsg
  split
  · next hno =>
    rcases hwait with h | h
    · rw [← h]
    · rw [h] at hno
      cases hno
  · rw [hack.ne_zero, Bool.or_true]

theorem sendBuMsg_eq (hmem : w.memory = true) (hack : Acks b.flags) :
    m.sendBuMsg w b = ({ b with waitAck := true }, [m.update b]) :=
  Prod.ext (sendBuMsg_fst hack (.inr hmem)) (sendBuMsg_snd hmem)

theorem wf_of_entry (h : m.bule = some b) (htype : b.type = .bulEntry) (hcoa : b.coa = b.lastCoa)
    (hack : Acks b.flags) : m.Wf := by
  have hentry := entry_eq_some_iff.mpr ⟨h, htype⟩
  constructor
  · intro x hx
    cases hentry.symm.trans hx
    exact hcoa
  · intro x hx
    cases hentry.symm.trans hx
    exact hack
  · intro x hx hne
    cases h.symm.trans hx
    exact absurd htype hne

/-- What is left is no registration, and only waits for its time. -/
theorem goes_gone {bus : List Bu}
    (h : ∀ b, m'.bule = some b → b.type ≠ .bulEntry ∧ b.callback = .bulExpire)
    (hbus : bus = [] ∨ ∃ b bu, m.entry = some b ∧ bus = [bu] ∧ bu.seqno = b.seq + 1) :
    Effect cause m (m', bus) ∧ m'.Wf := by
  have hnone : ∀ b, m'.entry ≠ some b := by
    intro b hb
    obtain ⟨hb, htype⟩ := entry_eq_some_iff.mp hb
    exact (h b hb).1 htype
  refine ⟨.gone (Option.eq_none_iff_forall_ne_some.mpr hnone) hbus, ?_, ?_, ?_⟩
  · exact fun b hb => absurd hb (hnone b)
  · exact fun b hb => absurd hb (hnone b)
  · exact fun b hb _ => (h b hb).2

/-- The entry goes, perhaps with a last update. -/
theorem goes_bulDelete {bus : List Bu} (b' : Bulentry)
    (hbus : bus = [] ∨ ∃ b bu, m.entry = some b ∧ bus = [bu] ∧ bu.seqno = b.seq + 1) :
    Effect cause m (m.bulDelete b', bus) ∧ (m.bulDelete b').Wf := by
  apply goes_gone _ hbus
  intro b hb
  cases hb

theorem goes_buleInvalidate (htype : b'.type = .bulEntry) (block : Bool) :
    Effect cause m (m.buleInvalidate w b' block, []) ∧ (m.buleInvalidate w b' block).Wf := by
  unfold buleInvalidate
  rw [if_neg (not_not.mpr htype)]
  split
  · exact goes_bulDelete b' (.inl rfl)
  · apply goes_gone _ (.inl rfl)
    intro b hb
    cases hb
    refine ⟨?_, rfl⟩
    show (if block then BulType.nonMipCn else .unreach) ≠ .bulEntry
    cases block <;> decide

/-- The entry is changed without an update. -/
theorem goes_quiet (hb : m.entry = some b) (hb' : m'.bule = some b') (htype : b'.type = .bulEntry)
    (hseq : b'.seq = b.seq) (hcoa : b'.coa = b.coa) (hwait : b'.waitAck = b.waitAck)
    (hlast : b'.coa = b'.lastCoa) (hack : Acks b'.flags) : Effect cause m (m', []) ∧ m'.Wf := by
  refine ⟨.quiet fun x hx => ?_, wf_of_entry hb' htype hlast hack⟩
  cases (entry_eq_some_iff.mpr ⟨hb', htype⟩).symm.trans hx
  exact ⟨b, hb, hseq, hcoa, hwait⟩

theorem goes_still (hw : m.Wf) : Effect cause m (m, []) ∧ m.Wf :=
  ⟨.quiet fun b hb => ⟨b, hb, rfl, rfl, rfl⟩, hw⟩

theorem goes_first {bu : Bu} (hcause : cause = .send b'.seq) (hb : m.entry = none)
    (hb' : m'.bule = some b') (htype : b'.type = .bulEntry) (hseq : bu.seqno = b'.seq)
    (hcoa : bu.coa = b'.coa) (hwait : b'.waitAck = true) (hlast : b'.coa = b'.lastCoa)
    (hack : Acks b'.flags) : Effect cause m (m', [bu]) ∧ m'.Wf :=
  ⟨.first hcause hb (entry_eq_some_iff.mpr ⟨hb', htype⟩) hseq hcoa hwait,
    wf_of_entry hb' htype hlast hack⟩

theorem goes_next {bu : Bu} (hb : m.entry = some b) (hb' : m'.bule = some b')
    (htype : b'.type = .bulEntry) (hsucc : b'.seq = b.seq + 1) (hseq : bu.seqno = b'.seq)
    (hcoa : bu.coa = b'.coa) (hwait : b'.waitAck = true) (hlast : b'.coa = b'.lastCoa)
    (hack : Acks b'.flags) : Effect cause m (m', [bu]) ∧ m'.Wf :=
  ⟨.next hb (entry_eq_some_iff.mpr ⟨hb', htype⟩) hsucc hseq hcoa hwait,
    wf_of_entry hb' htype hlast hack⟩

theorem acks_processFirstHomeBu (cf : MnConf) (m : MnHome) (b : Bulentry) (lifetime : Timespec) :
    Acks (m.processFirstHomeBu cf b lifetime).flags := by
  show (buHome ||| buAck ||| m.extraFlags |||
    (if cf.keyMng then buKeym else 0)).toBitVec.getLsbD 15 = true
  have : buAck.toBitVec.getLsbD 15 = true := by decide
  simp only [UInt16.toBitVec_or, BitVec.getLsbD_or, this, Bool.or_true, Bool.true_or]

/-- `sendHomeBuEnd` with an entry that asks for an acknowledgement: it goes, or is as it was
with the address noted. -/
theorem sendHomeBuEnd_cases (m' : MnHome) (returns : Bool) (hmem : w.memory = true)
    (hack : Acks b'.flags) :
    m'.sendHomeBuEnd w b' returns = (m'.bulDelete b', []) ∧ returns = true ∨
    m'.sendHomeBuEnd w b' returns =
      ({ m' with bule := some { b' with waitAck := true, lastCoa := b'.coa } },
        [m'.update b']) := by
  unfold sendHomeBuEnd
  dsimp only
  split
  · next h => exact .inl ⟨rfl, by revert h; cases returns <;> simp⟩
  · refine .inr ?_
    rw [sendBuMsg_eq hmem hack]

/-- Nothing is sent twice from one address while it is waited for. -/
theorem coa_of_buRatelimit (h : buRatelimit b = none) : b.coa = b.lastCoa := by
  unfold buRatelimit at h
  split at h
  · assumption
  · cases h

theorem buRatelimit_kept (h : buRatelimit b = some b') :
    b'.seq = b.seq ∧ b'.flags = b.flags ∧ b'.type = b.type := by
  unfold buRatelimit at h
  split at h
  · obtain ⟨-, h⟩ := Option.ite_none_left_eq_some.mp h
    cases h
    exact ⟨rfl, rfl, rfl⟩
  · cases h
    exact ⟨rfl, rfl, rfl⟩

theorem sendHomeBu_effect (hw : m.Wf) (hmem : w.memory = true) :
    Effect (.send w.seed) m (m.sendHomeBu cf w) ∧ (m.sendHomeBu cf w).1.Wf := by
  unfold sendHomeBu
  dsimp only
  split
  · -- the first update
    next hnone =>
    split
    · exact goes_still hw
    · have hack := acks_processFirstHomeBu cf m
        { seq := w.seed, lastCoa := m.hoa, lastsent := w.now } (m.getHomeLifetime cf w).1
      obtain ⟨-, h⟩ | h := sendHomeBuEnd_cases { m with homeRegStatus := .uncertain } false
        hmem hack
      · cases h
      rw [h]
      exact goes_first rfl (by rw [entry, hnone]; rfl) rfl rfl rfl rfl rfl rfl hack
  · next b hb =>
    split
    case isFalse => exact goes_still hw
    next htype =>
    have hentry : m.entry = some b := entry_eq_some_iff.mpr ⟨hb, htype⟩
    split
    · -- it has been at home
      split
      · exact goes_bulDelete _ (.inl rfl)
      · have hack := acks_processFirstHomeBu cf m { b with lastsent := w.now }
          (m.getHomeLifetime cf w).1
        let b' : Bulentry := { m.processFirstHomeBu cf { b with lastsent := w.now }
          (m.getHomeLifetime cf w).1 with seq := b.seq + 1 }
        obtain ⟨-, h⟩ | h := sendHomeBuEnd_cases { m with homeRegStatus := .uncertain } false
          hmem (show Acks b'.flags from hack)
        · cases h
        rw [show (m.processFirstHomeBu cf { b with lastsent := w.now }
          (m.getHomeLifetime cf w).1).seq = b.seq from rfl, h]
        exact goes_next hentry rfl rfl rfl rfl rfl rfl rfl hack
    · -- it has moved, or is to send the same again
      split
      · next hlimit =>
        have hsame : m.primaryCoa = b.lastCoa := coa_of_buRatelimit hlimit
        exact goes_quiet hentry rfl htype rfl (hsame.trans (hw.coa b hentry).symm) rfl hsame
          (hw.acks b hentry)
      · next b' hlimit =>
        obtain ⟨hseq, hflags, htype'⟩ := buRatelimit_kept hlimit
        let b₁ : Bulentry := { b' with
          lifetime := if m.atHome then tsclear else (m.getHomeLifetime cf w).1
          delay := cf.reReg, callback := .buResend, seq := b'.seq + 1 }
        have hack : Acks b₁.flags := by
          show Acks b'.flags
          rw [hflags]
          exact hw.acks b hentry
        obtain ⟨h, -⟩ | h := sendHomeBuEnd_cases m m.atHome hmem hack
        · rw [h]
          exact goes_bulDelete _ (.inl rfl)
        · rw [h]
          exact goes_next hentry rfl (htype'.trans htype) (congrArg (· + 1) hseq) rfl rfl rfl rfl
            hack

/-- `bu_resend` and `bu_refresh` once the entry has been brought up to date. -/
theorem goes_again {expired : Bool} (hw : m.Wf) (hmem : w.memory = true) (hb : m.entry = some b)
    (hb' : b' = { b with
      seq := b.seq + 1, lastsent := b'.lastsent, delay := b'.delay, lifetime := b'.lifetime
      consecutiveResends := b'.consecutiveResends, callback := b'.callback }) :
    let r := if expired then (m.bulDelete (m.sendBuMsg w b').1, (m.sendBuMsg w b').2)
      else ({ m with bule := some (m.sendBuMsg w b').1 }, (m.sendBuMsg w b').2)
    Effect cause m r ∧ r.1.Wf := by
  have hack : Acks b'.flags := by rw [hb']; exact hw.acks b hb
  rw [sendBuMsg_eq hmem hack]
  dsimp only
  split
  · exact goes_bulDelete _ (.inr ⟨b, _, hb, rfl, by rw [hb']; rfl⟩)
  · refine goes_next hb rfl ?_ ?_ rfl rfl rfl ?_ hack
    · rw [hb']
      exact (entry_eq_some_iff.mp hb).2
    · rw [hb']
    · rw [hb']
      exact hw.coa b hb

theorem buLftCheck_fst (m : MnHome) (b : Bulentry) :
    (m.buLftCheck cf w b).1 = { b with lifetime := (m.buLftCheck cf w b).1.lifetime } := by
  unfold buLftCheck
  split <;> rfl

theorem timer_effect (hw : m.Wf) (hmem : w.memory = true) :
    Effect .timer m (m.timer cf w) ∧ (m.timer cf w).1.Wf := by
  unfold timer
  split
  · exact goes_still hw
  · next b hb =>
    by_cases htype : b.type = .bulEntry
    case neg =>
      rw [hw.callback b hb htype]
      exact goes_bulDelete b (.inl rfl)
    have hentry : m.entry = some b := entry_eq_some_iff.mpr ⟨hb, htype⟩
    split
    · unfold buResend
      dsimp only
      rw [buLftCheck_fst]
      split
      · exact goes_buleInvalidate htype false
      · exact goes_again hw hmem hentry rfl
    · unfold buRefresh
      dsimp only
      rw [buLftCheck_fst]
      exact goes_again hw hmem hentry rfl
    · exact goes_bulDelete b (.inl rfl)

theorem recvBa_effect (hw : m.Wf) (hmem : w.memory = true) (a : Ba) :
    Effect (.recv a) m (m.recvBa cf w a) ∧ (m.recvBa cf w a).1.Wf := by
  unfold recvBa
  split
  · exact goes_still hw
  · next b hb =>
    split
    · exact goes_still hw
    next htype =>
    replace htype := not_not.mp htype
    have hentry : m.entry = some b := entry_eq_some_iff.mpr ⟨hb, htype⟩
    have hack := hw.acks b hentry
    split
    · exact goes_still hw
    next hseq =>
    dsimp only
    split
    · -- the home agent has had this number
      next hbad =>
      rw [sendBuMsg_eq hmem]
      · exact ⟨.resync rfl hbad hentry (entry_eq_some_iff.mpr ⟨rfl, htype⟩) rfl rfl rfl rfl,
          wf_of_entry rfl htype (hw.coa b hentry) hack⟩
      · exact hack
    next hbad =>
    have hseqno : a.seqno = b.seq := by
      by_contra hne
      exact hseq ⟨fun h => hne h.symm, hbad⟩
    split
    · split
      · exact goes_bulDelete _ (.inl rfl)
      · exact goes_buleInvalidate htype _
    next hgood =>
    split
    · exact goes_quiet hentry rfl htype rfl rfl rfl (hw.coa b hentry) hack
    · split
      · split
        · exact goes_bulDelete _ (.inl rfl)
        · rw [sendBuMsg_snd hmem]
          exact goes_bulDelete _ (.inr ⟨b, _, hentry, rfl, rfl⟩)
      · split
        · exact goes_bulDelete _ (.inl rfl)
        next hlife =>
        rw [Bool.not_eq_true, Bool.not_eq_false'] at hlife
        split
        · exact ⟨.acked rfl (Nat.not_le.mp hgood) hlife hentry
              (entry_eq_some_iff.mpr ⟨rfl, htype⟩) hseqno rfl rfl,
            wf_of_entry rfl htype (hw.coa b hentry) hack⟩
        · exact ⟨.acked rfl (Nat.not_le.mp hgood) hlife hentry
              (entry_eq_some_iff.mpr ⟨rfl, htype⟩) hseqno rfl rfl,
            wf_of_entry rfl htype (hw.coa b hentry) hack.and_not_keym⟩

/-- An acknowledgement that is waited for and grants a lifetime. -/
theorem recvBa_accepted {a : Ba} (hb : m.bule = some b) (htype : b.type = .bulEntry)
    (hseq : b.seq = a.seqno) (hgood : a.status < basUnspecified) (hwait : b.waitAck = true)
    (hmr : b.flags &&& buMr = 0 ∨ a.mr = true) (hlife : tsisset a.lifetime = true) :
    ∃ b', m.recvBa cf w a = ({ m with homeRegStatus := .valid, bule := some b' }, []) ∧
      b'.type = .bulEntry ∧ b'.waitAck = false ∧ b'.coa = b.coa := by
  have hbad : a.status ≠ basSeqnoBad := by
    intro h
    rw [h] at hgood
    exact absurd hgood (by decide)
  have hrouter : ¬(b.flags &&& buMr ≠ 0 ∧ a.mr = false) := by
    rintro ⟨hflag, hno⟩
    rcases hmr with h | h
    · exact hflag h
    · exact Bool.false_ne_true (hno.symm.trans h)
  unfold recvBa
  rw [hb]
  dsimp only
  rw [if_neg (not_not.mpr htype), if_neg (fun h => h.1 hseq), if_neg hbad,
    if_neg (Nat.not_le.mpr hgood), if_neg (by simp [hwait]), if_neg hrouter,
    if_neg (by simp [hlife])]
  refine ⟨_, rfl, ?_⟩
  split <;> exact ⟨htype, rfl, rfl⟩

end MnHome

end Manhattan.Umip
