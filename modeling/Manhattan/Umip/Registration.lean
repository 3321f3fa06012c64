import Manhattan.Umip.HomeAgent
import Manhattan.Umip.MobileNode

/-!
# Registration with the home agent

A mobile node and its home agent, with a network between them that loses, repeats and reorders
what they send. When the mobile node has got an acknowledgement for its last binding update, it
takes itself for registered, and sends its traffic through the tunnel. It had better be right:

> `registered_agree`: whenever the mobile node takes itself for registered, the home agent has
> a binding with the care-of address of the mobile node, under the number of its last update.

This holds in every run in which

- no two workers of the home agent are in each other's way (`HomeAgent` shows what happens
  otherwise) and no binding expires there;
- the numbers of all updates lie within half a turn, and a mobile node that starts anew starts
  with a number ahead of those that are still under way;
- no acknowledgement makes the mobile node take back its number;
- the mobile node has memory for its updates.

The condition on acknowledgements is not one the code looks after. An acknowledgement that says
that the number is out of range is obeyed whatever it was for, and there are such
acknowledgements wherever an update comes in twice:

> `stale_disagree`: one that is late makes the mobile node reuse a number, and an old
> acknowledgement for that number is then taken for one of the new update. The mobile node takes
> itself for registered, the home agent has another care-of address.

Mirroring notes:
- What was sent can arrive at any time, any number of times: `bus` and `bas` only grow.
- The addresses of the mobile node change as the network wants.
-/

namespace Manhattan.Umip

open Manhattan.Lib

structure Net where
  cf : MnConf
  mn : MnHome
  ha : Ha
  /-- the updates that were sent, the last one first -/
  bus : List Bu := []
deriving DecidableEq, Repr

namespace Net

inductive Act
  /-- the mobile node has moved -/
  | move (coa : Addr) (atHome : Bool)
  /-- `mn_send_home_bu` -/
  | send (w : World)
  /-- the timer of the mobile node runs out -/
  | timer (w : World)
  /-- an acknowledgement arrives -/
  | recvBa (w : World) (ba : Ba)
  /-- an update arrives -/
  | recvBu (a : Answers) (bu : Bu)
  /-- a worker of the home agent goes on -/
  | work (i : Nat) (a : Answers)
  /-- the timer of the first entry at the home agent runs out -/
  | expire (a : Answers)

/-- What the mobile node is after a call, and what it has sent. -/
def result (n : Net) (r : MnHome × List Bu) : Net := { n with mn := r.1, bus := r.2 ++ n.bus }

def step (n : Net) : Act → Option Net
  | .move coa atHome => some { n with mn := { n.mn with primaryCoa := coa, atHome := atHome } }
  | .send w => some (n.result (n.mn.sendHomeBu n.cf w))
  | .timer w => some (n.result (n.mn.timer n.cf w))
  | .recvBa w ba => if ba ∈ n.ha.bas then some (n.result (n.mn.recvBa n.cf w ba)) else none
  | .recvBu a bu =>
    if bu ∈ n.bus then (n.ha.step (.recv a false bu)).map fun ha => { n with ha := ha } else none
  | .work i a => (n.ha.step (.work i a)).map fun ha => { n with ha := ha }
  | .expire a => (n.ha.step (.expire a)).map fun ha => { n with ha := ha }

/-! ## Numbers within half a turn -/

/-- How far a number is ahead of `s`. -/
def pos (s x : UInt16) : Nat := (x - s).toNat

/-- `s` is not more than half a turn behind. -/
def Near (s x : UInt16) : Prop := pos s x < 32768

instance (s x : UInt16) : Decidable (Near s x) := inferInstanceAs (Decidable (pos s x < 32768))

theorem toNat_eq_pos (s x : UInt16) : x.toNat = (s.toNat + pos s x) % 65536 := by
  have hx := x.toNat_lt
  have hs := s.toNat_lt
  rw [pos, UInt16.toNat_sub]
  omega

theorem seqGt_iff_pos {s x y : UInt16} (hx : Near s x) (hy : Near s y) :
    seqGt x y = true ↔ pos s y < pos s x := by
  unfold Near at hx hy
  rw [seqGt_eq, toNat_eq_pos s x, toNat_eq_pos s y]
  exact Serial.gt_iff (by decide) (by omega) (by omega)

theorem pos_add_one {s x : UInt16} (hx : Near s x) : pos s (x + 1) = pos s x + 1 := by
  unfold Near at hx
  have hone : (1 : UInt16).toNat = 1 := rfl
  unfold pos at hx ⊢
  rw [UInt16.toNat_sub] at hx
  rw [UInt16.toNat_sub, UInt16.toNat_sub, UInt16.toNat_add]
  omega

/-! ## The invariant -/

/-- What a step must keep to. -/
def Ok (s : UInt16) (n : Net) : Act → Prop
  | .send w => w.memory = true ∧
    (n.mn.entry = none → ∀ bu ∈ n.bus, pos s bu.seqno < pos s w.seed)
  | .timer w => w.memory = true
  | .recvBa w ba => w.memory = true ∧
    (ba.status = basSeqnoBad → ∀ b ∈ n.mn.entry, pos s b.seq ≤ pos s ba.seqno)
  | .recvBu _ _ => ∀ pc ∈ n.ha.workers, ∃ w, pc = .dad w
  | .expire _ => False
  | .move _ _ | .work _ _ => True

instance (s : UInt16) (n : Net) (act : Act) : Decidable (Ok s n act) := by
  cases act <;> unfold Ok <;> infer_instance

/-- The last update is the one of the binding at the home agent. -/
def Bound (n : Net) : Prop := ∀ bu ∈ n.bus.head?, n.ha.Registered bu

structure Inv (s : UInt16) (n : Net) : Prop where
  wf : n.mn.Wf
  /-- the last update has the highest number -/
  sorted : n.bus.Pairwise fun x y => pos s y.seqno < pos s x.seqno
  /-- the entry of the mobile node is the one of the last update -/
  entry : ∀ b, n.mn.entry = some b → ∃ bu ∈ n.bus.head?, bu.seqno = b.seq ∧ bu.coa = b.coa
  shape : Ha.Shape (· ∈ n.bus) (Near s) n.ha.workers n.ha.chain
  near : ∀ ba ∈ n.ha.bas, Near s ba.seqno
  /-- an acknowledgement with a lifetime is for an update, and if that is the last one, then it
  is registered -/
  acked : ∀ ba ∈ n.ha.bas, tsisset ba.lifetime = true → (∃ bu ∈ n.bus, bu.seqno = ba.seqno) ∧
    ((∃ bu ∈ n.bus.head?, bu.seqno = ba.seqno) → n.Bound)
  agree : ∀ b, n.mn.entry = some b → b.waitAck = false → n.Bound

variable {s : UInt16} {n n' : Net} {m' : MnHome} {b : Bulentry} {bu : Bu}

/-- No update has a higher number than the entry. -/
theorem Inv.le_entry (hI : Inv s n) (hb : n.mn.entry = some b) (hbu : bu ∈ n.bus) :
    pos s bu.seqno ≤ pos s b.seq := by
  obtain ⟨last, hlast, hseq, -⟩ := hI.entry b hb
  obtain ⟨rest, hbus⟩ := List.head?_eq_some_iff.mp hlast
  have hsorted := hI.sorted
  rw [hbus] at hsorted hbu
  rw [← hseq]
  rcases List.mem_cons.mp hbu with rfl | hbu
  · exact Nat.le_refl _
  · exact Nat.le_of_lt ((List.pairwise_cons.mp hsorted).1 bu hbu)

theorem Inv.entry_mem (hI : Inv s n) (hb : n.mn.entry = some b) :
    ∃ bu ∈ n.bus, bu.seqno = b.seq := by
  obtain ⟨last, hlast, hseq, -⟩ := hI.entry b hb
  exact ⟨last, List.mem_of_mem_head? hlast, hseq⟩

/-- A call that sends nothing. -/
theorem Inv.quiet (hI : Inv s n) (hwf : m'.Wf)
    (hentry : ∀ b', m'.entry = some b' → ∃ bu ∈ n.bus.head?, bu.seqno = b'.seq ∧ bu.coa = b'.coa)
    (hagree : ∀ b', m'.entry = some b' → b'.waitAck = false → n.Bound) :
    Inv s (n.result (m', [])) :=
  ⟨hwf, hI.sorted, hentry, hI.shape, hI.near, hI.acked, hagree⟩

/-- A call that sends an update with a new number. -/
theorem Inv.sent (hI : Inv s n) (hwf : m'.Wf) (hnew : ∀ x ∈ n.bus, pos s x.seqno < pos s bu.seqno)
    (hentry : ∀ b', m'.entry = some b' →
      bu.seqno = b'.seq ∧ bu.coa = b'.coa ∧ b'.waitAck = true) :
    Inv s (n.result (m', [bu])) where
  wf := hwf
  sorted := List.pairwise_cons.mpr ⟨hnew, hI.sorted⟩
  entry b' hb' := ⟨bu, rfl, (hentry b' hb').1, (hentry b' hb').2.1⟩
  shape := hI.shape.mono fun _ hx => List.mem_cons_of_mem _ hx
  near := hI.near
  acked ba hba hlife := by
    obtain ⟨⟨x, hx, hxseq⟩, -⟩ := hI.acked ba hba hlife
    refine ⟨⟨x, List.mem_cons_of_mem _ hx, hxseq⟩, ?_⟩
    -- what was acknowledged before is not the new update
    rintro ⟨y, hy, hyseq⟩
    cases hy
    have := hnew x hx
    rw [hxseq, hyseq] at this
    exact absurd this (Nat.lt_irrefl _)
  agree b' hb' hack := by cases (hentry b' hb').2.2.symm.trans hack

/-- A call of the mobile node. -/
theorem Inv.effect {cause : MnHome.Cause} {r : MnHome × List Bu} (hI : Inv s n)
    (hE : MnHome.Effect cause n.mn r ∧ r.1.Wf) (hnear : ∀ bu ∈ n.bus, Near s bu.seqno)
    (hfirst : ∀ seed, cause = .send seed → n.mn.entry = none →
      ∀ bu ∈ n.bus, pos s bu.seqno < pos s seed)
    (hback : ∀ ba, cause = .recv ba → ba ∈ n.ha.bas ∧
      (ba.status = basSeqnoBad → ∀ b, n.mn.entry = some b → pos s b.seq ≤ pos s ba.seqno)) :
    Inv s (n.result r) := by
  obtain ⟨hE, hwf⟩ := hE
  have hnext {b : Bulentry} (hb : n.mn.entry = some b) {x : Bu} (hx : x ∈ n.bus) :
      pos s x.seqno < pos s (b.seq + 1) := by
    obtain ⟨last, hlast, hseq⟩ := hI.entry_mem hb
    rw [pos_add_one (hseq ▸ hnear last hlast)]
    exact Nat.lt_succ_of_le (hI.le_entry hb hx)
  cases hE with
  | quiet hsame =>
    apply hI.quiet hwf
    · intro b' hb'
      obtain ⟨b, hb, hseq, hcoa, -⟩ := hsame b' hb'
      rw [hseq, hcoa]
      exact hI.entry b hb
    · intro b' hb' hack
      obtain ⟨b, hb, -, -, hwait⟩ := hsame b' hb'
      exact hI.agree b hb (hwait ▸ hack)
  | @gone m' _ hnone hbus =>
    have habs (b' : Bulentry) (hb' : m'.entry = some b') : False := by
      cases hnone.symm.trans hb'
    obtain rfl | ⟨b, bu, hb, rfl, hseq⟩ := hbus
    · exact hI.quiet hwf (fun b' hb' => (habs b' hb').elim) fun b' hb' => (habs b' hb').elim
    · exact hI.sent hwf (fun x hx => hseq ▸ hnext hb hx) fun b' hb' => (habs b' hb').elim
  | first hcause hnone hb' hseq hcoa hwait =>
    refine hI.sent hwf (fun x hx => hseq ▸ hfirst _ hcause hnone x hx) fun x hx => ?_
    cases hb'.symm.trans hx
    exact ⟨hseq, hcoa, hwait⟩
  | next hb hb' hsucc hseq hcoa hwait =>
    refine hI.sent hwf (fun x hx => hseq ▸ hsucc ▸ hnext hb hx) fun x hx => ?_
    cases hb'.symm.trans hx
    exact ⟨hseq, hcoa, hwait⟩
  | @resync _ ba b _ _ hcause hbad hb hb' hsucc hseq hcoa hwait =>
    obtain ⟨hba, hle⟩ := hback ba hcause
    have hlater (x : Bu) (hx : x ∈ n.bus) : pos s x.seqno < pos s (ba.seqno + 1) := by
      rw [pos_add_one (hI.near ba hba)]
      exact Nat.lt_succ_of_le (Nat.le_trans (hI.le_entry hb hx) (hle hbad b hb))
    refine hI.sent hwf (fun x hx => hseq ▸ hsucc ▸ hlater x hx) fun x hx => ?_
    cases hb'.symm.trans hx
    exact ⟨hseq, hcoa, hwait⟩
  | @acked _ ba b b' hcause _ hlife hb hb' hseqno hseq hcoa =>
    obtain ⟨last, hlast, hlastseq, hlastcoa⟩ := hI.entry b hb
    apply hI.quiet hwf
    · intro x hx
      cases hb'.symm.trans hx
      exact ⟨last, hlast, hlastseq.trans hseq.symm, hlastcoa.trans hcoa.symm⟩
    · intro _ _ _
      exact (hI.acked ba (hback ba hcause).1 hlife).2 ⟨last, hlast, hlastseq.trans hseqno.symm⟩

/-- Two updates with one number are the same. -/
theorem Inv.eq_of_seqno (hI : Inv s n) {x y : Bu} (hx : x ∈ n.bus.head?) (hy : y ∈ n.bus)
    (hxy : x.seqno = y.seqno) : x = y := by
  obtain ⟨rest, hbus⟩ := List.head?_eq_some_iff.mp hx
  have hsorted := hI.sorted
  rw [hbus] at hsorted hy
  rcases List.mem_cons.mp hy with rfl | hy
  · rfl
  · have := (List.pairwise_cons.mp hsorted).1 y hy
    rw [hxy] at this
    exact absurd this (Nat.lt_irrefl _)

/-- A step of the home agent. -/
theorem Inv.ha {act : Ha.Act} {ha' : Ha} (hI : Inv s n) (hnear : ∀ bu ∈ n.bus, Near s bu.seqno)
    (hok : act.Alone (· ∈ n.bus) n.ha) (hs : n.ha.step act = some ha')
    (hbound : n.Bound → ({ n with ha := ha' } : Net).Bound) : Inv s { n with ha := ha' } := by
  obtain ⟨hshape, hsends⟩ := hI.shape.step hnear hok hs
  refine ⟨hI.wf, hI.sorted, hI.entry, hshape, ?_, ?_, ?_⟩
  · intro ba hba
    exact (hsends ba hba).elim (hI.near ba) And.left
  · intro ba hba hlife
    rcases hsends ba hba with hba | ⟨-, hreg⟩
    · obtain ⟨hsent, hlast⟩ := hI.acked ba hba hlife
      exact ⟨hsent, fun h => hbound (hlast h)⟩
    · obtain ⟨bu, hbu, hseqno, hreg⟩ := hreg hlife
      refine ⟨⟨bu, hbu, hseqno⟩, ?_⟩
      rintro ⟨last, hlast, hlastseq⟩ x hx
      cases Option.mem_unique hlast hx
      rw [hI.eq_of_seqno hlast hbu (hlastseq.trans hseqno.symm)]
      exact hreg
  · intro b hb hack
    exact hbound (hI.agree b hb hack)

theorem bus_subset {act : Act} (hs : n.step act = some n') : n.bus ⊆ n'.bus := by
  cases act with
  | move coa atHome =>
    cases hs
    exact List.Subset.refl _
  | send w =>
    cases hs
    exact List.subset_append_right _ _
  | timer w =>
    cases hs
    exact List.subset_append_right _ _
  | recvBa w ba =>
    rw [step] at hs
    split at hs
    · cases hs
      exact List.subset_append_right _ _
    · cases hs
  | recvBu a bu =>
    rw [step] at hs
    split at hs
    · obtain ⟨ha, -, rfl⟩ := Option.map_eq_some_iff.mp hs
      exact List.Subset.refl _
    · cases hs
  | work i a =>
    obtain ⟨ha, -, rfl⟩ := Option.map_eq_some_iff.mp hs
    exact List.Subset.refl _
  | expire a =>
    obtain ⟨ha, -, rfl⟩ := Option.map_eq_some_iff.mp hs
    exact List.Subset.refl _

theorem Inv.step {act : Act} (hI : Inv s n) (hnear : ∀ bu ∈ n.bus, Near s bu.seqno)
    (hok : Ok s n act) (hs : n.step act = some n') : Inv s n' := by
  cases act with
  | move coa atHome =>
    cases hs
    exact ⟨⟨hI.wf.coa, hI.wf.acks, hI.wf.callback⟩, hI.sorted, hI.entry, hI.shape, hI.near,
      hI.acked, hI.agree⟩
  | send w =>
    cases hs
    apply hI.effect (MnHome.sendHomeBu_effect hI.wf hok.1) hnear
    · rintro _ ⟨⟩
      exact hok.2
    · rintro _ ⟨⟩
  | timer w =>
    cases hs
    apply hI.effect (MnHome.timer_effect hI.wf hok) hnear
    · rintro _ ⟨⟩
    · rintro _ ⟨⟩
  | recvBa w ba =>
    rw [Net.step] at hs
    split at hs
    case isFalse => cases hs
    next hba =>
    cases hs
    apply hI.effect (MnHome.recvBa_effect hI.wf hok.1 ba) hnear
    · rintro _ ⟨⟩
    · rintro _ ⟨⟩
      exact ⟨hba, hok.2⟩
  | recvBu a bu =>
    rw [Net.step] at hs
    split at hs
    case isFalse => cases hs
    next hbu =>
    obtain ⟨ha', hha, rfl⟩ := Option.map_eq_some_iff.mp hs
    have halone : (Ha.Act.recv a false bu).Alone (· ∈ n.bus) n.ha := ⟨hbu, rfl, hok⟩
    refine hI.ha hnear halone hha fun hbound last hlast => ?_
    -- no update is later than the one that is registered
    refine (hbound last hlast).recv ?_ hha
    rw [← Bool.not_eq_true, seqGt_iff_pos (hnear bu hbu) (hnear last (List.mem_of_mem_head? hlast)),
      Nat.not_lt]
    obtain ⟨rest, hbus⟩ := List.head?_eq_some_iff.mp hlast
    have hsorted := hI.sorted
    rw [hbus] at hsorted hbu
    rcases List.mem_cons.mp hbu with rfl | hbu
    · exact Nat.le_refl _
    · exact Nat.le_of_lt ((List.pairwise_cons.mp hsorted).1 bu hbu)
  | work i a =>
    obtain ⟨ha', hha, rfl⟩ := Option.map_eq_some_iff.mp hs
    have halone : (Ha.Act.work i a).Alone (· ∈ n.bus) n.ha := trivial
    refine hI.ha hnear halone hha fun hbound last hlast => ?_
    -- where the last update is registered, nobody is at work
    rw [Ha.step, (hbound last hlast).1] at hha
    cases hha
  | expire a => exact hok.elim

/-- Where it all starts: the mobile node has nothing, the home agent perhaps an old binding. -/
structure Start (s : UInt16) (n : Net) : Prop where
  bule : n.mn.bule = none
  bus : n.bus = []
  bas : n.ha.bas = []
  workers : n.ha.workers = []
  chain : n.ha.chain = [] ∨
    ∃ id e, n.ha.chain = [(id, e)] ∧ e.type = .homereg ∧ Near s e.seqno

theorem Start.inv (hn : Start s n) : Inv s n := by
  have hentry : ∀ b, n.mn.entry ≠ some b := by
    intro b hb
    rw [MnHome.entry, hn.bule] at hb
    cases hb
  refine ⟨⟨?_, ?_, ?_⟩, ?_, ?_, ?_, ?_, ?_, ?_⟩
  · exact fun b hb => absurd hb (hentry b)
  · exact fun b hb => absurd hb (hentry b)
  · intro b hb
    cases hn.bule.symm.trans hb
  · rw [hn.bus]
    exact List.Pairwise.nil
  · exact fun b hb => absurd hb (hentry b)
  · rw [hn.workers]
    obtain hc | ⟨id, e, hc, htype, hnear⟩ := hn.chain
    · rw [hc]
      exact .idle
    · rw [hc]
      exact .bound htype hnear
  · rw [hn.bas]
    exact List.forall_mem_nil _
  · rw [hn.bas]
    exact List.forall_mem_nil _
  · exact fun b hb => absurd hb (hentry b)

/-- **Agreement.** Where the mobile node takes itself for registered, it is. -/
theorem registered_agree {t : Net} {as : List Act} (hn : Start s n)
    (hm : Meets step (Ok s) n as) (hr : run step n as = some t)
    (hnear : ∀ bu ∈ t.bus, Near s bu.seqno) (hb : t.mn.entry = some b)
    (hack : b.waitAck = false) :
    ∃ id e, t.ha.chain = [(id, e)] ∧ e.type = .homereg ∧ e.seqno = b.seq ∧ e.coa = b.coa := by
  have hI : Inv s t := by
    refine run_inv (I := fun n => (∀ bu ∈ n.bus, Near s bu.seqno) → Inv s n) ?_ as
      (fun _ => hn.inv) hm hr hnear
    intro n act n' hI hok hs hnear'
    have hnear : ∀ bu ∈ n.bus, Near s bu.seqno := fun bu hbu => hnear' bu (bus_subset hs hbu)
    exact (hI hnear).step hnear hok hs
  obtain ⟨last, hlast, hseq, hcoa⟩ := hI.entry b hb
  obtain ⟨-, id, e, hc, htype, hseqno, hecoa⟩ := hI.agree b hb hack last hlast
  exact ⟨id, e, hc, htype, hseqno.trans hseq, hecoa.trans hcoa⟩

section Example

/-- A mobile node with the home address 2, away from home at 3, and a home agent at 1. -/
def away : Net :=
  { cf := ⟨⟨1, 0⟩, ⟨1, 0⟩, 262140, false⟩
    mn := { hoa := 2, primaryCoa := 3, atHome := false, useDhaad := false, extraFlags := 0 }
    ha := { our := 1, hoa := 2 } }

def calm : World :=
  { now := ⟨10, 0⟩, coaLft := 1000, hoaLft := 1000, seed := 7, works := true, memory := true }

/-- The update with the given number, from 3, and its acknowledgement. -/
def buOf (seqno : UInt16) : Bu :=
  { seqno := seqno, flags := buHome ||| buAck, coa := 3, lft := ⟨1000, 0⟩ }

def baOf (seqno : UInt16) : Ba := { status := basAccepted, seqno := seqno, lifetime := ⟨1000, 0⟩ }

/-- The first registration: the worker inserts, waits, completes, and answers. -/
def registering : List Act :=
  [.send calm, .recvBu Ha.willing (buOf 7), .work 0 Ha.willing, .work 0 Ha.willing,
    .work 0 Ha.willing, .work 0 Ha.willing, .recvBa calm (baOf 7)]

end Example

theorem registered_agree_first :
    let t := (run step away registering).getD away
    ∃ b, t.mn.entry = some b ∧ b.coa = 3 ∧
      ∃ id e, t.ha.chain = [(id, e)] ∧ e.type = .homereg ∧ e.seqno = b.seq ∧ e.coa = b.coa := by
  have hr : run step away registering = some ((run step away registering).getD away) := by decide
  refine ⟨{ coa := 3, seq := 7, flags := buHome ||| buAck, lastCoa := 3, lastsent := ⟨10, 0⟩
            lifetime := ⟨1000, 0⟩, delay := ⟨950, 0⟩, hardExpire := ⟨1010, 0⟩
            callback := .buRefresh }, by decide, rfl, ?_⟩
  exact registered_agree (s := 7) ⟨rfl, rfl, rfl, rfl, .inl rfl⟩ (by decide) hr (by decide)
    (by decide) rfl

/-- **A late refusal.** The mobile node is told to go on from a number it has long passed, and an
acknowledgement of the update that had the next number then counts for the new one. It does not
matter whether that one is ever sent. -/
theorem stale_disagree {w : World} {late old : Ba} {id : Nat} {e : Bcentry} (hwf : n.mn.Wf)
    (hb : n.mn.entry = some b) (hwait : b.waitAck = true ∨ w.memory = true)
    (hmr : b.flags &&& buMr = 0 ∨ old.mr = true) (hlate : late ∈ n.ha.bas)
    (hbad : late.status = basSeqnoBad) (hold : old ∈ n.ha.bas)
    (hgood : old.status < basUnspecified) (hlife : tsisset old.lifetime = true)
    (hseqno : old.seqno = late.seqno + 1) (hc : n.ha.chain = [(id, e)]) (hcoa : e.coa ≠ b.coa) :
    ∃ t b', run step n [.recvBa w late, .recvBa w old] = some t ∧
      t.mn.homeRegStatus = .valid ∧ t.mn.entry = some b' ∧ b'.waitAck = false ∧
      t.ha.chain = [(id, e)] ∧ e.coa ≠ b'.coa := by
  obtain ⟨hbule, htype⟩ := MnHome.entry_eq_some_iff.mp hb
  let b₁ : Bulentry := { b with
    consecutiveResends := 0, lastsent := w.now, seq := late.seqno + 1, waitAck := true
    lifetime := (n.mn.getHomeLifetime n.cf w).1, callback := .buResend, delay := n.cf.reReg }
  let m₁ : MnHome := { n.mn with bule := some b₁ }
  -- the number is taken back
  have hfirst : (n.mn.recvBa n.cf w late).1 = m₁ := by
    unfold MnHome.recvBa
    rw [hbule]
    dsimp only
    rw [if_neg (not_not.mpr htype), if_neg (fun h => h.2 hbad), if_pos hbad]
    dsimp only
    rw [MnHome.sendBuMsg_fst]
    · exact hwf.acks b hb
    · exact hwait
  -- and the old acknowledgement fits
  obtain ⟨b', hsecond, htype', hdone, hcoa'⟩ :=
    @MnHome.recvBa_accepted n.cf w m₁ b₁ old rfl htype hseqno.symm hgood rfl hmr hlife
  let n₁ : Net := n.result (n.mn.recvBa n.cf w late)
  have hs₁ : n.step (.recvBa w late) = some n₁ := if_pos hlate
  have hs₂ : n₁.step (.recvBa w old) = some (n₁.result (n₁.mn.recvBa n.cf w old)) := if_pos hold
  have hmn : n₁.mn = m₁ := hfirst
  rw [hmn, hsecond] at hs₂
  refine ⟨n₁.result ({ m₁ with homeRegStatus := .valid, bule := some b' }, []), b', ?_, rfl,
    MnHome.entry_eq_some_iff.mpr ⟨rfl, htype'⟩, hdone, hc, ?_⟩
  · rw [run, hs₁, Option.bind_some, run, hs₂]
    rfl
  · rw [hcoa']
    exact hcoa

section Example

/-- An update comes in twice, the next one is acknowledged, and the mobile node moves on before
it has got any of that. -/
def moving : List Act :=
  registering ++ [.recvBu Ha.willing (buOf 7), .timer calm, .recvBu Ha.willing (buOf 8),
    .work 0 Ha.willing, .work 0 Ha.willing, .move 4 false, .send calm]

end Example

theorem stale_disagree_moving :
    ∃ as t b id e, run step away as = some t ∧ t.mn.homeRegStatus = .valid ∧
      t.mn.entry = some b ∧ b.waitAck = false ∧ t.ha.chain = [(id, e)] ∧ e.coa ≠ b.coa := by
  let n := (run step away moving).getD away
  have hr : run step away moving = some n := by decide
  let b : Bulentry :=
    { coa := 4, seq := 9, flags := buHome ||| buAck, lastCoa := 4, lastsent := ⟨10, 0⟩
      lifetime := ⟨1000, 0⟩, delay := ⟨1, 0⟩, hardExpire := ⟨1010, 0⟩, waitAck := true
      callback := .buResend }
  have hb : n.mn.bule = some b := by decide
  let e : Bcentry :=
    { ourAddr := 1, peerAddr := 2, coa := 3, lifetime := ⟨1000, 0⟩, seqno := 8
      flags := buHome ||| buAck, type := .homereg }
  have hlate : baErr basSeqnoBad 7 ∈ n.ha.bas := by decide
  have hold : baOf 8 ∈ n.ha.bas := by decide
  have hc : n.ha.chain = [(0, e)] := by decide
  have hwf : n.mn.Wf := MnHome.wf_of_entry hb rfl rfl (by unfold Acks; decide)
  obtain ⟨t, b', ht, hvalid, hb', hwait, hc, hcoa⟩ := stale_disagree (w := calm) hwf
    (MnHome.entry_eq_some_iff.mpr ⟨hb, rfl⟩) (.inl rfl) (.inl (by decide)) hlate rfl hold
    (by decide) rfl rfl hc (by decide)
  refine ⟨moving ++ [.recvBa calm (baErr basSeqnoBad 7), .recvBa calm (baOf 8)], t, b', 0, e, ?_,
    hvalid, hb', hwait, hc, hcoa⟩
  rw [run_append, hr]
  exact ht

end Net

end Manhattan.Umip
