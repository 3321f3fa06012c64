import Mathlib.Data.List.Nodup
import Manhattan.Lib.Run
import Manhattan.Mih.SocketHandler

/-!
# The MIH user's list of links (`_mihlnks`)

Three events keep the list of the links that are up, with the name of each link's
interface: the answer to the capability discovery, which names the links there are,
`link_up` and `link_down`. The name comes from `mih_get_ifname`, which looks for the
link's hardware address in the output of `ifconfig` and returns the empty string when
it is not there (yet).

The three do not check the same things. `link_up` leaves a link alone that is on the
list, also when it is there without a name; the discovery drops a link without a name,
and adds one with a name whether it is on the list or not; `link_down` takes one entry
off.

Mirroring notes:
- Link identifiers (`link_tuple_id`) are compared only. `Naming` is the name each link
  has; the events say of each link whether `mih_get_ifname` finds it at that moment.
- `last` is the event that led to the state.
- The messages to registered applications are not modelled.

`links_faithful` is the condition under which the list says what is up.
-/

namespace Manhattan.Mih.LinkTable

open Manhattan.Lib

/-- The interface name of each link; no name is empty. -/
abbrev Naming (L : Type) := L → { name : String // name ≠ "" }

/-- `link_info` -/
structure LinkInfo (L : Type) where
  lid : L
  ifname : String
  deriving DecidableEq, Repr

/-- A link, or another kind of network (`nettype.link.which() != 1`), and whether
`mih_get_ifname` finds its name. -/
structure NetTypeAddr (L : Type) where
  link : Option L
  found : Bool
  deriving DecidableEq, Repr

inductive Event (L : Type) where
  /-- `capability_discover_confirm`, with its two optional lists. -/
  | discover (ntal : Option (List (NetTypeAddr L))) (evt : Bool)
  | linkUp (lid : L) (found : Bool)
  | linkDown (lid : L)
  /-- Another indication, or an error. -/
  | other
  deriving DecidableEq, Repr

structure State (L : Type) where
  lnks : List (LinkInfo L)
  last : Option (Event L)

def init (L : Type) : State L := ⟨[], none⟩

section

variable {L : Type} [DecidableEq L]

/-- What `mih_get_ifname` returns. -/
def mihGetIfname (name : Naming L) (lid : L) (found : Bool) : String :=
  if found then (name lid).val else ""

/-- One round of the loop of `capability_discover_confirm`. -/
def discoverLink (name : Naming L) (lnks : List (LinkInfo L)) (item : NetTypeAddr L) :
    List (LinkInfo L) :=
  match item.link with
  | none => lnks
  | some lid =>
    let ifname := mihGetIfname name lid item.found
    if ifname ≠ "" then lnks ++ [⟨lid, ifname⟩] else lnks

/-- `capability_discover_confirm` -/
def capabilityDiscoverConfirm (name : Naming L) (ntal : Option (List (NetTypeAddr L)))
    (evt : Bool) (lnks : List (LinkInfo L)) : List (LinkInfo L) :=
  match ntal with
  | some items => if evt then items.foldl (discoverLink name) lnks else lnks
  | none => lnks

/-- The `link_up` case of `event_handler`. -/
def linkUp (name : Naming L) (lid : L) (found : Bool) (lnks : List (LinkInfo L)) :
    List (LinkInfo L) :=
  if lnks.any fun e => e.lid = lid then lnks
  else lnks ++ [⟨lid, mihGetIfname name lid found⟩]

/-- The `link_down` case of `event_handler`: the first entry of the link is erased. -/
def linkDown (lid : L) (lnks : List (LinkInfo L)) : List (LinkInfo L) :=
  lnks.eraseP fun e => e.lid = lid

def step (name : Naming L) (s : State L) (event : Event L) : Option (State L) :=
  some ⟨match event with
    | .discover ntal evt => capabilityDiscoverConfirm name ntal evt s.lnks
    | .linkUp lid found => linkUp name lid found s.lnks
    | .linkDown lid => linkDown lid s.lnks
    | .other => s.lnks, some event⟩

def State.names (s : State L) : List String := s.lnks.map (·.ifname)

/-- What the last event promises about `exist_link`. -/
def Told (name : Naming L) (s : State L) : Event L → Prop
  | .linkUp lid true => existLink s.names (name lid).val = true
  | .linkDown lid => (∀ lid', lid' ≠ lid → (name lid').val ≠ (name lid).val) →
      existLink s.names (name lid).val = false
  | _ => True

/-- **The list is faithful**: no link is on it twice, a link that has come up is found
under its name, and one that has gone down is not, if the name is its own. -/
def Faithful (name : Naming L) (s : State L) : Prop :=
  (s.lnks.map (·.lid)).Nodup ∧ ∀ event ∈ s.last, Told name s event

/-- The links a discovery adds. -/
def discovered (ntal : Option (List (NetTypeAddr L))) (evt : Bool) : List L :=
  if evt then (ntal.getD []).filterMap fun item => if item.found then item.link else none else []

/-- A discovery names no link twice and none that is on the list, and a link that comes
up with a name is not on the list without one. -/
def ok (s : State L) : Event L → Prop
  | .discover ntal evt => (discovered ntal evt).Nodup ∧
      ∀ lid ∈ discovered ntal evt, lid ∉ s.lnks.map (·.lid)
  | .linkUp lid true => ⟨lid, ""⟩ ∉ s.lnks
  | _ => True

instance decOk (s : State L) : (event : Event L) → Decidable (ok s event)
  | .discover ntal evt => inferInstanceAs (Decidable ((discovered ntal evt).Nodup ∧
      ∀ lid ∈ discovered ntal evt, lid ∉ s.lnks.map (·.lid)))
  | .linkUp lid true => inferInstanceAs (Decidable (⟨lid, ""⟩ ∉ s.lnks))
  | .linkUp _ false | .linkDown _ | .other => isTrue trivial

end

/-! ## The invariant -/

section

variable {L : Type}

/-- An entry has its link's name, or none. -/
structure Inv (name : Naming L) (lnks : List (LinkInfo L)) : Prop where
  nodup : (lnks.map (·.lid)).Nodup
  named : ∀ e ∈ lnks, e.ifname = "" ∨ e.ifname = (name e.lid).val

theorem push_inv {name : Naming L} {lnks : List (LinkInfo L)} {lid : L} (h : Inv name lnks)
    (hnew : lid ∉ lnks.map (·.lid)) (found : Bool) :
    Inv name (lnks ++ [⟨lid, mihGetIfname name lid found⟩]) := by
  constructor
  · rw [List.map_append]
    refine List.Nodup.append h.nodup (List.nodup_singleton _) ?_
    intro lid' hold hlid
    rw [List.mem_singleton.mp hlid] at hold
    exact hnew hold
  · intro e he
    rcases List.mem_append.mp he with hold | he
    · exact h.named e hold
    · rw [List.mem_singleton.mp he]
      cases found with
      | true => exact Or.inr rfl
      | false => exact Or.inl rfl

/-- A discovery adds the links it has found names for, in their order. -/
theorem discover_eq (name : Naming L) (items : List (NetTypeAddr L)) (lnks : List (LinkInfo L)) :
    items.foldl (discoverLink name) lnks =
      lnks ++ (items.filterMap fun item => if item.found then item.link else none).map
        fun lid => ⟨lid, (name lid).val⟩ := by
  induction items generalizing lnks with
  | nil => rw [List.filterMap_nil, List.map_nil, List.append_nil]; rfl
  | cons item items ih =>
    rw [List.foldl_cons, ih, List.filterMap_cons]
    unfold discoverLink mihGetIfname
    cases item with
    | mk link found =>
      cases link with
      | none => cases found <;> rfl
      | some lid =>
        cases found with
        | false => rfl
        | true =>
          have hne : (name lid).val ≠ "" := (name lid).property
          simp only [if_true, if_pos hne, List.append_assoc, List.map_cons, List.singleton_append]

theorem discover_inv {name : Naming L} {lnks : List (LinkInfo L)} (h : Inv name lnks)
    {lids : List L} (hnodup : lids.Nodup) (hnew : ∀ lid ∈ lids, lid ∉ lnks.map (·.lid)) :
    Inv name (lnks ++ lids.map fun lid => ⟨lid, (name lid).val⟩) := by
  constructor
  · rw [List.map_append, List.map_map]
    refine List.Nodup.append h.nodup ?_ ?_
    · have : (fun x : LinkInfo L => x.lid) ∘ (fun lid => ⟨lid, (name lid).val⟩) = id := rfl
      rw [this, List.map_id]
      exact hnodup
    · intro lid hold hlid
      obtain ⟨lid', hmem, rfl⟩ := List.mem_map.mp hlid
      exact hnew lid' hmem hold
  · intro e he
    rcases List.mem_append.mp he with hold | he
    · exact h.named e hold
    · obtain ⟨lid, -, rfl⟩ := List.mem_map.mp he
      exact Or.inr rfl

variable [DecidableEq L]

theorem not_mem_linkDown {lnks : List (LinkInfo L)} (h : (lnks.map (·.lid)).Nodup) (lid : L) :
    lid ∉ (linkDown lid lnks).map (·.lid) := by
  unfold linkDown
  induction lnks with
  | nil => exact List.not_mem_nil
  | cons e lnks ih =>
    rw [List.map_cons, List.nodup_cons] at h
    by_cases he : e.lid = lid
    · rw [List.eraseP_cons_of_pos (by simpa using he), ← he]
      exact h.1
    · rw [List.eraseP_cons_of_neg (by simpa using he), List.map_cons, List.mem_cons]
      rintro (e' | hmem)
      · exact he e'.symm
      · exact ih h.2 hmem

/-- The link is found under its name: its entry has it, or there is none yet. -/
theorem linkUp_told {name : Naming L} {lnks : List (LinkInfo L)} {lid : L} (h : Inv name lnks)
    (hnamed : ⟨lid, ""⟩ ∉ lnks) :
    (name lid).val ∈ (linkUp name lid true lnks).map (·.ifname) := by
  unfold linkUp
  split
  next hany =>
    obtain ⟨e, he, hlid⟩ := List.any_eq_true.mp hany
    have hlid' : e.lid = lid := of_decide_eq_true hlid
    refine List.mem_map.mpr ⟨e, he, ?_⟩
    rcases h.named e he with hempty | hname
    · cases e with
      | mk lid' ifname =>
        cases hempty
        cases hlid'
        exact absurd he hnamed
    · rw [hname, hlid']
  next =>
    refine List.mem_map.mpr ⟨_, List.mem_append_right _ (List.mem_singleton_self _), ?_⟩
    rfl

/-- What is left on the list has another link's name or none. -/
theorem linkDown_told {name : Naming L} {lnks : List (LinkInfo L)} {lid : L} (h : Inv name lnks)
    (hown : ∀ lid', lid' ≠ lid → (name lid').val ≠ (name lid).val) :
    (name lid).val ∉ (linkDown lid lnks).map (·.ifname) := by
  intro hmem
  obtain ⟨e, he, hname⟩ := List.mem_map.mp hmem
  have hother : e.lid ≠ lid := by
    intro hlid
    exact not_mem_linkDown h.nodup lid (List.mem_map.mpr ⟨e, he, hlid⟩)
  rcases h.named e (List.mem_of_mem_eraseP he) with hempty | hself
  · exact (name lid).property (hname.symm.trans hempty)
  · exact hown e.lid hother (hself.symm.trans hname)

theorem step_inv {name : Naming L} {s s' : State L} {event : Event L} (h : Inv name s.lnks)
    (hok : ok s event) (hs : step name s event = some s') :
    Inv name s'.lnks ∧ ∀ event ∈ s'.last, Told name s' event := by
  cases hs
  cases event with
  | discover ntal evt =>
    refine ⟨?_, fun event he => by cases he; trivial⟩
    unfold capabilityDiscoverConfirm
    unfold ok discovered at hok
    cases ntal with
    | none => exact h
    | some items =>
      cases evt with
      | false => exact h
      | true =>
        show Inv name (items.foldl (discoverLink name) s.lnks)
        rw [discover_eq]
        exact discover_inv h hok.1 hok.2
  | linkUp lid found =>
    refine ⟨?_, fun event he => ?_⟩
    · show Inv name (linkUp name lid found s.lnks)
      unfold linkUp
      split
      next => exact h
      next hany =>
        refine push_inv h (fun hmem => hany ?_) found
        obtain ⟨e, he, hlid⟩ := List.mem_map.mp hmem
        exact List.any_eq_true.mpr ⟨e, he, decide_eq_true hlid⟩
    · cases he
      cases found with
      | false => trivial
      | true => exact (existLink_iff _ _).mpr (linkUp_told h hok)
  | linkDown lid =>
    refine ⟨?_, fun event he => ?_⟩
    · exact ⟨h.nodup.sublist (List.Sublist.map _ List.eraseP_sublist),
        fun e he => h.named e (List.mem_of_mem_eraseP he)⟩
    · cases he
      intro hown
      refine Bool.eq_false_iff.mpr fun hex => ?_
      exact linkDown_told h hown ((existLink_iff _ _).mp hex)
  | other => exact ⟨h, fun event he => by cases he; trivial⟩

/-- **The list of links is faithful** along every sequence of discoveries and link
events in which a discovery names no link twice and none that is on the list, and no
link comes up with a name that is on the list without one. -/
theorem links_faithful (name : Naming L) (events : List (Event L)) {s : State L}
    (hok : Meets (step name) ok (init L) events) (hr : run (step name) (init L) events = some s) :
    Faithful name s := by
  have hinit : Inv name (init L).lnks ∧ ∀ event ∈ (init L).last, Told name (init L) event :=
    ⟨⟨List.nodup_nil, fun e he => nomatch he⟩, fun event he => nomatch he⟩
  have h := run_inv (I := fun s => Inv name s.lnks ∧ ∀ event ∈ s.last, Told name s event)
    (fun hI => step_inv hI.1) events hinit hok hr
  exact ⟨h.1.nodup, h.2⟩

end

/-! ## The three handlers side by side -/

/-- Links by number, `eth0`, `wlan0` and `ppp0`. -/
def threeLinks : Naming Nat
  | 0 => ⟨"eth0", by decide⟩
  | 1 => ⟨"wlan0", by decide⟩
  | _ => ⟨"ppp0", by decide⟩

/-- Two links are discovered, one of them by name; that one goes down and comes up
again. -/
def plainEvents : List (Event Nat) :=
  [.discover (some [⟨some 0, true⟩, ⟨some 1, false⟩, ⟨none, true⟩]) true, .linkUp 1 true,
   .linkUp 0 true, .linkDown 0, .linkUp 0 true, .linkDown 1]

theorem links_faithful_plainEvents :
    ∃ s, run (step threeLinks) (init Nat) plainEvents = some s ∧ s.names = ["eth0"] ∧
      Faithful threeLinks s :=
  ⟨_, rfl, rfl, links_faithful threeLinks plainEvents (by decide) rfl⟩

/-- `eth0` comes up before the answer to the discovery names it, and goes down. -/
def upBeforeDiscovery : List (Event Nat) :=
  [.linkUp 0 true, .discover (some [⟨some 0, true⟩]) true, .linkDown 0]

/-- `wlan0` comes up before `ifconfig` knows it, and once more when it does. -/
def upBeforeName : List (Event Nat) := [.linkUp 1 false, .linkUp 1 true]

/-- **The list is wrong**: a link that was discovered after it had come up is on it
twice, and still there when it has gone down; a link that came up without a name never
gets one. -/
theorem discovered_link_is_listed_twice :
    (∃ s, run (step threeLinks) (init Nat) (upBeforeDiscovery.take 2) = some s ∧
      s.names = ["eth0", "eth0"] ∧ ¬ Faithful threeLinks s) ∧
    (∃ s, run (step threeLinks) (init Nat) upBeforeDiscovery = some s ∧
      existLink s.names "eth0" = true) ∧
    ∃ s, run (step threeLinks) (init Nat) upBeforeName = some s ∧
      existLink s.names "wlan0" = false ∧ ¬ Faithful threeLinks s := by
  refine ⟨⟨_, rfl, rfl, ?_⟩, ⟨_, rfl, by decide⟩, _, rfl, by decide, ?_⟩
  · intro h
    exact absurd h.1 (by decide)
  · intro h
    exact absurd (h.2 _ rfl) (by unfold Told; decide)

end Manhattan.Mih.LinkTable
