import Manhattan.Umip.Movement

/-!
# Changing the preferred interface (`pref_change` of `movement.c`)

The network manager names the interface that is to be used. `pref_change` goes through
the list once: it gives preference 1 to the interfaces with that name and 2 to all
others, and on the way it remembers the interface that was not preferred before and the
one that was. Without the former it returns -1, which stands for "nothing changed", and
the terminal says `Already on`.

By then the preferences are overwritten. A name that no interface has leaves every
interface with preference 2, and no interface with a preference above 1 raises movement
events. `prefChange_honest_iff` is the exact condition under which the return value can be
believed.

Mirroring notes:
- `Movement` has the outcome (`prefChange`); here is the loop with its variables, and
  `prefChangeLoop_eq` says that they agree.
- The routes that are changed for `newif` and `oldif` and the solicitation of a router
  write no preference and are left out.
-/

namespace Manhattan.Umip

/-! ## The loop -/

/-- `newif` and `oldif`. -/
structure Found where
  newif : Option Iface
  oldif : Option Iface
  deriving DecidableEq, Repr

/-- One round: the interface with its new preference, and what is remembered. -/
def prefRound (ifname : String) (found : Found) (iface : Iface) : Iface × Found :=
  if iface.name = ifname then
    ({ iface with preference := 1 },
      if iface.preference > 1 then { found with newif := some iface } else found)
  else
    ({ iface with preference := 2 },
      if iface.preference = 1 then { found with oldif := some iface } else found)

/-- The loop over `ifaces`. -/
def prefLoop (ifname : String) : Found → List Iface → List Iface × Found
  | found, [] => ([], found)
  | found, iface :: ifaces =>
    let (iface, found) := prefRound ifname found iface
    let (ifaces, found) := prefLoop ifname found ifaces
    (iface :: ifaces, found)

/-- `pref_change`, with the loop. -/
def prefChangeLoop (ifname : String) (ifaces : List Iface) : Int × List Iface :=
  let (ifaces, found) := prefLoop ifname ⟨none, none⟩ ifaces
  (if found.newif.isSome then 0 else -1, ifaces)

/-- The interface asked for, while it is not preferred. -/
def IsNew (ifname : String) (iface : Iface) : Prop :=
  iface.name = ifname ∧ 1 < iface.preference

/-- The preference an interface has after the loop. -/
def target (ifname : String) (iface : Iface) : Nat := if iface.name = ifname then 1 else 2

theorem prefRound_fst (ifname : String) (found : Found) (iface : Iface) :
    (prefRound ifname found iface).1 = { iface with preference := target ifname iface } := by
  unfold prefRound target
  split <;> rfl

theorem prefRound_newif (ifname : String) (found : Found) (iface : Iface) :
    (prefRound ifname found iface).2.newif.isSome = true ↔
      found.newif.isSome = true ∨ IsNew ifname iface := by
  unfold prefRound IsNew
  by_cases hname : iface.name = ifname
  · rw [if_pos hname]
    by_cases hpref : 1 < iface.preference
    · rw [if_pos hpref]
      exact iff_of_true rfl (.inr ⟨hname, hpref⟩)
    · rw [if_neg hpref]
      exact (or_iff_left fun h => hpref h.2).symm
  · rw [if_neg hname]
    have hkept : (if iface.preference = 1 then { found with oldif := some iface }
        else found).newif = found.newif := by
      split <;> rfl
    rw [hkept]
    exact (or_iff_left fun h => hname h.1).symm

/-- From any `newif` and `oldif` on. -/
theorem prefLoop_spec (ifname : String) (ifaces : List Iface) (found : Found) :
    (prefLoop ifname found ifaces).1 =
        ifaces.map (fun iface => { iface with preference := target ifname iface }) ∧
      ((prefLoop ifname found ifaces).2.newif.isSome = true ↔
        found.newif.isSome = true ∨ ∃ iface ∈ ifaces, IsNew ifname iface) := by
  induction ifaces generalizing found with
  | nil =>
    refine ⟨rfl, (or_iff_left ?_).symm⟩
    intro h
    obtain ⟨iface, hmem, -⟩ := h
    cases hmem
  | cons iface ifaces ih =>
    obtain ⟨hlist, hnew⟩ := ih (prefRound ifname found iface).2
    constructor
    · show (prefRound ifname found iface).1 ::
        (prefLoop ifname (prefRound ifname found iface).2 ifaces).1 = _
      rw [prefRound_fst, hlist]
      rfl
    · show (prefLoop ifname (prefRound ifname found iface).2 ifaces).2.newif.isSome = true ↔ _
      rw [hnew, prefRound_newif, List.exists_mem_cons_iff, or_assoc]

/-- The two models of `pref_change` agree. -/
theorem prefChangeLoop_eq (ifname : String) (ifaces : List Iface) :
    prefChangeLoop ifname ifaces = prefChange ifname ifaces := by
  obtain ⟨hlist, hnew⟩ := prefLoop_spec ifname ifaces ⟨none, none⟩
  have hany : (prefLoop ifname ⟨none, none⟩ ifaces).2.newif.isSome =
      ifaces.any fun iface => iface.name = ifname && iface.preference > 1 := by
    rw [Bool.eq_iff_iff, hnew, List.any_eq_true]
    simp [IsNew]
  show (if (prefLoop ifname ⟨none, none⟩ ifaces).2.newif.isSome then (0 : Int) else -1,
    (prefLoop ifname ⟨none, none⟩ ifaces).1) = prefChange ifname ifaces
  rw [hlist, hany]
  rfl

/-! ## What the return value says -/

/-- The return value can be believed: -1 and no preference has changed, or 0 and the
interfaces with the name are the preferred ones, one of which was not before. -/
structure Honest (ifname : String) (before : List Iface) (r : Int) (after : List Iface) :
    Prop where
  failed : r = -1 → after.map Iface.preference = before.map Iface.preference
  changed : r = 0 →
    (∀ iface ∈ after, (iface.name = ifname → iface.preference = 1) ∧
      (iface.name ≠ ifname → 1 < iface.preference)) ∧
    ∃ iface ∈ before, IsNew ifname iface

section

variable {ifname : String} {ifaces : List Iface}

theorem prefChangeLoop_snd :
    (prefChangeLoop ifname ifaces).2 =
      ifaces.map fun iface => { iface with preference := target ifname iface } :=
  (prefLoop_spec ifname ifaces ⟨none, none⟩).1

theorem prefChangeLoop_fst :
    ((prefChangeLoop ifname ifaces).1 = 0 ∧ ∃ iface ∈ ifaces, IsNew ifname iface) ∨
      ((prefChangeLoop ifname ifaces).1 = -1 ∧ ¬∃ iface ∈ ifaces, IsNew ifname iface) := by
  have hnew := (prefLoop_spec ifname ifaces ⟨none, none⟩).2
  show ((if (prefLoop ifname ⟨none, none⟩ ifaces).2.newif.isSome then (0 : Int) else -1) = 0 ∧ _) ∨
    ((if (prefLoop ifname ⟨none, none⟩ ifaces).2.newif.isSome then (0 : Int) else -1) = -1 ∧ _)
  by_cases h : ∃ iface ∈ ifaces, IsNew ifname iface
  · rw [if_pos (hnew.mpr (.inr h))]
    exact .inl ⟨rfl, h⟩
  · have hnone : ¬(prefLoop ifname ⟨none, none⟩ ifaces).2.newif.isSome = true :=
      fun hsome => (hnew.mp hsome).elim nofun h
    rw [if_neg hnone]
    exact .inr ⟨rfl, h⟩

/-- Whatever is returned, the loop has been through the list. -/
theorem preference_after {iface : Iface} (h : iface ∈ (prefChangeLoop ifname ifaces).2) :
    iface.preference = if iface.name = ifname then 1 else 2 := by
  rw [prefChangeLoop_snd, List.mem_map] at h
  obtain ⟨old, -, rfl⟩ := h
  rfl

theorem preferences_kept_iff :
    (prefChangeLoop ifname ifaces).2.map Iface.preference = ifaces.map Iface.preference ↔
      ∀ iface ∈ ifaces, iface.preference = if iface.name = ifname then 1 else 2 := by
  rw [prefChangeLoop_snd, List.map_map, List.map_inj_left]
  exact forall₂_congr fun iface _ => eq_comm

end

/-- **What `pref_change` reports is true** exactly if some interface with the name was not
preferred before, or the preferences are already the ones it sets. -/
theorem prefChange_honest_iff (ifname : String) (ifaces : List Iface) :
    Honest ifname ifaces (prefChangeLoop ifname ifaces).1 (prefChangeLoop ifname ifaces).2 ↔
      (∃ iface ∈ ifaces, IsNew ifname iface) ∨
        ∀ iface ∈ ifaces, iface.preference = if iface.name = ifname then 1 else 2 := by
  obtain ⟨hr, hnew⟩ | ⟨hr, hnone⟩ := @prefChangeLoop_fst ifname ifaces
  · refine iff_of_true ⟨?_, ?_⟩ (.inl hnew)
    · intro hminus
      rw [hr] at hminus
      cases hminus
    · intro _
      refine ⟨fun iface hmem => ?_, hnew⟩
      rw [preference_after hmem]
      refine ⟨fun hname => if_pos hname, fun hname => ?_⟩
      rw [if_neg hname]
      decide
  · rw [or_iff_right hnone, ← preferences_kept_iff]
    constructor
    · intro h
      exact h.failed hr
    · intro hkept
      refine ⟨fun _ => hkept, fun hzero => ?_⟩
      rw [hr] at hzero
      cases hzero

/-- A name that is not on the list: `Already on`, and `eth0` is not preferred any more. -/
theorem prefChange_unknown :
    (prefChangeLoop "eth1" [eth0, wlan0]).1 = -1 ∧
      [eth0, wlan0].map Iface.preference = [1, 2] ∧
      (prefChangeLoop "eth1" [eth0, wlan0]).2.map Iface.preference = [2, 2] := by
  decide

end Manhattan.Umip
