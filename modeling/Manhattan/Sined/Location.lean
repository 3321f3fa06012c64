import Manhattan.Lib.Text
import Manhattan.Sined.Pe

/-!
# The location manager (`sined/src/locmgr.c`)

A line typed at the terminal is the new location, unless it is the command `l`. It passes
through three arrays before a rule sees it: the buffer of `getline`, where it is cut at its
line feed, the static `location` of 16 characters, into which `strncpy` copies it, and a
local array of `evaluate`, into which `locmgr_get_location` copies that one with `strcpy`.

The static array always holds a string of at most 15 characters, so `strcpy` stays within
the 16 of `evaluate`. The rule's location comes from the policy file and has any length: a
location of more than 15 characters does not match itself, and matches its first 15.

Mirroring notes:
- Characters are bytes; a typed line holds no NUL.
- `getline` fills the buffer of the line before, which is kept after a command `l`.
-/

namespace Manhattan.Sined

open Manhattan.Lib

/-- `LOC_BUF_SIZE` -/
def locBufSize : Nat := 16

/-- The static array: 16 characters, one of them NUL. -/
structure LocBuf where
  array : Text
  length_eq : array.length = locBufSize
  terminated : nul ∈ array

/-- The location manager: `location`, the buffer `loc` and `need_evaluation`. -/
structure Locmgr where
  location : LocBuf
  loc : Text
  needEvaluation : Bool

/-- `strncpy(location, loc, LOC_BUF_SIZE); location[LOC_BUF_SIZE - 1] = '\0';` -/
def LocBuf.copy (loc : Text) (location : LocBuf) : LocBuf where
  array := (strncpy loc locBufSize location.array).set (locBufSize - 1) nul
  length_eq := by
    rw [List.length_set, strncpy_length (Nat.le_of_eq location.length_eq.symm), location.length_eq]
  terminated := by
    refine List.mem_set ?_ nul
    rw [strncpy_length (Nat.le_of_eq location.length_eq.symm), location.length_eq]
    decide

/-- `init_location_manager` -/
def Locmgr.init : Locmgr where
  location := ⟨store "columbia".toList (List.replicate locBufSize nul), by decide, by decide⟩
  loc := []
  needEvaluation := false

/-- `for (i = 0; loc[i] != '\n' && loc[i] != '\0'; ++i); loc[i] = '\0';` -/
def cutLine (loc : Text) : Text := loc.set (loc.findIdx fun c => c = '\n' || c = nul) nul

/-- One line in `locmgr_main_loop`. -/
def Locmgr.line (input : Text) (s : Locmgr) : Locmgr :=
  let loc := cutLine (store input s.loc)
  if Lib.cstr loc = ['l'] then { s with loc := loc }
  else ⟨s.location.copy (Lib.cstr loc), [], true⟩

/-- `locmgr_get_location`, with what the array `loc` held before. -/
def Locmgr.getLocation (loc : Text) (s : Locmgr) : Text := store (Lib.cstr s.location.array) loc

/-- The location `evaluate` compares with. -/
def Locmgr.seen (loc : Text) (s : Locmgr) : String := String.ofList (Lib.cstr (s.getLocation loc))

/-- `strcpy` stays within the array of `evaluate`. -/
theorem Locmgr.getLocation_length {loc : Text} (h : loc.length = locBufSize) (s : Locmgr) :
    (s.getLocation loc).length = locBufSize := by
  have hlt := cstr_length_lt s.location.terminated
  rw [s.location.length_eq] at hlt
  exact (store_length (h.symm ▸ hlt)).trans h

theorem Locmgr.seen_eq (loc : Text) (s : Locmgr) :
    s.seen loc = String.ofList (Lib.cstr s.location.array) := by
  unfold seen getLocation
  rw [cstr_store (not_mem_cstr _)]

/-- A line is cut at its line feed, or at the NUL that `getline` puts behind it. -/
theorem cstr_cutLine {s : Text} (hs : ∀ c ∈ s, c ≠ '\n' ∧ c ≠ nul) {d : Char}
    (hd : d = '\n' ∨ d = nul) (rest : Text) : Lib.cstr (cutLine (s ++ d :: rest)) = s := by
  have hidx : (s ++ d :: rest).findIdx (fun c => c = '\n' || c = nul) = s.length := by
    have hnone : s.findIdx (fun c => c = '\n' || c = nul) = s.length := by
      refine List.findIdx_eq_length_of_false fun c hc => ?_
      simpa using hs c hc
    have hstop : (d :: rest).findIdx (fun c => c = '\n' || c = nul) = 0 := by
      rcases hd with rfl | rfl <;> rfl
    rw [List.findIdx_append, hnone, if_neg (Nat.lt_irrefl _), hstop, Nat.zero_add]
  have hnul : nul ∉ s := fun hm => (hs nul hm).2 rfl
  unfold cutLine
  rw [hidx, List.set_append_right _ _ (Nat.le_refl _), Nat.sub_self, List.set_cons_zero,
    cstr_append hnul]

/-- What the user types: the characters before the line feed. -/
structure Typed (s : Text) : Prop where
  chars : ∀ c ∈ s, c ≠ '\n' ∧ c ≠ nul
  notCommand : s ≠ ['l']

/-- The line `getline` returns for it; the last line may have no line feed. -/
def IsLine (s input : Text) : Prop := input = s ++ ['\n'] ∨ input = s ∧ s ≠ []

theorem cstr_getline {s input : Text} (hs : ∀ c ∈ s, c ≠ '\n' ∧ c ≠ nul) (hi : IsLine s input)
    (loc : Text) : Lib.cstr (cutLine (store input loc)) = s := by
  unfold store
  rcases hi with rfl | ⟨rfl, -⟩
  · rw [List.append_assoc, List.singleton_append]
    exact cstr_cutLine hs (Or.inl rfl) _
  · exact cstr_cutLine hs (Or.inr rfl) _

/-- After the line, `evaluate` sees its first 15 characters. -/
theorem Locmgr.seen_line {s input : Text} (hs : Typed s) (hi : IsLine s input) (m : Locmgr)
    (loc : Text) : (m.line input).seen loc = String.ofList (s.take 15) := by
  have hcstr := cstr_getline hs.chars hi m.loc
  have hnul : nul ∉ s := fun hm => (hs.chars nul hm).2 rfl
  rw [seen_eq, line, hcstr, if_neg hs.notCommand]
  show String.ofList (Lib.cstr ((strncpy s (15 + 1) m.location.array).set 15 nul)) = _
  rw [cstr_strncpy_set hnul (by rw [m.location.length_eq]; decide)]

/-- The command leaves the location as it was. -/
theorem Locmgr.seen_command {input : Text} (hi : IsLine ['l'] input) (m : Locmgr) (loc : Text) :
    (m.line input).seen loc = m.seen loc := by
  have hcstr := cstr_getline (s := ['l']) (List.forall_mem_singleton.mpr (by decide)) hi m.loc
  rw [seen_eq, seen_eq, line, hcstr, if_pos rfl]

/-- The lines of the terminal, one after the other. -/
def Locmgr.lines (inputs : List Text) (m : Locmgr) : Locmgr :=
  inputs.foldl (fun m input => m.line input) m

theorem Locmgr.seen_commands {inputs : List Text} (hi : ∀ input ∈ inputs, IsLine ['l'] input)
    (m : Locmgr) (loc : Text) : (m.lines inputs).seen loc = m.seen loc := by
  induction inputs generalizing m with
  | nil => rfl
  | cons input inputs ih =>
    have hrest := ih (fun i h => hi i (List.mem_cons_of_mem _ h)) (m.line input)
    exact hrest.trans (m.seen_command (hi input List.mem_cons_self) loc)

/-! ## The location test of `evaluate` -/

variable {ω : Type}

/-- A network manager with every interface up that makes every change. -/
structure Grants (net : Net ω) : Prop where
  on : ∀ interface w, (net.interfaceOn interface w).1 = true
  set : ∀ addr interface w, (net.setInterface addr interface w).1 = true

/-- The network manager with this location manager beside it. -/
def Locmgr.attach (loc : Text) (m : Locmgr) (net : Net ω) : Net ω :=
  { net with location := fun _ => m.seen loc }

/-- Nothing but the location can keep such a rule from being activated. -/
theorem evaluateRule_of_grants {net : Net ω} (h : Grants net) (location : String) (rule : Rule)
    (conn : Connection) (w : ω) :
    (evaluateRule net location rule conn w).1 = true ↔ rule.location = some location := by
  have hon := h.on rule.interface w
  have hset := h.set conn.addr rule.interface (net.interfaceOn rule.interface w).2
  unfold evaluateRule
  by_cases hloc : rule.location = some location
  · rw [if_pos hloc]
    generalize net.interfaceOn rule.interface w = r at hon hset
    obtain ⟨on, w₁⟩ := r
    cases hon
    dsimp only at hset ⊢
    generalize net.setInterface conn.addr rule.interface w₁ = r at hset
    obtain ⟨done, w₂⟩ := r
    cases hset
    exact iff_of_true rfl hloc
  · rw [if_neg hloc]
    exact iff_of_false Bool.false_ne_true hloc

/-- `evaluate` activates the rule, at the location the location manager reports. -/
def Locmgr.activates (loc : Text) (m : Locmgr) (net : Net ω) (rule : Rule) (conn : Connection)
    (w : ω) : Bool :=
  (evaluateRule (m.attach loc net) ((m.attach loc net).location w) rule conn w).1

/-- After a location was entered, and any number of commands after it, a rule matches that
location and no other exactly where it has at most 15 characters. -/
theorem entered_location_iff {net : Net ω} (hnet : Grants net) (m : Locmgr) {s input : Text}
    (hs : Typed s) (hi : IsLine s input) {commands : List Text}
    (hc : ∀ command ∈ commands, IsLine ['l'] command) (loc : Text) (conn : Connection) (w : ω) :
    (∀ (t : String) (rule : Rule), rule.location = some t →
      (((m.line input).lines commands).activates loc net rule conn w = true ↔
        t = String.ofList s)) ↔ s.length ≤ 15 := by
  have hgrants : Grants (((m.line input).lines commands).attach loc net) := ⟨hnet.on, hnet.set⟩
  have hseen : (((m.line input).lines commands).attach loc net).location w =
      String.ofList (s.take 15) :=
    (Locmgr.seen_commands hc _ loc).trans (m.seen_line hs hi loc)
  unfold Locmgr.activates
  simp only [evaluateRule_of_grants hgrants, hseen]
  constructor
  · intro h
    have hself := (h (String.ofList s) ⟨1, some (String.ofList s), -1, -1, none⟩ rfl).mpr rfl
    have htake : s = s.take 15 := String.ofList_injective (Option.some.inj hself)
    have hlen := congrArg List.length htake
    rw [List.length_take] at hlen
    omega
  · intro hlen t rule ht
    rw [ht, List.take_of_length_le hlen, Option.some.injEq]

/-- The network manager that grants everything. -/
def Net.granting : Net Unit := ⟨fun _ => "", fun _ w => (true, w), fun _ _ w => (true, w)⟩

theorem entered_location_short :
    ((Locmgr.init.line "morningside\n".toList).lines ["l\n".toList]).activates [] .granting
      ⟨1, some "morningside", -1, -1, none⟩ ⟨0, none, 0, 0, [], 0, 0⟩ () = true :=
  ((entered_location_iff ⟨fun _ _ => rfl, fun _ _ _ => rfl⟩ .init (s := "morningside".toList)
    ⟨fun _ hc => ⟨ne_of_mem_of_not_mem hc (by decide), ne_of_mem_of_not_mem hc (by decide)⟩,
      by decide⟩ (.inl rfl) (fun _ h => .inl (List.mem_singleton.mp h)) []
    ⟨0, none, 0, 0, [], 0, 0⟩ ()).mpr (by decide) "morningside" ⟨1, _, -1, -1, none⟩ rfl).mpr rfl

/-- The rule for a location of 16 characters is passed over, and the one for its first 15
is taken. -/
theorem entered_location_cut :
    (Locmgr.init.line "morningsidedrive\n".toList).activates [] .granting
        ⟨1, some "morningsidedrive", -1, -1, none⟩ ⟨0, none, 0, 0, [], 0, 0⟩ () = false ∧
      (Locmgr.init.line "morningsidedrive\n".toList).activates [] .granting
        ⟨1, some "morningsidedriv", -1, -1, none⟩ ⟨0, none, 0, 0, [], 0, 0⟩ () = true :=
  ⟨rfl, rfl⟩

end Manhattan.Sined
