import Manhattan.Lib.Text
import Manhattan.Sined.Conmgr

/-!
# The path of an application (`get_app_path`)

`get_app_path` reads the link `/proc/<pid>/exe` into an array of 256 characters, allocates one
character more than it got and copies them, or, when the array came back full, reads the link
again into the allocation. The allocation is sized from the first result, so the second call
gets one character more, which the terminator then overwrites: a path of more than 256
characters is cut to its first 256.

`Conmgr` has the function on strings (`getAppPath`); here are its two arrays, and
`getAppPath_eq_appPath` says that both agree.

Mirroring notes:
- `readlink` writes no NUL and returns how many characters it wrote.
- The array on the stack and the allocation hold anything before they are written.
-/

namespace Manhattan.Sined

open Manhattan.Lib

/-- `readlink(link, array, size)`: the array afterwards and the result. -/
def readlinkInto (target : Text) (size : Nat) (array : Text) : Text × Nat :=
  (target.take size ++ array.drop (target.take size).length, (target.take size).length)

/-- `malloc(n)`, which holds anything. -/
def alloc (garbage : Nat → Char) (n : Nat) : Text := (List.range n).map garbage

/-- The allocation `get_app_path` returns. -/
def appPath (target buf : Text) (garbage : Nat → Char) : Text :=
  let buf₁ := (readlinkInto target lineBufSize buf).1
  let r := (readlinkInto target lineBufSize buf).2
  let path := alloc garbage (r + 1)
  let path₁ :=
    if r < lineBufSize then strncpy (Lib.cstr (buf₁.take r)) r path
    else (readlinkInto target (r + 1) path).1
  path₁.set r nul

/-- The target of a link. -/
structure IsTarget (target : Text) : Prop where
  nonempty : target ≠ []
  chars : nul ∉ target

/-- All of the target, with its terminator inside the allocation. -/
structure Whole (target path : Text) : Prop where
  terminated : nul ∈ path
  eq : Lib.cstr path = target

theorem alloc_length (garbage : Nat → Char) (n : Nat) : (alloc garbage n).length = n := by
  unfold alloc
  rw [List.length_map, List.length_range]

/-- A terminator at the last place. -/
theorem set_last {l : Text} {n : Nat} (h : l.length = n + 1) (c : Char) :
    l.set n c = l.take n ++ [c] := by
  rw [List.set_eq_take_append_cons_drop, if_pos (by omega), List.drop_of_length_le (by omega)]

section Path

variable {target : Text} (h : IsTarget target) (buf : Text) (garbage : Nat → Char)
include h

/-- The first 256 characters of the target, and the terminator behind them. -/
theorem appPath_eq : appPath target buf garbage = target.take lineBufSize ++ [nul] := by
  have hr : (target.take lineBufSize).length = min lineBufSize target.length := List.length_take
  unfold appPath readlinkInto
  dsimp only
  by_cases hlen : target.length < lineBufSize
  · -- the whole target is in the array and is copied from there
    have hall : target.take lineBufSize = target := List.take_of_length_le (by omega)
    have hpath := alloc_length garbage (target.length + 1)
    rw [hall, if_pos hlen, List.take_left, cstr_eq_self h.chars, set_last]
    · unfold strncpy
      rw [List.take_of_length_le (Nat.le_refl _), Nat.sub_self, List.replicate_zero,
        List.append_nil, List.take_left]
    · rw [strncpy_length (by omega), hpath]
  · -- the array is full and the link is read again
    have hfull : (target.take lineBufSize).length = lineBufSize := by omega
    have hpath := alloc_length garbage (lineBufSize + 1)
    rw [hfull, if_neg (Nat.lt_irrefl _), set_last]
    · rw [List.take_append_of_le_length (by rw [List.length_take]; omega), List.take_take]
      congr 2
    · rw [List.length_append, List.length_drop, List.length_take, hpath]
      omega

theorem cstr_appPath : Lib.cstr (appPath target buf garbage) = target.take lineBufSize := by
  rw [appPath_eq h]
  exact cstr_append (fun hm => h.chars (List.mem_of_mem_take hm)) []

/-- The terminator is always inside the allocation; the path is whole up to 256 characters. -/
theorem whole_iff : Whole target (appPath target buf garbage) ↔ target.length ≤ lineBufSize := by
  have hcstr := cstr_appPath h buf garbage
  constructor
  · intro hw
    have hlen := congrArg List.length (hcstr.symm.trans hw.eq)
    rw [List.length_take] at hlen
    omega
  · intro hle
    refine ⟨?_, ?_⟩
    · rw [appPath_eq h]
      exact List.mem_append_right _ List.mem_cons_self
    · rw [hcstr, List.take_of_length_le hle]

/-- The function on strings has the same result. -/
theorem getAppPath_eq_appPath : getAppPath (some (String.ofList target)) true =
    some (String.ofList (Lib.cstr (appPath target buf garbage))) := by
  rw [cstr_appPath h]
  unfold getAppPath readlink
  simp only [Option.map_some, String.toList_ofList, if_true]
  rw [String.length_ofList]
  split
  · rfl
  · next hfull =>
    have hlen : (target.take lineBufSize).length = lineBufSize := by
      rw [List.length_take] at hfull ⊢
      omega
    rw [hlen, List.take_take, Nat.min_eq_left (Nat.le_succ _)]

end Path

/-- Two applications have their whole paths recorded, and equal descriptors only for equal
paths, exactly if neither path has more than 256 characters. -/
theorem app_path_iff {t₁ t₂ : Text} (h₁ : IsTarget t₁) (h₂ : IsTarget t₂) (buf₁ buf₂ : Text)
    (garbage₁ garbage₂ : Nat → Char) :
    (Whole t₁ (appPath t₁ buf₁ garbage₁) ∧ Whole t₂ (appPath t₂ buf₂ garbage₂) ∧
      (Lib.cstr (appPath t₁ buf₁ garbage₁) = Lib.cstr (appPath t₂ buf₂ garbage₂) → t₁ = t₂)) ↔
      t₁.length ≤ lineBufSize ∧ t₂.length ≤ lineBufSize := by
  rw [whole_iff h₁, whole_iff h₂]
  constructor
  · exact fun h => ⟨h.1, h.2.1⟩
  · intro ⟨hle₁, hle₂⟩
    refine ⟨hle₁, hle₂, fun heq => ?_⟩
    rw [cstr_appPath h₁, cstr_appPath h₂, List.take_of_length_le hle₁,
      List.take_of_length_le hle₂] at heq
    exact heq

theorem app_path_short :
    Whole "/bin/sh".toList (appPath "/bin/sh".toList [] fun _ => 'x') ∧
      Whole "/bin/su".toList (appPath "/bin/su".toList [] fun _ => 'y') ∧
      (Lib.cstr (appPath "/bin/sh".toList [] fun _ => 'x') =
        Lib.cstr (appPath "/bin/su".toList [] fun _ => 'y') →
          "/bin/sh".toList = "/bin/su".toList) :=
  (app_path_iff ⟨by decide, by decide⟩ ⟨by decide, by decide⟩ [] [] _ _).mpr
    ⟨by decide, by decide⟩

/-- 256 slashes and one more character. -/
def longPath (c : Char) : Text := List.replicate lineBufSize '/' ++ [c]

theorem cstr_appPath_longPath {c : Char} (hc : c ≠ nul) (buf : Text) (garbage : Nat → Char) :
    Lib.cstr (appPath (longPath c) buf garbage) = List.replicate lineBufSize '/' := by
  have htarget : IsTarget (longPath c) := by
    refine ⟨List.append_ne_nil_of_right_ne_nil _ (List.cons_ne_nil _ _), fun hm => ?_⟩
    rcases List.mem_append.mp hm with hm | hm
    · exact absurd (List.eq_of_mem_replicate hm) (by decide)
    · exact hc (List.mem_singleton.mp hm).symm
  rw [cstr_appPath htarget]
  exact List.take_left' List.length_replicate

/-- Two paths of 257 characters that differ in the last one. -/
theorem app_path_cut :
    Lib.cstr (appPath (longPath 'a') [] fun _ => 'x') =
        Lib.cstr (appPath (longPath 'b') [] fun _ => 'x') ∧
      longPath 'a' ≠ longPath 'b' := by
  constructor
  · rw [cstr_appPath_longPath (by decide), cstr_appPath_longPath (by decide)]
  · intro heq
    exact absurd (List.append_cancel_left heq) (by decide)

end Manhattan.Sined
