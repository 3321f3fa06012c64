import Manhattan.Lib.Scan

/-!
# Copying part of an array to another, by index

The loop

    for (; i < limit; i++)
        if (stays(src[i])) dst[j++] = src[i];
        else { dst[j] = '\0'; break; }

over arrays as they are in memory: `dst` has a size and keeps what is not overwritten,
`src` may hold anything behind its string. The value of `i` after the loop is part of the
result; a caller that goes on from there has to know where the loop stopped. `Lib.Scan`
is the same loop over texts, for callers that only need the word.

A store outside `dst` has no result, and neither has `strlen` of an array without a
terminator.
-/

namespace Manhattan.Lib

/-- `a[i] = c;` -/
def put (a : Text) (i : Nat) (c : Char) : Option Text :=
  if i < a.length then some (a.set i c) else none

/-- `strlen(a)` -/
def strlen (a : Text) : Option Nat := if nul ∈ a then some (cstr a).length else none

/-- `memset(a, 0, n)` -/
def memset (n : Nat) (a : Text) : Text := List.replicate n nul ++ a.drop n

/-- The loop with `limit - i` rounds left: the index where it stopped, and `dst`. -/
def copyLoop (stays : Char → Bool) (src : Text) : Nat → Nat → Nat → Text → Option (Nat × Text)
  | 0, i, _, dst => some (i, dst)
  | n + 1, i, j, dst =>
    if stays (src.getD i nul) then
      (put dst j (src.getD i nul)).bind fun dst => copyLoop stays src n (i + 1) (j + 1) dst
    else (put dst j nul).map fun dst => (i, dst)

/-! ## Stores -/

theorem memset_length {n : Nat} {a : Text} (h : n ≤ a.length) : (memset n a).length = a.length := by
  unfold memset
  rw [List.length_append, List.length_replicate, List.length_drop]
  omega

/-- A cleared array is all terminators, behind a word too. -/
theorem append_cleared {w : Text} {n : Nat} (h : w.length < n) :
    w ++ (List.replicate n nul).drop w.length = store w (List.replicate n nul) := by
  obtain ⟨m, rfl⟩ := Nat.exists_eq_add_of_lt h
  have hrest : w.length + m + 1 - w.length = (w.length + m + 1 - (w.length + 1)) + 1 := by omega
  unfold store
  rw [List.drop_replicate, List.drop_replicate, hrest, List.replicate_succ]

/-- The store behind a part that is already written. -/
theorem put_append (a : Text) {b : Text} (h : b ≠ []) (c : Char) :
    put (a ++ b) a.length c = some (a ++ c :: b.tail) := by
  obtain ⟨x, b, rfl⟩ := List.exists_cons_of_ne_nil h
  have hlt : a.length < (a ++ x :: b).length := by
    rw [List.length_append, List.length_cons]
    omega
  rw [put, if_pos hlt, List.set_append_right _ _ (Nat.le_refl _), Nat.sub_self]
  rfl

theorem strlen_append {t : Text} (h : nul ∉ t) (rest : Text) :
    strlen (t ++ nul :: rest) = some t.length := by
  rw [strlen, if_pos (List.mem_append_right _ List.mem_cons_self), cstr_append h]

/-! ## The loop -/

section

variable {stays : Char → Bool} {src : Text}

theorem getD_of_drop {i : Nat} {c : Char} {r : Text} (h : src.drop i = c :: r) :
    src.getD i nul = c := by
  rw [List.getD_eq_getElem?_getD, ← List.head?_drop, h]
  rfl

theorem drop_succ_of_drop {i : Nat} {c : Char} {r : Text} (h : src.drop i = c :: r) :
    src.drop (i + 1) = r := by
  rw [← List.drop_drop, h]
  rfl

/-- It copies as long as characters stay, from any place of `src` to any place of `dst`. -/
theorem copyLoop_append {w : Text} (hw : ∀ c ∈ w, stays c = true) {r : Text} :
    ∀ (n i : Nat) (a b : Text), src.drop i = w ++ r → w.length ≤ b.length →
      copyLoop stays src (w.length + n) i a.length (a ++ b) =
        copyLoop stays src n (i + w.length) (a.length + w.length) (a ++ w ++ b.drop w.length) := by
  induction w with
  | nil =>
    intro n i a b _ _
    simp
  | cons c w ih =>
    intro n i a b hdrop hroom
    obtain ⟨x, b, rfl⟩ := List.exists_cons_of_ne_nil (List.ne_nil_of_length_pos
      (Nat.lt_of_lt_of_le (Nat.succ_pos w.length) hroom))
    have hc := getD_of_drop hdrop
    have hrounds : (c :: w).length + n = (w.length + n) + 1 := by
      rw [List.length_cons]
      omega
    have hnext := ih (fun y hy => hw y (List.mem_cons_of_mem c hy)) n (i + 1) (a ++ [c]) b
      (drop_succ_of_drop hdrop) (Nat.le_of_succ_le_succ hroom)
    rw [hrounds, copyLoop, hc, if_pos (hw c List.mem_cons_self),
      put_append a (List.cons_ne_nil x b) c]
    simp only [List.length_append, List.length_singleton, List.append_assoc,
      List.singleton_append] at hnext
    show copyLoop stays src (w.length + n) (i + 1) (a.length + 1) (a ++ c :: b) = _
    rw [hnext, List.length_cons, List.drop_succ_cons, List.append_assoc, List.cons_append,
      Nat.add_assoc i, Nat.add_assoc a.length, Nat.add_comm 1]

/-- Into an array from its start, up to the limit. -/
theorem copyLoop_all {w r : Text} (hw : ∀ c ∈ w, stays c = true) {i : Nat} {dst : Text}
    (hdrop : src.drop i = w ++ r) (hroom : w.length ≤ dst.length) :
    copyLoop stays src w.length i 0 dst = some (i + w.length, w ++ dst.drop w.length) :=
  copyLoop_append hw 0 i [] dst hdrop hroom

/-- Up to a character that does not stay, before the limit. -/
theorem copyLoop_stop {w r : Text} {c : Char} (hw : ∀ c ∈ w, stays c = true)
    (hc : stays c = false) {n i : Nat} {dst : Text} (hdrop : src.drop i = w ++ c :: r)
    (hn : w.length < n) (hroom : w.length < dst.length) :
    copyLoop stays src n i 0 dst = some (i + w.length, store w dst) := by
  obtain ⟨m, rfl⟩ := Nat.exists_eq_add_of_lt hn
  have hcopy := copyLoop_append hw (m + 1) i [] dst hdrop (Nat.le_of_lt hroom)
  have hhere : src.drop (i + w.length) = c :: r := by
    rw [← List.drop_drop, hdrop, List.drop_left]
  have hrest : dst.drop w.length ≠ [] := by
    rw [Ne, List.drop_eq_nil_iff]
    omega
  rw [List.length_nil, Nat.zero_add, List.nil_append, List.nil_append] at hcopy
  rw [Nat.add_assoc, hcopy, copyLoop, getD_of_drop hhere, hc, if_neg nofun,
    put_append w hrest nul, List.tail_drop]
  rfl

end

end Manhattan.Lib
