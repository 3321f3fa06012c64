import Manhattan.Lib.Text

/-!
# Lines and words

What `fgets` reads from a file, call after call, and what `strtok_r` takes from a line. A
line longer than the array comes in several pieces. `strtok_r` skips the separators before a
word, so that words may be any number of them apart (`spaced`).
-/

namespace Manhattan.Lib

/-! ## `fgets` -/

/-- What the calls `fgets(buf, room + 1, fp)` return one after another, where `left` more
characters fit into the array of the first one. -/
def fgetsFrom (room : Nat) : Nat → Text → List Text
  | _, [] => []
  | left, c :: t =>
    if c = '\n' ∨ left ≤ 1 then [c] :: fgetsFrom room room t
    else
      match fgetsFrom room (left - 1) t with
      | [] => [[c]]
      | l :: ls => (c :: l) :: ls

/-- The results of `fgets(buf, size, fp)` until it returns a null pointer. -/
def fgetsAll (size : Nat) (t : Text) : List Text := fgetsFrom (size - 1) (size - 1) t

/-- A line that fits is read by one call. -/
theorem fgetsFrom_line {room : Nat} (rest : Text) :
    ∀ {l : Text} {left : Nat}, '\n' ∉ l → l.length < left →
      fgetsFrom room left (l ++ '\n' :: rest) = (l ++ ['\n']) :: fgetsFrom room room rest
  | [], _, _, _ => if_pos (Or.inl rfl)
  | c :: l, left, hc, hleft => by
    rw [List.length_cons] at hleft
    rw [List.mem_cons, not_or] at hc
    have hne : ¬ (c = '\n' ∨ left ≤ 1) := fun h => h.elim (fun e => hc.1 e.symm) (by omega)
    have ih : fgetsFrom room (left - 1) (l ++ '\n' :: rest) = _ :=
      fgetsFrom_line rest hc.2 (by omega)
    rw [List.cons_append, fgetsFrom, if_neg hne, ih]
    rfl

/-- No piece is longer than the array. -/
theorem fgetsFrom_length {room : Nat} (hroom : 0 < room) :
    ∀ {t : Text} {left : Nat}, 0 < left → left ≤ room →
      (∀ l ls, fgetsFrom room left t = l :: ls → l.length ≤ left) ∧
        ∀ l ∈ fgetsFrom room left t, l.length ≤ room
  | [], _, _, _ => ⟨(fun _ _ h => nomatch h), (fun _ h => nomatch h)⟩
  | c :: t, left, hleft, hle => by
    rw [fgetsFrom]
    split
    next =>
      have ih := (fgetsFrom_length hroom (t := t) hroom (Nat.le_refl room)).2
      refine ⟨fun l ls h => ?_, fun l h => ?_⟩
      · cases h
        exact hleft
      · rcases List.mem_cons.mp h with rfl | h
        · exact hroom
        · exact ih l h
    next hne =>
      have ih := fgetsFrom_length hroom (t := t) (show 0 < left - 1 by omega) (by omega)
      split
      next =>
        refine ⟨fun l ls h => ?_, fun l h => ?_⟩
        · cases h
          exact hleft
        · cases List.mem_singleton.mp h
          exact hroom
      next l' ls' heq =>
        have hl' : l'.length ≤ left - 1 := ih.1 l' ls' heq
        have hlen : (c :: l').length ≤ left := by rw [List.length_cons]; omega
        refine ⟨fun l ls h => ?_, fun l h => ?_⟩
        · cases h
          exact hlen
        · rcases List.mem_cons.mp h with rfl | h
          · exact Nat.le_trans hlen hle
          · exact ih.2 l (heq ▸ List.mem_cons_of_mem l' h)

/-! ## `strtok_r` -/

/-- `strtok_r` with the separator `c`: the next word, and where the next call goes on. -/
def strtok (c : Char) (s : Text) : Option Text × Text :=
  match s.dropWhile (· = c) with
  | [] => (none, [])
  | x :: t => (some (x :: upTo c t), (after c t).getD [])

/-- Words, each behind any number of separators and before one, and then `rest`. -/
def spaced (c : Char) : List (Nat × Text) → Text → Text
  | [], rest => rest
  | (gap, w) :: ws, rest => List.replicate gap c ++ (w ++ c :: spaced c ws rest)

theorem after_append {c : Char} (rest : Text) :
    ∀ {w : Text}, c ∉ w → after c (w ++ c :: rest) = some rest
  | [], _ => if_pos rfl
  | x :: w, h => by
    rw [List.mem_cons, not_or] at h
    rw [List.cons_append, after, if_neg (fun e => h.1 e.symm)]
    exact after_append rest h.2

/-- One call takes one word. -/
theorem strtok_spaced {c : Char} {gap : Nat} {w : Text} (hne : w ≠ []) (hw : c ∉ w)
    (ws : List (Nat × Text)) (rest : Text) :
    strtok c (spaced c ((gap, w) :: ws) rest) = (some w, spaced c ws rest) := by
  cases w with
  | nil => exact absurd rfl hne
  | cons x w =>
    rw [List.mem_cons, not_or] at hw
    have hskip : (spaced c ((gap, x :: w) :: ws) rest).dropWhile (· = c)
        = x :: (w ++ c :: spaced c ws rest) := by
      rw [spaced, List.dropWhile_append_of_pos]
      · exact List.dropWhile_cons_of_neg (by simpa using fun e => hw.1 e.symm)
      · intro y hy
        exact decide_eq_true (List.eq_of_mem_replicate hy)
    unfold strtok
    rw [hskip]
    show (some (x :: upTo c _), (after c _).getD []) = _
    rw [upTo_append hw.2, after_append _ hw.2]
    rfl

theorem after_length {c : Char} : ∀ (t : Text), ((after c t).getD []).length ≤ t.length
  | [] => Nat.le_refl 0
  | x :: t => by
    unfold after
    split
    · exact Nat.le_succ t.length
    · exact Nat.le_succ_of_le (after_length t)

/-- A call goes on behind a character at least. -/
theorem strtok_rest_length (c : Char) (s : Text) : (strtok c s).2.length ≤ s.length - 1 := by
  have hdrop : (s.dropWhile (· = c)).length ≤ s.length := (List.dropWhile_sublist _).length_le
  unfold strtok
  split
  next => exact Nat.zero_le _
  next x t heq =>
    have hrest : ((after c t).getD []).length ≤ t.length := after_length t
    rw [heq, List.length_cons] at hdrop
    show ((after c t).getD []).length ≤ s.length - 1
    omega

theorem strtok_word_length {c : Char} {s w : Text} (h : (strtok c s).1 = some w) :
    w.length ≤ s.length := by
  have hdrop : (s.dropWhile (· = c)).length ≤ s.length := (List.dropWhile_sublist _).length_le
  unfold strtok at h
  split at h
  next => cases h
  next x t heq =>
    have hword : (upTo c t).length ≤ t.length := upTo_length_le c t
    cases h
    rw [heq, List.length_cons] at hdrop
    rw [List.length_cons]
    omega

theorem spaced_append (c : Char) (rest tail : Text) :
    ∀ ws, spaced c ws rest ++ tail = spaced c ws (rest ++ tail)
  | [] => rfl
  | (gap, w) :: ws => by
    rw [spaced, spaced, ← spaced_append c rest tail ws, List.append_assoc, List.append_assoc,
      List.cons_append]

/-- A character that is in none of the words and is not the separator. -/
theorem not_mem_spaced {c d : Char} (hcd : d ≠ c) {rest : Text} (hrest : d ∉ rest) :
    ∀ {ws : List (Nat × Text)}, (∀ w ∈ ws, d ∉ w.2) → d ∉ spaced c ws rest
  | [], _ => hrest
  | (gap, w) :: ws, h => by
    have ih : d ∉ spaced c ws rest :=
      not_mem_spaced hcd hrest fun w' hw' => h w' (List.mem_cons_of_mem _ hw')
    have hw : d ∉ w := h (gap, w) List.mem_cons_self
    rw [spaced, List.mem_append, List.mem_append, List.mem_cons]
    intro hmem
    rcases hmem with hgap | hd | hd | hd
    · exact hcd (List.eq_of_mem_replicate hgap)
    · exact hw hd
    · exact hcd hd
    · exact ih hd

end Manhattan.Lib
