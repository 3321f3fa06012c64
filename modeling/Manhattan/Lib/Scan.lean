import Manhattan.Lib.Text

/-!
# Copying a word into an array, character by character

The loop

    for (; i < strlen(s); i++)
        if (s[i] != stop) dst[j++] = s[i];
        else { dst[j] = '\0'; break; }

copies the text before the first `stop` and never looks at the size of `dst`. Written
with `i <= strlen(s)` and a second comparison with the terminator it also stores a
terminator at the end of the text; `close` tells the two forms apart.

`scan` makes the size explicit: it has no result once a character would be stored
outside. `scan_eq` says how many characters are stored, and so what size is enough;
`scanCleared` asks for a terminator too. `names` is the same loop over all the words of a
text, for a caller that does something with each of them.
-/

namespace Manhattan.Lib

/-- The word copied to `dst[j]` and behind, and the text after `stop` if the loop ended
there. -/
def scan (close : Bool) (size : Nat) (stop : Char) : Nat → Text → Option (Text × Option Text)
  | j, [] => if close && size ≤ j then none else some ([], none)
  | j, c :: t =>
    if size ≤ j then none
    else if c = stop then some ([], some t)
    else (scan close size stop (j + 1) t).map fun r => (c :: r.1, r.2)

/-- The number of characters the loop stores. -/
def stored (close : Bool) (stop : Char) (t : Text) : Nat :=
  (upTo stop t).length + if close || stop ∈ t then 1 else 0

theorem stored_cons_self (close : Bool) (stop : Char) (t : Text) :
    stored close stop (stop :: t) = 1 := by
  unfold stored upTo
  rw [List.takeWhile_cons_of_neg (by simp)]
  simp

theorem stored_cons {close : Bool} {stop c : Char} (h : c ≠ stop) (t : Text) :
    stored close stop (c :: t) = stored close stop t + 1 := by
  unfold stored upTo
  rw [List.takeWhile_cons_of_pos (by simpa using h)]
  have hmem : stop ∈ c :: t ↔ stop ∈ t := by
    rw [List.mem_cons]
    exact or_iff_right fun hc => h hc.symm
  rw [decide_eq_decide.mpr hmem, List.length_cons]
  omega

theorem scan_eq {close : Bool} {size : Nat} {stop : Char} :
    ∀ {j : Nat} (t : Text), j ≤ size →
      scan close size stop j t =
        if j + stored close stop t ≤ size then some (upTo stop t, after stop t) else none
  | j, [], hj => by
    unfold scan stored upTo
    cases close with
    | false => simp [hj, after]
    | true =>
      simp only [Bool.true_and, decide_eq_true_eq, Bool.true_or, if_true, List.takeWhile_nil,
        List.length_nil, after]
      split
      · rw [if_neg (by omega)]
      · rw [if_pos (by omega)]
  | j, c :: t, hj => by
    rw [scan]
    by_cases hfull : size ≤ j
    · have : 1 ≤ stored close stop (c :: t) := by
        by_cases hc : c = stop
        · rw [hc, stored_cons_self]
        · rw [stored_cons hc]
          omega
      rw [if_pos hfull, if_neg (by omega)]
    · rw [if_neg hfull]
      by_cases hc : c = stop
      · rw [if_pos hc, hc, stored_cons_self, if_pos (by omega)]
        simp [upTo, after]
      · have hup : upTo stop (c :: t) = c :: upTo stop t :=
          List.takeWhile_cons_of_pos (by simpa using hc)
        rw [if_neg hc, scan_eq t (Nat.lt_of_not_le hfull), stored_cons hc, hup, after, if_neg hc]
        have : j + 1 + stored close stop t = j + (stored close stop t + 1) := by omega
        rw [this]
        split <;> rfl

/-- The loop that stores no terminator at the end of the text, into a cleared array whose
string is read afterwards: there is none if the array is full. -/
def scanCleared (size : Nat) (stop : Char) (t : Text) : Option (Text × Option Text) :=
  (scan false size stop 0 t).bind fun r => if r.1.length < size then some r else none

theorem scanCleared_eq (size : Nat) (stop : Char) (t : Text) :
    scanCleared size stop t =
      if (upTo stop t).length < size then some (upTo stop t, after stop t) else none := by
  have hstored : stored false stop t ≤ (upTo stop t).length + 1 := by
    unfold stored
    split <;> omega
  unfold scanCleared
  rw [scan_eq t (Nat.zero_le _), Nat.zero_add]
  by_cases hroom : (upTo stop t).length < size
  · rw [if_pos (Nat.le_trans hstored hroom), if_pos hroom]
    exact if_pos hroom
  · rw [if_neg hroom]
    split
    · exact if_neg hroom
    · rfl

/-- A word at the end of a text, or with `stop` and more text behind it. -/
def followed (stop : Char) (w : Text) : Option Text → Text
  | none => w
  | some rest => w ++ stop :: rest

theorem stored_followed {stop : Char} {w : Text} (h : stop ∉ w) (close : Bool)
    (rest : Option Text) :
    stored close stop (followed stop w rest) =
      w.length + if close || rest.isSome then 1 else 0 := by
  induction w with
  | nil =>
    cases rest with
    | none => cases close <;> rfl
    | some r =>
      show stored close stop (stop :: r) = _
      rw [stored_cons_self]
      simp
  | cons c w ih =>
    rw [List.mem_cons, not_or] at h
    have hcons : followed stop (c :: w) rest = c :: followed stop w rest := by
      cases rest <;> rfl
    rw [hcons, stored_cons (Ne.symm h.1), ih h.2, List.length_cons]
    omega

theorem upTo_followed {stop : Char} {w : Text} (h : stop ∉ w) (rest : Option Text) :
    upTo stop (followed stop w rest) = w := by
  cases rest with
  | none => exact List.takeWhile_eq_self_iff.mpr fun c hc => decide_eq_true fun e => h (e ▸ hc)
  | some r => exact upTo_append h r

theorem after_followed {stop : Char} {w : Text} (h : stop ∉ w) (rest : Option Text) :
    after stop (followed stop w rest) = rest := by
  induction w with
  | nil =>
    cases rest with
    | none => rfl
    | some r =>
      show (if stop = stop then some r else after stop r) = some r
      rw [if_pos rfl]
  | cons c w ih =>
    rw [List.mem_cons, not_or] at h
    have hcons : followed stop (c :: w) rest = c :: followed stop w rest := by
      cases rest <;> rfl
    rw [hcons, after, if_neg (Ne.symm h.1), ih h.2]

theorem scan_followed {stop : Char} {w : Text} (h : stop ∉ w) (close : Bool) (size : Nat)
    (rest : Option Text) :
    scan close size stop 0 (followed stop w rest) =
      if w.length + (if close || rest.isSome then 1 else 0) ≤ size then some (w, rest)
      else none := by
  rw [scan_eq _ (Nat.zero_le _), stored_followed h, upTo_followed h, after_followed h, Nat.zero_add]

/-- The words of a text, empty ones included. -/
def words : Text → List Text
  | [] => [[]]
  | c :: t =>
    if c = ' ' then [] :: words t
    else
      match words t with
      | [] => [[c]]
      | w :: ws => (c :: w) :: ws

theorem words_eq_singleton {t : Text} (h : ' ' ∉ t) : words t = [t] := by
  induction t with
  | nil => rfl
  | cons c t ih =>
    rw [List.mem_cons, not_or] at h
    rw [words, if_neg (Ne.symm h.1), ih h.2]

/-- The loop over the words of `t`, each copied into an array of `size` characters and
then handed to `ask`; it ends early when the answer is `last`. The argument `w` is what the
array holds. -/
def names (size : Nat) (ask : Text → Bool) (last : Bool) : Text → Text → Option Bool
  | w, [] =>
    if size ≤ w.length then none else some (if ask w = last then last else !last)
  | w, c :: t =>
    if size ≤ w.length then none
    else if c = ' ' then
      if ask w = last then some last else names size ask last [] t
    else names size ask last (w ++ [c]) t

/-- The words `ask` gets to see. -/
def asked (ask : Text → Bool) (last : Bool) : List Text → List Text
  | [] => []
  | w :: ws => w :: if ask w = last then [] else asked ask last ws

section Names

variable {size : Nat} {ask : Text → Bool} {last : Bool}

/-- The words with the array's content in front of the first one. -/
def wordsAfter (w t : Text) : List Text := (w ++ (words t).headD []) :: (words t).tail

theorem words_ne_nil (t : Text) : words t ≠ [] := by
  cases t with
  | nil => exact List.cons_ne_nil _ _
  | cons c t =>
    rw [words]
    split
    · exact List.cons_ne_nil _ _
    · split <;> exact List.cons_ne_nil _ _

theorem wordsAfter_nil (t : Text) : wordsAfter [] t = words t := by
  unfold wordsAfter
  cases h : words t with
  | nil => exact absurd h (words_ne_nil t)
  | cons w ws => rfl

theorem wordsAfter_space (w t : Text) : wordsAfter w (' ' :: t) = w :: words t := by
  unfold wordsAfter
  rw [words, if_pos rfl]
  simp

theorem wordsAfter_cons {c : Char} (h : c ≠ ' ') (w t : Text) :
    wordsAfter w (c :: t) = wordsAfter (w ++ [c]) t := by
  unfold wordsAfter
  rw [words, if_neg h]
  cases hw : words t with
  | nil => exact absurd hw (words_ne_nil t)
  | cons v ws => simp

/-- What the loop answers if the array is never too short. -/
def verdict (ask : Text → Bool) (last : Bool) (ws : List Text) : Bool :=
  if ws.any fun w => ask w = last then last else !last

theorem asked_singleton (w : Text) : asked ask last [w] = [w] := by
  unfold asked
  split <;> rfl

theorem verdict_singleton (w : Text) : verdict ask last [w] = ask w := by
  unfold verdict
  cases ha : ask w <;> cases last <;> simp [ha]

/-- Every word that is asked for has to fit with its terminator. -/
theorem names_eq_after : ∀ (w t : Text),
    names size ask last w t =
      if ∀ v ∈ asked ask last (wordsAfter w t), v.length < size then
        some (verdict ask last (wordsAfter w t)) else none
  | w, [] => by
    have hw : wordsAfter w [] = [w] := by
      unfold wordsAfter
      simp [words]
    rw [names, hw]
    simp only [asked_singleton, verdict_singleton, List.forall_mem_singleton]
    by_cases hfull : size ≤ w.length
    · rw [if_pos hfull, if_neg (Nat.not_lt.mpr hfull)]
    · rw [if_neg hfull, if_pos (Nat.lt_of_not_le hfull)]
      cases ha : ask w <;> cases last <;> rfl
  | w, c :: t => by
    rw [names]
    by_cases hfull : size ≤ w.length
    · -- the word grows from here on, so the array stays too short for it
      rw [if_pos hfull, if_neg]
      intro h
      have := h _ (by unfold wordsAfter asked; exact List.mem_cons_self)
      rw [List.length_append] at this
      omega
    · rw [if_neg hfull]
      by_cases hc : c = ' '
      · subst hc
        rw [if_pos rfl, wordsAfter_space, asked, verdict, List.any_cons]
        by_cases hlast : ask w = last
        · rw [if_pos hlast, if_pos hlast, if_pos]
          · simp [hlast]
          · rw [List.forall_mem_singleton]
            omega
        · rw [if_neg hlast, if_neg hlast, names_eq_after [] t, wordsAfter_nil, verdict]
          simp only [hlast, decide_false, Bool.false_or, List.forall_mem_cons,
            Nat.lt_of_not_le hfull, true_and]
      · rw [if_neg hc, names_eq_after (w ++ [c]) t, wordsAfter_cons hc]

theorem names_eq (t : Text) :
    names size ask last [] t =
      if ∀ v ∈ asked ask last (words t), v.length < size then some (verdict ask last (words t))
      else none := by
  rw [names_eq_after, wordsAfter_nil]

end Names

end Manhattan.Lib
