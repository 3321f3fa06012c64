import Manhattan.Lib.Search
import Manhattan.Lib.Text
import Manhattan.Mih.Information

/-!
# What a client is told (`client_info::respond` of `mih_usr.cpp`)

The MIH user takes the answer to a query out of the result document by position: it
looks for a marker, adds a fixed number of characters, and cuts up to the next
`</literal>` (or, for the whole result, up to a fixed number of characters before
`</result>`). That the marker was found is not asked. `find` returns `npos`, which is -1
as an `int`, and the fixed number makes a position near the start of the document of it.

`expected` reads the document as it is meant: the value in the binding of the kind that
was asked for, and nothing where there is none. `respond_iff` says for which documents
`respond` sends it.

The search of `Information` counts positions; here a position is the rest of the document
from there on, as in `Lib.Search` (`find_some`, `find_none`).
-/

namespace Manhattan.Mih.Information

open Manhattan.Lib

/-! ## The documents as they are meant -/

def literalOpen : Text := "><literal>".toList
def literalClose : Text := "</literal>".toList
def resultOpen : Text := "<result>".toList
def resultClose : Text := "</result>".toList
def costMarker : Text := "<binding name=\"cost_value\"".toList
def bandwidthMarker : Text := "<binding name=\"bandwidth\"".toList

/-- The text up to `</literal>`, if there is one. -/
def literal (t : Text) : Option Text :=
  (strstr literalClose t).map fun stop => t.take (t.length - stop.length)

/-- The value of the first binding that begins with `marker` and has a literal. -/
def bindingValue (marker doc : Text) : Option Text :=
  (strstr (marker ++ literalOpen) doc).bind fun t => literal (t.drop (marker ++ literalOpen).length)

/-- The text between the result tags, without what `respond` leaves out of it: a
character behind the first, and five before the second. -/
def trimmed (start stop : Text) : Text := (start.drop 9).take (start.length - 9 - (stop.length + 5))

/-- What is to be sent. -/
def expected (reqType : ReqInfo) (doc : Text) : Text :=
  match reqType with
  | .cost => (bindingValue costMarker doc).getD []
  | .bandwidth => (bindingValue bandwidthMarker doc).getD []
  | .all =>
    match strstr resultOpen doc, strstr resultClose doc with
    | some start, some stop => if stop.length < start.length then trimmed start stop else []
    | _, _ => []

/-! ## The documents for which it is -/

/-- The string that begins there is empty: the document ends, or there is a NUL. -/
def Blank (t : Text) : Prop := cstr t = []

/-- There is nothing to cut at a place: no `</literal>` follows, or it follows at once, or
the string ends there. -/
def NothingCut (t : Text) : Prop :=
  strstr literalClose t = none ∨ literalClose <+: t ∨ t.head? = some nul

/-- The value behind a marker with a literal has to be free of NUL. Where the first marker
has no literal, the text cut behind it has to be the value of a later one, if there is a
later one. Otherwise there must be nothing to cut: behind the marker, or at the place `npos`
leads to. -/
def BindingRight (marker doc : Text) : Prop :=
  match strstr marker doc with
  | some start =>
    let t := start.drop (marker.length + 10)
    if literalOpen <+: start.drop marker.length then nul ∉ (literal t).getD []
    else
      match bindingValue marker doc with
      | some value => cstr ((literal t).getD []) = value
      | none => NothingCut t
  | none => NothingCut (doc.drop (marker.length + 9))

/-- With both tags in order there have to be six characters between them; otherwise the
rest of the document is sent, from the place the positions lead to. -/
def ResultRight (doc : Text) : Prop :=
  match strstr resultOpen doc, strstr resultClose doc with
  | some start, some stop =>
    if stop.length < start.length then
      if stop.length + 14 ≤ start.length then nul ∉ trimmed start stop else Blank (start.drop 9)
    else doc.length = stop.length + 4 ∨ 9 ≤ start.length ∧ Blank (start.drop 9)
  | some start, none => 9 ≤ start.length ∧ Blank (start.drop 9)
  | none, some stop =>
    doc.length = stop.length + 4 ∨ doc.length = stop.length + 13 ∨ Blank (doc.drop 8)
  | none, none => 8 ≤ doc.length ∧ Blank (doc.drop 8)

def Right : ReqInfo → Text → Prop
  | .cost, doc => BindingRight costMarker doc
  | .bandwidth, doc => BindingRight bandwidthMarker doc
  | .all, doc => ResultRight doc

/-! ## Positions -/

theorem position_eq (pat : Text) : ∀ (s : Text) (i : Nat),
    position pat s i = (strstr pat s).map fun r => i + (s.length - r.length)
  | [], i => by
    cases pat with
    | nil => simp [position, strstr]
    | cons x p => simp [position, strstr]
  | c :: s, i => by
    rw [position, strstr]
    split
    · simp
    · rw [position_eq pat s (i + 1)]
      cases hr : strstr pat s with
      | none => rfl
      | some r =>
        have hle := (strstr_some hr).1.length_le
        simp only [Option.map_some, Option.some.injEq, List.length_cons]
        omega

/-- The position `find` returns is that of the first occurrence from `start` on. -/
theorem find_some {doc r : Text} {pat : String} {start : Nat}
    (h : strstr pat.toList (doc.drop start) = some r) (hpat : pat.toList ≠ []) :
    find doc pat start = ((doc.length - r.length : Nat) : Int) := by
  obtain ⟨hsuffix, hbegins⟩ := strstr_some h
  have hle := hsuffix.length_le
  have hpos := List.length_pos_of_ne_nil hpat
  have hlen := hbegins.length_le
  rw [List.length_drop] at hle
  unfold find
  rw [if_pos (by omega), position_eq, h]
  simp only [Option.map_some, List.length_drop]
  omega

theorem find_none {doc : Text} {pat : String} {start : Nat}
    (h : strstr pat.toList (doc.drop start) = none) : find doc pat start = -1 := by
  unfold find
  split
  · rw [position_eq, h]
    rfl
  · rfl

/-- The document from the position of an occurrence on. -/
theorem drop_position {doc r : Text} (h : r <:+ doc) (n : Nat) :
    doc.drop (doc.length - r.length + n) = r.drop n := by
  obtain ⟨a, rfl⟩ := h
  rw [List.length_append, Nat.add_sub_cancel, ← List.drop_drop, List.drop_left]

/-- The end of `respond`: the test for -1, `substr`, and what is sent of it. -/
def finish (doc : Text) (first last : Int) : Option Text :=
  let (first, last) := if last = -1 then (0, 0) else (first, last)
  (substr doc first.toNat (last - first)).map cstr

theorem finish_missing (doc : Text) (first : Int) : finish doc first (-1) = some [] := by
  unfold finish substr
  simp [cstr]

section

variable (doc : Text) {first : Nat} {last : Int}

/-- An end before the beginning is a huge length. -/
theorem finish_reversed (hlast : last ≠ -1) (h : last < first) :
    finish doc first last =
      if doc.length < first then none else some (cstr (doc.drop first)) := by
  unfold finish substr
  have hneg : last - first < 0 := by omega
  simp only [hlast, if_false, Int.toNat_natCast, hneg, if_true]
  split <;> rfl

theorem finish_ordered (hlast : last ≠ -1) (h : first ≤ last) (hdoc : first ≤ doc.length) :
    finish doc first last = some (cstr ((doc.drop first).take (last - first).toNat)) := by
  unfold finish substr
  simp only [hlast, if_false, Int.toNat_natCast]
  rw [if_neg (Nat.not_lt.mpr hdoc), if_neg (by omega)]
  rfl

theorem finish_literal (first : Nat) :
    finish doc first (find doc "</literal>" first) =
      some (cstr ((literal (doc.drop first)).getD [])) := by
  unfold literal
  cases hr : strstr literalClose (doc.drop first) with
  | none =>
    rw [find_none hr]
    exact finish_missing doc first
  | some r =>
    have hle := (strstr_some hr).1.length_le
    have hpos := (strstr_some hr).2.length_le
    have hten : literalClose.length = 10 := by decide
    rw [List.length_drop] at hle
    have hlen : (((doc.length - r.length : Nat) : Int) - first).toNat =
        (doc.drop first).length - r.length := by
      rw [List.length_drop]
      omega
    rw [find_some hr (by decide), finish_ordered doc (by omega) (by omega) (by omega), hlen]
    rfl

end

/-- Where the value is taken from: `n + 1` characters behind the marker, and without one
the place -1 leads to. -/
def afterMarker (marker : Text) (n : Nat) (doc : Text) : Text :=
  match strstr marker doc with
  | some start => start.drop (n + 1)
  | none => doc.drop n

theorem finish_marker (doc : Text) {marker : String} (hmarker : marker.toList ≠ []) (n : Nat) :
    finish doc (find doc marker 0 + (n + 1 : Nat))
        (find doc "</literal>" (find doc marker 0 + (n + 1 : Nat)).toNat) =
      some (cstr ((literal (afterMarker marker.toList n doc)).getD [])) := by
  unfold afterMarker
  cases hs : strstr marker.toList doc with
  | none =>
    have hn : (-1 + ((n + 1 : Nat) : Int)) = (n : Nat) := by omega
    rw [find_none (by rwa [List.drop_zero]), hn, Int.toNat_natCast, finish_literal]
  | some start =>
    have hn : (((doc.length - start.length : Nat) : Int) + ((n + 1 : Nat) : Int)) =
        ((doc.length - start.length + (n + 1) : Nat) : Int) := by omega
    rw [find_some (by rwa [List.drop_zero]) hmarker, hn, Int.toNat_natCast, finish_literal,
      drop_position (strstr_some hs).1]

/-! ## Bindings -/

theorem cstr_eq_self_iff {t : Text} : cstr t = t ↔ nul ∉ t :=
  ⟨fun h => h ▸ not_mem_cstr t, cstr_eq_self⟩

theorem blank_cons {c : Char} {t : Text} : Blank (c :: t) ↔ c = nul := by
  unfold Blank cstr
  by_cases hc : c = nul
  · rw [List.takeWhile_cons_of_neg (by simpa using hc)]
    exact iff_of_true rfl hc
  · rw [List.takeWhile_cons_of_pos (by simpa using hc)]
    exact iff_of_false (List.cons_ne_nil _ _) hc

theorem blank_literal (t : Text) : Blank ((literal t).getD []) ↔ NothingCut t := by
  unfold NothingCut
  cases t with
  | nil => exact iff_of_true rfl (.inl rfl)
  | cons c t =>
    unfold literal
    by_cases hp : literalClose <+: c :: t
    · rw [strstr, if_pos (List.isPrefixOf_iff_prefix.mpr hp)]
      refine iff_of_true ?_ (.inr (.inl hp))
      simp [Blank, cstr]
    · have hstep : strstr literalClose (c :: t) = strstr literalClose t := by
        rw [strstr, if_neg fun h => hp (List.isPrefixOf_iff_prefix.mp h)]
      rw [hstep]
      cases hr : strstr literalClose t with
      | none => exact iff_of_true rfl (.inl rfl)
      | some r =>
        have hle := (strstr_some hr).1.length_le
        have htake : (c :: t).take ((c :: t).length - r.length) =
            c :: t.take (t.length - r.length) := by
          rw [List.length_cons, Nat.succ_sub hle, List.take_succ_cons]
        simp only [Option.map_some, Option.getD_some, htake, blank_cons, reduceCtorEq, hp,
          List.head?_cons, Option.some.injEq, false_or]

/-- A first marker with a literal is the first marker with a literal. -/
theorem strstr_extend {marker more doc start : Text} (hs : strstr marker doc = some start)
    (hp : marker ++ more <+: start) : strstr (marker ++ more) doc = some start := by
  obtain ⟨hsuffix, -⟩ := strstr_some hs
  cases hr : strstr (marker ++ more) doc with
  | none => exact absurd hp (strstr_eq_none hr hsuffix)
  | some r =>
    obtain ⟨hrsuffix, hrbegins⟩ := strstr_some hr
    have h₁ := suffix_of_strstr hs hrsuffix ((List.prefix_append marker more).trans hrbegins)
    have h₂ := suffix_of_strstr hr hsuffix hp
    rw [h₁.eq_of_length (Nat.le_antisymm h₁.length_le h₂.length_le)]

theorem binding_iff (marker doc : Text) :
    cstr ((literal (afterMarker marker (marker.length + 9) doc)).getD []) =
        (bindingValue marker doc).getD [] ↔ BindingRight marker doc := by
  unfold BindingRight afterMarker
  cases hs : strstr marker doc with
  | none =>
    have hnone : bindingValue marker doc = none := by
      unfold bindingValue
      cases hr : strstr (marker ++ literalOpen) doc with
      | none => rfl
      | some r =>
        obtain ⟨hsuffix, hbegins⟩ := strstr_some hr
        exact absurd ((List.prefix_append _ _).trans hbegins) (strstr_eq_none hs hsuffix)
    rw [hnone]
    exact blank_literal _
  | some start =>
    dsimp only
    split
    next hp =>
      have hfull : marker ++ literalOpen <+: start := by
        obtain ⟨t, ht⟩ := (strstr_some hs).2
        rw [← ht, List.drop_left] at hp
        rw [← ht]
        exact (List.prefix_append_right_inj marker).mpr hp
      have hvalue : bindingValue marker doc = literal (start.drop (marker.length + 10)) := by
        unfold bindingValue
        rw [strstr_extend hs hfull, List.length_append]
        rfl
      rw [hvalue]
      exact cstr_eq_self_iff
    next =>
      cases bindingValue marker doc with
      | none => exact blank_literal _
      | some value => exact Iff.rfl

/-! ## The whole result -/

/-- The first tag ends before the second begins. -/
theorem resultOpen_before {start stop : Text} (hopen : resultOpen <+: start)
    (hclose : resultClose <+: stop) (hsuffix : stop <:+ start) (hlt : stop.length < start.length) :
    stop.length + 8 ≤ start.length := by
  obtain ⟨t, rfl⟩ := hopen
  obtain ⟨u, rfl⟩ := hclose
  have height : resultOpen.length = 8 := by decide
  refine Nat.le_of_not_lt fun hnot => ?_
  -- otherwise it begins inside the first tag, with a `<`
  have hover : t <:+ resultClose ++ u :=
    List.suffix_of_suffix_length_le (List.suffix_append _ _) hsuffix (by
      rw [List.length_append, height] at hnot
      omega)
  obtain ⟨c, hc⟩ := hover
  obtain ⟨d, hd⟩ := hsuffix
  have hparts : d ++ c = resultOpen := by
    rw [← hc, ← List.append_assoc] at hd
    exact List.append_cancel_right hd
  have hless : '<' ∉ "result>".toList := by decide
  cases d with
  | nil =>
    have hlen := congrArg List.length hd
    simp only [List.nil_append] at hlen
    omega
  | cons x d =>
    cases c with
    | nil =>
      have hlen := congrArg List.length hc
      simp only [List.nil_append, List.length_append, height] at hlen hnot
      omega
    | cons y c =>
      have hy : y = '<' := List.head_eq_of_cons_eq hc
      have htail : d ++ y :: c = "result>".toList := List.tail_eq_of_cons_eq hparts
      rw [← htail, hy] at hless
      exact hless (List.mem_append_right d List.mem_cons_self)

theorem blank_take {t : Text} {n : Nat} (hn : 0 < n) : Blank (t.take n) ↔ Blank t := by
  obtain ⟨m, rfl⟩ := Nat.exists_eq_succ_of_ne_zero (Nat.ne_of_gt hn)
  cases t with
  | nil => rw [List.take_nil]
  | cons c t => rw [List.take_succ_cons, blank_cons, blank_cons]

theorem some_cstr_iff {t : Text} : some (cstr t) = some [] ↔ Blank t := by
  rw [Option.some.injEq]
  rfl

theorem finish_reversed_iff (doc : Text) {first : Nat} {last : Int} (hlast : last ≠ -1)
    (h : last < first) :
    finish doc first last = some [] ↔ first ≤ doc.length ∧ Blank (doc.drop first) := by
  rw [finish_reversed doc hlast h]
  by_cases hdoc : doc.length < first
  · rw [if_pos hdoc]
    exact iff_of_false nofun fun h => by omega
  · rw [if_neg hdoc, some_cstr_iff]
    exact (and_iff_right (Nat.le_of_not_lt hdoc)).symm

section

variable {doc start stop : Text}

theorem find_open (hs : strstr resultOpen doc = some start) :
    find doc "<result>" 0 + 9 = ((doc.length - start.length + 9 : Nat) : Int) := by
  rw [find_some (by rwa [List.drop_zero]) (by decide)]
  omega

theorem find_close (he : strstr resultClose doc = some stop) :
    find doc "</result>" 0 - 5 = ((doc.length - stop.length : Nat) : Int) - 5 := by
  rw [find_some (by rwa [List.drop_zero]) (by decide)]

theorem find_open_none (hs : strstr resultOpen doc = none) :
    find doc "<result>" 0 + 9 = ((8 : Nat) : Int) := by
  rw [find_none (by rwa [List.drop_zero])]
  rfl

theorem find_close_none (he : strstr resultClose doc = none) :
    find doc "</result>" 0 - 5 = -6 := by
  rw [find_none (by rwa [List.drop_zero])]
  rfl

theorem length_of_open (hs : strstr resultOpen doc = some start) :
    8 ≤ start.length ∧ start.length ≤ doc.length :=
  ⟨(strstr_some hs).2.length_le, (strstr_some hs).1.length_le⟩

theorem length_of_close (he : strstr resultClose doc = some stop) :
    9 ≤ stop.length ∧ stop.length ≤ doc.length :=
  ⟨(strstr_some he).2.length_le, (strstr_some he).1.length_le⟩

/-- Behind the first tag to the end. -/
theorem finish_open (hs : strstr resultOpen doc = some start) {last : Int} (hlast : last ≠ -1)
    (h : last < (doc.length - start.length + 9 : Nat)) :
    finish doc (doc.length - start.length + 9 : Nat) last = some [] ↔
      9 ≤ start.length ∧ Blank (start.drop 9) := by
  have hlen := length_of_open hs
  have hfirst : doc.length - start.length + 9 ≤ doc.length ↔ 9 ≤ start.length := by omega
  rw [finish_reversed_iff doc hlast h, drop_position (strstr_some hs).1, hfirst]

/-- Both tags, in order. -/
theorem finish_between (hs : strstr resultOpen doc = some start)
    (he : strstr resultClose doc = some stop) (hlt : stop.length < start.length) :
    finish doc (doc.length - start.length + 9 : Nat) ((doc.length - stop.length : Nat) - 5) =
        some (trimmed start stop) ↔
      if stop.length + 14 ≤ start.length then nul ∉ trimmed start stop
      else Blank (start.drop 9) := by
  have hopen := length_of_open hs
  have hclose := length_of_close he
  have hsuffix : stop <:+ start :=
    List.suffix_of_suffix_length_le (strstr_some he).1 (strstr_some hs).1 (Nat.le_of_lt hlt)
  have hapart := resultOpen_before (strstr_some hs).2 (strstr_some he).2 hsuffix hlt
  by_cases hroom : stop.length + 14 ≤ start.length
  · have hlen : (((doc.length - stop.length : Nat) : Int) - 5 -
        (doc.length - start.length + 9 : Nat)).toNat = start.length - 9 - (stop.length + 5) := by
      omega
    rw [if_pos hroom, finish_ordered doc (by omega) (by omega) (by omega), hlen,
      drop_position (strstr_some hs).1, Option.some.injEq]
    exact cstr_eq_self_iff
  · have hnothing : trimmed start stop = [] := by
      have hzero : start.length - 9 - (stop.length + 5) = 0 := by omega
      rw [trimmed, hzero, List.take_zero]
    rw [if_neg hroom, hnothing, finish_open hs (by omega) (by omega)]
    exact and_iff_right (by omega)

/-- The second tag at position 4 is taken for one that is missing. -/
theorem finish_minus (first : Int) (h : doc.length = stop.length + 4) :
    finish doc first ((doc.length - stop.length : Nat) - 5) = some [] := by
  have hlast : ((doc.length - stop.length : Nat) : Int) - 5 = -1 := by omega
  rw [hlast, finish_missing]

/-- The second tag first. -/
theorem finish_swapped (hs : strstr resultOpen doc = some start)
    (he : strstr resultClose doc = some stop) (hle : start.length ≤ stop.length) :
    finish doc (doc.length - start.length + 9 : Nat) ((doc.length - stop.length : Nat) - 5) =
        some [] ↔
      doc.length = stop.length + 4 ∨ 9 ≤ start.length ∧ Blank (start.drop 9) := by
  have hopen := length_of_open hs
  have hclose := length_of_close he
  by_cases hminus : doc.length = stop.length + 4
  · exact iff_of_true (finish_minus _ hminus) (.inl hminus)
  · rw [finish_open hs (by omega) (by omega)]
    exact (or_iff_right hminus).symm

/-- The second tag alone: the document is cut from the place `npos` leads to. -/
theorem finish_close (he : strstr resultClose doc = some stop) :
    finish doc (8 : Nat) ((doc.length - stop.length : Nat) - 5) = some [] ↔
      doc.length = stop.length + 4 ∨ doc.length = stop.length + 13 ∨ Blank (doc.drop 8) := by
  have hclose := length_of_close he
  by_cases hminus : doc.length = stop.length + 4
  · exact iff_of_true (finish_minus _ hminus) (.inl hminus)
  rw [or_iff_right hminus]
  by_cases hbefore : doc.length < stop.length + 13
  · rw [finish_reversed_iff doc (by omega) (by omega), and_iff_right (by omega)]
    exact (or_iff_right (by omega)).symm
  · rw [finish_ordered doc (by omega) (by omega) (by omega), some_cstr_iff]
    by_cases hnone : doc.length = stop.length + 13
    · have hzero : (((doc.length - stop.length : Nat) : Int) - 5 - (8 : Nat)).toNat = 0 := by omega
      rw [hzero, List.take_zero]
      exact iff_of_true rfl (.inl hnone)
    · rw [blank_take (by omega)]
      exact (or_iff_right hnone).symm

end

theorem result_iff (doc : Text) :
    finish doc (find doc "<result>" 0 + 9) (find doc "</result>" 0 - 5) = some (expected .all doc) ↔
      ResultRight doc := by
  unfold expected ResultRight
  cases hs : strstr resultOpen doc with
  | none =>
    rw [find_open_none hs]
    cases he : strstr resultClose doc with
    | none =>
      rw [find_close_none he]
      exact finish_reversed_iff doc (by decide) (by decide)
    | some stop =>
      rw [find_close he]
      exact finish_close he
  | some start =>
    rw [find_open hs]
    cases he : strstr resultClose doc with
    | none =>
      rw [find_close_none he]
      exact finish_open hs (by decide) (by omega)
    | some stop =>
      rw [find_close he]
      dsimp only
      split
      next hlt => exact finish_between hs he hlt
      next hle => exact finish_swapped hs he (Nat.le_of_not_lt hle)

/-- Where the answer to a query is the one expected. -/
theorem respond_iff (reqType : ReqInfo) (doc : Text) :
    respond reqType doc = some (expected reqType doc) ↔ Right reqType doc := by
  cases reqType with
  | all => exact result_iff doc
  | cost =>
    have hcut := finish_marker doc (show "<binding name=\"cost_value\"".toList ≠ [] by decide) 35
    have hrespond : respond .cost doc = _ := hcut
    rw [hrespond, Option.some.injEq]
    exact binding_iff costMarker doc
  | bandwidth =>
    have hcut := finish_marker doc (show "<binding name=\"bandwidth\"".toList ≠ [] by decide) 34
    have hrespond : respond .bandwidth doc = _ := hcut
    rw [hrespond, Option.some.injEq]
    exact binding_iff bandwidthMarker doc

/-- A result that names the network and not its cost. -/
def costless : Text := "<binding name=\"network\"><literal>home</literal></binding>".toList

/-- A client that asks for the cost is sent the end of the name. And a document that ends
behind `<result>` makes `substr` throw. -/
theorem respond_misled :
    (respond .cost costless = some "me".toList ∧ expected .cost costless = []) ∧
      respond .all "<result>".toList = none := by
  decide

end Manhattan.Mih.Information
