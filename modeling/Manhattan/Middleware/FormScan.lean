import Manhattan.Lib.Search
import Manhattan.Lib.Text

/-!
# Scanning a page for its form (`postAuth` of `sm.cpp`)

`postAuth` takes the page apart with `strstr` and `strchr`: the form's address, and from
there on every `<input` with the `>` that ends it, a name and a value. The searches do
not know of each other. Whether an attribute belongs to the tag is seen by comparing
pointers, and whether a search found anything is asked of some of them: not of the one
for `>`, and the end of the form is only compared with the end of the address.

Mirroring notes:
- A pointer into the page is the page from there on, so that `p > q` is
  `p.length < q.length`; a null pointer is `none`. The page has no NUL.
- `Trouble.null` is a null pointer where a text is expected, `Trouble.behind` a search
  that starts behind the end of the page, `Trouble.rounds` a loop that has not ended
  after as many rounds as the page has characters.
- What is made of the address and the values is the subject of `PostAuth`.

`total_iff` says which pages are scanned as they should be.
-/

namespace Manhattan.Middleware.FormScan

open Manhattan.Lib

def formOpen : Text := "<form action=".toList
def formClose : Text := "</form>".toList
def inputOpen : Text := "<input".toList
def nameAttr : Text := "name=".toList
def valueAttr : Text := "value=".toList

inductive Trouble where
  | null
  | behind
  | rounds
  deriving DecidableEq, Repr

/-- An input that is added to the fields, with the pointers to its tag's ends. -/
structure Input where
  start : Text
  stop : Text
  name : Text
  value : Text
  deriving DecidableEq, Repr

/-- The text between two pointers. -/
def between (start stop : Text) : Text := start.take (start.length - stop.length)

/-- The name and the value of the tag between `posInputStart` and `posInputEnd`. -/
def attributes (posInputStart posInputEnd : Text) : Option (Text × Text) := do
  let posNameStart ← strstr nameAttr posInputStart
  let posValueStart ← strstr valueAttr posInputStart
  if posNameStart.length < posInputEnd.length || posValueStart.length < posInputEnd.length then none
  else
    let name := posNameStart.drop 6
    let posNameEnd ← strchr '"' name
    if posNameEnd.length < posValueStart.length then none
    else
      let value := posValueStart.drop 7
      let posValueEnd ← strchr '"' value
      if posValueEnd.length < posInputEnd.length then none
      else return (between name posNameEnd, between value posValueEnd)

/-- The input of that tag, if it has both, before those behind it. -/
def addInput (posInputStart posInputEnd : Text) (inputs : List Input) : List Input :=
  match attributes posInputStart posInputEnd with
  | none => inputs
  | some (name, value) => ⟨posInputStart, posInputEnd, name, value⟩ :: inputs

/-- The loop over the inputs. -/
def scanInputs : Nat → Option Text → Except Trouble (List Input)
  | 0, _ => .error .rounds
  | _ + 1, none => .ok []
  | n + 1, some posInputStart =>
    match strchr '>' posInputStart with
    | none => .error .null
    | some posInputEnd =>
      (scanInputs n (strstr inputOpen posInputEnd)).map (addInput posInputStart posInputEnd)

structure Form where
  start : Text
  stop : Text
  url : Text
  inputs : List Input
  deriving DecidableEq, Repr

/-- The scan of `postAuth`; `none` is its `return -1`. -/
def scanForm (html : Text) : Except Trouble (Option Form) :=
  match strstr formOpen html, strstr formClose html with
  | some posFormStart, some posFormEnd =>
    -- the address begins behind the quote
    if posFormStart.length < 14 then .error .behind
    else
      let posValueStart := posFormStart.drop 14
      match strchr '"' posValueStart with
      | none => .ok none
      | some posValueEnd =>
        if posValueEnd.length < posFormEnd.length then .ok none
        else
          (scanInputs (html.length + 1) (strstr inputOpen posFormStart)).map fun inputs =>
            some ⟨posFormStart, posFormEnd, between posValueStart posValueEnd, inputs⟩
  | _, _ => .ok none

/-! ## The loop -/

/-- The inputs the loop comes by, from a place in the page on: the first one, and the first
one behind each end of a tag. -/
inductive Visited (from_ : Text) : Text → Prop where
  | first {r : Text} (h : strstr inputOpen from_ = some r) : Visited from_ r
  | next {r stop r' : Text} (h : Visited from_ r) (hstop : strchr '>' r = some stop)
      (h' : strstr inputOpen stop = some r') : Visited from_ r'

theorem visited_iff {p s stop r : Text} (hs : strstr inputOpen p = some s)
    (hstop : strchr '>' s = some stop) : Visited p r ↔ r = s ∨ Visited stop r := by
  constructor
  · intro h
    induction h with
    | first h => exact .inl (Option.some.inj (h.symm.trans hs))
    | next h hend h' ih =>
      obtain rfl | ih := ih
      · rw [hstop] at hend
        cases hend
        exact .inr (.first h')
      · exact .inr (.next ih hend h')
  · intro h
    obtain rfl | h := h
    · exact .first hs
    · induction h with
      | first h => exact .next (.first hs) hstop h
      | next h hend h' ih => exact .next ih hend h'

theorem not_visited {p r : Text} (hs : strstr inputOpen p = none) : ¬Visited p r := by
  intro h
  induction h with
  | first h =>
    rw [hs] at h
    cases h
  | next h hend h' ih => exact ih

/-- Every input from `p` on is closed somewhere behind it. -/
def Closed (p : Text) : Prop := ∀ r, r <:+ p → inputOpen <+: r → '>' ∈ r

/-- What the loop collects. -/
def Collected (p : Text) (i : Input) : Prop :=
  Visited p i.start ∧ strchr '>' i.start = some i.stop ∧
    attributes i.start i.stop = some (i.name, i.value)

theorem stop_length_lt {p s stop : Text} (hs : strstr inputOpen p = some s)
    (hstop : strchr '>' s = some stop) : stop.length < p.length ∧ stop <:+ s ∧ s <:+ p := by
  obtain ⟨hsuffix, hbegins⟩ := strstr_some hs
  obtain ⟨hstopSuffix, t, ht⟩ := strchr_some hstop
  have hne : stop.length ≠ s.length := by
    intro hlen
    have heq := hstopSuffix.eq_of_length hlen
    obtain ⟨u, hu⟩ := hbegins
    rw [← hu, ht] at heq
    cases heq
  have h₁ := hstopSuffix.length_le
  have h₂ := hsuffix.length_le
  exact ⟨by omega, hstopSuffix, hsuffix⟩

theorem closed_iff {p s stop : Text} (hs : strstr inputOpen p = some s)
    (hstop : strchr '>' s = some stop) : Closed p ↔ Closed stop := by
  obtain ⟨-, hstops, hsp⟩ := stop_length_lt hs hstop
  constructor
  · intro h r hr
    exact h r (hr.trans (hstops.trans hsp))
  · intro h r hr hp
    -- the `>` of the first tag is behind `r`, or `r` is behind it
    obtain hle | hlt := Nat.lt_or_ge stop.length r.length |>.symm
    · exact h r (List.suffix_of_suffix_length_le hr (hstops.trans hsp) hle) hp
    · obtain ⟨-, t, ht⟩ := strchr_some hstop
      have hstopr := List.suffix_of_suffix_length_le (hstops.trans hsp) hr (Nat.le_of_lt hlt)
      exact hstopr.subset (ht ▸ List.mem_cons_self)

theorem mem_addInput {s stop : Text} {inputs : List Input} {i : Input} :
    i ∈ addInput s stop inputs ↔
      (i.start = s ∧ i.stop = stop ∧ attributes s stop = some (i.name, i.value)) ∨ i ∈ inputs := by
  unfold addInput
  cases ha : attributes s stop with
  | none => simp
  | some nv =>
    obtain ⟨name, value⟩ := nv
    rw [List.mem_cons]
    refine or_congr_left ?_
    constructor
    · intro hi
      rw [hi]
      exact ⟨rfl, rfl, rfl⟩
    · intro hi
      obtain ⟨h₁, h₂, h₃⟩ := hi
      cases h₃
      rw [← h₁, ← h₂]

theorem collected_iff {p s stop : Text} (hs : strstr inputOpen p = some s)
    (hstop : strchr '>' s = some stop) (i : Input) :
    Collected p i ↔
      (i.start = s ∧ i.stop = stop ∧ attributes s stop = some (i.name, i.value)) ∨
        Collected stop i := by
  unfold Collected
  rw [visited_iff hs hstop]
  constructor
  · intro h
    obtain ⟨h | h, hend, hattr⟩ := h
    · rw [h, hstop] at hend
      cases hend
      rw [h] at hattr
      exact .inl ⟨h, rfl, hattr⟩
    · exact .inr ⟨h, hend, hattr⟩
  · intro h
    obtain h | h := h
    · obtain ⟨h₁, h₂, h₃⟩ := h
      rw [h₁, h₂]
      exact ⟨.inl rfl, hstop, h₃⟩
    · exact ⟨.inr h.1, h.2⟩

theorem scanInputs_spec : ∀ (n : Nat) (p : Text), p.length < n →
    (Closed p → ∃ inputs, scanInputs n (strstr inputOpen p) = .ok inputs ∧
        ∀ i, i ∈ inputs ↔ Collected p i) ∧
      (¬Closed p → scanInputs n (strstr inputOpen p) = .error .null)
  | 0, _, hn => absurd hn (Nat.not_lt_zero _)
  | n + 1, p, hn => by
    cases hs : strstr inputOpen p with
    | none =>
      have hclosed : Closed p := fun r hr hp => absurd hp (strstr_eq_none hs hr)
      refine ⟨fun _ => ⟨[], rfl, fun i => ?_⟩, fun h => absurd hclosed h⟩
      exact iff_of_false List.not_mem_nil fun h => not_visited hs h.1
    | some s =>
      cases hstop : strchr '>' s with
      | none =>
        obtain ⟨hsuffix, hbegins⟩ := strstr_some hs
        refine ⟨fun h => ?_, fun _ => by rw [scanInputs, hstop]⟩
        exact absurd (h s hsuffix hbegins) (strchr_eq_none_iff.mp hstop)
      | some stop =>
        have hlt := (stop_length_lt hs hstop).1
        obtain ⟨hok, hnull⟩ := scanInputs_spec n stop (by omega)
        have hscan : scanInputs (n + 1) (some s) =
            (scanInputs n (strstr inputOpen stop)).map (addInput s stop) := by
          rw [scanInputs, hstop]
        rw [closed_iff hs hstop, hscan]
        constructor
        · intro h
          obtain ⟨inputs, hrest, hmem⟩ := hok h
          refine ⟨addInput s stop inputs, by rw [hrest]; rfl, fun i => ?_⟩
          rw [mem_addInput, hmem, collected_iff hs hstop]
        · intro h
          rw [hnull h]
          rfl

/-! ## The page -/

/-- The scan ends, never searches at a null pointer or behind the page, takes an address
that fits `url`, and collects inputs between the two tags of the form only. -/
structure Total (html : Text) : Prop where
  ends : scanForm html ≠ .error .rounds
  noNull : scanForm html ≠ .error .null
  inPage : scanForm html ≠ .error .behind
  url : ∀ f, scanForm html = .ok (some f) → f.url.length ≤ 999
  inputs : ∀ f, scanForm html = .ok (some f) → ∀ i ∈ f.inputs,
    i.start.length < f.start.length ∧ f.stop.length < i.stop.length

/-- The pages for which it does: there is something behind `<form action=`, and if the
address ends before `</form>`, it has at most 999 characters, every `<input` from the form
on is closed, and those behind `</form>` have no name or value. -/
def Tame (html : Text) : Prop :=
  ∀ start stop, strstr formOpen html = some start → strstr formClose html = some stop →
    14 ≤ start.length ∧
    ∀ stopUrl, strchr '"' (start.drop 14) = some stopUrl → stop.length ≤ stopUrl.length →
      (between (start.drop 14) stopUrl).length ≤ 999 ∧ Closed start ∧
        ∀ i, Collected start i → stop.length < i.stop.length

theorem collected_length {start : Text} (h : formOpen <+: start) {i : Input}
    (hi : Collected start i) : i.start.length < start.length := by
  have hvisited : ∀ r, Visited start r → r <:+ start ∧ inputOpen <+: r := by
    intro r hr
    induction hr with
    | first hs => exact strstr_some hs
    | next hr hstop hs ih =>
      obtain ⟨hsuffix, hbegins⟩ := strstr_some hs
      exact ⟨hsuffix.trans ((strchr_some hstop).1.trans ih.1), hbegins⟩
  obtain ⟨hsuffix, hbegins⟩ := hvisited _ hi.1
  have hle := hsuffix.length_le
  refine Nat.lt_of_le_of_ne hle fun hlen => ?_
  -- the form does not begin with `<input`
  rw [hsuffix.eq_of_length hlen] at hbegins
  have := List.prefix_of_prefix_length_le hbegins h (by decide)
  exact absurd this (by decide)

theorem total_of_none {html : Text} (h : scanForm html = .ok none) : Total html := by
  constructor
  · rw [h]
    exact nofun
  · rw [h]
    exact nofun
  · rw [h]
    exact nofun
  · intro f hf
    rw [h] at hf
    cases hf
  · intro f hf
    rw [h] at hf
    cases hf

section

variable {html start stop stopUrl : Text} (hstart : strstr formOpen html = some start)
  (hstop : strstr formClose html = some stop)

include hstart hstop

theorem scanForm_behind (hlen : start.length < 14) : scanForm html = .error .behind := by
  unfold scanForm
  rw [hstart, hstop]
  exact if_pos hlen

theorem scanForm_noUrl (hlen : ¬start.length < 14) (hurl : strchr '"' (start.drop 14) = none) :
    scanForm html = .ok none := by
  unfold scanForm
  rw [hstart, hstop]
  dsimp only
  rw [if_neg hlen, hurl]

theorem scanForm_url (hlen : ¬start.length < 14)
    (hurl : strchr '"' (start.drop 14) = some stopUrl) :
    scanForm html =
      if stopUrl.length < stop.length then .ok none
      else (scanInputs (html.length + 1) (strstr inputOpen start)).map fun inputs =>
        some ⟨start, stop, between (start.drop 14) stopUrl, inputs⟩ := by
  unfold scanForm
  rw [hstart, hstop]
  dsimp only
  rw [if_neg hlen, hurl]

/-- The case of a form whose inputs are all closed. -/
theorem total_iff_of_form (hlen : ¬start.length < 14)
    (hurl : strchr '"' (start.drop 14) = some stopUrl) (hle : ¬stopUrl.length < stop.length)
    (hclosed : Closed start) :
    Total html ↔ (between (start.drop 14) stopUrl).length ≤ 999 ∧
      ∀ i, Collected start i → stop.length < i.stop.length := by
  obtain ⟨hsuffix, hbegins⟩ := strstr_some hstart
  obtain ⟨hok, -⟩ := scanInputs_spec (html.length + 1) start (Nat.lt_succ_of_le hsuffix.length_le)
  obtain ⟨inputs, hscan, hmem⟩ := hok hclosed
  have hform : scanForm html =
      .ok (some ⟨start, stop, between (start.drop 14) stopUrl, inputs⟩) := by
    rw [scanForm_url hstart hstop hlen hurl, if_neg hle, hscan]
    rfl
  constructor
  · intro h
    exact ⟨h.url _ hform, fun i hi => (h.inputs _ hform i ((hmem i).mpr hi)).2⟩
  · intro h
    obtain ⟨h999, hin⟩ := h
    constructor
    · rw [hform]
      exact nofun
    · rw [hform]
      exact nofun
    · rw [hform]
      exact nofun
    · intro f hf
      rw [hform] at hf
      cases hf
      exact h999
    · intro f hf i hi
      rw [hform] at hf
      cases hf
      have hcol := (hmem i).mp hi
      exact ⟨collected_length hbegins hcol, hin i hcol⟩

end

theorem total_iff (html : Text) : Total html ↔ Tame html := by
  cases hstart : strstr formOpen html with
  | none =>
    refine iff_of_true (total_of_none ?_) fun start stop h _ => ?_
    · unfold scanForm
      rw [hstart]
    · rw [hstart] at h
      cases h
  | some start =>
    cases hstop : strstr formClose html with
    | none =>
      refine iff_of_true (total_of_none ?_) fun start stop _ h => ?_
      · unfold scanForm
        rw [hstart, hstop]
      · rw [hstop] at h
        cases h
    | some stop =>
      have htame : Tame html ↔ 14 ≤ start.length ∧
          ∀ stopUrl, strchr '"' (start.drop 14) = some stopUrl → stop.length ≤ stopUrl.length →
            (between (start.drop 14) stopUrl).length ≤ 999 ∧ Closed start ∧
              ∀ i, Collected start i → stop.length < i.stop.length := by
        refine ⟨fun h => h start stop hstart hstop, fun h s e hs he => ?_⟩
        rw [hstart] at hs
        rw [hstop] at he
        cases hs
        cases he
        exact h
      rw [htame]
      by_cases hlen : start.length < 14
      · refine iff_of_false (fun h => ?_) fun h => by omega
        exact h.inPage (scanForm_behind hstart hstop hlen)
      · cases hurl : strchr '"' (start.drop 14) with
        | none =>
          refine iff_of_true (total_of_none (scanForm_noUrl hstart hstop hlen hurl)) ?_
          exact ⟨Nat.le_of_not_lt hlen, nofun⟩
        | some stopUrl =>
          simp only [Option.some.injEq, forall_eq', Nat.le_of_not_lt hlen, true_and]
          by_cases hle : stopUrl.length < stop.length
          · refine iff_of_true (total_of_none ?_) fun h => absurd h (Nat.not_le_of_lt hle)
            rw [scanForm_url hstart hstop hlen hurl, if_pos hle]
          · by_cases hclosed : Closed start
            · rw [total_iff_of_form hstart hstop hlen hurl hle hclosed]
              simp only [Nat.le_of_not_lt hle, hclosed, true_and, true_implies]
            · refine iff_of_false (fun h => h.noNull ?_) fun h =>
                hclosed (h (Nat.le_of_not_lt hle)).2.1
              have hsuffix := (strstr_some hstart).1
              rw [scanForm_url hstart hstop hlen hurl, if_neg hle,
                (scanInputs_spec _ start (Nat.lt_succ_of_le hsuffix.length_le)).2 hclosed]
              rfl

/-- A page that ends in an open input makes the scan search at a null pointer; an input
behind `</form>` is collected. -/
theorem scanForm_troubled :
    scanForm "<form action=\"u\"></form><input".toList = .error .null ∧
    (match scanForm ("<form action=\"u\"></form>".toList ++
        "<input name=\"n\" value=\"v\">".toList) with
      | .ok (some f) => f.inputs.map fun i =>
          (i.name, i.value, decide (f.stop.length < i.stop.length))
      | _ => []) = [("n".toList, "v".toList, false)] := by
  decide

end Manhattan.Middleware.FormScan
