import Manhattan.Lib.Guarded
import Manhattan.Middleware.FormScan
import Manhattan.Middleware.Replace

/-!
# Posting a form (`postAuth` of `sm.cpp`)

The fields of the form are collected in `postFields`, joined by `&`. Each value is copied
to the array `result`, escaped there in three passes of `replace`, and appended from
there. `strncpy` copies the characters of the value and no terminator: where the value
ends in the array is decided by what an earlier value left behind it.

Mirroring notes:
- An array is a text that is continued with NUL characters; `State.result` is the whole
  array, what is behind the string in it included.
- The scan of the page is `FormScan`, and `replace` is `Replace`. In the source the fields
  are added while the page is scanned; neither reads what the other writes.
- `State.fields` records what was appended for each input.
- A store outside an array ends the call with a fault, and so does a value that fills
  `result` to its last character, since its string has no end.

`fields_iff` says for which pages every field is the one of its own input.
-/

namespace Manhattan.Middleware.PostAuth

open Manhattan.Lib FormScan Replace

def urlSize : Nat := 1000
def fieldsSize : Nat := 100000
def resultSize : Nat := 100000

def colonEntity : Text := "&#x3a;".toList
def slashEntity : Text := "&#x2f;".toList

/-- `strncpy` of a text from the page: its characters, and nothing behind them. -/
def copyOver (size : Nat) (t array : Text) : Except Fault Text :=
  if t.length < size then .ok (t ++ array.drop t.length) else .error .overflow

/-- `replace` on the string in an array. -/
def replaceIn (size : Nat) (sub newSub array : Text) : Except Fault Text :=
  (replace size sub newSub (cstr array)).map fun t => store t array

/-- The address, as it is used. -/
def copyUrl (url : Text) : Except Fault Text := do
  let array ← copyOver urlSize url []
  let array ← replaceIn urlSize colonEntity ":".toList array
  let array ← replaceIn urlSize slashEntity "/".toList array
  return cstr array

/-- The three escapes, in `result`. -/
def encodeIn (result : Text) : Except Fault Text := do
  let result ← replaceIn resultSize colonEntity "%3A".toList result
  let result ← replaceIn resultSize "=".toList "%3D".toList result
  replaceIn resultSize "+".toList "%2B".toList result

structure State where
  postFields : Text
  result : Text
  fields : List Text
  deriving DecidableEq, Repr

/-- Both arrays are cleared at the start. -/
def State.initial : State := ⟨[], [], []⟩

/-- The `&` in front of every field but the first. -/
def separate (postFields : Text) : Except Fault Text :=
  if postFields = [] then .ok postFields else append fieldsSize postFields ['&']

/-- One input. -/
def addField (st : State) (name value : Text) : Except Fault State := do
  let postFields ← separate st.postFields
  let postFields ← append fieldsSize postFields name
  let postFields ← append fieldsSize postFields ['=']
  let result ← copyOver resultSize value st.result
  let result ← encodeIn result
  let postFields ← append fieldsSize postFields (cstr result)
  return ⟨postFields, result, st.fields ++ [name ++ '=' :: cstr result]⟩

def addFields : List (Text × Text) → State → Except Fault State
  | [], st => .ok st
  | input :: inputs, st => do
    let st ← addField st input.1 input.2
    addFields inputs st

inductive Failure where
  | scan (trouble : Trouble)
  | array (fault : Fault)
  deriving DecidableEq, Repr

/-- The address and the fields of a form. -/
def postForm (f : Form) : Except Fault (Text × State) := do
  let url ← copyUrl f.url
  let st ← addFields (f.inputs.map fun i => (i.name, i.value)) .initial
  return (url, st)

/-- `postAuth`, up to the request: the address and the fields, or its `return -1`. -/
def postAuth (html : Text) : Except Failure (Option (Text × State)) :=
  match scanForm html with
  | .error trouble => .error (.scan trouble)
  | .ok none => .ok none
  | .ok (some f) =>
    match postForm f with
    | .error fault => .error (.array fault)
    | .ok posted => .ok (some posted)

/-! ## The encoding of a value -/

/-- The three replacements. -/
def encode (value : Text) : Text :=
  replaceAll "+".toList "%2B".toList
    (replaceAll "=".toList "%3D".toList (replaceAll colonEntity "%3A".toList value))

/-- The field of an input. -/
def field (input : Text × Text) : Text := input.1 ++ '=' :: encode input.2

/-- The last two replacements, character by character. -/
def escape (t : Text) : Text :=
  (t.flatMap fun c => if c = '=' then "%3D".toList else [c]).flatMap fun c =>
    if c = '+' then "%2B".toList else [c]

theorem encode_eq (value : Text) :
    encode value = escape (replaceAll colonEntity "%3A".toList value) := by
  unfold encode escape
  rw [← replaceAll_singleton, ← replaceAll_singleton]
  rfl

theorem escape_append (t u : Text) : escape (t ++ u) = escape t ++ escape u := by
  unfold escape
  rw [List.flatMap_append, List.flatMap_append]

theorem escape_cons {c : Char} (h : c ≠ '=') (h' : c ≠ '+') (t : Text) :
    escape (c :: t) = c :: escape t := by
  unfold escape
  rw [List.flatMap_cons, if_neg h, List.singleton_append, List.flatMap_cons, if_neg h',
    List.singleton_append]

theorem escape_eq_nil {t : Text} (h : escape t = []) : t = [] := by
  unfold escape at h
  rw [← replaceAll_singleton, ← replaceAll_singleton] at h
  refine Classical.byContradiction fun ht => ?_
  exact replaceAll_ne_nil (by decide) (by decide)
    (replaceAll_ne_nil (by decide) (by decide) ht) h

theorem colonEntity_ne : colonEntity ≠ [] := by decide

/-- More text is never encoded like less. -/
theorem encode_append {value rest : Text} (h : encode (value ++ rest) = encode value) :
    rest = [] := by
  rw [encode_eq, encode_eq] at h
  obtain happ | ⟨u, q, w, hq, hbegins, hv, hvr⟩ :=
    replaceAll_append_cases colonEntity_ne "%3A".toList value rest
  · rw [happ, escape_append] at h
    have hrest := escape_eq_nil (List.append_right_eq_self.mp h)
    refine Classical.byContradiction fun hne => ?_
    exact replaceAll_ne_nil colonEntity_ne (by decide) hne hrest
  · -- the entity reaches over the end: its first character is not that of `%3A`
    have hentity : colonEntity = '&' :: "#x3a;".toList := by decide
    have hescape : "%3A".toList ++ w = '%' :: ("3A".toList ++ w) := rfl
    obtain ⟨c, q, rfl⟩ := List.exists_cons_of_ne_nil hq
    rw [hentity] at hbegins
    obtain ⟨rfl, -⟩ := List.cons_prefix_cons.mp hbegins
    rw [hvr, hv, hescape, escape_append, escape_append] at h
    have hhead := List.append_cancel_left h
    rw [escape_cons (by decide) (by decide), escape_cons (by decide) (by decide)] at hhead
    cases hhead

/-! ## One value in the array -/

section

variable {size : Nat} {sub : Text} (hne : sub ≠ []) (newSub array : Text)

include hne

theorem replace_guarded (str : Text) :
    Guarded (Fits size sub newSub str) (replace size sub newSub str).toOption
      (replaceAll sub newSub str) :=
  .ofExcept (replace_ok hne newSub) (replace_error hne newSub)

theorem not_mem_replaceAll {t : Text} (ht : nul ∉ t) (hnew : nul ∉ newSub) :
    nul ∉ replaceAll sub newSub t :=
  fun h => (mem_replaceAll hne t h).elim hnew ht

/-- One pass over the string in an array: the room it needs, and the string it leaves. -/
theorem replaceIn_pass {value : Text} (hvalue : cstr array = value) (hnew : nul ∉ newSub) :
    Guarded (Fits size sub newSub value) (replaceIn size sub newSub array).toOption
        (store (replaceAll sub newSub value) array) ∧
      cstr (store (replaceAll sub newSub value) array) = replaceAll sub newSub value := by
  have hmap : (replaceIn size sub newSub array).toOption =
      (replace size sub newSub (cstr array)).toOption.map fun t => store t array := by
    unfold replaceIn
    cases replace size sub newSub (cstr array) <;> rfl
  have hnul : nul ∉ value := hvalue ▸ not_mem_cstr array
  rw [hmap, hvalue]
  exact ⟨(replace_guarded hne newSub value).map _,
    cstr_store (not_mem_replaceAll hne newSub hnul hnew) array⟩

end

/-- The three passes have room. -/
def EncodeFits (value : Text) : Prop :=
  Fits resultSize colonEntity "%3A".toList value ∧
  Fits resultSize "=".toList "%3D".toList (replaceAll colonEntity "%3A".toList value) ∧
  Fits resultSize "+".toList "%2B".toList
    (replaceAll "=".toList "%3D".toList (replaceAll colonEntity "%3A".toList value))

/-- The array after the three passes: each leaves the end of what was there before, where
that was longer. -/
def encoded (result : Text) : Text :=
  let value := cstr result
  store (encode value)
    (store (replaceAll "=".toList "%3D".toList (replaceAll colonEntity "%3A".toList value))
      (store (replaceAll colonEntity "%3A".toList value) result))

theorem not_mem_encode {value : Text} (h : nul ∉ value) : nul ∉ encode value := by
  unfold encode
  refine not_mem_replaceAll (by decide) _ ?_ (by decide)
  refine not_mem_replaceAll (by decide) _ ?_ (by decide)
  exact not_mem_replaceAll colonEntity_ne _ h (by decide)

theorem cstr_encoded (result : Text) : cstr (encoded result) = encode (cstr result) :=
  cstr_store (not_mem_encode (not_mem_cstr result)) _

theorem encodeIn_guarded (result : Text) :
    Guarded (EncodeFits (cstr result)) (encodeIn result).toOption (encoded result) := by
  have hequals : "=".toList ≠ [] := by decide
  have hplus : "+".toList ≠ [] := by decide
  obtain ⟨g₁, h₁⟩ := replaceIn_pass colonEntity_ne "%3A".toList result rfl (by decide)
  obtain ⟨g₂, h₂⟩ := replaceIn_pass hequals "%3D".toList _ h₁ (by decide)
  obtain ⟨g₃, -⟩ := replaceIn_pass hplus "%2B".toList _ h₂ (by decide)
  exact g₁.exceptBind (g₂.exceptBind g₃)

/-! ## One field -/

/-- The fields so far, ready for one more. -/
def opened (postFields : Text) : Text := if postFields = [] then [] else postFields ++ ['&']

/-- The fields so far with one more. -/
def extend (postFields f : Text) : Text := opened postFields ++ f

/-- What stands in the array once a value is copied over it. -/
def copied (result value : Text) : Text := value ++ result.drop value.length

/-- The string there: the value, and what an earlier one left behind it. -/
def seen (result value : Text) : Text := value ++ cstr (result.drop value.length)

theorem cstr_copied {value : Text} (h : nul ∉ value) (result : Text) :
    cstr (copied result value) = seen result value := cstr_append_left h _

/-- The value is followed by a terminator in the array. -/
def Ended (result value : Text) : Prop := cstr (result.drop value.length) = []

theorem seen_of_ended {result value : Text} (h : Ended result value) :
    seen result value = value := by
  unfold seen
  rw [show cstr (result.drop value.length) = [] from h, List.append_nil]

theorem ended_of_encode {result value : Text}
    (h : encode (seen result value) = encode value) : Ended result value := encode_append h

theorem append_guarded (len : Nat) (newStr t : Text) :
    Guarded (newStr.length + t.length < len) (append len newStr t).toOption (newStr ++ t) :=
  .ofExcept append_ok append_error

theorem separate_guarded (postFields : Text) :
    Guarded ((opened postFields).length < fieldsSize) (separate postFields).toOption
      (opened postFields) := by
  unfold separate opened
  by_cases hnil : postFields = []
  · rw [if_pos hnil, if_pos hnil, hnil]
    exact (Guarded.pure []).congr (iff_of_true trivial (by decide))
  · rw [if_neg hnil, if_neg hnil]
    exact (append_guarded fieldsSize postFields ['&']).congr (by rw [List.length_append])

theorem copyOver_guarded (size : Nat) (t array : Text) :
    Guarded (t.length < size) (copyOver size t array).toOption (copied array t) :=
  .ofExcept (fun h => if_pos h) fun h => if_neg h

/-- Room for one more field. -/
def FieldFits (st : State) (name value : Text) : Prop :=
  value.length < resultSize ∧ EncodeFits (seen st.result value) ∧
    (extend st.postFields (field (name, seen st.result value))).length < fieldsSize

/-- The state with it. -/
def withField (st : State) (name value : Text) : State :=
  let f := field (name, seen st.result value)
  ⟨extend st.postFields f, encoded (copied st.result value), st.fields ++ [f]⟩

theorem addField_guarded (st : State) (name : Text) {value : Text} (hnul : nul ∉ value) :
    Guarded (FieldFits st name value) (addField st name value).toOption
      (withField st name value) := by
  have hstring : cstr (encoded (copied st.result value)) = encode (seen st.result value) := by
    rw [cstr_encoded, cstr_copied hnul]
  have hencode := encodeIn_guarded (copied st.result value)
  rw [cstr_copied hnul] at hencode
  have hlast := append_guarded fieldsSize (opened st.postFields ++ name ++ ['='])
    (cstr (encoded (copied st.result value)))
  refine Guarded.congr ((separate_guarded st.postFields).exceptBind
    ((append_guarded _ _ name).exceptBind ((append_guarded _ _ ['=']).exceptBind
      ((copyOver_guarded resultSize value st.result).exceptBind
        (hencode.exceptBind (hlast.exceptBind_ok ?_)))))) ?_
  · rw [hstring]
    show Except.ok (State.mk _ _ _) = .ok (State.mk _ _ _)
    simp only [extend, field, List.append_assoc, List.singleton_append]
  · unfold FieldFits extend field
    rw [hstring]
    simp only [List.length_append, List.length_cons, List.length_nil]
    -- the fields grow, so there was room for the parts if there is for the whole
    constructor
    · intro h
      obtain ⟨-, -, -, hvalue, hfits, htotal⟩ := h
      exact ⟨hvalue, hfits, by omega⟩
    · intro h
      obtain ⟨hvalue, hfits, htotal⟩ := h
      exact ⟨by omega, by omega, by omega, hvalue, hfits, by omega⟩

/-! ## All fields -/

/-- The values find a terminator behind them, and the passes have room. -/
def Clean : Text → List Text → Prop
  | _, [] => True
  | result, value :: values =>
    Ended result value ∧ value.length < resultSize ∧ EncodeFits value ∧
      Clean (encoded (copied result value)) values

instance decEncodeFits (value : Text) : Decidable (EncodeFits value) :=
  inferInstanceAs (Decidable (_ ∧ _ ∧ _))

instance decClean : (result : Text) → (values : List Text) → Decidable (Clean result values)
  | _, [] => isTrue trivial
  | result, value :: values =>
    have := decClean (encoded (copied result value)) values
    inferInstanceAs (Decidable (cstr (result.drop value.length) = [] ∧ _ ∧ _ ∧ _))

theorem length_le_extend (p f : Text) : p.length ≤ (extend p f).length := by
  unfold extend opened
  split
  next h =>
    rw [h]
    exact Nat.zero_le _
  next =>
    rw [List.length_append, List.length_append]
    omega

theorem length_le_foldl (fs : List Text) (p : Text) :
    p.length ≤ (fs.foldl extend p).length := by
  induction fs generalizing p with
  | nil => exact Nat.le_refl _
  | cons f fs ih => exact (length_le_extend p f).trans (ih (extend p f))

theorem addFields_cons {input : Text × Text} (hnul : nul ∉ input.2)
    (inputs : List (Text × Text)) (st st' : State) :
    addFields (input :: inputs) st = .ok st' ↔
      FieldFits st input.1 input.2 ∧ addFields inputs (withField st input.1 input.2) = .ok st' := by
  have hfield := addField_guarded st input.1 hnul
  have hbind : addFields (input :: inputs) st =
      (addField st input.1 input.2).bind (addFields inputs) := rfl
  by_cases hfits : FieldFits st input.1 input.2
  · rw [hbind, hfield.eq_ok_iff.mpr ⟨hfits, rfl⟩]
    exact (and_iff_right hfits).symm
  · refine iff_of_false (fun h => ?_) fun h => hfits h.1
    rw [hbind] at h
    cases hadd : addField st input.1 input.2 with
    | error e =>
      rw [hadd] at h
      cases h
    | ok st₁ => exact hfits (hfield.eq_ok_iff.mp hadd).1

section

variable {inputs : List (Text × Text)}

/-- Whatever is added, it is added to the fields and to the text alike. -/
theorem addFields_grows (hnul : ∀ i ∈ inputs, nul ∉ i.2) {st st' : State}
    (h : addFields inputs st = .ok st') :
    ∃ fs, st'.fields = st.fields ++ fs ∧ st'.postFields = fs.foldl extend st.postFields := by
  induction inputs generalizing st with
  | nil =>
    cases h
    exact ⟨[], (List.append_nil _).symm, rfl⟩
  | cons input inputs ih =>
    rw [List.forall_mem_cons] at hnul
    rw [addFields_cons hnul.1] at h
    obtain ⟨fs, hfs, hpost⟩ := ih hnul.2 h.2
    refine ⟨field (input.1, seen st.result input.2) :: fs, ?_, hpost⟩
    rw [hfs]
    exact List.append_assoc _ _ _

/-- By induction on the inputs: the first field that is not its own input's stays in the
list, and up to there the array is the one `Clean` speaks of. -/
theorem addFields_iff (hnul : ∀ i ∈ inputs, nul ∉ i.2) {st : State}
    (hst : st.postFields.length < fieldsSize) :
    (∃ st', addFields inputs st = .ok st' ∧ st'.fields = st.fields ++ inputs.map field) ↔
      Clean st.result (inputs.map Prod.snd) ∧
        ((inputs.map field).foldl extend st.postFields).length < fieldsSize := by
  induction inputs generalizing st with
  | nil =>
    refine iff_of_true ⟨st, rfl, (List.append_nil _).symm⟩ ⟨trivial, hst⟩
  | cons input inputs ih =>
    rw [List.forall_mem_cons] at hnul
    have hfields : (withField st input.1 input.2).fields =
        st.fields ++ [field (input.1, seen st.result input.2)] := rfl
    constructor
    · intro h
      obtain ⟨st', hrun, hst'⟩ := h
      obtain ⟨hfits, hrest⟩ := (addFields_cons hnul.1 inputs st st').mp hrun
      obtain ⟨fs, hfs, -⟩ := addFields_grows hnul.2 hrest
      have heq : field (input.1, seen st.result input.2) :: fs = (input :: inputs).map field := by
        rw [hfs, hfields, List.append_assoc] at hst'
        exact List.append_cancel_left hst'
      rw [List.map_cons, List.cons.injEq] at heq
      obtain ⟨hfirst, hothers⟩ := heq
      have hended : Ended st.result input.2 := by
        refine ended_of_encode ?_
        have := List.append_cancel_left hfirst
        exact List.tail_eq_of_cons_eq this
      have hseen := seen_of_ended hended
      obtain ⟨hclean, htotal⟩ := (ih hnul.2 hfits.2.2).mp ⟨st', hrest, by rw [hfs, hothers]⟩
      refine ⟨⟨hended, hfits.1, hseen ▸ hfits.2.1, hclean⟩, ?_⟩
      unfold withField at htotal
      rwa [hseen] at htotal
    · intro h
      obtain ⟨⟨hended, hvalue, hencode, hclean⟩, htotal⟩ := h
      have hseen := seen_of_ended hended
      have hpost : (withField st input.1 input.2).postFields =
          extend st.postFields (field input) := by
        unfold withField
        rw [hseen]
      have hroom : (extend st.postFields (field input)).length < fieldsSize :=
        Nat.lt_of_le_of_lt (length_le_foldl (inputs.map field) _) htotal
      have hfits : FieldFits st input.1 input.2 := by
        unfold FieldFits
        rw [hseen]
        exact ⟨hvalue, hencode, hroom⟩
      have hnext : (withField st input.1 input.2).postFields.length < fieldsSize := by
        rwa [hpost]
      obtain ⟨st', hrest, hst'⟩ :=
        (ih hnul.2 hnext).mpr ⟨hclean, by rw [hpost]; exact htotal⟩
      refine ⟨st', (addFields_cons hnul.1 inputs st st').mpr ⟨hfits, hrest⟩, ?_⟩
      rw [hst', hfields, hseen, List.append_assoc]
      rfl

end

/-- The text of the fields is their `&`-join. -/
theorem foldl_extend_of_ne {p : Text} (hp : p ≠ []) (fs : List Text) :
    fs.foldl extend p = p ++ fs.flatMap ('&' :: ·) := by
  induction fs generalizing p with
  | nil => exact (List.append_nil p).symm
  | cons f fs ih =>
    have hext : extend p f = p ++ '&' :: f := by
      unfold extend opened
      rw [if_neg hp, List.append_assoc]
      rfl
    have hne : extend p f ≠ [] := by
      rw [hext]
      exact List.append_ne_nil_of_left_ne_nil hp _
    rw [List.foldl_cons, ih hne, hext, List.flatMap_cons, List.append_assoc]

theorem joined_cons (f : Text) (fs : List Text) :
    joined '&' (f :: fs) = f ++ fs.flatMap ('&' :: ·) := by
  induction fs generalizing f with
  | nil => exact (List.append_nil f).symm
  | cons g fs ih => rw [joined, ih, List.flatMap_cons, List.cons_append]

theorem field_ne_nil (input : Text × Text) : field input ≠ [] :=
  List.append_ne_nil_of_right_ne_nil _ (List.cons_ne_nil _ _)

theorem foldl_extend_fields (inputs : List (Text × Text)) :
    (inputs.map field).foldl extend [] = joined '&' (inputs.map field) := by
  cases inputs with
  | nil => rfl
  | cons input inputs =>
    rw [List.map_cons, List.foldl_cons, joined_cons]
    exact foldl_extend_of_ne (field_ne_nil input) _

/-! ## Pages -/

theorem between_append (a b : Text) : between (a ++ b) b = a := by
  unfold between
  rw [List.length_append, Nat.add_sub_cancel, List.take_left]

/-- How the text of an attribute is quoted. -/
inductive Quote where
  | double
  | single
  | bare
  deriving DecidableEq, Repr

def Quote.mark : Quote → Text
  | double => "\"".toList
  | single => "'".toList
  | bare => []

/-- The text of an attribute, which its own quote ends. -/
structure Attr where
  quote : Quote
  text : Text
  ends : ∀ c ∈ quote.mark, c ∉ text

def Attr.quoted (a : Attr) : Text := a.quote.mark ++ (a.text ++ a.quote.mark)

/-- An input with a name and a value, in that order. Other attributes may stand in front of
them, between and behind. -/
structure Tag where
  before : Text
  name : Attr
  middle : Text
  value : Attr
  after : Text

/-- The tag from its value on, up to the `>` that ends it. -/
def Tag.valueText (t : Tag) : Text := valueAttr ++ (t.value.quoted ++ t.after)

/-- The tag up to the `>` that ends it. -/
def Tag.text (t : Tag) : Text :=
  inputOpen ++ t.before ++ (nameAttr ++ (t.name.quoted ++ (t.middle ++ t.valueText)))

def Tag.input (t : Tag) : Text × Text := (t.name.text, t.value.text)

/-- Both attributes are in double quotes and are the first of their kind, also as parts of
other words, and the `>` behind the tag is its first. -/
structure Tag.Plain (t : Tag) : Prop where
  name : t.name.quote = .double
  value : t.value.quote = .double
  nameFirst : ¬nameAttr <:+: inputOpen ++ t.before
  valueFirst : ¬valueAttr <:+:
    inputOpen ++ t.before ++ nameAttr ++ '"' :: t.name.text ++ '"' :: t.middle
  noEnd : '>' ∉ t.before ++ t.name.text ++ t.middle ++ t.value.text ++ t.after

/-- The tags with the text in front of each, and the rest of the page. -/
def body : List (Text × Tag) → Text → Text
  | [], rest => rest
  | (gap, t) :: tags, rest => gap ++ (t.text ++ '>' :: body tags rest)

/-- A page with a form, whose inputs from there on all carry a name and a value. -/
structure Page where
  before : Text
  url : Text
  tags : List (Text × Tag)
  rest : Text
  noNul : nul ∉ before ++ (formOpen ++ '"' :: (url ++ '"' :: body tags rest))

/-- The page from the form on. -/
def Page.form (p : Page) : Text := formOpen ++ '"' :: (p.url ++ '"' :: body p.tags p.rest)

def Page.text (p : Page) : Text := p.before ++ p.form

/-- The names and values of its inputs, in order. -/
def Page.inputs (p : Page) : List (Text × Text) := p.tags.map fun g => g.2.input

/-- The searches of `postAuth` find the form and its inputs where they are: the form is the
first one, is closed behind its address and not before, the inputs are plain, and there is
no `<input` between them. -/
structure Page.Plain (p : Page) : Prop where
  formFirst : ¬formOpen <:+: p.before
  urlQuote : '"' ∉ p.url
  notClosed : ¬formClose <:+: p.before ++ formOpen ++ '"' :: p.url
  closed : formClose <:+: body p.tags p.rest
  tags : ∀ g ∈ p.tags, g.2.Plain
  noOther : ¬inputOpen <:+: formOpen ++ '"' :: p.url
  gaps : ∀ g ∈ p.tags, ¬inputOpen <:+: g.1
  noOtherRest : ¬inputOpen <:+: p.rest

section

variable {t : Tag} (ht : t.Plain) (rest : Text)

include ht

/-- The text of a plain tag, with its quotes. -/
theorem Tag.Plain.valueText_eq :
    t.valueText = valueAttr ++ '"' :: (t.value.text ++ '"' :: t.after) := by
  unfold Tag.valueText Attr.quoted
  rw [ht.value]
  show valueAttr ++ ('"' :: (t.value.text ++ ['"']) ++ t.after) = _
  rw [List.cons_append, List.append_assoc]
  rfl

theorem Tag.Plain.text_eq :
    t.text = inputOpen ++ t.before ++
      (nameAttr ++ '"' :: (t.name.text ++ '"' :: (t.middle ++ t.valueText))) := by
  unfold Tag.text Attr.quoted
  rw [ht.name]
  show _ ++ (nameAttr ++ ('"' :: (t.name.text ++ ['"']) ++ (t.middle ++ t.valueText))) = _
  rw [List.cons_append, List.append_assoc t.name.text]
  rfl

theorem strstr_name :
    strstr nameAttr (t.text ++ rest) =
      some (nameAttr ++ '"' :: (t.name.text ++ '"' :: (t.middle ++ t.valueText)) ++ rest) := by
  rw [ht.text_eq, List.append_assoc, List.append_assoc nameAttr]
  exact strstr_at (x := 'n') (p := "ame=".toList) (by decide) ht.nameFirst _

theorem strstr_value : strstr valueAttr (t.text ++ rest) = some (t.valueText ++ rest) := by
  have htext : t.text ++ rest =
      (inputOpen ++ t.before ++ nameAttr ++ '"' :: t.name.text ++ '"' :: t.middle) ++
        (valueAttr ++ ('"' :: (t.value.text ++ '"' :: t.after) ++ rest)) := by
    rw [ht.text_eq, ht.valueText_eq]
    simp only [List.append_assoc, List.cons_append]
  rw [htext, ht.valueText_eq, List.append_assoc valueAttr]
  exact strstr_at (x := 'v') (p := "alue=".toList) (by decide) ht.valueFirst _

theorem strchr_end : strchr '>' (t.text ++ '>' :: rest) = some ('>' :: rest) := by
  have hopen := ht.noEnd
  have hinput : '>' ∉ inputOpen := by decide
  have hname : '>' ∉ nameAttr := by decide
  have hvalue : '>' ∉ valueAttr := by decide
  have hquote : '>' ≠ '"' := by decide
  simp only [List.mem_append, not_or] at hopen
  refine strchr_at ?_ rest
  rw [ht.text_eq, ht.valueText_eq]
  simp only [List.mem_append, List.mem_cons, hinput, hname, hvalue, hquote, hopen, or_self,
    not_false_eq_true]

theorem attributes_tag :
    attributes (t.text ++ '>' :: rest) ('>' :: rest) = some t.input := by
  have hnameQuote : '"' ∉ t.name.text := t.name.ends '"' (by rw [ht.name]; decide)
  have hvalueQuote : '"' ∉ t.value.text := t.value.ends '"' (by rw [ht.value]; decide)
  have hname : (nameAttr ++ '"' :: (t.name.text ++ '"' :: (t.middle ++ t.valueText)) ++
      '>' :: rest).drop 6 =
        t.name.text ++ ('"' :: (t.middle ++ (t.valueText ++ '>' :: rest))) := by
    show (t.name.text ++ '"' :: (t.middle ++ t.valueText)) ++ '>' :: rest = _
    simp only [List.append_assoc, List.cons_append]
  have hvalue : (t.valueText ++ '>' :: rest).drop 7 =
      t.value.text ++ ('"' :: (t.after ++ '>' :: rest)) := by
    rw [ht.valueText_eq]
    show (t.value.text ++ '"' :: t.after) ++ '>' :: rest = _
    simp only [List.append_assoc, List.cons_append]
  unfold attributes
  rw [strstr_name ht, strstr_value ht]
  simp only [Option.bind_eq_bind, Option.bind_some, hname, hvalue, strchr_at hnameQuote,
    strchr_at hvalueQuote, between_append]
  -- each pointer is in front of the one it is compared with
  rw [if_neg, if_neg, if_neg]
  · rfl
  · simp only [List.length_append, List.length_cons]
    omega
  · simp only [List.length_append, List.length_cons]
    omega
  · simp only [Bool.or_eq_true, decide_eq_true_eq, List.length_append, List.length_cons]
    omega

end

/-! ## The scan of such a page -/

/-- From any place with no input up to the next character, the scan collects the inputs
of the tags. -/
theorem scanInputs_tags {rest : Text} (hrest : ¬inputOpen <:+: rest) :
    ∀ (tags : List (Text × Tag)) (n : Nat) {a : Text} {x : Char}, tags.length < n →
      (∀ g ∈ tags, g.2.Plain) → (∀ g ∈ tags, ¬inputOpen <:+: g.1) → ¬inputOpen <:+: a →
      x ∉ inputOpen →
      ∃ inputs, scanInputs n (strstr inputOpen (a ++ x :: body tags rest)) = .ok inputs ∧
        (inputs.map fun i => (i.name, i.value)) = tags.map fun g => g.2.input
  | [], n + 1, a, x, _, _, _, ha, hx => by
    have hnone : strstr inputOpen (a ++ x :: rest) = none :=
      strstr_none_of_not_infix fun h => (infix_append_cons hx h).elim ha hrest
    refine ⟨[], ?_, rfl⟩
    show scanInputs (n + 1) (strstr inputOpen (a ++ x :: rest)) = _
    rw [hnone]
    rfl
  | (gap, t) :: tags, n + 1, a, x, hn, hplain, hgaps, ha, hx => by
    rw [List.forall_mem_cons] at hplain hgaps
    have hfound : strstr inputOpen (a ++ x :: body ((gap, t) :: tags) rest) =
        some (t.text ++ '>' :: body tags rest) := by
      have htext : a ++ x :: body ((gap, t) :: tags) rest =
          (a ++ x :: gap) ++ (inputOpen ++ (t.before ++ (nameAttr ++ (t.name.quoted ++
            (t.middle ++ t.valueText))) ++ '>' :: body tags rest)) := by
        simp only [body, Tag.text, List.append_assoc, List.cons_append]
      have hfirst : ¬inputOpen <:+: a ++ x :: gap :=
        fun h => (infix_append_cons hx h).elim ha hgaps.1
      rw [htext]
      refine (strstr_at (x := '<') (p := "input".toList) (by decide) hfirst _).trans ?_
      show some (inputOpen ++ _) = _
      simp only [Tag.text, List.append_assoc]
    obtain ⟨inputs, hscan, hmap⟩ := scanInputs_tags hrest tags n (a := []) (x := '>')
      (Nat.lt_of_succ_lt_succ hn) hplain.2 hgaps.2 (by decide) (by decide)
    refine ⟨addInput (t.text ++ '>' :: body tags rest) ('>' :: body tags rest) inputs, ?_, ?_⟩
    · rw [hfound, scanInputs, strchr_end hplain.1]
      show (scanInputs n (strstr inputOpen ([] ++ '>' :: body tags rest))).map _ = _
      rw [hscan]
      rfl
    · unfold addInput
      rw [attributes_tag hplain.1]
      show _ :: _ = _ :: _
      rw [hmap]
      rfl

theorem length_body (tags : List (Text × Tag)) (rest : Text) :
    tags.length ≤ (body tags rest).length := by
  induction tags with
  | nil => exact Nat.zero_le _
  | cons g tags ih =>
    obtain ⟨gap, t⟩ := g
    rw [body, List.length_append, List.length_append, List.length_cons, List.length_cons]
    omega

section

variable {p : Page} (hp : p.Plain)

include hp

theorem strstr_form : strstr formOpen p.text = some p.form :=
  strstr_at (x := '<') (p := "form action=".toList) (by decide) hp.formFirst _

/-- The form is closed behind its address. -/
theorem strstr_close : ∃ stop, strstr formClose p.text = some stop ∧
    stop.length ≤ ('"' :: body p.tags p.rest).length := by
  have htext : p.text = (p.before ++ formOpen ++ '"' :: p.url) ++ '"' :: body p.tags p.rest := by
    simp only [Page.text, Page.form, List.append_assoc, List.cons_append]
  have hinfix : formClose <:+: p.text := by
    rw [htext]
    refine hp.closed.trans ?_
    exact ((List.suffix_cons '"' _).trans (List.suffix_append _ _)).isInfix
  cases hstop : strstr formClose p.text with
  | none =>
    obtain ⟨a, b, hab⟩ := hinfix
    have hsuffix : formClose ++ b <:+ p.text := ⟨a, by rw [← hab, List.append_assoc]⟩
    exact absurd (List.prefix_append _ _) (strstr_eq_none hstop hsuffix)
  | some stop =>
    refine ⟨stop, rfl, Nat.le_of_not_lt fun hlt => ?_⟩
    obtain ⟨hsuffix, hbegins⟩ := strstr_some hstop
    rw [htext] at hsuffix
    -- otherwise it would begin in front of the quote, and end there
    have hover : '"' :: body p.tags p.rest <:+ stop :=
      List.suffix_of_suffix_length_le (List.suffix_append _ _) hsuffix (Nat.le_of_lt hlt)
    obtain ⟨c, rfl⟩ := hover
    have hc : c <:+ p.before ++ formOpen ++ '"' :: p.url := by
      obtain ⟨d, hd⟩ := hsuffix
      rw [← List.append_assoc] at hd
      exact ⟨d, List.append_cancel_right hd⟩
    exact hp.notClosed ((infix_of_prefix_append_cons (by decide) hbegins).trans hc.isInfix)

theorem scanForm_page : ∃ f, scanForm p.text = .ok (some f) ∧ f.url = p.url ∧
    (f.inputs.map fun i => (i.name, i.value)) = p.inputs := by
  obtain ⟨stop, hstop, hle⟩ := strstr_close hp
  have hdrop : p.form.drop 14 = p.url ++ '"' :: body p.tags p.rest := rfl
  have hform : formOpen.length = 13 := by decide
  have hlen : ¬p.form.length < 14 := by
    rw [Page.form, List.length_append, List.length_cons, hform]
    omega
  have hurl : strchr '"' (p.form.drop 14) = some ('"' :: body p.tags p.rest) := by
    rw [hdrop]
    exact strchr_at hp.urlQuote _
  have hrounds : p.tags.length < p.text.length + 1 := by
    have := length_body p.tags p.rest
    simp only [Page.text, Page.form, List.length_append, List.length_cons]
    omega
  obtain ⟨inputs, hscan, hmap⟩ := scanInputs_tags hp.noOtherRest p.tags (p.text.length + 1)
    hrounds hp.tags hp.gaps hp.noOther (x := '"') (by decide)
  rw [List.append_assoc, List.cons_append] at hscan
  refine ⟨⟨p.form, stop, p.url, inputs⟩, ?_, rfl, hmap⟩
  rw [scanForm_url (strstr_form hp) hstop hlen hurl, if_neg (Nat.not_lt_of_le hle), hdrop,
    between_append]
  show (scanInputs (p.text.length + 1) (strstr inputOpen
    (formOpen ++ '"' :: (p.url ++ '"' :: body p.tags p.rest)))).map _ = _
  rw [hscan]
  rfl

end

section

variable (p : Page)

theorem nul_not_mem_url : nul ∉ p.url := fun h => p.noNul
  (List.mem_append_right _ (List.mem_append_right _ (List.mem_cons_of_mem _
    (List.mem_append_left _ h))))

theorem nul_not_mem_values : ∀ i ∈ p.inputs, nul ∉ i.2 := by
  have hbody : nul ∉ body p.tags p.rest := fun h => p.noNul
    (List.mem_append_right _ (List.mem_append_right _ (List.mem_cons_of_mem _
      (List.mem_append_right _ (List.mem_cons_of_mem _ h)))))
  unfold Page.inputs
  generalize p.tags = tags at hbody
  induction tags with
  | nil => exact nofun
  | cons g tags ih =>
    obtain ⟨gap, t⟩ := g
    simp only [body, Tag.text, Tag.valueText, Attr.quoted, List.mem_append, List.mem_cons,
      not_or] at hbody
    rw [List.map_cons, List.forall_mem_cons]
    exact ⟨by simp only [Tag.input, hbody, not_false_eq_true], ih (by simp only [hbody,
      not_false_eq_true])⟩

end

/-! ## The request -/

/-- Room for the address in its two passes. -/
def UrlFits (url : Text) : Prop :=
  url.length < urlSize ∧ Fits urlSize colonEntity ":".toList url ∧
    Fits urlSize slashEntity "/".toList (replaceAll colonEntity ":".toList url)

instance decUrlFits (url : Text) : Decidable (UrlFits url) :=
  inferInstanceAs (Decidable (_ ∧ _ ∧ _))

theorem slashEntity_ne : slashEntity ≠ [] := by decide

theorem ended_nil (value : Text) : Ended [] value := by
  unfold Ended
  rw [List.drop_nil]
  rfl

theorem copyUrl_guarded {url : Text} (hnul : nul ∉ url) :
    Guarded (UrlFits url) (copyUrl url).toOption
      (replaceAll slashEntity "/".toList (replaceAll colonEntity ":".toList url)) := by
  have hcopied : cstr (copied [] url) = url := by
    rw [cstr_copied hnul, seen_of_ended (ended_nil url)]
  obtain ⟨g₁, h₁⟩ := replaceIn_pass colonEntity_ne ":".toList _ hcopied (by decide)
  obtain ⟨g₂, h₂⟩ := replaceIn_pass slashEntity_ne "/".toList _ h₁ (by decide)
  exact (copyOver_guarded urlSize url []).exceptBind
    (g₁.exceptBind (g₂.exceptBind_ok (congrArg Except.ok h₂)))

theorem postForm_ok {f : Form} {url : Text} {st : State} :
    postForm f = .ok (url, st) ↔
      copyUrl f.url = .ok url ∧
        addFields (f.inputs.map fun i => (i.name, i.value)) .initial = .ok st := by
  unfold postForm
  cases copyUrl f.url with
  | error e => exact iff_of_false nofun nofun
  | ok u =>
    cases addFields (f.inputs.map fun i => (i.name, i.value)) .initial with
    | error e => exact iff_of_false nofun nofun
    | ok s =>
      show Except.ok (u, s) = .ok (url, st) ↔ _
      simp only [Except.ok.injEq, Prod.mk.injEq]

theorem postAuth_page {p : Page} (hp : p.Plain) {url : Text} {st : State} :
    postAuth p.text = .ok (some (url, st)) ↔
      copyUrl p.url = .ok url ∧ addFields p.inputs .initial = .ok st := by
  obtain ⟨f, hscan, hurl, hinputs⟩ := scanForm_page hp
  rw [← hurl, ← hinputs, ← postForm_ok]
  unfold postAuth
  rw [hscan]
  dsimp only
  cases postForm f with
  | error e => exact iff_of_false nofun nofun
  | ok posted => simp only [Except.ok.injEq, Option.some.injEq]

/-- `name="..."` and `value="..."`, in double quotes. -/
def inputTag (name value : Text) (hname : '"' ∉ name) (hvalue : '"' ∉ value) : Tag :=
  ⟨" ".toList, ⟨.double, name, List.forall_mem_singleton.mpr hname⟩, " ".toList,
    ⟨.double, value, List.forall_mem_singleton.mpr hvalue⟩, []⟩

/-- Two inputs, of which the second has the longer value. -/
def growing : Page where
  before := []
  url := "u".toList
  tags := [(">".toList, inputTag "a".toList "x".toList (by decide) (by decide)),
    ([], inputTag "b".toList "a+b".toList (by decide) (by decide))]
  rest := "</form>".toList
  noNul := by decide

theorem growing_plain : growing.Plain where
  formFirst := by decide
  urlQuote := by decide
  notClosed := by decide
  closed := by decide
  tags := List.forall_mem_cons.mpr ⟨⟨rfl, rfl, by decide, by decide, by decide⟩,
    List.forall_mem_singleton.mpr ⟨rfl, rfl, by decide, by decide, by decide⟩⟩
  noOther := by decide
  gaps := by decide
  noOtherRest := by decide

end Manhattan.Middleware.PostAuth
