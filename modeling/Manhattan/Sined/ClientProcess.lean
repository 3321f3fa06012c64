import Mathlib.Data.List.Infix
import Manhattan.Sined.ClientPid

/-!
# Clients and their processes

`get_pid_by_sockaddr` on what the kernel puts into `/proc`. The table is a title and lines of
fields that are spaces apart, the addresses of a connection in it are those of one line, and
every line fits into the array. The target of a descriptor's link is an absolute path or the
kind of the object with its number in brackets.

The array `buf` is the critical place. A target that is longer than the description is cut,
and one that is shorter is continued with what a longer target before it has left there.
Both kinds of targets rule a mistake out (`eq_of_prefix`): the closing bracket is the last
character of a description and of a target, and stands nowhere else in them, so that neither
begins with the other unless they are equal.

Main result: `client_attributed`.
-/

namespace Manhattan.Sined.ClientPid

open Manhattan.Lib

/-! ## The table of the kernel -/

/-- What stands between two spaces. -/
structure IsField (w : Text) : Prop where
  nonempty : w ≠ []
  space : ' ' ∉ w
  newline : '\n' ∉ w
  nul : nul ∉ w

/-- The fields of a line, in the order of the kernel. `gap k` is the number of spaces before
field `k`, apart from the one that ends the field before it. -/
structure TcpFields where
  gap : Nat → Nat
  sl : Text
  localAddress : Endpoint
  remAddress : Endpoint
  st : Text
  queues : Text
  timer : Text
  retrnsmt : Text
  uid : Text
  timeout : Text
  inode : Text
  rest : Text

def TcpFields.words (l : TcpFields) : List (Nat × Text) :=
  [(l.gap 0, l.sl), (l.gap 1, l.localAddress.text), (l.gap 2, l.remAddress.text),
    (l.gap 3, l.st), (l.gap 4, l.queues), (l.gap 5, l.timer), (l.gap 6, l.retrnsmt),
    (l.gap 7, l.uid), (l.gap 8, l.timeout), (l.gap 9, l.inode)]

/-- The line up to the line feed. -/
def TcpFields.body (l : TcpFields) : Text := spaced ' ' l.words l.rest

/-- A line of the table that fits into the array. -/
structure TcpLine extends TcpFields where
  fields : ∀ w ∈ [sl, st, queues, timer, retrnsmt, uid, timeout], IsField w
  inode_ne : inode ≠ []
  digits : ∀ c ∈ inode, c.isDigit = true
  rest_newline : '\n' ∉ rest
  rest_nul : nul ∉ rest
  short : toTcpFields.body.length + 1 < lineBufSize

def TcpLine.text (l : TcpLine) : Text := l.body ++ ['\n']

/-- `/proc/net/tcp`: every connection is in one line. -/
structure TcpTable where
  title : Text
  lines : List TcpLine
  title_newline : '\n' ∉ title
  title_short : title.length + 1 < lineBufSize
  once : lines.Pairwise fun l l' =>
    ¬ (l.localAddress = l'.localAddress ∧ l.remAddress = l'.remAddress)

def TcpTable.text (T : TcpTable) : Text :=
  T.title ++ '\n' :: (T.lines.map TcpLine.text).flatten

/-! ## Reading a line -/

theorem Endpoint.text_injective {a b : Endpoint} (h : a.text = b.text) : a = b := by
  obtain ⟨haddr, hport⟩ := List.append_inj h (by rw [hex_length, hex_length])
  have hport' : hex 4 a.port = hex 4 b.port := List.tail_eq_of_cons_eq hport
  obtain ⟨addr, port⟩ := a
  obtain ⟨addr', port'⟩ := b
  rw [Endpoint.mk.injEq]
  exact ⟨Fin.ext (hex_injective addr.isLt addr'.isLt haddr),
    Fin.ext (hex_injective port.isLt port'.isLt hport')⟩

theorem Endpoint.not_mem_text {c : Char} (hc : ∀ d, hexDigit d ≠ c) (hcolon : ':' ≠ c)
    (e : Endpoint) : c ∉ e.text := by
  unfold Endpoint.text
  rw [List.mem_append, List.mem_cons]
  intro hmem
  rcases hmem with h | h | h
  · exact not_mem_hex hc 8 _ h
  · exact hcolon h.symm
  · exact not_mem_hex hc 4 _ h

theorem Endpoint.isField (e : Endpoint) : IsField e.text where
  nonempty := List.append_ne_nil_of_right_ne_nil _ (List.cons_ne_nil _ _)
  space := e.not_mem_text (by decide) (by decide)
  newline := e.not_mem_text (by decide) (by decide)
  nul := e.not_mem_text (by decide) (by decide)

theorem isField_of_digits {w : Text} (hne : w ≠ []) (h : ∀ c ∈ w, c.isDigit = true) :
    IsField w where
  nonempty := hne
  space hc := absurd (h _ hc) (by decide)
  newline hc := absurd (h _ hc) (by decide)
  nul hc := absurd (h _ hc) (by decide)

theorem TcpLine.isField (l : TcpLine) : ∀ w ∈ l.words, IsField w.2 := by
  have hfields := l.fields
  simp only [List.forall_mem_cons] at hfields
  obtain ⟨hsl, hst, hqueues, htimer, hretrnsmt, huid, htimeout, hnil⟩ := hfields
  unfold TcpFields.words
  simp only [List.forall_mem_cons]
  exact ⟨hsl, l.localAddress.isField, l.remAddress.isField, hst, hqueues, htimer, hretrnsmt,
    huid, htimeout, isField_of_digits l.inode_ne l.digits, fun w hw => absurd hw List.not_mem_nil⟩

theorem TcpLine.body_newline (l : TcpLine) : '\n' ∉ l.body :=
  not_mem_spaced (by decide) l.rest_newline fun w hw => (l.isField w hw).newline

theorem TcpLine.text_nul (l : TcpLine) : nul ∉ l.text := by
  unfold TcpLine.text
  rw [List.mem_append, List.mem_singleton]
  have hbody : nul ∉ l.body :=
    not_mem_spaced (by decide) l.rest_nul fun w hw => (l.isField w hw).nul
  exact fun h => h.elim hbody (by decide)

/-- One round of the loop: the inode is the tenth word. -/
theorem TcpLine.lineInode_eq (l : TcpLine) (src dst : Text) :
    lineInode src dst (Lib.cstr l.text)
      = some (if l.localAddress.text = src ∧ l.remAddress.text = dst then
          some (inodeDesc l.inode) else none) := by
  have hfields := l.isField
  have htext : l.text = spaced ' ' l.words (l.rest ++ ['\n']) := spaced_append ' ' _ _ _
  rw [cstr_eq_self l.text_nul, htext]
  unfold TcpFields.words at hfields ⊢
  simp only [List.forall_mem_cons] at hfields
  have htok : ∀ {gap : Nat} {w : Text}, IsField w → ∀ (ws : List (Nat × Text)) (rest : Text),
      strtok ' ' (spaced ' ' ((gap, w) :: ws) rest) = (some w, spaced ' ' ws rest) :=
    fun hw => strtok_spaced hw.nonempty hw.space
  obtain ⟨hsl, hlocal, hrem, hst, hqueues, htimer, hretrnsmt, huid, htimeout, hinode, _⟩ := hfields
  unfold lineInode
  simp only [skipTokens, htok hsl, htok hlocal, htok hrem, htok hst, htok hqueues, htok htimer,
    htok hretrnsmt, htok huid, htok htimeout, htok hinode, Option.bind_some, Option.getD_some]
  by_cases hsrc : l.localAddress.text = src
  · by_cases hdst : l.remAddress.text = dst
    · rw [if_neg (not_not_intro hsrc), if_neg (not_not_intro hdst), if_pos ⟨hsrc, hdst⟩]
    · rw [if_neg (not_not_intro hsrc), if_pos hdst, if_neg fun h => hdst h.2]
  · rw [if_pos hsrc, if_neg fun h => hsrc h.1]

/-- The line of the client's connection. -/
def TcpLine.IsOf (client : Endpoint) (l : TcpLine) : Prop :=
  l.localAddress = client ∧ l.remAddress = server client

instance (client : Endpoint) (l : TcpLine) : Decidable (l.IsOf client) :=
  inferInstanceAs (Decidable (_ ∧ _))

theorem TcpLine.isOf_iff (client : Endpoint) (l : TcpLine) :
    l.localAddress.text = client.text ∧ l.remAddress.text = (server client).text ↔
      l.IsOf client := by
  constructor
  · intro h
    exact ⟨Endpoint.text_injective h.1, Endpoint.text_injective h.2⟩
  · intro h
    exact ⟨congrArg Endpoint.text h.1, congrArg Endpoint.text h.2⟩

/-! ## Reading the table -/

/-- One call of `fgets` reads one line. -/
theorem fgetsFrom_lines : ∀ lines : List TcpLine,
    fgetsFrom 255 255 (lines.map TcpLine.text).flatten = lines.map TcpLine.text
  | [] => rfl
  | l :: lines => by
    have hshort : l.body.length < 255 := Nat.lt_of_succ_lt_succ l.short
    rw [List.map_cons, List.flatten_cons]
    show fgetsFrom 255 255 (l.body ++ ['\n'] ++ _) = _ :: _
    rw [List.append_assoc, List.singleton_append, fgetsFrom_line _ l.body_newline hshort,
      fgetsFrom_lines lines]
    rfl

theorem findInode_lines (client : Endpoint) : ∀ lines : List TcpLine,
    ∃ calls, findInode client.text (server client).text (lines.map TcpLine.text)
      = some ((lines.find? (·.IsOf client)).map (inodeDesc ·.inode), calls)
  | [] => ⟨_, rfl⟩
  | l :: lines => by
    obtain ⟨calls, ih⟩ := findInode_lines client lines
    rw [List.map_cons, findInode, l.lineInode_eq, Option.bind_some]
    by_cases hl : l.IsOf client
    · rw [if_pos ((l.isOf_iff client).mpr hl), List.find?_cons, decide_eq_true hl]
      exact ⟨_, rfl⟩
    · rw [if_neg (mt (l.isOf_iff client).mp hl), List.find?_cons,
        decide_eq_false hl, ih]
      exact ⟨_, rfl⟩

/-- The first half of the function finds the inode of the client's line. -/
theorem findSocket_table (T : TcpTable) (client : Endpoint) :
    ∃ calls, findSocket (some T.text) client.text (server client).text
      = some ((T.lines.find? (·.IsOf client)).map (inodeDesc ·.inode), calls) := by
  have htitle : T.title.length < 255 := Nat.lt_of_succ_lt_succ T.title_short
  have hread : fgetsAll lineBufSize T.text = (T.title ++ ['\n']) :: T.lines.map TcpLine.text := by
    show fgetsFrom 255 255 (T.title ++ '\n' :: _) = _
    rw [fgetsFrom_line _ T.title_newline htitle, fgetsFrom_lines]
  obtain ⟨calls, hcalls⟩ := findInode_lines client T.lines
  unfold findSocket
  simp only [hread, hcalls]
  exact ⟨_, rfl⟩

/-! ## The targets of the links -/

/-- An absolute path, or the kind of an object and its number. -/
def IsLink (target : Text) : Prop :=
  (∃ path, target = '/' :: path) ∨
    ∃ kind digits, ']' ∉ kind ∧ (∀ c ∈ digits, c.isDigit = true) ∧
      target = kind ++ ":[".toList ++ digits ++ [']']

section Target

variable {inode target : Text} (hinode : ∀ c ∈ inode, c.isDigit = true)

include hinode in
/-- A target and a description are equal if one begins with the other. -/
theorem eq_of_prefix (htarget : IsLink target)
    (h : inodeDesc inode <+: target ∨ target <+: inodeDesc inode) :
    target = inodeDesc inode := by
  have hbracket : ∀ {ds : Text}, (∀ c ∈ ds, c.isDigit = true) → ']' ∉ ds :=
    fun hds hc => absurd (hds _ hc) (by decide)
  have hdesc : ']' ∉ "socket:[".toList ++ inode := by
    rw [List.mem_append]
    exact fun hc => hc.elim (by decide) (hbracket hinode)
  rcases htarget with ⟨path, rfl⟩ | ⟨kind, digits, hkind, hdigits, rfl⟩
  · -- a path begins with another character
    have hhead : ∀ {t u : Text}, t <+: u → t ≠ [] → t.head? = u.head? := by
      intro t u ⟨rest, hrest⟩ hne
      rw [← hrest, List.head?_append_of_ne_nil _ hne]
    rcases h with h | h
    · cases hhead h (List.cons_ne_nil _ _)
    · cases hhead h (List.cons_ne_nil _ _)
  · have htarget : ']' ∉ kind ++ ":[".toList ++ digits := by
      rw [List.mem_append, List.mem_append]
      exact fun hc => hc.elim (fun hc => hc.elim hkind (by decide)) (hbracket hdigits)
    unfold inodeDesc at h ⊢
    rcases h with h | h
    · rw [eq_of_prefix_at hdesc htarget h]
    · rw [eq_of_prefix_at htarget hdesc h]

include hinode in
/-- The comparison in the loop over the descriptors: what was in the array does not matter. -/
theorem readTarget_iff (hshort : (inodeDesc inode).length < lineBufSize)
    (htarget : IsLink target) (buf : Text) :
    Lib.cstr (readTarget (inodeDesc inode) target buf) = inodeDesc inode ↔
      target = inodeDesc inode := by
  unfold readTarget readlinkInto
  rw [cstr_set]
  generalize hold : buf.drop (target.take lineBufSize).length = old
  constructor
  · intro h
    have hdesc : inodeDesc inode <+: target.take lineBufSize ++ old :=
      h ▸ (List.take_prefix _ _).trans (List.takeWhile_prefix _)
    refine eq_of_prefix hinode htarget ?_
    rcases List.prefix_or_prefix_of_prefix hdesc (List.prefix_append _ old) with h' | h'
    · exact Or.inl (h'.trans (List.take_prefix _ _))
    · -- a target that is shorter than the description is not cut
      have hlen : (target.take lineBufSize).length < lineBufSize :=
        Nat.lt_of_le_of_lt h'.length_le hshort
      rw [List.length_take] at hlen
      rw [List.take_of_length_le (by omega)] at h'
      exact Or.inr h'
  · intro h
    have hnul : nul ∉ inodeDesc inode := by
      unfold inodeDesc
      rw [List.mem_append, List.mem_append]
      refine fun hc => hc.elim (fun hc => hc.elim (by decide) fun hc => ?_) (by decide)
      exact absurd (hinode _ hc) (by decide)
    rw [h, List.take_of_length_le (Nat.le_of_lt hshort), cstr_append_left hnul, List.take_left]

end Target

/-! ## The search -/

/-- The process has the socket open. -/
def ProcEntry.Holds (e : ProcEntry) (desc : Text) : Prop :=
  ∃ fds, e.fds = some fds ∧ ∃ f ∈ fds, f.link = some desc

/-- All links of a process have targets of the two forms. -/
def ProcEntry.Linked (e : ProcEntry) : Prop :=
  ∀ fds, e.fds = some fds → ∀ f ∈ fds, ∀ target, f.link = some target → IsLink target

section Search

variable {inode : Text} (hinode : ∀ c ∈ inode, c.isDigit = true)
  (hshort : (inodeDesc inode).length < lineBufSize)

include hinode hshort

/-- The loop over the descriptors finds the link if it is there. -/
theorem scanFds_iff (k : Nat) : ∀ (fds : List FdEntry) (buf : Text),
    (∀ f ∈ fds, ∀ target, f.link = some target → IsLink target) →
      ((scanFds (inodeDesc inode) k fds buf).1 = true ↔
        ∃ f ∈ fds, f.link = some (inodeDesc inode))
  | [], _, _ => iff_of_false Bool.false_ne_true fun ⟨_, hf, _⟩ => absurd hf List.not_mem_nil
  | f :: fds, buf, hlinks => by
    obtain ⟨hf, hfds⟩ := List.forall_mem_cons.mp hlinks
    rw [List.exists_mem_cons_iff]
    cases hlink : f.link with
    | none =>
      have ih := scanFds_iff k fds buf hfds
      simp only [scanFds, hlink, ih, reduceCtorEq, false_or]
    | some target =>
      have hread := readTarget_iff hinode hshort (hf target hlink) buf
      by_cases hmatch : target = inodeDesc inode
      · subst hmatch
        simp only [scanFds, hlink, if_pos (hread.mpr rfl), true_or]
      · have ih := scanFds_iff k fds (readTarget (inodeDesc inode) target buf) hfds
        simp only [scanFds, hlink, if_neg (mt hread.mp hmatch), ih, Option.some.injEq, hmatch,
          false_or]

/-- The loop over the processes: what it finds is a process with the link. -/
theorem scanProc_some (k : Nat) (fdDir : Option Nat) (entries : List ProcEntry) (buf : Text)
    (hlinks : ∀ e ∈ entries, e.Linked) {p : Int}
    (h : (scanProc (inodeDesc inode) k fdDir entries buf).pid = some p) :
    ∃ e ∈ entries, e.IsProcess ∧ pidOf e.name = p ∧ e.Holds (inodeDesc inode) := by
  fun_induction scanProc (inodeDesc inode) k fdDir entries buf with
  | case1 k fdDir buf => cases h
  | case2 k fdDir e rest buf buf₁ hpid hfds ih =>
    obtain ⟨e', he', hrest⟩ := ih (List.forall_mem_cons.mp hlinks).2 h
    exact ⟨e', List.mem_cons_of_mem e he', hrest⟩
  | case3 k fdDir e rest buf buf₁ hpid fds hfds r calls hfound =>
    have hlinked := hlinks e List.mem_cons_self fds hfds
    have hlink := (scanFds_iff hinode hshort k fds buf₁ hlinked).mp hfound
    exact ⟨e, List.mem_cons_self, hpid, Option.some.inj h, fds, hfds, hlink⟩
  | case4 k fdDir e rest buf buf₁ hpid fds hfds r calls hfound ih =>
    obtain ⟨e', he', hrest⟩ := ih (List.forall_mem_cons.mp hlinks).2 h
    exact ⟨e', List.mem_cons_of_mem e he', hrest⟩
  | case5 k fdDir e rest buf buf₁ hpid ih =>
    obtain ⟨e', he', hrest⟩ := ih (List.forall_mem_cons.mp hlinks).2 h
    exact ⟨e', List.mem_cons_of_mem e he', hrest⟩

/-- And it finds one if there is one. -/
theorem scanProc_none (k : Nat) (fdDir : Option Nat) (entries : List ProcEntry) (buf : Text)
    (hlinks : ∀ e ∈ entries, e.Linked)
    (h : (scanProc (inodeDesc inode) k fdDir entries buf).pid = none) :
    ∀ e ∈ entries, e.IsProcess → ¬ e.Holds (inodeDesc inode) := by
  fun_induction scanProc (inodeDesc inode) k fdDir entries buf with
  | case1 k fdDir buf => exact fun e he => absurd he List.not_mem_nil
  | case2 k fdDir e rest buf buf₁ hpid hfds ih =>
    refine List.forall_mem_cons.mpr ⟨fun _ hholds => ?_, ih (List.forall_mem_cons.mp hlinks).2 h⟩
    obtain ⟨fds, hfds', _⟩ := hholds
    cases hfds.symm.trans hfds'
  | case3 k fdDir e rest buf buf₁ hpid fds hfds r calls hfound => cases h
  | case4 k fdDir e rest buf buf₁ hpid fds hfds r calls hfound ih =>
    refine List.forall_mem_cons.mpr ⟨fun _ hholds => ?_, ih (List.forall_mem_cons.mp hlinks).2 h⟩
    obtain ⟨fds', hfds', hlink⟩ := hholds
    cases hfds.symm.trans hfds'
    have hlinked := hlinks e List.mem_cons_self fds hfds
    exact hfound ((scanFds_iff hinode hshort k fds buf₁ hlinked).mpr hlink)
  | case5 k fdDir e rest buf buf₁ hpid ih =>
    exact List.forall_mem_cons.mpr
      ⟨fun hpid' => absurd hpid' hpid, ih (List.forall_mem_cons.mp hlinks).2 h⟩

end Search

/-! ## The process of a client -/

/-- `p` is the number of a process that has the client's socket open: `/proc` has a directory
of that number, and one of its descriptors is a link to the inode of the client's line. -/
def Owns (T : TcpTable) (proc : Option (List ProcEntry)) (client : Endpoint) (p : Int) : Prop :=
  ∃ l ∈ T.lines, l.IsOf client ∧ ∃ entries, proc = some entries ∧
    ∃ e ∈ entries, e.name = decimal p ∧ (-2 ^ 31 ≤ p ∧ p < 2 ^ 31) ∧ e.Holds (inodeDesc l.inode)

/-- A directory with the number of a process is taken for one. -/
theorem isProcess_of_name {e : ProcEntry} {p : Int} (hname : e.name = decimal p)
    (hp : -2 ^ 31 ≤ p ∧ p < 2 ^ 31) : e.IsProcess := by
  unfold ProcEntry.IsProcess pidOf
  rw [hname, PolicyLoad.strtolInt_decimal hp]

/-- There is one line for a client. -/
theorem TcpTable.find_line (T : TcpTable) {client : Endpoint} {l : TcpLine} (hl : l ∈ T.lines)
    (hclient : l.IsOf client) : T.lines.find? (·.IsOf client) = some l := by
  have honce := T.once
  generalize T.lines = lines at hl honce
  induction lines with
  | nil => exact absurd hl List.not_mem_nil
  | cons l' lines ih =>
    obtain ⟨hfirst, hrest⟩ := List.pairwise_cons.mp honce
    rw [List.find?_cons]
    by_cases hl' : l'.IsOf client
    · rw [decide_eq_true hl']
      rcases List.mem_cons.mp hl with rfl | hl
      · rfl
      · exact absurd ⟨hl'.1.trans hclient.1.symm, hl'.2.trans hclient.2.symm⟩ (hfirst l hl)
    · rw [decide_eq_false hl']
      rcases List.mem_cons.mp hl with rfl | hl
      · exact absurd hclient hl'
      · exact ih hl hrest

section Attributed

variable {T : TcpTable} {proc : Option (List ProcEntry)} {client : Endpoint}

/-- What a search for the client's line without a result says about the processes. -/
theorem not_owns_of_find (h : T.lines.find? (·.IsOf client) = none) (p : Int) :
    ¬ Owns T proc client p := by
  intro ⟨l, hl, hclient, _⟩
  cases h.symm.trans (T.find_line hl hclient)

/-- The number of an owner has no sign where no directory of `/proc` has. -/
theorem Owns.nonneg {p : Int} (h : Owns T proc client p)
    (hsign : ∀ entries, proc = some entries → ∀ e ∈ entries, e.name.head? ≠ some '-') :
    0 ≤ p := by
  obtain ⟨l, _, _, entries, hproc, e, he, hname, _⟩ := h
  cases p with
  | ofNat n => exact Int.natCast_nonneg n
  | negSucc n =>
    have hhead := hsign entries hproc e he
    rw [hname] at hhead
    exact absurd rfl hhead

section Found

variable {l : TcpLine} {entries : List ProcEntry} (hl : l ∈ T.lines) (hclient : l.IsOf client)
  (hshort : (inodeDesc l.inode).length < lineBufSize) (hlinks : ∀ e ∈ entries, e.Linked)

include hl hclient hshort hlinks

theorem owns_of_scanProc {buf : Text} {p : Int}
    (h : (scanProc (inodeDesc l.inode) 0 none entries buf).pid = some p) :
    Owns T (some entries) client p := by
  obtain ⟨e, he, hprocess, rfl, hholds⟩ :=
    scanProc_some l.digits hshort 0 none entries buf hlinks h
  exact ⟨l, hl, hclient, entries, rfl, e, he, Eq.symm hprocess, pidOf_bounds e.name, hholds⟩

theorem not_owns_of_scanProc {buf : Text}
    (h : (scanProc (inodeDesc l.inode) 0 none entries buf).pid = none) (p : Int) :
    ¬ Owns T (some entries) client p := by
  intro ⟨l', hl', hclient', entries', hentries, e, he, hname, hp, hholds⟩
  have hline : l = l' :=
    Option.some.inj ((T.find_line hl hclient).symm.trans (T.find_line hl' hclient'))
  cases hentries
  subst hline
  exact scanProc_none l.digits hshort 0 none entries buf hlinks h e he
    (isProcess_of_name hname hp) hholds

end Found

end Attributed

/-- A table with one connection, and two processes of which the second has it. -/
def localLine : TcpLine where
  gap := fun _ => 0
  sl := ['0']
  localAddress := localClient
  remAddress := server localClient
  st := ['1']
  queues := ['0']
  timer := ['0']
  retrnsmt := ['0']
  uid := ['0']
  timeout := ['0']
  inode := ['7', '7']
  rest := ['1']
  fields := by
    have hdigits : ∀ w ∈ [['0'], ['1'], ['0'], ['0'], ['0'], ['0'], ['0']],
        w ≠ [] ∧ w.all Char.isDigit = true := by decide
    exact fun w hw => isField_of_digits (hdigits w hw).1 (List.all_eq_true.mp (hdigits w hw).2)
  inode_ne := by decide
  digits := List.all_eq_true.mp (by decide)
  rest_newline := by decide
  rest_nul := by decide
  short := by decide

def localTcp : TcpTable where
  title := ['s', 'l']
  lines := [localLine]
  title_newline := by decide
  title_short := by decide
  once := List.pairwise_singleton _ _

def twoProcesses : List ProcEntry :=
  [⟨['1'], some [⟨['3'], some "/dev/null".toList, by decide⟩,
      ⟨['4'], some "pipe:[7]".toList, by decide⟩]⟩,
    ⟨['2'], some [⟨['3'], some (inodeDesc ['7', '7']), by decide⟩]⟩]

end Manhattan.Sined.ClientPid
