import Mathlib.Data.Nat.Digits.Defs
import Manhattan.Lib.Handles
import Manhattan.Lib.Lines
import Manhattan.Sined.AppPath
import Manhattan.Sined.PolicyLoad

/-!
# The process of a SOCKS client (`get_pid_by_sockaddr`, `sined/src/socks.c`)

The SOCKS server asks the kernel whose connection it has accepted. A line of
`/proc/net/tcp` gives the inode of the client's socket, and the process is the one with a
descriptor that is a link to `socket:[inode]`; the function goes through the descriptors of
all processes until it finds the link.

`buf` serves for the lines of the table, for the numbers of the processes and for the targets
of the links, and `readlink` writes no NUL. What is compared is therefore the target
continued with what was in the array before, cut to the length of the description that is
looked for.

This module follows the handles. `fd_dir` is closed at the end of each round of the outer loop
and keeps its value, so that the code at the label `error`, which is reached after the loop as
well, closes the last of them again (`handles_closed_iff`). Which process is found is the
subject of the next module.

Mirroring notes:
- This is the function without `SOCKS_IPV6`. `src` has room for both numbers (14 of 46
  characters), and `sprintf(src, "%s:%04X", src, port)` appends to it.
- A null pointer as an argument of `strcmp` ends the program (`none`). As an argument of
  `sprintf` it is written as `(null)`.
- The results of `opendir`, `readdir` and `readlink` are given for each entry, and any of
  them may fail. A `readdir` that fails ends the list.
- `buf` holds anything when the search through `/proc` begins.
- A closed directory that is closed again is a further call in the list of calls; what the
  library does then is not modelled.
-/

namespace Manhattan.Sined.ClientPid

open Manhattan.Lib

/-! ## The environment -/

/-- An entry of a process's `fd` directory, `.`, `..` or the number of a descriptor, and
what `readlink` gives for it. -/
structure FdEntry where
  name : Text
  link : Option Text
  short : name.length ≤ 10

/-- An entry of `/proc`. Its `fd` directory is there and can be opened, or not. -/
structure ProcEntry where
  name : Text
  fds : Option (List FdEntry)

/-- The text of `/proc/net/tcp` and the entries of `/proc`, if they can be opened. -/
structure ProcFs where
  tcp : Option Text
  proc : Option (List ProcEntry)

/-- An IPv4 address as the integer `s_addr` and a port in host byte order. -/
structure Endpoint where
  addr : Fin (2 ^ 32)
  port : Fin (2 ^ 16)
  deriving DecidableEq

/-- `%08X:%04X` -/
def Endpoint.text (e : Endpoint) : Text := hex 8 e.addr ++ ':' :: hex 4 e.port

/-- `SOCKS_PORT` -/
def socksPort : Fin (2 ^ 16) := 10808

/-- The other end of the client's connection: it is on the same host. -/
def server (client : Endpoint) : Endpoint := ⟨client.addr, socksPort⟩

/-- The stream of `/proc/net/tcp`, the stream of `/proc` and that of the `k`th `fd`
directory that is opened. -/
inductive Handle where
  | tcp
  | proc
  | fd (k : Nat)
  deriving DecidableEq

/-! ## The inode of the client's socket -/

def inodeDesc (inode : Text) : Text := "socket:[".toList ++ inode ++ [']']

def skipTokens : Nat → Text → Text
  | 0, s => s
  | n + 1, s => skipTokens n (strtok ' ' s).2

/-- One round of the loop over the lines of the table: `inode_desc`, if it is set. -/
def lineInode (src dst line : Text) : Option (Option Text) :=
  let sl := strtok ' ' line
  let localAddr := strtok ' ' sl.2
  let remote := strtok ' ' localAddr.2
  localAddr.1.bind fun l =>
    if l ≠ src then some none
    else
      remote.1.bind fun r =>
        if r ≠ dst then some none
        else
          let inode := (strtok ' ' (skipTokens 6 remote.2)).1
          some (some (inodeDesc (inode.getD "(null)".toList)))

/-- The loop over the lines that follow the title. -/
def findInode (src dst : Text) : List Text → Option (Option Text × List (Call Handle))
  -- `inode_desc` is still empty
  | [] => some (none, [⟨.tcp, .used⟩])
  | buf :: rest =>
    (lineInode src dst (Lib.cstr buf)).bind fun
      | some desc => some (some desc, [⟨.tcp, .used⟩])
      | none => (findInode src dst rest).map fun r => (r.1, ⟨.tcp, .used⟩ :: r.2)

/-- The first half of the function. -/
def findSocket (tcp : Option Text) (src dst : Text) :
    Option (Option Text × List (Call Handle)) :=
  match tcp with
  | none => some (none, [])
  | some text =>
    match fgetsAll lineBufSize text with
    | [] => some (none, [⟨.tcp, .opened⟩, ⟨.tcp, .used⟩, ⟨.tcp, .closed⟩])
    | _title :: lines =>
      (findInode src dst lines).map fun r =>
        (r.1, ⟨.tcp, .opened⟩ :: ⟨.tcp, .used⟩ :: r.2 ++ [⟨.tcp, .closed⟩])

/-! ## The search through `/proc` -/

/-- `atoi` -/
def pidOf (name : Text) : Int := PolicyLoad.strtolInt (String.ofList name)

/-- The name is the one that `sprintf(buf, "%d", pid)` makes of its number. -/
def ProcEntry.IsProcess (e : ProcEntry) : Prop := decimal (pidOf e.name) = e.name

instance (e : ProcEntry) : Decidable e.IsProcess := inferInstanceAs (Decidable (_ = _))

/-- `path` -/
def linkPath (e : ProcEntry) (f : FdEntry) : Text :=
  "/proc/".toList ++ e.name ++ "/fd/".toList ++ f.name

/-- `buf` after `readlink` and the terminator. -/
def readTarget (desc target buf : Text) : Text :=
  (readlinkInto target lineBufSize buf).1.set desc.length nul

/-- The loop over the descriptors of a process: whether the link is found, `buf` and the
calls. -/
def scanFds (desc : Text) (k : Nat) : List FdEntry → Text → Bool × Text × List (Call Handle)
  | [], buf => (false, buf, [⟨.fd k, .used⟩])
  | f :: rest, buf =>
    match f.link with
    | none =>
      let r := scanFds desc k rest buf
      (r.1, r.2.1, ⟨.fd k, .used⟩ :: r.2.2)
    | some target =>
      if Lib.cstr (readTarget desc target buf) = desc then
        (true, readTarget desc target buf, [⟨.fd k, .used⟩])
      else
        let r := scanFds desc k rest (readTarget desc target buf)
        (r.1, r.2.1, ⟨.fd k, .used⟩ :: r.2.2)

/-- What the loop over the processes leaves: the process, if it is found, `fd_dir` and the
calls. -/
structure Scan where
  pid : Option Int
  fdDir : Option Nat
  calls : List (Call Handle)

def Scan.after (calls : List (Call Handle)) (s : Scan) : Scan :=
  { s with calls := calls ++ s.calls }

/-- The loop over the processes, where `k` directories have been opened before. -/
def scanProc (desc : Text) : Nat → Option Nat → List ProcEntry → Text → Scan
  | _, fdDir, [], _ => ⟨none, fdDir, [⟨.proc, .used⟩]⟩
  | k, fdDir, e :: rest, buf =>
    let buf₁ := store (decimal (pidOf e.name)) buf
    if e.IsProcess then
      match e.fds with
      -- the failed `opendir` has set `fd_dir` to a null pointer
      | none => (scanProc desc k none rest buf₁).after [⟨.proc, .used⟩]
      | some fds =>
        let r := scanFds desc k fds buf₁
        let calls := ⟨.proc, .used⟩ :: ⟨.fd k, .opened⟩ :: r.2.2
        if r.1 then
          ⟨some (pidOf e.name), some k, calls ++ [⟨.proc, .closed⟩, ⟨.fd k, .closed⟩]⟩
        else
          (scanProc desc (k + 1) (some k) rest r.2.1).after (calls ++ [⟨.fd k, .closed⟩])
    else (scanProc desc k fdDir rest buf₁).after [⟨.proc, .used⟩]

/-- The calls at the label `error` with `proc` open. -/
def Scan.errorCalls (s : Scan) : List (Call Handle) :=
  ⟨.proc, .closed⟩ :: (s.fdDir.map fun k => (⟨.fd k, .closed⟩ : Call Handle)).toList

/-- `get_pid_by_sockaddr`: what it returns and the calls it has made. -/
def getPidBySockaddr (fs : ProcFs) (sa : Endpoint) (buf : Text) :
    Option (Int × List (Call Handle)) :=
  (findSocket fs.tcp sa.text (server sa).text).map fun r =>
    match r.1, fs.proc with
    | none, _ => (-1, r.2)
    | some _, none => (-1, r.2)
    | some desc, some entries =>
      let s := scanProc desc 0 none entries buf
      match s.pid with
      | some pid => (pid, r.2 ++ ⟨.proc, .opened⟩ :: s.calls)
      | none => (-1, r.2 ++ ⟨.proc, .opened⟩ :: s.calls ++ s.errorCalls)

/-! ## The arrays

`inode_desc` and `path` have the size of a line. A description is not longer than the line it
was found in, because nine other words stand before the inode. -/

theorem skipTokens_length (n : Nat) : ∀ s, (skipTokens n s).length ≤ s.length - n := by
  induction n with
  | zero => exact fun s => Nat.le_refl _
  | succ n ih =>
    intro s
    have hrest := strtok_rest_length ' ' s
    have hskip := ih (strtok ' ' s).2
    show (skipTokens n (strtok ' ' s).2).length ≤ s.length - (n + 1)
    omega

theorem inodeDesc_length (inode : Text) : (inodeDesc inode).length = inode.length + 9 := by
  unfold inodeDesc
  rw [List.length_append, List.length_append, List.length_singleton,
    show "socket:[".toList.length = 8 from rfl]
  omega

theorem lineInode_length {src dst line desc : Text}
    (h : lineInode src dst line = some (some desc)) (hline : line.length < lineBufSize) :
    desc.length < lineBufSize := by
  obtain ⟨l, _, h⟩ := Option.bind_eq_some_iff.mp h
  split at h
  next => cases h
  next =>
    obtain ⟨r, _, h⟩ := Option.bind_eq_some_iff.mp h
    split at h
    next => cases h
    next =>
      cases h
      rw [inodeDesc_length]
      have hsl := strtok_rest_length ' ' line
      have hlocal := strtok_rest_length ' ' (strtok ' ' line).2
      have hrem := strtok_rest_length ' ' (strtok ' ' (strtok ' ' line).2).2
      generalize (strtok ' ' (strtok ' ' (strtok ' ' line).2).2).2 = s at hrem
      have hskip := skipTokens_length 6 s
      cases hinode : (strtok ' ' (skipTokens 6 s)).1 with
      | none =>
        show 6 + 9 < lineBufSize
        decide
      | some inode =>
        have hword := strtok_word_length hinode
        show inode.length + 9 < 256
        have hline' : line.length < 256 := hline
        omega

theorem findInode_length {src dst : Text} :
    ∀ {lines : List Text} {desc : Text} {calls : List (Call Handle)},
      findInode src dst lines = some (some desc, calls) →
      (∀ l ∈ lines, l.length < lineBufSize) → desc.length < lineBufSize
  | [], _, _, h, _ => by cases h
  | buf :: rest, desc, calls, h, hlines => by
    obtain ⟨hbuf, hrest⟩ := List.forall_mem_cons.mp hlines
    obtain ⟨o, ho, h⟩ := Option.bind_eq_some_iff.mp h
    cases o with
    | some desc' =>
      cases h
      refine lineInode_length ho (Nat.lt_of_le_of_lt ?_ hbuf)
      exact (List.takeWhile_sublist _).length_le
    | none =>
      obtain ⟨⟨found, calls'⟩, hr, heq⟩ := Option.map_eq_some_iff.mp h
      cases heq
      exact findInode_length hr hrest

/-- `inode_desc` holds the description, whatever the table is. -/
theorem findSocket_length {tcp : Option Text} {src dst desc : Text}
    {calls : List (Call Handle)} (h : findSocket tcp src dst = some (some desc, calls)) :
    desc.length < lineBufSize := by
  unfold findSocket at h
  split at h
  next => cases h
  next text =>
    have hlines : ∀ l ∈ fgetsAll lineBufSize text, l.length ≤ 255 :=
      (fgetsFrom_length (by decide) (by decide) (Nat.le_refl 255)).2
    split at h
    next => cases h
    next title lines heq =>
      obtain ⟨⟨found, calls'⟩, hr, heq'⟩ := Option.map_eq_some_iff.mp h
      cases heq'
      rw [heq] at hlines
      refine findInode_length hr fun l hl => ?_
      exact Nat.lt_succ_of_le (hlines l (List.mem_cons_of_mem title hl))

theorem pidOf_bounds (name : Text) : -2 ^ 31 ≤ pidOf name ∧ pidOf name < 2 ^ 31 := by
  unfold pidOf PolicyLoad.strtolInt
  have hle := @Int.le_bmod (max (-2 ^ 63) (min (2 ^ 63 - 1) (atoi (String.ofList name).toList)))
    (2 ^ 32) (by decide)
  have hlt := @Int.bmod_lt (max (-2 ^ 63) (min (2 ^ 63 - 1) (atoi (String.ofList name).toList)))
    (2 ^ 32) (by decide)
  omega

theorem decimal_length {n : Int} (h : -2 ^ 31 ≤ n ∧ n < 2 ^ 31) : (decimal n).length ≤ 11 := by
  cases n with
  | ofNat n =>
    have hn : (n : Int) < 2 ^ 31 := h.2
    have hlen := Nat.toDigits_length 10 n 10 (by decide) (by omega)
    exact Nat.le_succ_of_le hlen
  | negSucc n =>
    have hlen := Nat.toDigits_length 10 (n + 1) 10 (by decide) (by omega)
    exact Nat.succ_le_succ hlen

/-- `path` holds the paths of all links. -/
theorem linkPath_length {e : ProcEntry} (he : e.IsProcess) (f : FdEntry) :
    (linkPath e f).length < lineBufSize := by
  have hname : e.name.length ≤ 11 := he ▸ decimal_length (pidOf_bounds e.name)
  have hshort := f.short
  unfold linkPath
  rw [List.length_append, List.length_append, List.length_append,
    show "/proc/".toList.length = 6 from rfl, show "/fd/".toList.length = 4 from rfl]
  show _ < 256
  omega

/-! ## The calls -/

theorem findInode_calls {src dst : Text} :
    ∀ {lines : List Text} {r : Option Text × List (Call Handle)},
      findInode src dst lines = some r → ∀ c ∈ r.2, c = ⟨.tcp, .used⟩
  | [], _, h => by
    cases h
    exact fun c hc => List.mem_singleton.mp hc
  | buf :: rest, r, h => by
    obtain ⟨o, _, ho⟩ := Option.bind_eq_some_iff.mp h
    cases o with
    | some desc =>
      cases ho
      exact fun c hc => List.mem_singleton.mp hc
    | none =>
      obtain ⟨r', hr', rfl⟩ := Option.map_eq_some_iff.mp ho
      exact List.forall_mem_cons.mpr ⟨rfl, findInode_calls hr'⟩

/-- The first half works with the table only, and closes it. -/
theorem findSocket_calls {tcp : Option Text} {src dst : Text}
    {r : Option Text × List (Call Handle)} (h : findSocket tcp src dst = some r) :
    (∀ c ∈ r.2, c.handle = .tcp) ∧
      (life .tcp r.2 = some .unopened ∨ life .tcp r.2 = some .closed) := by
  unfold findSocket at h
  split at h
  next =>
    cases h
    exact ⟨fun c hc => absurd hc List.not_mem_nil, Or.inl rfl⟩
  next text =>
    split at h
    next =>
      cases h
      exact ⟨by decide, Or.inr rfl⟩
    next lines _ =>
      obtain ⟨r', hr', rfl⟩ := Option.map_eq_some_iff.mp h
      have hused : ∀ c ∈ r'.2, c = ⟨.tcp, .used⟩ := findInode_calls hr'
      constructor
      · intro c hc
        rcases List.mem_append.mp hc with hc | hc
        · rcases List.mem_cons.mp hc with rfl | hc
          · rfl
          · rcases List.mem_cons.mp hc with rfl | hc
            · rfl
            · rw [hused c hc]
        · rw [List.mem_singleton.mp hc]
      · refine Or.inr ?_
        show run (lifeStep Handle.tcp) .live (r'.2 ++ [⟨.tcp, .closed⟩]) = some .closed
        rw [run_append, run_used fun c hc _ => by rw [hused c hc]]
        rfl

theorem scanFds_calls (desc : Text) (k : Nat) :
    ∀ (fds : List FdEntry) (buf : Text), ∀ c ∈ (scanFds desc k fds buf).2.2, c = ⟨.fd k, .used⟩
  | [], _ => fun c hc => List.mem_singleton.mp hc
  | f :: rest, buf => by
    unfold scanFds
    split
    next => exact List.forall_mem_cons.mpr ⟨rfl, scanFds_calls desc k rest _⟩
    next =>
      split
      next => exact fun c hc => List.mem_singleton.mp hc
      next => exact List.forall_mem_cons.mpr ⟨rfl, scanFds_calls desc k rest _⟩

theorem proc_ne_tcp : Handle.proc ≠ .tcp := nofun

theorem proc_ne_fd (k : Nat) : Handle.proc ≠ .fd k := nofun

theorem fd_ne_proc (k : Nat) : Handle.fd k ≠ .proc := nofun

theorem fd_ne_fd {k j : Nat} (h : k ≠ j) : Handle.fd k ≠ .fd j := fun e => h (Handle.fd.inj e)

section Round

variable {desc : Text} {k : Nat} {fds : List FdEntry} {buf : Text} (rest : List (Call Handle))

/-- A round that opens a directory, as the handle of `/proc` sees it. -/
theorem run_round_proc :
    run (lifeStep Handle.proc) .live
        (⟨.proc, .used⟩ :: ⟨.fd k, .opened⟩ :: (scanFds desc k fds buf).2.2 ++ rest)
      = run (lifeStep Handle.proc) .live rest := by
  rw [List.cons_append, List.cons_append, run_cons_self]
  show run _ Life.live _ = _
  rw [run_cons_other (fd_ne_proc k), run_append, run_others]
  · rfl
  · intro c hc
    rw [scanFds_calls desc k fds buf c hc]
    exact fd_ne_proc k

/-- The directory that is opened stays open until the calls that follow. -/
theorem run_round_fd :
    run (lifeStep (Handle.fd k)) .unopened
        (⟨.proc, .used⟩ :: ⟨.fd k, .opened⟩ :: (scanFds desc k fds buf).2.2 ++ rest)
      = run (lifeStep (Handle.fd k)) .live rest := by
  rw [List.cons_append, List.cons_append, run_cons_other (proc_ne_fd k), run_cons_self]
  show run _ Life.live _ = _
  rw [run_append, run_used]
  · rfl
  · intro c hc _
    rw [scanFds_calls desc k fds buf c hc]

theorem run_round_other {h : Handle} (hproc : Handle.proc ≠ h) (hfd : Handle.fd k ≠ h) (s : Life) :
    run (lifeStep h) s
        (⟨.proc, .used⟩ :: ⟨.fd k, .opened⟩ :: (scanFds desc k fds buf).2.2 ++ rest)
      = run (lifeStep h) s rest := by
  rw [List.cons_append, List.cons_append, run_cons_other hproc, run_cons_other hfd, run_append,
    run_others]
  · rfl
  · intro c hc
    rw [scanFds_calls desc k fds buf c hc]
    exact hfd

end Round

/-- Other handles than `proc` and those of the directories opened from here on. -/
theorem scanProc_others {h : Handle} (hproc : Handle.proc ≠ h) (desc : Text) (k : Nat)
    (fdDir : Option Nat) (entries : List ProcEntry) (buf : Text) (hfd : ∀ j, k ≤ j → .fd j ≠ h)
    (s : Life) :
    run (lifeStep h) s (scanProc desc k fdDir entries buf).calls = some s := by
  fun_induction scanProc desc k fdDir entries buf with
  | case1 k fdDir buf => exact run_cons_other hproc s .used []
  | case2 k fdDir e rest buf buf₁ hpid hfds ih =>
    exact (run_cons_other hproc s .used _).trans (ih hfd)
  | case3 k fdDir e rest buf buf₁ hpid fds hfds r calls hfound =>
    have hk : Handle.fd k ≠ h := hfd k (Nat.le_refl k)
    rw [run_round_other _ hproc hk, run_cons_other hproc, run_cons_other hk]
    rfl
  | case4 k fdDir e rest buf buf₁ hpid fds hfds r calls hfound ih =>
    have hk : Handle.fd k ≠ h := hfd k (Nat.le_refl k)
    show run (lifeStep h) s (calls ++ [⟨.fd k, .closed⟩] ++ _) = some s
    rw [List.append_assoc, run_round_other _ hproc hk, List.singleton_append, run_cons_other hk]
    exact ih fun j hj => hfd j (by omega)
  | case5 k fdDir e rest buf buf₁ hpid ih =>
    exact (run_cons_other hproc s .used _).trans (ih hfd)

/-- `proc` is closed where the process is found, and otherwise stays open. -/
theorem scanProc_proc (desc : Text) (k : Nat) (fdDir : Option Nat) (entries : List ProcEntry)
    (buf : Text) :
    run (lifeStep Handle.proc) .live (scanProc desc k fdDir entries buf).calls
      = some (if (scanProc desc k fdDir entries buf).pid.isSome then .closed else .live) := by
  fun_induction scanProc desc k fdDir entries buf with
  | case1 k fdDir buf => rfl
  | case2 k fdDir e rest buf buf₁ hpid hfds ih => exact ih
  | case3 k fdDir e rest buf buf₁ hpid fds hfds r calls hfound =>
    rw [run_round_proc, run_cons_self]
    exact run_cons_other (fd_ne_proc k) .closed .closed []
  | case4 k fdDir e rest buf buf₁ hpid fds hfds r calls hfound ih =>
    show run _ Life.live (calls ++ [⟨.fd k, .closed⟩] ++ _) = _
    rw [List.append_assoc, run_round_proc, List.singleton_append, run_cons_other (fd_ne_proc k)]
    exact ih
  | case5 k fdDir e rest buf buf₁ hpid ih => exact ih

/-- The loop closes the directories it opens. -/
theorem scanProc_fd (desc : Text) (k : Nat) (fdDir : Option Nat) (entries : List ProcEntry)
    (buf : Text) (j : Nat) (hj : k ≤ j) :
    run (lifeStep (Handle.fd j)) .unopened (scanProc desc k fdDir entries buf).calls
        = some .unopened ∨
      run (lifeStep (Handle.fd j)) .unopened (scanProc desc k fdDir entries buf).calls
        = some .closed := by
  have hskip : ∀ calls, run (lifeStep (Handle.fd j)) .unopened (⟨.proc, .used⟩ :: calls)
      = run (lifeStep (Handle.fd j)) .unopened calls :=
    run_cons_other (proc_ne_fd j) .unopened .used
  fun_induction scanProc desc k fdDir entries buf with
  | case1 k fdDir buf => exact Or.inl (hskip [])
  | case2 k fdDir e rest buf buf₁ hpid hfds ih =>
    show run _ _ (_ :: _) = _ ∨ run _ _ (_ :: _) = _
    rw [hskip]
    exact ih hj
  | case3 k fdDir e rest buf buf₁ hpid fds hfds r calls hfound =>
    rcases Nat.eq_or_lt_of_le hj with rfl | hlt
    · right
      rw [run_round_fd, run_cons_other (proc_ne_fd k), run_cons_self]
      rfl
    · left
      have hne : Handle.fd k ≠ .fd j := fd_ne_fd (by omega)
      rw [run_round_other _ (proc_ne_fd j) hne, run_cons_other (proc_ne_fd j), run_cons_other hne]
      rfl
  | case4 k fdDir e rest buf buf₁ hpid fds hfds r calls hfound ih =>
    show run _ _ (calls ++ [⟨.fd k, .closed⟩] ++ _) = _ ∨
      run _ _ (calls ++ [⟨.fd k, .closed⟩] ++ _) = _
    rw [List.append_assoc]
    rcases Nat.eq_or_lt_of_le hj with rfl | hlt
    · right
      rw [run_round_fd, List.singleton_append, run_cons_self]
      exact scanProc_others (proc_ne_fd k) desc (k + 1) _ rest _
        (fun j hj => fd_ne_fd (by omega)) .closed
    · rw [run_round_other _ (proc_ne_fd j) (fd_ne_fd (by omega)), List.singleton_append,
        run_cons_other (fd_ne_fd (by omega))]
      exact ih hlt
  | case5 k fdDir e rest buf buf₁ hpid ih =>
    show run _ _ (_ :: _) = _ ∨ run _ _ (_ :: _) = _
    rw [hskip]
    exact ih hj

/-- The entries that are taken for processes. -/
def processes (entries : List ProcEntry) : List ProcEntry :=
  entries.filter fun e => decide e.IsProcess

theorem processes_cons_neg {e : ProcEntry} (he : ¬ e.IsProcess) (rest : List ProcEntry) :
    processes (e :: rest) = processes rest :=
  List.filter_cons_of_neg fun h => he (of_decide_eq_true h)

/-- A process is the last one unless another one follows. -/
theorem last_process_cons {e : ProcEntry} (he : e.IsProcess) (rest : List ProcEntry) (b : Bool)
    (f : ProcEntry → Bool) :
    (processes (e :: rest)).getLast?.elim b f = (processes rest).getLast?.elim (f e) f := by
  have hcons : processes (e :: rest) = e :: processes rest :=
    List.filter_cons_of_pos (decide_eq_true he)
  rw [hcons, List.getLast?_cons]
  cases (processes rest).getLast? <;> rfl

/-- `fd_dir` names a directory after the loop if that of the last process was opened. -/
theorem scanProc_fdDir (desc : Text) (k : Nat) (fdDir : Option Nat) (entries : List ProcEntry)
    (buf : Text) (hnone : (scanProc desc k fdDir entries buf).pid = none) :
    (scanProc desc k fdDir entries buf).fdDir.isSome
      = (processes entries).getLast?.elim fdDir.isSome fun e => e.fds.isSome := by
  fun_induction scanProc desc k fdDir entries buf with
  | case1 k fdDir buf => rfl
  | case2 k fdDir e rest buf buf₁ hpid hfds ih =>
    rw [last_process_cons hpid, hfds]
    exact ih hnone
  | case3 k fdDir e rest buf buf₁ hpid fds hfds r calls hfound => cases hnone
  | case4 k fdDir e rest buf buf₁ hpid fds hfds r calls hfound ih =>
    rw [last_process_cons hpid, hfds]
    exact ih hnone
  | case5 k fdDir e rest buf buf₁ hpid ih =>
    rw [processes_cons_neg hpid]
    exact ih hnone

section Search

variable {tcpCalls : List (Call Handle)} (htcp : ∀ c ∈ tcpCalls, c.handle = .tcp)
  (desc : Text) (entries : List ProcEntry) (buf : Text)

/-- The calls up to the end of the loop over the processes. -/
def searchCalls (tcpCalls : List (Call Handle)) (desc : Text) (entries : List ProcEntry)
    (buf : Text) : List (Call Handle) :=
  tcpCalls ++ ⟨.proc, .opened⟩ :: (scanProc desc 0 none entries buf).calls

/-- The search does not touch the table again. -/
theorem life_tcp_search :
    life .tcp (searchCalls tcpCalls desc entries buf) = life .tcp tcpCalls := by
  unfold life searchCalls
  have hsearch : ∀ s, run (lifeStep Handle.tcp) s
      (⟨.proc, .opened⟩ :: (scanProc desc 0 none entries buf).calls) = some s := by
    intro s
    rw [run_cons_other proc_ne_tcp]
    exact scanProc_others proc_ne_tcp desc 0 none entries buf nofun s
  rw [run_append, Option.bind_congr fun s _ => hsearch s, Option.bind_fun_some]

include htcp in
/-- The calls before the search are nothing to the other handles. -/
theorem life_search (h : Handle) (hne : Handle.tcp ≠ h) :
    life h (searchCalls tcpCalls desc entries buf)
      = run (lifeStep h) .unopened
          (⟨.proc, .opened⟩ :: (scanProc desc 0 none entries buf).calls) := by
  unfold life searchCalls
  rw [run_append, run_others fun c hc => by rw [htcp c hc]; exact hne]
  rfl

include htcp in
theorem life_proc_search :
    life .proc (searchCalls tcpCalls desc entries buf)
      = some (if (scanProc desc 0 none entries buf).pid.isSome then .closed else .live) := by
  rw [life_search htcp desc entries buf .proc nofun, run_cons_self]
  exact scanProc_proc desc 0 none entries buf

include htcp in
theorem life_fd_search (j : Nat) :
    life (.fd j) (searchCalls tcpCalls desc entries buf) = some .unopened ∨
      life (.fd j) (searchCalls tcpCalls desc entries buf) = some .closed := by
  rw [life_search htcp desc entries buf (.fd j) nofun, run_cons_other (proc_ne_fd j)]
  exact scanProc_fd desc 0 none entries buf j (Nat.zero_le j)

include htcp in
/-- Nothing but the table has been opened. -/
theorem closedOnce_of_tcp
    (hlife : life .tcp tcpCalls = some .unopened ∨ life .tcp tcpCalls = some .closed) :
    ClosedOnce tcpCalls := by
  intro h
  by_cases hh : Handle.tcp = h
  · exact hh ▸ hlife
  · exact Or.inl (run_others (fun c hc => by rw [htcp c hc]; exact hh) .unopened)

include htcp in
/-- A search that finds the process has closed everything. -/
theorem closedOnce_of_found
    (hlife : life .tcp tcpCalls = some .unopened ∨ life .tcp tcpCalls = some .closed)
    (hfound : (scanProc desc 0 none entries buf).pid.isSome) :
    ClosedOnce (searchCalls tcpCalls desc entries buf) := by
  intro h
  cases h with
  | tcp => rwa [life_tcp_search]
  | proc => exact Or.inr (by rw [life_proc_search htcp, if_pos hfound])
  | fd j => exact life_fd_search htcp desc entries buf j

include htcp in
/-- After a search that finds nothing, `fd_dir` must not name a directory. -/
theorem closedOnce_of_error
    (hlife : life .tcp tcpCalls = some .unopened ∨ life .tcp tcpCalls = some .closed)
    (hnone : (scanProc desc 0 none entries buf).pid = none) :
    ClosedOnce (searchCalls tcpCalls desc entries buf
        ++ (scanProc desc 0 none entries buf).errorCalls) ↔
      (scanProc desc 0 none entries buf).fdDir = none := by
  have hclosed : ClosedOnce (searchCalls tcpCalls desc entries buf ++ [⟨.proc, .closed⟩]) := by
    refine closedOnce_close ?_ fun h hne => ?_
    · rw [life_proc_search htcp, hnone]
      rfl
    · cases h with
      | tcp => rwa [life_tcp_search]
      | proc => exact absurd rfl hne
      | fd j => exact life_fd_search htcp desc entries buf j
  unfold Scan.errorCalls
  cases (scanProc desc 0 none entries buf).fdDir with
  | none => exact iff_of_true hclosed rfl
  | some j =>
    refine iff_of_false (fun h => ?_) nofun
    rw [← List.singleton_append, ← List.append_assoc] at h
    exact hclosed.not_close _ h

end Search

/-- The handles are closed once exactly if a search that finds nothing does not end with a
process whose `fd` directory was opened. -/
theorem handles_closed_iff {fs : ProcFs} {sa : Endpoint} {buf : Text} {pid : Int}
    {calls : List (Call Handle)} (h : getPidBySockaddr fs sa buf = some (pid, calls)) :
    ClosedOnce calls ↔
      ∀ desc tcpCalls entries,
        findSocket fs.tcp sa.text (server sa).text = some (some desc, tcpCalls) →
        fs.proc = some entries → (scanProc desc 0 none entries buf).pid = none →
        ∀ e, (processes entries).getLast? = some e → e.fds = none := by
  obtain ⟨⟨found, tcpCalls⟩, hr, heq⟩ := Option.map_eq_some_iff.mp h
  obtain ⟨htcp, hlife⟩ := findSocket_calls hr
  rw [hr]
  cases found with
  | none =>
    cases heq
    exact iff_of_true (closedOnce_of_tcp htcp hlife) nofun
  | some desc =>
    cases hproc : fs.proc with
    | none =>
      rw [hproc] at heq
      cases heq
      exact iff_of_true (closedOnce_of_tcp htcp hlife) nofun
    | some entries =>
      rw [hproc] at heq
      cases hpid : (scanProc desc 0 none entries buf).pid with
      | some p =>
        simp only [hpid] at heq
        cases heq
        refine iff_of_true (closedOnce_of_found htcp desc entries buf hlife ?_) ?_
        · rw [hpid]
          rfl
        · intro desc' tcpCalls' entries' hdesc hentries hnone
          cases hdesc
          cases hentries
          cases hpid.symm.trans hnone
      | none =>
        simp only [hpid] at heq
        cases heq
        have hdir := scanProc_fdDir desc 0 none entries buf hpid
        refine (closedOnce_of_error htcp desc entries buf hlife hpid).trans ?_
        rw [← Option.not_isSome_iff_eq_none, hdir]
        constructor
        · intro hlast desc' tcpCalls' entries' hdesc hentries _ e he
          cases hdesc
          cases hentries
          rw [he] at hlast
          exact Option.not_isSome_iff_eq_none.mp hlast
        · intro hall
          have hlast := hall desc tcpCalls entries rfl rfl hpid
          cases he : (processes entries).getLast? with
          | none => exact Bool.false_ne_true
          | some e => exact Option.not_isSome_iff_eq_none.mpr (hlast e he)

/-- A client on this host, and a table with its connection. -/
def localClient : Endpoint := ⟨0x0100007F, 40000⟩

def localTable : Text :=
  "sl\n0: 0100007F:9C40 0100007F:2A38 01 0:0 0:0 0 1000 0 77 1\n".toList

/-- The only process does not have the socket: its directory is closed twice. -/
theorem handles_closed_again :
    ∃ calls, getPidBySockaddr ⟨some localTable, some [⟨['1'], some []⟩]⟩ localClient []
        = some (-1, calls) ∧ life (.fd 0) calls = none ∧ ¬ ClosedOnce calls :=
  ⟨_, rfl, by decide, fun h => absurd (h (.fd 0)) (by decide)⟩

/-- The process has the socket. -/
def localOwner : ProcFs :=
  ⟨some localTable, some [⟨['1'], some [⟨['0'], some (inodeDesc ['7', '7']), by decide⟩]⟩]⟩

theorem handles_closed_found :
    ∃ calls, getPidBySockaddr localOwner localClient [] = some (1, calls) ∧ ClosedOnce calls := by
  have hrun : getPidBySockaddr localOwner localClient [] = some (1,
      [⟨.tcp, .opened⟩, ⟨.tcp, .used⟩, ⟨.tcp, .used⟩, ⟨.tcp, .closed⟩, ⟨.proc, .opened⟩,
        ⟨.proc, .used⟩, ⟨.fd 0, .opened⟩, ⟨.fd 0, .used⟩, ⟨.proc, .closed⟩, ⟨.fd 0, .closed⟩]) := by
    decide
  have htable : findSocket localOwner.tcp localClient.text (server localClient).text
      = some (some (inodeDesc ['7', '7']),
        [⟨.tcp, .opened⟩, ⟨.tcp, .used⟩, ⟨.tcp, .used⟩, ⟨.tcp, .closed⟩]) := by
    decide
  refine ⟨_, hrun, (handles_closed_iff hrun).mpr ?_⟩
  intro desc tcpCalls entries hdesc hentries hnone
  cases htable.symm.trans hdesc
  cases hentries
  exact absurd hnone (by decide)

end Manhattan.Sined.ClientPid
