import Manhattan.Lib.Run
import Manhattan.Lib.Text

/-!
# The preference listener of the HIP daemon (`hip_pref_listener` of `hip_sine.c`)

A datagram `pref X` asks for another interface, `eoff N` switches the encryption. For
`pref X` the listener looks for an address of `X` in `my_addr_head`, replaces the route and
answers whether it found one.

The address found is kept in `l_new`, which is set to `NULL` once, before the loop. So
"not found" is an answer of the first messages only: as soon as one message has found an
address, every name is accepted, with a route for an interface that may not exist. Before
that, a name without an address is answered as it should be, the empty name apart: it is
the name the listener starts with. With IPv6 the tests for loopback addresses and LSIs look
at the flow information (`Sockaddr.passes`), so that `::1` is found, and a HIT.

`replies_truthful_iff` is the exact condition, over whole sequences of messages. The state
is known from the messages so far as far as it matters (`Known`): whether `l_new` is set,
and that the names are empty if it is not.

Mirroring notes:
- `listen` takes any datagram: at most 255 bytes get into `buf`, and what was there stays
  behind them. A failed `recvfrom` has the answer of an empty datagram.
- A message has its terminator with it, as `send_hipd` and the security manager send it.
- `hip_preferred_ifname` has 20 characters (the declaration is in a comment); `sprintf` of
  a longer name is outside the model, and so has no result.
- `IP_VERSION`, `DEST_ADDR`, `devname_to_index` and `my_addr_head` are parameters.
- `system` gets a line of commands. With IPv6 the line ends with two more commands, and if
  there is nothing before them it begins with `&&`: the shell runs nothing of it.
-/

namespace Manhattan.Hip

open Manhattan.Lib

/-! ## Addresses -/

inductive IpVersion where
  | v4
  | v6
  deriving DecidableEq, Repr

inductive Family where
  | inet
  | inet6
  | other
  deriving DecidableEq, Repr

/-- `struct sockaddr_storage`. In a `sockaddr_in6` the flow information is where a
`sockaddr_in` has its address. -/
structure Sockaddr where
  family : Family
  sinAddr : BitVec 32
  sin6Addr : BitVec 128
  deriving DecidableEq, Repr

/-- `IN_LOOP` -/
def Sockaddr.inLoop (a : Sockaddr) : Bool := a.sinAddr >>> 24 = 127

/-- `IS_LSI32` -/
def isLsi32 (ip : BitVec 32) : Bool := ip &&& 0xFF000000 = 0x01000000

/-- `IN6_IS_ADDR_LINKLOCAL`, `IN6_IS_ADDR_SITELOCAL` and `IN6_IS_ADDR_MULTICAST` -/
def in6Local (ip : BitVec 128) : Bool :=
  ip >>> 118 = 0x3FA || ip >>> 118 = 0x3FB || ip >>> 120 = 0xFF

/-- `IN6_LOOP` -/
def in6Loop (ip : BitVec 128) : Bool := ip = 1

/-- `IS_HIT`: the prefix `2001:10::/28` -/
def isHit (ip : BitVec 128) : Bool := ip >>> 100 = 0x2001001

/-- The tests an address has to pass, in the order of the `continue`s. With IPv6 the last
two look at the flow information. -/
def Sockaddr.passes (version : IpVersion) (a : Sockaddr) : Bool :=
  (match version with
    | .v6 => a.family = .inet6 && !in6Local a.sin6Addr
    | .v4 => a.family = .inet) && !a.inLoop && !isLsi32 a.sinAddr

/-- What an address has to be: of the right family, and neither a loopback address nor an
LSI (`IS_LSI`; of IPv6 addresses these are the HITs). -/
def Sockaddr.Eligible (version : IpVersion) (a : Sockaddr) : Prop :=
  match version with
  | .v4 => a.family = .inet ∧ a.inLoop = false ∧ isLsi32 a.sinAddr = false
  | .v6 => a.family = .inet6 ∧ in6Loop a.sin6Addr = false ∧ isHit a.sin6Addr = false

instance decEligible : (version : IpVersion) → (a : Sockaddr) → Decidable (a.Eligible version)
  | .v4, _ => inferInstanceAs (Decidable (_ ∧ _ ∧ _))
  | .v6, _ => inferInstanceAs (Decidable (_ ∧ _ ∧ _))

/-- With IPv4 the tests are the right ones. -/
theorem Sockaddr.passes_v4_iff (a : Sockaddr) : a.passes .v4 = true ↔ a.Eligible .v4 := by
  simp only [Sockaddr.passes, Sockaddr.Eligible, Bool.and_eq_true, Bool.not_eq_true',
    decide_eq_true_eq, and_assoc]

/-- An entry of `my_addr_head`. -/
structure LocalAddr where
  addr : Sockaddr
  ifIndex : Int
  deriving DecidableEq, Repr

structure Config where
  version : IpVersion
  destAddr : Text
  devnameToIndex : Text → Int
  myAddrs : List LocalAddr

/-- The interface has an address that can be used. -/
def Config.HasEligible (cfg : Config) (ifname : Text) : Prop :=
  ∃ l ∈ cfg.myAddrs, cfg.devnameToIndex ifname = l.ifIndex ∧ l.addr.Eligible cfg.version

instance decHasEligible (cfg : Config) (ifname : Text) : Decidable (cfg.HasEligible ifname) :=
  inferInstanceAs (Decidable (∃ l ∈ cfg.myAddrs, _ ∧ _))

/-- The interface has an address that passes the tests. -/
def Config.HasPassing (cfg : Config) (ifname : Text) : Prop :=
  ∃ l ∈ cfg.myAddrs, cfg.devnameToIndex ifname = l.ifIndex ∧ l.addr.passes cfg.version = true

theorem Config.hasPassing_iff {cfg : Config} (h : cfg.version = .v4) (ifname : Text) :
    cfg.HasPassing ifname ↔ cfg.HasEligible ifname := by
  unfold Config.HasPassing Config.HasEligible
  rw [h]
  simp only [Sockaddr.passes_v4_iff]

/-- The loop over `my_addr_head`; `l_new` is what it was before if nothing is found. -/
def Config.select (cfg : Config) (ifname : Text) (lNew : Option LocalAddr) : Option LocalAddr :=
  cfg.myAddrs.foldl (fun found l =>
    if cfg.devnameToIndex ifname = l.ifIndex ∧ l.addr.passes cfg.version = true then some l
    else found) lNew

/-- `get_router_str` -/
def getRouterStr (version : IpVersion) (ifname : Text) : Text :=
  if ifname = "eth0".toList then
    match version with
    | .v4 => " via 128.59.16.1".toList
    | .v6 => " via fe80::2d0:6ff:fe26:9c00".toList
  else if ifname = "wlan0".toList then
    match version with
    | .v4 => " via 192.168.1.1".toList
    | .v6 => " via fe80::21f:3bff:fe05:6d5b".toList
  else []

/-! ## Commands -/

def IpVersion.option : Option IpVersion → Text
  | none => []
  | some .v4 => " -4".toList
  | some .v6 => " -6".toList

inductive Command where
  | flush (version : Option IpVersion) (table : Text)
  | add (version : Option IpVersion) (table dest dev : Text)
  deriving DecidableEq, Repr

def Command.text : Command → Text
  | .flush version table =>
    "sudo ip".toList ++ IpVersion.option version ++ " route flush table ".toList ++ table
  | .add version table dest dev =>
    "sudo ip".toList ++ IpVersion.option version ++ " route add table ".toList ++ table ++
      ' ' :: dest ++ " dev ".toList ++ dev

def Command.Names (ifname : Text) : Command → Prop
  | .flush _ table => table = ifname
  | .add _ table _ dev => table = ifname ∨ dev = ifname

/-- The two commands at the end of the line with IPv6. -/
def triggers : List Command :=
  [.add none "eth0".toList "default".toList "eth0".toList, .flush none "eth0".toList]

/-- `cmd`, and whether the two commands are appended. -/
structure CmdLine where
  commands : List Command
  triggered : Bool
  deriving DecidableEq, Repr

/-- The commands `system` runs of it. -/
def CmdLine.runs (line : CmdLine) : List Command :=
  if line.triggered then
    if line.commands = [] then [] else line.commands ++ triggers
  else line.commands

def andThen : List Command → Text
  | [] => []
  | [c] => c.text
  | c :: d :: cs => c.text ++ " && ".toList ++ andThen (d :: cs)

/-- The argument of `system`. -/
def CmdLine.text (line : CmdLine) : Text :=
  andThen line.commands ++ if line.triggered then " && ".toList ++ andThen triggers else []

theorem andThen_append {cs ds : List Command} (hcs : cs ≠ []) (hds : ds ≠ []) :
    andThen (cs ++ ds) = andThen cs ++ (" && ".toList ++ andThen ds) := by
  induction cs with
  | nil => exact absurd rfl hcs
  | cons c cs ih =>
    cases cs with
    | nil =>
      obtain ⟨d, ds, rfl⟩ := List.exists_cons_of_ne_nil hds
      exact List.append_assoc _ _ _
    | cons c' cs =>
      have hrest := ih (List.cons_ne_nil c' cs)
      show c.text ++ " && ".toList ++ andThen (c' :: cs ++ ds) = _
      rw [hrest]
      simp only [andThen, List.append_assoc]

/-- A line with a command at its start is the commands it runs. -/
theorem CmdLine.text_eq {line : CmdLine} (h : line.commands ≠ []) :
    line.text = andThen line.runs := by
  unfold CmdLine.text CmdLine.runs
  cases line.triggered with
  | true =>
    rw [if_pos rfl, if_pos rfl, if_neg h, andThen_append h (by decide : triggers ≠ [])]
  | false => exact List.append_nil _

/-! ## The listener -/

/-- The globals, `l_new` and `buf`. -/
structure State where
  preferred : Text
  current : Text
  lNew : Option LocalAddr
  preferChanged : Bool
  encryptOff : Int
  buf : Text
  deriving DecidableEq, Repr

/-- Before the first message; `buf` is not initialised. -/
def State.start (buf : Text) : State := ⟨[], [], none, false, 0, buf⟩

/-- `result`, and what was given to `system`. -/
structure Response where
  result : Text
  line : Option CmdLine
  deriving DecidableEq, Repr

def Response.runs (r : Response) : List Command := (r.line.map CmdLine.runs).getD []

def alreadyOn (ifname : Text) : Text := "Already on ".toList ++ ifname

def changedTo (ifname : Text) : Text := "Interface changed to ".toList ++ ifname

def notFound (ifname : Text) : Text := "Interface ".toList ++ ifname ++ " not found!".toList

/-- `pref` -/
def onPref (cfg : Config) (s : State) (arg : Text) : Option (State × Response) :=
  if arg = s.preferred then some ({ s with preferChanged := true }, ⟨alreadyOn s.preferred, none⟩)
  else if 20 ≤ arg.length then none
  else
    let cmd := if s.current = [] then [] else [.flush (some cfg.version) s.preferred]
    let lNew := cfg.select arg s.lNew
    let s := { s with preferChanged := true, lNew := lNew }
    let route := .add (some cfg.version) arg (cfg.destAddr ++ getRouterStr cfg.version arg) arg
    if lNew.isSome then
      some ({ s with preferred := arg, current := arg },
        ⟨changedTo arg, some ⟨cmd ++ [route], cfg.version = .v6⟩⟩)
    else
      some ({ s with preferred := [], current := [] },
        ⟨notFound arg, some ⟨cmd, cfg.version = .v6⟩⟩)

/-- `eoff` -/
def onEoff (s : State) (arg : Text) : State × Response :=
  ({ s with encryptOff := atoi arg },
    ⟨(if atoi arg ≠ 0 then "Encryption is turned off!!" else "Encryption is turned on!!").toList,
      none⟩)

/-- The two parts of the message, `buf` and `buf + 5`. -/
def dispatch (cfg : Config) (s : State) (keyword arg : Text) : Option (State × Response) :=
  if keyword = "pref".toList then onPref cfg s arg
  else if keyword = "eoff".toList then some (onEoff s arg)
  else some (s, ⟨"Bad message format!".toList, none⟩)

/-- `recvfrom(sockfd, buf, 255, …)` -/
def received (buf datagram : Text) : Text :=
  datagram.take 255 ++ buf.drop (datagram.take 255).length

/-- One round of the loop. -/
def listen (cfg : Config) (s : State) (datagram : Text) : Option (State × Response) :=
  let buf := received s.buf datagram
  if (datagram.take 255).length < 6 ∨ buf.getD 4 nul ≠ ' ' then
    some ({ s with buf := buf }, ⟨"Ignore bad message.".toList, none⟩)
  else
    let buf := buf.set 4 nul
    dispatch cfg { s with buf := buf } (cstr buf) (cstr (buf.drop 5))

/-! ## Messages -/

/-- A string, to be sent with its terminator. -/
abbrev CString := { t : Text // nul ∉ t }

inductive Message where
  | pref (ifname : CString)
  | eoff (n : CString)
  deriving DecidableEq

def Message.keyword : Message → Text
  | .pref _ => "pref".toList
  | .eoff _ => "eoff".toList

def Message.arg : Message → CString
  | .pref ifname => ifname
  | .eoff n => n

def Message.bytes (m : Message) : Text := m.keyword ++ ' ' :: (m.arg.val ++ [nul])

/-- A truthful answer to `pref X`: changed if there is an address only; and if there is
none, not found, with no command for `X` and the names as they were. -/
structure TruthfulPref (cfg : Config) (ifname : Text) (s s' : State) (r : Response) : Prop where
  changed : r.result = changedTo ifname → cfg.HasEligible ifname
  missing : ¬ cfg.HasEligible ifname →
    r.result = notFound ifname ∧ (∀ c ∈ r.runs, ¬ c.Names ifname) ∧
      s'.preferred = s.preferred ∧ s'.current = s.current

def Truthful (cfg : Config) (s s' : State) (r : Response) : Message → Prop
  | .pref ifname => TruthfulPref cfg ifname.val s s' r
  | .eoff _ => True

/-- The message is answered, and truthfully. -/
def Answered (cfg : Config) (s : State) (m : Message) : Prop :=
  ∃ s' r, listen cfg s m.bytes = some (s', r) ∧ Truthful cfg s s' r m

def next (cfg : Config) (s : State) (m : Message) : Option State :=
  (listen cfg s m.bytes).map Prod.fst

/-! ## Receiving -/

section

variable {k : Text} (hk : k.length = 4) (t buf : Text)

include hk

/-- The buffer after a message: the keyword, the blank and as much as there is room for. -/
theorem received_message :
    received buf (k ++ ' ' :: (t ++ [nul])) =
      k ++ ' ' :: ((t ++ [nul]).take 250 ++
        buf.drop ((k ++ ' ' :: (t ++ [nul])).take 255).length) := by
  have htake : (k ++ ' ' :: (t ++ [nul])).take 255 = k ++ ' ' :: (t ++ [nul]).take 250 := by
    rw [List.take_append, List.take_of_length_le (by omega), hk, List.take_succ_cons]
  unfold received
  rw [htake, List.append_assoc, List.cons_append]

/-- `buf[4] = 0;` makes two strings of it. -/
theorem set_blank (rest : Text) : (k ++ ' ' :: rest).set 4 nul = k ++ nul :: rest := by
  rw [List.set_append_right _ _ (Nat.le_of_eq hk), hk]
  rfl

theorem length_message : 6 ≤ ((k ++ ' ' :: (t ++ [nul])).take 255).length := by
  rw [List.length_take, List.length_append, List.length_cons, List.length_append,
    List.length_singleton]
  omega

end

/-- The string behind the blank, with what `buf` held behind it. -/
def argOf (t stale : Text) : Text := cstr ((t ++ [nul]).take 250 ++ stale)

theorem argOf_eq {t : Text} (hnul : nul ∉ t) (hlen : t.length ≤ 249) (stale : Text) :
    argOf t stale = t := by
  unfold argOf
  rw [List.take_of_length_le (by rw [List.length_append, List.length_singleton]; omega),
    List.append_assoc]
  exact cstr_append hnul stale

/-- A name that is too long stays so, cut off or not. -/
theorem argOf_long {t : Text} (hnul : nul ∉ t) (hlen : 20 ≤ t.length) (stale : Text) :
    20 ≤ (argOf t stale).length := by
  have hfront : (t ++ [nul]).take 250 ++ stale =
      t.take 20 ++ (((t ++ [nul]).take 250).drop 20 ++ stale) := by
    have htwenty : ((t ++ [nul]).take 250).take 20 = t.take 20 := by
      rw [List.take_take, List.take_append_of_le_length (by omega)]
      rfl
    rw [← htwenty, ← List.append_assoc, List.take_append_drop]
  unfold argOf
  rw [hfront, cstr_append_left (fun h => hnul (List.mem_of_mem_take h)), List.length_append,
    List.length_take]
  omega

theorem keyword_spec (m : Message) : m.keyword.length = 4 ∧ nul ∉ m.keyword := by
  cases m with
  | pref ifname => exact (by decide : "pref".toList.length = 4 ∧ nul ∉ "pref".toList)
  | eoff n => exact (by decide : "eoff".toList.length = 4 ∧ nul ∉ "eoff".toList)

/-- A message gets to its branch, with its argument. -/
theorem listen_message (cfg : Config) (s : State) (m : Message) :
    ∃ buf stale, listen cfg s m.bytes =
      dispatch cfg { s with buf := buf } m.keyword (argOf m.arg.val stale) := by
  obtain ⟨hk, hnul⟩ := keyword_spec m
  have hblank : (received s.buf m.bytes).getD 4 nul = ' ' := by
    unfold Message.bytes
    rw [received_message hk, List.getD_eq_getElem?_getD,
      List.getElem?_append_right (Nat.le_of_eq hk), hk]
    rfl
  have hfits : ¬ ((m.bytes.take 255).length < 6 ∨ (received s.buf m.bytes).getD 4 nul ≠ ' ') :=
    not_or.mpr ⟨Nat.not_lt.mpr (length_message hk m.arg.val), not_not.mpr hblank⟩
  refine ⟨(received s.buf m.bytes).set 4 nul, s.buf.drop (m.bytes.take 255).length, ?_⟩
  unfold listen
  dsimp only
  rw [if_neg hfits]
  have hset : (received s.buf m.bytes).set 4 nul =
      m.keyword ++ nul :: ((m.arg.val ++ [nul]).take 250 ++
        s.buf.drop (m.bytes.take 255).length) := by
    unfold Message.bytes
    rw [received_message hk, set_blank hk]
  have hdrop : ((received s.buf m.bytes).set 4 nul).drop 5 =
      (m.arg.val ++ [nul]).take 250 ++ s.buf.drop (m.bytes.take 255).length := by
    rw [hset, List.drop_append, List.drop_eq_nil_of_le (by omega), hk]
    rfl
  rw [hdrop]
  congr 1
  rw [hset, cstr_append hnul]

/-! ## One message -/

section

variable {cfg : Config} {s : State} {ifname : Text}

theorem select_isSome (cfg : Config) (ifname : Text) (lNew : Option LocalAddr) :
    (cfg.select ifname lNew).isSome = true ↔ lNew.isSome = true ∨ cfg.HasPassing ifname := by
  unfold Config.select Config.HasPassing
  induction cfg.myAddrs generalizing lNew with
  | nil => simp
  | cons l ls ih =>
    rw [List.foldl_cons, ih]
    by_cases hl : cfg.devnameToIndex ifname = l.ifIndex ∧ l.addr.passes cfg.version = true
    · simp [hl]
    · rw [if_neg hl]
      simp only [List.mem_cons, exists_eq_or_imp, hl, false_or]

theorem changedTo_ne_notFound (ifname : Text) : changedTo ifname ≠ notFound ifname := by
  intro h
  -- one of the two texts has a 'g' outside the name
  have hcount := congrArg (List.count 'g') h
  unfold changedTo notFound at hcount
  rw [List.count_append, List.count_append, List.count_append] at hcount
  have hone : List.count 'g' "Interface changed to ".toList = 1 := by decide
  have hzero : List.count 'g' "Interface ".toList = 0 := by decide
  have hzero' : List.count 'g' " not found!".toList = 0 := by decide
  omega

theorem alreadyOn_ne_notFound (a b : Text) : alreadyOn a ≠ notFound b := by
  intro h
  have hhead : some 'A' = some 'I' := congrArg List.head? h
  exact absurd hhead (by decide)

theorem onPref_already (h : ifname = s.preferred) :
    onPref cfg s ifname =
      some ({ s with preferChanged := true }, ⟨alreadyOn s.preferred, none⟩) := if_pos h

theorem onPref_long (hlong : 20 ≤ ifname.length) (hshort : s.preferred.length ≤ 19) :
    onPref cfg s ifname = none := by
  have hne : ifname ≠ s.preferred := fun h => by
    rw [h] at hlong
    omega
  unfold onPref
  rw [if_neg hne, if_pos hlong]

section

variable (hne : ifname ≠ s.preferred) (hlen : ifname.length ≤ 19)

include hne hlen

theorem onPref_found (h : (cfg.select ifname s.lNew).isSome = true) :
    ∃ line, onPref cfg s ifname =
      some (⟨ifname, ifname, cfg.select ifname s.lNew, true, s.encryptOff, s.buf⟩,
        ⟨changedTo ifname, some line⟩) := by
  unfold onPref
  rw [if_neg hne, if_neg (by omega)]
  dsimp only
  rw [if_pos h]
  exact ⟨_, rfl⟩

theorem onPref_missing (h : cfg.select ifname s.lNew = none) :
    onPref cfg s ifname =
      some (⟨[], [], none, true, s.encryptOff, s.buf⟩,
        ⟨notFound ifname, some ⟨if s.current = [] then [] else
          [.flush (some cfg.version) s.preferred], cfg.version = .v6⟩⟩) := by
  unfold onPref
  rw [if_neg hne, if_neg (by omega)]
  dsimp only
  rw [h]
  rfl

end

theorem onPref_isSome (hlen : ifname.length ≤ 19) : ∃ s' r, onPref cfg s ifname = some (s', r) := by
  by_cases hne : ifname = s.preferred
  · exact ⟨_, _, onPref_already hne⟩
  · cases hsel : cfg.select ifname s.lNew with
    | none => exact ⟨_, _, onPref_missing hne hlen hsel⟩
    | some l =>
      obtain ⟨line, hfound⟩ := onPref_found hne hlen (by rw [hsel]; rfl)
      exact ⟨_, _, hfound⟩

/-- For a name without an address, the answer is truthful from a state as at the start,
unless an address passes that should not. -/
theorem onPref_truthful_iff (hlen : ifname.length ≤ 19) (hmissing : ¬ cfg.HasEligible ifname) :
    (∃ s' r, onPref cfg s ifname = some (s', r) ∧ TruthfulPref cfg ifname s s' r) ↔
      ifname ≠ s.preferred ∧ ¬ cfg.HasPassing ifname ∧ s.lNew = none ∧ s.preferred = [] ∧
        s.current = [] := by
  constructor
  · rintro ⟨s', r, heq, htruthful⟩
    obtain ⟨hresult, -, hpreferred, hcurrent⟩ := htruthful.missing hmissing
    have hne : ifname ≠ s.preferred := by
      intro h
      rw [onPref_already h] at heq
      cases heq
      exact alreadyOn_ne_notFound _ _ hresult
    cases hsel : cfg.select ifname s.lNew with
    | some l =>
      obtain ⟨line, hfound⟩ := onPref_found hne hlen (by rw [hsel]; rfl)
      rw [hfound] at heq
      cases heq
      exact absurd hresult (changedTo_ne_notFound ifname)
    | none =>
      have hnot : ¬ (s.lNew.isSome = true ∨ cfg.HasPassing ifname) := by
        rw [← select_isSome, hsel]
        exact Bool.false_ne_true
      rw [not_or, Option.not_isSome_iff_eq_none] at hnot
      rw [onPref_missing hne hlen hsel] at heq
      cases heq
      exact ⟨hne, hnot.2, hnot.1, hpreferred.symm, hcurrent.symm⟩
  · rintro ⟨hne, hpassing, hnone, hpreferred, hcurrent⟩
    have hsel : cfg.select ifname s.lNew = none := by
      have hiff := select_isSome cfg ifname s.lNew
      rw [hnone] at hiff ⊢
      exact Option.not_isSome_iff_eq_none.mp fun h => (hiff.mp h).elim nofun hpassing
    refine ⟨_, _, onPref_missing hne hlen hsel, ⟨fun h => ?_, fun _ => ⟨rfl, ?_, ?_, ?_⟩⟩⟩
    · exact absurd h.symm (changedTo_ne_notFound ifname)
    · -- there was no route to flush, and so the line has no command
      rw [hcurrent, if_pos rfl]
      intro c hc
      have hnothing : (⟨notFound ifname, some ⟨[], cfg.version = .v6⟩⟩ : Response).runs = [] := by
        cases cfg.version <;> rfl
      rw [hnothing] at hc
      cases hc
    · exact hpreferred.symm
    · exact hcurrent.symm

end

/-! ## Sequences of messages -/

/-- What the messages so far say about the state, if all were answered truthfully. -/
structure Known (cfg : Config) (before : List Message) (s : State) : Prop where
  short : s.preferred.length ≤ 19
  set : s.lNew.isSome = true ↔
    ∃ y : CString, .pref y ∈ before ∧ cfg.HasPassing y.val ∧ y.val ≠ []
  empty : s.lNew = none → s.preferred = [] ∧ s.current = []

/-- The next message can be answered truthfully. -/
def Fine (cfg : Config) (before : List Message) : Message → Prop
  | .pref x => x.val.length ≤ 19 ∧ (¬ cfg.HasEligible x.val →
      x.val ≠ [] ∧ ¬ cfg.HasPassing x.val ∧
        ∀ y : CString, .pref y ∈ before → cfg.HasPassing y.val → y.val = [])
  | .eoff _ => True

section

variable {cfg : Config} {before : List Message} {s : State}

theorem known_start (cfg : Config) (buf : Text) : Known cfg [] (State.start buf) :=
  ⟨Nat.zero_le _, iff_of_false nofun nofun, fun _ => ⟨rfl, rfl⟩⟩

theorem Known.withBuf (h : Known cfg before s) (buf : Text) :
    Known cfg before { s with buf := buf } := ⟨h.short, h.set, h.empty⟩

/-- `l_new` is not set exactly if no message has found an address. -/
theorem Known.lNew_eq_none (h : Known cfg before s) :
    s.lNew = none ↔
      ∀ y : CString, .pref y ∈ before → cfg.HasPassing y.val → y.val = [] := by
  rw [← Option.not_isSome_iff_eq_none, h.set]
  constructor
  · intro hnot y hy hel
    by_contra hne
    exact hnot ⟨y, hy, hel, hne⟩
  · rintro hall ⟨y, hy, hel, hne⟩
    exact hne (hall y hy hel)

/-- A message with a name that fits is the branch with that name. -/
theorem listen_pref {x : CString} (hlen : x.val.length ≤ 19) (cfg : Config) (s : State) :
    ∃ buf, listen cfg s (Message.pref x).bytes = onPref cfg { s with buf := buf } x.val := by
  obtain ⟨buf, stale, hlisten⟩ := listen_message cfg s (.pref x)
  have harg : argOf (Message.pref x).arg.val stale = x.val := argOf_eq x.property (by
    show x.val.length ≤ 249
    omega) stale
  rw [harg] at hlisten
  exact ⟨buf, hlisten⟩

theorem listen_pref_long {x : CString} (hlong : 20 ≤ x.val.length)
    (hshort : s.preferred.length ≤ 19) : listen cfg s (Message.pref x).bytes = none := by
  obtain ⟨buf, stale, hlisten⟩ := listen_message cfg s (.pref x)
  rw [hlisten]
  exact onPref_long (argOf_long x.property hlong stale) hshort

theorem listen_eoff (cfg : Config) (s : State) (n : CString) :
    ∃ buf arg, listen cfg s (Message.eoff n).bytes = some (onEoff { s with buf := buf } arg) := by
  obtain ⟨buf, stale, hlisten⟩ := listen_message cfg s (.eoff n)
  exact ⟨buf, _, hlisten⟩

theorem answered_pref_iff_fine (hs : Known cfg before s) (x : CString) :
    Answered cfg s (.pref x) ↔ Fine cfg before (.pref x) := by
  by_cases hlen : x.val.length ≤ 19
  · obtain ⟨buf, hlisten⟩ := listen_pref hlen cfg s
    have hsame : ∀ s' r, Truthful cfg s s' r (.pref x) ↔
        TruthfulPref cfg x.val { s with buf := buf } s' r :=
      fun s' r => ⟨fun h => ⟨h.changed, h.missing⟩, fun h => ⟨h.changed, h.missing⟩⟩
    unfold Answered Fine
    simp only [hlisten, hsame]
    by_cases hel : cfg.HasEligible x.val
    · have hanswer : ∃ s' r, onPref cfg { s with buf := buf } x.val = some (s', r) :=
        onPref_isSome hlen
      obtain ⟨s', r, heq⟩ := hanswer
      refine iff_of_true ⟨s', r, heq, ?_⟩ ⟨hlen, fun h => absurd hel h⟩
      exact ⟨fun _ => hel, fun h => absurd hel h⟩
    · rw [onPref_truthful_iff hlen hel, ← hs.lNew_eq_none]
      constructor
      · rintro ⟨hne, hpassing, hnone, hpreferred, -⟩
        exact ⟨hlen, fun _ => ⟨fun h => hne (h.trans hpreferred.symm), hpassing, hnone⟩⟩
      · rintro ⟨-, hfine⟩
        obtain ⟨hne, hpassing, hnone⟩ := hfine hel
        obtain ⟨hpreferred, hcurrent⟩ := hs.empty hnone
        exact ⟨fun h => hne (h.trans hpreferred), hpassing, hnone, hpreferred, hcurrent⟩
  · refine iff_of_false ?_ fun h => hlen h.1
    rintro ⟨s', r, heq, -⟩
    rw [listen_pref_long (by omega) hs.short] at heq
    cases heq

theorem answered_iff_fine {m : Message} (hs : Known cfg before s) :
    Answered cfg s m ↔ Fine cfg before m := by
  cases m with
  | pref x => exact answered_pref_iff_fine hs x
  | eoff n =>
    obtain ⟨buf, arg, hlisten⟩ := listen_eoff cfg s n
    exact iff_of_true ⟨_, _, hlisten, trivial⟩ trivial

/-- One more message, and what is known then. -/
theorem Known.snoc {x : CString} (hs : Known cfg before s) {s' : State}
    (hshort : s'.preferred.length ≤ 19)
    (hset : s'.lNew.isSome = true ↔
      s.lNew.isSome = true ∨ cfg.HasPassing x.val ∧ x.val ≠ [])
    (hempty : s'.lNew = none → s'.preferred = [] ∧ s'.current = []) :
    Known cfg (before ++ [.pref x]) s' := by
  refine ⟨hshort, ?_, hempty⟩
  rw [hset, hs.set]
  constructor
  · rintro (⟨y, hy, hel⟩ | hel)
    · exact ⟨y, List.mem_append_left _ hy, hel⟩
    · exact ⟨x, List.mem_append_right _ List.mem_cons_self, hel⟩
  · rintro ⟨y, hy, hel⟩
    obtain hy | hy := List.mem_append.mp hy
    · exact .inl ⟨y, hy, hel⟩
    · cases List.mem_singleton.mp hy
      exact .inr hel

/-- `l_new` is set from now on if the message found an address. -/
theorem Known.onPref {x : CString} (hs : Known cfg before s) (hlen : x.val.length ≤ 19)
    {s' : State} {r : Response} (heq : Hip.onPref cfg s x.val = some (s', r)) :
    Known cfg (before ++ [.pref x]) s' := by
  -- a name that is not empty is the preferred one only if an address was found for it
  have hpreferred : s.lNew.isSome = true ∨ s.preferred = [] := by
    cases hnew : s.lNew with
    | none => exact .inr (hs.empty hnew).1
    | some l => exact .inl rfl
  by_cases hne : x.val = s.preferred
  · rw [onPref_already hne] at heq
    cases heq
    refine hs.snoc hs.short ⟨.inl, ?_⟩ hs.empty
    rintro (hset | ⟨-, hx⟩)
    · exact hset
    · exact hpreferred.resolve_right fun h => hx (hne.trans h)
  · have hsome := select_isSome cfg x.val s.lNew
    cases hsel : cfg.select x.val s.lNew with
    | none =>
      rw [onPref_missing hne hlen hsel] at heq
      cases heq
      rw [hsel] at hsome
      refine hs.snoc (Nat.zero_le _) ⟨nofun, fun h => ?_⟩ fun _ => ⟨rfl, rfl⟩
      exact hsome.mpr (h.imp_right And.left)
    | some l =>
      obtain ⟨line, hfound⟩ := onPref_found hne hlen (by rw [hsel]; rfl)
      rw [hfound, hsel] at heq
      cases heq
      rw [hsel] at hsome
      refine hs.snoc hlen ⟨fun _ => ?_, fun _ => rfl⟩ nofun
      obtain hset | hempty := hpreferred
      · exact .inl hset
      · exact (hsome.mp rfl).imp_right fun hel => ⟨hel, fun hx => hne (hx.trans hempty.symm)⟩

theorem next_known {m : Message} (hs : Known cfg before s) (h : Answered cfg s m) :
    ∃ s', next cfg s m = some s' ∧ Known cfg (before ++ [m]) s' := by
  unfold next
  cases m with
  | pref x =>
    have hlen : x.val.length ≤ 19 := ((answered_pref_iff_fine hs x).mp h).1
    obtain ⟨buf, hlisten⟩ := listen_pref hlen cfg s
    obtain ⟨s', r, heq, -⟩ := h
    rw [heq]
    exact ⟨s', rfl, (hs.withBuf buf).onPref hlen (hlisten.symm.trans heq)⟩
  | eoff n =>
    obtain ⟨buf, arg, hlisten⟩ := listen_eoff cfg s n
    have hmem : ∀ y : CString, Message.pref y ∈ before ++ [.eoff n] ↔ .pref y ∈ before := by
      intro y
      rw [List.mem_append, List.mem_singleton, or_iff_left nofun]
    rw [hlisten]
    refine ⟨_, rfl, hs.short, ?_, hs.empty⟩
    simp only [hmem]
    exact hs.set

end

/-- **When the answers are truthful.** Every message of a sequence is answered truthfully
exactly if every name has at most 19 characters, and a name without an eligible address is
not empty, has none that passes the tests, and comes before all names that have one (the
empty name apart). -/
theorem replies_truthful_iff (cfg : Config) (buf : Text) (msgs : List Message) :
    Meets (next cfg) (Answered cfg) (State.start buf) msgs ↔
      ∀ before (x : CString) rest, msgs = before ++ .pref x :: rest →
        x.val.length ≤ 19 ∧ (¬ cfg.HasEligible x.val →
          x.val ≠ [] ∧ ¬ cfg.HasPassing x.val ∧
            ∀ y : CString, .pref y ∈ before → cfg.HasPassing y.val → y.val = []) := by
  have hhistory : Meets (next cfg) (Answered cfg) (State.start buf) msgs ↔
      ∀ before m rest, msgs = before ++ m :: rest → Fine cfg before m :=
    @meets_iff_history State Message (next cfg) (Answered cfg) (Known cfg) (Fine cfg)
      (fun hs => answered_iff_fine hs) (fun hs h => next_known hs h) msgs [] _ (known_start cfg buf)
  rw [hhistory]
  constructor
  · intro h before x rest hsplit
    exact h before (.pref x) rest hsplit
  · intro h before m rest hsplit
    cases m with
    | pref x => exact h before x rest hsplit
    | eoff n => trivial

/-- One interface, with an address. -/
def wired : Config where
  version := .v4
  destAddr := "128.59.20.0/24".toList
  devnameToIndex ifname := if ifname = "eth0".toList then 2 else -1
  myAddrs := [⟨⟨.inet, 0x803B1005, 0⟩, 2⟩]

/-- The loopback interface, with IPv6. -/
def looped : Config where
  version := .v6
  destAddr := "2001:db8::/32".toList
  devnameToIndex ifname := if ifname = "lo".toList then 1 else -1
  myAddrs := [⟨⟨.inet6, 0, 1⟩, 1⟩]

def lo : CString := ⟨"lo".toList, by decide⟩

def eth0 : CString := ⟨"eth0".toList, by decide⟩

def foo : CString := ⟨"foo".toList, by decide⟩

/-- `pref eth0`, and then `pref foo`: there is no interface of that name, and the listener
answers that it was changed, has a route set for it and takes it for the current one. With
IPv6 the first message may be enough: `::1` is taken for an address of `lo`. -/
theorem replies_not_truthful :
    ¬ wired.HasEligible foo.val ∧
    (∃ s s' r,
      next wired (State.start (List.replicate 256 nul)) (.pref eth0) = some s ∧
      listen wired s (Message.pref foo).bytes = some (s', r) ∧
      r.result = "Interface changed to foo".toList ∧
      (∃ c ∈ r.runs, c.Names foo.val) ∧ s.current = eth0.val ∧ s'.current = foo.val) ∧
    ¬ Meets (next wired) (Answered wired) (State.start (List.replicate 256 nul))
      [.pref eth0, .pref foo] ∧
    ¬ looped.HasEligible lo.val ∧
    ∃ s r, listen looped (State.start (List.replicate 256 nul)) (Message.pref lo).bytes =
        some (s, r) ∧ r.result = "Interface changed to lo".toList := by
  have hfoo : ¬ wired.HasEligible foo.val := by decide
  obtain ⟨buf, hfirst⟩ := listen_pref (by decide : eth0.val.length ≤ 19) wired
    (State.start (List.replicate 256 nul))
  have hnext : next wired (State.start (List.replicate 256 nul)) (.pref eth0) =
      some ⟨eth0.val, eth0.val, some ⟨⟨.inet, 0x803B1005, 0⟩, 2⟩, true, 0, buf⟩ := by
    unfold next
    rw [hfirst]
    rfl
  -- the address of `eth0` is still in `l_new`
  obtain ⟨buf', hsecond⟩ := listen_pref (by decide : foo.val.length ≤ 19) wired
    ⟨eth0.val, eth0.val, some ⟨⟨.inet, 0x803B1005, 0⟩, 2⟩, true, 0, buf⟩
  obtain ⟨bufLo, hlo⟩ := listen_pref (by decide : lo.val.length ≤ 19) looped
    (State.start (List.replicate 256 nul))
  refine ⟨hfoo, ⟨_, _, _, hnext, hsecond.trans rfl, rfl,
    ⟨_, List.mem_cons_of_mem _ List.mem_cons_self, .inl rfl⟩, rfl, rfl⟩, fun h => ?_,
    by decide, _, _, hlo.trans rfl, rfl⟩
  obtain ⟨s', r, hanswer, htruthful⟩ := (h.2 _ hnext).1
  cases hsecond.symm.trans hanswer
  exact hfoo (htruthful.changed rfl)

end Manhattan.Hip
