import Manhattan.Sined.Pe

/-!
# One pass of the policy engine over a calm environment

`evaluate_all` picks a rule for each connection from the policy of *its*
application, but the interface change it orders is a setting of the daemon that
serves the connection's address, and of every other connection this daemon
serves. This file works out what a pass leaves behind when nothing moves under
it: the location and the set of interfaces that are up stay as they are, and every
set-interface exchange succeeds (`Calm`, `calmNet`).

`evaluate_calm` is the summary of one connection: the first applicable rule of the
last policy that has one (`choice`) becomes the active rule, and its interface the
one the daemon was last told. Over a pass the last connection of the daemon with
an applicable rule wins (`pass_told`); the others agree with the daemon exactly
when their own rule names the same interface. Nothing in the engine keeps the
applications of one daemon from choosing differently, and
`pass_two_applications_disagree` is the smallest pass in which they do.
-/

namespace Manhattan.Sined

/-- What a pass can observe and change: the location, the interfaces that are up,
and the interface each daemon was last told to use. -/
structure Calm where
  location : String
  up : String → Bool
  told : Daemon → Option String

def Calm.tell (w : Calm) (d : Option Daemon) (ifname : String) : Calm :=
  match d with
  | none => w
  | some d => { w with told := fun d' => if d' = d then some ifname else w.told d' }

/-- The network manager over a calm environment: interfaces are up or not, and
every change of interface succeeds. -/
def calmNet : Net Calm where
  location w := w.location
  interfaceOn ifname w := (w.up (printed ifname), w)
  setInterface addr ifname w := (true, w.tell (daemonOf addr) (printed ifname))

@[simp] theorem Calm.tell_location (w : Calm) (d : Option Daemon) (i : String) :
    (w.tell d i).location = w.location := by
  cases d <;> rfl

@[simp] theorem Calm.tell_up (w : Calm) (d : Option Daemon) (i : String) :
    (w.tell d i).up = w.up := by
  cases d <;> rfl

/-- Of two orders to the same daemon the second counts. -/
@[simp] theorem Calm.tell_tell (w : Calm) (d : Option Daemon) (i j : String) :
    (w.tell d i).tell d j = w.tell d j := by
  cases d with
  | none => rfl
  | some d =>
    show Calm.mk _ _ _ = Calm.mk _ _ _
    congr 1
    funext d'
    by_cases h : d' = d
    · simp [h]
    · simp [h, Calm.tell]

theorem Calm.told_tell_self (w : Calm) (d : Daemon) (i : String) :
    (w.tell (some d) i).told d = some i := by
  simp [Calm.tell]

theorem Calm.told_tell_ne (w : Calm) {d : Daemon} {d' : Option Daemon} (h : d' ≠ some d)
    (i : String) : (w.tell d' i).told d = w.told d := by
  cases d' with
  | none => rfl
  | some e =>
    have hne : d ≠ e := fun he => h (by rw [he])
    simp [Calm.tell, hne]

/-- The rule's location is the current one and its interface is up. -/
def Calm.applies (w : Calm) (rule : Rule) : Bool :=
  rule.location = some w.location && w.up (printed rule.interface)

/-- The first applicable rule of the last policy for the application that has
one: what `evaluate` ends up with. -/
def choice (w : Calm) (appDesc : Option String) : List Policy → Option Rule
  | [] => none
  | policy :: rest =>
    match choice w appDesc rest with
    | some rule => some rule
    | none => if policy.appDesc = appDesc then policy.rules.find? w.applies else none

/-- Make a rule the connection's active one and pass its interface on. -/
def activate (rule : Option Rule) (conn : Connection) (w : Calm) : Connection × Calm :=
  match rule with
  | none => (conn, w)
  | some r =>
    ({ conn with activeRule := r.ruleID }, w.tell (daemonOf conn.addr) (printed r.interface))

theorem evaluateRule_calm (w : Calm) (rule : Rule) (conn : Connection) :
    evaluateRule calmNet w.location rule conn w
      = if w.applies rule then
          (true, { conn with activeRule := rule.ruleID },
            w.tell (daemonOf conn.addr) (printed rule.interface))
        else (false, conn, w) := by
  unfold evaluateRule Calm.applies calmNet
  by_cases hl : rule.location = some w.location
  · cases hu : w.up (printed rule.interface)
    · simp [hl, hu]
    · simp [hl, hu]
  · simp [hl]

theorem evaluateRules_calm (w : Calm) :
    ∀ (rules : List Rule) (conn : Connection),
      evaluateRules calmNet w.location rules conn w = activate (rules.find? w.applies) conn w := by
  intro rules
  induction rules with
  | nil => intro conn; rfl
  | cons rule rest ih =>
    intro conn
    rw [evaluateRules, evaluateRule_calm, List.find?_cons]
    cases ha : w.applies rule
    · simpa using ih conn
    · rfl

/-- The choice depends on the world through location and interfaces only. -/
theorem choice_congr {w w' : Calm} (hl : w'.location = w.location) (hu : w'.up = w.up)
    (appDesc : Option String) :
    ∀ policies, choice w' appDesc policies = choice w appDesc policies := by
  have ha : w'.applies = w.applies := by
    funext rule
    unfold Calm.applies
    rw [hl, hu]
  intro policies
  induction policies with
  | nil => rfl
  | cons policy rest ih => rw [choice, choice, ih, ha]

theorem evaluatePolicies_calm :
    ∀ (policies : List Policy) (conn : Connection) (w : Calm),
      evaluatePolicies calmNet w.location policies conn w
        = activate (choice w conn.appDesc policies) conn w := by
  intro policies
  induction policies with
  | nil => intro conn w; rfl
  | cons policy rest ih =>
    intro conn w
    rw [evaluatePolicies, choice]
    by_cases hd : policy.appDesc = conn.appDesc
    · rw [if_pos hd, if_pos hd, evaluateRules_calm]
      cases hf : policy.rules.find? w.applies with
      | none =>
        show evaluatePolicies calmNet w.location rest conn w = _
        rw [ih]
        cases choice w conn.appDesc rest <;> rfl
      | some r =>
        -- the policy's own rule is active while the remaining policies are read
        show evaluatePolicies calmNet w.location rest { conn with activeRule := r.ruleID }
          (w.tell (daemonOf conn.addr) (printed r.interface)) = _
        have hrest := ih { conn with activeRule := r.ruleID }
          (w.tell (daemonOf conn.addr) (printed r.interface))
        rw [Calm.tell_location] at hrest
        rw [hrest, choice_congr (Calm.tell_location ..) (Calm.tell_up ..)]
        cases hc : choice w conn.appDesc rest with
        | none => rfl
        | some r' => simp [activate]
    · rw [if_neg hd, if_neg hd, ih]
      cases choice w conn.appDesc rest <;> rfl

/-- **One connection.** `evaluate` activates the choice and tells the daemon. -/
theorem evaluate_calm (policies : List Policy) (conn : Connection) (w : Calm) :
    evaluate calmNet policies conn w = activate (choice w conn.appDesc policies) conn w :=
  evaluatePolicies_calm policies conn w

/-! ## The whole pass -/

/-- Activating a rule moves neither the location nor an interface. -/
theorem activate_frame (rule : Option Rule) (conn : Connection) (w : Calm) :
    (activate rule conn w).2.location = w.location ∧ (activate rule conn w).2.up = w.up := by
  cases rule with
  | none => exact ⟨rfl, rfl⟩
  | some r => exact ⟨Calm.tell_location .., Calm.tell_up ..⟩

theorem evaluateAll_frame (policies : List Policy) :
    ∀ (tbl : List Connection) (w : Calm),
      (evaluateAll calmNet policies tbl w).2.location = w.location ∧
      (evaluateAll calmNet policies tbl w).2.up = w.up := by
  intro tbl
  induction tbl with
  | nil => intro w; exact ⟨rfl, rfl⟩
  | cons conn rest ih =>
    intro w
    rw [evaluateAll, evaluate_calm]
    obtain ⟨hl, hu⟩ := activate_frame (choice w conn.appDesc policies) conn w
    obtain ⟨hl', hu'⟩ := ih (activate (choice w conn.appDesc policies) conn w).2
    exact ⟨hl'.trans hl, hu'.trans hu⟩

/-- What becomes of one connection does not depend on the others: its active rule
is its choice if it has one, and stays what it was otherwise. -/
theorem evaluateAll_conns (policies : List Policy) :
    ∀ (tbl : List Connection) (w : Calm),
      (evaluateAll calmNet policies tbl w).1
        = tbl.map fun c => (activate (choice w c.appDesc policies) c w).1 := by
  intro tbl
  induction tbl with
  | nil => intro w; rfl
  | cons conn rest ih =>
    intro w
    rw [evaluateAll, evaluate_calm, List.map_cons]
    obtain ⟨hl, hu⟩ := activate_frame (choice w conn.appDesc policies) conn w
    show _ :: (evaluateAll calmNet policies rest _).1 = _ :: _
    rw [ih]
    refine congrArg _ (List.map_congr_left fun c _ => ?_)
    rw [choice_congr hl hu]
    cases choice w c.appDesc policies <;> rfl

theorem evaluateAll_append (policies : List Policy) :
    ∀ (pre rest : List Connection) (w : Calm),
      (evaluateAll calmNet policies (pre ++ rest) w).2
        = (evaluateAll calmNet policies rest (evaluateAll calmNet policies pre w).2).2 := by
  intro pre
  induction pre with
  | nil => intro rest w; rfl
  | cons conn pre ih =>
    intro rest w
    rw [List.cons_append, evaluateAll, evaluateAll, evaluate_calm]
    exact ih rest _

/-- A stretch of the table in which the daemon has no connection with an
applicable rule leaves the daemon alone. -/
theorem evaluateAll_told_none (policies : List Policy) (d : Daemon) :
    ∀ (tbl : List Connection) (w : Calm),
      (∀ c ∈ tbl, daemonOf c.addr = some d → choice w c.appDesc policies = none) →
      (evaluateAll calmNet policies tbl w).2.told d = w.told d := by
  intro tbl
  induction tbl with
  | nil => intro w _; rfl
  | cons conn rest ih =>
    intro w hno
    obtain ⟨hl, hu⟩ := activate_frame (choice w conn.appDesc policies) conn w
    have hrest : (evaluateAll calmNet policies (conn :: rest) w).2.told d
        = (activate (choice w conn.appDesc policies) conn w).2.told d := by
      rw [evaluateAll, evaluate_calm]
      refine ih _ fun c hc hd => ?_
      rw [choice_congr hl hu]
      exact hno c (List.mem_cons_of_mem _ hc) hd
    rw [hrest]
    by_cases hd : daemonOf conn.addr = some d
    · rw [hno conn (List.mem_cons_self ..) hd]
      rfl
    · cases choice w conn.appDesc policies with
      | none => rfl
      | some r => exact w.told_tell_ne hd _

/-- The connection's `active_rule` is the number of a rule of its application. -/
def IsActive (policies : List Policy) (c : Connection) (rule : Rule) : Prop :=
  ∃ p ∈ policies, p.appDesc = c.appDesc ∧ rule ∈ p.rules ∧ rule.ruleID = c.activeRule

/-- A choice is a rule of one of the application's policies. -/
theorem choice_mem {w : Calm} {appDesc : Option String} {rule : Rule} :
    ∀ {policies : List Policy}, choice w appDesc policies = some rule →
      ∃ p ∈ policies, p.appDesc = appDesc ∧ rule ∈ p.rules := by
  intro policies
  induction policies with
  | nil => intro h; cases h
  | cons policy rest ih =>
    intro h
    rw [choice] at h
    cases hc : choice w appDesc rest with
    | some r =>
      rw [hc] at h
      obtain ⟨p, hp, hdesc, hr⟩ := ih (hc.trans h)
      exact ⟨p, List.mem_cons_of_mem _ hp, hdesc, hr⟩
    | none =>
      rw [hc] at h
      dsimp only at h
      by_cases hd : policy.appDesc = appDesc
      · rw [if_pos hd] at h
        exact ⟨policy, List.mem_cons_self .., hd, List.mem_of_find?_eq_some h⟩
      · rw [if_neg hd] at h
        cases h

/-- Per-application policies agree with the network: any two connections of one
daemon with an active rule have the interface of this rule in use. -/
def PassAgrees (policies : List Policy) (tbl : List Connection) (w : Calm) : Prop :=
  ∀ d, ∀ c₁ ∈ (evaluateAll calmNet policies tbl w).1,
    ∀ c₂ ∈ (evaluateAll calmNet policies tbl w).1,
      daemonOf c₁.addr = some d → daemonOf c₂.addr = some d → 0 < c₁.activeRule →
      0 < c₂.activeRule → ∀ r₁ r₂, IsActive policies c₁ r₁ → IsActive policies c₂ r₂ →
        (evaluateAll calmNet policies tbl w).2.told d = some (printed r₁.interface) ∧
        (evaluateAll calmNet policies tbl w).2.told d = some (printed r₂.interface)

/-- **The last connection wins.** In a pass over a calm environment let `last` be
the last connection in table order that the daemon `d` serves and that has an
applicable rule. Then `d` was last told the interface of `last`'s active rule; and
every other connection of `d` with an applicable rule has that rule active, and
agrees with the daemon exactly when it names the same interface as `last`'s. -/
theorem pass_told (policies : List Policy) (pre post : List Connection) (last : Connection)
    (w : Calm) (d : Daemon) (rule : Rule) (hd : daemonOf last.addr = some d)
    (hr : choice w last.appDesc policies = some rule)
    (hpost : ∀ c ∈ post, daemonOf c.addr = some d → choice w c.appDesc policies = none) :
    (evaluateAll calmNet policies (pre ++ last :: post) w).2.told d =
      some (printed rule.interface) ∧
    ∀ (j : Nat) (c : Connection) (r : Rule), (pre ++ last :: post)[j]? = some c →
      daemonOf c.addr = some d → choice w c.appDesc policies = some r →
      ∃ c', (evaluateAll calmNet policies (pre ++ last :: post) w).1[j]? = some c' ∧
        SameButRule c c' ∧ c'.activeRule = r.ruleID ∧ IsActive policies c' r ∧
        ((evaluateAll calmNet policies (pre ++ last :: post) w).2.told d =
          some (printed r.interface) ↔ printed r.interface = printed rule.interface) := by
  have htold : (evaluateAll calmNet policies (pre ++ last :: post) w).2.told d
      = some (printed rule.interface) := by
    rw [evaluateAll_append, evaluateAll, evaluate_calm]
    -- the surroundings after `pre` are those of the start
    obtain ⟨hl, hu⟩ := evaluateAll_frame policies pre w
    obtain ⟨hl', hu'⟩ := activate_frame
      (choice (evaluateAll calmNet policies pre w).2 last.appDesc policies) last
      (evaluateAll calmNet policies pre w).2
    have hnone := evaluateAll_told_none policies d post
      (activate (choice (evaluateAll calmNet policies pre w).2 last.appDesc policies) last
        (evaluateAll calmNet policies pre w).2).2 (by
          intro c hc hcd
          rw [choice_congr (hl'.trans hl) (hu'.trans hu)]
          exact hpost c hc hcd)
    show (evaluateAll calmNet policies post _).2.told d = _
    rw [hnone, choice_congr hl hu, hr, activate, hd]
    exact Calm.told_tell_self _ _ _
  refine ⟨htold, fun j c r hj _ hc => ?_⟩
  obtain ⟨p, hp, hdesc, hmem⟩ := choice_mem hc
  refine ⟨{ c with activeRule := r.ruleID }, ?_, rfl, rfl, ⟨p, hp, hdesc, hmem, rfl⟩, ?_⟩
  · rw [evaluateAll_conns, List.getElem?_map, hj, Option.map_some, hc]
    rfl
  · rw [htold, Option.some.injEq]
    exact eq_comm

/-- Two applications with one rule each for the same place. -/
def twoApplications : List Policy :=
  [⟨some "/usr/bin/vlc", [⟨1, some "columbia", -1, -1, some "wlan0"⟩]⟩,
   ⟨some "/usr/bin/ssh", [⟨1, some "columbia", -1, -1, some "eth0"⟩]⟩]

/-- A connection of the application to the HIP address `1.0.0.host`. -/
def hipConnection (appID : Int) (app : String) (host : UInt8) : Connection :=
  ⟨appID, some app, 5, 16, [2, 0, 0, 80, 1, 0, 0, host, 0, 0, 0, 0, 0, 0, 0, 0], protoUnspec, 0⟩

def atColumbia : Calm := ⟨"columbia", fun _ => true, fun _ => none⟩

/-- In the pass over one connection of each application `ssh` comes last. -/
theorem pass_told_ssh :
    (evaluateAll calmNet twoApplications
      ([hipConnection 40 "/usr/bin/vlc" 5] ++ hipConnection 41 "/usr/bin/ssh" 6 :: [])
      atColumbia).2.told .hip = some "eth0" :=
  (pass_told twoApplications [hipConnection 40 "/usr/bin/vlc" 5] []
    (hipConnection 41 "/usr/bin/ssh" 6) atColumbia .hip
    ⟨1, some "columbia", -1, -1, some "eth0"⟩ (by decide) (by decide)
    (by intro c hc; cases hc)).1

/-- **Two applications disagree.** Both connections have rule 1 of their policy
active after the pass; `vlc`'s names `wlan0`, but the HIP daemon they share was
told `eth0` last. -/
theorem pass_two_applications_disagree :
    ¬ PassAgrees twoApplications
      [hipConnection 40 "/usr/bin/vlc" 5, hipConnection 41 "/usr/bin/ssh" 6] atColumbia := by
  intro h
  have hvlc := h .hip { hipConnection 40 "/usr/bin/vlc" 5 with activeRule := 1 } (by decide)
    { hipConnection 41 "/usr/bin/ssh" 6 with activeRule := 1 } (by decide) (by decide)
    (by decide) (by decide) (by decide)
    ⟨1, some "columbia", -1, -1, some "wlan0"⟩ ⟨1, some "columbia", -1, -1, some "eth0"⟩
    ⟨_, List.mem_cons_self .., rfl, List.mem_cons_self .., rfl⟩
    ⟨_, List.mem_cons_of_mem _ (List.mem_cons_self ..), rfl, List.mem_cons_self .., rfl⟩
  exact absurd hvlc.1 (by decide)

end Manhattan.Sined
