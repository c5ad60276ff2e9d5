import DropRules.Proofs.Layout

/-!
# What assembling reports

An assembled table need not hold all that was asked for.  A rule may be left out of it, and a rule
that is in it may have lost conditions.  None of this happens in silence, and neither do barriers
come in that no rule asked for: each has its notice, and here it is told which notices there are.

## 1.  The order

A step of the walk reports the same whatever was done before it, so the log is told like the table
(`Assembly.layout`), part by part: the notice of the barrier against enemies, what is reported of the
members of each region that occurs and the notice of its barrier, and what is reported of the rules
of no region.  This list is `Assembly.trace`.

## 2.  The account

Up to order, the log is what is reported of each rule, once, and the notices of the barriers
(`Assembly.trace_perm`).  Of a rule that cannot be bound one error is reported, of another one
condition after the other, and of a barrier an information.  So the log can be checked against the
outcome by counting its levels, and `Assembly.log_exact` says how.
-/

namespace DropRules

variable {α ρ : Type}

/-! ## What is reported of a rule -/

namespace Naming

/-- The conditions that have no handle, in their order. -/
def unresolved (n : Naming α ρ) (conditions : List Condition) : List Condition :=
  conditions.filter fun k => (n.condition? k).isNone

/-- What is reported of a rule: the conditions that it loses if it can be bound, and otherwise that it
is left out. -/
def notices (n : Naming α ρ) (r : NamedRule) : List Notice :=
  if n.binds r then (n.unresolved r.conditions).map .conditionUnresolved
  else [.ruleSkipped r.items (.missingRarity (r.rarity.getD .fallback))]

/-- The notice of the barrier on a condition, if the condition has a handle. -/
def barrierReport (n : Naming α ρ) (c : Condition) (notice : Notice) : List Notice :=
  if (n.condition? c).isSome then [notice] else []

theorem log_bindConditions (n : Naming α ρ) (conditions : List Condition) :
    (n.bindConditions conditions).log = (n.unresolved conditions).map .conditionUnresolved := by
  induction conditions with
  | nil => rfl
  | cons c conditions ih =>
    rw [bindConditions, unresolved, List.filter_cons]
    cases hc : n.condition? c with
    | none => simp [ih, unresolved]
    | some h => simp [ih, unresolved]

/-- A rule that cannot be bound is not looked at any further. -/
theorem log_bind (n : Naming α ρ) (r : NamedRule) :
    (n.bind r).log =
      if n.binds r then (n.unresolved r.conditions).map .conditionUnresolved else [] := by
  rw [bind, bindRarity, binds_eq, rarityHandle?]
  cases (r.rarity.bind n.rarity?).or (n.rarity? .fallback) with
  | none => rfl
  | some h => simp [log_bindConditions]

/-- Nothing is reported of a rule whose conditions all have handles, when it is bound. -/
theorem log_bind_eq_nil {n : Naming α ρ} {r : NamedRule}
    (hresolves : ∀ k ∈ r.conditions, (n.condition? k).isSome) :
    (n.bind r).log = [] := by
  have hnone : n.unresolved r.conditions = [] :=
    List.filter_eq_nil_iff.mpr fun k hk => by simp [Option.isSome_iff_ne_none.mp (hresolves k hk)]
  rw [log_bind, hnone]
  split <;> rfl

/-- A condition of a rule is bound or reported. -/
theorem length_unresolved (n : Naming α ρ) (conditions : List Condition) :
    (n.unresolved conditions).length + (conditions.filterMap n.condition?).length =
      conditions.length := by
  induction conditions with
  | nil => rfl
  | cons c conditions ih =>
    rw [unresolved] at ih ⊢
    cases hc : n.condition? c <;> simp [hc] <;> omega

end Naming

/-! ## What is reported of a table -/

namespace Assembly

theorem log_addRule (n : Naming α ρ) (a : Assembly α ρ) (r : NamedRule) :
    (addRule n a r).log = n.notices r := by
  rw [addRule, Logged.log_bind, Naming.log_bind, Naming.value_bind, Naming.notices, Naming.binds_eq]
  cases n.rarityHandle? r.rarity <;> simp

theorem log_addBarrier (n : Naming α ρ) (a : Assembly α ρ) (c : Condition) (notice : Notice) :
    (addBarrier n a c notice).log = n.barrierReport c notice := by
  rw [addBarrier, Naming.barrier?_eq_stopper?, Naming.stopper?, Naming.barrierReport]
  cases n.condition? c <;> simp

/-- What is reported of the members of a region, and of the barrier behind them. -/
def groupTrace (n : Naming α ρ) (rules : List NamedRule) (q : Region) : List Notice :=
  (q.members rules).flatMap n.notices ++ n.barrierReport q.condition (.regionBarrierAdded q)

/-- The notices made while a table is assembled, part by part. -/
def trace (n : Naming α ρ) (rules : List NamedRule) : List Notice :=
  n.barrierReport .anyEnemies .headBarrierAdded
    ++ (Region.present rules).flatMap (groupTrace n rules)
    ++ (NamedRule.strays rules).flatMap n.notices

/-- The notices of the barriers that no rule asked for, in their order. -/
def barrierNotices (n : Naming α ρ) (rules : List NamedRule) : List Notice :=
  n.barrierReport .anyEnemies .headBarrierAdded
    ++ (Region.present rules).flatMap fun q => n.barrierReport q.condition (.regionBarrierAdded q)

theorem log_addGroup (n : Naming α ρ) (a : Assembly α ρ) (rules : List NamedRule) (q : Region) :
    (addGroup n a (q, q.members rules)).log = groupTrace n rules q := by
  rw [addGroup, Logged.log_bind, log_addBarrier, Logged.log_foldlM (log_addRule n), groupTrace]

/-- **The notices of an assembly**, in the order in which they are made. -/
theorem log_ofRules (n : Naming α ρ) (rules : List NamedRule) :
    (ofRules n rules).log = trace n rules := by
  have hgroups : ∀ a : Assembly α ρ,
      (((Region.present rules).map fun q => (q, q.members rules)).foldlM (addGroup n) a).log =
        (Region.present rules).flatMap (groupTrace n rules) := by
    intro a
    rw [List.foldlM_map]
    exact Logged.log_foldlM (fun a q => log_addGroup n a rules q) _ a
  rw [ofRules, Groups.ofRules_eq, Logged.log_bind, Logged.log_bind, log_addBarrier, hgroups,
    Logged.log_foldlM (log_addRule n), trace, List.append_assoc]

/-- Up to order, the log holds what is reported of the rules and the notices of the barriers. -/
theorem trace_perm (n : Naming α ρ) (rules : List NamedRule) :
    (trace n rules).Perm (rules.flatMap n.notices ++ barrierNotices n rules) := by
  rw [trace, barrierNotices, List.append_assoc]
  exact ((NamedRule.perm_flatMap_regions ..).append_left _).trans (List.perm_append_comm_assoc ..)

end Assembly

/-! ## Levels -/

namespace Naming

/-- What is reported of a rule that can be bound are details, and of another rule one error. -/
theorem countP_level_notices (n : Naming α ρ) (r : NamedRule) (level : Level) :
    (n.notices r).countP (·.level = level) =
      if n.binds r then (if level = .debug then (n.unresolved r.conditions).length else 0)
      else if level = .error then 1 else 0 := by
  rw [notices]
  split
  · rw [List.countP_map]
    cases level <;> simp [Function.comp_def, Notice.level]
  · cases level <;> simp [Notice.level]

/-- No barrier is reported of a rule. -/
theorem countP_info_notices (n : Naming α ρ) (rules : List NamedRule) :
    (rules.flatMap n.notices).countP (·.level = .info) = 0 := by
  rw [List.countP_flatMap]
  simp [Function.comp_def, countP_level_notices]

/-- There is one error for each rule that cannot be bound. -/
theorem countP_error_notices (n : Naming α ρ) (rules : List NamedRule) :
    (rules.flatMap n.notices).countP (·.level = .error) = rules.countP fun r => !n.binds r := by
  induction rules with
  | nil => rfl
  | cons r rules ih =>
    rw [List.flatMap_cons, List.countP_append, ih, countP_level_notices, List.countP_cons]
    cases n.binds r <;> simp [Nat.add_comm]

/-- **Every condition of the rules that can be bound is bound or reported**, once. -/
theorem countP_debug_notices (n : Naming α ρ) (rules : List NamedRule) :
    (rules.flatMap n.notices).countP (·.level = .debug)
        + ((rules.filterMap n.bound?).flatMap (·.conditions)).length =
      ((rules.filter n.binds).flatMap (·.conditions)).length := by
  induction rules with
  | nil => rfl
  | cons r rules ih =>
    have hlength := n.length_unresolved r.conditions
    rw [List.flatMap_cons, List.countP_append, countP_level_notices, List.filterMap_cons,
      List.filter_cons, binds_eq, bound?_eq]
    cases n.rarityHandle? r.rarity with
    | none => simpa using ih
    | some h =>
      simp only [Option.isSome_some, Option.map_some, if_true, List.flatMap_cons,
        List.length_append]
      omega

end Naming

namespace Assembly

theorem level_of_mem_barrierNotices {n : Naming α ρ} {rules : List NamedRule} {x : Notice}
    (hx : x ∈ barrierNotices n rules) : x.level = .info := by
  rw [barrierNotices, List.mem_append, List.mem_flatMap, Naming.barrierReport] at hx
  rcases hx with hx | ⟨q, -, hx⟩
  · split at hx
    · rw [List.mem_singleton.mp hx, Notice.level]
    · cases hx
  · rw [Naming.barrierReport] at hx
    split at hx
    · rw [List.mem_singleton.mp hx, Notice.level]
    · cases hx

/-- There is one notice for each barrier. -/
theorem length_barrierNotices (n : Naming α ρ) (rules : List NamedRule) :
    (barrierNotices n rules).length = (stoppers n rules).length := by
  have hone : ∀ c notice,
      (n.barrierReport c notice).length = (n.stopper? c).toList.length := by
    intro c notice
    rw [Naming.barrierReport, Naming.stopper?]
    cases n.condition? c <;> rfl
  rw [barrierNotices, stoppers, List.filterMap_eq_flatMap_toList, List.length_append,
    List.length_append, List.length_flatMap, List.length_flatMap, hone]
  simp only [hone]

/-- The log has the levels of what is reported of the rules, and one information for each barrier. -/
theorem countP_level_trace (n : Naming α ρ) (rules : List NamedRule) (level : Level) :
    (trace n rules).countP (·.level = level) =
      (rules.flatMap n.notices).countP (·.level = level)
        + if level = .info then (stoppers n rules).length else 0 := by
  rw [(trace_perm n rules).countP_eq, List.countP_append]
  refine congrArg _ ?_
  split
  · next h =>
    rw [← length_barrierNotices, List.countP_eq_length]
    intro x hx
    rw [level_of_mem_barrierNotices hx, h, decide_eq_true rfl]
  · next h =>
    rw [List.countP_eq_zero]
    intro x hx
    rw [level_of_mem_barrierNotices hx, decide_eq_true_iff]
    exact Ne.symm h

/-- **Nothing is left out in silence.**  The log of an assembly is, in this order: a notice of the
barrier against enemies, if that condition has a handle; for each region that occurs and by priority,
what is reported of its members in their order, and a notice of its barrier, if the condition of the
region has a handle; and what is reported of the rules of no region in their order.  Of a rule that
can be bound each condition without a handle is reported, in the order of the conditions, and of any
other rule that it is skipped, with its items and the rarity that is missing.

So there is an information for each rule of the table that is not a rule loaded, an error for each
rule skipped, and a detail for each condition that a rule has lost on the way into the table. -/
theorem log_exact (n : Naming α ρ) (rules : List NamedRule) :
    let a := ofRules n rules
    let reported : NamedRule → List Notice := fun r =>
      if n.binds r then
        (r.conditions.filter fun k => (n.condition? k).isNone).map .conditionUnresolved
      else [.ruleSkipped r.items (.missingRarity (r.rarity.getD .common))]
    a.log =
        (if (n.condition? .anyEnemies).isSome then [.headBarrierAdded] else [])
          ++ (Region.all.filter (Region.occurs rules)).flatMap (fun q =>
            (q.members rules).flatMap reported
              ++ if (n.condition? q.condition).isSome then [.regionBarrierAdded q] else [])
          ++ (NamedRule.strays rules).flatMap reported ∧
      a.log.countP (·.level = .info) + a.value.loaded = a.value.table.length ∧
      a.log.countP (·.level = .error) = a.value.skipped ∧
      a.log.countP (·.level = .debug)
          + ((rules.filterMap n.bound?).flatMap (·.conditions)).length =
        ((rules.filter n.binds).flatMap (·.conditions)).length := by
  intro a reported
  have hlog : a.log = trace n rules := log_ofRules n rules
  have hvalue : a.value =
      ⟨⟨layout n rules⟩, rules.countP n.binds, rules.countP fun r => !n.binds r⟩ :=
    value_ofRules n rules
  refine ⟨hlog, ?_, ?_, ?_⟩
  · rw [hlog, countP_level_trace, n.countP_info_notices, hvalue, DropTable.length, length_layout]
    simp [Nat.add_comm]
  · rw [hlog, countP_level_trace, n.countP_error_notices, hvalue]
    simp
  · rw [hlog, countP_level_trace]
    exact n.countP_debug_notices rules

/-- There is no value for the common roll, nor for the hard mode.  Of the two rules for the lava the
first one loses a condition and the second one is left out, and both is reported before the barrier on
the lava; the rules of no region come last, though one of them is given first, and fare alike. -/
theorem log_exact_lava :
    let c : Catalog Nat Nat :=
      (((Catalog.empty.exposeCondition .anyEnemies 9).exposeCondition .inLava 3).exposeRarity
        .any 2).exposeRarity .rare 1
    let n := (Naming.ofCatalog c).value
    let rules : List NamedRule :=
      [⟨[9], 1, 2, some .any, [.hardMode]⟩, ⟨[7], 1, 1, some .rare, [.inLava, .hardMode]⟩,
        ⟨[6], 1, 1, some .common, [.inLava]⟩, ⟨[8], 1, 1, none, []⟩]
    let a := ofRules n rules
    let reports : List Notice :=
      [.headBarrierAdded,
        .conditionUnresolved .hardMode, .ruleSkipped [6] (.missingRarity .common),
        .regionBarrierAdded .lava,
        .conditionUnresolved .hardMode, .ruleSkipped [8] (.missingRarity .common)]
    a.log = reports ∧ a.value.loaded = 2 ∧ a.value.skipped = 2 ∧ a.value.table.length = 4 ∧
      (rules.filterMap n.bound?).map (·.conditions) = [[], [⟨.ofNat 0, 3⟩]] ∧
      ((rules.filter n.binds).flatMap (·.conditions)).length = 3 := by
  intro c n rules a reports
  obtain ⟨hlog, hinfo, herror, hdebug⟩ := log_exact n rules
  have htrace : a.log = reports := hlog.trans (by rfl)
  have hloaded : a.value.loaded = 2 := by decide +kernel
  have hbound : (rules.filterMap n.bound?).map (·.conditions) = [[], [⟨.ofNat 0, 3⟩]] := by
    decide +kernel
  rw [htrace] at hinfo herror hdebug
  rw [hloaded] at hinfo
  rw [List.flatMap_def, hbound] at hdebug
  exact ⟨htrace, hloaded, herror.symm, hinfo.symm, hbound, hdebug.symm⟩

end Assembly

end DropRules
