import DropRules.Proofs.Grouping
import Mathlib.Data.List.Perm.Basic

/-!
# The layout of an assembled table

`Assembly.ofRules` walks over groups, counts and reports while it goes, and leaves out what cannot
be bound.  Here the outcome is told in one line: the table is `Assembly.layout`, a list put together
from filters of the rules, and the two counts are counts of the rules that can and cannot be bound
(`Assembly.value_ofRules`).

## 1.  The parts

A rule contributes what `Naming.bound?` makes of it, which is nothing if it cannot be bound.  A
barrier of the assembly's own is a `Naming.stopper?`: it exists exactly if its condition has a
handle, and then it has no items, is certain, and asks for every roll as far as that can be said.

## 2.  The whole

`Assembly.layout_exact` says where everything stands, how much of it there is, and that nothing is
there twice: up to order the table holds what the rules contribute and the stoppers, and nothing
else.  None of this needs anything of the naming; every part of the engine may be missing or shared.
-/

namespace DropRules

variable {α ρ : Type}

namespace Naming

/-- What a rule contributes to a table: its bound form, if it can be bound. -/
def bound? (n : Naming α ρ) (r : NamedRule) : Option (BoundRule α ρ) :=
  (n.bind r).value.toOption

theorem bound?_eq_some_iff {n : Naming α ρ} {r : NamedRule} {b : BoundRule α ρ} :
    n.bound? r = some b ↔ (n.bind r).value = .ok b := by
  rw [bound?]
  cases (n.bind r).value <;> simp [Except.toOption]

/-- The conditions of a bound rule are those that have a handle, in their order. -/
theorem value_bindConditions (n : Naming α ρ) (conditions : List Condition) :
    (n.bindConditions conditions).value = conditions.filterMap n.condition? := by
  induction conditions with
  | nil => rfl
  | cons c conditions ih =>
    rw [bindConditions, List.filterMap_cons]
    cases n.condition? c with
    | none => simp [ih]
    | some h => simp [ih]

/-- The handle under whose rarity a rule is bound: that of its own rarity, or of the fallback. -/
def rarityHandle? (n : Naming α ρ) (rarity : Option Rarity) : Option (Handle ρ) :=
  (rarity.bind n.rarity?).or (n.rarity? .fallback)

/-- The handle under whose rarity a rule is bound is that of a symbol. -/
theorem exists_rarity?_of_rarityHandle? {n : Naming α ρ} {rarity : Option Rarity} {g : Handle ρ}
    (h : n.rarityHandle? rarity = some g) : ∃ s, n.rarity? s = some g := by
  rw [rarityHandle?, Option.or_eq_some_iff] at h
  rcases h with h | ⟨-, h⟩
  · obtain ⟨s, -, hs⟩ := Option.bind_eq_some_iff.mp h
    exact ⟨s, hs⟩
  · exact ⟨_, h⟩

/-- A rule is bound with the handle for its rarity and with the handles of its conditions, as far as
they have one; if there is no handle for its rarity, the rarity is what is missing. -/
theorem value_bind (n : Naming α ρ) (r : NamedRule) :
    (n.bind r).value =
      (n.rarityHandle? r.rarity).elim (.error (.missingRarity (r.rarity.getD .fallback))) fun h =>
        .ok ⟨r.items, r.numerator, r.denominator, some h, r.conditions.filterMap n.condition?⟩ := by
  rw [bind, bindRarity, rarityHandle?]
  cases (r.rarity.bind n.rarity?).or (n.rarity? .fallback) with
  | none => rfl
  | some h => simp [value_bindConditions]

/-- A rule is bound exactly if there is a handle for its rarity, and then its conditions are those
that have a handle. -/
theorem bound?_eq (n : Naming α ρ) (r : NamedRule) :
    n.bound? r = (n.rarityHandle? r.rarity).map fun h =>
      ⟨r.items, r.numerator, r.denominator, some h, r.conditions.filterMap n.condition?⟩ := by
  rw [bound?, value_bind]
  cases n.rarityHandle? r.rarity <;> rfl

/-- Whether a rule can be bound. -/
def binds (n : Naming α ρ) (r : NamedRule) : Bool :=
  (n.bound? r).isSome

theorem binds_eq (n : Naming α ρ) (r : NamedRule) :
    n.binds r = (n.rarityHandle? r.rarity).isSome := by
  rw [binds, bound?_eq, Option.isSome_map]

/-- The barrier that stops the walk where a condition holds, if the condition has a handle. -/
def stopper? (n : Naming α ρ) (c : Condition) : Option (BoundRule α ρ) :=
  (n.condition? c).map fun h =>
    { items := [], numerator := 1, denominator := 1, rarity := n.rarity? .any, conditions := [h] }

theorem barrier?_eq_stopper? (n : Naming α ρ) (c : Condition) : n.barrier? c = n.stopper? c := rfl

end Naming

namespace Assembly

/-- What the rules of a region and the barrier behind them contribute. -/
def group (n : Naming α ρ) (rules : List NamedRule) (q : Region) : List (BoundRule α ρ) :=
  (q.members rules).filterMap n.bound? ++ (n.stopper? q.condition).toList

/-- The table of rules, part by part: the barrier against enemies, the groups of the regions that
occur, and the rules of no region. -/
def layout (n : Naming α ρ) (rules : List NamedRule) : List (BoundRule α ρ) :=
  (n.stopper? .anyEnemies).toList ++ (Region.present rules).flatMap (group n rules)
    ++ (NamedRule.strays rules).filterMap n.bound?

/-- The barriers in a table that no rule asked for, in their order. -/
def stoppers (n : Naming α ρ) (rules : List NamedRule) : List (BoundRule α ρ) :=
  (n.stopper? .anyEnemies).toList
    ++ (Region.present rules).filterMap fun q => n.stopper? q.condition

/-! ## What each step adds -/

/-- An assembly with more rules in its table and higher counts. -/
def extend (a : Assembly α ρ) (rules : List (BoundRule α ρ)) (loaded skipped : Nat) :
    Assembly α ρ :=
  ⟨⟨a.table.rules ++ rules⟩, a.loaded + loaded, a.skipped + skipped⟩

@[simp] theorem extend_nil (a : Assembly α ρ) : a.extend [] 0 0 = a := by
  simp [extend]

@[simp] theorem extend_extend (a : Assembly α ρ) (rules rules' : List (BoundRule α ρ))
    (l l' s s' : Nat) :
    (a.extend rules l s).extend rules' l' s' = a.extend (rules ++ rules') (l + l') (s + s') := by
  simp [extend, Nat.add_assoc]

/-- A named rule adds what it contributes, and one to one of the counts. -/
theorem value_addRule (n : Naming α ρ) (a : Assembly α ρ) (r : NamedRule) :
    (addRule n a r).value =
      a.extend (n.bound? r).toList (if n.binds r then 1 else 0) (if n.binds r then 0 else 1) := by
  rw [addRule, Logged.value_bind, Naming.binds, Naming.bound?]
  cases (n.bind r).value with
  | ok b => simp [extend, push, Except.toOption]
  | error e => simp [extend, Except.toOption]

/-- Rules added one after the other add what they contribute, in their order. -/
theorem value_foldlM_addRule (n : Naming α ρ) (rules : List NamedRule) (a : Assembly α ρ) :
    (rules.foldlM (addRule n) a).value =
      a.extend (rules.filterMap n.bound?) (rules.countP n.binds)
        (rules.countP fun r => !n.binds r) := by
  induction rules generalizing a with
  | nil => simp
  | cons r rules ih =>
    rw [List.foldlM_cons, Logged.value_bind, ih, value_addRule, extend_extend, List.countP_cons,
      List.countP_cons, List.filterMap_cons]
    cases hr : n.bound? r <;> simp [Naming.binds, hr, Nat.add_comm]

/-- A barrier adds itself and counts for nothing. -/
theorem value_addBarrier (n : Naming α ρ) (a : Assembly α ρ) (c : Condition) (notice : Notice) :
    (addBarrier n a c notice).value = a.extend (n.stopper? c).toList 0 0 := by
  rw [addBarrier, Naming.barrier?_eq_stopper?]
  cases n.stopper? c <;> simp [extend, push]

/-- A group adds its rules and the barrier behind them. -/
theorem value_addGroup (n : Naming α ρ) (a : Assembly α ρ) (rules : List NamedRule) (q : Region) :
    (addGroup n a (q, q.members rules)).value =
      a.extend (group n rules q) ((q.members rules).countP n.binds)
        ((q.members rules).countP fun r => !n.binds r) := by
  rw [addGroup, Logged.value_bind, value_addBarrier, value_foldlM_addRule, extend_extend, group,
    Nat.add_zero, Nat.add_zero]

/-- Groups added one after the other. -/
theorem value_foldlM_addGroup (n : Naming α ρ) (rules : List NamedRule) (regions : List Region)
    (a : Assembly α ρ) :
    ((regions.map fun q => (q, q.members rules)).foldlM (addGroup n) a).value =
      a.extend (regions.flatMap (group n rules))
        ((regions.flatMap (·.members rules)).countP n.binds)
        ((regions.flatMap (·.members rules)).countP fun r => !n.binds r) := by
  induction regions generalizing a with
  | nil => simp
  | cons q regions ih =>
    rw [List.map_cons, List.foldlM_cons, Logged.value_bind, value_addGroup, ih, extend_extend]
    simp only [List.flatMap_cons, List.countP_append]

end Assembly

/-! ## Every rule has one place -/

/-- How often a rule is among the members of a region. -/
theorem Region.count_members (q : Region) (rules : List NamedRule) (r : NamedRule) :
    (q.members rules).count r = if r.region? = some q then rules.count r else 0 := by
  split
  · next h => exact List.count_filter (by simpa using h)
  · next h => exact List.count_eq_zero.mpr fun hmem => h (mem_members.mp hmem).2

/-- How often a rule is among those of no region. -/
theorem NamedRule.count_strays (rules : List NamedRule) (r : NamedRule) :
    (strays rules).count r = if r.region? = none then rules.count r else 0 := by
  split
  · next h => exact List.count_filter (by simpa using h)
  · next h =>
    refine List.count_eq_zero.mpr fun hmem => h ?_
    simpa using (List.mem_filter.mp hmem).2

/-- Walking over the regions that occur is walking over all of them and passing over the others. -/
theorem Region.flatMap_present {β : Type} (rules : List NamedRule) (f : Region → List β) :
    (present rules).flatMap f = all.flatMap fun q => if occurs rules q then f q else [] := by
  rw [present]
  induction all with
  | nil => rfl
  | cons q regions ih =>
    rw [List.flatMap_cons, ← ih]
    cases hq : occurs rules q with
    | true => rw [List.filter_cons_of_pos hq, List.flatMap_cons, if_pos rfl]
    | false => rw [List.filter_cons_of_neg (by simp [hq]), if_neg (by simp), List.nil_append]

/-- A region that does not occur contributes no member. -/
theorem Region.flatMap_members_present (rules : List NamedRule) :
    (present rules).flatMap (·.members rules) = all.flatMap (·.members rules) := by
  rw [flatMap_present]
  refine List.flatMap_congr fun q _ => ?_
  cases hq : occurs rules q with
  | true => rfl
  | false => exact (members_eq_nil_iff.mpr hq).symm

/-- The members of the regions and the rules of no region are the rules, in another order. -/
theorem NamedRule.perm_members_strays (rules : List NamedRule) :
    ((Region.present rules).flatMap (·.members rules) ++ strays rules).Perm rules := by
  rw [Region.flatMap_members_present, List.perm_iff_count]
  intro r
  simp only [Region.all, List.flatMap_cons, List.flatMap_nil, List.append_nil, List.count_append,
    Region.count_members, count_strays]
  cases r.region? with
  | none => simp
  | some q => cases q <;> simp

/-- What the rules contribute region by region, with something behind the members of each region, is
up to order what they contribute one after the other, and what stands behind the regions. -/
theorem NamedRule.perm_flatMap_regions {β : Type} (contribution : NamedRule → List β)
    (closing : Region → List β) (rules : List NamedRule) :
    ((Region.present rules).flatMap (fun q => (q.members rules).flatMap contribution ++ closing q)
        ++ (strays rules).flatMap contribution).Perm
      (rules.flatMap contribution ++ (Region.present rules).flatMap closing) := by
  have hrules := (perm_members_strays rules).flatMap_right contribution
  rw [List.flatMap_append, List.flatMap_assoc] at hrules
  refine ((List.flatMap_append_perm ..).symm.append_right _).trans ?_
  rw [List.append_assoc]
  refine (List.perm_append_comm.append_left _).trans ?_
  rw [← List.append_assoc]
  exact hrules.append_right _

namespace Assembly

/-- What stands in a table for a region: its group if it occurs, and else nothing. -/
def part (n : Naming α ρ) (rules : List NamedRule) (q : Region) : List (BoundRule α ρ) :=
  if Region.occurs rules q then group n rules q else []

/-- A table has a part for every region, which may be empty. -/
theorem layout_eq_parts (n : Naming α ρ) (rules : List NamedRule) :
    layout n rules =
      (n.stopper? .anyEnemies).toList ++ Region.all.flatMap (part n rules)
        ++ (NamedRule.strays rules).filterMap n.bound? := by
  rw [layout, Region.flatMap_present]
  rfl

/-- The first part that has an answer to a question gives it. -/
theorem find?_layout (n : Naming α ρ) (rules : List NamedRule) (p : BoundRule α ρ → Bool) :
    (layout n rules).find? p =
      ((n.stopper? .anyEnemies).toList.find? p).or
        ((Region.all.findSome? fun q => (part n rules q).find? p).or
          (((NamedRule.strays rules).filterMap n.bound?).find? p)) := by
  rw [layout_eq_parts, List.find?_append, List.find?_append, List.find?_flatMap, Option.or_assoc]

/-- **The outcome of assembling**: the layout of the rules, and how many of them could and could not
be bound. -/
theorem value_ofRules (n : Naming α ρ) (rules : List NamedRule) :
    (ofRules n rules).value =
      ⟨⟨layout n rules⟩, rules.countP n.binds, rules.countP fun r => !n.binds r⟩ := by
  rw [ofRules, Groups.ofRules_eq, Logged.value_bind, Logged.value_bind, value_addBarrier,
    value_foldlM_addGroup, value_foldlM_addRule, extend_extend, extend_extend]
  have hperm := NamedRule.perm_members_strays rules
  simp only [extend, empty, layout, Nat.zero_add, ← List.countP_append, hperm.countP_eq,
    List.append_assoc, EmptyCollection.emptyCollection, DropTable.empty, List.nil_append]

/-- Up to order, the layout holds what the rules contribute and the stoppers. -/
theorem layout_perm (n : Naming α ρ) (rules : List NamedRule) :
    (layout n rules).Perm (rules.filterMap n.bound? ++ stoppers n rules) := by
  have hgroup : group n rules = fun q => (q.members rules).flatMap (fun r => (n.bound? r).toList)
      ++ (n.stopper? q.condition).toList := by
    funext q
    rw [group, List.filterMap_eq_flatMap_toList]
  simp only [layout, hgroup, stoppers, List.filterMap_eq_flatMap_toList, List.append_assoc]
  exact ((NamedRule.perm_flatMap_regions ..).append_left _).trans (List.perm_append_comm_assoc ..)

/-- The barriers in a table are counted by its length. -/
theorem length_layout (n : Naming α ρ) (rules : List NamedRule) :
    (layout n rules).length = rules.countP n.binds + (stoppers n rules).length := by
  have hbinds : (rules.filterMap n.bound?).length = rules.countP n.binds := by
    rw [List.length_filterMap_eq_countP]
    rfl
  rw [(layout_perm n rules).length_eq, List.length_append, hbinds]

/-- A region that occurs is named by a rule, so its condition has a handle if all that are named
have one. -/
theorem isSome_condition?_of_mem_present {n : Naming α ρ} {rules : List NamedRule}
    (hresolves : ∀ r ∈ rules, ∀ k ∈ r.conditions, (n.condition? k).isSome) {q : Region}
    (hq : q ∈ Region.present rules) : (n.condition? q.condition).isSome := by
  obtain ⟨r, hr, hrq⟩ := List.any_eq_true.mp (List.mem_filter.mp hq).2
  exact hresolves r hr _ (NamedRule.condition_mem_of_region? (of_decide_eq_true hrq))

/-- **The number of stoppers**, where every condition that is named has a handle: one against
enemies, if that condition has a handle, and one for each region that occurs. -/
theorem length_stoppers {n : Naming α ρ} {rules : List NamedRule}
    (hresolves : ∀ r ∈ rules, ∀ k ∈ r.conditions, (n.condition? k).isSome) :
    (stoppers n rules).length =
      (if (n.condition? .anyEnemies).isSome then 1 else 0) + (Region.present rules).length := by
  have hhead : (n.stopper? .anyEnemies).toList.length =
      if (n.condition? .anyEnemies).isSome then 1 else 0 := by
    rw [Naming.stopper?]
    cases n.condition? .anyEnemies <;> rfl
  have hregions : ∀ q ∈ Region.present rules, (n.stopper? q.condition).isSome := by
    intro q hq
    rw [Naming.stopper?, Option.isSome_map]
    exact isSome_condition?_of_mem_present hresolves hq
  rw [stoppers, List.length_append, hhead, List.length_filterMap_eq_countP,
    List.countP_eq_length.mpr hregions]

/-- **The exact layout of a table.**  Under any naming whatever, the table of some rules is: the
barrier against enemies, if that condition has a handle; then, for each region that occurs and by
priority, what its members contribute in their order and the barrier on its condition, if that has a
handle; then what the rules of no region contribute in their order.  The rules that can be bound are
counted as loaded and the others as skipped, so every rule is counted once; what the table has
beyond the rules loaded are its stoppers; and up to order it holds what each rule contributes, once,
and each stopper, once. -/
theorem layout_exact (n : Naming α ρ) (rules : List NamedRule) :
    let a := (ofRules n rules).value
    a.table.rules =
        (n.stopper? .anyEnemies).toList
          ++ (Region.all.filter (Region.occurs rules)).flatMap (fun q =>
            (q.members rules).filterMap n.bound? ++ (n.stopper? q.condition).toList)
          ++ (NamedRule.strays rules).filterMap n.bound? ∧
      a.loaded = rules.countP n.binds ∧
      a.skipped = rules.countP (fun r => !n.binds r) ∧
      a.loaded + a.skipped = rules.length ∧
      a.table.length - a.loaded = (stoppers n rules).length ∧
      a.table.rules.Perm (rules.filterMap n.bound? ++ stoppers n rules) := by
  intro a
  have ha : a = ⟨⟨layout n rules⟩, rules.countP n.binds, rules.countP fun r => !n.binds r⟩ :=
    value_ofRules n rules
  have hcounts : a.loaded + a.skipped = rules.length := by
    have h := List.length_eq_countP_add_countP n.binds (l := rules)
    simp only [Bool.not_eq_true, Bool.decide_eq_false] at h
    simp only [ha]
    exact h.symm
  have hlength : a.table.length - a.loaded = (stoppers n rules).length := by
    simp only [ha, DropTable.length, length_layout]
    omega
  refine ⟨?_, ?_, ?_, hcounts, hlength, ?_⟩
  · rw [ha]
    rfl
  · rw [ha]
  · rw [ha]
  · rw [ha]
    exact layout_perm n rules

/-- There is no value for the common roll, nor for the hard mode.  So of the two rules for the lava one
is left out, the other one loses its second condition, and the barrier on the lava stands behind it;
of the two rules of no region, which come last though one is given first, one is left out too. -/
theorem layout_exact_lava :
    let c : Catalog Nat Nat :=
      (((Catalog.empty.exposeCondition .anyEnemies 9).exposeCondition .inLava 3).exposeRarity
        .any 2).exposeRarity .rare 1
    let n := (Naming.ofCatalog c).value
    let rules : List NamedRule :=
      [⟨[9], 1, 2, some .any, [.hardMode]⟩, ⟨[7], 1, 1, some .rare, [.inLava, .hardMode]⟩,
        ⟨[6], 1, 1, some .common, [.inLava]⟩, ⟨[8], 1, 1, none, []⟩]
    let a := (ofRules n rules).value
    let lava : Handle Nat := ⟨.ofNat 0, 3⟩
    let any : Handle Nat := ⟨.ofNat 0, 2⟩
    a.table.rules =
        [⟨[], 1, 1, some any, [⟨.ofNat 1, 9⟩]⟩, ⟨[7], 1, 1, some ⟨.ofNat 1, 1⟩, [lava]⟩,
          ⟨[], 1, 1, some any, [lava]⟩, ⟨[9], 1, 2, some any, []⟩] ∧
      a.loaded = 2 ∧ a.skipped = 2 ∧ a.table.length - a.loaded = 2 := by
  intro c n rules a lava any
  obtain ⟨hrules, hloaded, hskipped, -, hstoppers, -⟩ := layout_exact n rules
  refine ⟨hrules.trans ?_, hloaded.trans ?_, hskipped.trans ?_, hstoppers.trans ?_⟩ <;>
    decide +kernel

end Assembly

end DropRules
