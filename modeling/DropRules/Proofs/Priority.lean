import DropRules.Evaluation
import DropRules.Proofs.Layout

/-!
# What a table of named rules means

A table is walked from front to back, and its rules stand in an order that nobody wrote.  Here the
walk is compared with a reading of the rules in the order in which they were given
(`Naming.reading`):

* where enemies hold, nothing drops;
* else the first region, in the priority of regions, that holds and that some rule belongs to is
  asked alone: its first rule that fires decides, and no other region and no rule outside regions is
  looked at, even if none of them fires;
* else the first rule of no region that fires decides.

`Assembly.firstDrop_eq_reading` says that the walk and the reading agree.  Two facts about a group
carry it.  Where its region does not hold, the group is silent, because each member names the
condition of the region and so does the barrier (`Assembly.matches_group`).  Where its region holds,
the barrier stops the walk at the latest, so nothing behind the group is reached
(`Assembly.firstDrop_group`).
-/

namespace DropRules

variable {α ρ : Type}

/-! ## Walking over parts of a table -/

namespace DropTable

variable (holds : α → Bool) (accepts : ρ → Bool)

/-- The first rule decides if it matches, and is walked over otherwise. -/
theorem firstDrop_cons (b : BoundRule α ρ) (rest : List (BoundRule α ρ)) :
    firstDrop holds accepts ⟨b :: rest⟩ =
      if b.matches holds accepts then b.drop else firstDrop holds accepts ⟨rest⟩ := by
  rw [firstDrop, firstDrop, List.find?_cons]
  cases b.matches holds accepts <;> rfl

/-- A part without a rule that matches is walked over. -/
theorem firstDrop_append_of_silent {front : List (BoundRule α ρ)}
    (h : ∀ b ∈ front, b.matches holds accepts = false) (rest : List (BoundRule α ρ)) :
    firstDrop holds accepts ⟨front ++ rest⟩ = firstDrop holds accepts ⟨rest⟩ := by
  have hnone : front.find? (BoundRule.matches holds accepts) = none :=
    List.find?_eq_none.mpr fun b hb => by simp [h b hb]
  rw [firstDrop, firstDrop, List.find?_append, hnone, Option.none_or]

/-- A barrier that matches ends the walk. -/
theorem firstDrop_append_barrier (front : List (BoundRule α ρ)) {b : BoundRule α ρ}
    (hb : b.matches holds accepts = true) (hitems : b.items = []) (rest : List (BoundRule α ρ)) :
    firstDrop holds accepts ⟨front ++ b :: rest⟩ = firstDrop holds accepts ⟨front⟩ := by
  rw [firstDrop, firstDrop, List.find?_append, List.find?_cons_of_pos hb]
  cases front.find? (BoundRule.matches holds accepts) with
  | none => simp [BoundRule.drop, hitems]
  | some r => rfl

end DropTable

/-! ## Reading rules by their names -/

namespace Naming

variable (n : Naming α ρ) (holds : α → Bool) (accepts : ρ → Bool)

/-- Whether a condition has a handle and holds. -/
def active (c : Condition) : Bool :=
  (n.condition? c).any fun h => holds h.value

/-- Whether a rule fires: its rarity, or else the fallback, has a handle and is accepted, and all of
its conditions hold. -/
def fires (r : NamedRule) : Bool :=
  (n.rarityHandle? r.rarity).any (fun h => accepts h.value) && r.conditions.all (n.active holds)

/-- What the first of the rules that fires drops, or zero. -/
def firstOf (rules : List NamedRule) : Item :=
  match rules.find? (n.fires holds accepts) with
  | some r => r.items.headD 0
  | none => 0

/-- The first rule decides if it fires, and is passed over otherwise. -/
theorem firstOf_cons (r : NamedRule) (rules : List NamedRule) :
    n.firstOf holds accepts (r :: rules) =
      if n.fires holds accepts r then r.items.headD 0 else n.firstOf holds accepts rules := by
  rw [firstOf, firstOf, List.find?_cons]
  cases n.fires holds accepts r <;> rfl

/-- What rules drop, read in the order in which they were given. -/
def reading (rules : List NamedRule) : Item :=
  if n.active holds .anyEnemies then 0
  else
    match (Region.present rules).find? fun q => n.active holds q.condition with
    | some q => n.firstOf holds accepts (q.members rules)
    | none => n.firstOf holds accepts (NamedRule.strays rules)

/-- The conditions of a rule all hold exactly if all their handles do, provided each has one. -/
theorem all_active {conditions : List Condition} (h : ∀ c ∈ conditions, (n.condition? c).isSome) :
    (conditions.filterMap n.condition?).all (fun g => holds g.value) =
      conditions.all (n.active holds) := by
  induction conditions with
  | nil => rfl
  | cons c conditions ih =>
    obtain ⟨g, hg⟩ := Option.isSome_iff_exists.mp (h c (List.mem_cons_self ..))
    have hrest := ih fun c' hc' => h c' (List.mem_cons_of_mem _ hc')
    rw [List.filterMap_cons_some hg, List.all_cons, List.all_cons, hrest, active, hg]
    rfl

/-- A rule fires exactly if it can be bound and its bound form matches, provided each of its
conditions has a handle. -/
theorem fires_eq {r : NamedRule} (h : ∀ c ∈ r.conditions, (n.condition? c).isSome) :
    n.fires holds accepts r = (n.bound? r).any (BoundRule.matches holds accepts) := by
  rw [fires, bound?_eq, ← n.all_active holds h]
  cases n.rarityHandle? r.rarity <;> simp [BoundRule.matches]

/-- The walk over what rules contribute is the search among the rules. -/
theorem firstDrop_filterMap {rules : List NamedRule}
    (h : ∀ r ∈ rules, ∀ c ∈ r.conditions, (n.condition? c).isSome) :
    DropTable.firstDrop holds accepts ⟨rules.filterMap n.bound?⟩ =
      n.firstOf holds accepts rules := by
  induction rules with
  | nil => rfl
  | cons r rules ih =>
    have hr := n.fires_eq holds accepts (h r (List.mem_cons_self ..))
    have hrest := ih fun r' hr' => h r' (List.mem_cons_of_mem _ hr')
    rw [n.firstOf_cons, hr, ← hrest]
    cases hb : n.bound? r with
    | none => rw [List.filterMap_cons_none hb]; rfl
    | some b =>
      have hitems : b.items = r.items := by
        rw [bound?_eq] at hb
        obtain ⟨g, -, rfl⟩ := Option.map_eq_some_iff.mp hb
        rfl
      rw [List.filterMap_cons_some hb, DropTable.firstDrop_cons, BoundRule.drop, hitems,
        Option.any_some]

/-- A barrier of the assembly's own matches exactly where its condition holds, provided that the
rarity of every roll is accepted. -/
theorem matches_stopper? (hany : ∀ g, n.rarity? .any = some g → accepts g.value = true)
    {c : Condition} {b : BoundRule α ρ} (hb : n.stopper? c = some b) :
    b.matches holds accepts = n.active holds c := by
  obtain ⟨h, hh, rfl⟩ := Option.map_eq_some_iff.mp hb
  rw [active, hh, BoundRule.matches]
  cases hrarity : n.rarity? .any with
  | none => simp
  | some g => simp [hany g hrarity]

end Naming

/-! ## One group -/

namespace Assembly

variable (n : Naming α ρ) (holds : α → Bool) (accepts : ρ → Bool)

/-- **A group is silent outside its region.**  Its members name the condition of the region, and the
barrier behind them tests it. -/
theorem matches_group {q : Region} {h : Handle α} (hq : n.condition? q.condition = some h)
    (hh : holds h.value = false) (rules : List NamedRule) :
    ∀ b ∈ group n rules q, b.matches holds accepts = false := by
  intro b hb
  have hmem : h ∈ b.conditions := by
    rcases List.mem_append.mp hb with hb | hb
    · obtain ⟨r, hr, hbound⟩ := List.mem_filterMap.mp hb
      have hname := NamedRule.condition_mem_of_region? (Region.mem_members.mp hr).2
      rw [Naming.bound?_eq] at hbound
      obtain ⟨g, -, rfl⟩ := Option.map_eq_some_iff.mp hbound
      exact List.mem_filterMap.mpr ⟨q.condition, hname, hq⟩
    · have hstop := Option.mem_toList.mp hb
      rw [Naming.stopper?, hq] at hstop
      cases hstop
      exact List.mem_singleton_self h
  have hall : b.conditions.all (fun g => holds g.value) = false :=
    List.all_eq_false.mpr ⟨h, hmem, by simp [hh]⟩
  rw [BoundRule.matches, hall, Bool.and_false]

/-- **A group is the end of the walk inside its region.**  If no member matches, the barrier
does. -/
theorem firstDrop_group (hany : ∀ g, n.rarity? .any = some g → accepts g.value = true)
    {q : Region} (hq : n.active holds q.condition = true) (rules : List NamedRule)
    (rest : List (BoundRule α ρ)) :
    DropTable.firstDrop holds accepts ⟨group n rules q ++ rest⟩ =
      DropTable.firstDrop holds accepts ⟨(q.members rules).filterMap n.bound?⟩ := by
  cases hb : n.stopper? q.condition with
  | none =>
    rw [Naming.stopper?, Option.map_eq_none_iff] at hb
    simp [Naming.active, hb] at hq
  | some b =>
    have hmatch : b.matches holds accepts = true :=
      (n.matches_stopper? holds accepts hany hb).trans hq
    have hitems : b.items = [] := by
      obtain ⟨h, -, rfl⟩ := Option.map_eq_some_iff.mp hb
      rfl
    rw [group, hb, Option.toList_some, List.append_assoc, List.singleton_append,
      DropTable.firstDrop_append_barrier holds accepts _ hmatch hitems]

/-- The walk over groups stays in the first group whose region holds, and leaves them if there is
none. -/
theorem firstDrop_groups (hany : ∀ g, n.rarity? .any = some g → accepts g.value = true)
    (rules : List NamedRule) {regions : List Region}
    (hregions : ∀ q ∈ regions, (n.condition? q.condition).isSome) (rest : List (BoundRule α ρ)) :
    DropTable.firstDrop holds accepts ⟨regions.flatMap (group n rules) ++ rest⟩ =
      match regions.find? fun q => n.active holds q.condition with
      | some q => DropTable.firstDrop holds accepts ⟨(q.members rules).filterMap n.bound?⟩
      | none => DropTable.firstDrop holds accepts ⟨rest⟩ := by
  induction regions with
  | nil => rfl
  | cons q regions ih =>
    rw [List.flatMap_cons, List.append_assoc]
    rw [List.find?_cons]
    by_cases hq : n.active holds q.condition = true
    · rw [firstDrop_group n holds accepts hany hq]
      simp only [hq]
    · obtain ⟨h, hh⟩ := Option.isSome_iff_exists.mp (hregions q (List.mem_cons_self ..))
      have hfalse : holds h.value = false := by
        simpa [Naming.active, hh] using hq
      rw [DropTable.firstDrop_append_of_silent holds accepts
        (matches_group n holds accepts hh hfalse rules)]
      simp only [hq]
      exact ih fun q' hq' => hregions q' (List.mem_cons_of_mem _ hq')

/-- **The walk over an assembled table is the reading of its rules.**  If every condition that some
rule names has a handle, and the rarity of every roll is accepted as far as it has one, then the
first rule of the table that matches drops what the rules drop when they are read as they were
given: nothing among enemies, else what the first region that holds and occurs says on its own, else
what the rules of no region say. -/
theorem firstDrop_eq_reading (rules : List NamedRule)
    (hresolves : ∀ r ∈ rules, ∀ c ∈ r.conditions, (n.condition? c).isSome)
    (hany : ∀ g, n.rarity? .any = some g → accepts g.value = true) :
    (ofRules n rules).value.table.firstDrop holds accepts = n.reading holds accepts rules := by
  have hpresent : ∀ q ∈ Region.present rules, (n.condition? q.condition).isSome := by
    intro q hq
    have hoccurs := (List.mem_filter.mp hq).2
    obtain ⟨r, hr, hrq⟩ := List.any_eq_true.mp hoccurs
    exact hresolves r hr _ (NamedRule.condition_mem_of_region? (by simpa using hrq))
  have hsub : ∀ rs : List NamedRule, (∀ r ∈ rs, r ∈ rules) →
      DropTable.firstDrop holds accepts ⟨rs.filterMap n.bound?⟩ = n.firstOf holds accepts rs :=
    fun rs hrs => n.firstDrop_filterMap holds accepts fun r hr => hresolves r (hrs r hr)
  rw [value_ofRules, layout, List.append_assoc, Naming.reading]
  by_cases henemies : n.active holds .anyEnemies = true
  · rw [if_pos henemies]
    cases hb : n.stopper? .anyEnemies with
    | none =>
      rw [Naming.stopper?, Option.map_eq_none_iff] at hb
      simp [Naming.active, hb] at henemies
    | some b =>
      have hmatch := (n.matches_stopper? holds accepts hany hb).trans henemies
      obtain ⟨h, -, rfl⟩ := Option.map_eq_some_iff.mp hb
      exact DropTable.firstDrop_append_barrier holds accepts [] hmatch rfl _
  · rw [if_neg henemies]
    have hsilent : ∀ b ∈ (n.stopper? .anyEnemies).toList, b.matches holds accepts = false := by
      intro b hb
      rw [n.matches_stopper? holds accepts hany (Option.mem_toList.mp hb)]
      simpa using henemies
    rw [DropTable.firstDrop_append_of_silent holds accepts hsilent,
      firstDrop_groups n holds accepts hany rules hpresent]
    cases (Region.present rules).find? fun q => n.active holds q.condition with
    | none => exact hsub _ fun r hr => (List.mem_filter.mp hr).1
    | some q => exact hsub _ fun r hr => (List.mem_filter.mp hr).1

/-- In the ocean, whose value the engine exposes for a second condition too, the rule of the ocean
decides: not the rule of the lava, which loses its rarity to the fallback and comes first in the
table, not the barrier on the second condition, and not the rule of no region, though all of these
were given earlier. -/
theorem firstDrop_shared_ocean :
    let n : Naming Nat Nat :=
      ⟨⟨[(.anyEnemies, ⟨.ofNat 0, 10⟩), (.inLava, ⟨.ofNat 1, 11⟩), (.originalOcean, ⟨.ofNat 2, 12⟩),
          (.ocean, ⟨.ofNat 2, 12⟩)], 3⟩,
        ⟨[(.any, ⟨.ofNat 0, 0⟩), (.common, ⟨.ofNat 1, 1⟩)], 2⟩⟩
    let holds : Nat → Bool := (· == 12)
    let accepts : Nat → Bool := (· ≤ 1)
    let rules : List NamedRule :=
      [⟨[1], 1, 1, none, []⟩, ⟨[], 1, 1, some .any, [.originalOcean]⟩,
        ⟨[2], 1, 1, some .rare, [.ocean, .inLava]⟩, ⟨[3, 4], 1, 4, none, [.ocean]⟩]
    (∀ r ∈ rules, ∀ c ∈ r.conditions, (n.condition? c).isSome) ∧
      (∀ g, n.rarity? .any = some g → accepts g.value = true) ∧
      (ofRules n rules).value.table.firstDrop holds accepts = 3 := by
  intro n holds accepts rules
  have hresolves : ∀ r ∈ rules, ∀ c ∈ r.conditions, (n.condition? c).isSome := by decide
  have hany : ∀ g, n.rarity? .any = some g → accepts g.value = true := by
    intro g hg
    cases hg
    rfl
  refine ⟨hresolves, hany, ?_⟩
  rw [firstDrop_eq_reading n holds accepts rules hresolves hany]
  decide

end Assembly

end DropRules
