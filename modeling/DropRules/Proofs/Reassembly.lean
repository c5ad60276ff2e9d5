import DropRules.Evaluation
import DropRules.Proofs.Reimport

/-!
# Tables, recovered and assembled again

A table can be read back into names, and the rules so recovered can be assembled into a table under
the same naming.  The names need not be those that the table was written in, since a handle leads
back to the first symbol that shares its value.  But the name that was found for a handle leads to
that handle, and so a recovered rule is bound as it was (`Naming.Mirrors.bound?_recover`).

What depends on the names is the class of a rule: the region, if any, that it belongs to.  So it is
the classes that this is about.

## 1.  Classes

A table assembled from rules that can all be bound is `Assembly.arranged`: the bound rules of one
class after those of another, and the barriers between them (`Assembly.layout_map`).  What is left
to tell of a recovered table is which rule is bound to what, and of which class it is.

## 2.  Rules that come back whole

The engine's own rules come back whole where all of their conditions are exposed.  These are loaded,
all of them, with the handles of their conditions, and in the classes of the names that came back
(`Assembly.recovered_engineTable_exact`).  Nothing is assumed of values that several symbols share.

## 3.  Tables of named rules

In a table that was itself assembled, the barriers come back too, as rules like the others, and
barriers are put in a second time.  If no region shares its value, then every rule comes back in the
class that it was in, and so does the barrier of a region, behind which the second one finds nothing
that the first did not find.  The barrier against enemies comes back in no region, and stands at the
head of the table all the same.  So the second table is longer and drops what the first one drops
(`Assembly.recovered_table_drops_alike`).
-/

namespace DropRules

variable {α ρ : Type}

/-! ## Classes -/

namespace Assembly

/-- A table in parts: the barrier against enemies; the part of each region, and behind it the
barrier of the region unless the part is empty; and the part of no region. -/
def arranged (n : Naming α ρ) (part : Option Region → List (BoundRule α ρ)) :
    List (BoundRule α ρ) :=
  (n.stopper? .anyEnemies).toList
    ++ Region.all.flatMap (fun q =>
      part (some q) ++ if part (some q) = [] then [] else (n.stopper? q.condition).toList)
    ++ part none

variable {β : Type} {items : List β} {name : β → NamedRule} {bound : β → BoundRule α ρ}

/-- **Rules that can all be bound are arranged by their regions**, and nothing else is done to
them. -/
theorem layout_map (n : Naming α ρ) (h : ∀ b ∈ items, n.bound? (name b) = some (bound b)) :
    layout n (items.map name) =
      arranged n fun o => (items.filter fun b => (name b).region? = o).map bound := by
  have hpart : ∀ o, ((items.map name).filter fun r => r.region? = o).filterMap n.bound? =
      (items.filter fun b => (name b).region? = o).map bound := by
    intro o
    rw [List.filter_map, List.filterMap_map, ← List.filterMap_eq_map]
    exact List.filterMap_congr fun b hb => h b (List.mem_filter.mp hb).1
  have hgroup : ∀ q, (if Region.occurs (items.map name) q then group n (items.map name) q else []) =
      (items.filter fun b => (name b).region? = some q).map bound ++
        if (items.filter fun b => (name b).region? = some q).map bound = [] then []
        else (n.stopper? q.condition).toList := by
    intro q
    rw [group, Region.members, hpart]
    -- a region may occur without a rule to bind in general, but not where all rules are bound
    cases hq : Region.occurs (items.map name) q with
    | true =>
      have hne : (items.filter fun b => (name b).region? = some q).map bound ≠ [] := by
        intro hnil
        have hmembers : q.members (items.map name) = [] := by
          rw [Region.members, List.filter_map, List.map_eq_nil_iff]
          exact List.map_eq_nil_iff.mp hnil
        rw [Region.members_eq_nil_iff.mp hmembers] at hq
        cases hq
      rw [if_pos rfl, if_neg hne]
    | false =>
      have hnil : (items.filter fun b => (name b).region? = some q).map bound = [] := by
        rw [← hpart, ← Region.members, Region.members_eq_nil_iff.mpr hq, List.filterMap_nil]
      rw [if_neg (by simp), if_pos hnil, hnil, List.append_nil]
  rw [layout, arranged, NamedRule.strays, hpart, Region.flatMap_present]
  simp only [hgroup]

/-- All rules that can be bound are loaded. -/
theorem value_ofRules_map [DecidableEq α] [DecidableEq ρ] (n : Naming α ρ)
    (h : ∀ b ∈ items, n.bound? (name b) = some (bound b)) :
    (ofRules n (items.map name)).value =
      ⟨⟨arranged n fun o => (items.filter fun b => (name b).region? = o).map bound⟩,
        items.length, 0⟩ := by
  have hbinds : ∀ r ∈ items.map name, n.binds r = true := by
    intro r hr
    obtain ⟨b, hb, rfl⟩ := List.mem_map.mp hr
    rw [Naming.binds, h b hb, Option.isSome_some]
  rw [value_ofRules, layout_map n h, List.countP_eq_length.mpr hbinds, List.length_map,
    List.countP_eq_zero.mpr fun r hr => by simp [hbinds r hr]]

end Assembly

/-! ## Rules that come back whole -/

variable [DecidableEq α] [DecidableEq ρ]

/-- The handles of values taken over are those that their values can get. -/
theorem Directory.forall_adopts {σ : Type} {d : Directory σ α} {vs : List α} {gs : List (Handle α)}
    (h : List.Forall₂ d.Adopts vs gs) : ∀ g ∈ gs, d.Adopts g.value g := by
  induction h with
  | nil => exact nofun
  | cons hv _ ih =>
    refine List.forall_mem_cons.mpr ⟨?_, ih⟩
    rwa [hv.value_eq]

namespace Naming

variable {n : Naming α ρ} {c : Catalog α ρ} {b : BoundRule α ρ} {natives : List (EngineRule α ρ)}

omit [DecidableEq α] in
/-- The rarity under which a recovered rule is bound, where the rarity of every roll has a handle:
the handle that the rule had if that has a name, and else the one of every roll. -/
theorem Mirrors.rarityHandle?_recovered (hn : n.Mirrors c) {any : Handle ρ}
    (hany : n.rarity? .any = some any) (r : Option (Handle ρ)) :
    n.rarityHandle? (some ((r.bind n.rarities.symbol?).getD .any)) =
      some ((r.filter fun g => (n.rarities.symbol? g).isSome).getD any) := by
  have hnone : n.rarityHandle? (some .any) = some any := by
    rw [rarityHandle?, Option.bind_some, hany, Option.some_or]
  cases r with
  | none => exact hnone
  | some g =>
    rw [Option.bind_some]
    cases hg : n.rarities.symbol? g with
    | none => rwa [Option.filter_some_neg (by simp [hg])]
    | some s =>
      rw [Option.filter_some_pos (by simp [hg])]
      exact hn.rarityHandle?_of_symbol? hg

/-- The handles of the engine's table are those that its values got when they were taken over. -/
theorem adopts_of_mem_adopt (hb : b ∈ (n.adopt natives).rules) :
    (∀ g ∈ b.conditions, n.conditions.Adopts g.value g) ∧
      ∀ g, b.rarity = some g → n.rarities.Adopts g.value g := by
  obtain ⟨i, hi, rfl⟩ := List.getElem_of_mem hb
  have hadopts := n.forall₂_adopt natives
  have hi' : i < natives.length := by rwa [hadopts.length_eq]
  have hr : n.Adopts natives[i] ((n.adopt natives).rules[i]) := hadopts.get hi' hi
  refine ⟨Directory.forall_adopts hr.conditions, fun g hg => ?_⟩
  have hrarity := hr.rarity
  rw [hg] at hrarity
  generalize natives[i].rarity = v at hrarity
  cases hrarity with
  | some hv => rwa [hv.value_eq]

/-- A rule of the engine's table comes back whole exactly if all of its conditions are exposed. -/
theorem Mirrors.isWhole_adopt (hn : n.Mirrors c) (hb : b ∈ (n.adopt natives).rules) :
    (n.recover b).isWhole =
      b.conditions.all fun g => Directory.Exposed c.condition? g.value := by
  have hadopts := (adopts_of_mem_adopt hb).1
  rw [Bool.eq_iff_iff, isWhole_iff, List.all_eq_true]
  refine forall₂_congr fun g hg => ?_
  rw [hn.conditions.isSome_symbol?_eq (hadopts g hg)]

/-- The rules of the engine that come back whole are those whose conditions are all exposed. -/
theorem Mirrors.recoverTable_adopt (hn : n.Mirrors c) (natives : List (EngineRule α ρ)) :
    n.recoverTable (n.adopt natives) true =
      ((n.adopt natives).rules.filter fun b =>
        b.conditions.all fun g => Directory.Exposed c.condition? g.value).map n.recover := by
  rw [recoverTable, List.filter_map]
  refine congrArg _ (List.filter_congr fun b hb => ?_)
  rw [← hn.isWhole_adopt hb]
  rfl

/-- **A rule of the engine that comes back whole is bound as it was**, but that a rarity which is
not exposed, or not there, gives way to the one of every roll. -/
theorem Mirrors.bound?_recover_adopt (hn : n.Mirrors c) {any : Handle ρ}
    (hany : n.rarity? .any = some any) (hb : b ∈ (n.adopt natives).rules)
    (hexposed : b.conditions.all fun g => Directory.Exposed c.condition? g.value) :
    n.bound? (n.recover b).toNamed =
      some { b with
        rarity := some ((b.rarity.filter fun g => Directory.Exposed c.rarity? g.value).getD any) } := by
  have hwhole : (n.recover b).isWhole := (hn.isWhole_adopt hb).trans hexposed
  have hfilter : (b.rarity.filter fun g => (n.rarities.symbol? g).isSome) =
      b.rarity.filter fun g => Directory.Exposed c.rarity? g.value := by
    cases hg : b.rarity with
    | none => rfl
    | some g =>
      have hadopts := (adopts_of_mem_adopt hb).2 g hg
      rw [Option.filter_some, Option.filter_some, hn.rarities.isSome_symbol?_eq hadopts]
  rw [hn.bound?_recover hwhole, hn.rarityHandle?_recovered hany, hfilter]
  rfl

end Naming

namespace Assembly

/-- **The engine's own rules, recovered and assembled.**  If the rarity of every roll has a handle,
then the rules whose conditions are all exposed are loaded and none is skipped.  Without the
barriers, the table is these rules, class by class and in their order within each class, with the
handles of conditions that they had.  A rarity that is exposed is kept, and every other one gives
way to that of every roll. -/
theorem recovered_engineTable_exact (c : Catalog α ρ) (natives : List (EngineRule α ρ))
    (any : Handle ρ) (hany : (Naming.ofCatalog c).value.rarity? .any = some any) :
    let n := (Naming.ofCatalog c).value
    let whole := (n.adopt natives).rules.filter fun b =>
      b.conditions.all fun g => Directory.Exposed c.condition? g.value
    let rebound (b : BoundRule α ρ) : BoundRule α ρ :=
      { b with
        rarity := some ((b.rarity.filter fun g => Directory.Exposed c.rarity? g.value).getD any) }
    let part (o : Option Region) : List (BoundRule α ρ) :=
      (whole.filter fun b => Region.ofConditions? (n.recover b).conditions = o).map rebound
    let a := (ofRules n ((n.recoverTable (n.adopt natives) true).map RecoveredRule.toNamed)).value
    a.loaded = whole.length ∧ a.skipped = 0 ∧
      a.table.rules =
        (n.stopper? .anyEnemies).toList
          ++ Region.all.flatMap (fun q =>
            part (some q) ++ if part (some q) = [] then [] else (n.stopper? q.condition).toList)
          ++ part none := by
  intro n whole rebound part a
  have hn : n.Mirrors c := Naming.mirrors_ofCatalog c
  have hbound : ∀ b ∈ whole, n.bound? (n.recover b).toNamed = some (rebound b) := by
    intro b hb
    obtain ⟨hmem, hexposed⟩ := List.mem_filter.mp hb
    exact hn.bound?_recover_adopt hany hmem hexposed
  have ha : a = ⟨⟨arranged n part⟩, whole.length, 0⟩ := by
    show (ofRules n ((n.recoverTable (n.adopt natives) true).map RecoveredRule.toNamed)).value = _
    rw [hn.recoverTable_adopt, List.map_map]
    exact value_ofRules_map n hbound
  rw [ha]
  exact ⟨rfl, rfl, rfl⟩

/-- Of five rules of an engine, four come back whole.  The rule for the lava moves to the front of
the others and the barrier of the lava behind it.  The rule for the ocean comes back as one for the
first condition that shares the value, and so in no region, but with the handle that it had; the
rarity without a name gives way. -/
theorem recovered_engineTable_exact_shared_ocean :
    let c : Catalog Nat Nat :=
      ((((((Catalog.empty.exposeCondition .anyEnemies 4).exposeCondition .inLava 3
        ).exposeCondition .jungle 6).exposeCondition .originalOcean 5).exposeCondition .ocean 5
        ).exposeRarity .any 0).exposeRarity .common 1
    let natives : List (EngineRule Nat Nat) :=
      [⟨[1], 1, 1, none, [5]⟩, ⟨[2], 1, 4, some 9, [6, 6]⟩, ⟨[3], 1, 1, none, [6, 77]⟩,
        ⟨[], 1, 2, some 1, [6, 3]⟩, ⟨[4], 1, 1, some 0, []⟩]
    let n := (Naming.ofCatalog c).value
    let any : Handle Nat := ⟨.ofNat 0, 0⟩
    let a := (ofRules n ((n.recoverTable (n.adopt natives) true).map RecoveredRule.toNamed)).value
    n.rarity? .any = some any ∧ a.loaded = 4 ∧ a.skipped = 0 ∧
      a.table.rules =
        [.barrier ⟨.ofNat 1, 4⟩ (some any),
          ⟨[], 1, 2, some ⟨.ofNat 1, 1⟩, [⟨.ofNat 2, 6⟩, ⟨.ofNat 0, 3⟩]⟩,
          .barrier ⟨.ofNat 0, 3⟩ (some any),
          ⟨[1], 1, 1, some any, [⟨.ofNat 3, 5⟩]⟩,
          ⟨[2], 1, 4, some any, [⟨.ofNat 2, 6⟩, ⟨.ofNat 2, 6⟩]⟩,
          ⟨[4], 1, 1, some any, []⟩] := by
  intro c natives n any a
  have hany : n.rarity? .any = some any := by decide +kernel
  obtain ⟨hloaded, hskipped, hrules⟩ := recovered_engineTable_exact c natives any hany
  refine ⟨hany, ?_, ?_, ?_⟩
  · rw [hloaded]
    decide +kernel
  · rw [hskipped]
  · rw [hrules]
    decide +kernel

end Assembly

/-! ## Tables of named rules -/

/-- No value of a region is exposed for another condition. -/
def Catalog.RegionsApart (c : Catalog α ρ) : Prop :=
  ∀ (q : Region) (s : Condition) (v : α),
    c.condition? q.condition = some v → c.condition? s = some v → s = q.condition

namespace Naming

variable {n : Naming α ρ} {c : Catalog α ρ} {b : BoundRule α ρ} {rules : List NamedRule}

/-- All handles of a rule have a name, and its rarity is one of them. -/
structure Names (n : Naming α ρ) (b : BoundRule α ρ) : Prop where
  conditions : ∀ g ∈ b.conditions, (n.conditions.symbol? g).isSome
  rarity : ∃ g, b.rarity = some g ∧ (n.rarities.symbol? g).isSome

/-- **A rule whose handles all have names is bound as it was.** -/
theorem Mirrors.bound?_recover_of_names (hn : n.Mirrors c) (h : n.Names b) :
    n.bound? (n.recover b).toNamed = some b := by
  obtain ⟨g, hg, hsome⟩ := h.rarity
  obtain ⟨s, hs⟩ := Option.isSome_iff_exists.mp hsome
  have hhandle : n.rarityHandle? (some ((b.rarity.bind n.rarities.symbol?).getD .any)) = some g := by
    rw [hg, Option.bind_some, hs, Option.getD_some, hn.rarityHandle?_of_symbol? hs]
  rw [hn.bound?_recover (isWhole_iff.mpr h.conditions), hhandle, Option.map_some, ← hg]

omit [DecidableEq ρ] in
/-- The handles of conditions have names. -/
theorem Mirrors.isSome_symbol?_of_mem (hn : n.Mirrors c) {cs : List Condition} {g : Handle α}
    (hg : g ∈ cs.filterMap n.condition?) : (n.conditions.symbol? g).isSome := by
  obtain ⟨k, -, hk⟩ := List.mem_filterMap.mp hg
  exact hn.conditions.isSome_symbol?_of_handle? hk

/-- The handles of a bound rule are those of symbols. -/
theorem Mirrors.names_of_bound? (hn : n.Mirrors c) {r : NamedRule} (h : n.bound? r = some b) :
    n.Names b := by
  rw [bound?_eq] at h
  obtain ⟨g, hg, rfl⟩ := Option.map_eq_some_iff.mp h
  obtain ⟨s, hs⟩ := exists_rarity?_of_rarityHandle? hg
  exact ⟨fun _ => hn.isSome_symbol?_of_mem, g, rfl, hn.rarities.isSome_symbol?_of_handle? hs⟩

/-- The handles of a stopper are those of symbols, if the rarity of every roll has one. -/
theorem Mirrors.names_of_stopper? (hn : n.Mirrors c) (hany : (n.rarity? .any).isSome)
    {k : Condition} (h : n.stopper? k = some b) : n.Names b := by
  obtain ⟨g, hg, rfl⟩ := Option.map_eq_some_iff.mp h
  obtain ⟨any, hany⟩ := Option.isSome_iff_exists.mp hany
  refine ⟨fun g' hg' => ?_, any, hany, hn.rarities.isSome_symbol?_of_handle? hany⟩
  rw [List.mem_singleton.mp hg']
  exact hn.conditions.isSome_symbol?_of_handle? hg

/-- **The names that come back belong to the region of the names that were given**, if no region
shares its value. -/
theorem Mirrors.ofConditions?_recover (hn : n.Mirrors c) (hapart : c.RegionsApart)
    {cs : List Condition} (hcs : ∀ k ∈ cs, (n.condition? k).isSome)
    (hb : b.conditions = cs.filterMap n.condition?) :
    Region.ofConditions? (n.recover b).conditions = Region.ofConditions? cs := by
  have hexposed : ∀ {k : Condition} {g : Handle α}, n.condition? k = some g →
      c.condition? k = some g.value := fun hk => hn.conditions.exposed_of_handle? hk
  -- a region is found by what names are there, so it is enough to look for its own name
  refine Region.ofConditions?_congr fun q => ?_
  show q.condition ∈ b.conditions.filterMap n.conditions.symbol? ↔ _
  rw [hb, List.mem_filterMap]
  constructor
  · rintro ⟨g, hg, hq⟩
    obtain ⟨k, hk, hkg⟩ := List.mem_filterMap.mp hg
    have hqg : n.condition? q.condition = some g := hn.conditions.handle?_of_symbol? hq
    rwa [← hapart q k g.value (hexposed hqg) (hexposed hkg)]
  · intro hq
    obtain ⟨g, hg⟩ := Option.isSome_iff_exists.mp (hcs q.condition hq)
    obtain ⟨s, hs⟩ := Option.isSome_iff_exists.mp (hn.conditions.isSome_symbol?_of_handle? hg)
    have hsg : n.condition? s = some g := hn.conditions.handle?_of_symbol? hs
    have hsq : s = q.condition := hapart q s g.value (hexposed hg) (hexposed hsg)
    exact ⟨g, List.mem_filterMap.mpr ⟨q.condition, hq, hg⟩, by rw [hs, hsq]⟩

/-- A bound rule comes back in the region of the rule, if each condition of the rule has a
handle. -/
theorem Mirrors.region?_recover_of_bound? (hn : n.Mirrors c) (hapart : c.RegionsApart)
    {r : NamedRule} (hr : ∀ k ∈ r.conditions, (n.condition? k).isSome) (h : n.bound? r = some b) :
    (n.recover b).toNamed.region? = r.region? := by
  rw [bound?_eq] at h
  obtain ⟨g, -, rfl⟩ := Option.map_eq_some_iff.mp h
  exact hn.ofConditions?_recover hapart hr rfl

/-- A stopper comes back in the region of its condition. -/
theorem Mirrors.region?_recover_of_stopper? (hn : n.Mirrors c) (hapart : c.RegionsApart)
    {k : Condition} (h : n.stopper? k = some b) :
    (n.recover b).toNamed.region? = Region.ofConditions? [k] := by
  obtain ⟨g, hg, rfl⟩ := Option.map_eq_some_iff.mp h
  refine hn.ofConditions?_recover hapart (List.forall_mem_singleton.mpr (by rw [hg]; rfl)) ?_
  rw [List.filterMap_cons_some hg, List.filterMap_nil]

end Naming

/-- A list whose members are all of one class is a class, and the other classes have nothing of
it. -/
theorem filter_of_class {β κ : Type} [DecidableEq κ] {class? : β → κ} {k : κ} {l : List β}
    (h : ∀ b ∈ l, class? b = k) (k' : κ) :
    (l.filter fun b => class? b = k') = if k = k' then l else [] := by
  split
  · next hk => exact List.filter_eq_self.mpr fun b hb => by simp [h b hb, hk]
  · next hk => exact List.filter_eq_nil_iff.mpr fun b hb => by simp [h b hb, hk]

namespace Assembly

variable {n : Naming α ρ} {c : Catalog α ρ} {rules : List NamedRule}

/-- Every handle of an assembled table has a name. -/
theorem names_of_mem_layout (hn : n.Mirrors c) (hany : (n.rarity? .any).isSome) :
    ∀ b ∈ layout n rules, n.Names b := by
  have hstopper : ∀ k, ∀ b ∈ (n.stopper? k).toList, n.Names b :=
    fun k b hb => hn.names_of_stopper? hany (Option.mem_toList.mp hb)
  have hbound : ∀ rs : List NamedRule, ∀ b ∈ rs.filterMap n.bound?, n.Names b := by
    intro rs b hb
    obtain ⟨r, -, hr⟩ := List.mem_filterMap.mp hb
    exact hn.names_of_bound? hr
  have hgroup : ∀ q, ∀ b ∈ group n rules q, n.Names b :=
    fun q => List.forall_mem_append.mpr ⟨hbound _, hstopper _⟩
  refine List.forall_mem_append.mpr ⟨List.forall_mem_append.mpr ⟨hstopper _, ?_⟩, hbound _⟩
  intro b hb
  obtain ⟨q, -, hq⟩ := List.mem_flatMap.mp hb
  exact hgroup q b hq

omit [DecidableEq α] [DecidableEq ρ] in
/-- Behind the part of a region, its barrier finds nothing that the part does not find. -/
theorem find?_part_append (p : BoundRule α ρ → Bool) (q : Region) :
    (part n rules q ++
        if part n rules q = [] then [] else (n.stopper? q.condition).toList).find? p =
      (part n rules q).find? p := by
  rw [part]
  split
  · split
    · rw [List.append_nil]
    · rw [group, List.find?_append, List.find?_append, Option.or_assoc, Option.or_self]
  · rfl

section Classes

variable (hn : n.Mirrors c) (hapart : c.RegionsApart)
  (hresolves : ∀ r ∈ rules, ∀ k ∈ r.conditions, (n.condition? k).isSome)

include hn hapart hresolves

/-- What rules of one region contribute comes back in that region. -/
theorem region?_of_mem_bound (o : Option Region) :
    ∀ b ∈ (rules.filter fun r => r.region? = o).filterMap n.bound?,
      (n.recover b).toNamed.region? = o := by
  intro b hb
  obtain ⟨r, hr, hrb⟩ := List.mem_filterMap.mp hb
  obtain ⟨hmem, hregion⟩ := List.mem_filter.mp hr
  rw [hn.region?_recover_of_bound? hapart (hresolves r hmem) hrb]
  exact of_decide_eq_true hregion

/-- A group comes back in its region. -/
theorem region?_of_mem_group (q : Region) :
    ∀ b ∈ group n rules q, (n.recover b).toNamed.region? = some q := by
  refine List.forall_mem_append.mpr
    ⟨region?_of_mem_bound hn hapart hresolves (some q), fun b hb => ?_⟩
  rw [hn.region?_recover_of_stopper? hapart (Option.mem_toList.mp hb), Region.ofConditions?_condition]

/-- **An assembled table, class by class**: the groups come back in their regions, and what stands
before and behind the groups comes back in none. -/
theorem filter_layout (o : Option Region) :
    ((layout n rules).filter fun b => (n.recover b).toNamed.region? = o) =
      (if none = o then (n.stopper? .anyEnemies).toList else [])
        ++ Region.all.flatMap (fun q => if some q = o then part n rules q else [])
        ++ if none = o then (NamedRule.strays rules).filterMap n.bound? else [] := by
  have hhead : ∀ b ∈ (n.stopper? .anyEnemies).toList, (n.recover b).toNamed.region? = none :=
    fun b hb => hn.region?_recover_of_stopper? hapart (Option.mem_toList.mp hb)
  have hparts : ∀ q, ∀ b ∈ part n rules q, (n.recover b).toNamed.region? = some q := by
    intro q b hb
    rw [part] at hb
    split at hb
    · exact region?_of_mem_group hn hapart hresolves q b hb
    · exact absurd hb List.not_mem_nil
  have hstrays : ∀ b ∈ (NamedRule.strays rules).filterMap n.bound?,
      (n.recover b).toNamed.region? = none := region?_of_mem_bound hn hapart hresolves none
  rw [layout_eq_parts, List.filter_append, List.filter_append, List.filter_flatMap,
    filter_of_class hhead, filter_of_class hstrays]
  simp only [filter_of_class (hparts _)]

theorem filter_layout_some (q : Region) :
    ((layout n rules).filter fun b => (n.recover b).toNamed.region? = some q) = part n rules q := by
  rw [filter_layout hn hapart hresolves]
  cases q <;> simp [Region.all]

theorem filter_layout_none :
    ((layout n rules).filter fun b => (n.recover b).toNamed.region? = none) =
      (n.stopper? .anyEnemies).toList ++ (NamedRule.strays rules).filterMap n.bound? := by
  rw [filter_layout hn hapart hresolves]
  simp

/-- **The table assembled from a recovered table** finds for every question what that table finds:
the second barrier of a region stands behind the first, and the barrier against enemies, which comes
back in no region, stands behind the one at the head. -/
theorem find?_arranged (p : BoundRule α ρ → Bool) :
    (arranged n fun o => (layout n rules).filter fun b => (n.recover b).toNamed.region? = o).find? p =
      (layout n rules).find? p := by
  simp only [arranged, filter_layout_some hn hapart hresolves,
    filter_layout_none hn hapart hresolves]
  rw [List.find?_append, List.find?_append, List.find?_append, List.find?_flatMap]
  simp only [find?_part_append]
  rw [find?_layout]
  -- the barrier against enemies stands before the rules of no region for the second time
  cases (n.stopper? .anyEnemies).toList.find? p with
  | none => rw [Option.none_or, Option.none_or, Option.none_or]
  | some b => rfl

end Classes

/-- **A table recovered and assembled again drops the same.**  If the conditions of all rules have
handles and the rarity of every roll has one, and if no region shares its value, then nothing is
skipped the second time, and every question finds the same rule first in both tables. -/
theorem recovered_table_drops_alike (c : Catalog α ρ) (rules : List NamedRule)
    (hresolves : ∀ r ∈ rules, ∀ k ∈ r.conditions,
      ((Naming.ofCatalog c).value.condition? k).isSome)
    (hany : ((Naming.ofCatalog c).value.rarity? .any).isSome) (hapart : c.RegionsApart) :
    let n := (Naming.ofCatalog c).value
    let first := (ofRules n rules).value
    let second := (ofRules n ((n.recoverTable first.table false).map RecoveredRule.toNamed)).value
    second.skipped = 0 ∧
      (∀ p, second.table.rules.find? p = first.table.rules.find? p) ∧
      ∀ holds accepts,
        second.table.firstDrop holds accepts = first.table.firstDrop holds accepts := by
  intro n first second
  have hn : n.Mirrors c := Naming.mirrors_ofCatalog c
  have hfirst : first.table.rules = layout n rules := by
    show (ofRules n rules).value.table.rules = _
    rw [value_ofRules]
  have hbound : ∀ b ∈ first.table.rules, n.bound? (n.recover b).toNamed = some b := by
    rw [hfirst]
    exact fun b hb => hn.bound?_recover_of_names (names_of_mem_layout hn hany b hb)
  have hrecovered : (n.recoverTable first.table false).map RecoveredRule.toNamed =
      first.table.rules.map fun b => (n.recover b).toNamed := by
    rw [Naming.recoverTable_false, List.map_map]
    rfl
  have hsecond : second = ⟨⟨arranged n fun o =>
      (first.table.rules.filter fun b => (n.recover b).toNamed.region? = o).map id⟩,
        first.table.rules.length, 0⟩ := by
    show (ofRules n ((n.recoverTable first.table false).map RecoveredRule.toNamed)).value = _
    rw [hrecovered]
    exact value_ofRules_map n hbound
  have hfind : ∀ p, second.table.rules.find? p = first.table.rules.find? p := by
    intro p
    rw [hsecond, hfirst]
    simp only [List.map_id]
    exact find?_arranged hn hapart hresolves p
  refine ⟨by rw [hsecond], hfind, fun holds accepts => ?_⟩
  rw [DropTable.firstDrop, DropTable.firstDrop, hfind]

/-- Three barriers come back as rules, one of them under the name of another condition, and are put
in a second time; the table grows by three and drops what it dropped. -/
theorem recovered_table_drops_alike_longer :
    let c : Catalog Nat Nat :=
      (((((((Catalog.empty.exposeCondition .hardMode 4).exposeCondition .anyEnemies 4
        ).exposeCondition .inLava 3).exposeCondition .jungle 6).exposeCondition .ocean 5
        ).exposeRarity .any 0).exposeRarity .legendary 0).exposeRarity .rare 2
    let rules : List NamedRule :=
      [⟨[1], 1, 1, some .rare, [.jungle]⟩, ⟨[2], 1, 1, some .legendary, [.ocean, .inLava]⟩,
        ⟨[3], 1, 4, none, [.ocean]⟩, ⟨[], 1, 1, some .any, [.anyEnemies]⟩]
    let n := (Naming.ofCatalog c).value
    let first := (ofRules n rules).value
    let second := (ofRules n ((n.recoverTable first.table false).map RecoveredRule.toNamed)).value
    (∀ r ∈ rules, ∀ k ∈ r.conditions, (n.condition? k).isSome) ∧ (n.rarity? .any).isSome ∧
      c.RegionsApart ∧ first.table.length = 6 ∧ second.table.length = 9 ∧ second.skipped = 0 ∧
      ∀ holds accepts,
        second.table.firstDrop holds accepts = first.table.firstDrop holds accepts := by
  intro c rules n first second
  have hresolves : ∀ r ∈ rules, ∀ k ∈ r.conditions, (n.condition? k).isSome := by decide +kernel
  have hany : (n.rarity? .any).isSome := by decide +kernel
  have hapart : c.RegionsApart := by
    have hall : ∀ q ∈ Region.all, ∀ s ∈ Condition.all, (c.condition? q.condition).isSome →
        c.condition? s = c.condition? q.condition → s = q.condition := by decide +kernel
    intro q s v hq hs
    exact hall q (Region.mem_all q) s (Symbol.Listed.mem_all s) (by rw [hq]; rfl) (hs.trans hq.symm)
  obtain ⟨hskipped, -, hdrops⟩ := recovered_table_drops_alike c rules hresolves hany hapart
  refine ⟨hresolves, hany, hapart, ?_, ?_, ?_, ?_⟩
  · decide +kernel
  · decide +kernel
  · rw [hskipped]
  · intro holds accepts
    rw [hdrops]

end Assembly

end DropRules
