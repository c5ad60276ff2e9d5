import DropRules.Proofs.Coherence
import DropRules.Proofs.Reassembly

/-!
# Numbers in the engine's own table

The engine's own rules use values that the engine may expose for no symbol.  When the rules are taken
over, such a stranger gets a number beyond those of the directory, and it keeps the number wherever it
occurs again.  A number that a directory has given out must not be given to a stranger, or the
stranger would bear the name of something else.

A directory numbers values by their places in the order of first appearance
(`Directory.Numbers`), and taking values over goes on with the same count.  So the handles of values
taken over are those of places too, in the list of the values exposed with the values taken over
behind it (`Directory.Numbers.adoptList`).  The conditions of the rules are taken over as one list,
rule by rule and from left to right, and so are the rarities, on a count of their own
(`Naming.flatMap_conditions_adoptRules`, `Naming.flatMap_rarity_adoptRules`).

What is to be known of the numbers follows from their being places: `Directory.Continues` says it,
and `Naming.adopt_exact` that it holds of the engine's table.
-/

namespace DropRules

namespace Directory

variable {σ α : Type} [DecidableEq α]

/-! ## Going on with the count -/

section Count

variable {d : Directory σ α} {values met : List α} {seen : List α}

/-- **A value taken over gets the next place, unless it has one.**  The values of the directory and
the strangers met so far stand at their places, and so they do afterwards. -/
theorem Numbers.adopt (hd : d.Numbers values)
    (hmet : values.eraseDups ++ met = (values ++ seen).eraseDups) (v : α) :
    (d.adopt met v).1 = .among (values ++ (seen ++ [v])) v ∧
      values.eraseDups ++ (d.adopt met v).2 = (values ++ (seen ++ [v])).eraseDups := by
  have hplaces : v ∈ values ++ seen → (values ++ (seen ++ [v])).eraseDups = values.eraseDups ++ met ∧
      Handle.among (values ++ (seen ++ [v])) v = .among (values ++ seen) v := by
    intro hv
    rw [← List.append_assoc, eraseDups_append_singleton, if_pos hv, Handle.among_append hv, hmet]
    exact ⟨rfl, rfl⟩
  rw [Directory.adopt]
  cases hfound : d.holder? v with
  | some e =>
    obtain ⟨hv, he⟩ := hd.of_holder? hfound
    obtain ⟨hdups, hamong⟩ := hplaces (List.mem_append_left _ hv)
    rw [hdups, hamong, Handle.among_append hv]
    exact ⟨he, rfl⟩
  | none =>
    have hv := hd.holder?_eq_none_iff.mp hfound
    have hmem : v ∈ values ++ seen ↔ v ∈ met := by
      rw [← List.mem_eraseDups, ← hmet, List.mem_append, List.mem_eraseDups, or_iff_right hv]
    cases hidx : met.idxOf? v with
    | some i =>
      have hv' : v ∈ met := List.isSome_idxOf?.mp (by rw [hidx]; rfl)
      have hi : met.idxOf v = i := by rw [List.idxOf_eq_getD_idxOf?, hidx, Option.getD_some]
      have hplace : (values.eraseDups ++ met).idxOf v = d.size + i := by
        rw [List.idxOf_append_of_notMem (by simpa using hv), hi, hd.size]
      obtain ⟨hdups, hamong⟩ := hplaces (hmem.mpr hv')
      rw [hdups, hamong, Handle.among, ← hmet, hplace]
      exact ⟨rfl, rfl⟩
    | none =>
      have hnew : v ∉ values ++ seen := by
        rw [hmem]
        exact List.idxOf?_eq_none_iff.mp hidx
      rw [← List.append_assoc, Handle.among_append_singleton hnew, eraseDups_append_singleton,
        if_neg hnew, ← hmet, hd.size, List.length_append, List.append_assoc]
      exact ⟨rfl, rfl⟩

/-- **Values taken over stand at their places** behind the values of the directory. -/
theorem Numbers.adoptList (hd : d.Numbers values)
    (hmet : values.eraseDups ++ met = (values ++ seen).eraseDups) (vs : List α) :
    (d.adoptList met vs).1 = vs.map (.among (values ++ (seen ++ vs))) := by
  induction vs generalizing met seen with
  | nil => rfl
  | cons v vs ih =>
    obtain ⟨hfirst, hnext⟩ := hd.adopt hmet v
    have hseen : seen ++ [v] ++ vs = seen ++ v :: vs := (List.append_cons ..).symm
    have hrest := ih hnext
    have hkept : Handle.among (values ++ (seen ++ v :: vs)) v =
        .among (values ++ (seen ++ [v])) v := by
      rw [← hseen, ← List.append_assoc values]
      exact Handle.among_append (by simp) vs
    rw [hseen] at hrest
    rw [Directory.adoptList, List.map_cons]
    simp only [hrest, hfirst, hkept]

end Count

/-! ## What the numbers are -/

section Continues

variable [Symbol σ] [Symbol.Listed σ]

/-- The different values of a list that are exposed for no symbol, in the order in which they first
occur. -/
def strangers (lookup : σ → Option α) (vs : List α) : List α :=
  (vs.filter fun v => ¬ Exposed lookup v).eraseDups

/-- Behind the values exposed, what appears anew are the strangers. -/
theorem eraseDups_exposedValues_append (lookup : σ → Option α) (vs : List α) :
    (exposedValues lookup ++ vs).eraseDups =
      (exposedValues lookup).eraseDups ++ strangers lookup vs := by
  rw [List.eraseDups_append, List.removeAll, strangers]
  refine congrArg (fun l : List α => (exposedValues lookup).eraseDups ++ l.eraseDups) ?_
  refine List.filter_congr fun v _ => ?_
  simp [← mem_exposedValues]

/-- Handles that go on with the numbers of a directory, one to one. -/
structure Continues [DecidableEq σ] (lookup : σ → Option α) (d : Directory σ α)
    (hs : List (Handle α)) : Prop where
  /-- A value that is exposed has the handle of each of its symbols. -/
  exposed : ∀ h ∈ hs, ∀ s, lookup s = some h.value → d.handle? s = some h
  /-- A stranger has a number beyond those of the directory. -/
  beyond : ∀ h ∈ hs, ¬ Exposed lookup h.value → d.size ≤ h.id.toNat
  /-- Equal numbers are those of equal values. -/
  id_eq_iff : ∀ g ∈ hs, ∀ h ∈ hs, g.id = h.id ↔ g.value = h.value
  /-- The numbers of the strangers, each where it first occurs, are the next ones, in their order. -/
  numbers : ((hs.filter fun h => ¬ Exposed lookup h.value).map (·.id.toNat)).eraseDups =
    List.range' d.size (strangers lookup (hs.map (·.value))).length
  /-- A handle leads back to a symbol exactly if its value is exposed. -/
  isSome_symbol? : ∀ h ∈ hs, (d.symbol? h).isSome = true ↔ Exposed lookup h.value

variable [DecidableEq σ] {lookup : σ → Option α} {d : Directory σ α}

omit [DecidableEq σ] in
/-- The different values are those of the directory and the strangers. -/
theorem length_eraseDups_exposedValues_append (hnumbers : d.Numbers (exposedValues lookup))
    (vs : List α) :
    (exposedValues lookup ++ vs).eraseDups.length = d.size + (strangers lookup vs).length := by
  rw [eraseDups_exposedValues_append, List.length_append, hnumbers.size]

omit [DecidableEq σ] in
/-- The numbers of strangers that are numbered by their places are the next ones. -/
theorem map_toNat_id_strangers (hnumbers : d.Numbers (exposedValues lookup)) {vs : List α}
    (hsize : d.size + (strangers lookup vs).length ≤ UInt32.size) :
    (strangers lookup vs).map (fun v => (Handle.among (exposedValues lookup ++ vs) v).id.toNat) =
      List.range' d.size (strangers lookup vs).length := by
  have hlength := length_eraseDups_exposedValues_append hnumbers vs
  have hall := Handle.map_toNat_id_among (Nat.le_trans (Nat.le_of_eq hlength) hsize)
  rw [hlength, eraseDups_exposedValues_append, List.map_append, List.range_eq_range',
    ← List.range'_append_1, Nat.zero_add] at hall
  exact List.append_inj_right hall (by rw [List.length_map, List.length_range', hnumbers.size])

/-- **Values taken over go on with the numbers of the directory**, if numbers do not run out. -/
theorem continues_adoptList (hd : d.Mirrors lookup Symbol.all)
    (hnumbers : d.Numbers (exposedValues lookup)) (vs : List α)
    (hsize : d.size + (strangers lookup vs).length ≤ UInt32.size) :
    d.Continues lookup (d.adoptList [] vs).1 := by
  have hnone : (exposedValues lookup).eraseDups ++ [] = (exposedValues lookup ++ []).eraseDups := by
    rw [List.append_nil, List.append_nil]
  have hhandles : (d.adoptList [] vs).1 = vs.map (.among (exposedValues lookup ++ vs)) :=
    hnumbers.adoptList hnone vs
  have hlength : (exposedValues lookup ++ vs).eraseDups.length ≤ UInt32.size :=
    Nat.le_trans (Nat.le_of_eq (length_eraseDups_exposedValues_append hnumbers vs)) hsize
  have hadopts := forall_adopts (d.forall₂_adoptList [] vs)
  have hvalues := map_value_of_adopts (d.forall₂_adoptList [] vs)
  have hmem : ∀ h ∈ (d.adoptList [] vs).1,
      h.value ∈ exposedValues lookup ++ vs ∧ h = .among (exposedValues lookup ++ vs) h.value := by
    intro h hh
    rw [hhandles] at hh
    obtain ⟨v, hv, rfl⟩ := List.mem_map.mp hh
    exact ⟨List.mem_append_right _ hv, rfl⟩
  exact
    { exposed := by
        intro h hh s hs
        have hv : h.value ∈ exposedValues lookup := mem_exposedValues.mpr ⟨s, hs⟩
        rw [hd.handle?_eq_among hnumbers, hs, Option.map_some, ← Handle.among_append hv vs]
        exact congrArg some (hmem h hh).2.symm
      beyond := by
        intro h hh hnot
        obtain ⟨hv, heq⟩ := hmem h hh
        have hnew : h.value ∉ (exposedValues lookup).eraseDups := by
          rwa [List.mem_eraseDups, mem_exposedValues]
        rw [heq, Handle.toNat_id_among hlength hv, eraseDups_exposedValues_append,
          List.idxOf_append_of_notMem hnew, hnumbers.size]
        exact Nat.le_add_right ..
      id_eq_iff := by
        intro g hg h hh
        obtain ⟨hgv, hgeq⟩ := hmem g hg
        obtain ⟨hhv, hheq⟩ := hmem h hh
        rw [hgeq, hheq]
        exact Handle.id_among_inj hlength hgv hhv
      numbers := by
        rw [hvalues, ← map_toNat_id_strangers hnumbers hsize, hhandles, List.filter_map, List.map_map,
          strangers]
        refine eraseDups_map fun v hv w hw hvw => ?_
        have hv := List.mem_append_right (exposedValues lookup) (List.mem_filter.mp hv).1
        have hw := List.mem_append_right (exposedValues lookup) (List.mem_filter.mp hw).1
        have hplace := (Handle.toNat_id_among hlength hv).symm.trans
          (hvw.trans (Handle.toNat_id_among hlength hw))
        exact (List.idxOf_inj (List.mem_eraseDups.mpr hv)).mp hplace
      isSome_symbol? := by
        intro h hh
        rw [hd.isSome_symbol?_eq (hadopts h hh), decide_eq_true_iff] }

end Continues

end Directory

/-! ## The engine's table -/

variable {α ρ : Type}

/-- The rule in values of the engine, without their numbers. -/
def BoundRule.unbound (b : BoundRule α ρ) : EngineRule α ρ :=
  ⟨b.items, b.numerator, b.denominator, b.rarity.map (·.value), b.conditions.map (·.value)⟩

variable [DecidableEq α] [DecidableEq ρ]

namespace Directory

variable {σ : Type} (d : Directory σ α)

/-- Values in two lists are taken over one list after the other. -/
theorem adoptList_append (met : Strangers α) (vs ws : List α) :
    d.adoptList met (vs ++ ws) =
      ((d.adoptList met vs).1 ++ (d.adoptList (d.adoptList met vs).2 ws).1,
        (d.adoptList (d.adoptList met vs).2 ws).2) := by
  induction vs generalizing met with
  | nil => rfl
  | cons v vs ih =>
    rw [List.cons_append, adoptList, adoptList]
    simp only [ih, List.cons_append]

/-- A value that may be absent is taken over like a list of one value or none. -/
theorem adoptList_toList (met : Strangers α) (v : Option α) :
    d.adoptList met v.toList = ((d.adoptOption met v).1.toList, (d.adoptOption met v).2) := by
  cases v <;> rfl

end Directory

namespace Naming

/-- The conditions of all rules are taken over as one list. -/
theorem flatMap_conditions_adoptRules (n : Naming α ρ) (metConditions : Strangers α)
    (metRarities : Strangers ρ) (natives : List (EngineRule α ρ)) :
    (n.adoptRules metConditions metRarities natives).flatMap (·.conditions) =
      (n.conditions.adoptList metConditions (natives.flatMap (·.conditions))).1 := by
  induction natives generalizing metConditions metRarities with
  | nil => rfl
  | cons r natives ih =>
    rw [adoptRules, List.flatMap_cons, List.flatMap_cons, Directory.adoptList_append, ih]

/-- The rarities of all rules are taken over as one list. -/
theorem flatMap_rarity_adoptRules (n : Naming α ρ) (metConditions : Strangers α)
    (metRarities : Strangers ρ) (natives : List (EngineRule α ρ)) :
    (n.adoptRules metConditions metRarities natives).flatMap (·.rarity.toList) =
      (n.rarities.adoptList metRarities (natives.flatMap (·.rarity.toList))).1 := by
  induction natives generalizing metConditions metRarities with
  | nil => rfl
  | cons r natives ih =>
    rw [adoptRules, List.flatMap_cons, List.flatMap_cons, Directory.adoptList_append, ih,
      Directory.adoptList_toList]

/-- A rule taken over is the rule of the engine, in values. -/
theorem Adopts.unbound_eq {n : Naming α ρ} {r : EngineRule α ρ} {b : BoundRule α ρ}
    (h : n.Adopts r b) : b.unbound = r := by
  rw [BoundRule.unbound, h.items, h.numerator, h.denominator,
    Directory.map_value_of_rel_adopts h.rarity, Directory.map_value_of_adopts h.conditions]

/-- Rules taken over are the rules of the engine, in values and in their order. -/
theorem map_unbound_of_adopts {n : Naming α ρ} {natives : List (EngineRule α ρ)}
    {rules : List (BoundRule α ρ)} (h : List.Forall₂ n.Adopts natives rules) :
    rules.map BoundRule.unbound = natives := by
  induction h with
  | nil => rfl
  | cons hr _ ih => rw [List.map_cons, hr.unbound_eq, ih]

/-- **The engine's own rules, taken over.**  They are the rules of the engine in their order, with
their items and fractions, and with their values in their places.  Among the conditions of all rules,
and among the rarities, the values that are exposed have the handles of their symbols, and the
strangers have the numbers beyond, one to one and in the order in which they first occur, if numbers
do not run out. -/
theorem adopt_exact (c : Catalog α ρ) (natives : List (EngineRule α ρ)) :
    let n := (ofCatalog c).value
    let rules := (n.adopt natives).rules
    n.conditions.size
        + (Directory.strangers c.condition? (natives.flatMap (·.conditions))).length < UInt32.size →
    n.rarities.size
        + (Directory.strangers c.rarity? (natives.filterMap (·.rarity))).length < UInt32.size →
      rules.map BoundRule.unbound = natives ∧
        n.conditions.Continues c.condition? (rules.flatMap (·.conditions)) ∧
        n.rarities.Continues c.rarity? (rules.filterMap (·.rarity)) := by
  intro n rules hconditions hrarities
  have hn : n.Mirrors c := mirrors_ofCatalog c
  have hrules : rules = n.adoptRules [] [] natives := rfl
  refine ⟨map_unbound_of_adopts (n.forall₂_adopt natives), ?_, ?_⟩
  · rw [hrules, flatMap_conditions_adoptRules]
    exact Directory.continues_adoptList hn.conditions (Directory.numbers_ofLookup c.condition?) _
      (Nat.le_of_lt hconditions)
  · rw [List.filterMap_eq_flatMap_toList] at hrarities ⊢
    rw [hrules, flatMap_rarity_adoptRules]
    exact Directory.continues_adoptList hn.rarities (Directory.numbers_ofLookup c.rarity?) _
      (Nat.le_of_lt hrarities)

/-- Two strangers among the conditions of two rules, of which one occurs in both, have the numbers
beyond the two of the directory; the ocean has the handle of the first condition that shares its
value, and a stranger among the rarities has a number of its own. -/
theorem adopt_exact_two_strangers :
    let c : Catalog Nat Nat :=
      (((Catalog.empty.exposeCondition .jungle 6).exposeCondition .originalOcean 5).exposeCondition
        .ocean 5).exposeRarity .common 1
    let natives : List (EngineRule Nat Nat) :=
      [⟨[1], 1, 1, some 9, [77, 5]⟩, ⟨[2], 1, 4, none, [78, 77, 6, 5]⟩]
    let n := (ofCatalog c).value
    let rules := (n.adopt natives).rules
    n.conditions.size
        + (Directory.strangers c.condition? (natives.flatMap (·.conditions))).length < UInt32.size ∧
      n.rarities.size
        + (Directory.strangers c.rarity? (natives.filterMap (·.rarity))).length < UInt32.size ∧
      rules.map BoundRule.unbound = natives ∧
      n.conditions.Continues c.condition? (rules.flatMap (·.conditions)) ∧
      n.rarities.Continues c.rarity? (rules.filterMap (·.rarity)) ∧
      rules.map (fun b => b.conditions.map (·.id.toNat)) = [[2, 1], [3, 2, 0, 1]] := by
  intro c natives n rules
  have hconditions : n.conditions.size
      + (Directory.strangers c.condition? (natives.flatMap (·.conditions))).length < UInt32.size := by
    decide +kernel
  have hrarities : n.rarities.size
      + (Directory.strangers c.rarity? (natives.filterMap (·.rarity))).length < UInt32.size := by
    decide +kernel
  obtain ⟨hrules, hcontinues, hcontinues'⟩ := adopt_exact c natives hconditions hrarities
  exact ⟨hconditions, hrarities, hrules, hcontinues, hcontinues', by decide +kernel⟩

end Naming

end DropRules
