import DropRules.Proofs.Numbering
import Mathlib.Data.List.Perm.Subperm

/-!
# Directories are coherent

A directory can be asked in several ways: for the handle of a symbol, for the symbol of a handle, for
the number of a value, and for all of its entries.  The answers have to agree with one another and
with what the engine exposed, whatever it exposed and however often one value stands for several
symbols.  That they do is `Directory.Coherent`, and a directory made from what the engine exposes has
it (`Directory.coherent_ofLookup`).

Two facts about the finished directory are enough for this.  It mirrors the engine
(`Directory.Mirrors`): which symbols have an entry, and with which value.  And it numbers the values
(`Directory.Numbers`): which number the handle of a value has.  Neither speaks of the walk in which
the directory was made, in which a symbol may be missing, share a handle or get a new one.

An engine exposes its values one by one and may think better of it (`Exposure`).  What counts in the
end is the last value of each symbol, so the order between the symbols is nothing to the directory
(`Naming.coherent_ofExposures`).
-/

namespace DropRules

namespace Directory

variable {σ α : Type} [Symbol σ] [DecidableEq σ] [DecidableEq α]

/-- The ways through a directory agree with one another, and with what is exposed. -/
structure Coherent (lookup : σ → Option α) (d : Directory σ α) : Prop where
  /-- A symbol has a handle exactly if a value is exposed for it, and the handle holds this value. -/
  handle? : ∀ s, (d.handle? s).map (·.value) = lookup s
  contains : ∀ s, d.contains s = (lookup s).isSome
  /-- The entries are the symbols that have a handle, in their order, and their handles. -/
  entries : d.entries = Symbol.all.filterMap fun s => (d.handle? s).map fun h => (s, h)
  /-- The size is the number of different values. -/
  size : d.size = (exposedValues lookup).eraseDups.length
  /-- The number of a handle is the place of its value in the order of first appearance. -/
  number : ∀ s h, d.handle? s = some h →
    h.id.toNat = (exposedValues lookup).eraseDups.idxOf h.value
  /-- The numbers in use are those below the size. -/
  numbers : ∀ i, (∃ s h, d.handle? s = some h ∧ h.id.toNat = i) ↔ i < d.size
  /-- Two symbols have the same number, and the same handle, exactly if they share their value. -/
  shared : ∀ s t g h, d.handle? s = some g → d.handle? t = some h →
    (g.id = h.id ↔ lookup s = lookup t) ∧ (g.Same h ↔ lookup s = lookup t)
  /-- The handle of a symbol leads back to the first symbol that shares its value. -/
  symbol? : ∀ s h, d.handle? s = some h →
    d.symbol? h = Symbol.all.find? fun t => lookup t = lookup s
  /-- A value has a number exactly if it is exposed. -/
  isSome_id? : ∀ v, (d.id? v).isSome = true ↔ Exposed lookup v
  /-- The number of a value is that of the handle of each of its symbols. -/
  id? : ∀ s v, lookup s = some v → d.id? v = (d.handle? s).map (·.id)

variable [Symbol.Listed σ] {lookup : σ → Option α} {d : Directory σ α}

/-- The handle of a symbol is that of the value exposed for it. -/
theorem Mirrors.handle?_eq_among (hd : d.Mirrors lookup Symbol.all)
    (hnumbers : d.Numbers (exposedValues lookup)) (s : σ) :
    d.handle? s = (lookup s).map (.among (exposedValues lookup)) := by
  have hvalue := hd.handle?_value s
  cases hs : d.handle? s with
  | none =>
    rw [hs, Option.map_none] at hvalue
    rw [← hvalue, Option.map_none]
  | some h =>
    have heq := (hnumbers.eq_among (hd.handle?_eq_some_iff.mp hs)).2
    rw [hs, Option.map_some] at hvalue
    rw [← hvalue, Option.map_some]
    exact congrArg some heq

omit [DecidableEq α] in
/-- The entries are those of the symbols that have a handle, in their order. -/
theorem Mirrors.entries_eq (hd : d.Mirrors lookup Symbol.all) :
    d.entries = Symbol.all.filterMap fun s => (d.handle? s).map fun h => (s, h) := by
  have hentries : (d.entries.map (·.1)).filterMap (fun s => (d.handle? s).map fun h => (s, h)) =
      d.entries := by
    rw [List.filterMap_map]
    refine (List.filterMap_congr fun e he => ?_).trans List.filterMap_some
    rw [Function.comp_apply, hd.handle?_eq_some_iff.mpr he, Option.map_some]
  refine hentries.symm.trans ?_
  rw [hd.symbols, List.filterMap_filter]
  refine List.filterMap_congr fun s _ => ?_
  have hvalue := hd.handle?_value s
  cases hs : lookup s with
  | some v => rfl
  | none =>
    rw [hs, Option.map_eq_none_iff] at hvalue
    rw [hvalue]
    rfl

omit [DecidableEq σ] [Symbol.Listed σ] in
/-- There are not more different values than symbols. -/
theorem length_exposedValues_le (lookup : σ → Option α) :
    (exposedValues lookup).eraseDups.length ≤ (Symbol.all : List σ).length := by
  have hsubset : (exposedValues lookup).eraseDups ⊆ exposedValues lookup :=
    fun v hv => List.mem_eraseDups.mp hv
  have hperm := List.subperm_of_subset (nodup_eraseDups _) hsubset
  exact Nat.le_trans hperm.length_le (List.length_filterMap_le ..)

/-- The handle of a symbol leads back to the first symbol that shares its value. -/
theorem Mirrors.symbol?_of_handle? (hd : d.Mirrors lookup Symbol.all)
    (hnumbers : d.Numbers (exposedValues lookup)) {s : σ} {h : Handle α} (hs : d.handle? s = some h) :
    d.symbol? h = Symbol.all.find? fun t => lookup t = lookup s := by
  have hvalue := hd.exposed_of_handle? hs
  have heq := (hnumbers.eq_among (hd.handle?_eq_some_iff.mp hs)).2
  have hfind : ∀ t, ((d.handle? t).map fun g => (t, g)).any
      (fun e => decide (e.2.id = h.id ∧ e.2.Same h)) = decide (lookup t = lookup s) := by
    intro t
    rw [hd.handle?_eq_among hnumbers t, hvalue]
    cases lookup t with
    | none => rfl
    | some v =>
      rw [Bool.eq_iff_iff]
      simp only [Option.map_some, Option.any_some, decide_eq_true_iff, Option.some.injEq]
      refine ⟨fun hsame => hsame.2, ?_⟩
      rintro rfl
      exact ⟨congrArg Handle.id heq.symm, rfl⟩
  rw [symbol?, hd.entries_eq, List.find?_filterMap]
  simp only [hfind]
  cases hfirst : Symbol.all.find? fun t => lookup t = lookup s with
  | none => rfl
  | some t =>
    have ht : lookup t = lookup s := by simpa using List.find?_some hfirst
    rw [Option.bind_some, hd.handle?_eq_among hnumbers t, ht, hvalue]
    rfl

/-- The number of a value is that of the handle of each of its symbols. -/
theorem Mirrors.id?_eq (hd : d.Mirrors lookup Symbol.all)
    (hnumbers : d.Numbers (exposedValues lookup)) {s : σ} {v : α} (hs : lookup s = some v) :
    d.id? v = (d.handle? s).map (·.id) := by
  have hexposed : v ∈ exposedValues lookup := mem_exposedValues.mpr ⟨s, hs⟩
  rw [id?, hd.handle?_eq_among hnumbers, hs]
  cases hv : d.holder? v with
  | none => exact absurd hexposed (hnumbers.holder?_eq_none_iff.mp hv)
  | some e => rw [Option.map_some, (hnumbers.of_holder? hv).2, Option.map_some, Option.map_some]

/-- **A directory made from what is exposed is coherent**, if numbers do not run out before symbols
do. -/
theorem coherent_ofLookup (hall : (Symbol.all : List σ).length ≤ UInt32.size)
    (lookup : σ → Option α) :
    (ofLookup lookup).value.Coherent lookup := by
  have hd := mirrors_ofLookup lookup
  have hnumbers := numbers_ofLookup lookup
  generalize (ofLookup lookup).value = d at hd hnumbers
  have hsize : (exposedValues lookup).eraseDups.length ≤ UInt32.size :=
    Nat.le_trans (length_exposedValues_le lookup) hall
  have hhandle : ∀ {s h}, d.handle? s = some h →
      lookup s = some h.value ∧ h.value ∈ exposedValues lookup ∧
        h = .among (exposedValues lookup) h.value := by
    intro s h hs
    exact ⟨hd.exposed_of_handle? hs, hnumbers.eq_among (hd.handle?_eq_some_iff.mp hs)⟩
  have hnumber : ∀ s h, d.handle? s = some h →
      h.id.toNat = (exposedValues lookup).eraseDups.idxOf h.value := by
    intro s h hs
    obtain ⟨-, hmem, heq⟩ := hhandle hs
    rw [← Handle.toNat_id_among hsize hmem, ← heq]
  exact
    { handle? := hd.handle?_value
      contains := by
        intro s
        rw [Directory.contains, ← hd.handle?_value s, Option.isSome_map]
      entries := hd.entries_eq
      size := hnumbers.size
      number := hnumber
      numbers := by
        intro i
        rw [hnumbers.size]
        constructor
        · rintro ⟨s, h, hs, rfl⟩
          rw [hnumber s h hs]
          exact List.idxOf_lt_length_iff.mpr (List.mem_eraseDups.mpr (hhandle hs).2.1)
        · intro hi
          have hmem := List.mem_eraseDups.mp (List.getElem_mem hi)
          obtain ⟨s, hs⟩ := mem_exposedValues.mp hmem
          refine ⟨s, _, by rw [hd.handle?_eq_among hnumbers, hs, Option.map_some], ?_⟩
          rw [Handle.toNat_id_among hsize hmem, (nodup_eraseDups _).idxOf_getElem]
      shared := by
        intro s t g h hs ht
        obtain ⟨hgs, hgmem, hg⟩ := hhandle hs
        obtain ⟨hht, hhmem, hh⟩ := hhandle ht
        rw [hgs, hht, Option.some.injEq]
        refine ⟨?_, Iff.rfl⟩
        rw [hg, hh]
        exact Handle.id_among_inj hsize hgmem hhmem
      symbol? := fun s h hs => hd.symbol?_of_handle? hnumbers hs
      isSome_id? := by
        intro v
        rw [Directory.id?, Option.isSome_map, ← mem_exposedValues, Option.isSome_iff_ne_none,
          ne_eq, hnumbers.holder?_eq_none_iff, not_not]
      id? := fun s v hs => hd.id?_eq hnumbers hs }

end Directory

/-! ## What an engine exposes one by one -/

/-- One value that an engine exposes. -/
inductive Exposure (α ρ : Type) where
  | condition (symbol : Condition) (value : α)
  | rarity (symbol : Rarity) (value : ρ)

namespace Exposure

variable {α ρ : Type}

/-- The value exposed for a condition, if it is the condition that this is about. -/
def condition? (s : Condition) : Exposure α ρ → Option α
  | condition symbol value => if symbol = s then some value else none
  | rarity _ _ => none

/-- The value exposed for a rarity, if it is the rarity that this is about. -/
def rarity? (s : Rarity) : Exposure α ρ → Option ρ
  | condition _ _ => none
  | rarity symbol value => if symbol = s then some value else none

/-- The value that was exposed last for a condition. -/
def lastCondition? (exposures : List (Exposure α ρ)) (s : Condition) : Option α :=
  (exposures.filterMap (condition? s)).getLast?

/-- The value that was exposed last for a rarity. -/
def lastRarity? (exposures : List (Exposure α ρ)) (s : Rarity) : Option ρ :=
  (exposures.filterMap (rarity? s)).getLast?

end Exposure

namespace Catalog

variable {α ρ : Type}

/-- Exposes one value more. -/
def expose (c : Catalog α ρ) : Exposure α ρ → Catalog α ρ
  | .condition symbol value => c.exposeCondition symbol value
  | .rarity symbol value => c.exposeRarity symbol value

/-- The catalog of an engine that exposes values one after the other, and has no rules. -/
def ofExposures (exposures : List (Exposure α ρ)) : Catalog α ρ :=
  exposures.foldl expose empty

/-- **What counts is the value exposed last**, symbol by symbol. -/
theorem ofExposures_eq (exposures : List (Exposure α ρ)) :
    ofExposures exposures =
      ⟨Exposure.lastCondition? exposures, Exposure.lastRarity? exposures, []⟩ := by
  induction exposures using List.reverseRecOn with
  | nil => rfl
  | append_singleton exposures e ih =>
    have hlastCondition : ∀ s, Exposure.lastCondition? (exposures ++ [e]) s =
        (e.condition? s).or (Exposure.lastCondition? exposures s) := by
      intro s
      rw [Exposure.lastCondition?, List.filterMap_append, List.getLast?_append]
      cases hs : e.condition? s <;> simp [hs, Exposure.lastCondition?]
    have hlastRarity : ∀ s, Exposure.lastRarity? (exposures ++ [e]) s =
        (e.rarity? s).or (Exposure.lastRarity? exposures s) := by
      intro s
      rw [Exposure.lastRarity?, List.filterMap_append, List.getLast?_append]
      cases hs : e.rarity? s <;> simp [hs, Exposure.lastRarity?]
    rw [ofExposures, List.foldl_append, ← ofExposures, ih, funext hlastCondition,
      funext hlastRarity]
    cases e with
    | condition symbol value =>
      simp only [List.foldl_cons, List.foldl_nil, expose, exposeCondition, Exposure.condition?,
        Exposure.rarity?, Option.none_or, Catalog.mk.injEq, and_true]
      funext s
      by_cases hs : symbol = s
      · rw [if_pos hs, if_pos hs.symm, Option.some_or]
      · rw [if_neg hs, if_neg (Ne.symm hs), Option.none_or]
    | rarity symbol value =>
      simp only [List.foldl_cons, List.foldl_nil, expose, exposeRarity, Exposure.condition?,
        Exposure.rarity?, Option.none_or, Catalog.mk.injEq, and_true, true_and]
      funext s
      by_cases hs : symbol = s
      · rw [if_pos hs, if_pos hs.symm, Option.some_or]
      · rw [if_neg hs, if_neg (Ne.symm hs), Option.none_or]

end Catalog

namespace Naming

variable {α ρ : Type} [DecidableEq α] [DecidableEq ρ]

/-- The directories of a catalog are coherent with it. -/
theorem coherent_ofCatalog (c : Catalog α ρ) :
    (ofCatalog c).value.conditions.Coherent c.condition? ∧
      (ofCatalog c).value.rarities.Coherent c.rarity? := by
  have hconditions : (ofCatalog c).value.conditions = (Directory.ofLookup c.condition?).value := rfl
  have hrarities : (ofCatalog c).value.rarities = (Directory.ofLookup c.rarity?).value := rfl
  rw [hconditions, hrarities]
  exact ⟨Directory.coherent_ofLookup (by decide) _, Directory.coherent_ofLookup (by decide) _⟩

/-- **The directories of an engine are coherent with what it exposed last for each symbol**, whatever
it exposed, how often and in what pattern of shared values.  And they are the same, with the same
notices, for whatever else was exposed with the same last value for each symbol, so the order in which
different symbols were exposed does not matter. -/
theorem coherent_ofExposures (exposures : List (Exposure α ρ)) :
    let n := ofCatalog (.ofExposures exposures)
    n.value.conditions.Coherent (Exposure.lastCondition? exposures) ∧
      n.value.rarities.Coherent (Exposure.lastRarity? exposures) ∧
      ∀ exposures' : List (Exposure α ρ),
        (∀ s, Exposure.lastCondition? exposures' s = Exposure.lastCondition? exposures s) →
        (∀ s, Exposure.lastRarity? exposures' s = Exposure.lastRarity? exposures s) →
          ofCatalog (.ofExposures exposures') = n := by
  intro n
  have hn : n = ofCatalog ⟨Exposure.lastCondition? exposures, Exposure.lastRarity? exposures, []⟩ :=
    congrArg ofCatalog (Catalog.ofExposures_eq exposures)
  obtain ⟨hconditions, hrarities⟩ := coherent_ofCatalog (Catalog.ofExposures exposures)
  rw [Catalog.ofExposures_eq, ← hn] at hconditions hrarities
  refine ⟨hconditions, hrarities, fun exposures' hconditions' hrarities' => ?_⟩
  rw [hn, Catalog.ofExposures_eq, funext hconditions', funext hrarities']

/-- The ocean is exposed twice, and in the end shares its value with a condition that comes before it,
and that was exposed behind it.  So its handle leads back to that condition; and in another order,
without the value that was replaced, the directories are the same. -/
theorem coherent_ofExposures_shared_ocean :
    let exposures : List (Exposure Nat Nat) :=
      [.condition .ocean 5, .rarity .common 1, .condition .ocean 7, .condition .inLava 3,
        .condition .originalOcean 7, .rarity .any 1]
    let exposures' : List (Exposure Nat Nat) :=
      [.rarity .any 1, .condition .inLava 3, .rarity .common 1, .condition .originalOcean 7,
        .condition .ocean 7]
    let n := (ofCatalog (.ofExposures exposures)).value
    n.conditions.Coherent (Exposure.lastCondition? exposures) ∧
      n.condition? .ocean = some ⟨.ofNat 1, 7⟩ ∧
      n.conditions.symbol? ⟨.ofNat 1, 7⟩ = some .originalOcean ∧ n.conditions.size = 2 ∧
      ofCatalog (.ofExposures exposures') = ofCatalog (.ofExposures exposures) := by
  intro exposures exposures' n
  obtain ⟨hconditions, -, hother⟩ := coherent_ofExposures exposures
  have hocean : n.condition? .ocean = some ⟨.ofNat 1, 7⟩ := by decide +kernel
  refine ⟨hconditions, hocean, ?_, ?_, hother exposures' ?_ ?_⟩
  · rw [hconditions.symbol? .ocean _ hocean]
    decide +kernel
  · rw [hconditions.size]
    decide +kernel
  · intro s
    cases s <;> decide +kernel
  · intro s
    cases s <;> decide +kernel

end Naming

end DropRules
