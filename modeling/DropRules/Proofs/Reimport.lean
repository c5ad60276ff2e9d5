import DropRules.Adoption
import DropRules.Evaluation
import DropRules.Proofs.Directory
import DropRules.Proofs.Layout
import DropRules.Recovery

/-!
# Rules of the engine, recovered and bound again

A rule of the engine can be taken over, read back into names and bound again under the same naming.
What comes out should match no more than the rule did.

The conditions see to that as far as they go: a rule that came back whole gets the very handles it
had (`Naming.Mirrors.conditions_eq`).  The rarity does not.  A rule without a rarity matches
every roll, and so does what becomes of it; but a rarity that the engine exposes for no symbol comes
back as the absence of one, and then as `Rarity.any`.  A rule that was fit for one roll becomes fit
for all of them, or for those of the fallback.

So the rule bound again is no wider than the rule of the engine exactly if the latter had no rarity
or one with a name (`Naming.rebound_narrows_iff`), and `Naming.rebound_widens_foreign_rarity` is a
rule that came back whole and wider.
-/

namespace DropRules

variable {α ρ : Type}

/-- Whether a rule of the engine matches where `holds` tells the conditions and `accepts` the
rarities; a rule without a rarity accepts every roll. -/
def EngineRule.matches (holds : α → Bool) (accepts : ρ → Bool) (r : EngineRule α ρ) : Bool :=
  r.rarity.all accepts && r.conditions.all holds

/-! ## Taking over -/

namespace Directory

variable {σ : Type} [DecidableEq α]

/-- A value gets a handle when it is taken over, whatever strangers were met before. -/
def Adopts (d : Directory σ α) (v : α) (g : Handle α) : Prop :=
  ∃ met, (d.adopt met v).1 = g

theorem adopts_adopt (d : Directory σ α) (met : Strangers α) (v : α) :
    d.Adopts v (d.adopt met v).1 :=
  ⟨met, rfl⟩

/-- The handle of a value taken over holds that value. -/
theorem Adopts.value_eq {d : Directory σ α} {v : α} {g : Handle α} (h : d.Adopts v g) :
    g.value = v := by
  obtain ⟨met, rfl⟩ := h
  rw [adopt]
  cases hv : d.holder? v with
  | some e => exact value_of_holder? hv
  | none => cases met.idxOf? v <;> rfl

/-- A list of values is taken over value by value. -/
theorem forall₂_adoptList (d : Directory σ α) (met : Strangers α) (vs : List α) :
    List.Forall₂ d.Adopts vs (d.adoptList met vs).1 := by
  induction vs generalizing met with
  | nil => exact .nil
  | cons v vs ih => exact .cons (d.adopts_adopt met v) (ih _)

/-- The handles of values taken over hold those values, in their order. -/
theorem map_value_of_adopts {d : Directory σ α} {vs : List α} {gs : List (Handle α)}
    (h : List.Forall₂ d.Adopts vs gs) : gs.map (·.value) = vs := by
  induction h with
  | nil => rfl
  | cons hv _ ih => rw [List.map_cons, hv.value_eq, ih]

/-- The handle of a value that may be absent holds that value, or is absent too. -/
theorem map_value_of_rel_adopts {d : Directory σ α} {v : Option α} {g : Option (Handle α)}
    (h : Option.Rel d.Adopts v g) : g.map (·.value) = v := by
  cases h with
  | none => rfl
  | some hv => rw [Option.map_some, hv.value_eq]

/-- **A value that is exposed keeps a symbol.**  Taken over, it has the handle of an entry, and a
handle of an entry leads back to a symbol. -/
theorem Mirrors.isSome_symbol? [Symbol σ] [Symbol.Listed σ] [DecidableEq σ] {lookup : σ → Option α}
    {d : Directory σ α} (hd : d.Mirrors lookup Symbol.all) {s : σ} {v : α} {g : Handle α}
    (hs : lookup s = some v) (h : d.Adopts v g) : (d.symbol? g).isSome := by
  have hvalue := hd.handle?_value s
  rw [hs, Option.map_eq_some_iff] at hvalue
  obtain ⟨g', hg', hv⟩ := hvalue
  have hmem := hd.handle?_eq_some_iff.mp hg'
  obtain ⟨met, rfl⟩ := h
  rw [adopt]
  cases hholder : d.holder? v with
  | none => simpa [hv] using List.find?_eq_none.mp hholder _ hmem
  | some e =>
    rw [symbol?, Option.isSome_map, List.find?_isSome]
    exact ⟨e, List.mem_of_find?_eq_some hholder, by simp [Handle.Same]⟩

/-- **A value taken over has a symbol exactly if it is exposed.** -/
theorem Mirrors.isSome_symbol?_eq [Symbol σ] [Symbol.Listed σ] [DecidableEq σ]
    {lookup : σ → Option α} {d : Directory σ α} (hd : d.Mirrors lookup Symbol.all) {v : α}
    {g : Handle α} (h : d.Adopts v g) : (d.symbol? g).isSome = decide (Exposed lookup v) := by
  rw [Bool.eq_iff_iff, decide_eq_true_iff]
  constructor
  · intro hsome
    obtain ⟨s, hs⟩ := Option.isSome_iff_exists.mp hsome
    have hvalue := hd.exposed_of_handle? (hd.handle?_of_symbol? hs)
    rw [h.value_eq] at hvalue
    exact ⟨s, hvalue⟩
  · rintro ⟨s, hs⟩
    exact hd.isSome_symbol? hs h

/-- Handles read back into symbols and looked up again are the handles that have a symbol, number
and all. -/
theorem Mirrors.filterMap_handle?_symbol? [Symbol σ] [Symbol.Listed σ] [DecidableEq σ]
    {lookup : σ → Option α} {d : Directory σ α} (hd : d.Mirrors lookup Symbol.all)
    (gs : List (Handle α)) :
    (gs.filterMap d.symbol?).filterMap d.handle? = gs.filter fun g => (d.symbol? g).isSome := by
  induction gs with
  | nil => rfl
  | cons g gs ih =>
    cases hg : d.symbol? g with
    | none => rw [List.filterMap_cons_none hg, ih, List.filter_cons_of_neg (by simp [hg])]
    | some s =>
      rw [List.filterMap_cons_some hg, List.filterMap_cons_some (hd.handle?_of_symbol? hg), ih,
        List.filter_cons_of_pos (by simp [hg])]

end Directory

namespace Naming

variable [DecidableEq α] [DecidableEq ρ]

/-- A rule of the engine is taken over: its values have got handles, and nothing else changed. -/
structure Adopts (n : Naming α ρ) (r : EngineRule α ρ) (b : BoundRule α ρ) : Prop where
  items : b.items = r.items
  numerator : b.numerator = r.numerator
  denominator : b.denominator = r.denominator
  rarity : Option.Rel n.rarities.Adopts r.rarity b.rarity
  conditions : List.Forall₂ n.conditions.Adopts r.conditions b.conditions

/-- Each rule of the engine's table was taken over from the rule in its place. -/
theorem forall₂_adopt (n : Naming α ρ) (natives : List (EngineRule α ρ)) :
    List.Forall₂ n.Adopts natives (n.adopt natives).rules := by
  have hrun : ∀ (metConditions : Strangers α) (metRarities : Strangers ρ),
      List.Forall₂ n.Adopts natives (n.adoptRules metConditions metRarities natives) := by
    induction natives with
    | nil => exact fun _ _ => .nil
    | cons r natives ih =>
      intro metConditions metRarities
      refine .cons ⟨rfl, rfl, rfl, ?_, n.conditions.forall₂_adoptList _ _⟩ (ih _ _)
      cases r.rarity with
      | none => exact .none
      | some v => exact .some (n.rarities.adopts_adopt _ v)
  exact hrun [] []

/-! ## Back into names, and into handles again -/

/-- A naming holds what a catalog exposes. -/
structure Mirrors (n : Naming α ρ) (c : Catalog α ρ) : Prop where
  conditions : n.conditions.Mirrors c.condition? Symbol.all
  rarities : n.rarities.Mirrors c.rarity? Symbol.all

theorem mirrors_ofCatalog (c : Catalog α ρ) : (ofCatalog c).value.Mirrors c :=
  ⟨Directory.mirrors_ofLookup c.condition?, Directory.mirrors_ofLookup c.rarity?⟩

variable {n : Naming α ρ} {c : Catalog α ρ} {b b' : BoundRule α ρ}

/-- Without a choice, every rule of a table is read back. -/
theorem recoverTable_false (n : Naming α ρ) (t : DropTable α ρ) :
    n.recoverTable t false = t.rules.map n.recover :=
  List.filter_eq_self.mpr fun _ _ => rfl

/-- A rule comes back whole exactly if each of its conditions has a name. -/
theorem isWhole_iff :
    (n.recover b).isWhole ↔ ∀ g ∈ b.conditions, (n.conditions.symbol? g).isSome := by
  have hle := List.length_filterMap_le n.conditions.symbol? b.conditions
  rw [RecoveredRule.isWhole, beq_iff_eq]
  show b.conditions.length - (b.conditions.filterMap n.conditions.symbol?).length = 0 ↔ _
  rw [← List.countP_eq_length, ← List.length_filterMap_eq_countP]
  omega

/-- The names that come back have handles. -/
theorem Mirrors.isSome_condition?_of_recover (hn : n.Mirrors c) :
    ∀ k ∈ (n.recover b).conditions, (n.condition? k).isSome := by
  intro k hk
  obtain ⟨g, -, hg⟩ := List.mem_filterMap.mp hk
  have hback : n.condition? k = some g := hn.conditions.handle?_of_symbol? hg
  rw [hback, Option.isSome_some]

/-- **A rule that comes back whole is bound again as it was, but for the rarity**: its conditions
are the handles that it had. -/
theorem Mirrors.bound?_recover (hn : n.Mirrors c) (hwhole : (n.recover b).isWhole) :
    n.bound? (n.recover b).toNamed =
      (n.rarityHandle? (some ((b.rarity.bind n.rarities.symbol?).getD .any))).map fun h =>
        { b with rarity := some h } := by
  have hconditions : (n.recover b).toNamed.conditions.filterMap n.condition? = b.conditions := by
    show (b.conditions.filterMap n.conditions.symbol?).filterMap n.conditions.handle? = _
    rw [hn.conditions.filterMap_handle?_symbol?]
    exact List.filter_eq_self.mpr (isWhole_iff.mp hwhole)
  rw [bound?_eq, hconditions]
  rfl

/-- **The conditions of a rule that comes back whole are the handles that it had.** -/
theorem Mirrors.conditions_eq (hn : n.Mirrors c) (hwhole : (n.recover b).isWhole)
    (hbound : n.bound? (n.recover b).toNamed = some b') : b'.conditions = b.conditions := by
  rw [hn.bound?_recover hwhole] at hbound
  obtain ⟨h, -, rfl⟩ := Option.map_eq_some_iff.mp hbound
  rfl

/-- A rule bound again has a rarity: the one it had if that has a name, and else the one that
accepts every roll or the fallback. -/
theorem rarity_eq (hbound : n.bound? (n.recover b).toNamed = some b') :
    b'.rarity = n.rarityHandle? (some ((b.rarity.bind n.rarities.symbol?).getD .any)) := by
  rw [bound?_eq] at hbound
  obtain ⟨h, hh, rfl⟩ := Option.map_eq_some_iff.mp hbound
  exact hh.symm

omit [DecidableEq α] in
/-- A rarity with a name is bound to the handle it had. -/
theorem Mirrors.rarityHandle?_of_symbol? (hn : n.Mirrors c) {g : Handle ρ} {s : Rarity}
    (h : n.rarities.symbol? g = some s) : n.rarityHandle? (some s) = some g := by
  have hback : n.rarity? s = some g := hn.rarities.handle?_of_symbol? h
  rw [rarityHandle?, Option.bind_some, hback, Option.some_or]

omit [DecidableEq α] [DecidableEq ρ] in
/-- The rarity to which a rule is bound is one that the engine exposes. -/
theorem Mirrors.exposed_of_rarityHandle? (hn : n.Mirrors c) {rarity : Option Rarity} {g : Handle ρ}
    (h : n.rarityHandle? rarity = some g) : ∃ s, c.rarity? s = some g.value := by
  obtain ⟨s, hs⟩ := exists_rarity?_of_rarityHandle? h
  exact ⟨s, hn.rarities.exposed_of_handle? hs⟩

/-- **A rule bound again is no wider than the rule it came from, exactly if that rule had no rarity
or one that the engine exposes.** -/
theorem Mirrors.narrows_iff (hn : n.Mirrors c) {r : EngineRule α ρ} (hr : n.Adopts r b)
    (hwhole : (n.recover b).isWhole) (hbound : n.bound? (n.recover b).toNamed = some b') :
    (∀ holds accepts, b'.matches holds accepts = true → r.matches holds accepts = true) ↔
      ∀ v, r.rarity = some v → ∃ s, c.rarity? s = some v := by
  have hconditions : ∀ holds : α → Bool,
      (b'.conditions.all fun g => holds g.value) = r.conditions.all holds := fun holds => by
    rw [hn.conditions_eq hwhole hbound, ← Directory.map_value_of_adopts hr.conditions, List.all_map]
    rfl
  have hrarity := rarity_eq hbound
  constructor
  · -- The conditions all hold, and only the rarity of the rule bound again is accepted.
    intro hnarrows v hv
    obtain ⟨g, hg⟩ : ∃ g, b'.rarity = some g := by
      rw [bound?_eq] at hbound
      obtain ⟨g, -, rfl⟩ := Option.map_eq_some_iff.mp hbound
      exact ⟨g, rfl⟩
    obtain ⟨s, hs⟩ := hn.exposed_of_rarityHandle? (hrarity.symm.trans hg)
    have hmatches := hnarrows (fun _ => true) (fun v => decide (v = g.value))
      (by simp [BoundRule.matches, hg])
    have hvalue : v = g.value := by simpa [EngineRule.matches, hv] using hmatches
    exact ⟨s, by rw [hs, hvalue]⟩
  · intro hexposed holds accepts hmatches
    rw [BoundRule.matches, hconditions, Bool.and_eq_true] at hmatches
    rw [EngineRule.matches, Bool.and_eq_true]
    refine ⟨?_, hmatches.2⟩
    cases hv : r.rarity with
    | none => rfl
    | some v =>
      -- A rarity with a name is bound to the handle that it had, and so to the value.
      obtain ⟨s, hs⟩ := hexposed v hv
      have hadopted := hr.rarity
      rw [hv] at hadopted
      cases hg : b.rarity with
      | none => rw [hg] at hadopted; cases hadopted
      | some g =>
        rw [hg] at hadopted
        have hg' : n.rarities.Adopts v g := by
          cases hadopted
          assumption
        obtain ⟨s', hs'⟩ := Option.isSome_iff_exists.mp (hn.rarities.isSome_symbol? hs hg')
        rw [hg, Option.bind_some, hs', Option.getD_some, hn.rarityHandle?_of_symbol? hs'] at hrarity
        have haccepted := hmatches.1
        rw [hrarity, Option.all_some, hg'.value_eq] at haccepted
        rwa [Option.all_some]

end Naming

/-- **What taking a rule over and binding it again does to the rolls it matches.**  Let a rule of
the engine come back whole and be bound again under the same naming.  Then it matches no more than
it did, whatever conditions hold and whatever rarities are accepted, exactly if it had no rarity or
one that the engine exposes for some symbol. -/
theorem Naming.rebound_narrows_iff [DecidableEq α] [DecidableEq ρ] (c : Catalog α ρ)
    (natives : List (EngineRule α ρ)) (r : EngineRule α ρ) (b b' : BoundRule α ρ)
    (hr : (r, b) ∈ natives.zip ((ofCatalog c).value.adopt natives).rules)
    (hwhole : ((ofCatalog c).value.recover b).isWhole)
    (hbound : (ofCatalog c).value.bound? ((ofCatalog c).value.recover b).toNamed = some b') :
    (∀ holds accepts, b'.matches holds accepts = true → r.matches holds accepts = true) ↔
      ∀ v, r.rarity = some v → ∃ s, c.rarity? s = some v := by
  have hadopts := (List.forall₂_iff_zip.mp ((ofCatalog c).value.forall₂_adopt natives)).2 hr
  exact (mirrors_ofCatalog c).narrows_iff hadopts hwhole hbound

/-- A rule for a rarity that the engine exposes for two symbols matches no more when it is bound
again, though a rule before it has a rarity exposed for none. -/
theorem Naming.rebound_narrows_shared_rarity :
    let c : Catalog Nat Nat :=
      (((Catalog.empty.exposeCondition .jungle 5).exposeRarity .any 0).exposeRarity .common 1
        ).exposeRarity .uncommonOrCommon 1
    let natives : List (EngineRule Nat Nat) := [⟨[7], 1, 1, some 9, [5]⟩, ⟨[8], 1, 1, some 1, [5]⟩]
    let n := (ofCatalog c).value
    let b : BoundRule Nat Nat := ⟨[8], 1, 1, some ⟨.ofNat 1, 1⟩, [⟨.ofNat 0, 5⟩]⟩
    (⟨[8], 1, 1, some 1, [5]⟩, b) ∈ natives.zip (n.adopt natives).rules ∧
      (n.recover b).isWhole ∧ n.bound? (n.recover b).toNamed = some b ∧
      ∀ holds accepts, b.matches holds accepts = true →
        (⟨[8], 1, 1, some 1, [5]⟩ : EngineRule Nat Nat).matches holds accepts = true := by
  intro c natives n b
  have hr : (⟨[8], 1, 1, some 1, [5]⟩, b) ∈ natives.zip (n.adopt natives).rules := by decide
  have hwhole : (n.recover b).isWhole := by decide
  have hbound : n.bound? (n.recover b).toNamed = some b := by decide
  refine ⟨hr, hwhole, hbound, ?_⟩
  rw [rebound_narrows_iff c natives _ b b hr hwhole hbound]
  intro v hv
  exact ⟨.common, hv⟩

/-- A rule for a rarity that the engine exposes for no symbol comes back whole, is bound again with
the handle of every roll, and then matches where the engine's rule did not. -/
theorem Naming.rebound_widens_foreign_rarity :
    let c : Catalog Nat Nat :=
      ((Catalog.empty.exposeCondition .jungle 5).exposeRarity .any 0).exposeRarity .common 1
    let r : EngineRule Nat Nat := ⟨[7], 1, 1, some 9, [5]⟩
    let n := (ofCatalog c).value
    ∃ b b', (r, b) ∈ [r].zip (n.adopt [r]).rules ∧ (n.recover b).isWhole ∧
      n.bound? (n.recover b).toNamed = some b' ∧
      ∃ holds accepts, b'.matches holds accepts = true ∧ r.matches holds accepts = false :=
  ⟨⟨[7], 1, 1, some ⟨.ofNat 2, 9⟩, [⟨.ofNat 0, 5⟩]⟩,
    ⟨[7], 1, 1, some ⟨.ofNat 0, 0⟩, [⟨.ofNat 0, 5⟩]⟩,
    by decide, by decide, by decide, (· == 5), (· ≤ 1), by decide, by decide⟩

end DropRules
