import DropRules.Adoption
import DropRules.Listing
import DropRules.Proofs.Directory
import DropRules.Proofs.Layout
import Mathlib.Data.List.Forall2

/-!
# Values are told apart and nothing else

The engine's values are opaque: all that can be done with two of them is to see whether they are the
same one.  So it should make no difference which values they are.  Two engines whose values stand
for one another, one to one, should be named alike, and what is said of the one, in numbers and
names, should be what is said of the other.

## 1.  Renaming

A function of values that makes no two of them one can be applied to all that is made of values, and
every operation gives the renamed result on the renamed input: a directory is filled as it was
(`Directory.value_ofLookup_map`), and rules are taken over, read back into names and bound as they
were (`Naming.adopt_map`, `Naming.recover_map`, `Assembly.value_ofRules_renamed`).  Binding goes by
symbols alone and does not even ask that the values stay apart.

## 2.  From a relation to functions

Values that stand for one another are in a relation, and neither side need be a function of the
other.  But the pairs of them are values as good as any, and if the relation is one to one, then
either side of a pair tells the pair.  So two catalogs that differ by a renaming are both renamings
of one catalog of pairs (`Catalog.Renamed.exists_pairs`), and nothing needs to be shown for two runs
side by side.

## 3.  What can be told

What somebody learns who cannot look into values is a `View`: sizes, numbers of handles, names,
counts and texts.  It is left alone by a renaming (`Catalog.view_map`), and so two catalogs that
differ by one have the same view (`Catalog.view_eq_of_renamed`).  The order in which symbols were
exposed never comes up, since a catalog does not have it.
-/

namespace DropRules

variable {α α' ρ ρ' σ : Type} {f : α → α'} {g : ρ → ρ'}

/-! ## Renaming values -/

/-- The handle with the number and another value. -/
def Handle.map (f : α → α') (h : Handle α) : Handle α' :=
  ⟨h.id, f h.value⟩

/-- A rule of the engine in other values. -/
def EngineRule.map (f : α → α') (g : ρ → ρ') (r : EngineRule α ρ) : EngineRule α' ρ' :=
  ⟨r.items, r.numerator, r.denominator, r.rarity.map g, r.conditions.map f⟩

/-- A bound rule over other values, with the numbers it had. -/
def BoundRule.map (f : α → α') (g : ρ → ρ') (r : BoundRule α ρ) : BoundRule α' ρ' :=
  ⟨r.items, r.numerator, r.denominator, r.rarity.map (.map g), r.conditions.map (.map f)⟩

/-- A table over other values. -/
def DropTable.map (f : α → α') (g : ρ → ρ') (t : DropTable α ρ) : DropTable α' ρ' :=
  ⟨t.rules.map (.map f g)⟩

/-- An assembly over other values. -/
def Assembly.map (f : α → α') (g : ρ → ρ') (a : Assembly α ρ) : Assembly α' ρ' :=
  ⟨a.table.map f g, a.loaded, a.skipped⟩

/-- A directory of other values. -/
def Directory.map (f : α → α') (d : Directory σ α) : Directory σ α' :=
  ⟨d.entries.map fun e => (e.1, e.2.map f), d.size⟩

/-- A naming of other values. -/
def Naming.map (f : α → α') (g : ρ → ρ') (n : Naming α ρ) : Naming α' ρ' :=
  ⟨n.conditions.map f, n.rarities.map g⟩

/-- A catalog of other values. -/
def Catalog.map (f : α → α') (g : ρ → ρ') (c : Catalog α ρ) : Catalog α' ρ' :=
  ⟨fun s => (c.condition? s).map f, fun s => (c.rarity? s).map g, c.rules.map (.map f g)⟩

/-! ## Directories -/

namespace Directory

variable [DecidableEq α] [DecidableEq α']

theorem holder?_map (hf : Function.Injective f) (d : Directory σ α) (v : α) :
    (d.map f).holder? (f v) = (d.holder? v).map fun e => (e.1, e.2.map f) := by
  rw [holder?, holder?, map, List.find?_map]
  simp only [Function.comp_def, Handle.map, hf.eq_iff]

theorem add_map (hf : Function.Injective f) (d : Directory σ α) (s : σ) (v : α) :
    (d.map f).add s (f v) = (d.add s v).map f := by
  rw [add, add, holder?_map hf]
  cases d.holder? v <;> simp [map, Handle.map]

/-- **A directory of renamed values is the renamed directory.** -/
theorem value_ofLookup_map [Symbol σ] (hf : Function.Injective f) (lookup : σ → Option α) :
    (ofLookup fun s => (lookup s).map f).value = (ofLookup lookup).value.map f := by
  have hnote : ∀ (d : Directory σ α) (s : σ),
      (note (fun s => (lookup s).map f) (d.map f) s).value = ((note lookup d s).value).map f := by
    intro d s
    rw [value_note, value_note]
    cases lookup s with
    | none => rfl
    | some v => exact add_map hf d s v
  rw [ofLookup, ofLookup, Logged.value_foldlM, Logged.value_foldlM]
  exact @List.foldl_hom _ _ _ (map f) (fun d s => (note lookup d s).value)
    (fun d s => (note (fun s => (lookup s).map f) d s).value) Symbol.all empty hnote

omit [DecidableEq α] [DecidableEq α'] in
theorem handle?_map [DecidableEq σ] (d : Directory σ α) (s : σ) :
    (d.map f).handle? s = (d.handle? s).map (.map f) := by
  rw [handle?, handle?, map, List.find?_map, Option.map_map, Option.map_map]
  rfl

theorem symbol?_map (hf : Function.Injective f) (d : Directory σ α) (h : Handle α) :
    (d.map f).symbol? (h.map f) = d.symbol? h := by
  rw [symbol?, symbol?, map, List.find?_map, Option.map_map]
  simp only [Function.comp_def, Handle.map, Handle.Same, hf.eq_iff]
  rfl

theorem adopt_map (hf : Function.Injective f) (d : Directory σ α) (met : Strangers α) (v : α) :
    (d.map f).adopt (met.map f) (f v) = ((d.adopt met v).1.map f, (d.adopt met v).2.map f) := by
  have hidx : (met.map f).idxOf? (f v) = met.idxOf? v := by
    rw [List.idxOf?, List.idxOf?, List.findIdx?_map]
    simp only [Function.comp_def, hf.beq_eq]
  rw [adopt, adopt, holder?_map hf, hidx]
  cases d.holder? v with
  | some e => rfl
  | none => cases met.idxOf? v <;> simp [map, Handle.map]

theorem adoptList_map (hf : Function.Injective f) (d : Directory σ α) (met : Strangers α)
    (vs : List α) :
    (d.map f).adoptList (met.map f) (vs.map f) =
      ((d.adoptList met vs).1.map (.map f), (d.adoptList met vs).2.map f) := by
  induction vs generalizing met with
  | nil => rfl
  | cons v vs ih =>
    rw [List.map_cons, adoptList, adoptList, adopt_map hf]
    simp only [ih, List.map_cons]

theorem adoptOption_map (hf : Function.Injective f) (d : Directory σ α) (met : Strangers α)
    (v : Option α) :
    (d.map f).adoptOption (met.map f) (v.map f) =
      ((d.adoptOption met v).1.map (.map f), (d.adoptOption met v).2.map f) := by
  cases v with
  | none => rfl
  | some v =>
    rw [Option.map_some, adoptOption, adoptOption, adopt_map hf]
    rfl

end Directory

/-! ## Tables -/

namespace Naming

theorem condition?_map (n : Naming α ρ) (s : Condition) :
    (n.map f g).condition? s = (n.condition? s).map (.map f) :=
  Directory.handle?_map n.conditions s

theorem rarity?_map (n : Naming α ρ) (s : Rarity) :
    (n.map f g).rarity? s = (n.rarity? s).map (.map g) :=
  Directory.handle?_map n.rarities s

theorem bound?_map (n : Naming α ρ) (r : NamedRule) :
    (n.map f g).bound? r = (n.bound? r).map (.map f g) := by
  have hrarity : (n.map f g).rarityHandle? r.rarity = (n.rarityHandle? r.rarity).map (.map g) := by
    rw [rarityHandle?, rarityHandle?, rarity?_map]
    cases r.rarity with
    | none => rfl
    | some s =>
      rw [Option.bind_some, Option.bind_some, rarity?_map]
      cases n.rarity? s <;> rfl
  rw [bound?_eq, bound?_eq, hrarity, Option.map_map, Option.map_map]
  simp only [Function.comp_def, BoundRule.map, Option.map_some, List.map_filterMap, condition?_map]

theorem stopper?_map (n : Naming α ρ) (k : Condition) :
    (n.map f g).stopper? k = (n.stopper? k).map (.map f g) := by
  rw [stopper?, stopper?, condition?_map, rarity?_map, Option.map_map, Option.map_map]
  rfl

end Naming

/-- **Rules bound to renamed handles are the renamed table**, and as many are loaded and skipped. -/
theorem Assembly.value_ofRules_renamed (n : Naming α ρ) (rules : List NamedRule) :
    (ofRules (n.map f g) rules).value = (ofRules n rules).value.map f g := by
  have hbinds : (n.map f g).binds = n.binds := by
    funext r
    rw [Naming.binds, Naming.binds, Naming.bound?_map, Option.isSome_map]
  have hbound : ∀ rs : List NamedRule,
      rs.filterMap (n.map f g).bound? = (rs.filterMap n.bound?).map (.map f g) := by
    intro rs
    rw [List.map_filterMap]
    exact List.filterMap_congr fun r _ => n.bound?_map r
  have hstopper : ∀ k, ((n.map f g).stopper? k).toList = (n.stopper? k).toList.map (.map f g) := by
    intro k
    rw [n.stopper?_map, Option.toList_map]
  have hgroup : group (n.map f g) rules = fun q => (group n rules q).map (.map f g) := by
    funext q
    rw [group, group, hbound, hstopper, List.map_append]
  have hlayout : layout (n.map f g) rules = (layout n rules).map (.map f g) := by
    rw [layout, layout, hgroup, hbound, hstopper, List.map_append, List.map_append,
      List.map_flatMap]
  rw [value_ofRules, value_ofRules, hbinds, hlayout]
  rfl

namespace Naming

variable [DecidableEq α] [DecidableEq α'] [DecidableEq ρ] [DecidableEq ρ']

theorem value_ofCatalog_map (hf : Function.Injective f) (hg : Function.Injective g)
    (c : Catalog α ρ) : (ofCatalog (c.map f g)).value = (ofCatalog c).value.map f g := by
  show Naming.mk (Directory.ofLookup fun s => (c.condition? s).map f).value
    (Directory.ofLookup fun s => (c.rarity? s).map g).value = _
  rw [Directory.value_ofLookup_map hf, Directory.value_ofLookup_map hg]
  rfl

/-- **The renamed rules of the engine are taken over as the rules were.** -/
theorem adopt_map (hf : Function.Injective f) (hg : Function.Injective g) (n : Naming α ρ)
    (natives : List (EngineRule α ρ)) :
    (n.map f g).adopt (natives.map (.map f g)) = (n.adopt natives).map f g := by
  -- by induction for any strangers met so far, since the strangers of one rule are met by the next
  have hrun : ∀ (metConditions : Strangers α) (metRarities : Strangers ρ),
      (n.map f g).adoptRules (metConditions.map f) (metRarities.map g) (natives.map (.map f g)) =
        (n.adoptRules metConditions metRarities natives).map (.map f g) := by
    induction natives with
    | nil => exact fun _ _ => rfl
    | cons r natives ih =>
      intro metConditions metRarities
      have hconditions := Directory.adoptList_map hf n.conditions metConditions r.conditions
      have hrarity := Directory.adoptOption_map hg n.rarities metRarities r.rarity
      rw [List.map_cons, adoptRules, adoptRules]
      simp only [map, EngineRule.map, hconditions, hrarity, List.map_cons]
      exact congrArg _ (ih _ _)
  exact congrArg DropTable.mk (hrun [] [])

/-- **A renamed rule comes back in the same names.** -/
theorem recover_map (hf : Function.Injective f) (hg : Function.Injective g) (n : Naming α ρ)
    (b : BoundRule α ρ) : (n.map f g).recover (b.map f g) = n.recover b := by
  have hconditions : (b.conditions.map (.map f)).filterMap (n.conditions.map f).symbol? =
      b.conditions.filterMap n.conditions.symbol? := by
    rw [List.filterMap_map]
    exact List.filterMap_congr fun h _ => Directory.symbol?_map hf n.conditions h
  have hrarity : (b.rarity.map (.map g)).bind (n.rarities.map g).symbol? =
      b.rarity.bind n.rarities.symbol? := by
    cases b.rarity with
    | none => rfl
    | some h => exact Directory.symbol?_map hg n.rarities h
  simp only [recover, map, BoundRule.map, hconditions, hrarity, List.length_map]

theorem recoverTable_map (hf : Function.Injective f) (hg : Function.Injective g) (n : Naming α ρ)
    (t : DropTable α ρ) : (n.map f g).recoverTable (t.map f g) = n.recoverTable t := by
  funext wholeOnly
  rw [recoverTable, recoverTable, DropTable.map, List.map_map]
  exact congrArg _ (List.map_congr_left fun b _ => recover_map hf hg n b)

end Naming

/-! ## Catalogs that differ by a renaming -/

variable {R : α → α' → Prop} {S : ρ → ρ' → Prop}

/-- The same rule of the engine, in values that stand for one another. -/
structure EngineRule.Renamed (R : α → α' → Prop) (S : ρ → ρ' → Prop) (r : EngineRule α ρ)
    (r' : EngineRule α' ρ') : Prop where
  items : r.items = r'.items
  numerator : r.numerator = r'.numerator
  denominator : r.denominator = r'.denominator
  rarity : Option.Rel S r.rarity r'.rarity
  conditions : List.Forall₂ R r.conditions r'.conditions

/-- The same catalog, in values that stand for one another: a symbol is exposed in both or in
neither, and the rules are the same one by one. -/
structure Catalog.Renamed (R : α → α' → Prop) (S : ρ → ρ' → Prop) (c : Catalog α ρ)
    (c' : Catalog α' ρ') : Prop where
  condition? : ∀ s, Option.Rel R (c.condition? s) (c'.condition? s)
  rarity? : ∀ s, Option.Rel S (c.rarity? s) (c'.rarity? s)
  rules : List.Forall₂ (EngineRule.Renamed R S) c.rules c'.rules

/-- The pairs of values that stand for one another. -/
abbrev Pairs (R : α → α' → Prop) : Type :=
  { p : α × α' // R p.1 p.2 }

/-- The value on the left of a pair. -/
def Pairs.left (p : Pairs R) : α :=
  p.1.1

/-- The value on the right of a pair. -/
def Pairs.right (p : Pairs R) : α' :=
  p.1.2

/-- A value stands on the left of one pair only, if it stands for one value only. -/
theorem Pairs.left_injective (h : Relator.RightUnique R) :
    Function.Injective (left (R := R)) := by
  rintro ⟨⟨a, b⟩, hab⟩ ⟨⟨a', b'⟩, hab'⟩ rfl
  obtain rfl : b = b' := h hab hab'
  rfl

/-- A value stands on the right of one pair only, if one value only stands for it. -/
theorem Pairs.right_injective (h : Relator.LeftUnique R) :
    Function.Injective (right (R := R)) := by
  rintro ⟨⟨a, b⟩, hab⟩ ⟨⟨a', b'⟩, hab'⟩ rfl
  obtain rfl : a = a' := h hab hab'
  rfl

/-- Two values that stand for one another, or none, are the sides of a pair, or of none. -/
theorem Pairs.exists_option {v : Option α} {v' : Option α'} (h : Option.Rel R v v') :
    ∃ p : Option (Pairs R), p.map left = v ∧ p.map right = v' := by
  cases h with
  | none => exact ⟨none, rfl, rfl⟩
  | some h => exact ⟨some ⟨(_, _), h⟩, rfl, rfl⟩

/-- Two lists that are related member by member are images of one list, if this is so of the
members. -/
theorem exists_map_of_forall₂ {β γ δ : Type} {P : β → γ → Prop} {F : δ → β} {G : δ → γ}
    (hP : ∀ b c, P b c → ∃ d, F d = b ∧ G d = c) {bs : List β} {cs : List γ}
    (h : List.Forall₂ P bs cs) : ∃ ds : List δ, ds.map F = bs ∧ ds.map G = cs := by
  induction h with
  | nil => exact ⟨[], rfl, rfl⟩
  | cons hbc _ ih =>
    obtain ⟨d, rfl, rfl⟩ := hP _ _ hbc
    obtain ⟨ds, rfl, rfl⟩ := ih
    exact ⟨d :: ds, rfl, rfl⟩

/-- Two rules that are the same in values that stand for one another are the sides of one rule in
pairs. -/
theorem EngineRule.Renamed.exists_pairs {r : EngineRule α ρ} {r' : EngineRule α' ρ'}
    (h : r.Renamed R S r') : ∃ p : EngineRule (Pairs R) (Pairs S),
      p.map Pairs.left Pairs.left = r ∧ p.map Pairs.right Pairs.right = r' := by
  obtain ⟨items, numerator, denominator, rarity, conditions⟩ := r
  obtain ⟨items', numerator', denominator', rarity', conditions'⟩ := r'
  obtain ⟨rfl, rfl, rfl, hrarity, hconditions⟩ := h
  obtain ⟨p, rfl, rfl⟩ := Pairs.exists_option hrarity
  obtain ⟨ps, rfl, rfl⟩ := exists_map_of_forall₂ (F := Pairs.left) (G := Pairs.right)
    (fun _ _ hab => ⟨⟨(_, _), hab⟩, rfl, rfl⟩) hconditions
  exact ⟨⟨_, _, _, p, ps⟩, rfl, rfl⟩

/-- **Two catalogs that differ by a renaming are the sides of one catalog of pairs.** -/
theorem Catalog.Renamed.exists_pairs {c : Catalog α ρ} {c' : Catalog α' ρ'}
    (h : c.Renamed R S c') : ∃ p : Catalog (Pairs R) (Pairs S),
      p.map Pairs.left Pairs.left = c ∧ p.map Pairs.right Pairs.right = c' := by
  obtain ⟨rules, hrules, hrules'⟩ := exists_map_of_forall₂ (fun _ _ => EngineRule.Renamed.exists_pairs)
    h.rules
  choose condition? hcondition using fun s => Pairs.exists_option (h.condition? s)
  choose rarity? hrarity using fun s => Pairs.exists_option (h.rarity? s)
  refine ⟨⟨condition?, rarity?, rules⟩, ?_, ?_⟩
  · simp only [Catalog.map, fun s => (hcondition s).1, fun s => (hrarity s).1, hrules]
  · simp only [Catalog.map, fun s => (hcondition s).2, fun s => (hrarity s).2, hrules']

/-! ## What can be told of a catalog -/

/-- All that is told of a catalog to somebody who cannot look into its values. -/
structure View where
  /-- The number of handles of conditions. -/
  conditions : Nat
  /-- The number of handles of rarities. -/
  rarities : Nat
  /-- The number of the handle of a condition, and the symbol that the handle leads back to. -/
  condition? : Condition → Option (HandleId × Option Condition)
  /-- The number of the handle of a rarity, and the symbol that the handle leads back to. -/
  rarity? : Rarity → Option (HandleId × Option Rarity)
  /-- The engine's own rules, with the numbers of their handles. -/
  engineTable : DropTable Unit Unit
  /-- The engine's own rules in names, all of them or only those that came back whole. -/
  recovered : Bool → List RecoveredRule
  tally : Tally
  /-- The listing of the engine's own rules, where items have display names. -/
  listing : ItemNames → String
  /-- What is assembled from named rules, with the numbers of their handles. -/
  assembly : List NamedRule → Assembly Unit Unit
  /-- What is assembled from named rules, read back into names. -/
  reread : List NamedRule → Bool → List RecoveredRule

/-- What is shown of every value. -/
def hide {β : Type} (_ : β) : Unit :=
  ()

/-- A renamed table shows the same if its values are hidden. -/
theorem DropTable.map_hide (t : DropTable α ρ) : (t.map f g).map hide hide = t.map hide hide := by
  have hrule : ∀ b : BoundRule α ρ, (b.map f g).map hide hide = b.map hide hide := by
    intro b
    simp only [BoundRule.map, Option.map_map, List.map_map]
    rfl
  rw [map, map, List.map_map]
  exact congrArg DropTable.mk (List.map_congr_left fun b _ => hrule b)

variable [DecidableEq α] [DecidableEq α'] [DecidableEq ρ] [DecidableEq ρ']

/-- What can be told under a naming, where the engine has rules of its own. -/
def Naming.view (n : Naming α ρ) (natives : List (EngineRule α ρ)) : View where
  conditions := n.conditions.size
  rarities := n.rarities.size
  condition? s := (n.condition? s).map fun h => (h.id, n.conditions.symbol? h)
  rarity? s := (n.rarity? s).map fun h => (h.id, n.rarities.symbol? h)
  engineTable := (n.adopt natives).map hide hide
  recovered := n.recoverTable (n.adopt natives)
  tally := n.tally (n.adopt natives)
  listing := Listing.text (n.recoverTable (n.adopt natives) true) (n.tally (n.adopt natives))
  assembly rules := (Assembly.ofRules n rules).value.map hide hide
  reread rules := n.recoverTable (Assembly.ofRules n rules).value.table

/-- What can be told of a catalog. -/
def Catalog.view (c : Catalog α ρ) : View :=
  (Naming.ofCatalog c).value.view c.rules

/-- Under a renamed naming the same can be told. -/
theorem Naming.view_map (hf : Function.Injective f) (hg : Function.Injective g) (n : Naming α ρ)
    (natives : List (EngineRule α ρ)) :
    (n.map f g).view (natives.map (.map f g)) = n.view natives := by
  have hcondition : ∀ h, (n.map f g).conditions.symbol? (h.map f) = n.conditions.symbol? h :=
    Directory.symbol?_map hf n.conditions
  have hrarity : ∀ h, (n.map f g).rarities.symbol? (h.map g) = n.rarities.symbol? h :=
    Directory.symbol?_map hg n.rarities
  simp only [view, tally, adopt_map hf hg, condition?_map, rarity?_map, Option.map_map,
    Function.comp_def, hcondition, hrarity, recoverTable_map hf hg, Assembly.value_ofRules_renamed,
    Assembly.map, DropTable.map_hide]
  rfl

/-- **Renaming values changes nothing that can be told**, as long as no two of them become one. -/
theorem Catalog.view_map (hf : Function.Injective f) (hg : Function.Injective g)
    (c : Catalog α ρ) : (c.map f g).view = c.view := by
  rw [view, view, Naming.value_ofCatalog_map hf hg]
  exact Naming.view_map hf hg _ _

/-- **Values are told apart and nothing else.**  If the values of two engines stand for one another,
one to one, and if the engines expose them for the same symbols and use them in the same rules, then
the same can be told of both. -/
theorem Catalog.view_eq_of_renamed (hR : Relator.BiUnique R) (hS : Relator.BiUnique S)
    (c : Catalog α ρ) (c' : Catalog α' ρ') (h : c.Renamed R S c') : c.view = c'.view := by
  obtain ⟨p, rfl, rfl⟩ := h.exists_pairs
  rw [view_map (Pairs.left_injective hR.2) (Pairs.left_injective hS.2),
    view_map (Pairs.right_injective hR.1) (Pairs.right_injective hS.1)]

/-- The values of the second engine all look alike, it exposes its symbols in another order, and its
rule has a stranger among the conditions as the rule of the first engine has. -/
theorem Catalog.view_eq_of_renamed_look_alikes :
    let R : Nat → Nat × String → Prop := fun v v' => v + v'.1 = 9 ∧ v'.2 = "tile"
    let S : Nat → Nat → Prop := fun v v' => v' = v + 5
    let c : Catalog Nat Nat :=
      ((((Catalog.empty.exposeCondition .inLava 3).exposeCondition .jungle 6).exposeCondition .ocean 6
        ).exposeRarity .any 0).addRule ⟨[2], 1, 4, some 2, [6, 7, 3]⟩
    let c' : Catalog (Nat × String) Nat :=
      ((((Catalog.empty.exposeCondition .ocean (3, "tile")).exposeCondition .jungle (3, "tile")
        ).exposeCondition .inLava (6, "tile")).exposeRarity .any 5).addRule
          ⟨[2], 1, 4, some 7, [(3, "tile"), (2, "tile"), (6, "tile")]⟩
    Relator.BiUnique R ∧ Relator.BiUnique S ∧ c.Renamed R S c' ∧ c.view = c'.view := by
  intro R S c c'
  have hR : Relator.BiUnique R := by
    refine ⟨fun v w v' h h' => ?_, fun v v' w' h h' => ?_⟩
    · have hv : v + v'.1 = 9 := h.1
      have hw : w + v'.1 = 9 := h'.1
      omega
    · have hv : v + v'.1 = 9 := h.1
      have hw : v + w'.1 = 9 := h'.1
      exact Prod.ext (by omega) (h.2.trans h'.2.symm)
  have hS : Relator.BiUnique S :=
    ⟨fun v w v' h h' => Nat.add_right_cancel (h.symm.trans h'), fun v v' w' h h' => h.trans h'.symm⟩
  have h : c.Renamed R S c' := by
    refine ⟨fun s => ?_, fun s => ?_, ?_⟩
    · cases s <;> first | exact .none | exact .some ⟨rfl, rfl⟩
    · cases s <;> first | exact .none | exact .some rfl
    · exact .cons ⟨rfl, rfl, rfl, .some rfl,
        .cons ⟨rfl, rfl⟩ (.cons ⟨rfl, rfl⟩ (.cons ⟨rfl, rfl⟩ .nil))⟩ .nil
  exact ⟨hR, hS, h, view_eq_of_renamed hR hS c c' h⟩

end DropRules
