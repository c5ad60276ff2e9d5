import DropRules.Proofs.Coherence
import DropRules.Proofs.Reimport
import DropRules.Proofs.Tally

/-!
# Handles from elsewhere

A number is only meaningful to the directory that gave it out, and the numbers of two directories
overlap: each begins at zero, and a value that is missing or shared in one of them shifts those behind
it.  Equality of handles is no help by itself, since it does not look at numbers.  So a directory that
is handed a handle must ask two questions, whether it has a handle of that number, and whether that one
holds the same value.

## 1.  The directory's own handles

Listed without repetition, in the order of the entries, a directory's own handles stand at the
places that are their numbers (`Directory.Numbers.map_toNat_id_handles`).  A directory knows a handle if the one
at the place of its number holds the same value (`Directory.Knows`), and nothing is asked of where the
handle comes from.

## 2.  The way back

The way back looks for an entry with the number and the value of the handle.  It finds one exactly if
the directory knows the handle, and then the handle is one of the directory's own
(`Directory.reads_ofLookup`).  So a rule of another table, bound or taken over under another naming, is
read in the names of the handles that are known here, and the others are counted
(`Naming.recover_elsewhere_exact`).
-/

namespace DropRules

/-- Where handles are numbered by their places, the place is the number. -/
theorem Handle.toNat_id_getElem {α : Type} {handles : List (Handle α)} {n : Nat}
    (hnumbers : handles.map (·.id.toNat) = List.range n) {i : Nat} (hi : i < handles.length) :
    handles[i].id.toNat = i := by
  have hget := List.getElem_of_eq hnumbers (i := i) (by rwa [List.length_map])
  rwa [List.getElem_map, List.getElem_range] at hget

namespace Directory

variable {σ α : Type} [DecidableEq α]

/-- The handles of a directory, each once, in the order of the entries. -/
def handles (d : Directory σ α) : List (Handle α) :=
  (d.entries.map (·.2)).eraseDups

/-- A directory knows a handle if its own handle of that number holds the same value. -/
def Knows (d : Directory σ α) (h : Handle α) : Prop :=
  ∃ hi : h.id.toNat < d.handles.length, d.handles[h.id.toNat].Same h

instance (d : Directory σ α) (h : Handle α) : Decidable (d.Knows h) :=
  inferInstanceAs (Decidable (∃ _ : _, _))

/-- The first symbol that a value is exposed for. -/
def firstSymbol? [Symbol σ] (lookup : σ → Option α) (v : α) : Option σ :=
  (Symbol.all : List σ).find? fun s => lookup s = some v

variable {d : Directory σ α}

/-- The handle in an entry is one of the directory's own. -/
theorem mem_handles {h : Handle α} : h ∈ d.handles ↔ ∃ s, (s, h) ∈ d.entries := by
  rw [handles, List.mem_eraseDups, List.mem_map]
  exact ⟨fun ⟨e, he, heq⟩ => ⟨e.1, heq ▸ he⟩, fun ⟨s, hs⟩ => ⟨(s, h), hs, rfl⟩⟩

/-- The handle of a symbol is one of the directory's own. -/
theorem mem_handles_of_handle? [DecidableEq σ] {s : σ} {h : Handle α} (hs : d.handle? s = some h) :
    h ∈ d.handles :=
  mem_handles.mpr ⟨s, mem_entries_of_handle? hs⟩

/-- The directory's own handles hold the different values, in the order in which they first appear. -/
theorem Numbers.handles_eq {values : List α} (hd : d.Numbers values) :
    d.handles = values.eraseDups.map (.among values) := by
  rw [Directory.handles, hd.handles]
  exact eraseDups_map fun v _ w _ hvw => congrArg Handle.value hvw

/-- **The directory's own handles are numbered by their places.** -/
theorem Numbers.map_toNat_id_handles {values : List α} (hd : d.Numbers values)
    (hsize : values.eraseDups.length ≤ UInt32.size) :
    d.handles.map (·.id.toNat) = List.range d.size := by
  rw [hd.handles_eq, List.map_map, hd.size, ← Handle.map_toNat_id_among hsize]
  rfl

/-- A directory whose handles are numbered by their places knows these, and no others. -/
theorem knows_iff_mem (hnumbers : d.handles.map (·.id.toNat) = List.range d.size) {h : Handle α} :
    d.Knows h ↔ h ∈ d.handles := by
  constructor
  · rintro ⟨hi, hsame⟩
    have hid := HandleId.toNat_inj.mp (Handle.toNat_id_getElem hnumbers hi)
    rw [← Handle.eq_iff.mpr ⟨hid, hsame⟩]
    exact List.getElem_mem hi
  · intro hmem
    obtain ⟨i, hi, rfl⟩ := List.getElem_of_mem hmem
    have hplace := Handle.toNat_id_getElem hnumbers hi
    refine ⟨by rwa [hplace], ?_⟩
    simp only [hplace]
    exact rfl

/-! ## The way back -/

/-- How a directory reads handles, wherever they come from. -/
structure Reads [Symbol σ] [DecidableEq σ] (lookup : σ → Option α) (d : Directory σ α) : Prop where
  /-- The directory's own handles are numbered by their places. -/
  numbers : d.handles.map (·.id.toNat) = List.range d.size
  /-- They hold the different values that are exposed, in the order of the symbols. -/
  values : d.handles.map (·.value) = (exposedValues lookup).eraseDups
  /-- A handle has a symbol exactly if the directory has a handle of its number, and that holds the
  same value. -/
  isSome_symbol? : ∀ h, (d.symbol? h).isSome ↔
    ∃ hi : h.id.toNat < d.handles.length, d.handles[h.id.toNat].Same h
  /-- Its symbol is then the first one that the value is exposed for, and has this very handle. -/
  symbol : ∀ h s, d.symbol? h = some s → firstSymbol? lookup h.value = some s ∧ d.handle? s = some h

variable [Symbol σ] [Symbol.Listed σ] [DecidableEq σ] {lookup : σ → Option α}

/-- The handles of the symbols are the directory's own. -/
theorem Mirrors.exists_handle?_iff (hd : d.Mirrors lookup Symbol.all) {h : Handle α} :
    (∃ s, d.handle? s = some h) ↔ h ∈ d.handles := by
  rw [mem_handles]
  exact exists_congr fun s => hd.handle?_eq_some_iff

/-- **A directory made from what is exposed reads the handles that it knows**, if numbers do not run
out before symbols do. -/
theorem reads_ofLookup (hall : (Symbol.all : List σ).length ≤ UInt32.size)
    (lookup : σ → Option α) : (ofLookup lookup).value.Reads lookup := by
  have hd := mirrors_ofLookup lookup
  have hplaces := numbers_ofLookup lookup
  generalize (ofLookup lookup).value = d at hd hplaces
  have hnumbers := hplaces.map_toNat_id_handles
    (Nat.le_trans (length_exposedValues_le lookup) hall)
  refine ⟨hnumbers, ?_, fun h => ?_, fun h s hs => ?_⟩
  · rw [hplaces.handles_eq, List.map_map]
    exact List.map_id _
  · refine Iff.trans ?_ (knows_iff_mem hnumbers).symm
    rw [← hd.exists_handle?_iff]
    constructor
    · intro hsome
      obtain ⟨s, hs⟩ := Option.isSome_iff_exists.mp hsome
      exact ⟨s, hd.handle?_of_symbol? hs⟩
    · rintro ⟨s, hs⟩
      exact hd.isSome_symbol?_of_handle? hs
  · have hback := hd.handle?_of_symbol? hs
    refine ⟨?_, hback⟩
    rw [firstSymbol?, ← hs, hd.symbol?_of_handle? hplaces hback, hd.exposed_of_handle? hback]

omit [Symbol.Listed σ]

/-- A handle that is known leads back to the first symbol that its value is exposed for. -/
theorem Reads.symbol?_of_knows (hd : d.Reads lookup) {h : Handle α} (hknown : d.Knows h) :
    ∃ s, d.symbol? h = some s ∧ firstSymbol? lookup h.value = some s := by
  obtain ⟨s, hs⟩ := Option.isSome_iff_exists.mp ((hd.isSome_symbol? h).mpr hknown)
  exact ⟨s, hs, (hd.symbol h s hs).1⟩

/-- A handle that is not known has no symbol. -/
theorem Reads.symbol?_of_not_knows (hd : d.Reads lookup) {h : Handle α} (hunknown : ¬ d.Knows h) :
    d.symbol? h = none :=
  Option.not_isSome_iff_eq_none.mp (mt (hd.isSome_symbol? h).mp hunknown)

/-- The symbols that handles lead back to are those of the handles that are known. -/
theorem Reads.map_some_filterMap_symbol? (hd : d.Reads lookup) (gs : List (Handle α)) :
    (gs.filterMap d.symbol?).map some =
      (gs.filter d.Knows).map fun g => firstSymbol? lookup g.value := by
  induction gs with
  | nil => rfl
  | cons g gs ih =>
    by_cases hg : d.Knows g
    · obtain ⟨s, hs, hfirst⟩ := hd.symbol?_of_knows hg
      rw [List.filterMap_cons_some hs, List.filter_cons_of_pos (by simpa using hg), List.map_cons,
        List.map_cons, ih, hfirst]
    · rw [List.filterMap_cons_none (hd.symbol?_of_not_knows hg), ih,
        List.filter_cons_of_neg (by simpa using hg)]

/-- The symbol of a handle that may be absent. -/
theorem Reads.bind_symbol? (hd : d.Reads lookup) (g : Option (Handle α)) :
    g.bind d.symbol? = (g.filter d.Knows).bind fun g => firstSymbol? lookup g.value := by
  cases g with
  | none => rfl
  | some g =>
    rw [Option.bind_some]
    by_cases hg : d.Knows g
    · obtain ⟨s, hs, hfirst⟩ := hd.symbol?_of_knows hg
      rw [hs, Option.filter_some_pos (by simpa using hg), Option.bind_some, hfirst]
    · rw [hd.symbol?_of_not_knows hg, Option.filter_some_neg (by simpa using hg), Option.bind_none]

/-- **A handle that bears the number of another one is not taken for it**, but has a symbol exactly if
the two hold the same value. -/
theorem Reads.isSome_symbol?_of_id_eq (hd : d.Reads lookup) {s : σ} {g h : Handle α}
    (hg : d.handle? s = some g) (hid : g.id = h.id) : (d.symbol? h).isSome ↔ g.Same h := by
  obtain ⟨hi, hsame⟩ := (knows_iff_mem hd.numbers).mpr (mem_handles_of_handle? hg)
  rw [hd.isSome_symbol? h, ← hid]
  exact ⟨fun ⟨_, hsame'⟩ => hsame.symm.trans hsame', fun hsame' => ⟨hi, hsame.trans hsame'⟩⟩

/-- Of two directories, the first takes a handle of the second for one of its own of that number exactly
if the symbols of the two share their value. -/
theorem Reads.isSome_symbol?_elsewhere [Symbol.Listed σ] {lookup' : σ → Option α}
    {d' : Directory σ α} (hd : d.Reads lookup) (hm : d.Mirrors lookup Symbol.all)
    (hm' : d'.Mirrors lookup' Symbol.all) {s t : σ} {g h : Handle α} (hg : d.handle? s = some g)
    (hh : d'.handle? t = some h) (hid : g.id = h.id) :
    (d.symbol? h).isSome ↔ lookup s = lookup' t := by
  rw [hd.isSome_symbol?_of_id_eq hg hid, hm.exposed_of_handle? hg, hm'.exposed_of_handle? hh,
    Option.some.injEq]
  rfl

end Directory

/-! ## Rules from elsewhere -/

namespace Naming

variable {α ρ : Type} [DecidableEq α] [DecidableEq ρ]

/-- How a rule is read, wherever it comes from. -/
structure ReadsRule (c : Catalog α ρ) (n : Naming α ρ) (b : BoundRule α ρ) : Prop where
  /-- The names that come back are, in order, those of the handles that are known. -/
  conditions : (n.recover b).conditions.map some =
    (b.conditions.filter n.conditions.Knows).map fun g =>
      Directory.firstSymbol? c.condition? g.value
  /-- The other handles are counted. -/
  unnamed : (n.recover b).unnamed = b.conditions.countP fun g => ¬ n.conditions.Knows g
  /-- A rarity comes back if its handle is known. -/
  rarity : (n.recover b).rarity =
    (b.rarity.filter n.rarities.Knows).bind fun g => Directory.firstSymbol? c.rarity? g.value

/-- A rule is read by the handles that are known. -/
theorem readsRule {n : Naming α ρ} {c : Catalog α ρ} (hconditions : n.conditions.Reads c.condition?)
    (hrarities : n.rarities.Reads c.rarity?) (b : BoundRule α ρ) : n.ReadsRule c b := by
  have hnames := hconditions.map_some_filterMap_symbol? b.conditions
  refine ⟨hnames, ?_, hrarities.bind_symbol? b.rarity⟩
  have hnamed := congrArg List.length hnames
  rw [List.length_map, List.length_map, ← List.countP_eq_length_filter] at hnamed
  have hall := n.length_recover b
  have hsplit := List.length_eq_countP_add_countP (fun g => decide (n.conditions.Knows g))
    (l := b.conditions)
  simp only [decide_eq_true_eq] at hsplit
  have hsame : (n.recover b).conditions.length =
      b.conditions.countP fun g => n.conditions.Knows g := hnamed
  omega

/-- **A handle from elsewhere is never misnamed.**  Let names be given to what an engine exposes.  The
naming's own handles, of conditions and of rarities, are numbered by their places and hold the different
values exposed.  A handle, whoever gave it its number, leads back to a symbol exactly if the naming has a
handle of that number and it holds the same value; the symbol is then the first one that the value is
exposed for, and the handle is that of the symbol.

So a rule of any table, assembled or taken over under this naming or under another, is read in the names
of those of its handles that are known, in their order, the other conditions are counted, and a rarity
comes back only if it is known.  In particular, of two handles that one engine and another have for some
symbols of theirs, and that have the same number, the second has a name under the first engine exactly
if the two engines expose the same value for these symbols. -/
theorem recover_elsewhere_exact (a b : Catalog α ρ) :
    let n := (ofCatalog a).value
    let m := (ofCatalog b).value
    n.conditions.Reads a.condition? ∧ n.rarities.Reads a.rarity? ∧
      (∀ r : BoundRule α ρ, n.ReadsRule a r) ∧
      (∀ s t g h, n.condition? s = some g → m.condition? t = some h → g.id = h.id →
        ((n.conditions.symbol? h).isSome ↔ a.condition? s = b.condition? t)) ∧
      ∀ s t g h, n.rarity? s = some g → m.rarity? t = some h → g.id = h.id →
        ((n.rarities.symbol? h).isSome ↔ a.rarity? s = b.rarity? t) := by
  intro n m
  have hconditions : n.conditions.Reads a.condition? := Directory.reads_ofLookup (by decide) _
  have hrarities : n.rarities.Reads a.rarity? := Directory.reads_ofLookup (by decide) _
  have hn : n.Mirrors a := mirrors_ofCatalog a
  have hm : m.Mirrors b := mirrors_ofCatalog b
  refine ⟨hconditions, hrarities, readsRule hconditions hrarities, ?_, ?_⟩
  · intro s t g h hg hh hid
    exact hconditions.isSome_symbol?_elsewhere hn.conditions hm.conditions hg hh hid
  · intro s t g h hg hh hid
    exact hrarities.isSome_symbol?_elsewhere hn.rarities hm.rarities hg hh hid

/-- The second engine does not expose the lava, so the numbers of the jungle and of what comes behind it
are lower there.  A rule of that engine is taken over, and read under the first one: the value that both
number alike is named, and neither the jungle, which bears the number of the lava, nor the stranger,
which bears that of the jungle, is taken for what it is not. -/
theorem recover_elsewhere_exact_without_lava :
    let a : Catalog Nat Nat :=
      (((Catalog.empty.exposeCondition .hardMode 9).exposeCondition .inLava 3).exposeCondition
        .jungle 6).exposeRarity .common 1
    let b : Catalog Nat Nat :=
      ((Catalog.empty.exposeCondition .hardMode 9).exposeCondition .jungle 6).exposeRarity .common 2
    let n := (ofCatalog a).value
    let m := (ofCatalog b).value
    let g : Handle Nat := ⟨.ofNat 1, 3⟩
    let h : Handle Nat := ⟨.ofNat 1, 6⟩
    let r : BoundRule Nat Nat :=
      ⟨[7], 1, 1, some ⟨.ofNat 0, 2⟩, [⟨.ofNat 0, 9⟩, h, ⟨.ofNat 2, 77⟩]⟩
    n.condition? .inLava = some g ∧ m.condition? .jungle = some h ∧ g.id = h.id ∧
      ¬ (n.conditions.symbol? h).isSome ∧ (m.adopt [⟨[7], 1, 1, some 2, [9, 6, 77]⟩]).rules = [r] ∧
      (n.recover r).conditions.map some = [some .hardMode] ∧ (n.recover r).unnamed = 2 ∧
      (n.recover r).rarity = none := by
  intro a b n m g h r
  have hg : n.condition? .inLava = some g := by decide +kernel
  have hh : m.condition? .jungle = some h := by decide +kernel
  obtain ⟨-, -, hrule, hother, -⟩ := recover_elsewhere_exact a b
  refine ⟨hg, hh, rfl, ?_, by decide +kernel, ?_, ?_, ?_⟩
  · rw [hother .inLava .jungle g h hg hh rfl]
    decide +kernel
  · rw [(hrule r).conditions]
    decide +kernel
  · rw [(hrule r).unnamed]
    decide +kernel
  · rw [(hrule r).rarity]
    decide +kernel

end Naming

end DropRules
