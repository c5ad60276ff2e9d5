import DropRules.Proofs.Session
import DropRules.Proofs.Tally
import Mathlib.Data.List.Dedup

/-!
# The engine's own rules as a person's own

The listing of the engine's own rules is a text that a person can take as a start and load again.
Here it is told what comes of that, at any time in a session.

## 1.  That something is published

The listing is a list of rules to whoever reads it: those that came back whole, in names.  So the
step that takes it over cannot fail, and publishes what settings with these rules publish.

## 2.  The account

Every rule that came back whole is loaded or skipped.  A rule can only be skipped for the want of a
rarity, since the names of conditions that come back have handles.  A rarity that came back has a
handle too, so what may be missing is the rarity of every roll, for which the fallback stands in
(`Naming.Mirrors.binds_recover`).  Besides the rules loaded, the table holds the barriers, and these
can be counted by the names (`Assembly.length_ofRules`).

No step but the last sees the text.  What is said of it in `Session.takeover_exact` is put together
from what is known of the listing, of the session and of the tables.
-/

namespace DropRules

variable {α ρ κ : Type}

/-- There are as many regions that occur as there are different regions among those of the rules. -/
theorem Region.length_present (rules : List NamedRule) :
    (present rules).length = (rules.filterMap NamedRule.region?).dedup.length := by
  have hall : all.Nodup := by decide
  have hpresent : (present rules).Nodup := hall.filter _
  refine ((List.perm_ext_iff_of_nodup hpresent (List.nodup_dedup _)).mpr fun q => ?_).length_eq
  rw [List.mem_dedup, List.mem_filterMap, present, List.mem_filter, occurs, List.any_eq_true]
  simp only [mem_all, true_and, decide_eq_true_iff]

/-! ## Settings that list rules -/

theorem Publication.value_ofSettings (n : Naming α ρ) (s : Settings) :
    (ofSettings n s).value =
      (ofAssembly (Assembly.ofSettings n s).value s, (Assembly.ofSettings n s).value.summary) := by
  rw [ofSettings, Logged.value_bind]
  split <;> rfl

/-- Settings that list named rules have these rules assembled, if there are any. -/
theorem Assembly.value_ofSettings_ofRule (n : Naming α ρ) (own engine : Bool)
    (rules : List NamedRule) :
    (Assembly.ofSettings n ⟨own, engine, rules.map Entry.ofRule⟩).value =
      if rules.isEmpty then .empty else (ofRules n rules).value := by
  have hrules : (Settings.namedRules ⟨own, engine, rules.map Entry.ofRule⟩).value = rules := by
    rw [Settings.namedRules, Logged.value_mapM, List.map_map]
    exact (List.map_congr_left fun r _ => Entry.value_toNamed_ofRule r).trans (List.map_id _)
  rw [Assembly.ofSettings, List.isEmpty_map]
  split
  · rfl
  · rw [Logged.value_bind, hrules]

/-! ## The account -/

/-- Every rule is loaded or skipped. -/
theorem Assembly.loaded_add_skipped (n : Naming α ρ) (rules : List NamedRule) :
    (ofRules n rules).value.loaded + (ofRules n rules).value.skipped = rules.length := by
  rw [value_ofRules, List.length_eq_countP_add_countP n.binds]
  simp

/-- A table of rules whose conditions all have handles holds the rules loaded, the barrier against
enemies if that condition has a handle, and one barrier for each region of a rule. -/
theorem Assembly.length_ofRules {n : Naming α ρ} {rules : List NamedRule}
    (hresolves : ∀ r ∈ rules, ∀ k ∈ r.conditions, (n.condition? k).isSome) :
    (ofRules n rules).value.table.length =
      (ofRules n rules).value.loaded + (if (n.condition? .anyEnemies).isSome then 1 else 0)
        + (rules.filterMap NamedRule.region?).dedup.length := by
  rw [value_ofRules, DropTable.length, length_layout, length_stoppers hresolves,
    Region.length_present, Nat.add_assoc]

/-! ## Recovered rules -/

variable [DecidableEq α] [DecidableEq ρ]

namespace Naming

variable {n : Naming α ρ} {c : Catalog α ρ} {b : BoundRule α ρ}

/-- What is recovered from a table comes from its rules. -/
theorem exists_of_mem_recoverTable {t : DropTable α ρ} {wholeOnly : Bool} {r : RecoveredRule}
    (hr : r ∈ n.recoverTable t wholeOnly) : ∃ b, n.recover b = r := by
  obtain ⟨b, -, hb⟩ := List.mem_map.mp (List.mem_filter.mp hr).1
  exact ⟨b, hb⟩

/-- **A recovered rule can be bound** if the rarity of every roll or the fallback has a handle. -/
theorem Mirrors.binds_recover (hn : n.Mirrors c)
    (h : (n.rarity? .any).isSome ∨ (n.rarity? .fallback).isSome) :
    n.binds (n.recover b).toNamed := by
  have hnone : (n.rarityHandle? (some .any)).isSome := by
    rw [rarityHandle?, Option.bind_some, Option.isSome_or, Bool.or_eq_true]
    exact h
  rw [binds, bound?_eq, Option.isSome_map]
  show (n.rarityHandle? (some ((b.rarity.bind n.rarities.symbol?).getD .any))).isSome
  cases hrarity : b.rarity.bind n.rarities.symbol? with
  | none => exact hnone
  | some s =>
    obtain ⟨g, -, hg⟩ := Option.bind_eq_some_iff.mp hrarity
    rw [Option.getD_some, hn.rarityHandle?_of_symbol? hg, Option.isSome_some]

end Naming

/-- **The account of settings that list what was recovered whole from a table.**  Every rule is
loaded or skipped; none is skipped if the rarity of every roll or the fallback has a handle; and what
is published, unless there is no rule, are the rules loaded, the barrier against enemies if that
condition has a handle, and a barrier for each region of a rule. -/
theorem Assembly.summary_recovered {n : Naming α ρ} {c : Catalog α ρ} (hn : n.Mirrors c)
    (t : DropTable α ρ) (own engine : Bool) :
    let whole := n.recoverTable t true
    let summary := (Assembly.ofSettings n
      ⟨own, engine, (whole.map RecoveredRule.toNamed).map Entry.ofRule⟩).value.summary
    summary.loaded + summary.skipped = whole.length ∧
      ((n.rarity? .any).isSome ∨ (n.rarity? .fallback).isSome → summary.skipped = 0) ∧
      summary.published =
        if whole.isEmpty then 0
        else summary.loaded + (if (n.condition? .anyEnemies).isSome then 1 else 0)
          + (whole.filterMap fun r => Region.ofConditions? r.conditions).dedup.length := by
  intro whole summary
  have hrecovered : ∀ r ∈ whole.map RecoveredRule.toNamed, ∃ b, (n.recover b).toNamed = r := by
    intro r hr
    obtain ⟨r', hr', rfl⟩ := List.mem_map.mp hr
    obtain ⟨b, rfl⟩ := Naming.exists_of_mem_recoverTable hr'
    exact ⟨b, rfl⟩
  have hsummary : summary = (if whole.isEmpty then .empty
      else (ofRules n (whole.map RecoveredRule.toNamed)).value).summary := by
    show (Assembly.ofSettings n _).value.summary = _
    rw [value_ofSettings_ofRule, List.isEmpty_map]
  -- settings without rules are a case apart: they publish no table, not even its first barrier
  cases hempty : whole.isEmpty with
  | true =>
    rw [hsummary, hempty, List.isEmpty_iff.mp hempty]
    exact ⟨rfl, fun _ => rfl, rfl⟩
  | false =>
    rw [hsummary, hempty]
    refine ⟨?_, fun hrarity => ?_, ?_⟩
    · exact (loaded_add_skipped n _).trans (List.length_map _)
    · show (ofRules n (whole.map RecoveredRule.toNamed)).value.skipped = 0
      rw [value_ofRules, List.countP_eq_zero]
      intro r hr
      obtain ⟨b, rfl⟩ := hrecovered r hr
      simp [hn.binds_recover hrarity]
    · have hresolves : ∀ r ∈ whole.map RecoveredRule.toNamed, ∀ k ∈ r.conditions,
          (n.condition? k).isSome := by
        intro r hr
        obtain ⟨b, rfl⟩ := hrecovered r hr
        exact hn.isSome_condition?_of_recover
      refine (length_ofRules hresolves).trans ?_
      rw [List.filterMap_map]
      rfl

namespace Session

/-- **The engine's own rules can always be taken over**, whatever happened in the session before.
Their listing is read as a list of rules, and what is published is what settings with the rules that
came back whole publish.  These rules are loaded or skipped, and none is skipped if the rarity of
every roll or the common one has a handle.  If there is one, the table holds the rules loaded, the
barrier against enemies if that condition has a handle, and a barrier for each region of a rule. -/
theorem takeover_exact (e : Engine α ρ κ) (s : Settings) (steps : List (Step κ)) :
    let w := (opened e s).value.after steps
    let d := w.dispatcher
    let whole := d.recovered true
    ∃ rules, (RuleList.ofText (d.listing .unknown)).value = .ok rules ∧
      let published := (d.reload ⟨true, true, rules.map Entry.ofRule⟩).value
      let summary := published.2
      (w.step .reloadListing).value = (w.under published.1, .published summary) ∧
      published = (d.reload ⟨true, true, (whole.map RecoveredRule.toNamed).map Entry.ofRule⟩).value ∧
      summary.loaded + summary.skipped = d.tally.whole ∧
      ((d.naming.rarity? .any).isSome ∨ (d.naming.rarity? .common).isSome → summary.skipped = 0) ∧
      summary.published =
        if whole.isEmpty then 0
        else summary.loaded + (if (d.naming.condition? .anyEnemies).isSome then 1 else 0)
          + (whole.filterMap fun r => Region.ofConditions? r.conditions).dedup.length := by
  intro w d whole
  have hd : d = (Dispatcher.opened e (lastSettings e s steps)).value := dispatcher_after rfl steps
  have hn : d.naming.Mirrors e.catalog := by
    rw [hd]
    exact Naming.mirrors_ofCatalog e.catalog
  have hparse : (RuleList.ofText (d.listing .unknown)).value =
      .ok (whole.map RecoveredRule.toNamed) :=
    Listing.value_ofText_of_shown d.tally (ItemNames.unbroken_unknown _)
      (ItemNames.allowed_unknown _)
  have hlisted : d.listed = ⟨true, true, (whole.map RecoveredRule.toNamed).map Entry.ofRule⟩ := by
    rw [List.map_map]
    rfl
  have htally : d.tally.whole = whole.length := Naming.whole_tally d.naming d.engineTable
  refine ⟨_, hparse, ?_⟩
  intro published summary
  have hsummary : summary = (Assembly.ofSettings d.naming
      ⟨true, true, (whole.map RecoveredRule.toNamed).map Entry.ofRule⟩).value.summary :=
    congrArg Prod.snd (Publication.value_ofSettings d.naming _)
  refine ⟨?_, rfl, ?_⟩
  · rw [value_step_reloadListing, Dispatcher.value_reloadListing, hlisted]
    rfl
  · rw [htally, hsummary]
    exact Assembly.summary_recovered hn d.engineTable true true

/-- Of three rules of an engine, two come back whole, and one of these belongs to the lava.  They are
taken over after a reload that left the own table empty, and two barriers with them. -/
theorem takeover_exact_lava :
    let catalog : Catalog Nat Nat :=
      ((((((Catalog.empty.exposeCondition .anyEnemies 4).exposeCondition .inLava 3
        ).exposeCondition .jungle 6).exposeRarity .any 0).addRule ⟨[7], 1, 1, none, [6]⟩
        ).addRule ⟨[8], 1, 2, some 9, [6, 3]⟩).addRule ⟨[9], 1, 1, some 0, [77]⟩
    let e : Engine Nat Nat Nat := ⟨catalog, fun t held => t.firstDrop (· == held) fun _ => true⟩
    let w := (opened e .standard).value.after [.reload ⟨false, false, []⟩]
    (w.dispatcher.naming.rarity? .any).isSome ∧ w.dispatcher.tally.whole = 2 ∧
      (w.step .reloadListing).value.2 = .published ⟨2, 0, 4⟩ := by
  intro catalog e w
  have hsummary : ∀ s : Summary, s.loaded = 2 → s.skipped = 0 → s.published = 4 → s = ⟨2, 0, 4⟩ := by
    rintro ⟨_, _, _⟩ rfl rfl rfl
    rfl
  obtain ⟨rules, -, hstep, -, hcount, hskipped, hpublished⟩ :=
    takeover_exact e .standard [.reload ⟨false, false, []⟩]
  have hskipped := hskipped (.inl (by decide +kernel))
  rw [hskipped] at hcount
  have hloaded := hcount.trans (by decide +kernel : _ = 2)
  rw [Nat.add_zero] at hloaded
  rw [if_neg (by decide +kernel), if_pos (by decide +kernel), hloaded] at hpublished
  have hpublished := hpublished.trans (by decide +kernel : _ = 4)
  refine ⟨by decide +kernel, by decide +kernel, ?_⟩
  rw [hstep, hsummary _ hloaded hskipped hpublished]

end Session

end DropRules
