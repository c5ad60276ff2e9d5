import DropRules.Tally
import DropRules.Proofs.Reimport

/-!
# What a tally counts

The coverage of a recovered rule is read off two numbers: the names that came back, and the
conditions without one.  Neither says by itself what became of a handle, but together they account for
all of them (`Naming.length_recover`), and so the coverage tells what it should: whether each handle of
the rule has a name, none of them, or some and not all.

A tally goes once over the recovered rules and adds one to one of three counts for each.  So a count
is the number of rules of its coverage (`Tally.ofRules_eq`), and the rules that came back whole are
those that a choice of whole rules keeps (`Naming.whole_tally`).  Nothing of this needs anything of the
table or of the naming (`Naming.recovery_accounts`).
-/

namespace DropRules

/-! ## Coverage -/

/-- A rule came back whole exactly if that is its coverage. -/
theorem RecoveredRule.coverage_eq_whole_iff (r : RecoveredRule) :
    r.coverage = .whole ↔ r.isWhole := by
  rw [coverage, isWhole, beq_iff_eq]
  by_cases h : r.unnamed = 0
  · simp [h]
  · cases hempty : r.conditions.isEmpty <;> simp [h]

/-- A rule came back with no name, though it has conditions, exactly if that is its coverage. -/
theorem RecoveredRule.coverage_eq_none_iff (r : RecoveredRule) :
    r.coverage = .none ↔ r.unnamed ≠ 0 ∧ r.conditions = [] := by
  rw [coverage, ← List.isEmpty_iff]
  by_cases h : r.unnamed = 0
  · simp [h]
  · cases hempty : r.conditions.isEmpty <;> simp [h]

namespace Naming

variable {α ρ : Type} [DecidableEq α] [DecidableEq ρ] (n : Naming α ρ) (b : BoundRule α ρ)

/-- **Every condition is named or counted.** -/
theorem length_recover :
    (n.recover b).conditions.length + (n.recover b).unnamed = b.conditions.length :=
  Nat.add_sub_cancel' (List.length_filterMap_le n.conditions.symbol? b.conditions)

/-- No condition comes back exactly if none has a name. -/
theorem conditions_recover_eq_nil_iff :
    (n.recover b).conditions = [] ↔ ∀ g ∈ b.conditions, n.conditions.symbol? g = none :=
  List.filterMap_eq_nil_iff

/-- A rule comes back whole exactly if each of its handles has a name. -/
theorem coverage_recover_eq_whole_iff :
    (n.recover b).coverage = .whole ↔
      ∀ g ∈ b.conditions, (n.conditions.symbol? g).isSome :=
  (RecoveredRule.coverage_eq_whole_iff _).trans isWhole_iff

/-- Nothing of a rule comes back exactly if it has handles and none of them has a name. -/
theorem coverage_recover_eq_none_iff :
    (n.recover b).coverage = .none ↔
      b.conditions ≠ [] ∧ ∀ g ∈ b.conditions, n.conditions.symbol? g = none := by
  rw [RecoveredRule.coverage_eq_none_iff, ← conditions_recover_eq_nil_iff, and_congr_left_iff]
  intro hnil
  have hlength := n.length_recover b
  rw [hnil, List.length_nil, Nat.zero_add] at hlength
  rw [hlength, ne_eq, List.length_eq_zero_iff]

/-- A part of a rule comes back exactly if one of its handles has a name and another has none. -/
theorem coverage_recover_eq_some_iff :
    (n.recover b).coverage = .some ↔
      (∃ g ∈ b.conditions, (n.conditions.symbol? g).isSome) ∧
        ∃ g ∈ b.conditions, n.conditions.symbol? g = none := by
  have hother : (n.recover b).coverage = .some ↔
      ¬ (n.recover b).coverage = .whole ∧ ¬ (n.recover b).coverage = .none := by
    cases (n.recover b).coverage <;> simp
  rw [hother, coverage_recover_eq_whole_iff, coverage_recover_eq_none_iff]
  constructor
  · rintro ⟨hwhole, hnone⟩
    obtain ⟨g, hg, hunnamed⟩ : ∃ g ∈ b.conditions, n.conditions.symbol? g = none := by
      simpa using hwhole
    refine ⟨?_, g, hg, hunnamed⟩
    by_contra hnamed
    refine hnone ⟨List.ne_nil_of_mem hg, fun g' hg' => ?_⟩
    exact Option.not_isSome_iff_eq_none.mp fun hsome => hnamed ⟨g', hg', hsome⟩
  · rintro ⟨⟨g, hg, hnamed⟩, g', hg', hunnamed⟩
    refine ⟨fun hwhole => ?_, fun hnone => ?_⟩
    · simpa [hunnamed] using hwhole g' hg'
    · simp [hnone.2 g hg] at hnamed

end Naming

/-! ## Counts -/

namespace Tally

/-- A tally continued over further rules. -/
theorem foldl_count (t : Tally) (rules : List RecoveredRule) :
    rules.foldl count t =
      ⟨t.total, t.whole + rules.countP (·.coverage = .whole),
        t.some + rules.countP (·.coverage = .some), t.none + rules.countP (·.coverage = .none)⟩ := by
  induction rules generalizing t with
  | nil => rfl
  | cons r rules ih =>
    rw [List.foldl_cons, ih, count, List.countP_cons, List.countP_cons, List.countP_cons]
    cases hr : r.coverage <;> simp <;> omega

/-- **Every count is the number of rules of its coverage**, and the total that of all rules. -/
theorem ofRules_eq (rules : List RecoveredRule) :
    ofRules rules =
      ⟨rules.length, rules.countP (·.coverage = .whole), rules.countP (·.coverage = .some),
        rules.countP (·.coverage = .none)⟩ := by
  rw [ofRules, foldl_count]
  simp

/-- The counts add up to the total. -/
theorem whole_add_some_add_none (rules : List RecoveredRule) :
    (ofRules rules).whole + (ofRules rules).some + (ofRules rules).none = (ofRules rules).total := by
  rw [ofRules_eq]
  induction rules with
  | nil => rfl
  | cons r rules ih =>
    simp only [List.countP_cons, List.length_cons] at ih ⊢
    cases r.coverage <;> simp <;> omega

end Tally

namespace Naming

variable {α ρ : Type} [DecidableEq α] [DecidableEq ρ] (n : Naming α ρ) (t : DropTable α ρ)

/-- A tally counts the rules of a table by their coverage. -/
theorem tally_eq :
    n.tally t =
      ⟨t.length, t.rules.countP fun b => (n.recover b).coverage = .whole,
        t.rules.countP fun b => (n.recover b).coverage = .some,
        t.rules.countP fun b => (n.recover b).coverage = .none⟩ := by
  rw [tally, Tally.ofRules_eq, recoverTable_false, List.length_map, List.countP_map, List.countP_map,
    List.countP_map]
  rfl

/-- A choice of whole rules keeps those of that coverage, in their order. -/
theorem recoverTable_true :
    n.recoverTable t true = (n.recoverTable t false).filter fun r => r.coverage = .whole := by
  rw [recoverTable_false, recoverTable]
  refine List.filter_congr fun r _ => ?_
  rw [Bool.eq_iff_iff, decide_eq_true_iff, r.coverage_eq_whole_iff]
  rfl

/-- The whole rules are counted by those that are kept when only whole rules are. -/
theorem whole_tally : (n.tally t).whole = (n.recoverTable t true).length := by
  rw [tally, Tally.ofRules_eq, recoverTable_true, List.countP_eq_length_filter]

/-- **What is recovered of a table accounts for every rule and for every condition**, whatever the
table and the naming.  The conditions of a rule that come back are the names of its handles, in their
order, and with the number of conditions without a name they are as many as the handles; the rule is
whole if each handle has a name, recovered in no part if it has handles and none has a name, and else in
some part.  The tally is that of all rules, each in one of the three counts.  And choosing only whole
rules keeps those of all rules that are whole, in their order, and as many as were counted. -/
theorem recovery_accounts :
    (∀ b : BoundRule α ρ,
      let r := n.recover b
      r.conditions = b.conditions.filterMap n.conditions.symbol? ∧
        r.conditions.length + r.unnamed = b.conditions.length ∧
        (r.coverage = .whole ↔ ∀ g ∈ b.conditions, (n.conditions.symbol? g).isSome) ∧
        (r.coverage = .none ↔
          b.conditions ≠ [] ∧ ∀ g ∈ b.conditions, n.conditions.symbol? g = none) ∧
        (r.coverage = .some ↔
          (∃ g ∈ b.conditions, (n.conditions.symbol? g).isSome) ∧
            ∃ g ∈ b.conditions, n.conditions.symbol? g = none)) ∧
      (n.tally t).total = t.length ∧
      (n.tally t).whole + (n.tally t).some + (n.tally t).none = (n.tally t).total ∧
      (n.tally t).whole = t.rules.countP (fun b => (n.recover b).coverage = .whole) ∧
      (n.tally t).some = t.rules.countP (fun b => (n.recover b).coverage = .some) ∧
      (n.tally t).none = t.rules.countP (fun b => (n.recover b).coverage = .none) ∧
      n.recoverTable t false = t.rules.map n.recover ∧
      n.recoverTable t true = (n.recoverTable t false).filter (fun r => r.coverage = .whole) ∧
      (n.recoverTable t true).length = (n.tally t).whole := by
  refine ⟨fun b => ⟨rfl, n.length_recover b, n.coverage_recover_eq_whole_iff b,
    n.coverage_recover_eq_none_iff b, n.coverage_recover_eq_some_iff b⟩, ?_,
    Tally.whole_add_some_add_none _, ?_, ?_, ?_, n.recoverTable_false t, n.recoverTable_true t,
    (n.whole_tally t).symm⟩
  · rw [tally_eq]
  · rw [tally_eq]
  · rw [tally_eq]
  · rw [tally_eq]

/-- Four rules: all of the first can be named, one condition of the second, nothing of the third,
whose rarity is a stranger too, and the fourth has no conditions.  The condition without a name in the
second one bears the number of the lava, and is not taken for it. -/
theorem recovery_accounts_strangers :
    let c : Catalog Nat Nat :=
      ((Catalog.empty.exposeCondition .inLava 3).exposeCondition .jungle 6).exposeRarity .common 1
    let n := (ofCatalog c).value
    let partly : BoundRule Nat Nat := ⟨[8], 1, 1, none, [⟨.ofNat 1, 6⟩, ⟨.ofNat 0, 77⟩]⟩
    let strange : BoundRule Nat Nat := ⟨[9], 1, 1, some ⟨.ofNat 4, 2⟩, [⟨.ofNat 5, 78⟩]⟩
    let t : DropTable Nat Nat :=
      ⟨[⟨[7], 1, 1, some ⟨.ofNat 0, 1⟩, [⟨.ofNat 0, 3⟩]⟩, partly, strange, ⟨[10], 1, 1, none, []⟩]⟩
    n.recoverTable t false =
        [⟨[7], 1, 1, some .common, [.inLava], 0⟩, ⟨[8], 1, 1, none, [.jungle], 1⟩,
          ⟨[9], 1, 1, none, [], 1⟩, ⟨[10], 1, 1, none, [], 0⟩] ∧
      (n.recover partly).coverage = .some ∧ (n.recover strange).coverage = .none ∧
      (n.tally t).total = 4 ∧ (n.tally t).whole = 2 ∧ (n.tally t).some = 1 ∧ (n.tally t).none = 1 ∧
      n.recoverTable t true =
        [⟨[7], 1, 1, some .common, [.inLava], 0⟩, ⟨[10], 1, 1, none, [], 0⟩] := by
  intro c n partly strange t
  obtain ⟨hrule, htotal, -, hwhole, hsome, hnone, hall, hchosen, -⟩ := recovery_accounts n t
  obtain ⟨-, -, -, -, hpartly⟩ := hrule partly
  obtain ⟨-, -, -, hstrange, -⟩ := hrule strange
  rw [hall] at hchosen
  refine ⟨hall.trans ?_, hpartly.mpr ?_, hstrange.mpr ?_, htotal, hwhole.trans ?_, hsome.trans ?_,
    hnone.trans ?_, hchosen.trans ?_⟩ <;> decide +kernel

end Naming

end DropRules
