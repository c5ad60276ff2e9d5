import DropRules.Assembly
import Mathlib.Data.List.Basic
import Mathlib.Data.List.Induction

/-!
# Sorting by region is filtering by region

`Groups.ofRules` sorts rules one at a time, opening a group where a region has none yet.  What comes
out is told here without the order in which it was done: a region has a group exactly when some
rule belongs to it, the groups stand in the priority of their regions, and a group is the sublist of
the rules that belong to its region (`Groups.ofRules_eq`).

The one fact about the recursion is `Groups.insert_filterMap`: on groups whose regions ascend,
inserting a rule has the effect that the rule, put behind the others, has on the filters.
-/

namespace DropRules

/-- The region that a rule belongs to, if it belongs to one. -/
def NamedRule.region? (r : NamedRule) : Option Region :=
  Region.ofConditions? r.conditions

/-- A rule names the condition of the region that it belongs to. -/
theorem NamedRule.condition_mem_of_region? {r : NamedRule} {q : Region} (h : r.region? = some q) :
    q.condition ∈ r.conditions := by
  have hq := List.find?_some h
  simpa using hq

namespace Region

/-- The rules that belong to a region, in their order. -/
def members (q : Region) (rules : List NamedRule) : List NamedRule :=
  rules.filter fun r => r.region? = some q

/-- Whether some rule belongs to the region. -/
def occurs (rules : List NamedRule) (q : Region) : Bool :=
  rules.any fun r => r.region? = some q

/-- The regions that some rule belongs to, the one that wins over the others first. -/
def present (rules : List NamedRule) : List Region :=
  all.filter (occurs rules)

theorem mem_members {q : Region} {rules : List NamedRule} {r : NamedRule} :
    r ∈ q.members rules ↔ r ∈ rules ∧ r.region? = some q := by
  simp [members]

theorem members_append (q : Region) (rules rules' : List NamedRule) :
    q.members (rules ++ rules') = q.members rules ++ q.members rules' :=
  List.filter_append ..

/-- A region without members is one that does not occur. -/
theorem members_eq_nil_iff {q : Region} {rules : List NamedRule} :
    q.members rules = [] ↔ occurs rules q = false := by
  simp [members, occurs]

/-- A list of conditions belongs to a region by the conditions of regions that are in it, and by
nothing else. -/
theorem ofConditions?_congr {conditions conditions' : List Condition}
    (h : ∀ q : Region, q.condition ∈ conditions ↔ q.condition ∈ conditions') :
    ofConditions? conditions = ofConditions? conditions' := by
  rw [ofConditions?, ofConditions?]
  simp only [h]

/-- A condition of a region belongs to that region. -/
theorem ofConditions?_condition (q : Region) : ofConditions? [q.condition] = some q := by
  cases q <;> decide

/-- Every region is listed. -/
theorem mem_all (q : Region) : q ∈ all := by
  cases q <;> decide

/-- The list of the regions ascends in priority. -/
theorem pairwise_all : all.Pairwise fun p q => p.priority < q.priority := by
  decide

end Region

/-- The rules that belong to no region, in their order. -/
def NamedRule.strays (rules : List NamedRule) : List NamedRule :=
  rules.filter fun r => r.region? = none

namespace Groups

/-- The group of a region among rules, if the region occurs. -/
def group? (rules : List NamedRule) (q : Region) : Option (Region × List NamedRule) :=
  if q.members rules = [] then none else some (q, q.members rules)

/-- A rule of another region leaves the group of a region alone. -/
theorem group?_append_of_ne {rules : List NamedRule} {r : NamedRule} {p : Region}
    (h : r.region? ≠ some p) : group? (rules ++ [r]) p = group? rules p := by
  have hp : p.members [r] = [] := by simp [Region.members, h]
  rw [group?, group?, Region.members_append, hp, List.append_nil]

/-- A rule of the region stands behind the others in its group. -/
theorem group?_append_self {rules : List NamedRule} {r : NamedRule} {q : Region}
    (h : r.region? = some q) : group? (rules ++ [r]) q = some (q, q.members rules ++ [r]) := by
  have hq : q.members [r] = [r] := by simp [Region.members, h]
  rw [group?, Region.members_append, hq, if_neg (by simp)]

/-- A rule opens a group in front of the groups that its region wins over. -/
theorem insert_of_forall_lt {q : Region} {r : NamedRule} {groups : List (Region × List NamedRule)}
    (h : ∀ g ∈ groups, q.priority < g.1.priority) : insert q r groups = (q, [r]) :: groups := by
  cases groups with
  | nil => rfl
  | cons g groups =>
    obtain ⟨p, rs⟩ := g
    have hlt : q.priority < p.priority := h _ (List.mem_cons_self ..)
    have hne : p ≠ q := by
      rintro rfl
      omega
    rw [insert, if_neg hne, if_pos hlt]

/-- A group is that of its region. -/
theorem fst_of_group? {rules : List NamedRule} {q : Region} {g : Region × List NamedRule}
    (h : group? rules q = some g) : g.1 = q := by
  rw [group?] at h
  split at h
  · cases h
  · rw [← Option.some.inj h]

/-- Inserting is filtering where the group of the rule is, or will be, the first. -/
theorem insert_filterMap_cons (rules : List NamedRule) {r : NamedRule} {q : Region}
    (hr : r.region? = some q) {regions : List Region}
    (hq : ∀ p ∈ regions, q.priority < p.priority) :
    insert q r ((q :: regions).filterMap (group? rules)) =
      (q :: regions).filterMap (group? (rules ++ [r])) := by
  -- behind the group of the rule nothing changes
  have htail : regions.filterMap (group? (rules ++ [r])) = regions.filterMap (group? rules) := by
    refine List.filterMap_congr fun p hp => group?_append_of_ne fun hrp => ?_
    have hsame : q = p := Option.some.inj (hr.symm.trans hrp)
    have hlt := hq p hp
    rw [hsame] at hlt
    exact absurd hlt (Nat.lt_irrefl _)
  rw [List.filterMap_cons, List.filterMap_cons, group?_append_self hr, htail]
  by_cases hnil : q.members rules = []
  · have hnone : group? rules q = none := by rw [group?, if_pos hnil]
    have hlt : ∀ g ∈ regions.filterMap (group? rules), q.priority < g.1.priority := by
      intro g hg
      obtain ⟨p, hp, hgroup⟩ := List.mem_filterMap.mp hg
      rw [fst_of_group? hgroup]
      exact hq p hp
    simp only [hnone]
    rw [insert_of_forall_lt hlt, hnil, List.nil_append]
  · have hsome : group? rules q = some (q, q.members rules) := by rw [group?, if_neg hnil]
    simp only [hsome]
    rw [insert, if_pos rfl]

/-- **Inserting is filtering.**  Where the regions ascend, a rule inserted into their groups is
found where the filters put it. -/
theorem insert_filterMap (rules : List NamedRule) {r : NamedRule} {q : Region}
    (hr : r.region? = some q) {regions : List Region}
    (hasc : regions.Pairwise fun p p' => p.priority < p'.priority) (hq : q ∈ regions) :
    insert q r (regions.filterMap (group? rules)) = regions.filterMap (group? (rules ++ [r])) := by
  induction regions with
  | nil => exact absurd hq (List.not_mem_nil)
  | cons p regions ih =>
    obtain ⟨hp, hrest⟩ := List.pairwise_cons.mp hasc
    by_cases hpq : p = q
    · subst hpq
      exact insert_filterMap_cons rules hr hp
    · have hmem : q ∈ regions := by
        rcases List.mem_cons.mp hq with h | h
        · exact absurd h.symm hpq
        · exact h
      have hkeep : group? (rules ++ [r]) p = group? rules p :=
        group?_append_of_ne fun h => hpq (Option.some.inj (h.symm.trans hr))
      rw [List.filterMap_cons, List.filterMap_cons, hkeep]
      cases hg : group? rules p with
      | none => exact ih hrest hmem
      | some g =>
        obtain ⟨p', rs⟩ := g
        obtain rfl : p' = p := fst_of_group? hg
        have hlt := hp q hmem
        simp only
        rw [insert, if_neg hpq, if_neg (by omega), ih hrest hmem]

/-- Rules are sorted into the groups of all the regions. -/
theorem ofRules_eq_filterMap (rules : List NamedRule) :
    ofRules rules = ⟨Region.all.filterMap (group? rules), NamedRule.strays rules⟩ := by
  induction rules using List.reverseRecOn with
  | nil => rfl
  | append_singleton rules r ih =>
    rw [ofRules, List.foldl_append, ← ofRules, ih, List.foldl_cons, List.foldl_nil, add]
    cases hr : r.region? with
    | none =>
      have hgroups : Region.all.filterMap (group? (rules ++ [r])) =
          Region.all.filterMap (group? rules) :=
        List.filterMap_congr fun p _ => group?_append_of_ne (by rw [hr]; exact nofun)
      have hstrays : NamedRule.strays (rules ++ [r]) = NamedRule.strays rules ++ [r] := by
        simp [NamedRule.strays, hr]
      rw [NamedRule.region?] at hr
      simp only [hr, hgroups, hstrays]
    | some q =>
      have hgroups := insert_filterMap rules hr Region.pairwise_all (Region.mem_all q)
      have hstrays : NamedRule.strays (rules ++ [r]) = NamedRule.strays rules := by
        simp [NamedRule.strays, hr]
      rw [NamedRule.region?] at hr
      simp only [hr, hgroups, hstrays]

/-- **Sorting is filtering.**  The groups are those of the regions that occur, in their priority,
and each holds the members of its region; the rules of no region are kept apart. -/
theorem ofRules_eq (rules : List NamedRule) :
    ofRules rules =
      ⟨(Region.present rules).map fun q => (q, q.members rules), NamedRule.strays rules⟩ := by
  have hregions : Region.all.filterMap (group? rules) =
      (Region.present rules).map fun q => (q, q.members rules) := by
    rw [Region.present, ← List.filterMap_eq_map, List.filterMap_filter]
    refine List.filterMap_congr fun q _ => ?_
    cases hq : Region.occurs rules q with
    | false => rw [group?, if_pos (Region.members_eq_nil_iff.mpr hq)]; rfl
    | true =>
      have hne : q.members rules ≠ [] := by
        intro hnil
        rw [Region.members_eq_nil_iff.mp hnil] at hq
        cases hq
      rw [group?, if_neg hne]
      rfl
  rw [ofRules_eq_filterMap, hregions]

end Groups

end DropRules
