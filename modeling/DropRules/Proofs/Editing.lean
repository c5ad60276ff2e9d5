import DropRules.Proofs.Priority

/-!
# Rules put in and left out

A person edits a list of rules, and the table is assembled anew.  Each rule goes into one part of the
table: that of its region, or that of the rules of no region.  So the question is what the other
parts have to do with it.

A table is asked by a walk, and the first part that has an answer gives it (`Assembly.find?_layout`).
So two tables whose parts answer alike answer alike.

## 1.  Rules that cannot be bound

A rule that cannot be bound is counted and leaves nothing of its own behind.  But regions are told by
names, before any rule is bound, and a barrier is put behind every region that occurs.  So a region
with rules none of which can be bound, a hollow region (`Naming.hollow`), is closed all the same, and
this is all that tells the table from the one of the rules that can be bound
(`Assembly.skipped_leave_barriers`).

## 2.  One rule more

A catch is out of reach of a rule if the region of the rule does not hold, or if the rule belongs to
no region and does not match (`Naming.OutOfReach`).  Then it makes no difference whether the rule is
there, even where it brings a region and a barrier into the table that were not there before
(`Assembly.firstDrop_insert`).
-/

namespace DropRules

variable {α ρ : Type}

/-! ## Rules that cannot be bound -/

namespace Naming

variable (n : Naming α ρ) (rules : List NamedRule)

/-- The rules that can be bound, in their order. -/
def bindable : List NamedRule :=
  rules.filter n.binds

/-- Only rules that can be bound contribute anything. -/
theorem filterMap_bindable : (n.bindable rules).filterMap n.bound? = rules.filterMap n.bound? := by
  rw [bindable, List.filterMap_filter]
  refine List.filterMap_congr fun r _ => ?_
  cases hr : n.bound? r <;> simp [binds, hr]

theorem members_bindable (q : Region) : q.members (n.bindable rules) = n.bindable (q.members rules) :=
  List.filter_comm ..

theorem strays_bindable :
    NamedRule.strays (n.bindable rules) = n.bindable (NamedRule.strays rules) :=
  List.filter_comm ..

/-- A region of a rule that can be bound is the region of a rule. -/
theorem occurs_of_occurs_bindable {q : Region} (h : Region.occurs (n.bindable rules) q) :
    Region.occurs rules q := by
  obtain ⟨r, hr, hq⟩ := List.any_eq_true.mp h
  exact List.any_eq_true.mpr ⟨r, (List.mem_filter.mp hr).1, hq⟩

/-- The regions that some rule belongs to, but none that can be bound. -/
def hollow : List Region :=
  (Region.present rules).filter fun q => !Region.occurs (n.bindable rules) q

theorem mem_hollow {q : Region} :
    q ∈ n.hollow rules ↔
      Region.occurs rules q = true ∧ Region.occurs (n.bindable rules) q = false := by
  simp [hollow, Region.present, Region.mem_all, and_comm]

end Naming

namespace Assembly

variable (n : Naming α ρ) (rules : List NamedRule)

theorem group_bindable (q : Region) : group n (n.bindable rules) q = group n rules q := by
  rw [group, group, n.members_bindable, n.filterMap_bindable]

/-- **The rules that cannot be bound leave a barrier in a hollow region**, and nothing elsewhere. -/
theorem part_eq (q : Region) :
    part n rules q =
      part n (n.bindable rules) q ++
        if q ∈ n.hollow rules then (n.stopper? q.condition).toList else [] := by
  rw [part, part, group_bindable]
  cases hkept : Region.occurs (n.bindable rules) q with
  | true =>
    have hq : q ∉ n.hollow rules := by simp [n.mem_hollow, hkept]
    rw [if_pos (n.occurs_of_occurs_bindable rules hkept), if_neg hq, if_pos rfl, List.append_nil]
  | false =>
    cases hgiven : Region.occurs rules q with
    | false =>
      have hq : q ∉ n.hollow rules := by simp [n.mem_hollow, hgiven]
      rw [if_neg hq]
      rfl
    | true =>
      have hq : q ∈ n.hollow rules := by simp [n.mem_hollow, hgiven, hkept]
      have hmembers : (q.members rules).filterMap n.bound? = [] := by
        rw [← n.filterMap_bindable, ← n.members_bindable, Region.members_eq_nil_iff.mpr hkept,
          List.filterMap_nil]
      rw [if_pos rfl, if_pos hq, group, hmembers]
      rfl

/-- Two tables of the same parts but for some parts that are longer are the same exactly if nothing
was added to any of them. -/
theorem parts_append_eq_iff {head tail : List (BoundRule α ρ)}
    {parts added : Region → List (BoundRule α ρ)} :
    head ++ Region.all.flatMap (fun q => parts q ++ added q) ++ tail =
        head ++ Region.all.flatMap parts ++ tail ↔ ∀ q, added q = [] := by
  constructor
  · intro h
    have hperm := (List.flatMap_append_perm Region.all parts added).length_eq
    have hlength := congrArg List.length h
    simp only [List.length_append] at hperm hlength
    have hnil : Region.all.flatMap added = [] := List.eq_nil_of_length_eq_zero (by omega)
    exact fun q => List.flatMap_eq_nil_iff.mp hnil q (Region.mem_all q)
  · intro h
    simp only [h, List.append_nil]

end Assembly

/-- Two searches that differ only where the second finds nothing find the same, unless the first
finds something there. -/
theorem findSome?_eq_or {β γ : Type} {f g : β → Option γ} {l : List β}
    (h : ∀ b ∈ l, f b ≠ g b → g b = none) :
    l.findSome? f = l.findSome? g ∨
      ∃ b ∈ l, ∃ c, f b ≠ g b ∧ f b = some c ∧ l.findSome? f = some c := by
  induction l with
  | nil => exact .inl rfl
  | cons b l ih =>
    rw [List.findSome?_cons, List.findSome?_cons]
    by_cases hb : f b = g b
    · rw [hb]
      cases g b with
      | some c => exact .inl rfl
      | none =>
        obtain hsame | ⟨b', hb', c, hc⟩ := ih fun b' hb' => h b' (List.mem_cons_of_mem _ hb')
        · exact .inl hsame
        · exact .inr ⟨b', List.mem_cons_of_mem _ hb', c, hc⟩
    · have hg := h b (List.mem_cons_self ..) hb
      obtain ⟨c, hc⟩ := Option.ne_none_iff_exists'.mp (hg ▸ hb)
      exact .inr ⟨b, List.mem_cons_self .., c, hb, hc, by rw [hc]⟩

namespace Assembly

/-- A question gets the same answer with and without the rules that cannot be bound, unless the
barrier of a hollow region is the answer. -/
theorem find?_layout_bindable (n : Naming α ρ) (rules : List NamedRule) (p : BoundRule α ρ → Bool) :
    (layout n rules).find? p = (layout n (n.bindable rules)).find? p ∨
      ∃ q ∈ n.hollow rules, ∃ s,
        n.stopper? q.condition = some s ∧ (layout n rules).find? p = some s := by
  have hstrays : (NamedRule.strays (n.bindable rules)).filterMap n.bound? =
      (NamedRule.strays rules).filterMap n.bound? := by
    rw [n.strays_bindable, n.filterMap_bindable]
  -- where a part differs, the region is hollow, and the part without the barrier is empty
  have hpart : ∀ q, (part n rules q).find? p ≠ (part n (n.bindable rules) q).find? p →
      q ∈ n.hollow rules ∧ (part n (n.bindable rules) q).find? p = none ∧
        (part n rules q).find? p = (n.stopper? q.condition).toList.find? p := by
    intro q hq
    have hmem : q ∈ n.hollow rules := by
      by_contra hnot
      rw [part_eq, if_neg hnot, List.append_nil] at hq
      exact hq rfl
    have hnil : part n (n.bindable rules) q = [] := by
      rw [part, ((n.mem_hollow rules).mp hmem).2]
      rfl
    refine ⟨hmem, by rw [hnil, List.find?_nil], ?_⟩
    rw [part_eq, hnil, if_pos hmem, List.nil_append]
  rw [find?_layout, find?_layout, hstrays]
  cases (n.stopper? .anyEnemies).toList.find? p with
  | some b => exact .inl rfl
  | none =>
    rw [Option.none_or, Option.none_or]
    obtain hsame | ⟨q, -, s, hne, hs, hfound⟩ :=
      findSome?_eq_or fun q _ hq => (hpart q hq).2.1
    · exact .inl (by rw [hsame])
    · obtain ⟨hmem, -, hstop⟩ := hpart q hne
      have hs' : s ∈ (n.stopper? q.condition).toList :=
        List.mem_of_find?_eq_some (hstop.symm.trans hs)
      exact .inr ⟨q, hmem, s, Option.mem_toList.mp hs', by rw [hfound, Option.some_or]⟩

/-- **What rules that cannot be bound do to a table.**  As many rules are loaded as without them, and
they are counted as skipped.  The table has what the table without them has, and besides, in the
place of each hollow region, the barrier on its condition if that has a handle.  So the tables are
the same exactly if no hollow region has a handle; and a catch finds the same in both unless the
barrier of a hollow region decides it. -/
theorem skipped_leave_barriers (n : Naming α ρ) (rules : List NamedRule) :
    let kept := n.bindable rules
    let a := (ofRules n rules).value
    let b := (ofRules n kept).value
    a.loaded = b.loaded ∧ a.skipped = (rules.filter fun r => !n.binds r).length ∧ b.skipped = 0 ∧
      b.table.rules =
        (n.stopper? .anyEnemies).toList ++ Region.all.flatMap (part n kept)
          ++ (NamedRule.strays kept).filterMap n.bound? ∧
      a.table.rules =
        (n.stopper? .anyEnemies).toList
          ++ Region.all.flatMap (fun q =>
            part n kept q ++ if q ∈ n.hollow rules then (n.stopper? q.condition).toList else [])
          ++ (NamedRule.strays kept).filterMap n.bound? ∧
      (a.table = b.table ↔ ∀ q ∈ n.hollow rules, n.condition? q.condition = none) ∧
      ∀ holds accepts, a.table.firstDrop holds accepts = b.table.firstDrop holds accepts ∨
        ∃ q ∈ n.hollow rules, ∃ s, n.stopper? q.condition = some s ∧
          a.table.rules.find? (BoundRule.matches holds accepts) = some s := by
  intro kept a b
  have ha : a = ⟨⟨layout n rules⟩, rules.countP n.binds, rules.countP fun r => !n.binds r⟩ :=
    value_ofRules n rules
  have hb : b = ⟨⟨layout n kept⟩, kept.countP n.binds, kept.countP fun r => !n.binds r⟩ :=
    value_ofRules n kept
  have hbinds : ∀ r ∈ kept, n.binds r = true := fun r hr => (List.mem_filter.mp hr).2
  have hloaded : rules.countP n.binds = kept.countP n.binds := by
    rw [List.countP_eq_length.mpr hbinds, List.countP_eq_length_filter]
    rfl
  have hlayout : layout n rules =
      (n.stopper? .anyEnemies).toList
        ++ Region.all.flatMap (fun q =>
          part n kept q ++ if q ∈ n.hollow rules then (n.stopper? q.condition).toList else [])
        ++ (NamedRule.strays kept).filterMap n.bound? := by
    rw [layout_eq_parts, n.strays_bindable, n.filterMap_bindable]
    simp only [← part_eq, kept]
  have hsame : layout n rules = layout n kept ↔
      ∀ q ∈ n.hollow rules, n.condition? q.condition = none := by
    rw [hlayout, layout_eq_parts n kept, parts_append_eq_iff]
    refine forall_congr' fun q => ?_
    by_cases hq : q ∈ n.hollow rules <;> simp [hq, Naming.stopper?]
  refine ⟨?_, ?_, ?_, ?_, ?_, ?_, fun holds accepts => ?_⟩
  · rw [ha, hb, hloaded]
  · rw [ha]
    exact List.countP_eq_length_filter
  · rw [hb]
    exact List.countP_eq_zero.mpr fun r hr => by simp [hbinds r hr]
  · rw [hb, layout_eq_parts]
  · rw [ha, hlayout]
  · rw [ha, hb, DropTable.mk.injEq, hsame]
  · rw [ha, hb, DropTable.firstDrop, DropTable.firstDrop]
    obtain hfind | hdecides := find?_layout_bindable n rules (BoundRule.matches holds accepts)
    · exact .inl (by rw [hfind])
    · exact .inr hdecides

/-- Where no fallback is exposed, a rule for the lava that names no rarity is skipped, but its barrier
stays, and keeps the rule of no region from dropping in the lava. -/
theorem skipped_lava_leaves_barrier :
    let c : Catalog Nat Nat := (Catalog.empty.exposeCondition .inLava 3).exposeRarity .rare 1
    let rules : List NamedRule := [⟨[1], 1, 1, none, [.inLava]⟩, ⟨[2], 1, 1, some .rare, []⟩]
    let n := (Naming.ofCatalog c).value
    let a := (ofRules n rules).value
    let b := (ofRules n (n.bindable rules)).value
    a.table ≠ b.table ∧ a.table.firstDrop (· == 3) (· == 1) = 0 ∧
      b.table.firstDrop (· == 3) (· == 1) = 2 := by
  decide +kernel

end Assembly

/-! ## One rule more -/

/-- Whether a catch is out of reach of a rule: the region of the rule has a handle and does not hold,
or the rule belongs to no region, and cannot be bound or does not match. -/
def Naming.OutOfReach (n : Naming α ρ) (holds : α → Bool) (accepts : ρ → Bool) (r : NamedRule) :
    Prop :=
  match r.region? with
  | some q => ∃ h, n.condition? q.condition = some h ∧ holds h.value = false
  | none => ∀ b, n.bound? r = some b → b.matches holds accepts = false

namespace Assembly

variable (n : Naming α ρ) (holds : α → Bool) (accepts : ρ → Bool)
  {before after : List NamedRule} {r : NamedRule}

/-- A rule leaves the regions alone to which it does not belong. -/
theorem part_insert_of_ne {q : Region} (h : r.region? ≠ some q) :
    part n (before ++ r :: after) q = part n (before ++ after) q := by
  have hmembers : q.members (before ++ r :: after) = q.members (before ++ after) := by
    simp [Region.members, h]
  have hoccurs : Region.occurs (before ++ r :: after) q = Region.occurs (before ++ after) q := by
    simp [Region.occurs, h]
  rw [part, part, group, group, hmembers, hoccurs]

/-- The part of a region that does not hold is silent. -/
theorem find?_part_of_not_holds {q : Region} {h : Handle α} (hq : n.condition? q.condition = some h)
    (hh : holds h.value = false) (rules : List NamedRule) :
    (part n rules q).find? (BoundRule.matches holds accepts) = none := by
  rw [part]
  split
  · exact List.find?_eq_none.mpr fun b hb => by
      simp [matches_group n holds accepts hq hh rules b hb]
  · exact List.find?_nil

/-- A rule that does not match is walked over among those of no region. -/
theorem find?_strays_insert (h : ∀ b, n.bound? r = some b → b.matches holds accepts = false) :
    ((NamedRule.strays (before ++ r :: after)).filterMap n.bound?).find?
        (BoundRule.matches holds accepts) =
      ((NamedRule.strays (before ++ after)).filterMap n.bound?).find?
        (BoundRule.matches holds accepts) := by
  have hsilent : (([r].filter fun r => r.region? = none).filterMap n.bound?).find?
      (BoundRule.matches holds accepts) = none := by
    refine List.find?_eq_none.mpr fun b hb => ?_
    obtain ⟨r', hr', hbound⟩ := List.mem_filterMap.mp hb
    obtain rfl := List.mem_singleton.mp (List.mem_filter.mp hr').1
    simp [h b hbound]
  rw [← List.singleton_append (l := after)]
  simp only [NamedRule.strays, List.filter_append, List.filterMap_append, List.find?_append, hsilent,
    Option.none_or]

/-- **A rule makes no difference to a catch that is out of its reach**, wherever in the list it
stands, and whatever the other rules are. -/
theorem firstDrop_insert (before after : List NamedRule) (r : NamedRule)
    (h : n.OutOfReach holds accepts r) :
    (ofRules n (before ++ r :: after)).value.table.firstDrop holds accepts =
      (ofRules n (before ++ after)).value.table.firstDrop holds accepts := by
  rw [Naming.OutOfReach] at h
  have hfind : (layout n (before ++ r :: after)).find? (BoundRule.matches holds accepts) =
      (layout n (before ++ after)).find? (BoundRule.matches holds accepts) := by
    rw [find?_layout, find?_layout]
    cases hr : r.region? with
    | none =>
      rw [hr] at h
      have hparts : part n (before ++ r :: after) = part n (before ++ after) :=
        funext fun q => part_insert_of_ne n (by rw [hr]; exact nofun)
      rw [hparts, find?_strays_insert n holds accepts h]
    | some q =>
      rw [hr] at h
      obtain ⟨g, hg, hholds⟩ := h
      have hstrays :
          NamedRule.strays (before ++ r :: after) = NamedRule.strays (before ++ after) := by
        simp [NamedRule.strays, hr]
      have hparts : ∀ q',
          (part n (before ++ r :: after) q').find? (BoundRule.matches holds accepts) =
            (part n (before ++ after) q').find? (BoundRule.matches holds accepts) := by
        intro q'
        by_cases hq : q = q'
        · subst hq
          rw [find?_part_of_not_holds n holds accepts hg hholds,
            find?_part_of_not_holds n holds accepts hg hholds]
        · rw [part_insert_of_ne n (by rw [hr]; exact fun hsome => hq (Option.some.inj hsome))]
      simp only [hstrays, hparts]
  rw [value_ofRules, value_ofRules, DropTable.firstDrop, DropTable.firstDrop, hfind]

/-- In the ocean, neither a first rule for the lava matters, though it brings the lava and its barrier
into the table, nor a rule of no region that is accepted under no roll.  One of the other rules names
a condition that is not exposed. -/
theorem firstDrop_insert_first_of_lava :
    let c : Catalog Nat Nat :=
      (((Catalog.empty.exposeCondition .inLava 3).exposeCondition .ocean 5).exposeRarity .common 1
        ).exposeRarity .rare 2
    let n := (Naming.ofCatalog c).value
    let holds : Nat → Bool := (· == 5)
    let accepts : Nat → Bool := (· == 1)
    let before : List NamedRule := [⟨[1], 1, 1, none, [.jungle, .ocean]⟩]
    let after : List NamedRule := [⟨[2], 1, 1, none, []⟩]
    let lava : NamedRule := ⟨[3], 1, 1, none, [.hardMode, .inLava]⟩
    let stray : NamedRule := ⟨[4], 1, 1, some .rare, []⟩
    let drop (rules : List NamedRule) : Item :=
      (ofRules n rules).value.table.firstDrop holds accepts
    n.OutOfReach holds accepts lava ∧ n.OutOfReach holds accepts stray ∧
      drop (before ++ lava :: after) = drop (before ++ after) ∧
      drop (before ++ stray :: after) = drop (before ++ after) ∧ drop (before ++ after) = 1 := by
  intro c n holds accepts before after lava stray drop
  have hlava : n.OutOfReach holds accepts lava := ⟨⟨.ofNat 0, 3⟩, by decide +kernel, rfl⟩
  have hstray : n.OutOfReach holds accepts stray := by
    intro b hb
    have hbound : n.bound? stray = some ⟨[4], 1, 1, some ⟨.ofNat 0, 2⟩, []⟩ := by decide +kernel
    rw [hbound] at hb
    cases hb
    rfl
  exact ⟨hlava, hstray, firstDrop_insert n holds accepts before after lava hlava,
    firstDrop_insert n holds accepts before after stray hstray, by decide +kernel⟩

end Assembly

end DropRules
