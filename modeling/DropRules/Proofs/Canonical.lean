import DropRules.Proofs.Coherence
import DropRules.Proofs.Notices
import DropRules.Proofs.Reassembly

/-!
# Canonical names

Several symbols may share a value, and then one handle is theirs.  The way back from the handle leads
to the first of them, whichever was written: `Directory.canonical`.  So a rule that is bound and read
back into names need not be the rule that was written.  It is its normal form: the conditions that the
engine does not expose are gone, those that it exposes go by their canonical names, and the rarity is
the canonical name of the one that the rule was bound under.

That this is a normal form takes two things.  A canonical name leads to the handle it was read from
(`Directory.Mirrors.handle?_of_symbol?`).  And each handle of a bound rule has a name
(`Naming.Mirrors.names_of_bound?`), so that nothing is lost on the way back.  Binding the normal
form then gives the same rule, with the same handles, and there is nothing left to report
(`Naming.bind_recover_exact`).
-/

namespace DropRules

namespace Directory

variable {σ α : Type} [Symbol σ] [DecidableEq α]

/-- The first symbol that shares the value of a symbol. -/
def canonical (lookup : σ → Option α) (s : σ) : σ :=
  ((Symbol.all : List σ).find? fun t => lookup t = lookup s).getD s

variable [Symbol.Listed σ]

theorem find?_eq_canonical (lookup : σ → Option α) (s : σ) :
    ((Symbol.all : List σ).find? fun t => lookup t = lookup s) = some (canonical lookup s) := by
  rw [canonical]
  cases hfirst : (Symbol.all : List σ).find? fun t => lookup t = lookup s with
  | none => simpa using List.find?_eq_none.mp hfirst s (Symbol.Listed.mem_all s)
  | some t => rw [Option.getD_some]

variable [DecidableEq σ] {lookup : σ → Option α} {d : Directory σ α}

/-- The handle of a symbol leads back to its canonical name. -/
theorem Coherent.symbol?_eq_canonical (hd : d.Coherent lookup) {s : σ} {h : Handle α}
    (hs : d.handle? s = some h) : d.symbol? h = some (canonical lookup s) := by
  rw [hd.symbol? s h hs, find?_eq_canonical]

/-- Symbols looked up and read back are the canonical names of those that have a handle. -/
theorem Coherent.filterMap_symbol?_handle? (hd : d.Coherent lookup) (symbols : List σ) :
    (symbols.filterMap d.handle?).filterMap d.symbol? =
      (symbols.filter fun s => (d.handle? s).isSome).map (canonical lookup) := by
  induction symbols with
  | nil => rfl
  | cons s symbols ih =>
    cases hs : d.handle? s with
    | none => rw [List.filterMap_cons_none hs, ih, List.filter_cons_of_neg (by simp [hs])]
    | some h =>
      rw [List.filterMap_cons_some hs, List.filterMap_cons_some (hd.symbol?_eq_canonical hs), ih,
        List.filter_cons_of_pos (by simp [hs]), List.map_cons]

end Directory

namespace Naming

variable {α ρ : Type}

/-- The rarity under which a rule is bound, as far as one can: its own if that has a handle, and else
the fallback. -/
def boundRarity (n : Naming α ρ) (rarity : Option Rarity) : Rarity :=
  (rarity.filter fun s => (n.rarity? s).isSome).getD .fallback

theorem rarityHandle?_eq_rarity? (n : Naming α ρ) (rarity : Option Rarity) :
    n.rarityHandle? rarity = n.rarity? (n.boundRarity rarity) := by
  rw [rarityHandle?, boundRarity]
  cases rarity with
  | none => rfl
  | some s =>
    cases hs : n.rarity? s with
    | none => rw [Option.bind_some, hs, Option.none_or, Option.filter_some_neg (by simp [hs]),
        Option.getD_none]
    | some h => rw [Option.bind_some, hs, Option.some_or, Option.filter_some_pos (by simp [hs]),
        Option.getD_some, hs]

/-- A rule can be bound exactly if its own rarity or the fallback has a handle. -/
theorem isSome_rarityHandle? (n : Naming α ρ) (rarity : Option Rarity) :
    (n.rarityHandle? rarity).isSome ↔
      (∃ s, rarity = some s ∧ (n.rarity? s).isSome) ∨ (n.rarity? .fallback).isSome := by
  rw [rarityHandle?, Option.isSome_or, Bool.or_eq_true]
  cases rarity <;> simp

variable [DecidableEq α] [DecidableEq ρ] {n : Naming α ρ} {c : Catalog α ρ} {r : NamedRule}
  {b : BoundRule α ρ}

/-- **A bound rule is read back in its normal form.** -/
theorem recover_of_bound? (hconditions : n.conditions.Coherent c.condition?)
    (hrarities : n.rarities.Coherent c.rarity?) (hn : n.Mirrors c) (hbound : n.bound? r = some b) :
    n.recover b =
      { items := r.items
        numerator := r.numerator
        denominator := r.denominator
        rarity := some (Directory.canonical c.rarity? (n.boundRarity r.rarity))
        conditions := (r.conditions.filter fun k => (n.condition? k).isSome).map
          (Directory.canonical c.condition?)
        unnamed := 0 } := by
  have hunnamed : (n.recover b).unnamed = 0 := by
    simpa [RecoveredRule.isWhole] using isWhole_iff.mpr (hn.names_of_bound? hbound).conditions
  rw [bound?_eq, rarityHandle?_eq_rarity?] at hbound
  obtain ⟨h, hh, rfl⟩ := Option.map_eq_some_iff.mp hbound
  rw [recover] at hunnamed ⊢
  rw [RecoveredRule.mk.injEq]
  exact ⟨rfl, rfl, rfl, hrarities.symbol?_eq_canonical hh,
    hconditions.filterMap_symbol?_handle? r.conditions, hunnamed⟩

/-- **Binding a rule and reading it back gives a normal form.**  A rule can be bound exactly if its own
rarity has a handle or the common one has; if not, what is missing is its rarity, or the common one if
it has none.  What is read back of a bound rule is whole.  It has the items and the fraction of the
rule, its conditions that have a handle, in their order and as often as they were there, each by the
first symbol that shares its value, and the rarity of the rule, or the common one if that of the rule
has no handle, by the first symbol that shares its value.  And if that is bound again, what comes of it
is the very same bound rule, and nothing is reported. -/
theorem bind_recover_exact (c : Catalog α ρ) (r : NamedRule) :
    let n := (ofCatalog c).value
    ((∃ b, (n.bind r).value = .ok b) ↔
        (∃ s, r.rarity = some s ∧ (n.rarity? s).isSome) ∨ (n.rarity? .common).isSome) ∧
      (∀ e, (n.bind r).value = .error e → e = .missingRarity (r.rarity.getD .common)) ∧
      ∀ b, (n.bind r).value = .ok b →
        (n.recover b).isWhole ∧
        n.recover b =
          { items := r.items
            numerator := r.numerator
            denominator := r.denominator
            rarity := some (Directory.canonical c.rarity?
              ((r.rarity.filter fun s => (n.rarity? s).isSome).getD .common))
            conditions := (r.conditions.filter fun k => (n.condition? k).isSome).map
              (Directory.canonical c.condition?)
            unnamed := 0 } ∧
        n.bind (n.recover b).toNamed = pure (.ok b) := by
  intro n
  obtain ⟨hconditions, hrarities⟩ := coherent_ofCatalog c
  have hn : n.Mirrors c := mirrors_ofCatalog c
  have hvalue := n.value_bind r
  refine ⟨?_, fun e he => ?_, fun b hb => ?_⟩
  · rw [hvalue]
    refine Iff.trans ?_ (n.isSome_rarityHandle? r.rarity)
    cases n.rarityHandle? r.rarity <;> simp
  · rw [hvalue] at he
    cases hh : n.rarityHandle? r.rarity with
    | none =>
      rw [hh] at he
      exact (Except.error.inj he).symm
    | some h =>
      rw [hh] at he
      cases he
  · have hbound : n.bound? r = some b := bound?_eq_some_iff.mpr hb
    have hnames := hn.names_of_bound? hbound
    refine ⟨isWhole_iff.mpr hnames.conditions,
      recover_of_bound? hconditions hrarities hn hbound, ?_⟩
    ext1
    · exact bound?_eq_some_iff.mp (hn.bound?_recover_of_names hnames)
    · exact log_bind_eq_nil hn.isSome_condition?_of_recover

/-- The ocean shares its value with a condition before it, and the rarity with one before it; the snow
is not exposed.  So a rule for them comes back under other names, and is bound again as it was. -/
theorem bind_recover_exact_shared_ocean :
    let c : Catalog Nat Nat :=
      ((((Catalog.empty.exposeCondition .originalOcean 5).exposeCondition .ocean 5).exposeCondition
        .jungle 6).exposeRarity .common 1).exposeRarity .uncommonOrCommon 1
    let r : NamedRule := ⟨[7], 1, 4, some .uncommonOrCommon, [.ocean, .snow, .jungle, .ocean]⟩
    let n := (ofCatalog c).value
    let b : BoundRule Nat Nat :=
      ⟨[7], 1, 4, some ⟨.ofNat 0, 1⟩, [⟨.ofNat 1, 5⟩, ⟨.ofNat 0, 6⟩, ⟨.ofNat 1, 5⟩]⟩
    (n.bind r).value = .ok b ∧
      n.recover b = ⟨[7], 1, 4, some .common, [.originalOcean, .jungle, .originalOcean], 0⟩ ∧
      n.bind (n.recover b).toNamed = pure (.ok b) := by
  intro c r n b
  have hb : (n.bind r).value = .ok b := by decide +kernel
  obtain ⟨-, -, hok⟩ := bind_recover_exact c r
  obtain ⟨-, hrecover, hagain⟩ := hok b hb
  refine ⟨hb, hrecover.trans ?_, hagain⟩
  decide +kernel

end Naming

end DropRules
