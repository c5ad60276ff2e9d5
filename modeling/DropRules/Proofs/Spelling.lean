import DropRules.Proofs.Directory
import DropRules.Proofs.Entries
import Mathlib.Data.List.Forall2
import Mathlib.Data.Set.Subsingleton

/-!
# Names, however they are spelled

Where an entry of a settings file has names, it may have any texts.  A text is read as a symbol by
making small letters of the capitals on both sides and comparing what comes of it.  Here this is said
without making anything of the texts: which characters may stand where the name has its own
(`Symbol.SameLetter`).  A text spells a name if it has as many characters, and each may stand where it
stands (`Symbol.Spells`).  So there is nothing in front of the name and nothing behind it, and a letter
beyond ASCII is spelled in one way only.

No text spells two names of a set.  So it does not matter which of the names is tried first: a text is
read as a symbol exactly if it spells the name of that symbol (`Symbol.ofName?_eq_some_iff`).

An entry may therefore spell a rule in many ways, and say things besides that are no names.  Read as a
rule it keeps what it spells.  Written down again, the rule has one spelling for each name, and that is
read as the same rule: to read an entry is to choose among all entries the one that is spelled as the
names are (`Entry.toNamed_exact`).
-/

namespace DropRules

namespace Symbol

/-! ## Spelling -/

/-- A capital letter of ASCII, and the same letter as a small one. -/
def IsCapitalOf (c d : Char) : Prop :=
  'A' ≤ c ∧ c ≤ 'Z' ∧ d.toNat = c.toNat + 32

/-- The same character, or the same letter of ASCII in its two cases. -/
def SameLetter (c d : Char) : Prop :=
  c = d ∨ IsCapitalOf c d ∨ IsCapitalOf d c

/-- A text spells a name: they differ at most in the case of letters of ASCII. -/
def Spells (text name : String) : Prop :=
  List.Forall₂ SameLetter text.toList name.toList

theorem toNat_toLower (c : Char) :
    c.toLower.toNat = if 65 ≤ c.toNat ∧ c.toNat ≤ 90 then c.toNat + 32 else c.toNat := by
  have hcapital : (c.val ≥ 'A'.val ∧ c.val ≤ 'Z'.val) ↔ 65 ≤ c.toNat ∧ c.toNat ≤ 90 := Iff.rfl
  by_cases h : 65 ≤ c.toNat ∧ c.toNat ≤ 90
  · have hlower : c.toLower = _ := dif_pos (hcapital.mpr h)
    have hval : c.val.toNat ≤ 90 := h.2
    rw [hlower, if_pos h]
    show (c.val + 32).toNat = c.val.toNat + 32
    rw [UInt32.toNat_add, Nat.mod_eq_of_lt (by show _ + 32 < _; omega)]
    rfl
  · have hlower : c.toLower = c := dif_neg (mt hcapital.mp h)
    rw [hlower, if_neg h]

/-- Two characters have the same small letter if and only if they are the same letter. -/
theorem toLower_eq_toLower_iff {c d : Char} : c.toLower = d.toLower ↔ SameLetter c d := by
  have hcapital (c d : Char) :
      IsCapitalOf c d ↔ 65 ≤ c.toNat ∧ c.toNat ≤ 90 ∧ d.toNat = c.toNat + 32 := Iff.rfl
  rw [SameLetter, hcapital, hcapital, ← Char.toNat_inj, ← Char.toNat_inj, toNat_toLower,
    toNat_toLower]
  split_ifs <;> omega

theorem alike_iff_spells {text name : String} : Alike name text ↔ Spells text name := by
  rw [Alike, Spells, eq_comm, ← List.forall₂_eq_eq_eq, List.forall₂_map_left_iff,
    List.forall₂_map_right_iff]
  simp only [toLower_eq_toLower_iff]

variable {σ : Type} [Symbol σ]

/-- Texts that are alike are read alike. -/
theorem ofName?_congr {s t : String} (h : Alike s t) : (ofName? s : Option σ) = ofName? t := by
  have halike (name : String) : Alike name s ↔ Alike name t :=
    ⟨fun hs => hs.trans h, fun ht => ht.trans h.symm⟩
  rw [ofName?, ofName?]
  simp only [halike]

/-- **A text is read as the symbol whose name it spells**, if no two names of the set are alike. -/
theorem ofName?_eq_some_iff [Listed σ]
    (h : ((all : List σ).map fun s => (name s).toList.map Char.toLower).Nodup)
    {text : String} {s : σ} : ofName? text = some s ↔ Spells text (name s) := by
  rw [← alike_iff_spells]
  constructor
  · intro hs
    exact of_decide_eq_true (List.find?_some (p := fun s => decide (Alike (name s) text)) hs)
  · intro halike
    rw [← ofName?_congr halike, ofName?_name h (Listed.mem_all s)]

/-- No text spells two names, if no two names of the set are alike. -/
theorem subsingleton_spelled [Listed σ]
    (h : ((all : List σ).map fun s => (name s).toList.map Char.toLower).Nodup) (text : String) :
    {s : σ | Spells text (name s)}.Subsingleton := fun _ hs _ ht =>
  Option.some.inj (((ofName?_eq_some_iff h).mpr hs).symm.trans ((ofName?_eq_some_iff h).mpr ht))

end Symbol

theorem Condition.ofName?_eq_some_iff {text : String} {c : Condition} :
    Symbol.ofName? text = some c ↔ Symbol.Spells text c.name :=
  Symbol.ofName?_eq_some_iff nodup_lowerNames

theorem Rarity.ofName?_eq_some_iff {text : String} {r : Rarity} :
    Symbol.ofName? text = some r ↔ Symbol.Spells text r.name :=
  Symbol.ofName?_eq_some_iff nodup_lowerNames

/-! ## Entries -/

namespace Entry

/-- An entry names a rarity exactly if its text for one spells the name of that rarity. -/
theorem rarity_toNamed_eq_some_iff {e : Entry} {r : Rarity} :
    e.toNamed.value.rarity = some r ↔ ∃ text ∈ e.rarity, Symbol.Spells text r.name := by
  rw [value_toNamed]
  show e.rarity.bind Symbol.ofName? = some r ↔ _
  rw [Option.bind_eq_some_iff]
  exact exists_congr fun text => and_congr_right fun _ => Rarity.ofName?_eq_some_iff

/-- **Reading the names of an entry is a choice of one spelling.**  A text is read as a condition or as
a rarity exactly if it spells its name, and no text spells the names of two.  So a rule that is written
down as an entry is read back.  And of any entry, whatever texts it has, what is read has its items and
its fraction, the conditions that are spelled in it, in their order and as often as they are spelled,
and a rarity exactly if the entry has a text for one that spells a name.  If that is written down, what
is read is the same. -/
theorem toNamed_exact :
    (∀ (text : String) (c : Condition),
        Symbol.ofName? text = some c ↔ Symbol.Spells text c.name) ∧
      (∀ (text : String) (r : Rarity),
        Symbol.ofName? text = some r ↔ Symbol.Spells text r.name) ∧
      (∀ text : String, {c : Condition | Symbol.Spells text c.name}.Subsingleton) ∧
      (∀ text : String, {r : Rarity | Symbol.Spells text r.name}.Subsingleton) ∧
      (∀ r : NamedRule, (ofRule r).toNamed.value = r) ∧
      ∀ e : Entry,
        let r := e.toNamed.value
        r.items = e.items ∧ r.numerator = e.numerator ∧ r.denominator = e.denominator ∧
          r.conditions = e.conditions.filterMap Symbol.ofName? ∧
          (∀ q, r.rarity = some q ↔ ∃ text ∈ e.rarity, Symbol.Spells text q.name) ∧
          (ofRule r).toNamed.value = r := by
  refine ⟨fun text c => Condition.ofName?_eq_some_iff, fun text r => Rarity.ofName?_eq_some_iff,
    Symbol.subsingleton_spelled Condition.nodup_lowerNames,
    Symbol.subsingleton_spelled Rarity.nodup_lowerNames, value_toNamed_ofRule, fun e => ?_⟩
  have hnamed := e.value_toNamed
  exact ⟨congrArg (·.items) hnamed, congrArg (·.numerator) hnamed, congrArg (·.denominator) hnamed,
    congrArg (·.conditions) hnamed, fun q => rarity_toNamed_eq_some_iff, value_toNamed_ofRule _⟩

/-- To Unicode the Kelvin sign is a capital whose small letter is the k of ASCII, but it spells no letter
of a name.  Neither does a blank, and half a name is none. -/
example :
    (⟨[7], 1, 4, some "VERYrare", ["junK", "jun\u212A", " Junk", "Crat", "OCEAN", "Junk"]⟩ :
        Entry).toNamed.value =
      ⟨[7], 1, 4, some .veryRare, [.junk, .ocean, .junk]⟩ := by
  decide +kernel

end Entry

end DropRules
