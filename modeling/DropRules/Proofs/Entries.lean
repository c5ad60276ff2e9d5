import DropRules.Proofs.Misfits
import DropRules.Proofs.Yaml.Atoms
import DropRules.Proofs.Yaml.Decoding
import DropRules.Settings

/-!
# Entries, written as values and read again

An entry of a settings file is a mapping (`Entry.fields`).  A rarity or a list of conditions that is
not there has no field; the other fields are always written.  Read again, such a mapping is the
entry that it was made from (`Entry.ofValue_value`), and if that entry was made from a rule, the
names in it lead back to the rule (`Entry.value_toNamed_ofRule`).

So a document that is a list of such mappings is read as the rules that they were made from
(`RuleList.value_ofText`).
-/

namespace DropRules

open Yaml (Value Complaint)

/-! ## Names -/

namespace Symbol

variable {σ : Type} [Symbol σ]

/-- A name leads back to its symbol, if no two names of the set are alike. -/
theorem ofName?_name
    (h : ((all : List σ).map fun s => (name s).toList.map Char.toLower).Nodup) {s : σ}
    (hs : s ∈ (all : List σ)) : ofName? (name s) = some s := by
  obtain ⟨found, hfound⟩ : ∃ t, ofName? (name s) = some (t : σ) :=
    Option.isSome_iff_exists.mp (List.find?_isSome.mpr ⟨s, hs, decide_eq_true rfl⟩)
  have hfind : (all : List σ).find? (fun t => Alike (name t) (name s)) = some found := hfound
  have halike : Alike (name found) (name s) :=
    of_decide_eq_true (List.find?_some (p := fun t => decide (Alike (name t) (name s))) hfind)
  have heq : found = s := List.inj_on_of_nodup_map h (List.mem_of_find?_eq_some hfind) hs halike
  rw [hfound, heq]

end Symbol

set_option maxRecDepth 4000 in
theorem Condition.nodup_lowerNames :
    ((Symbol.all : List Condition).map fun c => (Symbol.name c).toList.map Char.toLower).Nodup := by
  decide +kernel

theorem Rarity.nodup_lowerNames :
    ((Symbol.all : List Rarity).map fun r => (Symbol.name r).toList.map Char.toLower).Nodup := by
  decide +kernel

/-- The name of a condition leads back to it. -/
theorem Condition.ofName?_name (c : Condition) : Symbol.ofName? c.name = some c :=
  Symbol.ofName?_name nodup_lowerNames (by cases c <;> decide)

/-- The name of a rarity leads back to it. -/
theorem Rarity.ofName?_name (r : Rarity) : Symbol.ofName? r.name = some r :=
  Symbol.ofName?_name nodup_lowerNames (by cases r <;> decide)

namespace Entry

/-! ## Values -/

/-- The field of conditions, if there are any. -/
def conditionFields : List String → List (String × Value)
  | [] => []
  | c :: cs => [("conditions", .sequence ((c :: cs).map .text))]

/-- The fields of an entry, as values, in the order in which they are written. -/
def fields (e : Entry) : List (String × Value) :=
  [("possibleItems", .sequence (e.items.map fun i => .integer i.toInt)),
    ("chanceNumerator", .integer e.numerator.toInt),
    ("chanceDenominator", .integer e.denominator.toInt)]
    ++ e.rarity.toList.map (fun r => ("rarity", .text r)) ++ conditionFields e.conditions

/-- The value of an entry. -/
def value (e : Entry) : Value :=
  .mapping (e.fields.map fun f => (.text f.1, f.2))

/-- The names of the fields, in the order in which they are written. -/
def fieldNames : List String :=
  ["possibleItems", "chanceNumerator", "chanceDenominator", "rarity", "conditions"]

/-- Every field is written at most once. -/
theorem sublist_fieldNames (e : Entry) : (e.fields.map (·.1)).Sublist fieldNames := by
  obtain ⟨items, numerator, denominator, rarity, conditions⟩ := e
  have hrarity : ((rarity.toList.map fun r => ("rarity", Value.text r)).map (·.1)).Sublist
      ["rarity"] := by
    cases rarity with
    | none => exact List.nil_sublist _
    | some r => exact List.Sublist.refl _
  rw [fields, List.map_append, List.map_append]
  refine (List.Sublist.append_left hrarity
    ["possibleItems", "chanceNumerator", "chanceDenominator"]).append ?_
  cases conditions with
  | nil => exact List.nil_sublist _
  | cons c conditions => exact List.Sublist.refl _

theorem nodup_fields (e : Entry) : (e.fields.map (·.1)).Nodup :=
  (sublist_fieldNames e).nodup (by decide)

theorem isName_of_mem_fields (e : Entry) : ∀ f ∈ e.fields, Yaml.isName f.1.toList := by
  intro f hf
  have hnames : ∀ name ∈ fieldNames, Yaml.isName name.toList := by decide
  exact hnames f.1 ((sublist_fieldNames e).mem (List.mem_map_of_mem hf))

/-- What is true of the value of every field of an entry: it is an integer of 32 bits, or a text of
the entry, or a list of these. -/
theorem forall_mem_fields {p : Value → Prop} (e : Entry)
    (hitems : p (.sequence (e.items.map fun i => .integer i.toInt)))
    (hinteger : ∀ i : Int32, p (.integer i.toInt)) (hrarity : ∀ r ∈ e.rarity, p (.text r))
    (hconditions : p (.sequence (e.conditions.map .text))) : ∀ f ∈ e.fields, p f.2 := by
  obtain ⟨items, numerator, denominator, rarity, conditions⟩ := e
  rw [fields, List.forall_mem_append, List.forall_mem_append, List.forall_mem_cons,
    List.forall_mem_cons, List.forall_mem_singleton, List.forall_mem_map]
  refine ⟨⟨⟨hitems, hinteger _, hinteger _⟩, fun r hr => ?_⟩, ?_⟩
  · exact hrarity r (Option.mem_toList.mp hr)
  · cases conditions with
    | nil => exact fun _ hf => absurd hf List.not_mem_nil
    | cons c conditions => exact List.forall_mem_singleton.mpr hconditions

/-- A list is written item by item. -/
theorem isListOf_map {α : Type} {p : Value → α → Prop} {f : α → Value} (h : ∀ a, p (f a) a)
    (as : List α) : IsListOf p (.sequence (as.map f)) as :=
  .inr ⟨_, rfl, List.forall₂_map_left_iff.mpr (List.forall₂_same.mpr fun a _ => h a)⟩

/-- An entry fits its own fields. -/
theorem fits_fields (e : Entry) : Fits e.fields e := by
  obtain ⟨items, numerator, denominator, rarity, conditions⟩ := e
  have hinteger : ∀ i : Int32, IsInt32 (.integer i.toInt) i := fun _ => rfl
  have htext : ∀ s, IsText (.text s) s := fun _ => rfl
  have hitems := isListOf_map hinteger items
  have hconditions := isListOf_map htext
  refine ⟨hitems, rfl, rfl, ?_, ?_⟩
  · cases rarity with
    | none => cases conditions <;> rfl
    | some r => exact .inr ⟨r, rfl, rfl⟩
  · cases conditions with
    | nil => cases rarity <;> rfl
    | cons c cs =>
      cases rarity with
      | none => exact hconditions (c :: cs)
      | some r => exact hconditions (c :: cs)

/-- **An entry reads back** from its value. -/
theorem ofValue_value (e : Entry) : ofValue e.value = .ok e :=
  (ofValue_record_eq_ok_iff e.nodup_fields).mpr e.fits_fields

/-- **A list of entries reads back** from its values, and none of them is left out. -/
theorem ofValues_value (es : List Entry) : ofValues (es.map value) = (es, []) := by
  have hentries : (ofValues (es.map value)).1 = es := by
    have hvalue : ofValue? ∘ value = some :=
      funext fun e => congrArg Except.toOption (ofValue_value e)
    rw [fst_ofValues, List.filterMap_map, hvalue, List.filterMap_some]
  have hlength := length_ofValues (es.map value)
  rw [hentries, List.length_map, Nat.add_eq_left, List.length_eq_zero_iff] at hlength
  exact Prod.ext hentries hlength

/-! ## Rules -/

theorem value_namedRarity (r : Option String) :
    (namedRarity r).value = r.bind Symbol.ofName? := by
  cases r with
  | none => rfl
  | some name =>
    rw [namedRarity, Option.bind_some]
    cases (Symbol.ofName? name : Option Rarity) <;> rfl

theorem value_namedConditions (names : List String) :
    (namedConditions names).value = names.filterMap Symbol.ofName? := by
  induction names with
  | nil => rfl
  | cons name names ih =>
    rw [namedConditions, List.filterMap_cons]
    cases (Symbol.ofName? name : Option Condition) with
    | none => exact ih
    | some c => exact congrArg (c :: ·) ih

/-- The rule that an entry writes down has what the entry has, and of the names in it those that are
recognised, in their order. -/
theorem value_toNamed (e : Entry) :
    e.toNamed.value = ⟨e.items, e.numerator, e.denominator, e.rarity.bind Symbol.ofName?,
      e.conditions.filterMap Symbol.ofName?⟩ := by
  rw [← value_namedRarity, ← value_namedConditions]
  rfl

/-- **A rule leads back to itself** through the entry that writes it down. -/
theorem value_toNamed_ofRule (r : NamedRule) : (ofRule r).toNamed.value = r := by
  have hrarity : (r.rarity.map Rarity.name).bind Symbol.ofName? = r.rarity := by
    have hname : Symbol.ofName? ∘ Rarity.name = some := funext Rarity.ofName?_name
    rw [Option.bind_map, hname, Option.bind_fun_some]
  have hconditions : (r.conditions.map Condition.name).filterMap Symbol.ofName? = r.conditions := by
    have hname : Symbol.ofName? ∘ Condition.name = some := funext Condition.ofName?_name
    rw [List.filterMap_map, hname, List.filterMap_some]
  rw [value_toNamed]
  show NamedRule.mk r.items r.numerator r.denominator
    ((r.rarity.map Rarity.name).bind Symbol.ofName?)
    ((r.conditions.map Condition.name).filterMap Symbol.ofName?) = r
  rw [hrarity, hconditions]

end Entry

/-! ## Lists of rules -/

open Yaml (Node Path Decode Document Mark Source)

variable {m m' m'' : Mark} {es : List Entry} {ns : List Node}

/-- Nodes that mean entries are read as their values. -/
theorem Draft.readList_entries (h : List.Forall₂ (Node.Means 126) (es.map Entry.value) ns)
    (src : Source) (path : Path) :
    Draft.readList src m path (.sequence m' none none ns) = pure (es.map Entry.value) :=
  Node.Means.items h src (Nat.le_refl _) path 0

/-- The only field of a list of rules. -/
theorem Draft.read_ruleList (h : List.Forall₂ (Node.Means 126) (es.map Entry.value) ns)
    (src : Source) :
    Draft.read src .ruleList (.mapping m none none
        [(.scalar m' none none .plain "rules".toList, .sequence m'' none none ns)]) =
      (⟨none, none, some (es.map Entry.value)⟩, none) := by
  have hfield : Draft.readField src .ruleList m .blank (.scalar m' none none .plain "rules".toList)
      (.sequence m'' none none ns) =
      (do
        let vs ← Draft.readList src m (Path.root.child (.scalar m' none none .plain "rules".toList))
          (.sequence m'' none none ns)
        pure ⟨none, none, some vs⟩) := rfl
  show Draft.readFields src .ruleList m .blank 0 _ = _
  rw [Draft.readFields, hfield, Draft.readList_entries h]
  rfl

/-- **A list of rules is read back** from a document in which every item means an entry. -/
theorem RuleList.value_ofText {text : String}
    (h : List.Forall₂ (Node.Means 126) (es.map Entry.value) ns)
    (htext : Document.ofText text.toList =
      ⟨.mapping m none none
        [(.scalar m' none none .plain "rules".toList, .sequence m'' none none ns)], none, false⟩) :
    (RuleList.ofText text).value = .ok (es.map fun e => e.toNamed.value) := by
  have hdraft : Draft.ofText .ruleList text = (⟨none, none, some (es.map Entry.value)⟩, none) := by
    rw [Draft.ofText]
    simp only [htext, Draft.read_ruleList h]
    rfl
  have hentries : (⟨none, none, some (es.map Entry.value)⟩ : Draft).entries = ⟨es, []⟩ := by
    rw [Draft.entries]
    simp only [Option.getD_some, Entry.ofValues_value]
    rfl
  rw [RuleList.ofText]
  simp only [hdraft, hentries, Logged.value_bind, Logged.value_mapM]
  rfl

end DropRules
