import DropRules.Entry
import Mathlib.Data.List.Forall2
import Mathlib.Data.List.Nodup
import Mathlib.Tactic.MkIffOfInductiveProp

/-!
# The fields of an entry

An entry is read from a record field by field, and the first field that does not fit ends it.  Here it
is told without an order which records are entries, and which.

## 1.  Values

Each kind of field has its relation between the values that may stand there and what they say:
`Entry.IsInt32`, `Entry.IsText`, `Entry.IsListOf` and `Entry.IsOptionalText`.  A reader succeeds with
what its relation says, and only then.  Tags are looked through, with one exception: a null under a tag
is no absent rarity.

## 2.  Columns

A draft has five slots, and what a field does to one of them does not depend on the others.  So to read
a record is to read five columns, each with the fields of one name (`Entry.readFields_eq_ok_iff`), and
what is true of a column is told once for all of them (`Entry.Draft.Each`).

## 3.  Records

If no name occurs twice, then a column has one field at most.  An entry is read exactly if it fits the
fields (`Entry.Fits`), and there is one that fits exactly if every field is acceptable on its own
(`Entry.Admits`).
-/

namespace DropRules

open Yaml (Value Complaint)

namespace Entry

variable {α : Type}

/-! ## 1.  Values -/

/-- The value is this integer of 32 bits. -/
def IsInt32 (v : Value) (i : Int32) : Prop :=
  v.untagged = .integer i.toInt

/-- The value is this text. -/
def IsText (v : Value) (s : String) : Prop :=
  v.untagged = .text s

/-- The value is a list of what is related to these, item by item; null is the empty list. -/
def IsListOf (p : Value → α → Prop) (v : Value) (as : List α) : Prop :=
  (v.untagged = .null ∧ as = []) ∨ ∃ vs, v.untagged = .sequence vs ∧ List.Forall₂ p vs as

/-- The value is this text, or null where there is none. -/
def IsOptionalText (v : Value) (o : Option String) : Prop :=
  (v = .null ∧ o = none) ∨ ∃ s, IsText v s ∧ o = some s

theorem int32_eq_ok_iff {v : Value} {i : Int32} : int32 v = .ok i ↔ IsInt32 v i := by
  have hlow := i.le_toInt
  have hhigh := i.toInt_lt
  rw [int32, IsInt32]
  split
  · rename_i n hn
    rw [hn, Value.integer.injEq]
    split_ifs with hrange
    · rw [Except.ok.injEq, ← Int32.toInt_inj, Int32.toInt_ofInt_of_le (by omega) (by omega)]
    · constructor
      · nofun
      · rintro rfl
        omega
  · rename_i hno
    exact ⟨nofun, fun h => absurd h (hno _)⟩

theorem text_eq_ok_iff {v : Value} {s : String} : text v = .ok s ↔ IsText v s := by
  rw [text, IsText]
  split
  · rename_i t ht
    rw [ht, Value.text.injEq, Except.ok.injEq]
  · rename_i hno
    exact ⟨nofun, fun h => absurd h (hno _)⟩

theorem text?_eq_ok_iff {v : Value} {o : Option String} : text? v = .ok o ↔ IsOptionalText v o := by
  rw [IsOptionalText]
  unfold text?
  split
  · simp [IsText, Value.untagged, eq_comm]
  · rename_i hv
    simp only [show v ≠ .null from hv, false_and, false_or, ← text_eq_ok_iff]
    cases text v <;> simp [Except.map, eq_comm]

theorem mapM_eq_ok_iff {item : Value → Except Complaint α} {p : Value → α → Prop}
    (h : ∀ v a, item v = .ok a ↔ p v a) {vs : List Value} {as : List α} :
    vs.mapM item = .ok as ↔ List.Forall₂ p vs as := by
  induction vs generalizing as with
  | nil =>
    rw [List.mapM_nil, List.forall₂_nil_left_iff]
    exact ⟨fun h => (Except.ok.inj h).symm, fun h => congrArg Except.ok h.symm⟩
  | cons v vs ih =>
    rw [List.mapM_cons, List.forall₂_cons_left_iff]
    simp only [← h, ← ih]
    cases item v with
    | error c => simp [bind, Except.bind]
    | ok a => cases vs.mapM item <;> simp [bind, Except.bind, pure, Except.pure, eq_comm]

theorem list_eq_ok_iff {item : Value → Except Complaint α} {p : Value → α → Prop}
    (h : ∀ v a, item v = .ok a ↔ p v a) {v : Value} {as : List α} :
    list item v = .ok as ↔ IsListOf p v as := by
  rw [list, IsListOf]
  split
  · rename_i vs hvs
    simp [hvs, mapM_eq_ok_iff h]
  · rename_i hnull
    simp [hnull, eq_comm]
  · rename_i hsequence hnull
    refine ⟨nofun, ?_⟩
    rintro (⟨hv, -⟩ | ⟨vs, hv, -⟩)
    · exact (hnull hv).elim
    · exact (hsequence vs hv).elim

/-! ## 2.  Columns -/

/-- What a field does to the slot of a column: it is read if it has the name of the column, and passed
over if not. -/
def readSlot (column : String) (read : Value → Except Complaint α) (slot : Option α)
    (f : String × Value) : Except Complaint (Option α) :=
  if f.1 = column then once column slot (read f.2) else .ok slot

/-- What is said of a column, with its name, its reader and its slot in two drafts, is true of each of
the five. -/
@[mk_iff]
structure Draft.Each
    (p : {α : Type} → String → (Value → Except Complaint α) → Option α → Option α → Prop)
    (d d' : Draft) : Prop where
  items : p "possibleItems" (list int32) d.items d'.items
  numerator : p "chanceNumerator" int32 d.numerator d'.numerator
  denominator : p "chanceDenominator" int32 d.denominator d'.denominator
  rarity : p "rarity" text? d.rarity d'.rarity
  conditions : p "conditions" (list text) d.conditions d'.conditions

/-- **A field is read into its column**, and leaves the others as they are. -/
theorem readField_eq_ok_iff {d d' : Draft} {name : String} {v : Value} :
    readField d name v = .ok d' ↔
      d.Each (fun column read before after => readSlot column read before (name, v) = .ok after)
        d' := by
  obtain ⟨items, numerator, denominator, rarity, conditions⟩ := d
  obtain ⟨items', numerator', denominator', rarity', conditions'⟩ := d'
  simp only [Draft.each_iff, readSlot]
  unfold readField
  -- the five names, and any other
  split
  · cases once "possibleItems" items (list int32 v) <;> simp [bind, Except.bind, pure, Except.pure]
  · cases once "chanceNumerator" numerator (int32 v) <;>
      simp [bind, Except.bind, pure, Except.pure]
  · cases once "chanceDenominator" denominator (int32 v) <;>
      simp [bind, Except.bind, pure, Except.pure]
  · cases once "rarity" rarity (text? v) <;> simp [bind, Except.bind, pure, Except.pure]
  · cases once "conditions" conditions (list text v) <;>
      simp [bind, Except.bind, pure, Except.pure]
  · rename_i h₁ h₂ h₃ h₄ h₅
    simp only [if_neg h₁, if_neg h₂, if_neg h₃, if_neg h₄, if_neg h₅]
    simp [pure, Except.pure]

theorem readFields_cons (d : Draft) (name : String) (v : Value) (rest : List (Value × Value)) :
    readFields d ((.text name, v) :: rest) = readField d name v >>= (readFields · rest) := rfl

theorem bind_eq_ok_iff {β : Type} {x : Except Complaint α} {f : α → Except Complaint β} {b : β} :
    x >>= f = .ok b ↔ ∃ a, x = .ok a ∧ f a = .ok b := by
  cases x <;> simp [bind, Except.bind]

/-- **A record is read column by column.** -/
theorem readFields_eq_ok_iff {d d' : Draft} {fields : List (String × Value)} :
    readFields d (fields.map fun f => (.text f.1, f.2)) = .ok d' ↔
      d.Each (fun column read before after =>
        fields.foldlM (readSlot column read) before = .ok after) d' := by
  induction fields generalizing d with
  | nil =>
    obtain ⟨items, numerator, denominator, rarity, conditions⟩ := d
    obtain ⟨items', numerator', denominator', rarity', conditions'⟩ := d'
    simp [readFields, Draft.each_iff, pure, Except.pure]
  | cons f fields ih =>
    obtain ⟨name, v⟩ := f
    rw [List.map_cons, readFields_cons, bind_eq_ok_iff]
    simp only [ih, readField_eq_ok_iff, List.foldlM_cons]
    constructor
    · rintro ⟨d₁, hfield, hfields⟩
      exact ⟨bind_eq_ok_iff.mpr ⟨_, hfield.items, hfields.items⟩,
        bind_eq_ok_iff.mpr ⟨_, hfield.numerator, hfields.numerator⟩,
        bind_eq_ok_iff.mpr ⟨_, hfield.denominator, hfields.denominator⟩,
        bind_eq_ok_iff.mpr ⟨_, hfield.rarity, hfields.rarity⟩,
        bind_eq_ok_iff.mpr ⟨_, hfield.conditions, hfields.conditions⟩⟩
    · rintro ⟨hitems, hnumerator, hdenominator, hrarity, hconditions⟩
      obtain ⟨items, hitems, hitems'⟩ := bind_eq_ok_iff.mp hitems
      obtain ⟨numerator, hnumerator, hnumerator'⟩ := bind_eq_ok_iff.mp hnumerator
      obtain ⟨denominator, hdenominator, hdenominator'⟩ := bind_eq_ok_iff.mp hdenominator
      obtain ⟨rarity, hrarity, hrarity'⟩ := bind_eq_ok_iff.mp hrarity
      obtain ⟨conditions, hconditions, hconditions'⟩ := bind_eq_ok_iff.mp hconditions
      -- the draft behind the first field is put together from its slots
      exact ⟨⟨items, numerator, denominator, rarity, conditions⟩,
        ⟨hitems, hnumerator, hdenominator, hrarity, hconditions⟩,
        ⟨hitems', hnumerator', hdenominator', hrarity', hconditions'⟩⟩

/-- A column without a field keeps its slot. -/
theorem foldlM_readSlot_of_notMem {column : String} (read : Value → Except Complaint α)
    (slot : Option α) {fields : List (String × Value)} (h : column ∉ fields.map (·.1)) :
    fields.foldlM (readSlot column read) slot = .ok slot := by
  induction fields with
  | nil => rfl
  | cons f fields ih =>
    rw [List.map_cons, List.mem_cons, not_or] at h
    rw [List.foldlM_cons, readSlot, if_neg (Ne.symm h.1)]
    exact ih h.2

/-- If no name occurs twice, then the slot of a column holds what its field says, if it has one. -/
theorem foldlM_readSlot {fields : List (String × Value)} (h : (fields.map (·.1)).Nodup)
    (column : String) (read : Value → Except Complaint α) :
    fields.foldlM (readSlot column read) none = (fields.lookup column).mapM read := by
  induction fields with
  | nil => rfl
  | cons f fields ih =>
    obtain ⟨name, v⟩ := f
    rw [List.map_cons, List.nodup_cons] at h
    rw [List.foldlM_cons, readSlot, List.lookup_cons]
    by_cases hname : name = column
    · subst hname
      rw [if_pos rfl, beq_self_eq_true, once, Option.mapM_some]
      cases read v with
      | error c => rfl
      | ok a => exact foldlM_readSlot_of_notMem read (some a) h.1
    · rw [if_neg hname, beq_false_of_ne (Ne.symm hname)]
      exact ih h.2

/-! ## 3.  Records -/

/-- A record with these fields. -/
def record (fields : List (String × Value)) : Value :=
  .mapping (fields.map fun f => (.text f.1, f.2))

/-- What an absent or present field says of the part of an entry that it is for, which is `missing` if
the field is absent. -/
def Says (p : Value → α → Prop) (missing : α) (v? : Option Value) (a : α) : Prop :=
  v?.elim (a = missing) (p · a)

/-- An entry fits the fields of a record: it is what they say, with defaults for those that are not
there. -/
structure Fits (fields : List (String × Value)) (e : Entry) : Prop where
  items : Says (IsListOf IsInt32) [] (fields.lookup "possibleItems") e.items
  numerator : Says IsInt32 1 (fields.lookup "chanceNumerator") e.numerator
  denominator : Says IsInt32 1 (fields.lookup "chanceDenominator") e.denominator
  rarity : Says IsOptionalText none (fields.lookup "rarity") e.rarity
  conditions : Says (IsListOf IsText) [] (fields.lookup "conditions") e.conditions

/-- What is put into an entry from the slot of a column is what its field says. -/
theorem exists_slot_iff {read : Value → Except Complaint α} {p : Value → α → Prop}
    (h : ∀ v a, read v = .ok a ↔ p v a) {missing a : α} {v? : Option Value} :
    (∃ slot, v?.mapM read = .ok slot ∧ slot.getD missing = a) ↔ Says p missing v? a := by
  cases v? with
  | none => simp [Says, pure, Except.pure, eq_comm]
  | some v =>
    rw [Says, Option.elim_some, ← h, Option.mapM_some]
    cases read v <;> simp [Functor.map, Except.map]

/-- **An entry is read from a record exactly if it fits the fields**, if no name occurs twice. -/
theorem ofValue_record_eq_ok_iff {fields : List (String × Value)} (h : (fields.map (·.1)).Nodup)
    {e : Entry} : ofValue (record fields) = .ok e ↔ Fits fields e := by
  have hread : ofValue (record fields) = .ok e ↔
      ∃ d, readFields .blank (fields.map fun f => (.text f.1, f.2)) = .ok d ∧ d.finish = e := by
    show (readFields .blank _).map Draft.finish = .ok e ↔ _
    cases readFields .blank (fields.map fun f => (.text f.1, f.2)) <;> simp [Except.map]
  rw [hread]
  simp only [readFields_eq_ok_iff, Draft.each_iff, Draft.blank, foldlM_readSlot h]
  have hitems (v : Value) (is : List Item) : list int32 v = .ok is ↔ IsListOf IsInt32 v is :=
    list_eq_ok_iff fun _ _ => int32_eq_ok_iff
  have hconditions (v : Value) (ss : List String) : list text v = .ok ss ↔ IsListOf IsText v ss :=
    list_eq_ok_iff fun _ _ => text_eq_ok_iff
  constructor
  · rintro ⟨d, ⟨h₁, h₂, h₃, h₄, h₅⟩, rfl⟩
    exact ⟨(exists_slot_iff hitems).mp ⟨_, h₁, rfl⟩,
      (exists_slot_iff fun _ _ => int32_eq_ok_iff).mp ⟨_, h₂, rfl⟩,
      (exists_slot_iff fun _ _ => int32_eq_ok_iff).mp ⟨_, h₃, rfl⟩,
      (exists_slot_iff fun _ _ => text?_eq_ok_iff).mp ⟨_, h₄, rfl⟩,
      (exists_slot_iff hconditions).mp ⟨_, h₅, rfl⟩⟩
  · rintro ⟨h₁, h₂, h₃, h₄, h₅⟩
    obtain ⟨items, h₁, hitems⟩ := (exists_slot_iff hitems).mpr h₁
    obtain ⟨numerator, h₂, hnumerator⟩ := (exists_slot_iff fun _ _ => int32_eq_ok_iff).mpr h₂
    obtain ⟨denominator, h₃, hdenominator⟩ := (exists_slot_iff fun _ _ => int32_eq_ok_iff).mpr h₃
    obtain ⟨rarity, h₄, hrarity⟩ := (exists_slot_iff fun _ _ => text?_eq_ok_iff).mpr h₄
    obtain ⟨conditions, h₅, hconditions⟩ := (exists_slot_iff hconditions).mpr h₅
    refine ⟨⟨items, numerator, denominator, rarity, conditions⟩, ⟨h₁, h₂, h₃, h₄, h₅⟩, ?_⟩
    rw [Draft.finish, hitems, hnumerator, hdenominator, hrarity, hconditions]

/-! ### Acceptable fields -/

/-- The value is an integer of 32 bits. -/
def HoldsInt32 (v : Value) : Prop :=
  ∃ n, v.untagged = .integer n ∧ -2147483648 ≤ n ∧ n ≤ 2147483647

/-- The value is a text. -/
def HoldsText (v : Value) : Prop :=
  ∃ s, v.untagged = .text s

/-- The value is null, or a list of such values. -/
def HoldsListOf (p : Value → Prop) (v : Value) : Prop :=
  v.untagged = .null ∨ ∃ vs, v.untagged = .sequence vs ∧ ∀ w ∈ vs, p w

/-- The values that a field may have.  A field of another name may have any. -/
def Admits (name : String) (v : Value) : Prop :=
  match name with
  | "possibleItems" => HoldsListOf HoldsInt32 v
  | "chanceNumerator" => HoldsInt32 v
  | "chanceDenominator" => HoldsInt32 v
  | "rarity" => v = .null ∨ HoldsText v
  | "conditions" => HoldsListOf HoldsText v
  | _ => True

theorem exists_isInt32_iff {v : Value} : (∃ i, IsInt32 v i) ↔ HoldsInt32 v := by
  constructor
  · rintro ⟨i, hi⟩
    exact ⟨i.toInt, hi, i.le_toInt, Int.le_of_lt_add_one i.toInt_lt⟩
  · rintro ⟨n, hn, hlow, hhigh⟩
    refine ⟨Int32.ofInt n, ?_⟩
    rw [IsInt32, hn, Int32.toInt_ofInt_of_le (by omega) (by omega)]

theorem exists_isOptionalText_iff {v : Value} :
    (∃ o, IsOptionalText v o) ↔ v = .null ∨ HoldsText v := by
  simp [IsOptionalText, HoldsText, IsText, exists_or]

theorem exists_forall₂_iff {p : Value → α → Prop} {vs : List Value} :
    (∃ as, List.Forall₂ p vs as) ↔ ∀ v ∈ vs, ∃ a, p v a := by
  induction vs with
  | nil => simp
  | cons v vs ih =>
    simp only [List.forall₂_cons_left_iff, List.forall_mem_cons, ← ih]
    constructor
    · rintro ⟨_, a, as, ha, has, -⟩
      exact ⟨⟨a, ha⟩, as, has⟩
    · rintro ⟨⟨a, ha⟩, as, has⟩
      exact ⟨a :: as, a, as, ha, has, rfl⟩

theorem exists_isListOf_iff {p : Value → α → Prop} {v : Value} :
    (∃ as, IsListOf p v as) ↔ HoldsListOf (fun w => ∃ a, p w a) v := by
  simp only [IsListOf, HoldsListOf, exists_or, ← exists_forall₂_iff]
  refine or_congr ⟨fun ⟨_, h, _⟩ => h, fun h => ⟨[], h, rfl⟩⟩ ?_
  constructor
  · rintro ⟨as, vs, hvs, has⟩
    exact ⟨vs, hvs, as, has⟩
  · rintro ⟨vs, hvs, as, has⟩
    exact ⟨as, vs, hvs, has⟩

/-- Something is said of a part of an entry if the field is absent or acceptable. -/
theorem exists_says_iff {p : Value → α → Prop} {missing : α} {v? : Option Value} :
    (∃ a, Says p missing v? a) ↔ ∀ v ∈ v?, ∃ a, p v a := by
  cases v? <;> simp [Says]

theorem mem_lookup_iff {fields : List (String × Value)} (h : (fields.map (·.1)).Nodup)
    {name : String} {v : Value} : v ∈ fields.lookup name ↔ (name, v) ∈ fields := by
  induction fields with
  | nil => simp
  | cons f fields ih =>
    obtain ⟨key, w⟩ := f
    rw [List.map_cons, List.nodup_cons] at h
    rw [List.lookup_cons, List.mem_cons, Prod.mk.injEq]
    by_cases hkey : name = key
    · subst hkey
      have hother : (name, v) ∉ fields := fun hv => h.1 (List.mem_map.mpr ⟨_, hv, rfl⟩)
      simp [hother, eq_comm]
    · rw [beq_false_of_ne hkey]
      simp [hkey, ih h.2]

/-- Something is said of a part of an entry exactly if the fields for it are acceptable. -/
theorem exists_says_lookup_iff {fields : List (String × Value)} (h : (fields.map (·.1)).Nodup)
    {name : String} {p : Value → α → Prop} (hp : ∀ v, (∃ a, p v a) ↔ Admits name v) {missing : α} :
    (∃ a, Says p missing (fields.lookup name) a) ↔ ∀ v, (name, v) ∈ fields → Admits name v := by
  simp only [exists_says_iff, mem_lookup_iff h, hp]

/-- **There is an entry that fits exactly if every field is acceptable**, if no name occurs twice. -/
theorem exists_fits_iff {fields : List (String × Value)} (h : (fields.map (·.1)).Nodup) :
    (∃ e, Fits fields e) ↔ ∀ f ∈ fields, Admits f.1 f.2 := by
  have hitems (v : Value) : (∃ as, IsListOf IsInt32 v as) ↔ Admits "possibleItems" v := by
    simp only [exists_isListOf_iff, exists_isInt32_iff, Admits]
  have hnumerator (v : Value) : (∃ i, IsInt32 v i) ↔ Admits "chanceNumerator" v :=
    exists_isInt32_iff
  have hdenominator (v : Value) : (∃ i, IsInt32 v i) ↔ Admits "chanceDenominator" v :=
    exists_isInt32_iff
  have hrarity (v : Value) : (∃ o, IsOptionalText v o) ↔ Admits "rarity" v :=
    exists_isOptionalText_iff
  have hconditions (v : Value) : (∃ as, IsListOf IsText v as) ↔ Admits "conditions" v :=
    exists_isListOf_iff
  constructor
  · rintro ⟨e, he⟩ ⟨name, v⟩
    unfold Admits
    dsimp only
    split
    · exact (exists_says_lookup_iff h hitems).mp ⟨_, he.items⟩ v
    · exact (exists_says_lookup_iff h hnumerator).mp ⟨_, he.numerator⟩ v
    · exact (exists_says_lookup_iff h hdenominator).mp ⟨_, he.denominator⟩ v
    · exact (exists_says_lookup_iff h hrarity).mp ⟨_, he.rarity⟩ v
    · exact (exists_says_lookup_iff h hconditions).mp ⟨_, he.conditions⟩ v
    · exact fun _ => trivial
  · intro hall
    obtain ⟨_, h₁⟩ := (exists_says_lookup_iff h hitems).mpr fun _ hv => hall _ hv
    obtain ⟨_, h₂⟩ := (exists_says_lookup_iff h hnumerator).mpr fun _ hv => hall _ hv
    obtain ⟨_, h₃⟩ := (exists_says_lookup_iff h hdenominator).mpr fun _ hv => hall _ hv
    obtain ⟨_, h₄⟩ := (exists_says_lookup_iff h hrarity).mpr fun _ hv => hall _ hv
    obtain ⟨_, h₅⟩ := (exists_says_lookup_iff h hconditions).mpr fun _ hv => hall _ hv
    exact ⟨⟨_, _, _, _, _⟩, h₁, h₂, h₃, h₄, h₅⟩

end Entry

end DropRules
