import DropRules.Proofs.Misfits
import DropRules.Proofs.Yaml.Meaning
import DropRules.Settings

/-!
# Replacing one entry of a list of rules

Lists of rules are read leniently: an entry that does not fit is left out, and the others are not
touched by it.  Here one entry of a list is replaced by another node (`Edit`), and the question is
what becomes of the other entries.

## 1.  Records

Wherever the new entry has a value (`Node.value?`), it is one value in a list of values, and the
record is read as before but for this value (`Draft.readRecord_replaced`).  But the values of all
entries are read before any of them is looked at as an entry, so if the new entry has no value, then
the record is not read at all (`Draft.readRecord_fails`).

## 2.  Texts

Every other entry contributes what it contributed before, in the same order, and the truth values
stay as they are; if the new entry has no value, then nothing is loaded
(`Edit.other_entries_kept`).

The replacement may not take an anchor away to which something else refers, and aliases may be
followed only as often as the edited text allows.
-/

namespace DropRules

open Yaml

/-- Whether two fields say the same, up to their places. -/
def FieldAlike (ρ : Slot → Slot → Prop) (e e' : Node × Node) : Prop :=
  e.1.Alike ρ e'.1 ∧ e.2.Alike ρ e'.2

/-- The second sequence is the first with the `i`-th item replaced by `new`. -/
inductive ItemReplaced (ρ : Slot → Slot → Prop) (i : Nat) (new : Node) : Node → Node → Prop
  | intro {m m' : Mark} {slot slot' : Option Slot} {tag tag' : Option Tag}
      {left left' right right' : List Node} {old : Node} (position : left.length = i)
      (hleft : List.Forall₂ (Node.Alike ρ) left left')
      (hright : List.Forall₂ (Node.Alike ρ) right right') :
      ItemReplaced ρ i new (.sequence m slot tag (left ++ old :: right))
        (.sequence m' slot' tag' (left' ++ new :: right'))

/-- The second record is the first with the `i`-th entry of the list of rules replaced by `new`. -/
inductive EntryReplaced (s : Schema) (ρ : Slot → Slot → Prop) (i : Nat) (new : Node) :
    Node → Node → Prop
  | intro {m m' mkey mkey' : Mark} {slot slot' skey skey' : Option Slot}
      {tag tag' tkey tkey' : Option Tag} {style style' : ScalarStyle} {name : List Char}
      {before before' after after' : List (Node × Node)} {list list' : Node}
      (hname : s.field? (String.ofList name) = some .rules)
      (hbefore : List.Forall₂ (FieldAlike ρ) before before')
      (hlist : ItemReplaced ρ i new list list')
      (hafter : List.Forall₂ (FieldAlike ρ) after after') :
      EntryReplaced s ρ i new
        (.mapping m slot tag (before ++ (.scalar mkey skey tkey style name, list) :: after))
        (.mapping m' slot' tag' (before' ++ (.scalar mkey' skey' tkey' style' name, list') :: after'))

/-! ## 1.  Records -/

namespace Draft

open Decode

variable (src : Source)

/-- Reads the fields of a record one after the other. -/
def readAll (s : Schema) (mark : Mark) (d : Draft) (es : List (Node × Node)) : Decode Draft :=
  es.foldlM (fun d e => readField src s mark d e.1 e.2) d

/-- Reads the fields of a record, if it is one. -/
def readRecord (s : Schema) : Node → Decode Draft
  | .mapping mark _ _ es => readAll src s mark blank es
  | n => misfit src .root s.wanted n

/-- Nothing is wrong with the fields of a record if all of them can be read. -/
theorem readFields_eq_none {s : Schema} {mark : Mark} {d d' : Draft} {c : Nat}
    {es : List (Node × Node)} :
    readFields src s mark d c es = (d', none) ↔
      ∃ c', (readAll src s mark d es).run c = .ok (d', c') := by
  induction es generalizing d c with
  | nil =>
    have hrun : (readAll src s mark d []).run c = .ok (d, c) := rfl
    simp [readFields, hrun]
  | cons e es ih =>
    obtain ⟨k, v⟩ := e
    have hall : readAll src s mark d ((k, v) :: es) =
      readField src s mark d k v >>= fun d => readAll src s mark d es := rfl
    rw [readFields, hall]
    simp only [run_bind_eq_ok]
    cases hfield : (readField src s mark d k v).run c with
    | error f => simp
    | ok r =>
      obtain ⟨d₁, c₁⟩ := r
      simp only [Except.ok.injEq, Prod.mk.injEq]
      constructor
      · intro h
        obtain ⟨c', hc'⟩ := ih.mp h
        exact ⟨c', d₁, c₁, ⟨rfl, rfl⟩, hc'⟩
      · rintro ⟨c', _, _, ⟨rfl, rfl⟩, hc'⟩
        exact ih.mpr ⟨c', hc'⟩

/-- Reading the list of rules behind its key. -/
theorem readField_rules {s : Schema} {name : List Char}
    (hname : s.field? (String.ofList name) = some .rules) (mark : Mark) (d : Draft) (m : Mark)
    (slot : Option Slot) (tag : Option Tag) (style : ScalarStyle) (v : Node) :
    readField src s mark d (.scalar m slot tag style name) v =
      if d.has .rules then refuse (.duplicateField (s.name .rules)) .root mark
      else (do
        let vs ← readList src mark (.field .root name) v
        pure { d with rules := some vs }) := by
  simp only [readField, fieldName, follow, pure_bind, hname]
  rfl

/-- Drafts with the same truth values, and lists related by `S`. -/
structure Like (S : Option (List Value) → Option (List Value) → Prop) (d d' : Draft) : Prop where
  ownEnabled : d'.ownEnabled = d.ownEnabled
  engineEnabled : d'.engineEnabled = d.engineEnabled
  rules : S d.rules d'.rules

/-- The second list is the first with the `i`-th value replaced by `v`. -/
def Exchanged (i : Nat) (v : Value) (o o' : Option (List Value)) : Prop :=
  ∃ vs, i < vs.length ∧ o = some vs ∧ o' = some (vs.set i v)

theorem Exchanged.isSome_eq {i : Nat} {v : Value} {o o' : Option (List Value)}
    (h : Exchanged i v o o') : o'.isSome = o.isSome := by
  obtain ⟨vs, -, rfl, rfl⟩ := h
  rfl

theorem not_exchanged_none {i : Nat} {v : Value} : ¬ Exchanged i v none none := by
  rintro ⟨vs, -, h, -⟩
  cases h

section Copies

variable {src} {src' : Source} {ρ : Slot → Slot → Prop} (hsrc : src.Alike ρ src')

include hsrc

theorem readList_copied (mark mark' : Mark) (path path' : Path) {n n' : Node} (h : n.Alike ρ n') :
    Copied src'.aliasLimit Eq (readList src mark path n) (readList src' mark' path' n') := by
  refine (h.follow hsrc).bind fun t t' ht => ?_
  rw [ht.isAbsent]
  split
  · exact .of_fails (.throw _) _
  · exact .pure rfl
  · exact ht.sequence_copied hsrc 127 path path'

/-- Fields that are alike have the same effect on drafts that are alike. -/
theorem readField_copied {S : Option (List Value) → Option (List Value) → Prop}
    (hsome : ∀ o o', S o o' → o'.isSome = o.isSome)
    (hnone : S none none → ∀ vs, S (some vs) (some vs)) {s : Schema} (mark mark' : Mark)
    {d d' : Draft} (hd : d.Like S d') {k k' v v' : Node} (hk : k.Alike ρ k') (hv : v.Alike ρ v') :
    Copied src'.aliasLimit (Like S) (readField src s mark d k v) (readField src' s mark' d' k' v') := by
  refine (hk.fieldName hsrc _ _).bind ?_
  rintro name _ rfl
  simp only
  cases hf : s.field? name with
  | none =>
    simp only [hv.isCut]
    split
    · exact .of_fails (.throw _) _
    · exact .pure hd
  | some f =>
    have hhas : d'.has f = d.has f := by
      cases f with
      | ownEnabled => exact congrArg Option.isSome hd.ownEnabled
      | engineEnabled => exact congrArg Option.isSome hd.engineEnabled
      | rules => exact hsome _ _ hd.rules
    simp only [hhas]
    split
    · exact .of_fails (.throw _) _
    · rename_i hnew
      cases f with
      | ownEnabled =>
        refine (hv.bool hsrc _ _).bind ?_
        rintro b _ rfl
        exact .pure ⟨rfl, hd.engineEnabled, hd.rules⟩
      | engineEnabled =>
        refine (hv.bool hsrc _ _).bind ?_
        rintro b _ rfl
        exact .pure ⟨hd.ownEnabled, rfl, hd.rules⟩
      | rules =>
        refine (readList_copied hsrc mark mark' _ _ hv).bind ?_
        rintro vs _ rfl
        have hrules : d.rules = none := by
          cases hd : d.rules with
          | none => rfl
          | some vs => exact absurd (congrArg Option.isSome hd) hnew
        have hrules' : d'.rules = none := by
          have hisSome := hsome _ _ hd.rules
          rwa [hrules, Option.isSome_none, Option.isSome_eq_false_iff, Option.isNone_iff_eq_none]
            at hisSome
        have hS := hd.rules
        rw [hrules, hrules'] at hS
        exact .pure ⟨hd.ownEnabled, hd.engineEnabled, hnone hS vs⟩

theorem readAll_copied {S : Option (List Value) → Option (List Value) → Prop}
    (hsome : ∀ o o', S o o' → o'.isSome = o.isSome)
    (hnone : S none none → ∀ vs, S (some vs) (some vs)) {s : Schema} (mark mark' : Mark)
    {d d' : Draft} (hd : d.Like S d') {es es' : List (Node × Node)}
    (hes : List.Forall₂ (FieldAlike ρ) es es') :
    Copied src'.aliasLimit (Like S) (readAll src s mark d es) (readAll src' s mark' d' es') := by
  induction hes generalizing d d' with
  | nil => exact .pure hd
  | @cons e e' es es' he _ ih =>
    exact (readField_copied hsrc hsome hnone mark mark' hd he.1 he.2).bind fun _ _ hd => ih hd

/-- The list with another entry is read as the list of values with another one. -/
theorem readList_replaced {i : Nat} {new : Node} {v : Value} (hnew : new.Means 126 v)
    {n n' : Node} (h : ItemReplaced ρ i new n n') (mark mark' : Mark) (path path' : Path) :
    Copied src'.aliasLimit (fun vs vs' => i < vs.length ∧ vs' = vs.set i v)
      (readList src mark path n) (readList src' mark' path' n') := by
  obtain ⟨rfl, hleft, hright⟩ := h
  rename_i left left' right right' old
  have hvalue (p p' : Path) (n n' : Node) (h : n.Alike ρ n') :
      Copied src'.aliasLimit Eq (value src 126 p n) (value src' 126 p' n') :=
    h.value hsrc 126 p p'
  have hitems (j j' : Nat) :
      Copied src'.aliasLimit (fun vs vs' => left.length < vs.length ∧ vs' = vs.set left.length v)
        (items (value src 126) path j (left ++ old :: right))
        (items (value src' 126) path' j' (left' ++ new :: right')) := by
    induction hleft generalizing j j' with
    | nil =>
      have hold : Copied src'.aliasLimit (fun _ b => b = v) (value src 126 (.item path j) old)
          (value src' 126 (.item path' j') new) := by
        rw [hnew src' 126 _ (Nat.le_refl _)]
        exact (grows_value src 126 _ old).copied fun _ => rfl
      rw [List.nil_append, List.nil_append, items, items]
      refine hold.bind ?_
      rintro u _ rfl
      refine (Node.Alike.items_copied hvalue hright path path' _ _).bind ?_
      rintro vs _ rfl
      exact .pure ⟨Nat.succ_pos _, rfl⟩
    | cons hn _ ih =>
      rw [List.cons_append, List.cons_append, items, items]
      refine (hvalue _ _ _ _ hn).bind ?_
      rintro u _ rfl
      refine (ih (j + 1) (j' + 1)).bind ?_
      rintro vs _ ⟨hlt, rfl⟩
      exact .pure ⟨Nat.succ_lt_succ hlt, rfl⟩
  exact hitems 0 0

/-- **A record with another entry** is read as one with another value in the list. -/
theorem readRecord_replaced {s : Schema} {i : Nat} {new : Node} {v : Value}
    (hnew : new.Means 126 v) {root root' : Node} (h : EntryReplaced s ρ i new root root') :
    Copied src'.aliasLimit (Like (Exchanged i v)) (readRecord src s root)
      (readRecord src' s root') := by
  obtain ⟨hname, hbefore, hlist, hafter⟩ := h
  simp only [readRecord, readAll, List.foldlM_append, List.foldlM_cons]
  refine (readAll_copied hsrc (S := Eq) (fun _ _ h => h ▸ rfl) (fun _ _ => rfl) _ _
    ⟨rfl, rfl, rfl⟩ hbefore).bind fun d d' hd => ?_
  have hhas : d'.has .rules = d.has .rules := congrArg Option.isSome hd.rules.symm
  simp only [readField_rules _ hname, hhas]
  refine Copied.bind (R := Like (Exchanged i v)) ?_ fun d d' hd =>
    readAll_copied hsrc (fun _ _ h => h.isSome_eq) (fun h => absurd h not_exchanged_none) _ _ hd
      hafter
  split
  · exact .of_fails (.throw _) _
  · refine (readList_replaced hsrc hnew hlist _ _ _ _).bind ?_
    rintro vs _ ⟨hlt, rfl⟩
    exact .pure ⟨hd.ownEnabled, hd.engineEnabled, vs, hlt, rfl, rfl⟩

end Copies

/-- **A record with an entry that cannot be read** cannot be read itself. -/
theorem readRecord_fails {s : Schema} {ρ : Slot → Slot → Prop} {i : Nat} {new : Node}
    (hnew : ∀ p, Fails (value src 126 p new)) {root root' : Node}
    (h : EntryReplaced s ρ i new root root') : Fails (readRecord src s root') := by
  obtain ⟨hname, hbefore, ⟨-, hleft, hright⟩, hafter⟩ := h
  rename_i left left' right right' old
  have hitems (path : Path) (j : Nat) :
      Fails (items (value src 126) path j (left' ++ new :: right')) := by
    clear hleft
    induction left' generalizing j with
    | nil => exact Fails.bind_left (hnew _) _
    | cons n left' ih => exact Fails.bind_right _ fun _ => Fails.bind_left (ih _) _
  simp only [readRecord, readAll, List.foldlM_append, List.foldlM_cons]
  refine Fails.bind_right _ fun d => Fails.bind_left ?_ _
  rw [readField_rules _ hname]
  split
  · exact .throw _
  · exact Fails.bind_left (hitems _ 0) _

/-! ## 2.  Texts -/

/-- What reading a text needs to know of its document. -/
def source (text : String) : Source :=
  .ofDocument (Document.ofText text.toList)

/-- How many aliases are followed when a record is read from a text. -/
def followed (s : Schema) (text : String) : Nat :=
  match (readRecord (source text) s (Document.ofText text.toList).root).run 0 with
  | .ok (_, count) => count
  | .error _ => 0

/-- A text is read without a fault if its first document is whole, is the only one, and has a root
that is read without a fault. -/
theorem ofText_eq_none {s : Schema} {text : String} {d : Draft} :
    ofText s text = (d, none) ↔
      read (source text) s (Document.ofText text.toList).root = (d, none) ∧
        (Document.ofText text.toList).fault = none ∧
        (Document.ofText text.toList).more = false := by
  rw [ofText, ← source]
  generalize Document.ofText text.toList = document
  obtain ⟨root, fault, more⟩ := document
  cases hread : read (source text) s root with
  | mk d₁ f =>
    cases f with
    | some f => simp
    | none => cases fault <;> cases more <;> simp

/-- A record is read without a fault if all its fields are. -/
theorem read_eq_none {s : Schema} {ρ : Slot → Slot → Prop} {i : Nat} {new root root' : Node}
    (h : EntryReplaced s ρ i new root root') {d : Draft} :
    (read src s root = (d, none) ↔ ∃ c, (readRecord src s root).run 0 = .ok (d, c)) ∧
      (read src s root' = (d, none) ↔ ∃ c, (readRecord src s root').run 0 = .ok (d, c)) := by
  cases h
  exact ⟨readFields_eq_none src, readFields_eq_none src⟩

end Draft

/-- The second text is the first with the `i`-th entry of the list of rules replaced by `new`, where
`ρ` tells which slots correspond. -/
structure Edit (s : Schema) (ρ : Slot → Slot → Prop) (i : Nat) (new : Node) (text text' : String) :
    Prop where
  /-- The new entry refers to nothing, and may be nested as deep as an entry may be. -/
  alone : new.Alone 126
  replaced : EntryReplaced s ρ i new (Document.ofText text.toList).root
    (Document.ofText text'.toList).root
  /-- The second text is one document. -/
  whole : (Document.ofText text'.toList).fault = none
  single : (Document.ofText text'.toList).more = false
  /-- Aliases still refer to what they referred to. -/
  targets : (Draft.source text).Alike ρ (Draft.source text')
  /-- As many aliases may be followed as were followed before. -/
  aliases : Draft.followed s text ≤ (Draft.source text').aliasLimit
  /-- Neither text is blank. -/
  visible : ¬ Text.Blank text
  visible' : ¬ Text.Blank text'

/-- The first entry is replaced, where there is nothing but the list. -/
theorem EntryReplaced.head {s : Schema} {ρ : Slot → Slot → Prop} {old new : Node}
    {m m' mkey mkey' mlist mlist' : Mark} {name : List Char} {rest rest' : List Node}
    (hname : s.field? (String.ofList name) = some .rules)
    (hrest : List.Forall₂ (Node.Alike ρ) rest rest') :
    EntryReplaced s ρ 0 new
      (.mapping m none none
        [(.scalar mkey none none .plain name, .sequence mlist none none (old :: rest))])
      (.mapping m' none none
        [(.scalar mkey' none none .plain name, .sequence mlist' none none (new :: rest'))]) :=
  @EntryReplaced.intro s ρ 0 new _ _ _ _ _ _ _ _ _ _ _ _ _ _ _ [] [] [] [] _ _ hname .nil
    (@ItemReplaced.intro ρ 0 new _ _ _ _ _ _ [] [] rest rest' old rfl .nil hrest) .nil

/-- An entry that can be replaced can be replaced by anything. -/
theorem EntryReplaced.exists_of {s : Schema} {ρ : Slot → Slot → Prop} {i : Nat}
    {new root root' : Node} (h : EntryReplaced s ρ i new root root') (other : Node) :
    ∃ root'', EntryReplaced s ρ i other root root'' := by
  obtain ⟨hname, hbefore, ⟨hposition, hleft, hright⟩, hafter⟩ := h
  exact ⟨.mapping .start none none
      (_ ++ (.scalar .start none none .plain _, .sequence .start none none (_ ++ other :: _)) :: _),
    .intro hname hbefore (.intro hposition hleft hright) hafter⟩

namespace Edit

variable {s : Schema} {ρ : Slot → Slot → Prop} {i : Nat} {new : Node} {text text' : String}
  {d : Draft}

/-- A text of which an entry can be replaced has a list of rules with a value at that position. -/
theorem rules_eq (h : Edit s ρ i new text text') (hd : Draft.ofText s text = (d, none)) :
    ∃ vs, i < vs.length ∧ d.rules = some vs := by
  obtain ⟨hread, -, -⟩ := Draft.ofText_eq_none.mp hd
  obtain ⟨c, hc⟩ := (Draft.read_eq_none _ h.replaced).1.mp hread
  -- nothing is known of the new entry, so another one is put in its place
  obtain ⟨root', hroot'⟩ := h.replaced.exists_of (.void .start)
  have hvoid : (Node.void .start).Means 126 .null := fun src d path _ => by cases d <;> rfl
  obtain ⟨_, _, _, ⟨-, -, vs, hi, hrules, -⟩, -⟩ :=
    Draft.readRecord_replaced h.targets hvoid hroot' 0 d c hc
  exact ⟨vs, hi, hrules⟩

/-- What is read of the edited text, if the new entry has a value. -/
theorem ofText_eq (h : Edit s ρ i new text text') (hd : Draft.ofText s text = (d, none)) {v : Value}
    (hv : new.value? = some v) :
    Draft.ofText s text' = ({ d with rules := d.rules.map (·.set i v) }, none) := by
  obtain ⟨hread, -, -⟩ := Draft.ofText_eq_none.mp hd
  obtain ⟨c, hc⟩ := (Draft.read_eq_none _ h.replaced).1.mp hread
  obtain ⟨k, d', hk, hlike, hrun⟩ :=
    Draft.readRecord_replaced h.targets (h.alone.means hv) h.replaced 0 d c hc
  have haliases := h.aliases
  rw [Draft.followed, hc] at haliases
  have hread' := (Draft.read_eq_none _ h.replaced).2.mpr ⟨0 + k, hrun 0 (Nat.le_trans hk haliases)⟩
  obtain ⟨hown, hengine, vs, -, hrules, hrules'⟩ := hlike
  have hd' : d' = { d with rules := d.rules.map (·.set i v) } := by
    rw [hrules, Option.map_some, ← hrules', ← hown, ← hengine]
  exact Draft.ofText_eq_none.mpr ⟨hd' ▸ hread', h.whole, h.single⟩

/-- The edited text is not read, if the new entry has no value. -/
theorem ofText_ne (h : Edit s ρ i new text text') (hv : new.value? = none) (d : Draft) :
    Draft.ofText s text' ≠ (d, none) := by
  intro hd
  obtain ⟨hread, -, -⟩ := Draft.ofText_eq_none.mp hd
  obtain ⟨c, hc⟩ := (Draft.read_eq_none _ h.replaced).2.mp hread
  exact Draft.readRecord_fails _ (h.alone.fails hv _ (Nat.le_refl _)) h.replaced 0 _ hc

end Edit

/-! ### Settings and lists of rules -/

/-- The values of the list of rules that a text holds. -/
def Draft.listed (s : Schema) (text : String) : List Value :=
  (Draft.ofText s text).1.rules.getD []

/-- The settings of a draft. -/
def Draft.settings (d : Draft) : Settings :=
  ⟨d.ownEnabled.getD true, d.engineEnabled.getD true, (d.rules.getD []).filterMap Entry.ofValue?⟩

/-- The rules of a draft. -/
def Draft.namedRules (d : Draft) : List NamedRule :=
  ((d.rules.getD []).filterMap Entry.ofValue?).map fun e => e.toNamed.value

theorem Draft.value_entries (d : Draft) :
    d.entries.value = (d.rules.getD []).filterMap Entry.ofValue? :=
  Entry.fst_ofValues _

/-- Settings are loaded from a text that is not blank if it is read without a fault. -/
theorem Settings.toOption_ofText {text : String} (h : ¬ Text.Blank text) {x : Settings} :
    (Settings.ofText text).value.toOption = some x ↔
      ∃ d, Draft.ofText .settings text = (d, none) ∧ d.settings = x := by
  rw [Settings.ofText, if_neg h]
  rcases Draft.ofText .settings text with ⟨d, _ | f⟩
  · simp [Except.toOption, Draft.settings, Draft.value_entries]
  · simp [Except.toOption]

/-- Rules are loaded from a text if it is read without a fault. -/
theorem RuleList.toOption_ofText {text : String} {rs : List NamedRule} :
    (RuleList.ofText text).value.toOption = some rs ↔
      ∃ d, Draft.ofText .ruleList text = (d, none) ∧ d.namedRules = rs := by
  rw [RuleList.ofText]
  rcases Draft.ofText .ruleList text with ⟨d, _ | f⟩
  · simp [Except.toOption, Draft.namedRules, Draft.value_entries, Logged.value_mapM]
  · simp [Except.toOption]

namespace Edit

variable {s : Schema} {ρ : Slot → Slot → Prop} {i : Nat} {new : Node} {text text' : String}

/-- What is loaded from the edited text, where `make` tells what is made of a draft. -/
theorem loaded_eq {α : Type} {loaded' : Option α} (make : Draft → α)
    (hload' : ∀ {x}, loaded' = some x ↔ ∃ d, Draft.ofText s text' = (d, none) ∧ make d = x)
    (h : Edit s ρ i new text text') {d : Draft} (hd : Draft.ofText s text = (d, none)) :
    loaded' = new.value?.map fun v => make { d with rules := d.rules.map (·.set i v) } := by
  cases hv : new.value? with
  | none =>
    rw [Option.map_none, Option.eq_none_iff_forall_ne_some]
    intro x hx
    obtain ⟨d', hd', -⟩ := hload'.mp hx
    exact h.ofText_ne hv d' hd'
  | some v => exact hload'.mpr ⟨_, h.ofText_eq hd hv, rfl⟩

/-- **A new entry leaves the others alone**, if it has a value; if it has none, then nothing is
loaded from the text. -/
theorem other_entries_kept :
    (Edit .settings ρ i new text text' → ∀ x, (Settings.ofText text).value.toOption = some x →
      i < (Draft.listed .settings text).length ∧
      x.rules = (Draft.listed .settings text).filterMap Entry.ofValue? ∧
      (Settings.ofText text').value.toOption = new.value?.map fun v =>
        { x with rules := ((Draft.listed .settings text).set i v).filterMap Entry.ofValue? }) ∧
    (Edit .ruleList ρ i new text text' → ∀ rs, (RuleList.ofText text).value.toOption = some rs →
      i < (Draft.listed .ruleList text).length ∧
      rs = ((Draft.listed .ruleList text).filterMap Entry.ofValue?).map (·.toNamed.value) ∧
      (RuleList.ofText text').value.toOption = new.value?.map fun v =>
        (((Draft.listed .ruleList text).set i v).filterMap Entry.ofValue?).map
          (·.toNamed.value)) := by
  constructor
  · intro h x hx
    obtain ⟨d, hd, rfl⟩ := (Settings.toOption_ofText h.visible).mp hx
    obtain ⟨vs, hi, hrules⟩ := h.rules_eq hd
    have hlisted : Draft.listed .settings text = vs := by rw [Draft.listed, hd, hrules]; rfl
    have hloaded := h.loaded_eq Draft.settings (Settings.toOption_ofText h.visible') hd
    rw [hlisted]
    rw [hrules] at hloaded
    exact ⟨hi, by rw [Draft.settings, hrules]; rfl, hloaded⟩
  · intro h rs hrs
    obtain ⟨d, hd, rfl⟩ := RuleList.toOption_ofText.mp hrs
    obtain ⟨vs, hi, hrules⟩ := h.rules_eq hd
    have hlisted : Draft.listed .ruleList text = vs := by rw [Draft.listed, hd, hrules]; rfl
    have hloaded := h.loaded_eq Draft.namedRules RuleList.toOption_ofText hd
    rw [hlisted]
    rw [hrules] at hloaded
    exact ⟨hi, by rw [Draft.namedRules, hrules]; rfl, hloaded⟩

/-- An integer in the place of the first of two entries is left out, and the second entry stays. -/
theorem other_entries_kept_integer :
    (Settings.ofText "customFishRules: [7, ~]").value.toOption =
        some ⟨true, true, [⟨[], 1, 1, none, []⟩]⟩ ∧
      (RuleList.ofText "rules: [7, ~]").value.toOption = some [⟨[], 1, 1, none, []⟩] := by
  have hsettings : Edit .settings (fun _ _ => False) 0 (.scalar ⟨18, 0, 18⟩ none none .plain ['7'])
      "customFishRules: [~, ~]" "customFishRules: [7, ~]" := by
    have hroot : (Document.ofText "customFishRules: [~, ~]".toList).root =
        .mapping .start none none [(.scalar .start none none .plain "customFishRules".toList,
          .sequence ⟨17, 0, 17⟩ none none [.scalar ⟨18, 0, 18⟩ none none .plain ['~'],
            .scalar ⟨21, 0, 21⟩ none none .plain ['~']])] := by
      decide +kernel
    have hroot' : (Document.ofText "customFishRules: [7, ~]".toList).root =
        .mapping .start none none [(.scalar .start none none .plain "customFishRules".toList,
          .sequence ⟨17, 0, 17⟩ none none [.scalar ⟨18, 0, 18⟩ none none .plain ['7'],
            .scalar ⟨21, 0, 21⟩ none none .plain ['~']])] := by
      decide +kernel
    refine ⟨.scalar, ?_, by decide +kernel, by decide +kernel, fun _ _ h => h.elim,
      by decide +kernel, by decide +kernel, by decide +kernel⟩
    rw [hroot, hroot']
    exact .head rfl (.cons .scalar .nil)
  have hrules : Edit .ruleList (fun _ _ => False) 0 (.scalar ⟨8, 0, 8⟩ none none .plain ['7'])
      "rules: [~, ~]" "rules: [7, ~]" := by
    have hroot : (Document.ofText "rules: [~, ~]".toList).root =
        .mapping .start none none [(.scalar .start none none .plain "rules".toList,
          .sequence ⟨7, 0, 7⟩ none none [.scalar ⟨8, 0, 8⟩ none none .plain ['~'],
            .scalar ⟨11, 0, 11⟩ none none .plain ['~']])] := by
      decide +kernel
    have hroot' : (Document.ofText "rules: [7, ~]".toList).root =
        .mapping .start none none [(.scalar .start none none .plain "rules".toList,
          .sequence ⟨7, 0, 7⟩ none none [.scalar ⟨8, 0, 8⟩ none none .plain ['7'],
            .scalar ⟨11, 0, 11⟩ none none .plain ['~']])] := by
      decide +kernel
    refine ⟨.scalar, ?_, by decide +kernel, by decide +kernel, fun _ _ h => h.elim,
      by decide +kernel, by decide +kernel, by decide +kernel⟩
    rw [hroot, hroot']
    exact .head rfl (.cons .scalar .nil)
  have hvalue (m : Mark) : (Node.scalar m none none .plain ['7']).value? = some (.integer 7) := by
    rfl
  obtain ⟨-, -, hloaded⟩ := other_entries_kept.1 hsettings
    ⟨true, true, [⟨[], 1, 1, none, []⟩, ⟨[], 1, 1, none, []⟩]⟩ (by decide +kernel)
  obtain ⟨-, -, hloaded'⟩ := other_entries_kept.2 hrules
    [⟨[], 1, 1, none, []⟩, ⟨[], 1, 1, none, []⟩] (by decide +kernel)
  rw [hloaded, hloaded', hvalue, hvalue]
  decide +kernel

/-- An integer that 64 bits cannot hold takes the other entries with it: nothing is loaded, although
the text is one whole document, and although it is loaded with an empty entry in that place. -/
theorem other_entries_lost_wide_integer :
    (Settings.ofText "customFishRules:\n- \x7b\x7d\n- possibleItems: [3]\n").value.toOption =
        some ⟨true, true, [⟨[], 1, 1, none, []⟩, ⟨[3], 1, 1, none, []⟩]⟩ ∧
      (Document.ofText ("customFishRules:\n- possibleItems: [99999999999999999999]\n" ++
        "- possibleItems: [3]\n").toList).fault = none ∧
      (Document.ofText ("customFishRules:\n- possibleItems: [99999999999999999999]\n" ++
        "- possibleItems: [3]\n").toList).more = false ∧
      (Settings.ofText ("customFishRules:\n- possibleItems: [99999999999999999999]\n" ++
        "- possibleItems: [3]\n")).value.toOption = none := by
  decide +kernel

end Edit

end DropRules
