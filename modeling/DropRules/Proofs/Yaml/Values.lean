import DropRules.Proofs.Yaml.Atoms
import DropRules.Proofs.Yaml.Decoding
import DropRules.Proofs.Yaml.Nesting
import DropRules.Proofs.Yaml.Reading

/-!
# Records in block style

A record is a mapping with names for keys, and its values are integers, names and lists of these
(`Value.IsSimple`).  In block style such a record has a line for every field and a line for every
item of a list, and it can be an item of a sequence of records itself (`Line.ofRecord`).

The lines give certain tokens (`Line.Gives.ofRecord`), and the tokens are read as a node that means
the record (`Says.record`), so that the record is read back.  What stands in comments behind the
items of a list does not matter.
-/

namespace DropRules.Yaml

/-! ## Tokens and values -/

/-- Tokens of these kinds are read as a node that means the value, where collections may lie `depth`
deep. -/
def Says (depth : Nat) (kinds : List TokenKind) (v : Value) : Prop :=
  Reads kinds (Node.Means depth v)

/-- The same for tokens behind a key. -/
def SaysValue (depth : Nat) (kinds : List TokenKind) (v : Value) : Prop :=
  ReadsValue kinds (Node.Means depth v)

/-- A name means itself. -/
theorem Node.Means.name {depth : Nat} {s : String} (h : isName s.toList) (m : Mark) :
    (Node.scalar m none none .plain s.toList).Means depth (.text s) := by
  have hmeans : (Node.scalar m none none .plain s.toList).Means depth
      (.text (String.ofList s.toList)) := .text (Atom.ofPlain_name h) m
  rwa [String.ofList_toList] at hmeans

namespace Says

variable {depth : Nat}

/-- An integer of 64 bits. -/
theorem integer {i : Int} (hlow : -(Atom.wordSize / 2 : Nat) ≤ i) (hhigh : i < Atom.wordSize) :
    Says depth [.scalar (toString i).toList .plain] (.integer i) := by
  refine (Reads.scalar _ _).mono ?_
  rintro n ⟨m, rfl⟩
  exact Node.Means.integer (Atom.ofPlain_integer hlow hhigh) m

theorem name {s : String} (h : isName s.toList) :
    Says depth [.scalar s.toList .plain] (.text s) := by
  refine (Reads.scalar _ _).mono ?_
  rintro n ⟨m, rfl⟩
  exact .name h m

/-- A sequence without items. -/
theorem brackets : Says (depth + 1) [.flowSequenceStart, .flowSequenceEnd] (.sequence []) := by
  refine Reads.brackets.mono ?_
  rintro n ⟨m, rfl⟩
  exact Node.Means.sequence .nil m

theorem sequence {ι : Type} {f : ι → List TokenKind} {v : ι → Value} {xs : List ι}
    (h : ∀ x ∈ xs, Says depth (f x) (v x)) :
    Says (depth + 1)
      (.blockSequenceStart :: (xs.flatMap (fun x => .blockEntry :: f x) ++ [.blockEnd]))
      (.sequence (xs.map v)) := by
  refine (Reads.sequence h).mono ?_
  rintro n ⟨m, ns, rfl, hns⟩
  exact Node.Means.sequence (List.forall₂_map_left_iff.mpr hns) m

theorem mapping {f : Value → List TokenKind} {fields : List (String × Value)}
    (hnames : ∀ x ∈ fields, isName x.1.toList) (hnodup : (fields.map (·.1)).Nodup)
    (h : ∀ x ∈ fields, SaysValue depth (f x.2) x.2) :
    Says (depth + 1)
      (.blockMappingStart
        :: (fields.flatMap (fun x => .key :: .scalar x.1.toList .plain :: .value :: f x.2)
          ++ [.blockEnd]))
      (.mapping (fields.map fun x => (.text x.1, x.2))) := by
  have hreads : ∀ x ∈ fields, ReadsValue (f x.2) fun n => isName x.1.toList ∧ n.Means depth x.2 :=
    fun x hx => (h x hx).mono fun _ hn => ⟨hnames x hx, hn⟩
  refine (ReadsValue.mapping hreads).mono ?_
  rintro n ⟨m, es, rfl, hes⟩
  refine Node.Means.mapping (hes.imp ?_) hnodup m
  rintro x ⟨k, v⟩ ⟨⟨m, rfl⟩, hname, hv⟩
  exact ⟨.name hname m, hv⟩

end Says

/-! ## Simple values -/

namespace Value

/-- An integer of 32 bits or a name. -/
def IsWord : Value → Prop
  | .integer i => -2147483648 ≤ i ∧ i ≤ 2147483647
  | .text s => isName s.toList
  | _ => False

/-- A value that is written in one word, or a list of such values. -/
def IsSimple : Value → Prop
  | .sequence vs => ∀ v ∈ vs, v.IsWord
  | v => v.IsWord

/-- The word of an integer or a text. -/
def word : Value → List Char
  | .integer i => (toString i).toList
  | .text s => s.toList
  | _ => []

/-- What stands behind the colon of a field. -/
def payload : Value → Payload
  | .sequence [] => .brackets
  | .sequence _ => .nothing
  | v => .word v.word

/-- The items that a field has. -/
def listed : Value → List Value
  | .sequence vs => vs
  | _ => []

/-- The tokens of a list. -/
def listKinds (vs : List Value) : List TokenKind :=
  .blockSequenceStart :: (vs.flatMap (fun v => [.blockEntry, .scalar v.word .plain]) ++ [.blockEnd])

/-- The tokens of a simple value. -/
def kinds : Value → List TokenKind
  | .sequence [] => [.flowSequenceStart, .flowSequenceEnd]
  | .sequence vs => listKinds vs
  | v => [.scalar v.word .plain]

theorem isPlainWord_word {v : Value} (h : v.IsWord) : isPlainWord v.word := by
  cases v with
  | integer i => exact isPlainWord_integer (by obtain ⟨hlow, hhigh⟩ := h; omega)
  | text s => exact isPlainWord_name h
  | _ => cases h

/-- A value in one word is read back. -/
theorem says_word {v : Value} (h : v.IsWord) (depth : Nat) :
    Says depth [.scalar v.word .plain] v := by
  cases v with
  | integer i =>
    obtain ⟨hlow, hhigh⟩ := h
    have hsize : Atom.wordSize = 2 ^ 64 := rfl
    exact .integer (by rw [hsize]; omega) (by rw [hsize]; omega)
  | text s => exact .name h
  | _ => cases h

/-- A simple value is read back. -/
theorem says_kinds {v : Value} (h : v.IsSimple) (depth : Nat) : Says (depth + 1) v.kinds v := by
  cases v with
  | sequence vs =>
    rcases vs with _ | ⟨v, vs⟩
    · exact Says.brackets
    · have hlist := Says.sequence (v := id) fun v hv => says_word (h v hv) depth
      rwa [List.map_id] at hlist
  | integer i => exact says_word (v := .integer i) h _
  | text s => exact says_word (v := .text s) h _
  | _ => cases h

end Value

/-- A record whose values are simple. -/
structure IsRecord (fields : List (String × Value)) : Prop where
  isName : ∀ f ∈ fields, isName f.1.toList
  isSimple : ∀ f ∈ fields, f.2.IsSimple
  nodup : (fields.map (·.1)).Nodup

/-- The tokens of the fields of a record. -/
def entryKinds (fields : List (String × Value)) : List TokenKind :=
  fields.flatMap fun f => .key :: .scalar f.1.toList .plain :: .value :: f.2.kinds

/-- The tokens of a record. -/
def recordKinds (fields : List (String × Value)) : List TokenKind :=
  .blockMappingStart :: (entryKinds fields ++ [.blockEnd])

/-- **A record is read back** from its tokens. -/
theorem Says.record {fields : List (String × Value)} (h : IsRecord fields) (depth : Nat) :
    Says (depth + 2) (recordKinds fields) (.mapping (fields.map fun f => (.text f.1, f.2))) :=
  .mapping h.isName h.nodup fun f hf => (Value.says_kinds (h.isSimple f hf) depth).value

/-! ## Lines -/

namespace Line

variable (note : Value → Option (List Char))

/-- The lines of the items of a list, with their dashes in a column. -/
def ofItems (column : Nat) (vs : List Value) : List Line :=
  vs.map fun v => .item column v.word (note v)

/-- The lines of a field, with its key in a column. -/
def ofField (column : Nat) (f : String × Value) : List Line :=
  .field column f.1.toList f.2.payload :: ofItems note (column + 2) f.2.listed

/-- The lines of a record that is an item of a sequence, with its dash in a column. -/
def ofRecord (column : Nat) : List (String × Value) → List Line
  | [] => []
  | f :: fields =>
    .first column f.1.toList f.2.payload
      :: (ofItems note (column + 4) f.2.listed ++ fields.flatMap (ofField note (column + 2)))

theorem Shallower.mono {m n : Int} {lines : List Line} (h : Shallower m lines) (hle : m ≤ n) :
    Shallower n lines := by
  induction lines with
  | nil => trivial
  | cons line lines ih =>
    cases line with
    | blank => exact ih h
    | remark words => exact ih h
    | item column w note => exact Int.le_trans h hle
    | field column key payload => exact ⟨Int.le_trans h.1 hle, h.2⟩
    | first column key payload => exact Int.le_trans h hle

namespace Gives

variable {note} {m : Int} {n : Nat} {outer : List Int} {lines : List Line}
  {kinds : List TokenKind} {vs : List Value} {fields : List (String × Value)}

theorem ofItems (hnote : ∀ v, ∀ words ∈ note v, Printable words) (hvs : ∀ v ∈ vs, v.IsWord)
    (hnext : Shallower n lines) (h : Gives ⟨n, outer⟩ lines kinds) :
    Gives ⟨n, outer⟩ (ofItems note n vs ++ lines)
      (vs.flatMap (fun v => [.blockEntry, .scalar v.word .plain]) ++ kinds) := by
  induction vs with
  | nil => exact h
  | cons v vs ih =>
    have hrest := ih fun v hv => hvs v (List.mem_cons_of_mem _ hv)
    have hshallow : Shallower n (Line.ofItems note n vs ++ lines) := by
      cases vs with
      | nil => exact hnext
      | cons v vs => exact Int.le_refl _
    exact item (Value.isPlainWord_word (hvs v List.mem_cons_self)) (hnote v) hshallow hrest

/-- A list to the right of what is open. -/
theorem ofList (hnote : ∀ v, ∀ words ∈ note v, Printable words) (hvs : ∀ v ∈ vs, v.IsWord)
    (hne : vs ≠ []) (hlt : m < n) (hnext : Shallower m lines) (h : Gives ⟨m, outer⟩ lines kinds) :
    Gives ⟨m, outer⟩ (Line.ofItems note n vs ++ lines) (Value.listKinds vs ++ kinds) := by
  have hitems := ofItems hnote hvs (hnext.mono (Int.le_of_lt hlt)) (close hlt hnext h)
  rcases vs with _ | ⟨v, vs⟩
  · exact absurd rfl hne
  rw [Value.listKinds, List.cons_append, List.append_assoc]
  exact enter hlt rfl hitems

theorem ofField {f : String × Value} (hnote : ∀ v, ∀ words ∈ note v, Printable words)
    (hname : isName f.1.toList) (hsimple : f.2.IsSimple) (hnext : Shallower n lines)
    (h : Gives ⟨n, outer⟩ lines kinds) :
    Gives ⟨n, outer⟩ (Line.ofField note n f ++ lines)
      (.key :: .scalar f.1.toList .plain :: .value :: (f.2.kinds ++ kinds)) := by
  obtain ⟨key, v⟩ := f
  have hkey := isPlainWord_name hname
  cases v with
  | sequence vs =>
    rcases vs with _ | ⟨v, vs⟩
    · exact field hkey trivial h
    · have hlist := ofList (n := n + 2) hnote hsimple (by simp) (by omega) hnext h
      exact field hkey trivial hlist
  | integer i => exact field hkey ⟨Value.isPlainWord_word (v := .integer i) hsimple, hnext⟩ h
  | text s => exact field hkey ⟨Value.isPlainWord_word (v := .text s) hsimple, hnext⟩ h
  | _ => cases hsimple

theorem ofFields (hnote : ∀ v, ∀ words ∈ note v, Printable words)
    (hnames : ∀ f ∈ fields, isName f.1.toList) (hsimple : ∀ f ∈ fields, f.2.IsSimple)
    (hnext : Shallower n lines) (h : Gives ⟨n, outer⟩ lines kinds) :
    Gives ⟨n, outer⟩ (fields.flatMap (Line.ofField note n) ++ lines)
        (entryKinds fields ++ kinds) ∧
      Shallower n (fields.flatMap (Line.ofField note n) ++ lines) := by
  induction fields with
  | nil => exact ⟨h, hnext⟩
  | cons f fields ih =>
    obtain ⟨hrest, hshallow⟩ := ih (fun f hf => hnames f (List.mem_cons_of_mem _ hf))
      fun f hf => hsimple f (List.mem_cons_of_mem _ hf)
    have hname := hnames f List.mem_cons_self
    have hfield := ofField hnote hname (hsimple f List.mem_cons_self) hshallow hrest
    rw [List.flatMap_cons, List.append_assoc, entryKinds, List.flatMap_cons, List.append_assoc]
    refine ⟨?_, Int.le_refl _, isPlainWord_name hname⟩
    simpa [entryKinds] using hfield

/-- **A record** as an item of a sequence. -/
theorem ofRecord (hnote : ∀ v, ∀ words ∈ note v, Printable words) (hrecord : IsRecord fields)
    (hne : fields ≠ []) (hnext : Shallower n lines) (h : Gives ⟨n, outer⟩ lines kinds) :
    Gives ⟨n, outer⟩ (Line.ofRecord note n fields ++ lines)
      (.blockEntry :: (recordKinds fields ++ kinds)) := by
  have hlt : (n : Int) < (n + 2 : Nat) := by omega
  obtain ⟨hfields, -⟩ := ofFields (n := n + 2) hnote hrecord.isName hrecord.isSimple
    (hnext.mono (Int.le_of_lt hlt)) (close hlt hnext h)
  rcases fields with _ | ⟨f, fields⟩
  · exact absurd rfl hne
  rw [recordKinds, List.cons_append, List.append_assoc]
  rw [List.flatMap_cons, Line.ofField, List.append_assoc, List.cons_append] at hfields
  rw [Line.ofRecord, List.cons_append, List.append_assoc]
  exact first (enter hlt rfl hfields)

end Gives

end Line

end DropRules.Yaml
