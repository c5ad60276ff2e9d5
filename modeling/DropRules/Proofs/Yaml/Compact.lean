import DropRules.Proofs.Yaml.Texts
import DropRules.Proofs.Yaml.Values

/-!
# Records in compact form

In compact form a sequence stands in the column of the key above it, so that a dash there continues
the record, and does not end it.  The values of such a record are integers, texts and lists of these
(`Value.IsCompact`); a text may be any.

The scanner finds certain tokens in a record in compact form (`Cuts.compactRecord`), and these are
read as a node that means the record (`Says.compactRecord`).  Neither depends on what the texts
consist of.
-/

namespace DropRules.Yaml

/-! ## Texts as values -/

/-- An integer is none of the texts. -/
theorem Atom.ne_text_of_integer? {s t : List Char} {a : Atom} (h : integer? s = some a) :
    a ≠ .text t := by
  rintro rfl
  rw [integer?.eq_def] at h
  split at h <;>
    · obtain ⟨n, -, hn⟩ := Option.bind_eq_some_iff.mp h
      split_ifs at hn <;> cases hn

/-- A plain scalar that means a text means itself. -/
theorem Atom.eq_of_ofPlain_eq_text {s t : List Char} (h : ofPlain s = .text t) : t = s := by
  rw [ofPlain] at h
  by_cases hnull : s = [] ∨ isNull s = true
  · rw [if_pos hnull] at h
    cases h
  rw [if_neg hnull] at h
  cases hbool : bool? s with
  | some b => simp [hbool] at h
  | none =>
    cases hinteger : integer? s with
    | some a =>
      simp only [hbool, hinteger] at h
      exact absurd h (ne_text_of_integer? hinteger)
    | none =>
      simp only [hbool, hinteger] at h
      split at h
      · cases h
      · exact (Atom.text.inj h).symm

theorem Atom.ofPlain_of_readsAsText {s : List Char} (h : readsAsText s) : ofPlain s = .text s := by
  rw [readsAsText] at h
  split at h
  · next t ht =>
    rwa [eq_of_ofPlain_eq_text ht] at ht
  · cases h

/-- **A text means itself** in the style in which it is written. -/
theorem Node.Means.written (depth : Nat) (s : String) (m : Mark) :
    (Node.scalar m none none (textStyle s.toList) s.toList).Means depth (.text s) := by
  intro src d path _
  have hvalue : Decode.value src d path
      (.scalar m none none (textStyle s.toList) s.toList) =
        Decode.scalar path m none (textStyle s.toList) s.toList := by
    cases d <;> rfl
  have hatom : Decode.atom (if (Decode.localTag? none).isSome then none else none)
      (textStyle s.toList) s.toList = .ok (.text s.toList) := by
    show Except.ok (if textStyle s.toList = .plain then Atom.ofPlain s.toList else .text s.toList) = _
    split_ifs with hplain
    · rw [Atom.ofPlain_of_readsAsText (readsAsText_of_textStyle hplain)]
    · rfl
  rw [hvalue, Decode.scalar]
  simp only [hatom, String.ofList_toList]
  rfl

/-! ## Values -/

namespace Value

/-- An integer of 32 bits, or a text, whatever it consists of. -/
def IsLeaf : Value → Prop
  | .integer i => -2147483648 ≤ i ∧ i ≤ 2147483647
  | .text _ => True
  | _ => False

/-- A leaf, or a list of leaves. -/
def IsCompact : Value → Prop
  | .sequence vs => ∀ v ∈ vs, v.IsLeaf
  | v => v.IsLeaf

/-- A leaf as it is written to the end of its line, and in further lines that are indented by `n`.
-/
def leafText (n : Nat) : Value → List Char
  | .text s => writeText n s.toList
  | v => v.word ++ ['\n']

/-- The token of a leaf. -/
def leafKind : Value → TokenKind
  | .text s => .scalar s.toList (textStyle s.toList)
  | v => .scalar v.word .plain

/-- The tokens behind the colon of a key. -/
def compactKinds : Value → List TokenKind
  | .sequence [] => [.flowSequenceStart, .flowSequenceEnd]
  | .sequence vs => vs.flatMap fun v => [.blockEntry, v.leafKind]
  | v => [v.leafKind]

/-- A leaf is read back. -/
theorem says_leaf {v : Value} (h : v.IsLeaf) (depth : Nat) : Says depth [v.leafKind] v := by
  cases v with
  | integer i => exact says_word (v := .integer i) h depth
  | text s =>
    refine (Reads.scalar _ _).mono ?_
    rintro n ⟨m, rfl⟩
    exact .written depth s m
  | _ => cases h

/-- A value in compact form is read back. -/
theorem saysValue_compact {v : Value} (h : v.IsCompact) (depth : Nat) :
    SaysValue (depth + 1) v.compactKinds v := by
  cases v with
  | sequence vs =>
    rcases vs with _ | ⟨v, vs⟩
    · exact Says.brackets.value
    · refine (ReadsValue.dashes (List.cons_ne_nil v vs) fun v hv => says_leaf (h v hv) depth).mono ?_
      rintro n ⟨m, ns, rfl, hns⟩
      exact Node.Means.sequence hns m
  | integer i => exact (says_leaf (v := .integer i) h _).value
  | text s => exact (says_leaf (v := .text s) h _).value
  | _ => cases h

end Value

/-- A record whose values are compact. -/
structure IsCompactRecord (fields : List (String × Value)) : Prop where
  isName : ∀ f ∈ fields, isName f.1.toList
  isCompact : ∀ f ∈ fields, f.2.IsCompact
  nodup : (fields.map (·.1)).Nodup

/-- The tokens of a field in compact form. -/
def compactFieldKinds (f : String × Value) : List TokenKind :=
  .key :: .scalar f.1.toList .plain :: .value :: f.2.compactKinds

/-- The tokens of a record in compact form. -/
def compactRecordKinds (fields : List (String × Value)) : List TokenKind :=
  .blockMappingStart :: (fields.flatMap compactFieldKinds ++ [.blockEnd])

/-- **A record in compact form is read back** from its tokens. -/
theorem Says.compactRecord {fields : List (String × Value)} (h : IsCompactRecord fields)
    (depth : Nat) :
    Says (depth + 2) (compactRecordKinds fields) (.mapping (fields.map fun f => (.text f.1, f.2))) :=
  .mapping h.isName h.nodup fun f hf => Value.saysValue_compact (h.isCompact f hf) depth

/-! ## Keys, dashes and ends -/

namespace Cuts

open Scan

variable {text key : List Char} {n column : Nat} {outer : List Int} {allowed : Bool} {b : Blocks}
  {kinds : List TokenKind}

/-- A key, whatever stands behind its colon. -/
theorem named (hkey : isPlainWord key) (hblank : blankNext text)
    (h : Cuts text (column + key.length + 1) false (b.move column) kinds) :
    Cuts (key ++ ':' :: text) column true b (Line.fieldKinds b column key .nothing ++ kinds) := by
  have hcuts := Cuts.key hkey hblank h
  simpa [Line.fieldKinds, Payload.kinds] using hcuts

/-- A dash in the column of the innermost collection. -/
theorem dash_self (h : Cuts text (n + 2) true ⟨n, outer⟩ kinds) :
    Cuts ('-' :: ' ' :: text) n true ⟨n, outer⟩ (.blockEntry :: kinds) := by
  have hdash : Cuts ('-' :: ' ' :: text) n true ⟨n, outer⟩
      (Line.dashKinds ⟨n, outer⟩ n ++ kinds) := dashed (by rwa [Blocks.move_self])
  rwa [Line.dashKinds_self] at hdash

/-- The next token stands in the column that `Adjacent` says, or to the left of it. -/
theorem column_skipToToken {k : Nat} (htext : Adjacent k text) (allowed : Bool) {mark : Mark}
    (hmark : mark.column = 0) :
    (skipToToken false false allowed text mark).1.mark.column ≤ k := by
  cases htext with
  | nil => exact Nat.le_trans (Nat.le_of_eq hmark) (Nat.zero_le k)
  | line hn hrest =>
    rw [skipToToken_spaces, skipToToken_of_beginsToken hrest]
    show (mark.past _).column ≤ k
    rw [Mark.column_past, List.length_replicate, hmark]
    omega

/-- **A collection ends** where the next token stands to the left of it. -/
theorem close {k : Nat} (hlt : k < n) (htext : Adjacent k text)
    (h : Cuts text 0 allowed ⟨k, outer⟩ kinds) :
    Cuts text 0 allowed ⟨n, k :: outer⟩ (.blockEnd :: kinds) := by
  -- the sign of the end counts as held back already
  intro mark held given hmark hheld
  have hcolumn := column_skipToToken htext allowed hmark
  obtain ⟨⟨text', m'⟩, allowed', hskip⟩ :
      ∃ c allowed', skipToToken false false allowed text mark = (c, allowed') := ⟨_, _, rfl⟩
  rw [hskip] at hcolumn
  have hinner : (m'.column : Int) < n := by
    have hle : m'.column ≤ k := hcolumn
    omega
  have hfetch : (idle ⟨text, mark⟩ held given allowed ⟨n, k :: outer⟩).fetch =
      (idle ⟨text, mark⟩ (held ++ [⟨.blockEnd, m', m'⟩]) given allowed ⟨k, outer⟩).fetch := by
    have hends : (closeTo m'.column m' n (k :: outer)).1 =
        [⟨.blockEnd, m', m'⟩] ++ (closeTo m'.column m' k outer).1 := by
      rw [closeTo, if_pos hinner]
      rfl
    rw [fetch_idle hskip, fetch_idle hskip, Blocks.close_inner hinner, hends, List.append_assoc]
  have hlater := h mark (held ++ [⟨.blockEnd, m', m'⟩]) given hmark (by simpa using hheld)
  rw [List.map_append, List.append_assoc] at hlater
  exact hlater.congr hfetch (Nat.le_refl (ink text))

end Cuts

/-! ## Records as characters -/

namespace Value

/-- An item of a list, with its dash in column `n`. -/
def itemText (n : Nat) (v : Value) : List Char :=
  List.replicate n ' ' ++ '-' :: ' ' :: v.leafText (n + 2)

/-- What is written behind the colon of a key in column `n`. -/
def compactText (n : Nat) : Value → List Char
  | .sequence [] => [' ', '[', ']', '\n']
  | .sequence vs => '\n' :: vs.flatMap (itemText n)
  | v => ' ' :: v.leafText (n + 2)

end Value

/-- A field with its key in column `n`, from the key on. -/
def compactFieldText (n : Nat) (f : String × Value) : List Char :=
  f.1.toList ++ ':' :: f.2.compactText n

/-- Fields with their keys in column `n`. -/
def compactFieldsText (n : Nat) (fields : List (String × Value)) : List Char :=
  fields.flatMap fun f => List.replicate n ' ' ++ compactFieldText n f

/-- A record that is an item of a sequence, with its dash in column `n`. -/
def compactRecordText (n : Nat) : List (String × Value) → List Char
  | [] => []
  | f :: fields =>
    List.replicate n ' '
      ++ '-' :: ' ' :: (compactFieldText (n + 2) f ++ compactFieldsText (n + 2) fields)

namespace Cuts

variable {text : List Char} {k n column : Nat} {outer : List Int} {allowed : Bool} {b : Blocks}
  {kinds : List TokenKind} {v : Value} {vs : List Value} {f : String × Value}
  {fields : List (String × Value)}

theorem leaf (hv : v.IsLeaf) (hcolumn : n < column) (htext : Adjacent n text)
    (h : Cuts text 0 true ⟨n, outer⟩ kinds) :
    Cuts (v.leafText (n + 2) ++ text) column allowed ⟨n, outer⟩ (v.leafKind :: kinds) := by
  cases v with
  | integer i =>
    have hword : isPlainWord (Value.integer i).word := Value.isPlainWord_word (v := .integer i) hv
    show Cuts ((Value.integer i).word ++ ['\n'] ++ text) _ _ _ _
    rw [List.append_assoc]
    exact word_break hword (Int.ofNat_lt.mpr hcolumn) htext.shallow h
  | text s => exact Cuts.text s.toList hcolumn htext h
  | _ => cases hv

/-- The items of a list. -/
theorem items (hvs : ∀ v ∈ vs, v.IsLeaf) (htext : Adjacent n text)
    (h : Cuts text 0 true ⟨n, outer⟩ kinds) :
    Cuts (vs.flatMap (Value.itemText n) ++ text) 0 true ⟨n, outer⟩
        (vs.flatMap (fun v => [.blockEntry, v.leafKind]) ++ kinds) ∧
      Adjacent n (vs.flatMap (Value.itemText n) ++ text) := by
  induction vs with
  | nil => exact ⟨h, htext⟩
  | cons v vs ih =>
    obtain ⟨hrest, hadjacent⟩ := ih fun v hv => hvs v (List.mem_cons_of_mem _ hv)
    have hleaf : Cuts (v.leafText (n + 2) ++ (vs.flatMap (Value.itemText n) ++ text)) (n + 2) true
        ⟨n, outer⟩ _ := leaf (hvs v List.mem_cons_self) (by omega) hadjacent hrest
    rw [List.flatMap_cons, Value.itemText, List.append_assoc, List.append_assoc]
    exact ⟨indented n (dash_self hleaf), .line (Nat.le_refl n) rfl⟩

/-- What stands behind the colon of a key. -/
theorem compactValue (hv : v.IsCompact) (hcolumn : n < column) (htext : Adjacent n text)
    (h : Cuts text 0 true ⟨n, outer⟩ kinds) :
    Cuts (v.compactText n ++ text) column false ⟨n, outer⟩ (v.compactKinds ++ kinds) := by
  cases v with
  | sequence vs =>
    rcases vs with _ | ⟨v, vs⟩
    · exact space (brackets (.inr (by simp; omega)) (lineFeed h))
    · exact lineFeed (items hv htext h).1
  | integer i => exact space (leaf (v := .integer i) hv (by omega) htext h)
  | text s => exact space (leaf (v := .text s) hv (by omega) htext h)
  | _ => cases hv

/-- A field, which may open a mapping. -/
theorem compactField (hb : b.move n = ⟨n, outer⟩) (hname : isName f.1.toList)
    (hv : f.2.IsCompact) (htext : Adjacent n text) (h : Cuts text 0 true ⟨n, outer⟩ kinds) :
    Cuts (compactFieldText n f ++ text) n true b
      (Line.fieldKinds b n f.1.toList .nothing ++ (f.2.compactKinds ++ kinds)) := by
  obtain ⟨name, v⟩ := f
  have hblank : blankNext (v.compactText n ++ text) := by
    cases v with
    | sequence vs => cases vs <;> rfl
    | _ => rfl
  rw [compactFieldText, List.append_assoc, List.cons_append]
  refine named (isPlainWord_name hname) hblank ?_
  rw [hb]
  exact compactValue hv (by omega) htext h

/-- The fields of a record, from the second on. -/
theorem compactFields (hnames : ∀ f ∈ fields, isName f.1.toList)
    (hfields : ∀ f ∈ fields, f.2.IsCompact) (htext : Adjacent n text)
    (h : Cuts text 0 true ⟨n, outer⟩ kinds) :
    Cuts (compactFieldsText n fields ++ text) 0 true ⟨n, outer⟩
        (fields.flatMap compactFieldKinds ++ kinds) ∧
      Adjacent n (compactFieldsText n fields ++ text) := by
  induction fields with
  | nil => exact ⟨h, htext⟩
  | cons f fields ih =>
    obtain ⟨hrest, hadjacent⟩ := ih (fun f hf => hnames f (List.mem_cons_of_mem _ hf))
      fun f hf => hfields f (List.mem_cons_of_mem _ hf)
    have hfield := compactField (Blocks.move_self n outer) (hnames f List.mem_cons_self)
      (hfields f List.mem_cons_self) hadjacent hrest
    rw [Line.fieldKinds_self] at hfield
    rw [compactFieldsText, List.flatMap_cons, ← compactFieldsText, List.append_assoc,
      List.append_assoc, List.flatMap_cons, List.append_assoc]
    refine ⟨indented n hfield, .line (Nat.le_refl n) ?_⟩
    rw [compactFieldText, List.append_assoc]
    exact beginsToken_append (beginsToken_word (isPlainWord_name (hnames f List.mem_cons_self))) _

/-- **A record in compact form**, as an item of a sequence. -/
theorem compactRecord (hrecord : IsCompactRecord fields) (hne : fields ≠ [])
    (htext : Adjacent n text) (h : Cuts text 0 true ⟨n, outer⟩ kinds) :
    Cuts (compactRecordText n fields ++ text) 0 true ⟨n, outer⟩
        (.blockEntry :: (compactRecordKinds fields ++ kinds)) ∧
      Adjacent n (compactRecordText n fields ++ text) := by
  obtain ⟨f, fields, rfl⟩ := List.exists_cons_of_ne_nil hne
  have hlt : n < n + 2 := by omega
  obtain ⟨hrest, hadjacent⟩ := compactFields (fun f hf => hrecord.isName f (List.mem_cons_of_mem _ hf))
    (fun f hf => hrecord.isCompact f (List.mem_cons_of_mem _ hf)) (htext.mono (Nat.le_of_lt hlt))
    (close hlt htext h)
  have hlt' : (n : Int) < (n + 2 : Nat) := Int.ofNat_lt.mpr hlt
  have hfield := compactField (Blocks.move_enter hlt') (hrecord.isName f List.mem_cons_self)
    (hrecord.isCompact f List.mem_cons_self) hadjacent hrest
  rw [Line.fieldKinds_enter hlt', Line.fieldKinds_self] at hfield
  rw [compactRecordText, List.append_assoc, compactRecordKinds, List.flatMap_cons]
  refine ⟨?_, .line (Nat.le_refl n) rfl⟩
  have hdash := indented n (dash_self hfield)
  simpa [compactFieldKinds, Payload.kinds] using hdash

end Cuts

/-! ## The characters that are written -/

section Allowed

variable {n : Nat}

theorem isAllowed_of_mem_leafText {v : Value} (hv : v.IsLeaf) : ∀ c ∈ v.leafText n, isAllowed c := by
  cases v with
  | integer i =>
    exact List.forall_mem_append.mpr
      ⟨isAllowed_of_mem_word (Value.isPlainWord_word (v := .integer i) hv),
        List.all_eq_true.mp (by decide)⟩
  | text s => exact isAllowed_of_mem_writeText n s.toList
  | _ => cases hv

theorem isAllowed_of_mem_compactText {v : Value} (hv : v.IsCompact) :
    ∀ c ∈ v.compactText n, isAllowed c := by
  cases v with
  | sequence vs =>
    have hitem : ∀ v ∈ vs, ∀ c ∈ v.itemText n, isAllowed c := by
      intro v hmem
      rw [Value.itemText, List.forall_mem_append, List.forall_mem_cons, List.forall_mem_cons]
      exact ⟨isAllowed_of_mem_spaces n, rfl, rfl, isAllowed_of_mem_leafText (hv v hmem)⟩
    have hitems : ∀ c ∈ vs.flatMap (Value.itemText n), isAllowed c := by
      intro c hc
      obtain ⟨v, hmem, hc⟩ := List.mem_flatMap.mp hc
      exact hitem v hmem c hc
    cases vs with
    | nil =>
      show ∀ c ∈ [' ', '[', ']', '\n'], isAllowed c
      exact List.all_eq_true.mp (by decide)
    | cons v vs => exact List.forall_mem_cons.mpr ⟨rfl, hitems⟩
  | integer i =>
    exact List.forall_mem_cons.mpr ⟨rfl, isAllowed_of_mem_leafText (v := .integer i) hv⟩
  | text s => exact List.forall_mem_cons.mpr ⟨rfl, isAllowed_of_mem_leafText (v := .text s) hv⟩
  | _ => cases hv

theorem isAllowed_of_mem_compactFieldText {f : String × Value} (hname : isName f.1.toList)
    (hv : f.2.IsCompact) : ∀ c ∈ compactFieldText n f, isAllowed c := by
  rw [compactFieldText, List.forall_mem_append, List.forall_mem_cons]
  exact ⟨isAllowed_of_mem_word (isPlainWord_name hname), rfl, isAllowed_of_mem_compactText hv⟩

/-- A document may hold a record in compact form. -/
theorem isAllowed_of_mem_compactRecordText {fields : List (String × Value)}
    (h : IsCompactRecord fields) : ∀ c ∈ compactRecordText n fields, isAllowed c := by
  have hfield : ∀ f ∈ fields, ∀ k, ∀ c ∈ compactFieldText k f, isAllowed c := fun f hf _ =>
    isAllowed_of_mem_compactFieldText (h.isName f hf) (h.isCompact f hf)
  cases fields with
  | nil => nofun
  | cons f fields =>
    rw [compactRecordText, List.forall_mem_append, List.forall_mem_cons, List.forall_mem_cons,
      List.forall_mem_append]
    refine ⟨isAllowed_of_mem_spaces n, rfl, rfl, hfield f List.mem_cons_self _, fun c hc => ?_⟩
    obtain ⟨f', hmem, hc⟩ := List.mem_flatMap.mp hc
    rcases List.mem_append.mp hc with hc | hc
    · exact isAllowed_of_mem_spaces _ c hc
    · exact hfield f' (List.mem_cons_of_mem _ hmem) _ c hc

end Allowed

end DropRules.Yaml
