import DropRules.Proofs.Entries
import DropRules.Proofs.Yaml.Compact

/-!
# Settings are read back

Settings that are written as a document are a record of three fields: two truth values, and the list
of the rules, in which every entry is a record in compact form (`Settings.entryText_eq`).  Nothing
is asked of the texts in the entries; whatever they consist of, the scanner finds them again.

The tokens of the document are read as a mapping whose fields hold what the settings say
(`Settings.exists_ofText_text`), and so the settings come back, and nothing is reported
(`Settings.ofText_text`).
-/

namespace DropRules

open Yaml

/-! ## Entries in compact form -/

/-- The fields of an entry are a record in compact form, whatever texts it has for names. -/
theorem Entry.isCompactRecord_fields (e : Entry) : IsCompactRecord e.fields where
  isName := e.isName_of_mem_fields
  isCompact := by
    have hinteger : ∀ i : Int32, (Value.integer i.toInt).IsLeaf := fun i =>
      ⟨i.le_toInt, Int.le_of_lt_add_one i.toInt_lt⟩
    refine e.forall_mem_fields ?_ hinteger (fun _ _ => trivial) ?_
    · exact List.forall_mem_map.mpr fun i _ => hinteger i
    · exact List.forall_mem_map.mpr fun c _ => trivial
  nodup := e.nodup_fields

namespace Settings

theorem compactFieldsText_append (n : Nat) (fields more : List (String × Value)) :
    compactFieldsText n (fields ++ more) =
      compactFieldsText n fields ++ compactFieldsText n more :=
  List.flatMap_append

/-- The lines of the items, behind their key. -/
theorem compactText_items (items : List Item) :
    (Value.sequence (items.map fun i => .integer i.toInt)).compactText 2 =
      if items.isEmpty then " []\n".toList
      else '\n' :: items.flatMap fun i =>
        "  - ".toList ++ (toString i.toInt).toList ++ ['\n'] := by
  cases items with
  | nil => rfl
  | cons i items =>
    show '\n' :: ((i :: items).map fun i => Value.integer i.toInt).flatMap (Value.itemText 2) =
      '\n' :: (i :: items).flatMap _
    rw [List.flatMap_map]
    rfl

/-- The line of the rarity, if there is one. -/
theorem compactFieldsText_rarity (rarity : Option String) :
    compactFieldsText 2 (rarity.toList.map fun r => ("rarity", .text r)) =
      rarity.elim [] fun r => "  rarity: ".toList ++ writeText 4 r.toList := by
  cases rarity with
  | none => rfl
  | some r =>
    have hkey : "  rarity: ".toList = List.replicate 2 ' ' ++ ("rarity".toList ++ [':', ' ']) := by
      decide
    show List.replicate 2 ' ' ++ ("rarity".toList ++ ':' :: ' ' :: writeText 4 r.toList) ++ [] = _
    rw [Option.elim_some, hkey]
    simp only [List.append_assoc, List.append_nil, List.cons_append, List.nil_append]

/-- The lines of the conditions, if there are any. -/
theorem compactFieldsText_conditions (conditions : List String) :
    compactFieldsText 2 (Entry.conditionFields conditions) =
      if conditions.isEmpty then []
      else "  conditions:\n".toList
        ++ conditions.flatMap fun c => "  - ".toList ++ writeText 4 c.toList := by
  cases conditions with
  | nil => rfl
  | cons c conditions =>
    have hkey : "  conditions:\n".toList =
        List.replicate 2 ' ' ++ ("conditions".toList ++ [':', '\n']) := by decide
    show List.replicate 2 ' ' ++ ("conditions".toList ++ ':' :: '\n'
      :: ((c :: conditions).map Value.text).flatMap (Value.itemText 2)) ++ [] = _
    rw [List.flatMap_map, if_neg (by simp), hkey]
    simp only [List.append_assoc, List.append_nil, List.cons_append, List.nil_append]
    rfl

/-- **An entry is written in compact form.** -/
theorem entryText_eq (e : Entry) : entryText e = compactRecordText 0 e.fields := by
  obtain ⟨items, numerator, denominator, rarity, conditions⟩ := e
  have hfirst : "- possibleItems:".toList = '-' :: ' ' :: ("possibleItems".toList ++ [':']) := by
    decide
  have hnumerator : "  chanceNumerator: ".toList =
      List.replicate 2 ' ' ++ ("chanceNumerator".toList ++ [':', ' ']) := by decide
  have hdenominator : "  chanceDenominator: ".toList =
      List.replicate 2 ' ' ++ ("chanceDenominator".toList ++ [':', ' ']) := by decide
  have hword (key : String) (i : Int32) : compactFieldsText 2 [(key, .integer i.toInt)] =
      List.replicate 2 ' ' ++ (key.toList ++ [':', ' ']) ++ (toString i.toInt).toList ++ ['\n'] := by
    show List.replicate 2 ' ' ++ (key.toList ++ ':' :: ' ' :: ((toString i.toInt).toList ++ ['\n']))
      ++ [] = _
    simp only [List.append_assoc, List.append_nil, List.cons_append, List.nil_append]
  have hfields : Entry.fields ⟨items, numerator, denominator, rarity, conditions⟩ =
      ("possibleItems", .sequence (items.map fun i => .integer i.toInt))
        :: ([("chanceNumerator", .integer numerator.toInt)]
          ++ ([("chanceDenominator", .integer denominator.toInt)]
            ++ (rarity.toList.map (fun r => ("rarity", .text r))
              ++ Entry.conditionFields conditions))) := by
    simp [Entry.fields]
  rw [hfields, compactRecordText, compactFieldText, compactText_items, compactFieldsText_append,
    compactFieldsText_append, compactFieldsText_append, hword, hword, compactFieldsText_rarity,
    compactFieldsText_conditions, ← hnumerator, ← hdenominator]
  show "- possibleItems:".toList ++ _ ++ _ ++ _ ++ _ ++ _ ++ _ ++ _ ++ _ ++ _ = _
  rw [hfirst]
  simp only [List.append_assoc, List.cons_append, List.nil_append, List.replicate_zero]

/-! ## Settings as fields -/

/-- The fields in the order in which they are written. -/
def fieldOrder : List Field :=
  [.ownEnabled, .engineEnabled, .rules]

/-- The key of a field. -/
def key (f : Field) : List Char :=
  (Schema.settings.name f).toList

/-- What is written behind the colon of a field. -/
def fieldText (s : Settings) : Field → List Char
  | .ownEnabled => ' ' :: ((toString s.ownEnabled).toList ++ ['\n'])
  | .engineEnabled => ' ' :: ((toString s.engineEnabled).toList ++ ['\n'])
  | .rules =>
    if s.rules.isEmpty then " []\n".toList
    else '\n' :: s.rules.flatMap fun e => compactRecordText 0 e.fields

/-- The tokens behind the colon of a field. -/
def fieldKinds (s : Settings) : Field → List TokenKind
  | .ownEnabled => [.scalar (toString s.ownEnabled).toList .plain]
  | .engineEnabled => [.scalar (toString s.engineEnabled).toList .plain]
  | .rules =>
    if s.rules.isEmpty then [.flowSequenceStart, .flowSequenceEnd]
    else s.rules.flatMap fun e => .blockEntry :: compactRecordKinds e.fields

/-- The node holds what the settings say in a field. -/
def Holds (s : Settings) : Field → Node → Prop
  | .ownEnabled, n => ∃ m, n = .scalar m none none .plain (toString s.ownEnabled).toList
  | .engineEnabled, n => ∃ m, n = .scalar m none none .plain (toString s.engineEnabled).toList
  | .rules, n => ∃ m ns, n = .sequence m none none ns ∧
      List.Forall₂ (Node.Means 126) (s.rules.map Entry.value) ns

/-- **The text of settings, field by field.** -/
theorem toList_text (s : Settings) :
    s.text.toList = fieldOrder.flatMap fun f => key f ++ ':' :: s.fieldText f := by
  have hown : "enableCustomFishRules".toList ++ ": ".toList =
      key .ownEnabled ++ [':', ' '] := by decide
  have hengine : "enableVanillaFishRules".toList ++ ": ".toList =
      key .engineEnabled ++ [':', ' '] := by decide
  have hrules : "customFishRules:".toList = key .rules ++ [':'] := by decide
  have hentries : s.rules.flatMap entryText = s.rules.flatMap fun e => compactRecordText 0 e.fields :=
    List.flatMap_congr fun e _ => entryText_eq e
  have htext : s.text.toList =
      ("enableCustomFishRules".toList ++ ": ".toList ++ (toString s.ownEnabled).toList ++ ['\n'])
        ++ ("enableVanillaFishRules".toList ++ ": ".toList ++ (toString s.engineEnabled).toList
          ++ ['\n'])
        ++ "customFishRules:".toList
        ++ (if s.rules.isEmpty then " []\n".toList else '\n' :: s.rules.flatMap entryText) :=
    String.toList_ofList
  rw [htext, hown, hengine, hrules, hentries]
  simp only [fieldOrder, fieldText, List.flatMap_cons, List.flatMap_nil, List.append_assoc,
    List.cons_append, List.nil_append, List.append_nil]

/-! ## Tokens -/

theorem isPlainWord_key (f : Field) : isPlainWord (key f) := by
  cases f <;> decide

theorem isPlainWord_toString (b : Bool) : isPlainWord (toString b).toList := by
  cases b <;> decide

section Cuts

variable {text : List Char} {kinds : List TokenKind} {column : Nat}

/-- The entries, one after the other. -/
theorem cuts_entries (es : List Entry) (htext : Adjacent 0 text)
    (h : Cuts text 0 true ⟨(0 : Nat), [-1]⟩ kinds) :
    Cuts (es.flatMap (fun e => compactRecordText 0 e.fields) ++ text) 0 true ⟨(0 : Nat), [-1]⟩
        (es.flatMap (fun e => .blockEntry :: compactRecordKinds e.fields) ++ kinds) ∧
      Adjacent 0 (es.flatMap (fun e => compactRecordText 0 e.fields) ++ text) := by
  induction es with
  | nil => exact ⟨h, htext⟩
  | cons e es ih =>
    obtain ⟨hrest, hadjacent⟩ := ih
    rw [List.flatMap_cons, List.append_assoc, List.flatMap_cons, List.append_assoc]
    exact Cuts.compactRecord e.isCompactRecord_fields nofun hadjacent hrest

theorem cuts_fieldText (s : Settings) (f : Field) (hcolumn : 0 < column) (htext : Adjacent 0 text)
    (h : Cuts text 0 true ⟨(0 : Nat), [-1]⟩ kinds) :
    Cuts (s.fieldText f ++ text) column false ⟨(0 : Nat), [-1]⟩ (s.fieldKinds f ++ kinds) := by
  have hflag (b : Bool) : Cuts (' ' :: ((toString b).toList ++ ['\n']) ++ text) column false
      ⟨(0 : Nat), [-1]⟩ (.scalar (toString b).toList .plain :: kinds) := by
    rw [List.cons_append, List.append_assoc]
    exact Cuts.space (Cuts.word_break (isPlainWord_toString b) (Int.natCast_pos.mpr (by omega))
      htext.shallow h)
  cases f with
  | ownEnabled => exact hflag s.ownEnabled
  | engineEnabled => exact hflag s.engineEnabled
  | rules =>
    rw [fieldText, fieldKinds]
    split_ifs
    · exact Cuts.space (Cuts.brackets (.inr (Int.natCast_nonneg _)) (Cuts.lineFeed h))
    · exact Cuts.lineFeed (cuts_entries s.rules htext h).1

/-- A field, which may open the mapping. -/
theorem cuts_field (s : Settings) (f : Field) {b : Blocks} (hb : b.move 0 = ⟨(0 : Nat), [-1]⟩)
    (htext : Adjacent 0 text) (h : Cuts text 0 true ⟨(0 : Nat), [-1]⟩ kinds) :
    Cuts (key f ++ ':' :: s.fieldText f ++ text) 0 true b
        (Line.fieldKinds b 0 (key f) .nothing ++ (s.fieldKinds f ++ kinds)) ∧
      Adjacent 0 (key f ++ ':' :: s.fieldText f ++ text) := by
  rw [List.append_assoc, List.cons_append]
  have hblank : blankNext (s.fieldText f ++ text) := by
    cases f with
    | ownEnabled => rfl
    | engineEnabled => rfl
    | rules =>
      rw [fieldText]
      split_ifs <;> rfl
  refine ⟨Cuts.named (isPlainWord_key f) hblank ?_, ?_⟩
  · rw [hb]
    exact cuts_fieldText s f (Nat.succ_pos _) htext h
  · exact .line (n := 0) (Nat.le_refl 0) (beginsToken_append (beginsToken_word (isPlainWord_key f)) _)

/-- **The tokens of settings.** -/
theorem cuts_text (s : Settings) :
    Cuts s.text.toList 0 true ⟨-1, []⟩
      (.blockMappingStart :: (fieldOrder.flatMap
        (fun f => .key :: .scalar (key f) .plain :: .value :: s.fieldKinds f)
          ++ [.blockEnd, .streamEnd])) := by
  have hmove : Blocks.move ⟨(0 : Nat), [-1]⟩ 0 = ⟨(0 : Nat), [-1]⟩ := rfl
  have hopen (f : Field) : Line.fieldKinds ⟨-1, []⟩ 0 (key f) .nothing =
      [.blockMappingStart, .key, .scalar (key f) .plain, .value] := rfl
  have hnext (f : Field) : Line.fieldKinds ⟨(0 : Nat), [-1]⟩ 0 (key f) .nothing =
      [.key, .scalar (key f) .plain, .value] := rfl
  have hend : Cuts [] 0 true ⟨(0 : Nat), [-1]⟩ [.blockEnd, .streamEnd] := Cuts.done
  obtain ⟨hrules, hadjacent⟩ := s.cuts_field .rules hmove .nil hend
  obtain ⟨hengine, hadjacent⟩ := s.cuts_field .engineEnabled hmove hadjacent hrules
  have hall := (s.cuts_field .ownEnabled (b := ⟨-1, []⟩) rfl hadjacent hengine).1
  rw [hopen, hnext, hnext] at hall
  rw [toList_text]
  simpa [fieldOrder] using hall

end Cuts

/-- A document may hold what is written for settings. -/
theorem isAllowed_of_mem_text (s : Settings) : ∀ c ∈ s.text.toList, isAllowed c := by
  have hflag (b : Bool) : ∀ c ∈ ' ' :: ((toString b).toList ++ ['\n']), isAllowed c := by
    cases b <;> exact List.all_eq_true.mp (by decide)
  have hfield : ∀ f : Field, ∀ c ∈ s.fieldText f, isAllowed c := by
    intro f
    cases f with
    | ownEnabled => exact hflag s.ownEnabled
    | engineEnabled => exact hflag s.engineEnabled
    | rules =>
      rw [fieldText]
      split_ifs
      · exact List.all_eq_true.mp (by decide)
      · refine List.forall_mem_cons.mpr ⟨rfl, fun c hc => ?_⟩
        obtain ⟨e, -, hc⟩ := List.mem_flatMap.mp hc
        exact isAllowed_of_mem_compactRecordText e.isCompactRecord_fields c hc
  rw [toList_text]
  intro c hc
  obtain ⟨f, -, hc⟩ := List.mem_flatMap.mp hc
  rcases List.mem_append.mp hc with hc | hc
  · exact isAllowed_of_mem_word (isPlainWord_key f) c hc
  · rcases List.mem_cons.mp hc with rfl | hc
    · rfl
    · exact hfield f c hc

/-! ## Nodes -/

/-- The tokens of a field are read as a node that holds it. -/
theorem readsValue_fieldKinds (s : Settings) (f : Field) :
    ReadsValue (s.fieldKinds f) (s.Holds f) := by
  cases f with
  | ownEnabled => exact (Reads.scalar _ _).value
  | engineEnabled => exact (Reads.scalar _ _).value
  | rules =>
    rw [fieldKinds]
    split_ifs with hempty
    · refine (Reads.brackets.mono ?_).value
      rintro n ⟨m, rfl⟩
      rw [List.isEmpty_iff] at hempty
      exact ⟨m, [], rfl, by rw [hempty]; exact .nil⟩
    · have hne : s.rules ≠ [] := by simpa using hempty
      refine (ReadsValue.dashes hne fun e _ =>
        Says.compactRecord e.isCompactRecord_fields 124).mono ?_
      rintro n ⟨m, ns, rfl, hns⟩
      exact ⟨m, ns, rfl, List.forall₂_map_left_iff.mpr hns⟩

/-- **Settings are a document** whose fields hold what they say. -/
theorem exists_ofText_text (s : Settings) :
    ∃ m es, Document.ofText s.text.toList = ⟨.mapping m none none es, none, false⟩ ∧
      List.Forall₂ (fun f e => (∃ m, e.1 = .scalar m none none .plain (key f)) ∧ s.Holds f e.2)
        fieldOrder es := by
  have hroot : Reads (.blockMappingStart :: (fieldOrder.flatMap
      (fun f => .key :: .scalar (key f) .plain :: .value :: s.fieldKinds f) ++ [.blockEnd])) _ :=
    ReadsValue.mapping fun f _ => s.readsValue_fieldKinds f
  have htokens := ((cuts_text s).ofText (isAllowed_of_mem_text s)).1
  obtain ⟨n, ⟨m, es, rfl, hes⟩, hdocument⟩ := Document.ofTokens_of_reads hroot
    (s := TokenStream.ofText s.text.toList) (by simpa using htokens)
  exact ⟨m, es, hdocument, hes⟩

end Settings

/-! ## Reading -/

theorem Yaml.Decode.bool_toString (src : Source) (path : Path) (m : Mark) (b : Bool) :
    Decode.bool src path (.scalar m none none .plain (toString b).toList) = pure b := by
  have hatom : Atom.bool? (toString b).toList = some b := by
    cases b <;> decide
  have hfollow : Decode.follow src (.scalar m none none .plain (toString b).toList) =
      pure (.scalar m none none .plain (toString b).toList) := rfl
  rw [Decode.bool, hfollow, pure_bind]
  simp [hatom]

namespace Draft

variable {s : Settings} {d : Draft}

/-- The draft with a field as the settings have it. -/
def withField (s : Settings) (d : Draft) : Field → Draft
  | .ownEnabled => { d with ownEnabled := some s.ownEnabled }
  | .engineEnabled => { d with engineEnabled := some s.engineEnabled }
  | .rules => { d with rules := some (s.rules.map Entry.value) }

/-- **A field that holds what the settings say is read so.** -/
theorem readField_holds {f : Field} {n : Node} (hn : s.Holds f n) (hd : d.has f = false)
    (src : Source) (mark m : Mark) :
    readField src .settings mark d (.scalar m none none .plain (Settings.key f)) n =
      pure (d.withField s f) := by
  have hname : Decode.fieldName src .root (.scalar m none none .plain (Settings.key f)) =
      pure (Schema.settings.name f) := by
    show (pure (String.ofList (Settings.key f)) : Decode String) = _
    rw [Settings.key, String.ofList_toList]
  have hfield : Schema.settings.field? (Schema.settings.name f) = some f := by
    cases f <;> rfl
  rw [readField, hname, pure_bind]
  simp only [hfield, hd, Bool.false_eq_true, if_false]
  cases f with
  | ownEnabled =>
    obtain ⟨m, rfl⟩ := hn
    simp only [Decode.bool_toString, pure_bind]
    rfl
  | engineEnabled =>
    obtain ⟨m, rfl⟩ := hn
    simp only [Decode.bool_toString, pure_bind]
    rfl
  | rules =>
    obtain ⟨m, ns, rfl, hns⟩ := hn
    simp only [readList_entries hns, pure_bind]
    rfl

/-- One more field. -/
theorem readFields_holds {f : Field} {k n : Node}
    (hk : ∃ m, k = .scalar m none none .plain (Settings.key f)) (hn : s.Holds f n)
    (hd : d.has f = false) (src : Source) (mark : Mark) (followed : Nat)
    (rest : List (Node × Node)) :
    readFields src .settings mark d followed ((k, n) :: rest) =
      readFields src .settings mark (d.withField s f) followed rest := by
  obtain ⟨m, rfl⟩ := hk
  rw [readFields, readField_holds hn hd]
  rfl

/-- The draft of settings, with all the fields. -/
theorem ofText_settings (s : Settings) :
    ofText .settings s.text =
      (⟨some s.ownEnabled, some s.engineEnabled, some (s.rules.map Entry.value)⟩, none) := by
  obtain ⟨m, es, hdocument, hes⟩ := s.exists_ofText_text
  obtain ⟨own, tail, ⟨hkey₁, hown⟩, htail, rfl⟩ := List.forall₂_cons_left_iff.mp hes
  obtain ⟨engine, last, ⟨hkey₂, hengine⟩, hlast, rfl⟩ := List.forall₂_cons_left_iff.mp htail
  obtain ⟨rules, others, ⟨hkey₃, hrules⟩, hothers, rfl⟩ := List.forall₂_cons_left_iff.mp hlast
  obtain rfl := List.forall₂_nil_left_iff.mp hothers
  have hread (src : Source) :
      read src .settings (.mapping m none none [own, engine, rules]) =
        (⟨some s.ownEnabled, some s.engineEnabled, some (s.rules.map Entry.value)⟩, none) := by
    show readFields src .settings m .blank 0 [own, engine, rules] = _
    rw [readFields_holds hkey₁ hown rfl, readFields_holds hkey₂ hengine rfl,
      readFields_holds hkey₃ hrules rfl]
    rfl
  rw [ofText]
  simp only [hdocument, hread]
  rfl

end Draft

/-- **Settings are read back from the text that is written for them**, whatever the texts in them
consist of, and nothing is reported. -/
theorem Settings.ofText_text (s : Settings) : Settings.ofText s.text = ⟨.ok s, []⟩ := by
  have hblank : ¬ Text.Blank s.text := by
    rw [Text.Blank, toList_text]
    exact Bool.false_ne_true
  have hentries :
      (⟨some s.ownEnabled, some s.engineEnabled, some (s.rules.map Entry.value)⟩ : Draft).entries =
        ⟨s.rules, []⟩ := by
    rw [Draft.entries]
    simp only [Option.getD_some, Entry.ofValues_value]
    rfl
  rw [ofText, if_neg hblank]
  simp only [Draft.ofText_settings, hentries]
  rfl

end DropRules
