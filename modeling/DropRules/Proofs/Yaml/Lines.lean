import DropRules.Proofs.Yaml.Words

/-!
# Documents line by line

A document that a program writes consists of lines of a few forms, and so it is better spoken of as
a list of lines than as a list of characters.  A `Line` is empty, or a comment, or an item of a
sequence, or a field of a mapping; `Line.text` is the line as it is written.

The tokens of a line depend on the block collections that are open where it begins.  `Line.kinds`
goes through the lines and keeps account of these and of nothing else; it computes, so that for a
given document the tokens can be read off.  `cuts_lines` says that it is right, for lines that
`Line.Fit` together.
-/

namespace DropRules.Yaml

/-- What stands in the line of a key. -/
inductive Payload where
  /-- Nothing; the value comes in the lines below, if there is one. -/
  | nothing
  | word (w : List Char)
  /-- A sequence without entries. -/
  | brackets

/-- A line of a document. -/
inductive Line where
  | blank
  | remark (words : List Char)
  /-- An item of a sequence, in one word, with its dash in a column, and maybe with a comment. -/
  | item (column : Nat) (w : List Char) (note : Option (List Char))
  /-- A field of a mapping, with its key in a column. -/
  | field (column : Nat) (key : List Char) (payload : Payload)
  /-- The first field of a mapping that is an item of a sequence, with its dash in a column. -/
  | first (column : Nat) (key : List Char) (payload : Payload)

namespace Payload

/-- What is written behind the colon. -/
def text : Payload → List Char
  | nothing => ['\n']
  | word w => ' ' :: (w ++ ['\n'])
  | brackets => [' ', '[', ']', '\n']

/-- The tokens of a payload. -/
def kinds : Payload → List TokenKind
  | nothing => []
  | word w => [.scalar w .plain]
  | brackets => [.flowSequenceStart, .flowSequenceEnd]

end Payload

/-- The block collections that are open behind the token in a column. -/
def Blocks.move (b : Blocks) (column : Nat) : Blocks :=
  (b.close column).enter column

namespace Line

/-- The end of a line, with a comment in front of it if there is one. -/
def noteText : Option (List Char) → List Char
  | none => ['\n']
  | some words => ' ' :: '#' :: (words ++ ['\n'])

/-- The line as it is written. -/
def text : Line → List Char
  | blank => ['\n']
  | remark words => '#' :: (words ++ ['\n'])
  | item column w note => List.replicate column ' ' ++ '-' :: ' ' :: (w ++ noteText note)
  | field column key payload => List.replicate column ' ' ++ (key ++ ':' :: payload.text)
  | first column key payload =>
    List.replicate column ' ' ++ '-' :: ' ' :: (key ++ ':' :: payload.text)

/-- The tokens of a field whose key stands in a column. -/
def fieldKinds (b : Blocks) (column : Nat) (key : List Char) (payload : Payload) : List TokenKind :=
  b.ends column ++ (b.close column).starts column .blockMappingStart
    ++ .key :: .scalar key .plain :: .value :: payload.kinds

/-- The tokens of a dash in a column. -/
def dashKinds (b : Blocks) (column : Nat) : List TokenKind :=
  b.ends column ++ (b.close column).starts column .blockSequenceStart ++ [.blockEntry]

/-- The tokens of lines, where block collections are open already. -/
def kinds : Blocks → List Line → List TokenKind
  | b, [] => b.ends 0 ++ (b.close 0).ends (-1) ++ [.streamEnd]
  | b, blank :: lines => kinds b lines
  | b, remark _ :: lines => kinds b lines
  | b, item column w _ :: lines =>
    dashKinds b column ++ .scalar w .plain :: kinds (b.move column) lines
  | b, field column key payload :: lines =>
    fieldKinds b column key payload ++ kinds (b.move column) lines
  | b, first column key payload :: lines =>
    dashKinds b column ++ (fieldKinds (b.move column) (column + 2) key payload
      ++ kinds ((b.move column).move (column + 2)) lines)

/-! ## Lines that fit together -/

/-- The text can stand in a comment. -/
def Printable (words : List Char) : Prop :=
  ∀ c ∈ words, isAllowed c ∧ isBreak c = false

instance (words : List Char) : Decidable (Printable words) :=
  decidable_of_iff (words.all fun c => isAllowed c && !isBreak c) (by simp [Printable])

theorem Printable.append {s t : List Char} (hs : Printable s) (ht : Printable t) :
    Printable (s ++ t) :=
  List.forall_mem_append.mpr ⟨hs, ht⟩

/-- What comes next, but for comments, does not stand to the right of a column. -/
def Shallower (indent : Int) : List Line → Prop
  | [] => True
  | blank :: lines => Shallower indent lines
  | remark _ :: lines => Shallower indent lines
  | item column _ _ :: _ => column ≤ indent
  | field column key _ :: _ => column ≤ indent ∧ isPlainWord key
  | first column _ _ :: _ => column ≤ indent

/-- A key stands in the column of the innermost collection, and its payload is in order. -/
def FieldFit (b : Blocks) (column : Nat) (key : List Char) (lines : List Line) : Payload → Prop
  | .nothing | .brackets => isPlainWord key ∧ b.indent ≤ column
  | .word w => isPlainWord key ∧ b.indent ≤ column ∧ isPlainWord w ∧ Shallower b.indent lines

/-- The lines mean what they look like. -/
def Fit : Blocks → List Line → Prop
  | _, [] => True
  | b, blank :: lines => Fit b lines
  | b, remark words :: lines => Printable words ∧ Fit b lines
  | b, item column w note :: lines =>
    isPlainWord w ∧ (∀ words ∈ note, Printable words)
      ∧ (b.move column).indent ≤ column ∧ Shallower (b.move column).indent lines
      ∧ Fit (b.move column) lines
  | b, field column key payload :: lines =>
    FieldFit (b.move column) column key lines payload ∧ Fit (b.move column) lines
  | b, first column key payload :: lines =>
    FieldFit ((b.move column).move (column + 2)) (column + 2) key lines payload
      ∧ Fit ((b.move column).move (column + 2)) lines

end Line

namespace Cuts

variable {text : List Char} {column : Nat} {allowed : Bool} {b : Blocks} {kinds : List TokenKind}

theorem indented (n : Nat) (h : Cuts text n allowed b kinds) :
    Cuts (List.replicate n ' ' ++ text) 0 allowed b kinds :=
  spaces n (by rwa [Nat.zero_add])

/-- A key with its payload. -/
theorem field {key : List Char} {payload : Payload} {lines : List Line}
    (hfit : Line.FieldFit (b.move column) column key lines payload)
    (hshallow : Line.Shallower (b.move column).indent lines →
      Shallow (b.move column).indent 0 text)
    (h : Cuts text 0 true (b.move column) kinds) :
    Cuts (key ++ ':' :: (payload.text ++ text)) column true b
      (Line.fieldKinds b column key payload ++ kinds) := by
  have hpayload : Cuts (payload.text ++ text) (column + key.length + 1) false (b.move column)
      (payload.kinds ++ kinds) := by
    cases payload with
    | nothing => exact lineFeed h
    | word w =>
      obtain ⟨-, hle, hw, hnext⟩ := hfit
      show Cuts (' ' :: (w ++ ['\n'] ++ text)) _ _ _ _
      rw [List.append_assoc]
      exact space (word_break hw (by omega) (hshallow hnext) h)
    | brackets =>
      obtain ⟨-, hle⟩ := hfit
      exact space (brackets (.inr (by omega)) (lineFeed h))
  have hkey : isPlainWord key := by
    cases payload with
    | nothing => exact hfit.1
    | word w => exact hfit.1
    | brackets => exact hfit.1
  have hblank : blankNext (payload.text ++ text) := by
    cases payload with
    | nothing => rfl
    | word w => rfl
    | brackets => rfl
  have hfield := Cuts.key hkey hblank hpayload
  simpa [Line.fieldKinds] using hfield

/-- A dash in front of something in its line. -/
theorem dashed (h : Cuts text (column + 2) true (b.move column) kinds) :
    Cuts ('-' :: ' ' :: text) column true b (Line.dashKinds b column ++ kinds) := by
  have hdash : Cuts ('-' :: ' ' :: text) column true b _ := dash rfl (space h)
  simpa [Line.dashKinds] using hdash

end Cuts

/-! ## Lines as characters -/

theorem shallow_of_char {indent : Int} {column : Nat} {c : Char} (hblank : isBlank c = false)
    (hbreak : isBreak c = false) (h : c = '#' ∨ column ≤ indent) (rest : List Char) :
    Shallow indent column (c :: rest) := by
  have hfeed : c ≠ '\n' := by
    rintro rfl
    cases hbreak
  have hspace : c ≠ ' ' := by
    rintro rfl
    cases hblank
  rw [Shallow, if_neg hfeed, if_neg hspace]
  exact ⟨hblank, hbreak, h⟩

theorem shallow_spaces {indent : Int} (n : Nat) {column : Nat} {rest : List Char}
    (h : Shallow indent (column + n) rest) :
    Shallow indent column (List.replicate n ' ' ++ rest) := by
  induction n generalizing column with
  | zero => exact h
  | succ n ih =>
    rw [List.replicate_succ, List.cons_append, Shallow, if_neg (by decide), if_pos rfl]
    exact ih (by rwa [Nat.add_right_comm, Nat.add_assoc])

/-- Such lines do not continue a scalar in a collection at this column. -/
theorem Line.shallow_text {indent : Int} {lines : List Line} (h : Shallower indent lines) :
    Shallow indent 0 (lines.flatMap text) := by
  induction lines with
  | nil => trivial
  | cons line lines ih =>
    rw [List.flatMap_cons]
    cases line with
    | blank =>
      show Shallow indent 0 ('\n' :: lines.flatMap text)
      rw [Shallow, if_pos rfl]
      exact ih h
    | remark words => exact shallow_of_char rfl rfl (.inl rfl) _
    | item column w note =>
      rw [text, List.append_assoc]
      exact shallow_spaces column (shallow_of_char rfl rfl (.inr (by rwa [Nat.zero_add])) _)
    | field column key payload =>
      obtain ⟨hcolumn, hkey⟩ := h
      rw [text, List.append_assoc]
      refine shallow_spaces column ?_
      rcases key with _ | ⟨c, key⟩
      · cases hkey
      · have hc := isWord_of_isPlainWord hkey c List.mem_cons_self
        exact shallow_of_char (isBlank_of_isWord hc) (isBreak_of_isWord hc)
          (.inr (by rwa [Nat.zero_add])) _
    | first column key payload =>
      rw [text, List.append_assoc]
      exact shallow_spaces column (shallow_of_char rfl rfl (.inr (by rwa [Nat.zero_add])) _)

/-- **Lines that fit together are cut into their tokens.** -/
theorem cuts_lines {lines : List Line} {b : Blocks} (h : Line.Fit b lines) :
    Cuts (lines.flatMap Line.text) 0 true b (Line.kinds b lines) := by
  induction lines generalizing b with
  | nil => exact Cuts.done
  | cons line lines ih =>
    cases line with
    | blank => exact Cuts.lineFeed (ih h)
    | remark words =>
      have hrest : Cuts ('#' :: (words ++ '\n' :: lines.flatMap Line.text)) 0 true b _ :=
        Cuts.remark (fun c hc => (h.1 c hc).2) (ih h.2)
      simpa [Line.text, Line.kinds] using hrest
    | item column w note =>
      obtain ⟨hw, hnote, hle, hnext, hlines⟩ := h
      have hrest := ih hlines
      have hword : Cuts (w ++ (Line.noteText note ++ lines.flatMap Line.text)) (column + 2) true
          (b.move column) (.scalar w .plain :: Line.kinds (b.move column) lines) := by
        cases note with
        | none => exact Cuts.word_break hw (by omega) (Line.shallow_text hnext) hrest
        | some words =>
          have hremark : Cuts (w ++ ' ' :: '#' :: (words ++ '\n' :: lines.flatMap Line.text))
              (column + 2) true _ _ :=
            Cuts.word_remark hw (by omega) (fun c hc => (hnote words rfl c hc).2) hrest
          simpa [Line.noteText] using hremark
      have hitem := Cuts.indented column (Cuts.dashed hword)
      simpa [Line.text, Line.kinds] using hitem
    | field column key payload =>
      have hfield := Cuts.indented column (Cuts.field h.1 Line.shallow_text (ih h.2))
      simpa [Line.text, Line.kinds] using hfield
    | first column key payload =>
      have hfield := Cuts.field h.1 Line.shallow_text (ih h.2)
      have hfirst := Cuts.indented column (Cuts.dashed hfield)
      simpa [Line.text, Line.kinds] using hfirst

theorem isAllowed_of_mem_word {w : List Char} (hw : isPlainWord w) : ∀ c ∈ w, isAllowed c :=
  fun c hc => isAllowed_of_isWord (isWord_of_isPlainWord hw c hc)

theorem isAllowed_of_mem_spaces (n : Nat) : ∀ c ∈ List.replicate n ' ', isAllowed c := by
  intro c hc
  rw [List.eq_of_mem_replicate hc]
  decide

/-- A field is written in characters that a document may hold. -/
theorem Line.isAllowed_of_mem_field {b : Blocks} {column : Nat} {key : List Char}
    {payload : Payload} {lines : List Line} (h : FieldFit b column key lines payload) :
    ∀ c ∈ key ++ ':' :: payload.text, isAllowed c := by
  rw [List.forall_mem_append, List.forall_mem_cons]
  cases payload with
  | nothing => exact ⟨isAllowed_of_mem_word h.1, by decide, List.all_eq_true.mp (by decide)⟩
  | word w =>
    refine ⟨isAllowed_of_mem_word h.1, by decide, ?_⟩
    rw [Payload.text, List.forall_mem_cons, List.forall_mem_append]
    exact ⟨by decide, isAllowed_of_mem_word h.2.2.1, List.all_eq_true.mp (by decide)⟩
  | brackets => exact ⟨isAllowed_of_mem_word h.1, by decide, List.all_eq_true.mp (by decide)⟩

/-- Lines that fit together are written in characters that a document may hold. -/
theorem Line.isAllowed_of_mem_text {lines : List Line} {b : Blocks} (h : Fit b lines) :
    ∀ c ∈ lines.flatMap text, isAllowed c := by
  induction lines generalizing b with
  | nil => nofun
  | cons line lines ih =>
    rw [List.flatMap_cons, List.forall_mem_append]
    cases line with
    | blank => exact ⟨List.all_eq_true.mp (by decide), ih h⟩
    | remark words =>
      refine ⟨?_, ih h.2⟩
      rw [text, List.forall_mem_cons, List.forall_mem_append]
      exact ⟨by decide, fun c hc => (h.1 c hc).1, List.all_eq_true.mp (by decide)⟩
    | item column w note =>
      obtain ⟨hw, hnote, -, -, hlines⟩ := h
      refine ⟨?_, ih hlines⟩
      rw [text, List.forall_mem_append, List.forall_mem_cons, List.forall_mem_cons,
        List.forall_mem_append]
      refine ⟨isAllowed_of_mem_spaces column, by decide, by decide, isAllowed_of_mem_word hw, ?_⟩
      cases note with
      | none => exact List.all_eq_true.mp (by decide)
      | some words =>
        rw [noteText, List.forall_mem_cons, List.forall_mem_cons, List.forall_mem_append]
        exact ⟨by decide, by decide, fun c hc => (hnote words rfl c hc).1,
          List.all_eq_true.mp (by decide)⟩
    | field column key payload =>
      refine ⟨?_, ih h.2⟩
      rw [text, List.forall_mem_append]
      exact ⟨isAllowed_of_mem_spaces column, isAllowed_of_mem_field h.1⟩
    | first column key payload =>
      refine ⟨?_, ih h.2⟩
      rw [text, List.forall_mem_append, List.forall_mem_cons, List.forall_mem_cons]
      exact ⟨isAllowed_of_mem_spaces column, by decide, by decide, isAllowed_of_mem_field h.1⟩

/-- **The tokens of a document in lines.** -/
theorem ofText_lines {lines : List Line} (h : Line.Fit ⟨-1, []⟩ lines) :
    (TokenStream.ofText (lines.flatMap Line.text)).tokens.map (·.kind) =
        Line.kinds ⟨-1, []⟩ lines ∧
      (TokenStream.ofText (lines.flatMap Line.text)).fault = none :=
  (cuts_lines h).ofText (Line.isAllowed_of_mem_text h)

end DropRules.Yaml
