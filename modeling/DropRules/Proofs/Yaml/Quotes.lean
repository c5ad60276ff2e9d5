import DropRules.Proofs.Yaml.Plain
import Mathlib.Algebra.Group.Nat.Defs

/-!
# Texts between quotes

Between single quotes a text stands as it is, but for its quotes, which are written twice, and for
its line breaks, behind which the next line is indented.  Blanks next to a line break would be
lost, and so a text is put between single quotes only if it has none there; of line breaks only the
separators of Unicode are kept, and so it must not have others.

Between double quotes every character can stand, for it can be escaped.

What has been read since the last word is a `Gap`, and it depends on the character that came last:
`Gap.After` tells how.
-/

namespace DropRules.Yaml

open Scan

/-! ## One character further -/

section Steps

variable {single : Bool} {since : Mark}

theorem readQuoted_space (gap : Gap) (rest : List Char) (m : Mark) :
    readQuoted single since (.text gap) (' ' :: rest) m =
      readQuoted single since (.text (gap.blank ' ')) rest (m.next ' ') := by
  rw [readQuoted.eq_def]
  rfl

/-- Behind a line break, spaces do not count. -/
theorem readQuoted_indent {gap : Gap} (hgap : gap.isBroken) (n : Nat) (rest : List Char) (m : Mark) :
    readQuoted single since (.text gap) (List.replicate n ' ' ++ rest) m =
      readQuoted single since (.text gap) rest (m.past (List.replicate n ' ')) := by
  have hblank : gap.blank ' ' = gap := by
    cases gap with
    | breaks first later => rfl
    | none => cases hgap
    | blanks text => cases hgap
  induction n generalizing m with
  | zero => rfl
  | succ n ih =>
    rw [List.replicate_succ, List.cons_append, readQuoted_space, hblank, ih]
    rfl

/-- A character that stands for itself. -/
theorem readQuoted_char {gap : Gap} {c : Char} (hblank : isBlank c = false)
    (hbreak : isBreak c = false) (hquote : c ≠ if single then '\'' else '"')
    (hescape : single ∨ c ≠ '\\') {m : Mark} (hpos : 0 < m.column) (rest : List Char) :
    readQuoted single since (.text gap) (c :: rest) m =
      (readQuoted single since (.text .none) rest (m.next c)).map
        fun r => (gap.text ++ c :: r.1, r.2) := by
  have hreturn := beq_return_eq_false hbreak
  have hmarker : (gap.isOpen && m.column == 0 && documentMarkerNext (c :: rest)) = false := by
    simp [Nat.pos_iff_ne_zero.mp hpos]
  have hslash : (!single && c == '\\') = false := by
    rcases hescape with rfl | h
    · rfl
    · simp [h]
  have hend : (c == if single then '\'' else '"') = false := beq_eq_false_iff_ne.mpr hquote
  rw [readQuoted.eq_def]
  simp only [hblank, hbreak, hreturn, hmarker, hend, hslash, Bool.false_and, Bool.false_eq_true,
    if_false]

/-- A line break. -/
theorem readQuoted_break {gap : Gap} {c : Char} (hbreak : isBreak c) (hreturn : c ≠ '\r')
    (rest : List Char) (m : Mark) :
    readQuoted single since (.text gap) (c :: rest) m =
      readQuoted single since (.text (gap.lineBreak (breakText c))) rest (m.newline c.utf8Size) := by
  have hblank : isBlank c = false := by
    rw [isBlank, Bool.or_eq_false_iff, beq_eq_false_iff_ne, beq_eq_false_iff_ne]
    constructor <;> rintro rfl <;> cases hbreak
  rw [readQuoted.eq_def]
  simp only [hblank, hbreak, beq_eq_false_iff_ne.mpr hreturn, Bool.false_and, Bool.false_eq_true,
    if_false, if_true]

/-- A quote that is written twice. -/
theorem readQuoted_quote {gap : Gap} {m : Mark} (hpos : 0 < m.column) (rest : List Char) :
    readQuoted true since (.text gap) ('\'' :: '\'' :: rest) m =
      (readQuoted true since (.text .none) rest ((m.next '\'').next '\'')).map
        fun r => (gap.text ++ '\'' :: r.1, r.2) := by
  rw [readQuoted.eq_def]
  simp [isBlank, isBreak, Nat.pos_iff_ne_zero.mp hpos]

/-- The closing quote. -/
theorem readQuoted_close (gap : Gap) (text : List Char) {m : Mark} (hpos : 0 < m.column) :
    readQuoted single since (.text gap) ((if single then '\'' else '"') :: '\n' :: text) m =
      .ok (gap.text, ⟨'\n' :: text, m.next (if single then '\'' else '"')⟩) := by
  cases single <;> rw [readQuoted.eq_def] <;> simp [isBlank, isBreak, Nat.pos_iff_ne_zero.mp hpos]

end Steps

/-! ## Single quotes -/

/-- What the gap may be behind a character of a text that is put between single quotes. -/
inductive Gap.After : Char → Gap → Prop
  | word {c : Char} (hspace : isSpace c = false) (hbreak : isBreak c = false) : After c .none
  | space {w : List Char} : After ' ' (.blanks w)
  | line {c first : Char} {later : List Char} (hbreak : isBreak c) (hfirst : first ≠ '\n') :
      After c (.breaks (some first) later)

namespace Gap.After

variable {a : Char} {gap : Gap}

theorem isBroken_eq (h : gap.After a) : gap.isBroken = isBreak a := by
  cases h with
  | word _ hbreak => exact hbreak.symm
  | space => rfl
  | line hbreak => exact hbreak.symm

/-- One more space, which stands behind no line break. -/
theorem blank (h : gap.After a) (ha : isBreak a = false) :
    (gap.blank ' ').After ' ' ∧ (gap.blank ' ').text = gap.text ++ [' '] := by
  cases h with
  | word => exact ⟨.space, rfl⟩
  | space => exact ⟨.space, rfl⟩
  | line hbreak =>
    rw [hbreak] at ha
    cases ha

/-- One more line break, which stands behind no space. -/
theorem lineBreak (h : gap.After a) (ha : isSpace a = false) {c : Char} (hc : isBreak c)
    (hfeed : c ≠ '\n') :
    (gap.lineBreak c).After c ∧ (gap.lineBreak c).text = gap.text ++ [c] := by
  cases h with
  | word => exact ⟨.line hc hfeed, by simp [Gap.lineBreak, Gap.text, hfeed]⟩
  | space => cases ha
  | line hbreak hfirst =>
    exact ⟨.line hc hfirst, by simp [Gap.lineBreak, Gap.text, hfirst]⟩

end Gap.After

/-- At the beginning of a line, the indentation comes first. -/
theorem readQuoted_margin {gap : Gap} {n : Nat} (hn : 0 < n) {single : Bool} (since : Mark)
    {m : Mark} (hpos : gap.isBroken ∨ 0 < m.column) :
    ∃ m' : Mark, m'.line = m.line ∧ 0 < m'.column ∧ ∀ rest,
      readQuoted single since (.text gap)
          ((if gap.isBroken then List.replicate n ' ' else []) ++ rest) m =
        readQuoted single since (.text gap) rest m' := by
  by_cases hbroken : gap.isBroken = true
  · refine ⟨m.past (List.replicate n ' '), Mark.line_past _ _, ?_, fun rest => ?_⟩
    · rw [Mark.column_past, List.length_replicate]
      omega
    · rw [if_pos hbroken, readQuoted_indent hbroken]
  · refine ⟨m, rfl, hpos.resolve_left hbroken, fun rest => ?_⟩
    rw [if_neg hbroken, List.nil_append]

/-- **A text between single quotes is read as itself.** -/
theorem readQuoted_single {s text : List Char} {n : Nat} (hn : 0 < n)
    (hwritten : ∀ c ∈ s, isPlainlyWritten c) (hfeed : '\n' ∉ s) {a : Char}
    (hbefore : hasPair isSpace isBreak (a :: s) = false)
    (hbehind : hasPair isBreak isSpace (a :: s) = false) {gap : Gap} (hgap : gap.After a)
    (since : Mark) {m : Mark} (hpos : gap.isBroken ∨ 0 < m.column) :
    ∃ m' : Mark, m.line ≤ m'.line ∧
      readQuoted true since (.text gap) (singleQuotedTail n gap.isBroken s ++ '\n' :: text) m =
        .ok (gap.text ++ s, ⟨'\n' :: text, m'⟩) := by
  induction s generalizing a gap m with
  | nil =>
    obtain ⟨m₁, hline, hpos₁, hmargin⟩ := @readQuoted_margin gap n hn true since m hpos
    have hclose : readQuoted true since (.text gap) ('\'' :: '\n' :: text) m₁ =
        .ok (gap.text, ⟨'\n' :: text, m₁.next '\''⟩) := readQuoted_close gap text hpos₁
    refine ⟨m₁.next '\'', Nat.le_of_eq hline.symm, ?_⟩
    rw [singleQuotedTail, List.append_assoc, hmargin, List.append_nil]
    exact hclose
  | cons c s ih =>
    rw [hasPair, Bool.or_eq_false_iff] at hbefore hbehind
    have hc := hwritten c List.mem_cons_self
    have hlater {gap : Gap} (hgap : gap.After c) {m : Mark} (hpos : gap.isBroken ∨ 0 < m.column) :=
      ih (fun d hd => hwritten d (List.mem_cons_of_mem _ hd))
        (fun h => hfeed (List.mem_cons_of_mem _ h)) hbefore.2 hbehind.2 hgap hpos
    by_cases hbreak : isBreak c = true
    · have hne : c ≠ '\n' := fun h => hfeed (h ▸ List.mem_cons_self)
      have hreturn : c ≠ '\r' := by
        rintro rfl
        cases hc
      have ha : isSpace a = false := by simpa [hbreak] using hbefore.1
      obtain ⟨hafter, htext⟩ := hgap.lineBreak ha hbreak hne
      obtain ⟨m', hline, hread⟩ :=
        hlater hafter (m := m.newline c.utf8Size) (.inl (hafter.isBroken_eq.trans hbreak))
      refine ⟨m', Nat.le_of_succ_le hline, ?_⟩
      rw [hafter.isBroken_eq, hbreak, htext, List.append_assoc] at hread
      rw [singleQuotedTail, if_pos hbreak, List.cons_append, readQuoted_break hbreak hreturn,
        breakText_of_isPlainlyWritten hc hbreak]
      exact hread
    · rw [Bool.not_eq_true] at hbreak
      obtain ⟨m₁, hline₁, hpos₁, hmargin⟩ := @readQuoted_margin gap n hn true since m hpos
      rw [singleQuotedTail, hbreak, if_neg (by decide), List.append_assoc, List.append_assoc,
        hmargin]
      by_cases hspace : c = ' '
      · subst hspace
        have ha : isBreak a = false := by simpa [isSpace] using hbehind.1
        obtain ⟨hafter, htext⟩ := hgap.blank ha
        obtain ⟨m', hline, hread⟩ := hlater hafter (m := m₁.next ' ') (.inr (Nat.succ_pos _))
        rw [hafter.isBroken_eq, htext, List.append_assoc] at hread
        refine ⟨m', hline₁ ▸ hline, ?_⟩
        rw [if_neg (by decide), List.singleton_append, readQuoted_space]
        exact hread
      have hspace' : isSpace c = false := beq_eq_false_iff_ne.mpr hspace
      have hnone : Gap.none.After c := .word hspace' hbreak
      by_cases hquote : c = '\''
      · subst hquote
        obtain ⟨m', hline, hread⟩ :=
          hlater hnone (m := (m₁.next '\'').next '\'') (.inr (Nat.succ_pos _))
        refine ⟨m', hline₁ ▸ hline, ?_⟩
        have hread' : readQuoted true since (.text .none)
            (singleQuotedTail n false s ++ '\n' :: text) ((m₁.next '\'').next '\'') =
              .ok (s, ⟨'\n' :: text, m'⟩) := hread
        rw [if_pos rfl, List.cons_append, List.singleton_append, readQuoted_quote hpos₁, hread']
        rfl
      · obtain ⟨m', hline, hread⟩ := hlater hnone (m := m₁.next c) (.inr (Nat.succ_pos _))
        have hblank := isBlank_of_isPlainlyWritten hc hspace
        refine ⟨m', hline₁ ▸ hline, ?_⟩
        have hread' : readQuoted true since (.text .none)
            (singleQuotedTail n false s ++ '\n' :: text) (m₁.next c) =
              .ok (s, ⟨'\n' :: text, m'⟩) := hread
        have hchar := @readQuoted_char true since gap c hblank hbreak hquote (.inl rfl) m₁ hpos₁
        rw [if_neg hquote, List.singleton_append, hchar, hread']
        rfl

/-! ## Double quotes -/

theorem hexValue?_capitalHex {d : Nat} (hd : d < 16) : hexValue? (capitalHex d) = some d := by
  revert d
  decide

theorem charOfCode?_toNat (c : Char) : charOfCode? c.toNat = some c := by
  have hvalid : c.toNat.isValidChar := c.valid
  rw [charOfCode?, if_pos hvalid, Char.ofNat_toNat]

section Escapes

variable {since digits : Mark}

/-- All digits of a code point but the last, of which at least one is missing. -/
theorem readQuoted_hexField (width n : Nat) {k v : Nat} (hk : 1 ≤ k) (rest : List Char) (m : Mark) :
    readQuoted false since (.code (width + k) v digits) (hexField width n ++ rest) m =
      readQuoted false since (.code k (v * 16 ^ width + n % 16 ^ width) digits) rest
        (m.past (hexField width n)) := by
  induction width generalizing n k rest with
  | zero =>
    rw [Nat.zero_add, Nat.pow_zero, Nat.mod_one, Nat.mul_one]
    rfl
  | succ width ih =>
    have hdigit := hexValue?_capitalHex (Nat.mod_lt n (show 0 < 16 by decide))
    have hvalue : (v * 16 ^ width + n / 16 % 16 ^ width) * 16 + n % 16 =
        v * 16 ^ (width + 1) + n % 16 ^ (width + 1) := by
      rw [Nat.pow_succ', Nat.mod_mul, Nat.mul_left_comm]
      omega
    have hleft : ¬ k + 1 ≤ 1 := by omega
    rw [hexField, List.append_assoc, Nat.add_assoc, Nat.add_comm 1 k, ih _ (by omega),
      List.singleton_append, readQuoted, hdigit]
    simp only [hleft, if_false, Nat.add_sub_cancel, hvalue]
    rw [Mark.past, Mark.past, List.foldl_append]
    rfl

/-- **A code point is read as its character.** -/
theorem readQuoted_code {width : Nat} {c : Char} (hc : c.toNat < 16 ^ (width + 1)) (rest : List Char)
    (m : Mark) :
    readQuoted false since (.code (width + 1) 0 digits) (hexField (width + 1) c.toNat ++ rest) m =
      (readQuoted false since (.text .none) rest (m.past (hexField (width + 1) c.toNat))).map
        fun r => (c :: r.1, r.2) := by
  have hdigit := hexValue?_capitalHex (Nat.mod_lt c.toNat (show 0 < 16 by decide))
  have hvalue : (0 * 16 ^ width + c.toNat / 16 % 16 ^ width) * 16 + c.toNat % 16 = c.toNat := by
    have hlow : c.toNat / 16 < 16 ^ width := Nat.div_lt_of_lt_mul (by rwa [← Nat.pow_succ'])
    rw [Nat.mod_eq_of_lt hlow]
    omega
  rw [hexField, List.append_assoc, readQuoted_hexField width _ (Nat.le_refl 1),
    List.singleton_append, readQuoted, hdigit]
  simp only [Nat.le_refl, if_true, hvalue, charOfCode?_toNat]
  rw [Mark.past, Mark.past, List.foldl_append]
  rfl

/-- An escape that is a letter. -/
theorem readQuoted_letter {gap : Gap} {e x : Char} (hescape : escapeOf? e = some x)
    (hbreak : isBreak e = false) {m : Mark} (hpos : 0 < m.column) (rest : List Char) :
    readQuoted false since (.text gap) ('\\' :: e :: rest) m =
      (readQuoted false since (.text .none) rest ((m.next '\\').next e)).map
        fun r => (gap.text ++ x :: r.1, r.2) := by
  have hreturn := beq_return_eq_false hbreak
  have hslash : isBreak '\\' = false := rfl
  rw [readQuoted.eq_def]
  simp [isBlank, hslash, hbreak, hreturn, hescape, Nat.pos_iff_ne_zero.mp hpos]

/-- An escape that is a code point. -/
theorem readQuoted_codePoint {gap : Gap} {e c : Char} {width : Nat} (hescape : escapeOf? e = none)
    (hlength : codeLength? e = some (width + 1)) (hbreak : isBreak e = false)
    (hc : c.toNat < 16 ^ (width + 1)) {m : Mark} (hpos : 0 < m.column) (rest : List Char) :
    readQuoted false since (.text gap) ('\\' :: e :: (hexField (width + 1) c.toNat ++ rest)) m =
      (readQuoted false since (.text .none) rest
        (((m.next '\\').next e).past (hexField (width + 1) c.toNat))).map
        fun r => (gap.text ++ c :: r.1, r.2) := by
  have hreturn := beq_return_eq_false hbreak
  have hslash : isBreak '\\' = false := rfl
  rw [readQuoted.eq_def]
  simp [isBlank, hslash, hbreak, hreturn, hescape, hlength, Nat.pos_iff_ne_zero.mp hpos,
    readQuoted_code hc]
  generalize readQuoted false since (.text .none) rest _ = r
  cases r <;> rfl

end Escapes

/-- The forms of an escape. -/
inductive IsEscape (c : Char) : List Char → Prop
  | letter {e : Char} (hescape : escapeOf? e = some c) (hbreak : isBreak e = false) :
      IsEscape c ['\\', e]
  | codePoint {e : Char} {width : Nat} (hescape : escapeOf? e = none)
      (hlength : codeLength? e = some (width + 1)) (hbreak : isBreak e = false)
      (hc : c.toNat < 16 ^ (width + 1)) : IsEscape c ('\\' :: e :: hexField (width + 1) c.toNat)

/-- Every character has an escape. -/
theorem isEscape_escape (c : Char) : IsEscape c (escape c) := by
  have hchar {n : Nat} {d : Char} (h : c.toNat = n) (hd : d.toNat = n) : d = c :=
    Char.toNat_inj.mp (hd.trans h.symm)
  simp only [escape]
  split
  · rename_i letter hshort
    split at hshort
    all_goals first
      | cases hshort
        exact .letter (congrArg some (hchar ‹c.toNat = _› rfl)) rfl
      | cases hshort
  · split_ifs with hsmall hmiddle
    · exact @IsEscape.codePoint c 'x' 1 rfl rfl rfl (by omega)
    · exact @IsEscape.codePoint c 'u' 3 rfl rfl rfl (by omega)
    · have hvalid : c.toNat < 0xD800 ∨ 0xDFFF < c.toNat ∧ c.toNat < 0x110000 := c.valid
      exact @IsEscape.codePoint c 'U' 7 rfl rfl rfl (by omega)

/-- An escape is read as the character that it stands for. -/
theorem readQuoted_escape {c : Char} {source : List Char} (h : IsEscape c source) (gap : Gap)
    (since : Mark) {m : Mark} (hpos : 0 < m.column) :
    ∃ m' : Mark, m'.line = m.line ∧ 0 < m'.column ∧ ∀ rest,
      readQuoted false since (.text gap) (source ++ rest) m =
        (readQuoted false since (.text .none) rest m').map fun r => (gap.text ++ c :: r.1, r.2) := by
  cases h with
  | @letter e hescape hbreak =>
    exact ⟨(m.next '\\').next e, rfl, Nat.succ_pos _, readQuoted_letter hescape hbreak hpos⟩
  | @codePoint e width hescape hlength hbreak hc =>
    refine ⟨((m.next '\\').next e).past _, Mark.line_past _ _, ?_,
      readQuoted_codePoint hescape hlength hbreak hc hpos⟩
    rw [Mark.column_past]
    exact Nat.lt_of_lt_of_le (Nat.succ_pos _) (Nat.le_add_right _ _)

/-- **A text between double quotes is read as itself.** -/
theorem readQuoted_double (s text : List Char) {gap : Gap} (hgap : gap.isBroken = false)
    (since : Mark) {m : Mark} (hpos : 0 < m.column) :
    ∃ m' : Mark, m'.line = m.line ∧
      readQuoted false since (.text gap) (s.flatMap doubleQuotedChar ++ '"' :: '\n' :: text) m =
        .ok (gap.text ++ s, ⟨'\n' :: text, m'⟩) := by
  induction s generalizing gap m with
  | nil =>
    have hclose : readQuoted false since (.text gap) ('"' :: '\n' :: text) m =
        .ok (gap.text, ⟨'\n' :: text, m.next '"'⟩) := readQuoted_close gap text hpos
    exact ⟨m.next '"', rfl, by rw [List.append_nil]; exact hclose⟩
  | cons c s ih =>
    rw [List.flatMap_cons, List.append_assoc, doubleQuotedChar]
    split_ifs with hescaped
    · obtain ⟨m₁, hline, hpos₁, hread⟩ := readQuoted_escape (isEscape_escape c) gap since hpos
      obtain ⟨m', hline', hlater⟩ := @ih .none rfl m₁ hpos₁
      refine ⟨m', hline'.trans hline, ?_⟩
      rw [hread, hlater]
      rfl
    · simp only [Bool.or_eq_true, Bool.not_eq_true', beq_iff_eq, not_or, Bool.not_eq_true,
        Bool.not_eq_false] at hescaped
      obtain ⟨⟨⟨hwritten, hbreak⟩, hquote⟩, hslash⟩ := hescaped
      by_cases hspace : c = ' '
      · subst hspace
        have hblank : (gap.blank ' ').isBroken = false ∧
            (gap.blank ' ').text = gap.text ++ [' '] := by
          cases gap with
          | none => exact ⟨rfl, rfl⟩
          | blanks w => exact ⟨rfl, rfl⟩
          | breaks first later => cases hgap
        obtain ⟨m', hline, hlater⟩ := @ih (gap.blank ' ') hblank.1 (m.next ' ') (Nat.succ_pos _)
        refine ⟨m', hline, ?_⟩
        rw [List.singleton_append, readQuoted_space, hlater, hblank.2, List.append_assoc]
        rfl
      · obtain ⟨m', hline, hlater⟩ := @ih .none rfl (m.next c) (Nat.succ_pos _)
        have hchar := @readQuoted_char false since gap c
          (isBlank_of_isPlainlyWritten hwritten hspace) hbreak hquote (.inr hslash) m hpos
        refine ⟨m', hline, ?_⟩
        rw [List.singleton_append, hchar, hlater]
        rfl

/-! ## Texts between quotes as scalars -/

namespace Scan

/-- A quote begins a scalar. -/
theorem fetchHere_quoted (single : Bool) {s : Scan} {text : List Char}
    (hs : s.cursor.rest = (if single then '\'' else '"') :: text) :
    s.fetchHere = s.fetchQuoted single := by
  cases single with
  | false =>
    have hdash : tripleNext '-' ('"' :: text) = false := tripleNext_of_ne (by decide) text
    have hdot : tripleNext '.' ('"' :: text) = false := tripleNext_of_ne (by decide) text
    rw [fetchHere, hs]
    simp [hdash, hdot]
  | true =>
    have hdash : tripleNext '-' ('\'' :: text) = false := tripleNext_of_ne (by decide) text
    have hdot : tripleNext '.' ('\'' :: text) = false := tripleNext_of_ne (by decide) text
    rw [fetchHere, hs]
    simp [hdash, hdot]

theorem fetchQuoted_idle {single : Bool} {x : Char} {text w : List Char} {m : Mark} {c : Cursor}
    {b : Blocks} (h : readQuoted single m (.text .none) text (m.next x) = .ok (w, c))
    (held : List Token) (given : Nat) (allowed : Bool) :
    (idle ⟨x :: text, m⟩ held given allowed b).fetchQuoted single =
      .ok { idle c (held ++ [⟨.scalar w (if single then .singleQuoted else .doubleQuoted), m,
          c.mark⟩]) given false b with
        key := if allowed then some ⟨b.indent == m.column, given + held.length, m⟩ else none } := by
  cases allowed with
  | false =>
    show (do
      let r ← readQuoted single m (.text .none) text (m.next x)
      pure (push { idle ⟨x :: text, m⟩ held given false b with keyAllowed := false, cursor := r.2 }
        ⟨.scalar r.1 (if single then .singleQuoted else .doubleQuoted), m, r.2.mark⟩) :
      Except Fault Scan) = _
    rw [h]
    rfl
  | true =>
    show (do
      let r ← readQuoted single m (.text .none) text (m.next x)
      pure (push { idle ⟨x :: text, m⟩ held given true b with
        key := some ⟨b.indent == m.column, given + held.length, m⟩, keyAllowed := false,
        cursor := r.2 }
        ⟨.scalar r.1 (if single then .singleQuoted else .doubleQuoted), m, r.2.mark⟩) :
      Except Fault Scan) = _
    rw [h]
    rfl

end Scan

/-- What is read as `w` from behind a quote is a scalar together with the quote. -/
theorem isScalar_quoted (single : Bool) {b : Blocks} {column : Nat} {source w text : List Char}
    (hread : ∀ since m : Mark, 0 < m.column → ∃ m' : Mark, m.line ≤ m'.line ∧
      readQuoted single since (.text .none) (source ++ '\n' :: text) m =
        .ok (w, ⟨'\n' :: text, m'⟩)) :
    IsScalar b column ((if single then '\'' else '"') :: source ++ ['\n']) w
      (if single then .singleQuoted else .doubleQuoted) text := by
  rintro m held given allowed -
  obtain ⟨m', hline, hread⟩ := hread m (m.next (if single then '\'' else '"')) (Nat.succ_pos _)
  have hsource : ((if single then '\'' else '"') :: source ++ ['\n']) ++ text =
      (if single then '\'' else '"') :: (source ++ '\n' :: text) := by
    rw [List.append_assoc]
    rfl
  rw [hsource, fetchHere_quoted single rfl, fetchQuoted_idle hread]
  refine ⟨⟨'\n' :: text, m'⟩, false, _, rfl, ?_, ink_lineFeed text, m'.newline 1, rfl, ?_,
    skipToToken_lineFeed _ _ _ _⟩
  · intro k hk
    cases allowed
    · cases hk
    · exact (Option.mem_some_iff.mp hk).symm
  · exact Nat.lt_succ_of_le hline

theorem hasPair_cons {p q : Char → Bool} {a : Char} (ha : p a = false) (s : List Char) :
    hasPair p q (a :: s) = hasPair p q s := by
  cases s with
  | nil => rfl
  | cons c s => rw [hasPair, ha, Bool.false_and, Bool.false_or]

/-- What a text that can stand between single quotes is made of. -/
theorem singleAllowed_iff {s : List Char} : singleAllowed s = true ↔
    ((∀ c ∈ s, isPlainlyWritten c) ∧ hasPair isSpace isBreak s = false) ∧
      hasPair isBreak isSpace s = false := by
  simp only [singleAllowed, needsEscapes, Bool.and_eq_true, Bool.not_eq_true', Bool.or_eq_false_iff,
    Bool.not_eq_false', List.all_eq_true]

/-- **A text between single quotes** is a scalar. -/
theorem isScalar_single {b : Blocks} {column n : Nat} {s text : List Char} (hn : 0 < n)
    (hsingle : singleAllowed s) (hfeed : '\n' ∉ s) :
    IsScalar b column (singleQuoted n s ++ ['\n']) s .singleQuoted text := by
  obtain ⟨⟨hwritten, hbefore⟩, hbehind⟩ := singleAllowed_iff.mp hsingle
  refine isScalar_quoted true fun since m hpos => ?_
  exact readQuoted_single hn hwritten hfeed ((hasPair_cons (by decide) s).trans hbefore)
    ((hasPair_cons (by decide) s).trans hbehind) (.word (c := '\'') rfl rfl) since (.inr hpos)

/-- **A text between double quotes** is a scalar. -/
theorem isScalar_double {b : Blocks} {column : Nat} (s text : List Char) :
    IsScalar b column (doubleQuoted s ++ ['\n']) s .doubleQuoted text := by
  have hquoted : doubleQuoted s ++ ['\n'] = '"' :: (s.flatMap doubleQuotedChar ++ ['"']) ++ ['\n'] :=
    rfl
  rw [hquoted]
  refine isScalar_quoted false fun since m hpos => ?_
  obtain ⟨m', hline, hread⟩ := @readQuoted_double s text .none rfl since m hpos
  refine ⟨m', Nat.le_of_eq hline.symm, ?_⟩
  rw [List.append_assoc]
  exact hread

end DropRules.Yaml
