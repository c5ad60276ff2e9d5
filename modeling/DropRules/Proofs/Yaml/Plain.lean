import DropRules.Proofs.Yaml.Lines
import DropRules.Yaml.Written

/-!
# Scalars of any text

A word is a scalar that cannot be taken for anything else.  For other texts it depends on the text
how it is written, and each way of writing has its own way of being read.  What they have in common
is what becomes of the token: it is given out, whether a key may have begun with it or not, and the
scanner goes on in a later line (`Cuts.scalar`).

The line behind a scalar is not always passed over by the scanner, for some scalars look into it to
see whether it belongs to them.  It does not if it is `Adjacent`, that is, if it is there and not
indented.

The first way of writing is to write nothing but the text.
-/

namespace DropRules.Yaml

open Scan

/-! ## Beginnings of tokens -/

/-- A token begins with the text, wherever it stands. -/
def beginsToken : List Char → Bool
  | [] => false
  | c :: _ => !isBlank c && !isBreak c && c != '#' && c != byteOrderMark

theorem beginsToken_cons {c : Char} {rest : List Char} : beginsToken (c :: rest) = true ↔
    isBlank c = false ∧ isBreak c = false ∧ c ≠ '#' ∧ c ≠ byteOrderMark := by
  simp only [beginsToken, Bool.and_eq_true, Bool.not_eq_true', bne_iff_ne, and_assoc]

theorem exists_cons_of_beginsToken {text : List Char} (h : beginsToken text) :
    ∃ c rest, text = c :: rest ∧ isBlank c = false ∧ isBreak c = false := by
  rcases text with _ | ⟨c, rest⟩
  · cases h
  · obtain ⟨hblank, hbreak, -⟩ := beginsToken_cons.mp h
    exact ⟨c, rest, rfl, hblank, hbreak⟩

theorem beginsToken_append {source : List Char} (h : beginsToken source) (text : List Char) :
    beginsToken (source ++ text) := by
  obtain ⟨c, rest, rfl, -⟩ := exists_cons_of_beginsToken h
  exact h

theorem beginsToken_word {w : List Char} (hw : isPlainWord w) : beginsToken w := by
  rcases w with _ | ⟨c, w⟩
  · cases hw
  · have hc := isWord_of_isPlainWord hw c List.mem_cons_self
    exact beginsToken_cons.mpr
      ⟨isBlank_of_isWord hc, isBreak_of_isWord hc, ne_of_isWord hc rfl, ne_of_isWord hc rfl⟩

/-- A token has ink. -/
theorem ink_pos_of_beginsToken {text : List Char} (h : beginsToken text) : 0 < ink text := by
  obtain ⟨c, rest, rfl, hblank, hbreak⟩ := exists_cons_of_beginsToken h
  have hspace : c ≠ ' ' := by
    rintro rfl
    cases hblank
  have hfeed : c ≠ '\n' := by
    rintro rfl
    cases hbreak
  rw [ink_cons hspace hfeed]
  exact Nat.succ_pos _

/-- The scanner stays where a token begins. -/
theorem skipToToken_of_beginsToken {text : List Char} (h : beginsToken text) (allowed : Bool)
    (m : Mark) : skipToToken false false allowed text m = (⟨text, m⟩, allowed) := by
  rcases text with _ | ⟨c, rest⟩
  · cases h
  · obtain ⟨hblank, hbreak, hremark, hmark⟩ := beginsToken_cons.mp h
    have hreturn := beq_return_eq_false hbreak
    rw [isBlank, Bool.or_eq_false_iff] at hblank
    rw [skipToToken]
    simp [hbreak, hreturn, hblank, hremark, hmark]

/-! ## Behind a scalar -/

/-- A token begins in the next line, in column `indent` or to the left of it, or there is no next
line. -/
inductive Adjacent (indent : Nat) : List Char → Prop
  | nil : Adjacent indent []
  | line {n : Nat} {rest : List Char} (hn : n ≤ indent) (hrest : beginsToken rest) :
      Adjacent indent (List.replicate n ' ' ++ rest)

theorem Adjacent.mono {m n : Nat} {text : List Char} (h : Adjacent m text) (hle : m ≤ n) :
    Adjacent n text := by
  cases h with
  | nil => exact .nil
  | line hn hrest => exact .line (Nat.le_trans hn hle) hrest

/-- What is not indented is no further line of a scalar. -/
theorem Adjacent.shallow {indent : Nat} {text : List Char} (h : Adjacent indent text) :
    Shallow indent 0 text := by
  cases h with
  | nil => trivial
  | line hn hrest =>
    obtain ⟨c, rest, rfl, hblank, hbreak⟩ := exists_cons_of_beginsToken hrest
    exact shallow_spaces _ (shallow_of_char hblank hbreak (.inr (by omega)) _)

/-- A scalar was read by the time the scanner stands at `c`: there the same comes next as in a line
below the scalar, at `text`. -/
structure Behind (m : Mark) (allowed : Bool) (c : Cursor) (text : List Char) : Prop where
  ink_eq : ink c.rest = ink text
  skip : ∃ m' : Mark, m'.column = 0 ∧ m.line < m'.line ∧
    skipToToken false false allowed c.rest c.mark = skipToToken false false true text m'

/-- From any place right of the open collections, a scalar is read whose text is `w`, and which
leaves what is below it. -/
def IsScalar (b : Blocks) (column : Nat) (source w : List Char) (style : ScalarStyle)
    (text : List Char) : Prop :=
  ∀ (m : Mark) (held : List Token) (given : Nat) (allowed : Bool), m.column = column →
    ∃ (c : Cursor) (allowed' : Bool) (key : Option KeyPlace),
      fetchHere (idle ⟨source ++ text, m⟩ held given allowed b) =
          .ok { idle c (held ++ [⟨.scalar w style, m, c.mark⟩]) given allowed' b with key } ∧
        (∀ k ∈ key, k = ⟨b.indent == m.column, given + held.length, m⟩) ∧
        Behind m allowed' c text

/-- **A scalar is one token**, whether a key may have begun with it or not. -/
theorem Cuts.scalar {b : Blocks} {column : Nat} {source w text : List Char} {style : ScalarStyle}
    {allowed : Bool} {kinds : List TokenKind} (hscalar : IsScalar b column source w style text)
    (hbegins : beginsToken source) (hb : b.indent < column)
    (h : Cuts text 0 true b kinds) :
    Cuts (source ++ text) column allowed b (.scalar w style :: kinds) := by
  intro m held given hcolumn hheld
  obtain ⟨c, allowed', key, hfetch, hkey, hinkNext, m', hcolumn', hline, hskip⟩ :=
    hscalar m held given allowed hcolumn
  subst hcolumn
  have hlt : ink c.rest < ink (source ++ text) := by
    have hpos := ink_pos_of_beginsToken hbegins
    rw [hinkNext, ink_append]
    omega
  have hrest (held : List Token) (n : Nat) (hheld : .streamEnd ∉ held.map (·.kind)) :
      (idle c held n allowed' b).Yields (held.map (·.kind) ++ kinds) :=
    (h m' held n hcolumn' hheld).congr (fetch_idle_congr hskip _ _ _) (Nat.le_of_eq hinkNext.symm)
  rw [← fetch_settled (skipToToken_of_beginsToken (beginsToken_append hbegins text) allowed m)
    (.inr (Int.le_of_lt hb))] at hfetch
  have hend : TokenKind.streamEnd ∉
      (held ++ [(⟨.scalar w style, m, c.mark⟩ : Token)]).map (·.kind) := by
    simpa using hheld
  have hidle (hstale : (idle ⟨source ++ text, m⟩ held given allowed b).fetch >>= dropStale =
      .ok (idle c (held ++ [⟨.scalar w style, m, c.mark⟩]) given allowed' b)) :
      (idle ⟨source ++ text, m⟩ held given allowed b).Yields
        (held.map (·.kind) ++ .scalar w style :: kinds) := by
    have hfirst := Yields.of_fetch_all hstale rfl hend hlt (hrest [] _ nofun)
    simpa using hfirst
  cases key with
  | none => exact hidle (by rw [hfetch]; rfl)
  | some k =>
    have hk := hkey k rfl
    have hrequired : k.required = false := by
      rw [hk, beq_eq_false_iff_ne]
      exact Int.ne_of_lt hb
    by_cases hstale : Stale c.mark k
    · refine hidle ?_
      rw [hfetch]
      exact dropStale_expired hstale hrequired _ _ _ _
    · have hheldBack : (idle ⟨source ++ text, m⟩ held given allowed b).fetch >>= dropStale =
          .ok (keyed k c (held ++ [⟨.scalar w style, m, c.mark⟩]) given allowed' b) := by
        rw [hfetch]
        exact dropStale_keyed c hstale _ _ _ _
      have hnumber : k.number = given + held.length := by rw [hk]
      have hmark : k.mark = m := by rw [hk]
      -- the token is held back until the scanner comes to the next line
      have hlater : (keyed k c [⟨.scalar w style, m, c.mark⟩] k.number allowed' b).Yields
          (.scalar w style :: kinds) :=
        (h m' [⟨.scalar w style, m, c.mark⟩] k.number hcolumn' (by simp)).congr
          (fetch_expired hrequired hskip (by rwa [hmark]) _ _ _) (Nat.le_of_eq hinkNext.symm)
      exact Yields.of_fetch_keyed hheldBack hnumber hend hlt hlater

/-! ## Characters that are written as they are -/

theorem isBlank_of_isPlainlyWritten {c : Char} (hc : isPlainlyWritten c) (hspace : c ≠ ' ') :
    isBlank c = false := by
  have htab : c ≠ '\t' := by
    rintro rfl
    cases hc
  simp [isBlank, hspace, htab]

theorem ne_return_of_isPlainlyWritten {c : Char} (hc : isPlainlyWritten c) : (c == '\r') = false := by
  rw [beq_eq_false_iff_ne]
  rintro rfl
  cases hc

theorem isAllowed_of_isPlainlyWritten {c : Char} (hc : isPlainlyWritten c) : isAllowed c := by
  simp only [isPlainlyWritten, isAllowed, Bool.or_eq_true, Bool.and_eq_true, beq_iff_eq,
    decide_eq_true_eq] at hc ⊢
  omega

/-- A break that may be written as it is, is read as itself: it is a line feed or one of the
separators of Unicode. -/
theorem breakText_of_isPlainlyWritten {c : Char} (hc : isPlainlyWritten c) (hbreak : isBreak c) :
    breakText c = c := by
  simp only [isBreak, Bool.or_eq_true, beq_iff_eq] at hbreak
  rcases hbreak with (((rfl | rfl) | rfl) | rfl) | rfl
  · cases hc
  · rfl
  · cases hc
  · rfl
  · rfl

/-! ## Plain scalars -/

/-- What stands behind a text does not matter for its colons, if a line ends there. -/
theorem blankNext_append_lineFeed (s text : List Char) :
    blankNext (s ++ '\n' :: text) = blankNext s := by
  cases s <;> rfl

/-- **A text without signs in it is read to the end of its line**, with the blanks in it. -/
theorem readPlain_text {s text : List Char} (hwritten : ∀ c ∈ s, isPlainlyWritten c)
    (hline : ∀ c ∈ s, isBreak c = false) {a : Char} (hinner : hasInnerSign (a :: s) = false)
    (hlast : (a :: s).getLast? ≠ some ' ') {gap : Gap}
    (hgap : gap = .none ∨ a = ' ' ∧ ∃ w, gap = .blanks w) {indent : Int} {since m : Mark}
    (hcolumn : indent ≤ m.column) (hpos : 0 < m.column) {c : Cursor}
    (hend : readPlain false indent since .none ('\n' :: text) (m.past s) = .ok ⟨[], c, true⟩) :
    readPlain false indent since gap (s ++ '\n' :: text) m = .ok ⟨gap.text ++ s, c, true⟩ := by
  induction s generalizing a gap m with
  | nil =>
    rcases hgap with rfl | ⟨rfl, -⟩
    · exact hend
    · exact absurd rfl hlast
  | cons x s ih =>
    have hx := hwritten x List.mem_cons_self
    have hbroken : gap.isBroken = false := by
      rcases hgap with rfl | ⟨-, w, rfl⟩ <;> rfl
    obtain ⟨⟨hcolon, hremark⟩, hinnerRest⟩ : ((x == ':' && blankNext s) = false ∧
        (x == '#' && (isBlank a || isBreak a)) = false) ∧ hasInnerSign (x :: s) = false := by
      simpa only [hasInnerSign, Bool.or_eq_false_iff] using hinner
    have hlastRest : (x :: s).getLast? ≠ some ' ' := by rwa [List.getLast?_cons_cons] at hlast
    have hlater {gap : Gap} (hgap : gap = .none ∨ x = ' ' ∧ ∃ w, gap = .blanks w) :
        readPlain false indent since gap (s ++ '\n' :: text) (m.next x) =
          .ok ⟨gap.text ++ s, c, true⟩ := by
      have hnext : (m.column : Int) ≤ (m.next x).column :=
        Int.ofNat_le.mpr (Nat.le_succ m.column)
      exact ih (fun c hc => hwritten c (List.mem_cons_of_mem _ hc))
        (fun c hc => hline c (List.mem_cons_of_mem _ hc)) hinnerRest hlastRest hgap
        (Int.le_trans hcolumn hnext) (Nat.succ_pos _) hend
    rw [List.cons_append, readPlain]
    by_cases hspace : x = ' '
    · subst hspace
      have hblanks : gap.blank ' ' = .blanks (gap.text ++ [' ']) := by
        rcases hgap with rfl | ⟨-, w, rfl⟩ <;> rfl
      simp [isBlank, hbroken, hblanks, hlater (.inr ⟨rfl, _, rfl⟩), Gap.text]
    · have hblank := isBlank_of_isPlainlyWritten hx hspace
      have hreturn := ne_return_of_isPlainlyWritten hx
      have hbreak := hline x List.mem_cons_self
      have hstop : (gap.isOpen && ((!false && decide ((m.column : Int) < indent)) || x == '#'
          || (m.column == 0 && documentMarkerNext (x :: (s ++ '\n' :: text))))) = false := by
        rcases hgap with rfl | ⟨rfl, w, rfl⟩
        · rfl
        · have hremark : (x == '#') = false := by simpa [isBlank] using hremark
          have hfar : ¬ (m.column : Int) < indent := Int.not_lt.mpr hcolumn
          simp [hremark, hfar, Nat.pos_iff_ne_zero.mp hpos]
      rw [← blankNext_append_lineFeed s text] at hcolon
      have hnone := @hlater .none (.inl rfl)
      simp only [hblank, hreturn, hbreak, hstop, hcolon, hnone, Bool.false_and, Bool.false_eq_true,
        if_false]
      rfl

namespace Scan

/-- Right of the first column, a text that is not taken for a sign is read as a plain scalar. -/
theorem fetchHere_plain {s : Scan} {c : Char} {rest : List Char} (hs : s.cursor.rest = c :: rest)
    (hcolumn : s.mark.column ≠ 0) (hflow : s.inFlow = false) (hblank : isBlank c = false)
    (hbreak : isBreak c = false) (hopens : c ∉ opensNothingPlain)
    (hsign : ((c == '?' || c == ':' || c == '-') && blankNext rest) = false) :
    s.fetchHere = s.fetchPlain := by
  have hhead : blankNext rest = false → rest.head?.any isBlank = false := by
    intro h
    cases rest with
    | nil => rfl
    | cons d rest =>
      rw [blankNext, Bool.or_eq_false_iff] at h
      exact h.1
  simp only [opensNothingPlain, List.mem_cons, List.not_mem_nil, or_false, not_or] at hopens
  rw [fetchHere, hs]
  by_cases hspecial : (c == '?' || c == ':' || c == '-') = true
  · rw [hspecial, Bool.true_and] at hsign
    have hplain : plainNext false c rest = true := by
      simp only [Bool.or_eq_true, beq_iff_eq] at hspecial
      rw [plainNext]
      rcases hspecial with (rfl | rfl) | rfl <;> simp [hsign, hhead hsign]
    simp [hcolumn, hopens, hflow, hsign, hplain]
  · simp only [Bool.or_eq_true, beq_iff_eq, not_or] at hspecial
    have hplain : plainNext false c rest = true := by
      simp [plainNext, isSign, hblank, hbreak, hspecial, hopens]
    simp [hcolumn, hopens, hflow, hspecial, hplain]

end Scan

/-- What a text that can stand without quotes is made of. -/
theorem plainAllowed_iff {s : List Char} : plainAllowed s = true ↔
    ((∀ c ∈ s, isPlainlyWritten c) ∧ hasPair isSpace isBreak s = false) ∧
      (∀ c ∈ s, isBreak c = false) ∧ s.head?.any isSpace = false ∧ s.getLast?.any isSpace = false ∧
      hasOuterSign s = false ∧ hasInnerSign s = false := by
  simp only [plainAllowed, needsEscapes, Bool.and_eq_true, Bool.not_eq_true', Bool.or_eq_false_iff,
    Bool.not_eq_false', List.all_eq_true, List.any_eq_false, Bool.not_eq_true, and_assoc]

/-- The first character of a text that can stand without quotes, and what follows it. -/
theorem hasOuterSign_cons {x : Char} {s : List Char} (h : hasOuterSign (x :: s) = false) :
    x ∉ opensNothingPlain ∧ ((x == '?' || x == ':' || x == '-') && blankNext s) = false := by
  rw [hasOuterSign, Bool.or_eq_false_iff, Bool.or_eq_false_iff, decide_eq_false_iff_not] at h
  exact ⟨h.1.2, h.2⟩

/-- **A text without quotes**, at the end of its line, is a scalar. -/
theorem isScalar_plain {b : Blocks} {column : Nat} {s text : List Char} (hplain : plainAllowed s)
    (hne : s ≠ []) (hb : b.indent < column) (hpos : 0 < column)
    (hnext : Shallow b.indent 0 text) : IsScalar b column (s ++ ['\n']) s .plain text := by
  obtain ⟨⟨hwritten, -⟩, hline, hhead, hlast, houter, hinner⟩ := plainAllowed_iff.mp hplain
  rintro m held given allowed rfl
  obtain ⟨x, s, rfl⟩ := List.exists_cons_of_ne_nil hne
  obtain ⟨hopens, hsign⟩ := hasOuterSign_cons houter
  have hspace : x ≠ ' ' := by simpa [isSpace] using hhead
  have hblank := isBlank_of_isPlainlyWritten (hwritten x List.mem_cons_self) hspace
  have hbreak := hline x List.mem_cons_self
  -- what stands in front of the text does not matter, as long as it is no blank
  have hinner' : hasInnerSign ('a' :: x :: s) = false := by
    have hcolon : (x == ':' && blankNext s) = false := by
      by_cases hx : x = ':'
      · simpa [hx] using hsign
      · simp [hx]
    have ha : (isBlank 'a' || isBreak 'a') = false := by decide
    rw [hasInnerSign, hcolon, ha, hinner, Bool.and_false]
    rfl
  have hlast' : ('a' :: x :: s).getLast? ≠ some ' ' := by
    rw [List.getLast?_cons_cons]
    intro h
    rw [h] at hlast
    cases hlast
  obtain ⟨c, hread, hink, hlater, hskip⟩ :=
    readPlain_shallow (m := (m.past (x :: s)).newline 1) m hnext (some '\n') []
  have htext := readPlain_text hwritten hline hinner' hlast' (.inl rfl)
    (show b.indent + 1 ≤ m.column by omega) hpos ((readPlain_lineFeed _ _ _ _).trans hread)
  have hfetch : fetchHere (idle ⟨(x :: s) ++ ['\n'] ++ text, m⟩ held given allowed b) =
      fetchPlain (idle ⟨(x :: s) ++ '\n' :: text, m⟩ held given allowed b) := by
    rw [List.append_assoc]
    rw [← blankNext_append_lineFeed s text] at hsign
    exact fetchHere_plain rfl (Nat.pos_iff_ne_zero.mp hpos) rfl hblank hbreak hopens hsign
  rw [hfetch, fetchPlain_idle htext]
  refine ⟨c, true, _, rfl, ?_, hink, (m.past (x :: s)).newline 1, rfl, ?_, hskip⟩
  · intro k hk
    cases allowed
    · cases hk
    · exact (Option.mem_some_iff.mp hk).symm
  · show m.line < (m.past (x :: s)).line + 1
    rw [Mark.line_past]
    exact Nat.lt_succ_self _

theorem beginsToken_plain {s : List Char} (hplain : plainAllowed s) (hne : s ≠ []) :
    beginsToken s := by
  obtain ⟨⟨hwritten, -⟩, hline, hhead, -, houter, -⟩ := plainAllowed_iff.mp hplain
  obtain ⟨x, s, rfl⟩ := List.exists_cons_of_ne_nil hne
  have hx := hwritten x List.mem_cons_self
  have hspace : x ≠ ' ' := by simpa [isSpace] using hhead
  have hopens := (hasOuterSign_cons houter).1
  refine beginsToken_cons.mpr
    ⟨isBlank_of_isPlainlyWritten hx hspace, hline x List.mem_cons_self, ?_, ?_⟩
  · rintro rfl
    exact hopens (by decide)
  · rintro rfl
    cases hx

end DropRules.Yaml
