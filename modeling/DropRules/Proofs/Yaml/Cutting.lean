import DropRules.Yaml.Token.Stream
import Mathlib.Data.List.Basic

/-!
# Cutting a text into tokens, piece by piece

`TokenStream.ofScan` runs over a text, holds tokens back and gives them out, and keeps account of
columns, of places in the text and of the places where a key may have begun.  To say what tokens a
text is cut into, most of that is of no interest.  `Cuts` says it for the rest of a text: where the
scanner stands at this text, in this column, with these block collections open and no key pending,
it goes on to find tokens of these kinds, and no fault.

## 1.  What moves the scanner

Spaces, line feeds and comments are passed over (`Cuts.space`, `Cuts.lineFeed`, `Cuts.remark`),
since the scanner does nothing else with them than move to the next token.  Each of the other pieces
of a text has a rule of its own, which says what is found in front of a rest whose tokens are known:
`Cuts.dash`, `Cuts.brackets`, and `Cuts.done` for the end of the text.

## 2.  Why the scanner comes to an end

It looks for tokens a limited number of times, and so it has to be known that every time it gets
further.  The characters that are never passed over between two tokens are the `ink` of a text, and
every step but the last takes some of it.
-/

namespace DropRules.Yaml

/-! ## Open block collections -/

/-- The block collections that are open: the column of the innermost, or -1, and those around it. -/
structure Blocks where
  indent : Int
  outer : List Int

namespace Blocks

/-- The block collections that are left open at a column. -/
def close (b : Blocks) (column : Int) : Blocks :=
  ⟨(Scan.closeTo column .start b.indent b.outer).2.1,
    (Scan.closeTo column .start b.indent b.outer).2.2⟩

/-- The signs of the ends that a column brings. -/
def ends (b : Blocks) (column : Int) : List TokenKind :=
  (Scan.closeTo column .start b.indent b.outer).1.map (·.kind)

/-- The block collections that are open once one stands at a column. -/
def enter (b : Blocks) (column : Nat) : Blocks :=
  if b.indent < column then ⟨column, b.indent :: b.outer⟩ else b

/-- The sign of a beginning, if one is needed for a collection to stand at a column. -/
def starts (b : Blocks) (column : Nat) (kind : TokenKind) : List TokenKind :=
  if b.indent < column then [kind] else []

/-- A column closes nothing. -/
def Settled (b : Blocks) (column : Int) : Prop :=
  b.outer = [] ∨ b.indent ≤ column

/-- Where the ends stand has no influence on what they are, nor on what is left open. -/
theorem closeTo_eq_start (column : Int) (m : Mark) (indent : Int) (outer : List Int) :
    (Scan.closeTo column m indent outer).1.map (·.kind) =
        (Scan.closeTo column .start indent outer).1.map (·.kind) ∧
      (Scan.closeTo column m indent outer).2 = (Scan.closeTo column .start indent outer).2 := by
  induction outer generalizing indent with
  | nil => exact ⟨rfl, rfl⟩
  | cons i outer ih =>
    obtain ⟨hkinds, hrest⟩ := ih i
    by_cases hlt : column < indent
    · rw [Scan.closeTo, Scan.closeTo, if_pos hlt, if_pos hlt]
      exact ⟨by rw [List.map_cons, List.map_cons, hkinds], hrest⟩
    · rw [Scan.closeTo, Scan.closeTo, if_neg hlt, if_neg hlt]
      exact ⟨rfl, rfl⟩

theorem map_kind_closeTo (column : Int) (m : Mark) (b : Blocks) :
    (Scan.closeTo column m b.indent b.outer).1.map (·.kind) = b.ends column :=
  (closeTo_eq_start column m b.indent b.outer).1

theorem snd_closeTo (column : Int) (m : Mark) (b : Blocks) :
    (Scan.closeTo column m b.indent b.outer).2 =
      ((b.close column).indent, (b.close column).outer) :=
  (closeTo_eq_start column m b.indent b.outer).2

/-- What a column brings to an end are block collections. -/
theorem eq_blockEnd_of_mem_ends {b : Blocks} {column : Int} {k : TokenKind}
    (h : k ∈ b.ends column) : k = .blockEnd := by
  obtain ⟨indent, outer⟩ := b
  rw [ends] at h
  induction outer generalizing indent with
  | nil => cases h
  | cons i outer ih =>
    rw [Scan.closeTo] at h
    by_cases hlt : column < indent
    · rw [if_pos hlt] at h
      rcases List.mem_cons.mp h with rfl | h
      · rfl
      · exact ih i h
    · rw [if_neg hlt] at h
      cases h

theorem streamEnd_notMem_ends (b : Blocks) (column : Int) : .streamEnd ∉ b.ends column :=
  fun h => nomatch eq_blockEnd_of_mem_ends h

theorem streamEnd_notMem_starts {kind : TokenKind} (hkind : kind ≠ .streamEnd) (b : Blocks)
    (column : Nat) : .streamEnd ∉ b.starts column kind := by
  rw [starts]
  by_cases h : b.indent < column
  · rw [if_pos h, List.mem_singleton]
    exact hkind.symm
  · rw [if_neg h]
    exact List.not_mem_nil

theorem Settled.closeTo_eq {b : Blocks} {column : Int} (h : b.Settled column) (m : Mark) :
    Scan.closeTo column m b.indent b.outer = ([], b.indent, b.outer) := by
  obtain ⟨indent, outer⟩ := b
  cases outer with
  | nil => rfl
  | cons i outer =>
    have hle : ¬ column < indent := by
      rcases h with h | h
      · cases h
      · exact Int.not_lt.mpr h
    rw [Scan.closeTo, if_neg hle]

theorem Settled.close_eq {b : Blocks} {column : Int} (h : b.Settled column) :
    b.close column = b := by
  rw [close, h.closeTo_eq]

theorem Settled.mono {b : Blocks} {c d : Int} (h : b.Settled c) (hle : c ≤ d) : b.Settled d :=
  h.imp_right fun hc => Int.le_trans hc hle

/-- What a column closes, it closes at once. -/
theorem settled_close (b : Blocks) (column : Int) : (b.close column).Settled column := by
  obtain ⟨indent, outer⟩ := b
  induction outer generalizing indent with
  | nil => exact .inl rfl
  | cons i outer ih =>
    by_cases hlt : column < indent
    · have hi := ih i
      rw [close] at hi ⊢
      simpa only [Scan.closeTo, if_pos hlt] using hi
    · rw [close]
      simp only [Scan.closeTo, if_neg hlt]
      exact .inr (Int.not_lt.mp hlt)

end Blocks

/-! ## Running on -/

/-- The characters of a text that no scanner passes over between two tokens: all but spaces and line
feeds. -/
def ink (text : List Char) : Nat :=
  text.countP fun c => c != ' ' && c != '\n'

theorem ink_append (s t : List Char) : ink (s ++ t) = ink s + ink t :=
  List.countP_append

theorem ink_space (text : List Char) : ink (' ' :: text) = ink text :=
  List.countP_cons_of_neg (by decide)

theorem ink_lineFeed (text : List Char) : ink ('\n' :: text) = ink text :=
  List.countP_cons_of_neg (by decide)

theorem ink_cons {c : Char} (hspace : c ≠ ' ') (hfeed : c ≠ '\n') (text : List Char) :
    ink (c :: text) = ink text + 1 :=
  List.countP_cons_of_pos (by simp [hspace, hfeed])

theorem beq_return_eq_false {c : Char} (h : isBreak c = false) : (c == '\r') = false := by
  simp only [isBreak, Bool.or_eq_false_iff] at h
  exact h.1.1.1.1

namespace Scan

/-- The scanner goes on to give out tokens of these kinds, first of all those held back, and comes
to the end without a fault.  Each token takes some ink. -/
def Yields (s : Scan) (kinds : List TokenKind) : Prop :=
  ∀ fuel, ink s.cursor.rest < fuel →
    (TokenStream.ofScan fuel s).tokens.map (·.kind) = kinds ∧
      (TokenStream.ofScan fuel s).fault = none

/-- One token further. -/
theorem Yields.of_fetch {s s' : Scan} {kinds : List TokenKind}
    (hfetch : s.fetch >>= dropStale = .ok s') (hend : .streamEnd ∉ s'.held.map (·.kind))
    (hink : ink s'.cursor.rest < ink s.cursor.rest) (h : (s'.give s'.settled).Yields kinds) :
    s.Yields ((s'.held.take s'.settled).map (·.kind) ++ kinds) := by
  intro fuel hfuel
  obtain ⟨fuel, rfl⟩ : ∃ n, fuel = n + 1 := Nat.exists_eq_add_one.mpr (by omega)
  have hlater := h fuel (show ink s'.cursor.rest < fuel by omega)
  have hout : ((s'.held.take s'.settled).any fun t => t.kind == .streamEnd) = false := by
    rw [List.any_eq_false]
    intro t ht hkind
    refine hend (List.mem_map.mpr ⟨t, List.mem_of_mem_take ht, ?_⟩)
    simpa using hkind
  have hrun : TokenStream.ofScan (fuel + 1) s =
      ⟨s'.held.take s'.settled ++ (TokenStream.ofScan fuel (s'.give s'.settled)).tokens,
        (TokenStream.ofScan fuel (s'.give s'.settled)).fault⟩ := by
    rw [TokenStream.ofScan, hfetch]
    exact if_neg (by rw [hout]; decide)
  rw [hrun]
  exact ⟨by rw [List.map_append, hlater.1], hlater.2⟩

/-- One token further, where all the tokens held back are given out. -/
theorem Yields.of_fetch_all {s s' : Scan} {kinds : List TokenKind}
    (hfetch : s.fetch >>= dropStale = .ok s') (hsettled : s'.settled = s'.held.length)
    (hend : .streamEnd ∉ s'.held.map (·.kind)) (hink : ink s'.cursor.rest < ink s.cursor.rest)
    (h : Yields { s' with held := [], given := s'.given + s'.held.length } kinds) :
    s.Yields (s'.held.map (·.kind) ++ kinds) := by
  have hgive : s'.give s'.settled = { s' with held := [], given := s'.given + s'.held.length } := by
    rw [give, hsettled, List.drop_length]
  have hlater := Yields.of_fetch hfetch hend hink (by rwa [hgive])
  rwa [hsettled, List.take_length] at hlater

/-- Nothing follows the end. -/
theorem yields_of_end {s s' : Scan} (hfetch : s.fetch >>= dropStale = .ok s')
    (hsettled : s'.settled = s'.held.length) (hend : .streamEnd ∈ s'.held.map (·.kind)) :
    s.Yields (s'.held.map (·.kind)) := by
  intro fuel hfuel
  obtain ⟨fuel, rfl⟩ : ∃ n, fuel = n + 1 := Nat.exists_eq_add_one.mpr (by omega)
  have hout : (s'.held.any fun t => t.kind == .streamEnd) = true := by
    obtain ⟨t, ht, hkind⟩ := List.mem_map.mp hend
    exact List.any_eq_true.mpr ⟨t, ht, by simp [hkind]⟩
  have hrun : TokenStream.ofScan (fuel + 1) s = ⟨s'.held, none⟩ := by
    rw [TokenStream.ofScan, hfetch]
    show (if (s'.held.take s'.settled).any fun t => t.kind == .streamEnd then _ else _) = _
    rw [hsettled, List.take_length, if_pos hout]
  rw [hrun]
  exact ⟨rfl, rfl⟩

/-- The way to the next token does not matter. -/
theorem Yields.congr {s s' : Scan} {kinds : List TokenKind} (h : s'.Yields kinds)
    (hfetch : s.fetch = s'.fetch) (hink : ink s'.cursor.rest ≤ ink s.cursor.rest) :
    s.Yields kinds := by
  intro fuel hfuel
  obtain ⟨fuel, rfl⟩ : ∃ n, fuel = n + 1 := Nat.exists_eq_add_one.mpr (by omega)
  have hs : TokenStream.ofScan (fuel + 1) s = TokenStream.ofScan (fuel + 1) s' := by
    rw [TokenStream.ofScan, TokenStream.ofScan, hfetch]
  rw [hs]
  exact h (fuel + 1) (by omega)

/-! ## Standing at a text -/

/-- The scanner with no key pending and no brackets open. -/
abbrev idle (c : Cursor) (held : List Token) (given : Nat) (allowed : Bool) (b : Blocks) : Scan :=
  ⟨c, held, given, allowed, none, [], b.indent, b.outer⟩

/-- A column closes what it leaves behind. -/
theorem dedent_idle (c : Cursor) (held : List Token) (given : Nat) (allowed : Bool) (b : Blocks)
    (column : Int) :
    (idle c held given allowed b).dedent column =
      idle c (held ++ (closeTo column c.mark b.indent b.outer).1) given allowed
        (b.close column) := by
  have hsnd := b.snd_closeTo column c.mark
  rw [Prod.ext_iff] at hsnd
  simp only [dedent, inFlow, List.isEmpty_nil, Bool.not_true, Bool.false_eq_true, if_false, mark]
  rw [hsnd.1, hsnd.2]

/-- The scanner moves to the next token, forgets what is out of date, ends the collections that the
column of the token closes, and looks at the token. -/
theorem fetch_of_skipToToken {s : Scan} {c : Cursor} {allowed : Bool}
    (h : skipToToken s.inFlow false s.keyAllowed s.cursor.rest s.mark = (c, allowed)) :
    s.fetch = (do
      let s ← { s with cursor := c, keyAllowed := allowed }.dropStale
      (s.dedent s.mark.column).fetchHere) := by
  rw [fetch, h]

/-- Where nothing can be out of date, only collections end. -/
theorem fetch_idle {text text' : List Char} {m m' : Mark} {allowed allowed' : Bool}
    (h : skipToToken false false allowed text m = (⟨text', m'⟩, allowed')) (held : List Token)
    (given : Nat) (b : Blocks) :
    (idle ⟨text, m⟩ held given allowed b).fetch =
      fetchHere (idle ⟨text', m'⟩ (held ++ (closeTo m'.column m' b.indent b.outer).1) given allowed'
        (b.close m'.column)) := by
  have hfetch : (idle ⟨text, m⟩ held given allowed b).fetch =
      fetchHere ((idle ⟨text', m'⟩ held given allowed' b).dedent m'.column) := by
    rw [fetch_of_skipToToken (s := idle ⟨text, m⟩ held given allowed b) h]
    rfl
  rw [hfetch, dedent_idle]

/-- The same where the column closes nothing. -/
theorem fetch_settled {text text' : List Char} {m m' : Mark} {allowed allowed' : Bool} {b : Blocks}
    (h : skipToToken false false allowed text m = (⟨text', m'⟩, allowed'))
    (hb : b.Settled m'.column) (held : List Token) (given : Nat) :
    (idle ⟨text, m⟩ held given allowed b).fetch =
      fetchHere (idle ⟨text', m'⟩ held given allowed' b) := by
  rw [fetch_idle h, hb.closeTo_eq, hb.close_eq, List.append_nil]

/-- Only the next token counts, not the way to it. -/
theorem fetch_idle_congr {text text' : List Char} {m m' : Mark} {allowed allowed' : Bool}
    (h : skipToToken false false allowed text m = skipToToken false false allowed' text' m')
    (held : List Token) (given : Nat) (b : Blocks) :
    (idle ⟨text, m⟩ held given allowed b).fetch =
      (idle ⟨text', m'⟩ held given allowed' b).fetch := by
  cases hskip : skipToToken false false allowed' text' m' with
  | mk c a => rw [fetch_idle (h.trans hskip), fetch_idle hskip]

/-- Tokens without characters, at one place. -/
def signs (m : Mark) (kinds : List TokenKind) : List Token :=
  kinds.map fun k => ⟨k, m, m⟩

@[simp] theorem map_kind_signs (m : Mark) (kinds : List TokenKind) :
    (signs m kinds).map (·.kind) = kinds := by
  rw [signs, List.map_map]
  exact List.map_id _

/-- With no key pending, all the tokens held back are given out. -/
theorem Yields.of_fetch_idle {s : Scan} {c : Cursor} {held : List Token} {given : Nat}
    {allowed : Bool} {b : Blocks} {kinds : List TokenKind}
    (hfetch : s.fetch = .ok (idle c held given allowed b)) (hend : .streamEnd ∉ held.map (·.kind))
    (hink : ink c.rest < ink s.cursor.rest)
    (h : (idle c [] (given + held.length) allowed b).Yields kinds) :
    s.Yields (held.map (·.kind) ++ kinds) := by
  have hstale : s.fetch >>= dropStale = .ok (idle c held given allowed b) := by
    rw [hfetch]
    rfl
  exact Yields.of_fetch_all hstale rfl hend hink h

/-- A block collection is opened in front of what comes next. -/
theorem openAt_idle (c : Cursor) (m : Mark) (held : List Token) (given : Nat) (allowed : Bool)
    (b : Blocks) (column : Nat) (kind : TokenKind) :
    (idle c held given allowed b).openAt column (given + held.length) kind m =
      idle c (held ++ signs m (b.starts column kind)) given allowed (b.enter column) := by
  rw [openAt, Blocks.starts, Blocks.enter]
  by_cases h : b.indent < column
  · simp [h, inFlow, Scan.insert, signs]
  · simp [h, inFlow, signs]

/-! ## Signs -/

theorem tripleNext_of_ne {c x : Char} (h : c ≠ x) (text : List Char) :
    tripleNext x (c :: text) = false := by
  have hx : (c == x) = false := beq_eq_false_iff_ne.mpr h
  rcases text with _ | ⟨d, _ | ⟨e, text⟩⟩
  · rfl
  · rfl
  · rw [tripleNext, hx, Bool.false_and, Bool.false_and, Bool.false_and]

theorem tripleNext_of_head?_ne {c : Char} {text : List Char} (h : text.head? ≠ some c) :
    tripleNext c (c :: text) = false := by
  rcases text with _ | ⟨d, _ | ⟨e, text⟩⟩
  · rfl
  · rfl
  · have hd : (d == c) = false := beq_eq_false_iff_ne.mpr fun hd => h (by rw [hd]; rfl)
    rw [tripleNext, hd, Bool.and_false, Bool.false_and, Bool.false_and]

theorem fetchHere_dash {s : Scan} {text : List Char} (hs : s.cursor.rest = '-' :: text)
    (h : blankNext text) : s.fetchHere = s.fetchDash := by
  have htriple : tripleNext '-' ('-' :: text) = false := by
    refine tripleNext_of_head?_ne fun hdash => ?_
    obtain ⟨text, rfl⟩ := List.head?_eq_some_iff.mp hdash
    cases h
  have hdot : tripleNext '.' ('-' :: text) = false := tripleNext_of_ne (by decide) text
  rw [fetchHere, hs]
  simp [h, htriple, hdot]

theorem fetchDash_idle (text : List Char) (m : Mark) (held : List Token) (given : Nat)
    (b : Blocks) :
    (idle ⟨'-' :: text, m⟩ held given true b).fetchDash =
      .ok (idle ⟨text, m.next '-'⟩
        (held ++ signs m (b.starts m.column .blockSequenceStart) ++ [⟨.blockEntry, m, m.next '-'⟩])
        given true (b.enter m.column)) := by
  have hopen := openAt_idle ⟨'-' :: text, m⟩ m held given true b m.column .blockSequenceStart
  show (do
    let s ← dropKey ((idle ⟨'-' :: text, m⟩ held given true b).openAt m.column
      (given + held.length) .blockSequenceStart m)
    pure ({ s with keyAllowed := true }.take 1 .blockEntry) : Except Fault Scan) = _
  rw [hopen]
  rfl

theorem fetchHere_open {s : Scan} {text : List Char} (hs : s.cursor.rest = '[' :: text) :
    s.fetchHere = s.fetchOpen .flowSequenceStart := by
  have hdash : tripleNext '-' ('[' :: text) = false := tripleNext_of_ne (by decide) text
  have hdot : tripleNext '.' ('[' :: text) = false := tripleNext_of_ne (by decide) text
  rw [fetchHere, hs]
  simp [hdash, hdot]

theorem fetchHere_close {s : Scan} {text : List Char} (hs : s.cursor.rest = ']' :: text) :
    s.fetchHere = s.fetchClose .flowSequenceEnd := by
  have hdash : tripleNext '-' (']' :: text) = false := tripleNext_of_ne (by decide) text
  have hdot : tripleNext '.' (']' :: text) = false := tripleNext_of_ne (by decide) text
  rw [fetchHere, hs]
  simp [hdash, hdot]

/-! ## Between tokens -/

theorem skipToToken_lineFeed (comment : Bool) (allowed : Bool) (text : List Char) (m : Mark) :
    skipToToken false comment allowed ('\n' :: text) m =
      skipToToken false false true text (m.newline 1) := by
  cases allowed <;> rfl

/-- The rest of a line is passed over behind the sign of a comment. -/
theorem skipToToken_remark {words : List Char} (hwords : ∀ c ∈ words, isBreak c = false)
    (allowed : Bool) (text : List Char) (m : Mark) :
    ∃ m' : Mark, m'.column = 0 ∧ m.line < m'.line ∧
      skipToToken false true allowed (words ++ '\n' :: text) m =
        skipToToken false false true text m' := by
  induction words generalizing m with
  | nil => exact ⟨m.newline 1, rfl, Nat.lt_succ_self _, skipToToken_lineFeed _ _ _ _⟩
  | cons c words ih =>
    have hc := hwords c List.mem_cons_self
    have hreturn := beq_return_eq_false hc
    obtain ⟨m', hcolumn, hline, hskip⟩ :=
      ih (fun d hd => hwords d (List.mem_cons_of_mem _ hd)) (m.next c)
    refine ⟨m', hcolumn, hline, ?_⟩
    rw [List.cons_append, skipToToken, hreturn, hc, Bool.false_and, if_neg (by decide),
      if_neg (by decide), if_pos (by rfl), hskip]

end Scan

/-- **What the rest of a text is cut into.**  Where the scanner stands at this text, in this column,
with these block collections open and no key pending, it goes on to find tokens of these kinds.
`allowed` tells whether a key may begin there. -/
def Cuts (text : List Char) (column : Nat) (allowed : Bool) (b : Blocks) (kinds : List TokenKind) :
    Prop :=
  ∀ (m : Mark) (held : List Token) (given : Nat), m.column = column →
    .streamEnd ∉ held.map (·.kind) →
      (Scan.idle ⟨text, m⟩ held given allowed b).Yields (held.map (·.kind) ++ kinds)

namespace Cuts

variable {text : List Char} {column : Nat} {allowed : Bool} {b : Blocks} {kinds : List TokenKind}

open Scan

/-! ## Between tokens -/

/-- A space is passed over. -/
theorem space (h : Cuts text (column + 1) allowed b kinds) :
    Cuts (' ' :: text) column allowed b kinds := by
  intro m held given hcolumn hheld
  have hnext := h (m.next ' ') held given (by rw [Mark.next, hcolumn]) hheld
  refine hnext.congr rfl ?_
  exact Nat.le_of_eq (ink_space text).symm

/-- Several spaces are passed over. -/
theorem spaces (n : Nat) (h : Cuts text (column + n) allowed b kinds) :
    Cuts (List.replicate n ' ' ++ text) column allowed b kinds := by
  induction n generalizing column with
  | zero => exact h
  | succ n ih => exact space (ih (by rwa [Nat.add_right_comm, Nat.add_assoc]))

/-- A line feed is passed over, and then a key may begin. -/
theorem lineFeed (h : Cuts text 0 true b kinds) : Cuts ('\n' :: text) column allowed b kinds := by
  intro m held given hcolumn hheld
  have hnext := h (m.newline 1) held given rfl hheld
  refine hnext.congr (fetch_idle_congr (skipToToken_lineFeed _ _ _ _) _ _ _) ?_
  exact Nat.le_of_eq (ink_lineFeed text).symm

/-- A comment is passed over with its line. -/
theorem remark {words : List Char} (hwords : ∀ c ∈ words, isBreak c = false)
    (h : Cuts text 0 true b kinds) :
    Cuts ('#' :: (words ++ '\n' :: text)) column allowed b kinds := by
  intro m held given hcolumn hheld
  obtain ⟨m', hcolumn', -, hskip⟩ := skipToToken_remark hwords allowed text (m.next '#')
  refine (h m' held given hcolumn' hheld).congr (fetch_idle_congr ?_ _ _ _) ?_
  · exact hskip
  · show ink text ≤ ink ('#' :: (words ++ '\n' :: text))
    rw [ink_cons (by decide) (by decide), ink_append, ink_lineFeed]
    omega

/-! ## Dashes and brackets -/

/-- A dash opens a block sequence, if none is open in its column, and begins an entry of it. -/
theorem dash (hblank : blankNext text)
    (h : Cuts text (column + 1) true ((b.close column).enter column) kinds) :
    Cuts ('-' :: text) column true b
      (b.ends column ++ (b.close column).starts column .blockSequenceStart
        ++ .blockEntry :: kinds) := by
  intro m held given hcolumn hheld
  subst hcolumn
  have hskip : skipToToken false false true ('-' :: text) m = (⟨'-' :: text, m⟩, true) := rfl
  have hfetch : (idle ⟨'-' :: text, m⟩ held given true b).fetch =
      .ok (idle ⟨text, m.next '-'⟩
        (held ++ (closeTo m.column m b.indent b.outer).1
          ++ signs m ((b.close m.column).starts m.column .blockSequenceStart)
          ++ [⟨.blockEntry, m, m.next '-'⟩]) given true ((b.close m.column).enter m.column)) := by
    rw [fetch_idle hskip, fetchHere_dash rfl hblank, fetchDash_idle]
  have hkinds : List.map Token.kind (held ++ (closeTo m.column m b.indent b.outer).1
      ++ signs m ((b.close m.column).starts m.column .blockSequenceStart)
      ++ [⟨.blockEntry, m, m.next '-'⟩]) =
        held.map (·.kind) ++ b.ends m.column
          ++ (b.close m.column).starts m.column .blockSequenceStart ++ [.blockEntry] := by
    simp [Blocks.map_kind_closeTo]
  have hend : TokenKind.streamEnd ∉ held.map (·.kind) ++ b.ends m.column
      ++ (b.close m.column).starts m.column .blockSequenceStart ++ [.blockEntry] := by
    simp [hheld, Blocks.streamEnd_notMem_ends, Blocks.streamEnd_notMem_starts]
  have hlater := Yields.of_fetch_idle hfetch (by rwa [hkinds]) ?_ (h (m.next '-') [] _ rfl nofun)
  · rw [hkinds] at hlater
    simpa using hlater
  · show ink text < ink ('-' :: text)
    rw [ink_cons (by decide) (by decide)]
    omega

/-- A pair of brackets, behind a key, is a sequence without entries. -/
theorem brackets (hb : b.Settled column) (h : Cuts text (column + 2) false b kinds) :
    Cuts ('[' :: ']' :: text) column false b
      (.flowSequenceStart :: .flowSequenceEnd :: kinds) := by
  intro m held given hcolumn hheld
  subst hcolumn
  have hskip : skipToToken false false false ('[' :: ']' :: text) m =
      (⟨'[' :: ']' :: text, m⟩, false) := rfl
  have hopen : (idle ⟨'[' :: ']' :: text, m⟩ held given false b).fetch >>= dropStale =
      .ok ⟨⟨']' :: text, m.next '['⟩, held ++ [⟨.flowSequenceStart, m, m.next '['⟩], given, true,
        none, [none], b.indent, b.outer⟩ := by
    rw [fetch_settled hskip hb, fetchHere_open rfl]
    rfl
  have hclose : ∀ given, fetch ⟨⟨']' :: text, m.next '['⟩, [], given, true, none, [none], b.indent,
      b.outer⟩ = .ok (idle ⟨text, (m.next '[').next ']'⟩
        [⟨.flowSequenceEnd, m.next '[', (m.next '[').next ']'⟩] given false b) := by
    intro given
    show fetchHere ⟨⟨']' :: text, m.next '['⟩, [], given, true, none, [none], b.indent, b.outer⟩ = _
    rw [fetchHere_close rfl]
    rfl
  have hinkClose : ink text < ink (']' :: text) := by
    rw [ink_cons (by decide) (by decide)]
    exact Nat.lt_succ_self _
  have hinkOpen : ink (']' :: text) < ink ('[' :: ']' :: text) := by
    rw [ink_cons (by decide) (by decide) (']' :: text)]
    exact Nat.lt_succ_self _
  have hlater := fun n => Yields.of_fetch_idle (hclose n) (by simp) hinkClose
    (h ((m.next '[').next ']') [] _ rfl nofun)
  have hfirst := Yields.of_fetch_all hopen rfl (by simpa using hheld) hinkOpen (hlater _)
  simpa using hfirst

/-- The end of the text closes everything. -/
theorem done :
    Cuts [] column allowed b (b.ends column ++ (b.close column).ends (-1) ++ [.streamEnd]) := by
  intro m held given hcolumn hheld
  subst hcolumn
  have hskip : skipToToken false false allowed [] m = (⟨[], m⟩, allowed) := rfl
  obtain ⟨m', hm'⟩ : ∃ m', m' = if m.column = 0 then m else m.newline 0 := ⟨_, rfl⟩
  have hfetch : (idle ⟨[], m⟩ held given allowed b).fetch >>= dropStale =
      .ok (idle ⟨[], m'⟩ (held ++ (closeTo m.column m b.indent b.outer).1
        ++ (closeTo (-1) m' (b.close m.column).indent (b.close m.column).outer).1
        ++ [⟨.streamEnd, m', m'⟩]) given false ((b.close m.column).close (-1))) := by
    rw [fetch_idle hskip, fetchHere, fetchEnd, hm']
    show (do
      let s ← dropKey ((idle ⟨[], _⟩ _ given allowed (b.close m.column)).dedent (-1))
      pure (push { s with keyAllowed := false } ⟨.streamEnd, _, _⟩) : Except Fault Scan)
        >>= dropStale = _
    rw [dedent_idle]
    rfl
  have hall := yields_of_end hfetch rfl (by simp)
  simpa [Blocks.map_kind_closeTo] using hall

end Cuts

/-! ## The whole text -/

theorem controlAt?_of_isAllowed {text : List Char} (h : ∀ c ∈ text, isAllowed c) (offset : Nat) :
    TokenStream.controlAt? text offset = none := by
  induction text generalizing offset with
  | nil => rfl
  | cons c text ih =>
    rw [TokenStream.controlAt?, if_pos (h c List.mem_cons_self)]
    exact ih (fun d hd => h d (List.mem_cons_of_mem _ hd)) _

/-- **What a text is cut into from its beginning, are its tokens.** -/
theorem Cuts.ofText {text : List Char} {kinds : List TokenKind}
    (h : Cuts text 0 true ⟨-1, []⟩ kinds) (hallowed : ∀ c ∈ text, isAllowed c) :
    (TokenStream.ofText text).tokens.map (·.kind) = kinds ∧
      (TokenStream.ofText text).fault = none := by
  rw [TokenStream.ofText, controlAt?_of_isAllowed hallowed]
  have hink : ink text ≤ text.length := List.countP_le_length
  exact h .start [] 0 rfl nofun (text.length + 2) (show ink text < text.length + 2 by omega)

end DropRules.Yaml
