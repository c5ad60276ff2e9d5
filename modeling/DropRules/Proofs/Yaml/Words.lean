import DropRules.Proofs.Yaml.Cutting

/-!
# Words

A word is the simplest plain scalar: it begins with a letter or a digit, or with a minus sign in
front of one, and goes on with such characters.  Nothing in it can be taken for anything else, so it
ends where a colon, a blank or a break comes.

What stands behind it decides what it is.  With a colon it is a key (`Cuts.key`); the scanner has
noted where it began, and puts the sign of a key in front of it.  With a comment it is a value
(`Cuts.word_remark`), and so it is at the end of its line (`Cuts.word_break`).  In the latter case
the scanner looks for further lines of the same scalar, and so it has to be known that the next line
is none: `Shallow` says that it is not indented enough.
-/

namespace DropRules.Yaml

/-! ## Words -/

theorem ne_of_isWord {c x : Char} (hc : isWord c) (hx : isWord x = false) : c ≠ x := by
  rintro rfl
  rw [hx] at hc
  cases hc

/-- Letters are those of ASCII. -/
theorem toNat_of_isAlpha {c : Char} (hc : c.isAlpha) :
    (65 ≤ c.toNat ∧ c.toNat ≤ 90) ∨ (97 ≤ c.toNat ∧ c.toNat ≤ 122) := by
  have hranges : (decide (c.val ≥ 65 ∧ c.val ≤ 90)
      || (decide (c.val ≥ 97) && decide (c.val ≤ 122))) = true := hc
  simpa [UInt32.le_iff_toNat_le] using hranges

/-- The characters of words are of ASCII, and can be printed. -/
theorem toNat_of_isWord {c : Char} (hc : isWord c) : 45 ≤ c.toNat ∧ c.toNat ≤ 122 := by
  simp only [isWord, Char.isAlphanum, Bool.or_eq_true, beq_iff_eq] at hc
  rcases hc with ((hc | hc) | rfl) | rfl
  · have hletter := toNat_of_isAlpha hc
    omega
  · obtain ⟨hlow, hhigh⟩ := Char.isDigit_iff_toNat.mp hc
    exact ⟨Nat.le_trans (by decide) hlow, Nat.le_trans hhigh (by decide)⟩
  · decide
  · decide

theorem isAllowed_of_isWord {c : Char} (hc : isWord c) : isAllowed c := by
  obtain ⟨hlow, hhigh⟩ := toNat_of_isWord hc
  have hrange : (decide (0x20 ≤ c.toNat) && decide (c.toNat ≤ 0x7E)) = true := by
    rw [Bool.and_eq_true, decide_eq_true_eq, decide_eq_true_eq]
    omega
  rw [isAllowed]
  simp [hrange]

theorem isBlank_of_isWord {c : Char} (hc : isWord c) : isBlank c = false := by
  simp [isBlank, ne_of_isWord hc (x := ' ') rfl, ne_of_isWord hc (x := '\t') rfl]

theorem isBreak_of_isWord {c : Char} (hc : isWord c) : isBreak c = false := by
  have hne : ∀ x, isWord x = false → c ≠ x := fun x => ne_of_isWord hc
  simp [isBreak, hne '\r' rfl, hne '\n' rfl, hne '\u0085' rfl, hne '\u2028' rfl, hne '\u2029' rfl]

/-- A text that is a plain scalar as it stands. -/
def isPlainWord : List Char → Bool
  | [] => false
  | c :: rest =>
    (c.isAlphanum || (c == '-' && rest.head?.any Char.isAlphanum)) && rest.all isWord
      && rest.length < 1000

namespace Mark

/-- The place behind some characters of one line. -/
def past (m : Mark) (w : List Char) : Mark :=
  w.foldl Mark.next m

theorem column_past (m : Mark) (w : List Char) : (m.past w).column = m.column + w.length := by
  induction w generalizing m with
  | nil => rfl
  | cons c w ih =>
    rw [past, List.foldl_cons, ← past, ih, List.length_cons]
    show m.column + 1 + w.length = m.column + (w.length + 1)
    omega

theorem line_past (m : Mark) (w : List Char) : (m.past w).line = m.line := by
  induction w generalizing m with
  | nil => rfl
  | cons c w ih =>
    rw [past, List.foldl_cons, ← past, ih]
    rfl

theorem index_past {w : List Char} (hw : ∀ c ∈ w, isWord c) (m : Mark) :
    (m.past w).index = m.index + w.length := by
  induction w generalizing m with
  | nil => rfl
  | cons c w ih =>
    have hsize : c.utf8Size = 1 :=
      Char.utf8Size_eq_one_iff.mpr (UInt32.le_iff_toNat_le.mpr
        (Nat.le_trans (toNat_of_isWord (hw c List.mem_cons_self)).2 (by decide)))
    rw [past, List.foldl_cons, ← past, ih fun d hd => hw d (List.mem_cons_of_mem _ hd),
      List.length_cons, next, hsize]
    show m.index + 1 + w.length = m.index + (w.length + 1)
    omega

end Mark

/-- The characters of a plain word. -/
theorem isWord_of_isPlainWord {w : List Char} (hw : isPlainWord w) : ∀ c ∈ w, isWord c := by
  rcases w with _ | ⟨c, rest⟩
  · cases hw
  · simp only [isPlainWord, Bool.and_eq_true, Bool.or_eq_true, beq_iff_eq] at hw
    intro d hd
    rcases List.mem_cons.mp hd with rfl | hd
    · rcases hw.1.1 with h | ⟨rfl, -⟩
      · rw [isWord, h, Bool.true_or, Bool.true_or]
      · rfl
    · exact List.all_eq_true.mp hw.1.2 d hd

theorem length_of_isPlainWord {w : List Char} (hw : isPlainWord w) : w.length ≤ 1000 := by
  rcases w with _ | ⟨c, rest⟩
  · cases hw
  · rw [isPlainWord, Bool.and_eq_true, decide_eq_true_eq] at hw
    exact hw.2

/-! ## Reading a plain scalar -/

theorem readPlain_word {w rest : List Char} (hw : ∀ c ∈ w, isWord c) {indent : Int}
    {since m : Mark} {c : Cursor} {broken : Bool}
    (h : readPlain false indent since .none rest (m.past w) = .ok ⟨[], c, broken⟩) :
    readPlain false indent since .none (w ++ rest) m = .ok ⟨w, c, broken⟩ := by
  induction w generalizing m with
  | nil => exact h
  | cons d w ih =>
    have hd := hw d List.mem_cons_self
    have hlater := ih (fun e he => hw e (List.mem_cons_of_mem _ he)) h
    have hne : ∀ x, isWord x = false → (d == x) = false := fun x hx =>
      beq_eq_false_iff_ne.mpr (ne_of_isWord hd hx)
    rw [List.cons_append, readPlain]
    simp [isBlank_of_isWord hd, isBreak_of_isWord hd, hne '\r' rfl, hne ':' rfl, Gap.isOpen, hlater,
      Gap.text]

theorem readPlain_colon {text : List Char} (hblank : blankNext text) (indent : Int)
    (since m : Mark) :
    readPlain false indent since .none (':' :: text) m = .ok ⟨[], ⟨':' :: text, m⟩, false⟩ := by
  rw [readPlain]
  simp [hblank, isBlank, isBreak, Gap.isOpen, Gap.isBroken]

theorem readPlain_remark (text : List Char) (indent : Int) (since m : Mark) :
    readPlain false indent since .none (' ' :: '#' :: text) m =
      .ok ⟨[], ⟨'#' :: text, m.next ' '⟩, false⟩ := by
  rw [readPlain, readPlain]
  simp [isBlank, isBreak, Gap.isOpen, Gap.isBroken, Gap.blank]

theorem readPlain_lineFeed (text : List Char) (indent : Int) (since m : Mark) :
    readPlain false indent since .none ('\n' :: text) m =
      readPlain false indent since (.breaks (some '\n') []) text (m.newline 1) := by
  rw [readPlain]
  rfl

/-- What comes next is no further line of a scalar: it stands no deeper than `indent`, or it is a
comment, or there is nothing. -/
def Shallow (indent : Int) : Nat → List Char → Prop
  | _, [] => True
  | column, c :: rest =>
    if c = '\n' then Shallow indent 0 rest
    else if c = ' ' then Shallow indent (column + 1) rest
    else isBlank c = false ∧ isBreak c = false ∧ (c = '#' ∨ column ≤ indent)

open Scan in
/-- **Behind the last word of a scalar**, what is shallow is left to the next token. -/
theorem readPlain_shallow {indent : Int} {text : List Char} {m : Mark} (since : Mark)
    (h : Shallow indent m.column text) (first : Option Char) (later : List Char) :
    ∃ c : Cursor, readPlain false (indent + 1) since (.breaks first later) text m =
        .ok ⟨[], c, true⟩ ∧ ink c.rest = ink text ∧ m.line ≤ c.mark.line ∧
      skipToToken false false true c.rest c.mark = skipToToken false false true text m := by
  induction text generalizing m later with
  | nil => exact ⟨⟨[], m⟩, rfl, rfl, Nat.le_refl _, rfl⟩
  | cons c text ih =>
    rw [Shallow] at h
    split_ifs at h with hfeed hspace
    · subst hfeed
      have hstep : readPlain false (indent + 1) since (.breaks first later) ('\n' :: text) m =
          readPlain false (indent + 1) since (.breaks first (later ++ ['\n'])) text
            (m.newline 1) := by
        rw [readPlain]
        rfl
      obtain ⟨c, hread, hink, hline, hskip⟩ := ih (m := m.newline 1) h (later ++ ['\n'])
      exact ⟨c, hstep.trans hread, by rw [hink, ink_lineFeed], Nat.le_of_succ_le hline, hskip⟩
    · subst hspace
      have hstep : readPlain false (indent + 1) since (.breaks first later) (' ' :: text) m =
          readPlain false (indent + 1) since (.breaks first later) text (m.next ' ') := by
        rw [readPlain]
        simp [isBlank, Gap.blank]
      obtain ⟨c, hread, hink, hline, hskip⟩ := ih (m := m.next ' ') h later
      exact ⟨c, hstep.trans hread, by rw [hink, ink_space], hline, hskip⟩
    · obtain ⟨hblank, hbreak, hstop⟩ := h
      refine ⟨⟨c :: text, m⟩, ?_, rfl, Nat.le_refl _, rfl⟩
      have hreturn := beq_return_eq_false hbreak
      rw [readPlain]
      rcases hstop with rfl | hcolumn
      · simp [isBlank, isBreak, Gap.isOpen, Gap.isBroken]
      · have hlt : (m.column : Int) < indent + 1 := by omega
        simp [hblank, hbreak, hreturn, hlt, Gap.isOpen, Gap.isBroken]

/-! ## Words as tokens -/

namespace Scan

/-- A word takes ink. -/
theorem ink_lt_of_isPlainWord {w : List Char} (hw : isPlainWord w) (rest : List Char) :
    ink rest < ink (w ++ rest) := by
  rcases w with _ | ⟨c, w⟩
  · cases hw
  have hc := isWord_of_isPlainWord hw c List.mem_cons_self
  rw [List.cons_append, ink_cons (ne_of_isWord hc rfl) (ne_of_isWord hc rfl), ink_append]
  omega

theorem skipToToken_word {w : List Char} (hw : isPlainWord w) (allowed : Bool) (rest : List Char)
    (m : Mark) : skipToToken false false allowed (w ++ rest) m = (⟨w ++ rest, m⟩, allowed) := by
  rcases w with _ | ⟨c, w⟩
  · cases hw
  have hc := isWord_of_isPlainWord hw c List.mem_cons_self
  have hne : ∀ x, isWord x = false → (c == x) = false := fun x hx =>
    beq_eq_false_iff_ne.mpr (ne_of_isWord hc hx)
  rw [List.cons_append, skipToToken]
  simp [isBreak_of_isWord hc, hne '\r' rfl, hne ' ' rfl, hne '\t' rfl, hne '#' rfl,
    hne byteOrderMark rfl]

/-- A word is read as a plain scalar. -/
theorem fetchHere_word {s : Scan} {w rest : List Char} (hw : isPlainWord w)
    (hs : s.cursor.rest = w ++ rest) : s.fetchHere = s.fetchPlain := by
  rcases w with _ | ⟨c, w⟩
  · cases hw
  have hc := isWord_of_isPlainWord hw c List.mem_cons_self
  have hne : ∀ x, isWord x = false → (c == x) = false := fun x hx =>
    beq_eq_false_iff_ne.mpr (ne_of_isWord hc hx)
  have hdot : tripleNext '.' (c :: (w ++ rest)) = false :=
    tripleNext_of_ne (ne_of_isWord hc rfl) _
  simp only [isPlainWord, Bool.and_eq_true, Bool.or_eq_true, beq_iff_eq] at hw
  rw [fetchHere, hs, List.cons_append]
  rcases hw.1.1 with h | ⟨rfl, h⟩
  · have hdash : (c == '-') = false := beq_eq_false_iff_ne.mpr (by rintro rfl; cases h)
    have htriple : tripleNext '-' (c :: (w ++ rest)) = false :=
      tripleNext_of_ne (beq_eq_false_iff_ne.mp hdash) _
    have hplain : plainNext s.inFlow c (w ++ rest) = true := by
      have hsign : isSign c = false := by
        simp only [isSign, decide_eq_false_iff_not, List.mem_cons, List.not_mem_nil, or_false,
          not_or, ← beq_eq_false_iff_ne]
        exact ⟨hdash, hne _ rfl, hne _ rfl, hne _ rfl, hne _ rfl, hne _ rfl, hne _ rfl, hne _ rfl,
          hne _ rfl, hne _ rfl, hne _ rfl, hne _ rfl, hne _ rfl, hne _ rfl, hne _ rfl, hne _ rfl,
          hne _ rfl, hne _ rfl, hne _ rfl⟩
      rw [plainNext, isBlank_of_isWord hc, isBreak_of_isWord hc, hsign]
      rfl
    simp [hdash, htriple, hdot, hplain, hne '%' rfl, hne '[' rfl, hne '\x7b' rfl, hne ']' rfl,
      hne '\x7d' rfl, hne ',' rfl, hne '?' rfl, hne ':' rfl, hne '*' rfl, hne '&' rfl, hne '!' rfl,
      hne '|' rfl, hne '>' rfl, hne '\'' rfl, hne '"' rfl]
  · -- A minus sign is no dash, for a letter or a digit is attached to it.
    obtain ⟨d, hd, halnum⟩ := (Option.any_eq_true _ _).mp h
    obtain ⟨w, rfl⟩ := List.head?_eq_some_iff.mp hd
    have hd' : isWord d := by rw [isWord, halnum, Bool.true_or, Bool.true_or]
    have hdash : d ≠ '-' := by
      rintro rfl
      cases halnum
    have htriple : tripleNext '-' ('-' :: (d :: w ++ rest)) = false :=
      tripleNext_of_head?_ne (by simpa using hdash)
    have hblank : blankNext (d :: w ++ rest) = false := by
      rw [List.cons_append, blankNext, isBlank_of_isWord hd', isBreak_of_isWord hd']
      rfl
    have hplain : plainNext s.inFlow '-' (d :: w ++ rest) = true := by
      simp [plainNext, isBlank_of_isWord hd']
    rw [List.cons_append] at htriple hdot hblank hplain
    simp [htriple, hdot, hblank, hplain]

theorem fetchPlain_idle {text w : List Char} {m : Mark} {c : Cursor} {broken : Bool} {b : Blocks}
    (h : readPlain false (b.indent + 1) m .none text m = .ok ⟨w, c, broken⟩) (held : List Token)
    (given : Nat) (allowed : Bool) :
    (idle ⟨text, m⟩ held given allowed b).fetchPlain =
      .ok ⟨c, held ++ [⟨.scalar w .plain, m, c.mark⟩], given, broken,
        if allowed then some ⟨b.indent == m.column, given + held.length, m⟩ else none, [], b.indent,
        b.outer⟩ := by
  cases allowed with
  | false =>
    show (do
      let r ← readPlain false (b.indent + 1) m .none text m
      pure (push
        { idle ⟨text, m⟩ held given false b with keyAllowed := r.broken, cursor := r.cursor }
        ⟨.scalar r.text .plain, m, r.cursor.mark⟩) : Except Fault Scan) = _
    rw [h]
    rfl
  | true =>
    show (do
      let r ← readPlain false (b.indent + 1) m .none text m
      pure (push { idle ⟨text, m⟩ held given true b with
        key := some ⟨b.indent == m.column, given + held.length, m⟩, keyAllowed := r.broken,
        cursor := r.cursor } ⟨.scalar r.text .plain, m, r.cursor.mark⟩) : Except Fault Scan) = _
    rw [h]
    rfl

theorem fetch_word {w rest : List Char} (hw : isPlainWord w) {m : Mark} {c : Cursor} {broken : Bool}
    {b : Blocks} (hb : b.Settled m.column)
    (h : readPlain false (b.indent + 1) m .none (w ++ rest) m = .ok ⟨w, c, broken⟩)
    (held : List Token) (given : Nat) (allowed : Bool) :
    (idle ⟨w ++ rest, m⟩ held given allowed b).fetch =
      .ok ⟨c, held ++ [⟨.scalar w .plain, m, c.mark⟩], given, broken,
        if allowed then some ⟨b.indent == m.column, given + held.length, m⟩ else none, [], b.indent,
        b.outer⟩ := by
  rw [fetch_settled (skipToToken_word hw allowed rest m) hb, fetchHere_word hw rfl,
    fetchPlain_idle h]

/-! ## Where a key may have begun -/

/-- The scanner at a text, where a key may have begun and no brackets are open. -/
abbrev keyed (k : KeyPlace) (c : Cursor) (held : List Token) (given : Nat) (allowed : Bool)
    (b : Blocks) : Scan :=
  { idle c held given allowed b with key := some k }

theorem dropStale_keyed {k : KeyPlace} (c : Cursor) (h : ¬ Stale c.mark k) (held : List Token)
    (given : Nat) (allowed : Bool) (b : Blocks) :
    (keyed k c held given allowed b).dropStale = .ok (keyed k c held given allowed b) := by
  show (do
    let key ← refresh c.mark (some k)
    pure { idle c held given allowed b with key } : Except Fault Scan) = _
  rw [refresh, if_neg h]
  rfl

/-- The way to the next token leads to no earlier line. -/
theorem line_le_skipToToken (flow comment allowed : Bool) (text : List Char) (m : Mark) :
    m.line ≤ (skipToToken flow comment allowed text m).1.mark.line := by
  induction text generalizing comment allowed m with
  | nil => exact Nat.le_refl _
  | cons c text ih =>
    rw [skipToToken]
    split_ifs
    · exact ih comment allowed m.hold
    · exact Nat.le_of_succ_le (ih false (allowed || !flow) (m.newline c.utf8Size))
    · exact ih comment allowed (m.next c)
    · exact ih comment allowed (m.next c)
    · exact ih true allowed (m.next c)
    · exact Nat.le_refl _

theorem dropStale_expired {k : KeyPlace} {c : Cursor} (h : Stale c.mark k)
    (hrequired : k.required = false) (held : List Token) (given : Nat) (allowed : Bool)
    (b : Blocks) :
    (keyed k c held given allowed b).dropStale = .ok (idle c held given allowed b) := by
  show (do
    let key ← refresh c.mark (some k)
    pure { idle c held given allowed b with key } : Except Fault Scan) = _
  rw [refresh, if_pos h, hrequired]
  rfl

/-- A key place that may be given up is forgotten on the way to a later line. -/
theorem fetch_expired {k : KeyPlace} (hrequired : k.required = false) {text text' : List Char}
    {m m' : Mark} {allowed allowed' : Bool}
    (hskip : skipToToken false false allowed text m = skipToToken false false allowed' text' m')
    (hline : k.mark.line < m'.line) (held : List Token) (given : Nat) (b : Blocks) :
    (keyed k ⟨text, m⟩ held given allowed b).fetch =
      (idle ⟨text', m'⟩ held given allowed' b).fetch := by
  have hlater := line_le_skipToToken false false allowed' text' m'
  cases hnext : skipToToken false false allowed' text' m' with
  | mk c a =>
    rw [hnext] at hskip hlater
    have hstale : Stale c.mark k := .inl (Nat.lt_of_lt_of_le hline hlater)
    rw [fetch_of_skipToToken (s := keyed k ⟨text, m⟩ held given allowed b) hskip,
      fetch_of_skipToToken (s := idle ⟨text', m'⟩ held given allowed' b) hnext]
    show (do
      let s ← (keyed k c held given a b).dropStale
      (s.dedent s.mark.column).fetchHere) = _
    rw [dropStale_expired hstale hrequired]
    rfl

/-! ## Colons -/

/-- One token further, with which a key may have begun: what came before it is given out. -/
theorem Yields.of_fetch_keyed {s : Scan} {k : KeyPlace} {c : Cursor} {held : List Token} {t : Token}
    {given : Nat} {allowed : Bool} {b : Blocks} {kinds : List TokenKind}
    (hfetch : s.fetch >>= dropStale = .ok (keyed k c (held ++ [t]) given allowed b))
    (hnumber : k.number = given + held.length)
    (hend : .streamEnd ∉ (held ++ [t]).map (·.kind)) (hink : ink c.rest < ink s.cursor.rest)
    (h : (keyed k c [t] k.number allowed b).Yields kinds) :
    s.Yields (held.map (·.kind) ++ kinds) := by
  have hsettled : (keyed k c (held ++ [t]) given allowed b).settled = held.length := by
    show min (held ++ [t]).length (k.number - given) = held.length
    rw [hnumber, List.length_append]
    omega
  have hgive : (keyed k c (held ++ [t]) given allowed b).give held.length =
      keyed k c [t] k.number allowed b := by
    rw [give, List.drop_left, hnumber]
  have hlater := Yields.of_fetch hfetch hend hink (by rwa [hsettled, hgive])
  rwa [hsettled, List.take_left] at hlater

theorem fetchHere_colon {s : Scan} {text : List Char} (hs : s.cursor.rest = ':' :: text)
    (h : blankNext text) : s.fetchHere = s.fetchColon := by
  have hdash : tripleNext '-' (':' :: text) = false := tripleNext_of_ne (by decide) text
  have hdot : tripleNext '.' (':' :: text) = false := tripleNext_of_ne (by decide) text
  rw [fetchHere, hs]
  simp [h, hdash, hdot]

/-- The scanner stands at a token in the line of the key place. -/
theorem fetch_keyed {k : KeyPlace} {text : List Char} {m : Mark} {allowed : Bool} {b : Blocks}
    (hskip : skipToToken false false allowed text m = (⟨text, m⟩, allowed)) (hfresh : ¬ Stale m k)
    (hb : b.Settled m.column) (held : List Token) (given : Nat) :
    (keyed k ⟨text, m⟩ held given allowed b).fetch =
      fetchHere (keyed k ⟨text, m⟩ held given allowed b) := by
  have hdedent : (keyed k ⟨text, m⟩ held given allowed b).dedent m.column =
      keyed k ⟨text, m⟩ held given allowed b := by
    simp [dedent, inFlow, mark, hb.closeTo_eq]
  rw [fetch_of_skipToToken (s := keyed k ⟨text, m⟩ held given allowed b) hskip]
  show (do
    let s ← (keyed k ⟨text, m⟩ held given allowed b).dropStale
    (s.dedent s.mark.column).fetchHere) = _
  rw [dropStale_keyed ⟨text, m⟩ hfresh]
  show fetchHere ((keyed k ⟨text, m⟩ held given allowed b).dedent m.column) = _
  rw [hdedent]

theorem insert_keyed (k : KeyPlace) (c : Cursor) (m : Mark) (held : List Token) (given : Nat)
    (allowed : Bool) (b : Blocks) (kind : TokenKind) :
    (keyed k c held given allowed b).insert given kind m =
      keyed k c (⟨kind, m, m⟩ :: held) given allowed b := by
  rw [Scan.insert, Nat.sub_self]
  rfl

theorem openAt_keyed (k : KeyPlace) (c : Cursor) (m : Mark) (held : List Token) (given : Nat)
    (allowed : Bool) (b : Blocks) (column : Nat) (kind : TokenKind) :
    (keyed k c held given allowed b).openAt column given kind m =
      keyed k c (signs m (b.starts column kind) ++ held) given allowed (b.enter column) := by
  rw [openAt, insert_keyed, Blocks.starts, Blocks.enter]
  by_cases h : b.indent < column
  · simp [h, inFlow, signs]
  · simp [h, inFlow, signs]

/-- The colon puts the sign of a key in front of the tokens that were held back for it. -/
theorem fetchColon_keyed (k : KeyPlace) (text : List Char) (m : Mark) (held : List Token)
    (allowed : Bool) (b : Blocks) :
    (keyed k ⟨':' :: text, m⟩ held k.number allowed b).fetchColon =
      .ok (idle ⟨text, m.next ':'⟩
        (signs k.mark (b.starts k.mark.column .blockMappingStart) ++ ⟨.key, k.mark, k.mark⟩ :: held
          ++ [⟨.value, m, m.next ':'⟩]) k.number false (b.enter k.mark.column)) := by
  show Except.ok (take { openAt ((keyed k ⟨':' :: text, m⟩ held k.number allowed b).insert k.number
    .key k.mark) k.mark.column k.number .blockMappingStart k.mark with
      key := none, keyAllowed := false } 1 .value) = _
  rw [insert_keyed, openAt_keyed]
  rfl

end Scan

namespace Cuts

variable {text w : List Char} {column : Nat} {allowed : Bool} {b : Blocks} {kinds : List TokenKind}

open Scan

/-- No place in a word, nor the one behind it, is too far from its beginning. -/
theorem not_stale_past {k : KeyPlace} {m : Mark} (hw : isPlainWord w) (hmark : k.mark = m) :
    ¬ Stale (m.past w) k ∧ ¬ Stale ((m.past w).next ' ') k := by
  have hlength := length_of_isPlainWord hw
  have hindex := Mark.index_past (isWord_of_isPlainWord hw) m
  constructor
  · rw [Stale, hmark, Mark.line_past, hindex]
    omega
  · rw [Stale, hmark]
    show ¬ ((m.line < (m.past w).line) ∨ m.index + 1024 < (m.past w).index + 1)
    rw [Mark.line_past, hindex]
    omega

/-- A colon behind what may be a key: it is one, and everything held back is given out. -/
theorem yields_keyed_colon {k : KeyPlace} {m : Mark} {held : List Token} (hblank : blankNext text)
    (hfresh : ¬ Stale m k) (hb : b.Settled m.column) (hheld : .streamEnd ∉ held.map (·.kind))
    (h : Cuts text (m.column + 1) false (b.enter k.mark.column) kinds) :
    (keyed k ⟨':' :: text, m⟩ held k.number false b).Yields
      (b.starts k.mark.column .blockMappingStart
        ++ .key :: (held.map (·.kind) ++ .value :: kinds)) := by
  have hfetch : (keyed k ⟨':' :: text, m⟩ held k.number false b).fetch =
      .ok (idle ⟨text, m.next ':'⟩
        (signs k.mark (b.starts k.mark.column .blockMappingStart) ++ ⟨.key, k.mark, k.mark⟩ :: held
          ++ [⟨.value, m, m.next ':'⟩]) k.number false (b.enter k.mark.column)) := by
    rw [fetch_keyed rfl hfresh hb, fetchHere_colon rfl hblank, fetchColon_keyed]
  have hink : ink text < ink (':' :: text) := by
    rw [ink_cons (by decide) (by decide)]
    exact Nat.lt_succ_self _
  have hlater := Yields.of_fetch_idle hfetch
    (by simpa [Blocks.streamEnd_notMem_starts] using hheld) hink (h (m.next ':') [] _ rfl nofun)
  simpa using hlater

/-- **A word with a colon is a key.**  It opens a block mapping, if none is open in its column. -/
theorem key (hw : isPlainWord w) (hblank : blankNext text)
    (h : Cuts text (column + w.length + 1) false ((b.close column).enter column) kinds) :
    Cuts (w ++ ':' :: text) column true b
      (b.ends column ++ (b.close column).starts column .blockMappingStart
        ++ .key :: .scalar w .plain :: .value :: kinds) := by
  intro m held given hcolumn hheld
  subst hcolumn
  obtain ⟨held', hheld'⟩ : ∃ held', held' = held ++ (closeTo m.column m b.indent b.outer).1 :=
    ⟨_, rfl⟩
  have hkinds : held'.map (·.kind) = held.map (·.kind) ++ b.ends m.column := by
    rw [hheld', List.map_append, Blocks.map_kind_closeTo]
  have hend : TokenKind.streamEnd ∉ held'.map (·.kind) := by
    simp [hkinds, hheld, Blocks.streamEnd_notMem_ends]
  obtain ⟨k, hk⟩ : ∃ k : KeyPlace,
      k = ⟨(b.close m.column).indent == m.column, given + held'.length, m⟩ := ⟨_, rfl⟩
  have hnumber : k.number = given + held'.length := by rw [hk]
  have hmark : k.mark = m := by rw [hk]
  have hfresh := (not_stale_past hw hmark).1
  have hb : (b.close m.column).Settled (m.past w).column := by
    refine (b.settled_close m.column).mono ?_
    rw [Mark.column_past]
    omega
  -- The word is held back, for a key may have begun with it.
  have hword : (idle ⟨w ++ ':' :: text, m⟩ held given true b).fetch >>= dropStale =
      .ok (keyed k ⟨':' :: text, m.past w⟩ (held' ++ [⟨.scalar w .plain, m, m.past w⟩]) given false
        (b.close m.column)) := by
    have hread := readPlain_word (isWord_of_isPlainWord hw)
      (readPlain_colon hblank ((b.close m.column).indent + 1) m (m.past w))
    rw [fetch_idle (skipToToken_word hw true _ m), fetchHere_word hw rfl, fetchPlain_idle hread,
      ← hheld', if_pos rfl, ← hk]
    exact dropStale_keyed ⟨':' :: text, m.past w⟩ hfresh _ given false (b.close m.column)
  have hlater : (keyed k ⟨':' :: text, m.past w⟩ [⟨.scalar w .plain, m, m.past w⟩] k.number false
      (b.close m.column)).Yields _ :=
    yields_keyed_colon hblank hfresh hb (by simp) (by rwa [hmark, Mark.column_past])
  have hfirst := Yields.of_fetch_keyed hword hnumber (by simpa using hend)
    (ink_lt_of_isPlainWord hw _) hlater
  simpa [hkinds, hmark] using hfirst

/-- A comment behind what may be a key: it is none, for the line has come to its end. -/
theorem yields_keyed_remark {k : KeyPlace} {m : Mark} {held : List Token} {words : List Char}
    (hrequired : k.required = false) (hline : k.mark.line ≤ m.line)
    (hwords : ∀ c ∈ words, isBreak c = false) (hheld : .streamEnd ∉ held.map (·.kind))
    (given : Nat) (h : Cuts text 0 true b kinds) :
    (keyed k ⟨'#' :: (words ++ '\n' :: text), m⟩ held given false b).Yields
      (held.map (·.kind) ++ kinds) := by
  obtain ⟨m', hcolumn, hlater, hskip⟩ := skipToToken_remark hwords false text (m.next '#')
  have hexpired : skipToToken false false false ('#' :: (words ++ '\n' :: text)) m =
      skipToToken false false true text m' := hskip
  refine (h m' held given hcolumn hheld).congr (fetch_expired hrequired hexpired ?_ _ _ _) ?_
  · exact Nat.lt_of_le_of_lt hline hlater
  · show ink text ≤ ink ('#' :: (words ++ '\n' :: text))
    rw [ink_cons (by decide) (by decide), ink_append, ink_lineFeed]
    omega

/-- A word in front of a comment is a scalar. -/
theorem word_remark (hw : isPlainWord w) (hb : b.indent < column) {words : List Char}
    (hwords : ∀ c ∈ words, isBreak c = false) (h : Cuts text 0 true b kinds) :
    Cuts (w ++ ' ' :: '#' :: (words ++ '\n' :: text)) column allowed b
      (.scalar w .plain :: kinds) := by
  intro m held given hcolumn hheld
  subst hcolumn
  have hread := readPlain_word (isWord_of_isPlainWord hw)
    (readPlain_remark (words ++ '\n' :: text) (b.indent + 1) m (m.past w))
  have hfetch := fetch_word hw (.inr (Int.le_of_lt hb)) hread held given allowed
  have hink : ink ('#' :: (words ++ '\n' :: text)) <
      ink (w ++ ' ' :: '#' :: (words ++ '\n' :: text)) := by
    have hlt := ink_lt_of_isPlainWord hw (' ' :: '#' :: (words ++ '\n' :: text))
    rwa [ink_space] at hlt
  cases allowed with
  | false =>
    have hrest : Cuts ('#' :: (words ++ '\n' :: text)) ((m.past w).next ' ').column false b kinds :=
      remark hwords h
    have hfirst := Yields.of_fetch_idle hfetch (by simpa using hheld) hink
      (hrest ((m.past w).next ' ') [] _ rfl nofun)
    simpa using hfirst
  | true =>
    -- The word is held back until the comment is behind.
    obtain ⟨k, hk⟩ : ∃ k : KeyPlace, k = ⟨b.indent == m.column, given + held.length, m⟩ := ⟨_, rfl⟩
    have hnumber : k.number = given + held.length := by rw [hk]
    have hmark : k.mark = m := by rw [hk]
    have hrequired : k.required = false := by
      rw [hk, beq_eq_false_iff_ne]
      exact Int.ne_of_lt hb
    rw [if_pos rfl, ← hk] at hfetch
    have hstale : (idle ⟨w ++ ' ' :: '#' :: (words ++ '\n' :: text), m⟩ held given true b).fetch
        >>= dropStale = .ok (keyed k ⟨'#' :: (words ++ '\n' :: text), (m.past w).next ' '⟩
          (held ++ [⟨.scalar w .plain, m, (m.past w).next ' '⟩]) given false b) := by
      rw [hfetch]
      exact dropStale_keyed ⟨_, (m.past w).next ' '⟩ (not_stale_past hw hmark).2 _ given false b
    have hline : k.mark.line ≤ ((m.past w).next ' ').line := by
      rw [hmark, ← Mark.line_past m w]
      exact Nat.le_refl _
    have hlater : (keyed k ⟨'#' :: (words ++ '\n' :: text), (m.past w).next ' '⟩
        [⟨.scalar w .plain, m, (m.past w).next ' '⟩] k.number false b).Yields _ :=
      yields_keyed_remark hrequired hline hwords (by simp) k.number h
    exact Yields.of_fetch_keyed hstale hnumber (by simpa using hheld) hink hlater

/-- A word at the end of its line is a scalar, if the next line does not belong to it. -/
theorem word_break (hw : isPlainWord w) (hb : b.indent < column)
    (hshallow : Shallow b.indent 0 text) (h : Cuts text 0 true b kinds) :
    Cuts (w ++ '\n' :: text) column allowed b (.scalar w .plain :: kinds) := by
  intro m held given hcolumn hheld
  subst hcolumn
  obtain ⟨c, hnext, hinkNext, hline, hskip⟩ :=
    readPlain_shallow (m := (m.past w).newline 1) m hshallow (some '\n') []
  have hread : readPlain false (b.indent + 1) m .none (w ++ '\n' :: text) m = .ok ⟨w, c, true⟩ :=
    readPlain_word (isWord_of_isPlainWord hw) ((readPlain_lineFeed _ _ _ _).trans hnext)
  have hfetch := fetch_word hw (.inr (Int.le_of_lt hb)) hread held given allowed
  have hink : ink c.rest < ink (w ++ '\n' :: text) := by
    have hlt := ink_lt_of_isPlainWord hw ('\n' :: text)
    rwa [ink_lineFeed, ← hinkNext] at hlt
  have hrest : ∀ n, (idle c [] n true b).Yields kinds := fun n =>
    (h ((m.past w).newline 1) [] n rfl nofun).congr (fetch_idle_congr hskip _ _ _)
      (Nat.le_of_eq hinkNext.symm)
  cases allowed with
  | false =>
    have hfirst := Yields.of_fetch_idle hfetch (by simpa using hheld) hink (hrest _)
    simpa using hfirst
  | true =>
    -- The line has ended, and with it the hope for a key.
    have hstale : (idle ⟨w ++ '\n' :: text, m⟩ held given true b).fetch >>= dropStale =
        .ok (idle c (held ++ [⟨.scalar w .plain, m, c.mark⟩]) given true b) := by
      rw [hfetch]
      refine dropStale_expired (.inl ?_) ?_ _ _ _ _
      · rw [← Mark.line_past m w]
        exact hline
      · exact beq_eq_false_iff_ne.mpr (Int.ne_of_lt hb)
    have hfirst := Yields.of_fetch_all hstale rfl (by simpa using hheld) hink (hrest _)
    simpa using hfirst

end Cuts

end DropRules.Yaml
