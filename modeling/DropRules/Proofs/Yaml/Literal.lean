import DropRules.Proofs.Yaml.Plain

/-!
# Literal blocks

A text with a line feed is written line by line, indented, below a header.  Every line is read as it
stands, and so is the break behind it, but for the breaks at the end of the text: these are text
only as far as the header says, which is why the header depends on how the text ends
(`literalChomp`).

The breaks behind the last line with text are kept in a `Margin`, and whether they are text turns
out when the next line comes, or the end.  `Reached` tells what the reader has come to after a part
of the text, and `readLines_literal` follows it through the rest.
-/

namespace DropRules.Yaml

open Scan

/-! ## Headers -/

/-- What has to become of the breaks at the end of a literal block so that the text is kept. -/
def literalChomp (s : List Char) : Chomp :=
  match s.reverse with
  | [] => .strip
  | [c] => if isBreak c then .keep else .strip
  | c :: d :: _ => if isBreak c then (if isBreak d then .keep else .clip) else .strip

/-- The sign in a header. -/
def Chomp.sign : Chomp → List Char
  | strip => ['-']
  | clip => []
  | keep => ['+']

/-- What a header says of the indentation, where the first line does not show it. -/
def literalHint (s : List Char) : List Char :=
  if s.head?.any (fun c => isSpace c || isBreak c) then ['2'] else []

theorem literalHeader_eq (s : List Char) :
    literalHeader s = '|' :: (literalHint s ++ (literalChomp s).sign) := by
  show '|' :: literalHint s ++ _ = _
  rw [literalChomp, List.cons_append]
  rcases s.reverse with _ | ⟨c, _ | ⟨d, rest⟩⟩
  · rfl
  · by_cases hc : isBreak c = true <;> simp [hc, Chomp.sign]
  · by_cases hc : isBreak c = true <;> by_cases hd : isBreak d = true <;> simp [hc, hd, Chomp.sign]

/-- **A header is read as what it says.** -/
theorem readBlockHeader_literal (n : Nat) (since m : Mark) (given : Bool) (chomp : Chomp)
    (rest : List Char) :
    ∃ m' : Mark, m'.column = 0 ∧ m'.line = m.line + 1 ∧
      readBlockHeader true n since ⟨(if given then ['2'] else []) ++ (chomp.sign ++ '\n' :: rest), m⟩ =
        .ok (⟨true, chomp, if given then some (n + 2) else none⟩, ⟨rest, m'⟩) := by
  have hn : (0 : Int) ≤ n := Int.natCast_nonneg n
  have hindent : (if (0 : Int) ≤ n then (n : Int).toNat + ('2'.toNat - '0'.toNat)
      else '2'.toNat - '0'.toNat) = n + 2 := by
    rw [if_pos hn]
    rfl
  rw [← hindent]
  cases given <;> cases chomp <;> exact ⟨_, rfl, rfl, rfl⟩

/-! ## Lines -/

/-- The line break behind the last line, unless the text has one there; the flag tells whether a
line begins. -/
def lastBreak (fresh : Bool) (s : List Char) : List Char :=
  if s.getLast?.elim fresh isBreak then [] else ['\n']

theorem lastBreak_cons (fresh : Bool) (c : Char) (s : List Char) :
    lastBreak fresh (c :: s) = lastBreak (isBreak c) s := by
  rw [lastBreak, lastBreak, List.getLast?_cons]
  cases s.getLast? <;> rfl

theorem literalBlock_eq (n : Nat) {s : List Char} (hne : s ≠ []) :
    literalBlock n s =
      literalHeader s ++ '\n' :: (literalLines n true s ++ lastBreak true s) := by
  have hbreak : s.getLast?.elim true isBreak = s.getLast?.any isBreak := by
    rw [List.getLast?_eq_some_getLast hne]
    rfl
  rw [literalBlock, lastBreak, hbreak, List.append_assoc, List.cons_append]

/-- What the reader has come to in a text, between lines that are indented by `n`: it stands in a
line, or in the margin below one.  What it has come over is the second argument, and the breaks at
its end, of which it is not known yet whether they are text, are the third. -/
inductive Reached (n : Nat) : Bool → List Char → List Char → BlockState → Prop
  | line {s : List Char} {x : Char} {blank : Bool} (hx : isBreak x = false) :
      Reached n false (s ++ [x]) [] (.line n blank)
  | top {later : List Char} {widest : Nat} (hlater : ∀ c ∈ later, isBreak c) :
      Reached n true later later (.margin ⟨none, later, false⟩ (some n) widest)
  | margin {s later : List Char} {x first : Char} {blank : Bool} {widest : Nat}
      (hx : isBreak x = false) (hlater : ∀ c ∈ first :: later, isBreak c) :
      Reached n true (s ++ x :: first :: later) (first :: later)
        (.margin ⟨some first, later, blank⟩ (some n) widest)

/-- Of two breaks at the end none is lost. -/
theorem literalChomp_keep {s : List Char} {c d : Char} (hc : isBreak c) (hd : isBreak d) :
    literalChomp (s ++ [c, d]) = .keep := by
  simp [literalChomp, hc, hd]

/-- **At the end of the text, the breaks there are kept.** -/
theorem Reached.ending {n : Nat} {s pending : List Char} {margin : Margin} {indent : Option Nat}
    {widest : Nat} (h : Reached n true s pending (.margin margin indent widest)) :
    indent = some n ∧ margin.ending (literalChomp s) = pending := by
  cases h with
  | top hlater =>
    refine ⟨rfl, ?_⟩
    rcases List.eq_nil_or_concat' s with rfl | ⟨s, c, rfl⟩
    · rfl
    · have hc := hlater c (by simp)
      rcases List.eq_nil_or_concat' s with rfl | ⟨s, d, rfl⟩
      · simp [literalChomp, hc, Margin.ending]
      · have hd := hlater d (by simp)
        rw [List.append_assoc, List.singleton_append, literalChomp_keep hd hc]
        rfl
  | @margin s later x first blank widest hx hlater =>
    refine ⟨rfl, ?_⟩
    have hfirst := hlater first List.mem_cons_self
    rcases List.eq_nil_or_concat' later with rfl | ⟨later, c, rfl⟩
    · simp [literalChomp, hx, hfirst, Margin.ending]
    · have hc := hlater c (by simp)
      rcases List.eq_nil_or_concat' later with rfl | ⟨later, d, rfl⟩
      · have hs : s ++ x :: first :: ([] ++ [c]) = (s ++ [x]) ++ [first, c] := by simp
        rw [hs, literalChomp_keep hfirst hc]
        rfl
      · have hd := hlater d (by simp)
        have hs : s ++ x :: first :: (later ++ [d] ++ [c]) =
            (s ++ x :: first :: later) ++ [d, c] := by simp
        rw [hs, literalChomp_keep hd hc]
        rfl

/-- A text whose last character is no break has none to keep. -/
theorem literalChomp_strip {s : List Char} {x : Char} (hx : isBreak x = false) :
    literalChomp (s ++ [x]) = .strip := by
  rw [literalChomp, List.reverse_append, List.reverse_singleton, List.singleton_append]
  cases s.reverse <;> simp [hx]

/-! ## One step further -/

section Steps

variable {n i : Nat} {chomp : Chomp} {since m : Mark} {c : Char} {margin : Margin}
  {indent : Option Nat} {widest : Nat} {fresh : Bool} {before pending : List Char}
  {state : BlockState}

/-- Spaces in a margin are passed over. -/
theorem readLines_spaces (k : Nat) (hindent : ∀ i ∈ indent, m.column + k ≤ i) (widest : Nat)
    (rest : List Char) :
    ∃ widest' ≤ max widest (m.column + k),
      readLines true chomp n since (.margin margin indent widest) (List.replicate k ' ' ++ rest) m =
        readLines true chomp n since (.margin margin indent widest') rest
          (m.past (List.replicate k ' ')) := by
  induction k generalizing m widest with
  | zero => exact ⟨widest, Nat.le_max_left _ _, rfl⟩
  | succ k ih =>
    have hshort : indent.all (m.column < ·) = true := by
      cases indent with
      | none => rfl
      | some i =>
        have hi := hindent i rfl
        rw [Option.all_some, decide_eq_true_eq]
        omega
    have hnext : (m.next ' ').column = m.column + 1 := rfl
    have hlater : ∀ i ∈ indent, (m.next ' ').column + k ≤ i := by
      intro i hi
      have hle := hindent i hi
      omega
    obtain ⟨widest', hle, hread⟩ := ih hlater (max widest m.column)
    refine ⟨widest', by omega, ?_⟩
    rw [List.replicate_succ, List.cons_append, readLines]
    simp only [hshort, beq_self_eq_true, Bool.and_self, if_true]
    exact hread

/-- The first character of a line, at the indentation of the block. -/
theorem readLines_first (hc : isPlainlyWritten c) (hbreak : isBreak c = false)
    (hcolumn : m.column = i)
    (hindent : indent = some i ∨ indent = none ∧ c ≠ ' ' ∧ widest ≤ i ∧ n < i) (rest : List Char) :
    readLines true chomp n since (.margin margin indent widest) (c :: rest) m =
      (readLines true chomp n since (.line i (isBlank c)) rest (m.next c)).map
        fun r => (margin.joined true (isBlank c) ++ c :: r.1, r.2) := by
  have hreturn := ne_return_of_isPlainlyWritten hc
  have htab : (c == '\t') = false := by
    rw [beq_eq_false_iff_ne]
    rintro rfl
    cases hc
  subst hcolumn
  rw [readLines]
  rcases hindent with rfl | ⟨rfl, hspace, hwidest, hlt⟩
  · simp [hreturn, hbreak, htab]
  · have hmax : max widest (max m.column (n + 1)) = m.column := by omega
    simp [hreturn, hbreak, htab, hspace, hmax]

/-- A line with text, with its indentation. -/
theorem readLines_indented (hc : isPlainlyWritten c) (hbreak : isBreak c = false)
    (hcolumn : m.column = 0)
    (hindent : indent = some i ∨ indent = none ∧ c ≠ ' ' ∧ widest ≤ i ∧ n < i) (rest : List Char) :
    readLines true chomp n since (.margin margin indent widest)
        (List.replicate i ' ' ++ c :: rest) m =
      (readLines true chomp n since (.line i (isBlank c)) rest
        ((m.past (List.replicate i ' ')).next c)).map
          fun r => (margin.joined true (isBlank c) ++ c :: r.1, r.2) := by
  have hwide : ∀ j ∈ indent, m.column + i ≤ j := by
    rintro j hj
    rcases hindent with rfl | ⟨rfl, -⟩
    · rw [Option.mem_some_iff] at hj
      omega
    · cases hj
  obtain ⟨widest', hle, hread⟩ :=
    @readLines_spaces n chomp since m margin indent i hwide widest (c :: rest)
  rw [hread]
  refine readLines_first hc hbreak ?_ ?_ rest
  · rw [Mark.column_past, List.length_replicate, hcolumn, Nat.zero_add]
  · exact hindent.imp_right fun ⟨hnone, hspace, hwidest, hlt⟩ => ⟨hnone, hspace, by omega, hlt⟩

/-- A line break, in a line or in the margin. -/
theorem Reached.lineBreak (h : Reached i fresh before pending state) (hc : isPlainlyWritten c)
    (hbreak : isBreak c) (m : Mark) :
    ∃ state', Reached i true (before ++ [c]) (pending ++ [c]) state' ∧
      ∀ (chomp : Chomp) (n : Nat) (since : Mark) (rest : List Char),
        readLines true chomp n since state (c :: rest) m =
          readLines true chomp n since state' rest (m.newline c.utf8Size) := by
  have hreturn := ne_return_of_isPlainlyWritten hc
  have htext := breakText_of_isPlainlyWritten hc hbreak
  have hne : ∀ x, isBreak x = false → (c == x) = false := by
    intro x hx
    rw [beq_eq_false_iff_ne]
    rintro rfl
    rw [hx] at hbreak
    cases hbreak
  cases h with
  | @line s x blank hx =>
    refine ⟨.margin ⟨some c, [], blank⟩ (some i) 0, ?_, fun chomp n since rest => ?_⟩
    · rw [List.append_assoc]
      exact .margin hx (by simpa using hbreak)
    · rw [readLines]
      simp [hreturn, hbreak, htext]
  | @top later widest hlater =>
    refine ⟨.margin ⟨none, before ++ [c], false⟩ (some i) (max widest m.column), ?_,
      fun chomp n since rest => ?_⟩
    · exact .top (by simpa [or_imp, forall_and] using ⟨hlater, hbreak⟩)
    · rw [readLines]
      simp [hreturn, hbreak, htext, hne ' ' rfl, hne '\t' rfl]
  | @margin s later x first blank widest hx hlater =>
    refine ⟨.margin ⟨some first, later ++ [c], blank⟩ (some i) (max widest m.column), ?_,
      fun chomp n since rest => ?_⟩
    · rw [List.append_assoc]
      refine .margin hx ?_
      show ∀ d ∈ (first :: later) ++ [c], isBreak d
      exact List.forall_mem_append.mpr ⟨hlater, List.forall_mem_singleton.mpr hbreak⟩
    · rw [readLines]
      simp [hreturn, hbreak, htext, hne ' ' rfl, hne '\t' rfl]

/-- A character of a line, with the indentation in front of it if a line begins. -/
theorem Reached.text (h : Reached i fresh before pending state) (hc : isPlainlyWritten c)
    (hbreak : isBreak c = false) (hcolumn : fresh = true → m.column = 0) :
    ∃ (state' : BlockState) (m' : Mark), Reached i false (before ++ [c]) [] state' ∧
      m'.line = m.line ∧ ∀ (chomp : Chomp) (n : Nat) (since : Mark) (rest : List Char),
        readLines true chomp n since state
            ((if fresh then List.replicate i ' ' else []) ++ c :: rest) m =
          (readLines true chomp n since state' rest m').map
            fun r => (pending ++ c :: r.1, r.2) := by
  have hreturn := ne_return_of_isPlainlyWritten hc
  cases h with
  | @line s x blank hx =>
    refine ⟨.line i blank, m.next c, .line hbreak, rfl, fun chomp n since rest => ?_⟩
    rw [if_neg (by decide), List.nil_append, readLines]
    simp [hreturn, hbreak]
  | top hlater =>
    refine ⟨.line i (isBlank c), (m.past (List.replicate i ' ')).next c, .line hbreak,
      Mark.line_past _ _, fun chomp n since rest => ?_⟩
    exact readLines_indented hc hbreak (hcolumn rfl) (.inl rfl) rest
  | margin hx hlater =>
    refine ⟨.line i (isBlank c), (m.past (List.replicate i ' ')).next c, .line hbreak,
      Mark.line_past _ _, fun chomp n since rest => ?_⟩
    exact readLines_indented hc hbreak (hcolumn rfl) (.inl rfl) rest

end Steps

/-! ## The whole block -/

theorem ink_spaces (k : Nat) (text : List Char) : ink (List.replicate k ' ' ++ text) = ink text := by
  induction k with
  | zero => rfl
  | succ k ih => rw [List.replicate_succ, List.cons_append, ink_space, ih]

theorem skipToToken_spaces (k : Nat) (allowed : Bool) (text : List Char) (m : Mark) :
    skipToToken false false allowed (List.replicate k ' ' ++ text) m =
      skipToToken false false allowed text (m.past (List.replicate k ' ')) := by
  induction k generalizing m with
  | zero => rfl
  | succ k ih => exact ih (m.next ' ')

/-- A line that is indented less than the block is left to the next token. -/
theorem readLines_adjacent {n : Nat} {text : List Char} (htext : Adjacent n text) (chomp : Chomp)
    (margin : Margin) (widest : Nat) {since m : Mark} (hcolumn : m.column = 0)
    (hline : since.line < m.line) :
    ∃ c, readLines true chomp n since (.margin margin (some (n + 2)) widest) text m =
        .ok (margin.ending chomp, c) ∧ Behind since true c text := by
  cases htext with
  | nil => exact ⟨⟨[], m⟩, rfl, rfl, m, hcolumn, hline, rfl⟩
  | @line k rest hk hrest =>
    obtain ⟨c, rest, rfl, hblank, hbreak⟩ := exists_cons_of_beginsToken hrest
    have hwide : ∀ i ∈ some (n + 2), m.column + k ≤ i := by
      intro i hi
      rw [Option.mem_some_iff] at hi
      omega
    obtain ⟨widest', -, hread⟩ :=
      @readLines_spaces n chomp since m margin (some (n + 2)) k hwide widest (c :: rest)
    refine ⟨⟨c :: rest, m.past (List.replicate k ' ')⟩, ?_, (ink_spaces k _).symm, m, hcolumn, hline,
      (skipToToken_spaces k true _ m).symm⟩
    have hshort : (m.past (List.replicate k ' ')).column ≠ n + 2 := by
      rw [Mark.column_past, List.length_replicate]
      omega
    have hreturn := beq_return_eq_false hbreak
    rw [isBlank, Bool.or_eq_false_iff] at hblank
    rw [hread, readLines]
    simp [hreturn, hbreak, hblank, hshort]

/-- **The lines of a literal block are read as the text.** -/
theorem readLines_literal {n : Nat} {text : List Char} (htext : Adjacent n text) (since : Mark)
    {s : List Char} (hwritten : ∀ c ∈ s, isPlainlyWritten c) {fresh : Bool}
    {before pending : List Char} {state : BlockState} (h : Reached (n + 2) fresh before pending state)
    {m : Mark} (hcolumn : fresh = true → m.column = 0) (hline : since.line < m.line) :
    ∃ c, readLines true (literalChomp (before ++ s)) n since state
        (literalLines (n + 2) fresh s ++ (lastBreak fresh s ++ text)) m = .ok (pending ++ s, c) ∧
      Behind since true c text := by
  induction s generalizing fresh before pending state m with
  | nil =>
    rw [List.append_nil, List.append_nil]
    cases fresh with
    | true =>
      cases state with
      | line indent blank => cases h
      | margin margin indent widest =>
        obtain ⟨rfl, hending⟩ := h.ending
        rw [← hending]
        exact readLines_adjacent htext _ margin widest (hcolumn rfl) hline
    | false =>
      -- the line ends with the text, and this break is dropped
      have hfeed : isBreak '\n' = true := rfl
      cases h with
      | @line s x blank hx =>
        obtain ⟨c, hread, hbehind⟩ := readLines_adjacent (m := m.newline 1) htext
          (literalChomp (s ++ [x])) ⟨some '\n', [], blank⟩ 0 rfl (Nat.lt_succ_of_lt hline)
        refine ⟨c, ?_, hbehind⟩
        rw [literalChomp_strip hx] at hread ⊢
        exact hread
  | cons c s ih =>
    have hc := hwritten c List.mem_cons_self
    have hs : ∀ d ∈ s, isPlainlyWritten d := fun d hd => hwritten d (List.mem_cons_of_mem _ hd)
    rw [lastBreak_cons, literalLines, List.append_cons before c s]
    by_cases hbreak : isBreak c = true
    · obtain ⟨state', hreached, hread⟩ := h.lineBreak hc hbreak m
      obtain ⟨cursor, hlater, hbehind⟩ := ih hs hreached (m := m.newline c.utf8Size) (fun _ => rfl)
        (Nat.lt_succ_of_lt hline)
      refine ⟨cursor, ?_, hbehind⟩
      rw [if_pos hbreak, hbreak, List.cons_append, hread, hlater, ← List.append_cons]
    · rw [Bool.not_eq_true] at hbreak
      obtain ⟨state', m', hreached, hline', hread⟩ := h.text hc hbreak hcolumn
      obtain ⟨cursor, hlater, hbehind⟩ := ih hs hreached (m := m') nofun (by rwa [hline'])
      refine ⟨cursor, ?_, hbehind⟩
      rw [hbreak, if_neg (by decide), List.append_assoc (ite _ _ _), List.cons_append, hread, hlater]
      rfl

/-- Where the first line shows the indentation, the header need not give it. -/
theorem readLines_hint {n : Nat} {s : List Char} (hne : s ≠ [])
    (hwritten : ∀ c ∈ s, isPlainlyWritten c) (chomp : Chomp) {since m : Mark}
    (hcolumn : m.column = 0) (rest : List Char) :
    readLines true chomp n since
        (.margin .top (if literalHint s = [] then none else some (n + 2)) 0)
        (literalLines (n + 2) true s ++ rest) m =
      readLines true chomp n since (.margin .top (some (n + 2)) 0)
        (literalLines (n + 2) true s ++ rest) m := by
  obtain ⟨c, s, rfl⟩ := List.exists_cons_of_ne_nil hne
  by_cases hhint : (isSpace c || isBreak c) = true
  · have hgiven : literalHint (c :: s) ≠ [] := by
      rw [literalHint, List.head?_cons, Option.any_some, if_pos hhint]
      exact List.cons_ne_nil _ _
    rw [if_neg hgiven]
  · have hnone : literalHint (c :: s) = [] := by
      rw [literalHint, List.head?_cons, Option.any_some, if_neg hhint]
    have hc := hwritten c List.mem_cons_self
    rw [Bool.not_eq_true, Bool.or_eq_false_iff] at hhint
    have hspace : c ≠ ' ' := by simpa [isSpace] using hhint.1
    rw [if_pos hnone, literalLines, hhint.2, if_neg (by decide), if_pos rfl, List.append_assoc,
      List.cons_append, readLines_indented hc hhint.2 hcolumn (.inl rfl),
      readLines_indented hc hhint.2 hcolumn (.inr ⟨rfl, hspace, Nat.zero_le _, by omega⟩)]

/-- **The block is read as the text.** -/
theorem readBlock_literal {n : Nat} {s text : List Char} (hne : s ≠ [])
    (hwritten : ∀ c ∈ s, isPlainlyWritten c) (htext : Adjacent n text) {since m : Mark}
    (hline : since.line ≤ m.line) :
    ∃ c, readBlock true n since ⟨literalHint s ++ ((literalChomp s).sign
          ++ '\n' :: (literalLines (n + 2) true s ++ (lastBreak true s ++ text))), m⟩ = .ok (s, c) ∧
      Behind since true c text := by
  obtain ⟨m', hcolumn, hline', hheader⟩ := readBlockHeader_literal n since m
    (decide (literalHint s ≠ [])) (literalChomp s)
    (literalLines (n + 2) true s ++ (lastBreak true s ++ text))
  have hhint : (if decide (literalHint s ≠ []) then ['2'] else []) = literalHint s := by
    rw [literalHint]
    split <;> rfl
  have hindent : (if decide (literalHint s ≠ []) then some (n + 2) else none) =
      if literalHint s = [] then none else some (n + 2) := by
    by_cases h : literalHint s = [] <;> simp [h]
  rw [hhint, hindent] at hheader
  obtain ⟨c, hread, hbehind⟩ := readLines_literal (m := m') htext since hwritten
    (@Reached.top (n + 2) [] 0 nofun) (fun _ => hcolumn) (by omega)
  refine ⟨c, ?_, hbehind⟩
  rw [readBlock, hheader]
  exact (readLines_hint hne hwritten _ hcolumn _).trans hread

namespace Scan

/-- A bar begins a block. -/
theorem fetchHere_bar {s : Scan} {text : List Char} (hs : s.cursor.rest = '|' :: text)
    (hflow : s.inFlow = false) : s.fetchHere = s.fetchBlock true := by
  have hdash : tripleNext '-' ('|' :: text) = false := tripleNext_of_ne (by decide) text
  have hdot : tripleNext '.' ('|' :: text) = false := tripleNext_of_ne (by decide) text
  rw [fetchHere, hs]
  simp [hdash, hdot, hflow]

end Scan

/-- What a text that can stand in a literal block is made of. -/
theorem literalAllowed_iff {s : List Char} : literalAllowed s = true ↔
    ((∀ c ∈ s, isPlainlyWritten c) ∧ hasPair isSpace isBreak s = false) ∧
      s.getLast?.any isSpace = false := by
  simp only [literalAllowed, needsEscapes, Bool.and_eq_true, Bool.not_eq_true',
    Bool.or_eq_false_iff, Bool.not_eq_false', List.all_eq_true]

/-- **A literal block** is a scalar, if the line below it is indented less than it. -/
theorem isScalar_literal {b : Blocks} {column n : Nat} {s text : List Char} (hb : b.indent = n)
    (hliteral : literalAllowed s) (hne : s ≠ []) (htext : Adjacent n text) :
    IsScalar b column (literalBlock (n + 2) s) s .literal text := by
  rintro m held given allowed -
  obtain ⟨⟨hwritten, -⟩, -⟩ := literalAllowed_iff.mp hliteral
  obtain ⟨c, hread, hbehind⟩ :=
    readBlock_literal (m := m.next '|') hne hwritten htext (Nat.le_refl m.line)
  have hsource : literalBlock (n + 2) s ++ text = '|' :: (literalHint s ++ ((literalChomp s).sign
      ++ '\n' :: (literalLines (n + 2) true s ++ (lastBreak true s ++ text)))) := by
    rw [literalBlock_eq _ hne, literalHeader_eq]
    simp only [List.cons_append, List.append_assoc]
  rw [hsource, fetchHere_bar rfl rfl]
  refine ⟨c, true, none, ?_, nofun, hbehind⟩
  show (do
    let r ← readBlock true b.indent m ⟨_, m.next '|'⟩
    pure (push { idle _ held given allowed b with keyAllowed := true, cursor := r.2 }
      ⟨.scalar r.1 .literal, m, r.2.mark⟩) : Except Fault Scan) = _
  rw [hb, hread]
  rfl

end DropRules.Yaml
