import DropRules.Proofs.Yaml.Literal
import DropRules.Proofs.Yaml.Quotes

/-!
# Texts

Whatever a text consists of, there is a way to write it as a scalar, and `writeText` chooses one
(`textStyle`).  In each of them the scanner finds the text again (`Cuts.text`), and the characters
that are written are such as a document may hold (`isAllowed_of_mem_writeText`), whatever the
characters of the text are.
-/

namespace DropRules.Yaml

/-- The style in which a text is written. -/
def textStyle (s : List Char) : ScalarStyle :=
  if '\n' ∈ s then if literalAllowed s then .literal else .doubleQuoted
  else if readsAsText s && plainAllowed s then .plain
  else if singleAllowed s then .singleQuoted
  else .doubleQuoted

/-- Only a text that reads as a text stands without quotes; the empty text does not. -/
theorem readsAsText_of_textStyle {s : List Char} (h : textStyle s = .plain) : readsAsText s := by
  rw [textStyle] at h
  split_ifs at h with hfeed hliteral hplain hsingle
  rw [Bool.and_eq_true] at hplain
  exact hplain.1

theorem ne_nil_of_readsAsText {s : List Char} (h : readsAsText s) : s ≠ [] := by
  rintro rfl
  cases h

/-- **A text is one token** at the end of its line, whatever stands in it. -/
theorem Cuts.text {n column : Nat} {outer : List Int} {allowed : Bool} {kinds : List TokenKind}
    {text : List Char} (s : List Char) (hcolumn : n < column) (htext : Adjacent n text)
    (h : Cuts text 0 true ⟨n, outer⟩ kinds) :
    Cuts (writeText (n + 2) s ++ text) column allowed ⟨n, outer⟩
      (.scalar s (textStyle s) :: kinds) := by
  have hb : (⟨n, outer⟩ : Blocks).indent < column := Int.ofNat_lt.mpr hcolumn
  rw [writeText, textStyle]
  split_ifs with hfeed hliteral hplain hsingle
  · have hne : s ≠ [] := List.ne_nil_of_mem hfeed
    exact .scalar (isScalar_literal rfl hliteral hne htext) rfl hb h
  · exact .scalar (isScalar_double s text) rfl hb h
  · rw [Bool.and_eq_true] at hplain
    have hne := ne_nil_of_readsAsText hplain.1
    exact .scalar (isScalar_plain hplain.2 hne hb (by omega) htext.shallow)
      (beginsToken_append (beginsToken_plain hplain.2 hne) _) hb h
  · exact .scalar (isScalar_single (Nat.succ_pos _) hsingle hfeed) rfl hb h
  · exact .scalar (isScalar_double s text) rfl hb h

/-! ## The characters that are written -/

section Allowed

variable {s : List Char}

theorem isAllowed_of_mem_literalLines (n : Nat) (hs : ∀ c ∈ s, isPlainlyWritten c) (fresh : Bool) :
    ∀ c ∈ literalLines n fresh s, isAllowed c := by
  induction s generalizing fresh with
  | nil => nofun
  | cons c s ih =>
    have hc := isAllowed_of_isPlainlyWritten (hs c List.mem_cons_self)
    have hrest := ih fun d hd => hs d (List.mem_cons_of_mem _ hd)
    rw [literalLines]
    split_ifs
    · exact List.forall_mem_cons.mpr ⟨hc, hrest true⟩
    · exact List.forall_mem_append.mpr
        ⟨isAllowed_of_mem_spaces n, List.forall_mem_cons.mpr ⟨hc, hrest false⟩⟩
    · exact List.forall_mem_cons.mpr ⟨hc, hrest false⟩

theorem isAllowed_of_mem_literalBlock (n : Nat) (hs : ∀ c ∈ s, isPlainlyWritten c) :
    ∀ c ∈ literalBlock n s, isAllowed c := by
  have hheader : ∀ c ∈ literalHeader s, isAllowed c := by
    rw [literalHeader_eq, List.forall_mem_cons, List.forall_mem_append]
    refine ⟨rfl, ?_, ?_⟩
    · rw [literalHint]
      split_ifs <;> exact List.all_eq_true.mp (by decide)
    · cases literalChomp s <;> exact List.all_eq_true.mp (by decide)
  rw [literalBlock, List.forall_mem_append, List.forall_mem_append, List.forall_mem_cons]
  refine ⟨⟨hheader, rfl, isAllowed_of_mem_literalLines n hs true⟩, ?_⟩
  split_ifs <;> exact List.all_eq_true.mp (by decide)

theorem isAllowed_of_mem_singleQuoted (n : Nat) (hs : ∀ c ∈ s, isPlainlyWritten c) :
    ∀ c ∈ singleQuoted n s, isAllowed c := by
  have hmargin : ∀ broken : Bool,
      ∀ c ∈ if broken then List.replicate n ' ' else [], isAllowed c := by
    intro broken
    cases broken with
    | false => nofun
    | true => exact isAllowed_of_mem_spaces n
  have htail : ∀ broken : Bool, ∀ c ∈ singleQuotedTail n broken s, isAllowed c := by
    induction s with
    | nil => exact fun broken => List.forall_mem_append.mpr ⟨hmargin broken, by simp; rfl⟩
    | cons c s ih =>
      intro broken
      have hc := isAllowed_of_isPlainlyWritten (hs c List.mem_cons_self)
      have hrest := ih fun d hd => hs d (List.mem_cons_of_mem _ hd)
      rw [singleQuotedTail]
      by_cases hbreak : isBreak c = true
      · rw [if_pos hbreak]
        exact List.forall_mem_cons.mpr ⟨hc, hrest true⟩
      · rw [if_neg hbreak, List.forall_mem_append, List.forall_mem_append]
        refine ⟨⟨hmargin broken, ?_⟩, hrest false⟩
        split_ifs
        · exact List.all_eq_true.mp (by decide)
        · exact List.forall_mem_singleton.mpr hc
  exact List.forall_mem_cons.mpr ⟨rfl, htail false⟩

theorem isAllowed_of_mem_hexField (width n : Nat) : ∀ c ∈ hexField width n, isAllowed c := by
  have hdigit : ∀ d < 16, isAllowed (capitalHex d) := by decide
  induction width generalizing n with
  | zero => nofun
  | succ width ih =>
    exact List.forall_mem_append.mpr
      ⟨ih _, List.forall_mem_singleton.mpr (hdigit _ (Nat.mod_lt _ (by decide)))⟩

theorem isAllowed_of_escapeOf? {e c : Char} (h : escapeOf? e = some c) : isAllowed e := by
  unfold escapeOf? at h
  split at h <;> first | rfl | cases h

theorem isAllowed_of_codeLength? {e : Char} {n : Nat} (h : codeLength? e = some n) :
    isAllowed e := by
  unfold codeLength? at h
  split at h <;> first | rfl | cases h

theorem isAllowed_of_mem_doubleQuoted (s : List Char) : ∀ c ∈ doubleQuoted s, isAllowed c := by
  have hescape : ∀ {c : Char} {source : List Char}, IsEscape c source →
      ∀ d ∈ source, isAllowed d := by
    intro c source h
    cases h with
    | letter hescape =>
      rw [List.forall_mem_cons, List.forall_mem_singleton]
      exact ⟨rfl, isAllowed_of_escapeOf? hescape⟩
    | codePoint hescape hlength =>
      rw [List.forall_mem_cons, List.forall_mem_cons]
      exact ⟨rfl, isAllowed_of_codeLength? hlength, isAllowed_of_mem_hexField _ _⟩
  have hchar : ∀ c : Char, ∀ d ∈ doubleQuotedChar c, isAllowed d := by
    intro c
    rw [doubleQuotedChar]
    split_ifs with h
    · exact hescape (isEscape_escape c)
    · simp only [Bool.or_eq_true, Bool.not_eq_true', not_or, Bool.not_eq_false] at h
      exact List.forall_mem_singleton.mpr (isAllowed_of_isPlainlyWritten h.1.1.1)
  rw [doubleQuoted, List.forall_mem_append, List.forall_mem_cons, List.forall_mem_singleton]
  refine ⟨⟨rfl, fun d hd => ?_⟩, rfl⟩
  obtain ⟨c, -, hc⟩ := List.mem_flatMap.mp hd
  exact hchar c d hc

/-- **A document may hold what is written for a text.** -/
theorem isAllowed_of_mem_writeText (n : Nat) (s : List Char) : ∀ c ∈ writeText n s, isAllowed c := by
  have hline : ∀ {t : List Char}, (∀ c ∈ t, isAllowed c) → ∀ c ∈ t ++ ['\n'], isAllowed c :=
    fun ht => List.forall_mem_append.mpr ⟨ht, List.all_eq_true.mp (by decide)⟩
  rw [writeText]
  split_ifs with hfeed hliteral hplain hsingle
  · exact isAllowed_of_mem_literalBlock n (literalAllowed_iff.mp hliteral).1.1
  · exact hline (isAllowed_of_mem_doubleQuoted s)
  · rw [Bool.and_eq_true] at hplain
    exact hline fun c hc =>
      isAllowed_of_isPlainlyWritten ((plainAllowed_iff.mp hplain.2).1.1 c hc)
  · exact hline (isAllowed_of_mem_singleQuoted n (singleAllowed_iff.mp hsingle).1.1)
  · exact hline (isAllowed_of_mem_doubleQuoted s)

end Allowed

end DropRules.Yaml
