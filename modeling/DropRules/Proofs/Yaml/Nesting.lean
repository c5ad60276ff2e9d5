import DropRules.Proofs.Yaml.Lines

/-!
# Collections in one another

In a document in lines, a collection begins where a line stands further to the right than those
before it, and it ends where one stands further to the left.  `Line.Gives` speaks of lines, of the
collections that are open in front of them and of their tokens, and follows these steps one at a
time.  A line in the column of the innermost collection goes on with it (`Gives.item`,
`Gives.field`, `Gives.first`), a line to the right of it begins another one (`Gives.enter`), and a
collection for which no line is left ends (`Gives.close`).
-/

namespace DropRules.Yaml

namespace Blocks

variable {m n : Int} {outer : List Int}

/-! ## Columns and open collections -/

theorem ends_inner {d : Int} (h : d < n) :
    (⟨n, m :: outer⟩ : Blocks).ends d = .blockEnd :: (⟨m, outer⟩ : Blocks).ends d := by
  rw [ends, Scan.closeTo, if_pos h]
  rfl

theorem close_inner {d : Int} (h : d < n) :
    (⟨n, m :: outer⟩ : Blocks).close d = (⟨m, outer⟩ : Blocks).close d := by
  rw [close, Scan.closeTo, if_pos h]
  rfl

theorem Settled.ends_eq {b : Blocks} {d : Int} (h : b.Settled d) : b.ends d = [] := by
  rw [ends, h.closeTo_eq]
  rfl

/-- What is closed in two steps is closed in one. -/
theorem ends_append_ends {c d : Int} (h : d ≤ c) (b : Blocks) :
    b.ends c ++ (b.close c).ends d = b.ends d := by
  obtain ⟨indent, outer⟩ := b
  induction outer generalizing indent with
  | nil => rfl
  | cons i outer ih =>
    by_cases hlt : c < indent
    · rw [ends_inner hlt, close_inner hlt, ends_inner (Int.lt_of_le_of_lt h hlt), List.cons_append,
        ih]
    · have hsettled : (⟨indent, i :: outer⟩ : Blocks).Settled c := .inr (Int.not_lt.mp hlt)
      rw [hsettled.ends_eq, hsettled.close_eq, List.nil_append]

theorem settled_self (n : Nat) (outer : List Int) : (⟨n, outer⟩ : Blocks).Settled n :=
  .inr (Int.le_refl _)

theorem move_self (n : Nat) (outer : List Int) :
    (⟨n, outer⟩ : Blocks).move n = ⟨n, outer⟩ := by
  rw [move, (settled_self n outer).close_eq, enter, if_neg (Int.lt_irrefl _)]

theorem move_enter {n : Nat} (h : m < n) :
    (⟨m, outer⟩ : Blocks).move n = ⟨n, m :: outer⟩ := by
  have hsettled : (⟨m, outer⟩ : Blocks).Settled n := .inr (Int.le_of_lt h)
  rw [move, hsettled.close_eq, enter, if_pos h]

theorem move_inner {column : Nat} (h : column < n) :
    (⟨n, m :: outer⟩ : Blocks).move column = (⟨m, outer⟩ : Blocks).move column := by
  rw [move, move, close_inner h]

end Blocks

namespace Line

variable {m : Int} {n : Nat} {outer : List Int}

theorem dashKinds_self (n : Nat) (outer : List Int) : dashKinds ⟨n, outer⟩ n = [.blockEntry] := by
  have hsettled := Blocks.settled_self n outer
  rw [dashKinds, hsettled.ends_eq, hsettled.close_eq, Blocks.starts, if_neg (Int.lt_irrefl _)]
  rfl

theorem dashKinds_enter (h : m < n) :
    dashKinds ⟨m, outer⟩ n = .blockSequenceStart :: dashKinds ⟨n, m :: outer⟩ n := by
  have hsettled : (⟨m, outer⟩ : Blocks).Settled n := .inr (Int.le_of_lt h)
  rw [dashKinds_self, dashKinds, hsettled.ends_eq, hsettled.close_eq, Blocks.starts, if_pos h]
  rfl

theorem fieldKinds_self (n : Nat) (outer : List Int) (key : List Char) (payload : Payload) :
    fieldKinds ⟨n, outer⟩ n key payload =
      .key :: .scalar key .plain :: .value :: payload.kinds := by
  have hsettled := Blocks.settled_self n outer
  rw [fieldKinds, hsettled.ends_eq, hsettled.close_eq, Blocks.starts, if_neg (Int.lt_irrefl _)]
  rfl

theorem fieldKinds_enter (h : m < n) (key : List Char) (payload : Payload) :
    fieldKinds ⟨m, outer⟩ n key payload =
      .blockMappingStart :: fieldKinds ⟨n, m :: outer⟩ n key payload := by
  have hsettled : (⟨m, outer⟩ : Blocks).Settled n := .inr (Int.le_of_lt h)
  rw [fieldKinds_self, fieldKinds, hsettled.ends_eq, hsettled.close_eq, Blocks.starts, if_pos h]
  rfl

/-! ## Lines and their tokens -/

/-- The lines fit together behind the open collections, and these are their tokens. -/
structure Gives (b : Blocks) (lines : List Line) (kinds : List TokenKind) : Prop where
  fit : Fit b lines
  kinds_eq : Line.kinds b lines = kinds

/-- A payload can stand behind a key in column `n`, in front of these lines. -/
def PayloadFit (n : Nat) (lines : List Line) : Payload → Prop
  | .nothing | .brackets => True
  | .word w => isPlainWord w ∧ Shallower n lines

/-- The column in which a line begins, if it has any tokens. -/
def column? : Line → Option Nat
  | blank | remark _ => none
  | item column _ _ | field column _ _ | first column _ _ => some column

/-- The sign of a collection that a line begins. -/
def opening : Line → TokenKind
  | field _ _ _ => .blockMappingStart
  | _ => .blockSequenceStart

namespace Gives

variable {lines : List Line} {kinds : List TokenKind} {b : Blocks} {key w : List Char}
  {payload : Payload} {note : Option (List Char)}

/-- The end of a document. -/
theorem nil : Gives ⟨-1, []⟩ [] [.streamEnd] :=
  ⟨trivial, rfl⟩

theorem blank (h : Gives b lines kinds) : Gives b (.blank :: lines) kinds :=
  ⟨h.fit, h.kinds_eq⟩

theorem remark {words : List Char} (hwords : Printable words) (h : Gives b lines kinds) :
    Gives b (.remark words :: lines) kinds :=
  ⟨⟨hwords, h.fit⟩, h.kinds_eq⟩

/-- One more item of a sequence. -/
theorem item (hw : isPlainWord w) (hnote : ∀ words ∈ note, Printable words)
    (hnext : Shallower n lines) (h : Gives ⟨n, outer⟩ lines kinds) :
    Gives ⟨n, outer⟩ (.item n w note :: lines) (.blockEntry :: .scalar w .plain :: kinds) where
  fit := by
    rw [Fit, Blocks.move_self]
    exact ⟨hw, hnote, Int.le_refl _, hnext, h.fit⟩
  kinds_eq := by
    rw [Line.kinds, dashKinds_self, Blocks.move_self, h.kinds_eq]
    rfl

/-- One more field of a mapping. -/
theorem field (hkey : isPlainWord key) (hpayload : PayloadFit n lines payload)
    (h : Gives ⟨n, outer⟩ lines kinds) :
    Gives ⟨n, outer⟩ (.field n key payload :: lines)
      (.key :: .scalar key .plain :: .value :: (payload.kinds ++ kinds)) where
  fit := by
    rw [Fit, Blocks.move_self]
    refine ⟨?_, h.fit⟩
    cases payload with
    | nothing => exact ⟨hkey, Int.le_refl _⟩
    | word w => exact ⟨hkey, Int.le_refl _, hpayload⟩
    | brackets => exact ⟨hkey, Int.le_refl _⟩
  kinds_eq := by
    rw [Line.kinds, fieldKinds_self, Blocks.move_self, h.kinds_eq]
    rfl

/-- One more item of a sequence, which is a mapping; the mapping goes on behind its first field. -/
theorem first (h : Gives ⟨n, outer⟩ (.field (n + 2) key payload :: lines) kinds) :
    Gives ⟨n, outer⟩ (.first n key payload :: lines) (.blockEntry :: kinds) where
  fit := by
    rw [Fit, Blocks.move_self]
    exact h.fit
  kinds_eq := by
    rw [Line.kinds, dashKinds_self, Blocks.move_self]
    exact congrArg (TokenKind.blockEntry :: ·) h.kinds_eq

/-! ## Beginnings and ends -/

/-- **A collection begins** where a line stands further to the right than the others. -/
theorem enter {line : Line} (hlt : m < n) (hline : line.column? = some n)
    (h : Gives ⟨n, m :: outer⟩ (line :: lines) kinds) :
    Gives ⟨m, outer⟩ (line :: lines) (line.opening :: kinds) := by
  obtain ⟨hfit, rfl⟩ := h
  cases line with
  | blank => cases hline
  | remark words => cases hline
  | item column w note =>
    obtain rfl : column = n := Option.some.inj hline
    rw [Fit, Blocks.move_self] at hfit
    refine ⟨by rwa [Fit, Blocks.move_enter hlt], ?_⟩
    rw [Line.kinds, Line.kinds, dashKinds_enter hlt, Blocks.move_enter hlt, Blocks.move_self]
    rfl
  | field column key payload =>
    obtain rfl : column = n := Option.some.inj hline
    rw [Fit, Blocks.move_self] at hfit
    refine ⟨by rwa [Fit, Blocks.move_enter hlt], ?_⟩
    rw [Line.kinds, Line.kinds, fieldKinds_enter hlt, Blocks.move_enter hlt, Blocks.move_self]
    rfl
  | first column key payload =>
    obtain rfl : column = n := Option.some.inj hline
    rw [Fit, Blocks.move_self] at hfit
    refine ⟨by rwa [Fit, Blocks.move_enter hlt], ?_⟩
    rw [Line.kinds, Line.kinds, dashKinds_enter hlt, Blocks.move_enter hlt, Blocks.move_self]
    rfl

/-- **A collection ends** where no line stands as far to the right as it. -/
theorem close (hlt : m < n) (hlines : Shallower m lines) (h : Gives ⟨m, outer⟩ lines kinds) :
    Gives ⟨n, m :: outer⟩ lines (.blockEnd :: kinds) := by
  induction lines generalizing kinds with
  | nil =>
    obtain ⟨-, rfl⟩ := h
    refine ⟨trivial, ?_⟩
    rw [Line.kinds, Line.kinds, Blocks.ends_append_ends (by decide),
      Blocks.ends_append_ends (by decide), Blocks.ends_inner (by omega)]
    rfl
  | cons line lines ih =>
    cases line with
    | blank =>
      obtain ⟨hfit, hkinds⟩ := ih hlines ⟨h.fit, h.kinds_eq⟩
      exact ⟨hfit, hkinds⟩
    | remark words =>
      obtain ⟨hfit, hkinds⟩ := ih hlines ⟨h.fit.2, h.kinds_eq⟩
      exact ⟨⟨h.fit.1, hfit⟩, hkinds⟩
    | item column w note =>
      have hcolumn : (column : Int) < n := Int.lt_of_le_of_lt hlines hlt
      obtain ⟨hfit, rfl⟩ := h
      rw [Fit] at hfit
      refine ⟨by rwa [Fit, Blocks.move_inner hcolumn], ?_⟩
      rw [Line.kinds, Line.kinds, dashKinds, dashKinds, Blocks.ends_inner hcolumn,
        Blocks.close_inner hcolumn, Blocks.move_inner hcolumn]
      rfl
    | field column key payload =>
      have hcolumn : (column : Int) < n := Int.lt_of_le_of_lt hlines.1 hlt
      obtain ⟨hfit, rfl⟩ := h
      rw [Fit] at hfit
      refine ⟨by rwa [Fit, Blocks.move_inner hcolumn], ?_⟩
      rw [Line.kinds, Line.kinds, fieldKinds, fieldKinds, Blocks.ends_inner hcolumn,
        Blocks.close_inner hcolumn, Blocks.move_inner hcolumn]
      rfl
    | first column key payload =>
      have hcolumn : (column : Int) < n := Int.lt_of_le_of_lt hlines hlt
      obtain ⟨hfit, rfl⟩ := h
      rw [Fit] at hfit
      refine ⟨by rwa [Fit, Blocks.move_inner hcolumn], ?_⟩
      rw [Line.kinds, Line.kinds, dashKinds, dashKinds, Blocks.ends_inner hcolumn,
        Blocks.close_inner hcolumn, Blocks.move_inner hcolumn]
      rfl

end Gives

end Line

end DropRules.Yaml
