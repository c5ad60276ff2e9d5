import DropRules.Proofs.Yaml.Words
import DropRules.Yaml.Atom

/-!
# What words mean

Two kinds of words are written into documents: integers and names.  An integer in decimal notation
means that integer (`Atom.ofPlain_integer`), since it has no leading zero, and a name means itself
(`Atom.ofPlain_name`), since nothing that begins with a letter is a number.  The few words that
stand for a null or for a truth value are no names (`isName`).

Both are plain words, so a scanner takes them as they stand (`isPlainWord_integer`,
`isPlainWord_name`).
-/

namespace DropRules.Yaml

/-- A word that begins with a letter, and stands neither for a null nor for a truth value. -/
def isName : List Char → Bool
  | [] => false
  | c :: rest =>
    c.isAlpha && rest.all isWord && rest.length < 1000 && !Atom.isNull (c :: rest)
      && (Atom.bool? (c :: rest)).isNone

namespace Atom

/-! ## Integers -/

theorem digit?_digitChar {d : Nat} (hd : d < 10) : digit? 10 d.digitChar = some d := by
  revert d
  decide

/-- One more digit at the end. -/
theorem digits?_append {s : List Char} {n d : Nat} (hs : digits? 10 s = some n) (hd : d < 10) :
    digits? 10 (s ++ [d.digitChar]) = some (n * 10 + d) := by
  rw [digits?] at hs
  by_cases hnil : s = []
  · rw [if_pos hnil] at hs
    cases hs
  · rw [if_neg hnil] at hs
    rw [digits?, if_neg (by simp), List.foldl_append, hs]
    show (do return (← some n) * 10 + (← digit? 10 d.digitChar)) = some (n * 10 + d)
    rw [digit?_digitChar hd]
    rfl

/-- The digits of a number have its value. -/
theorem digits?_toDigits (n : Nat) : digits? 10 (Nat.toDigits 10 n) = some n := by
  induction n using Nat.strongRecOn with
  | ind n ih =>
    by_cases hn : n < 10
    · rw [Nat.toDigits_of_lt_base hn]
      show (do return (← some 0) * 10 + (← digit? 10 n.digitChar)) = some n
      rw [digit?_digitChar hn]
      show some (0 * 10 + n) = some n
      rw [Nat.zero_mul, Nat.zero_add]
    · have hstep := digits?_append (ih (n / 10) (by omega)) (Nat.mod_lt n (by decide))
      rw [Nat.toDigits_of_base_le (by decide) (by omega), hstep]
      congr 1
      omega

/-- The digits of a positive number do not begin with a zero. -/
theorem toDigits_eq_cons (n : Nat) :
    ∃ c rest, Nat.toDigits 10 n = c :: rest ∧ c.isDigit ∧ (0 < n → c ≠ '0') := by
  induction n using Nat.strongRecOn with
  | ind n ih =>
    by_cases hn : n < 10
    · refine ⟨n.digitChar, [], Nat.toDigits_of_lt_base hn, ?_, ?_⟩
      · rw [Nat.isDigit_digitChar, decide_eq_true_eq]
        exact hn
      · rw [Ne, Nat.digitChar_eq_zero]
        omega
    · obtain ⟨c, rest, hdigits, hc, hzero⟩ := ih (n / 10) (by omega)
      refine ⟨c, rest ++ [(n % 10).digitChar], ?_, hc, fun _ => hzero (by omega)⟩
      rw [Nat.toDigits_of_base_le (by decide) (by omega), hdigits, List.cons_append]

theorem ne_of_isDigit {c x : Char} (hc : c.isDigit) (hx : x.isDigit = false) : c ≠ x := by
  rintro rfl
  rw [hx] at hc
  cases hc

theorem hasLeadingZero_cons {c : Char} (hplus : c ≠ '+') (hminus : c ≠ '-') (hzero : c ≠ '0')
    (rest : List Char) : hasLeadingZero (c :: rest) = false := by
  have hsigned : signed (c :: rest) = false := by simp [signed, hplus, hminus]
  rw [hasLeadingZero, hsigned]
  split
  · next hcons => exact absurd (List.cons.inj hcons).1 hzero
  · rfl

/-- Without a zero in front, a magnitude is decimal. -/
theorem magnitude?_cons {c : Char} (hplus : c ≠ '+') (hminus : c ≠ '-') (hzero : c ≠ '0')
    (rest : List Char) : magnitude? (c :: rest) = digits? 10 (c :: rest) := by
  rw [magnitude?]
  · rw [hasLeadingZero_cons hplus hminus hzero, if_neg (by decide)]
  · exact fun _ h => hzero (List.cons.inj h).1
  · exact fun _ h => hzero (List.cons.inj h).1
  · exact fun _ h => hzero (List.cons.inj h).1

/-- The digits of a number are its magnitude. -/
theorem magnitude?_toDigits (n : Nat) : magnitude? (Nat.toDigits 10 n) = some n := by
  by_cases hn : 0 < n
  · obtain ⟨c, rest, hdigits, hc, hzero⟩ := toDigits_eq_cons n
    have hvalue := digits?_toDigits n
    rw [hdigits] at hvalue ⊢
    rw [magnitude?_cons (ne_of_isDigit hc rfl) (ne_of_isDigit hc rfl) (hzero hn), hvalue]
  · obtain rfl : n = 0 := by omega
    rfl

/-- The decimal notation of an integer. -/
theorem toList_toString (i : Int) :
    (toString i).toList =
      if 0 ≤ i then Nat.toDigits 10 i.toNat else '-' :: Nat.toDigits 10 (-i).toNat := by
  rw [Int.toString_eq_repr, Int.repr_eq_if]
  by_cases hi : 0 ≤ i
  · rw [if_pos hi, if_pos hi, Nat.toList_repr]
  · rw [if_neg hi, if_neg hi, String.toList_append, Nat.toList_repr]
    rfl

/-- A word that begins with a digit or a minus sign is no word for a null or a truth value. -/
theorem ofPlain_of_integer? {s : List Char} {a : Atom} {c : Char} (hc : s.head? = some c)
    (hdigit : c.isDigit ∨ c = '-') (h : integer? s = some a) : ofPlain s = a := by
  obtain ⟨rest, rfl⟩ := List.head?_eq_some_iff.mp hc
  have hne : ∀ x, x.isDigit = false → x ≠ '-' → c ≠ x := by
    rintro x hx hminus rfl
    rcases hdigit with hd | rfl
    · rw [hx] at hd
      cases hd
    · exact hminus rfl
  have hnull : isNull (c :: rest) = false := by
    simp [isNull, hne 'n' rfl (by decide), hne 'N' rfl (by decide), hne '~' rfl (by decide)]
  have hbool : bool? (c :: rest) = none := by
    simp [bool?, hne 't' rfl (by decide), hne 'T' rfl (by decide), hne 'f' rfl (by decide),
      hne 'F' rfl (by decide)]
  rw [ofPlain, if_neg (by simp [hnull]), hbool, h]

/-- **The decimal notation of an integer of 64 bits means the integer.** -/
theorem ofPlain_integer {i : Int} (hlow : -(wordSize / 2 : Nat) ≤ i) (hhigh : i < wordSize) :
    ofPlain (toString i).toList = .integer i := by
  rw [toList_toString]
  by_cases hi : 0 ≤ i
  · rw [if_pos hi]
    obtain ⟨c, rest, hdigits, hc, -⟩ := toDigits_eq_cons i.toNat
    have hmagnitude := magnitude?_toDigits i.toNat
    rw [hdigits] at hmagnitude ⊢
    refine ofPlain_of_integer? rfl (.inl hc) ?_
    have hplus : (c :: rest).head? ≠ some '+' := by simp [ne_of_isDigit hc (x := '+') rfl]
    rw [integer?]
    · rw [if_neg hplus, hmagnitude, Option.bind_some, if_pos (by omega)]
      congr 2
      omega
    · exact fun _ h => ne_of_isDigit hc rfl (List.cons.inj h).1
  · rw [if_neg hi]
    refine ofPlain_of_integer? rfl (.inr rfl) ?_
    rw [integer?, magnitude?_toDigits, Option.bind_some, if_pos (by omega)]
    congr 2
    omega

/-! ## Names -/

/-- What is no decimal digit has no value as one. -/
theorem digit?_eq_none {c : Char} (hc : c.isDigit = false) : digit? 10 c = none := by
  rw [digit?, hc, if_neg (by decide)]
  by_cases hlower : 'a' ≤ c ∧ c ≤ 'f'
  · rw [if_pos hlower, Option.filter_some_eq_none]
    simp
  · by_cases hupper : 'A' ≤ c ∧ c ≤ 'F'
    · rw [if_neg hlower, if_pos hupper, Option.filter_some_eq_none]
      simp
    · rw [if_neg hlower, if_neg hupper]
      rfl

/-- A run that does not begin with a digit has no value. -/
theorem digits?_eq_none {c : Char} (hc : c.isDigit = false) (rest : List Char) :
    digits? 10 (c :: rest) = none := by
  have hnone : ∀ s : List Char,
      s.foldl (fun n c => do return (← n) * 10 + (← digit? 10 c)) (none : Option Nat) = none := by
    intro s
    induction s with
    | nil => rfl
    | cons d s ih => exact ih
  rw [digits?, if_neg (by simp), List.foldl_cons]
  show rest.foldl _ (do return (← some 0) * 10 + (← digit? 10 c)) = none
  rw [digit?_eq_none hc]
  exact hnone rest

theorem ne_of_isAlpha {c x : Char} (hc : c.isAlpha) (hx : x.isAlpha = false) : c ≠ x := by
  rintro rfl
  rw [hx] at hc
  cases hc

theorem isDigit_of_isAlpha {c : Char} (hc : c.isAlpha) : c.isDigit = false := by
  rw [Bool.eq_false_iff]
  intro hd
  have hletter := toNat_of_isAlpha hc
  have hhigh : c.toNat ≤ 57 := (Char.isDigit_iff_toNat.mp hd).2
  omega

/-- What begins with a letter is no integer. -/
theorem integer?_of_isAlpha {c : Char} (hc : c.isAlpha) (rest : List Char) :
    integer? (c :: rest) = none := by
  have hplus := ne_of_isAlpha hc (x := '+') rfl
  have hminus := ne_of_isAlpha hc (x := '-') rfl
  have hhead : (c :: rest).head? ≠ some '+' := by simp [hplus]
  rw [integer?]
  · rw [if_neg hhead, magnitude?_cons hplus hminus (ne_of_isAlpha hc rfl),
      digits?_eq_none (isDigit_of_isAlpha hc), Option.bind_none]
  · exact fun _ h => hminus (List.cons.inj h).1

/-- What begins with a letter is no real. -/
theorem real?_of_isAlpha {c : Char} (hc : c.isAlpha) (rest : List Char) :
    real? (c :: rest) = none := by
  have hpoint := ne_of_isAlpha hc (x := '.') rfl
  have hdigit := isDigit_of_isAlpha hc
  have hdecimal : decimal? (c :: rest) = none := by
    rw [decimal?, List.takeWhile_cons_of_neg (by simp [hdigit]),
      List.dropWhile_cons_of_neg (by simp [hdigit])]
    split
    next part tail hparts =>
      split at hparts
      · next hcons => exact absurd (List.cons.inj hcons).1 hpoint
      · obtain ⟨rfl, rfl⟩ := Prod.mk.inj hparts
        rfl
  rw [real?]
  · simp [hpoint, hdecimal]
  · exact fun _ h => ne_of_isAlpha hc rfl (List.cons.inj h).1
  · exact fun _ h => ne_of_isAlpha hc rfl (List.cons.inj h).1

/-- **A name means itself.** -/
theorem ofPlain_name {s : List Char} (h : isName s) : ofPlain s = .text s := by
  rcases s with _ | ⟨c, rest⟩
  · cases h
  simp only [isName, Bool.and_eq_true, Bool.not_eq_true', Option.isNone_iff_eq_none] at h
  obtain ⟨⟨⟨⟨hc, -⟩, -⟩, hnull⟩, hbool⟩ := h
  have hleading : hasLeadingZero (c :: rest) = false :=
    hasLeadingZero_cons (ne_of_isAlpha hc rfl) (ne_of_isAlpha hc rfl) (ne_of_isAlpha hc rfl) rest
  rw [ofPlain, if_neg (by simp [hnull]), hbool, integer?_of_isAlpha hc]
  simp only [hleading, Bool.false_eq_true, if_false, real?_of_isAlpha hc]

end Atom

/-! ## As plain words -/

theorem isAlphanum_of_isDigit {c : Char} (hc : c.isDigit) : c.isAlphanum := by
  rw [Char.isAlphanum, hc, Bool.or_true]

theorem isPlainWord_cons {c : Char} {rest : List Char}
    (hc : c.isAlphanum ∨ c = '-' ∧ rest.head?.any Char.isAlphanum) (hrest : rest.all isWord)
    (hlength : rest.length < 1000) : isPlainWord (c :: rest) := by
  simp only [isPlainWord, Bool.and_eq_true, Bool.or_eq_true, beq_iff_eq, decide_eq_true_eq]
  exact ⟨⟨hc, hrest⟩, hlength⟩

/-- A name is a plain word. -/
theorem isPlainWord_name {s : List Char} (h : isName s) : isPlainWord s := by
  rcases s with _ | ⟨c, rest⟩
  · cases h
  simp only [isName, Bool.and_eq_true, decide_eq_true_eq] at h
  obtain ⟨⟨⟨⟨hc, hrest⟩, hlength⟩, -⟩, -⟩ := h
  refine isPlainWord_cons (.inl ?_) hrest hlength
  rw [Char.isAlphanum, hc, Bool.true_or]

/-- An integer is a plain word. -/
theorem isPlainWord_integer {i : Int} (h : i.natAbs < 10000000000) :
    isPlainWord (toString i).toList := by
  have hdigits : ∀ n : Nat, (Nat.toDigits 10 n).all isWord := by
    intro n
    rw [List.all_eq_true]
    intro c hc
    rw [isWord, isAlphanum_of_isDigit (Nat.isDigit_of_mem_toDigits (by decide) (by decide) hc)]
    rfl
  have hlength : ∀ n < 10000000000, (Nat.toDigits 10 n).length ≤ 10 := fun n hn =>
    (Nat.length_toDigits_le_iff (by decide) (by decide)).mpr hn
  rw [Atom.toList_toString]
  by_cases hi : 0 ≤ i
  · rw [if_pos hi]
    have hall := hdigits i.toNat
    have hle := hlength i.toNat (by omega)
    obtain ⟨c, rest, heq, hc, -⟩ := Atom.toDigits_eq_cons i.toNat
    rw [heq] at hall hle ⊢
    rw [List.all_cons, Bool.and_eq_true] at hall
    rw [List.length_cons] at hle
    exact isPlainWord_cons (.inl (isAlphanum_of_isDigit hc)) hall.2 (by omega)
  · rw [if_neg hi]
    have hle := hlength (-i).toNat (by omega)
    refine isPlainWord_cons (.inr ⟨rfl, ?_⟩) (hdigits _) (by omega)
    obtain ⟨c, rest, heq, hc, -⟩ := Atom.toDigits_eq_cons (-i).toNat
    rw [heq]
    exact isAlphanum_of_isDigit hc

end DropRules.Yaml
