import DropRules.Listing
import DropRules.Proofs.Entries
import DropRules.Proofs.Yaml.Values

/-!
# Listings are read back

A listing is written to be read again.  In lines it is a heading in comments, the key `rules`, a
record for every rule with an empty line behind it, and an account in comments
(`Listing.document`).  The first step is that the text of a listing consists of these lines
(`Listing.toList_text`).

The lines fit together whatever the rules are (`Listing.gives_document`): the names of conditions
and rarities are names that a document may hold, integers of 32 bits are words, and the figures of
the account are of ASCII.  Only the display names of items come from elsewhere, and it has to be
asked of them that they can stand in a comment (`ItemNames.Printable`).

The tokens of these lines are read as a record with one field, whose items mean the entries that
write the rules down, and so the rules come back (`Listing.value_ofText_text`).
-/

namespace DropRules

open Yaml

/-- Every display name can stand in a comment: its characters are those that a document may hold,
and none of them breaks a line. -/
def ItemNames.Printable (names : ItemNames) : Prop :=
  ∀ i name, names i = some name → Line.Printable name.toList

namespace Listing

/-! ## Listings in lines -/

/-- A line of a comment, or an empty line. -/
def remarkLine (s : String) : Line :=
  match s.toList with
  | [] => .blank
  | _ :: words => .remark words

/-- What stands in a comment behind an item. -/
def note (names : ItemNames) : Value → Option (List Char)
  | .integer i => some (' ' :: (names.label (Int32.ofInt i)).toList)
  | _ => none

/-- The record that writes a rule down. -/
def record (r : RecoveredRule) : List (String × Value) :=
  (Entry.ofRule r.toNamed).fields

/-- The lines of a rule. -/
def ruleDocument (names : ItemNames) (r : RecoveredRule) : List Line :=
  Line.ofRecord (note names) 2 (record r) ++ [.blank]

/-- The lines of a listing. -/
def document (rules : List RecoveredRule) (t : Tally) (names : ItemNames) : List Line :=
  heading.map remarkLine
    ++ .field 0 "rules".toList (if rules.isEmpty then .brackets else .nothing)
      :: (rules.flatMap (ruleDocument names) ++ (account t rules.length).map remarkLine)

/-- A line as it is written. -/
def chars (s : String) : List Char :=
  s.toList ++ ['\n']

/-- Lines of comments are written as they stand. -/
theorem flatMap_text_remarkLine {ss : List String}
    (h : ∀ s ∈ ss, s.toList.head?.all (· == '#')) :
    (ss.map remarkLine).flatMap Line.text = ss.flatMap chars := by
  rw [List.flatMap_map]
  refine List.flatMap_congr fun s hs => ?_
  have hhead := h s hs
  rw [remarkLine, chars]
  cases hlist : s.toList with
  | nil => rfl
  | cons c words =>
    rw [hlist] at hhead
    have hc : c = '#' := by simpa using hhead
    rw [hc]
    rfl

/-- The lines of the items of a rule, of which the first opens the entry. -/
theorem flatMap_text_itemLines (names : ItemNames) (items : List Item) :
    Line.text (.first 2 "possibleItems".toList
        (Value.sequence (items.map fun i => .integer i.toInt)).payload)
      ++ (Line.ofItems (note names) 6 (items.map fun i => .integer i.toInt)).flatMap Line.text =
      (itemLines names items).flatMap chars := by
  have hitem : ∀ i : Item, Line.text (.item 6 (toString i.toInt).toList
      (some (' ' :: (names.label (Int32.ofInt i.toInt)).toList))) =
      chars ("      - " ++ toString i.toInt ++ " # " ++ names.label i) := by
    intro i
    rw [Int32.ofInt_toInt]
    simp only [chars, String.toList_append, List.append_assoc]
    rfl
  have hitems : (Line.ofItems (note names) 6 (items.map fun i => .integer i.toInt)).flatMap
      Line.text =
      (items.map fun i => "      - " ++ toString i.toInt ++ " # " ++ names.label i).flatMap
        chars := by
    rw [Line.ofItems, List.map_map, List.flatMap_map, List.flatMap_map]
    exact List.flatMap_congr fun i _ => hitem i
  rw [hitems]
  cases items with
  | nil => rfl
  | cons i items => rfl

/-- The lines of the conditions of a rule. -/
theorem flatMap_text_conditionLines (names : ItemNames) (conditions : List Condition) :
    ((Entry.conditionFields (conditions.map Condition.name)).flatMap
        (Line.ofField (note names) 4)).flatMap Line.text =
      (conditionLines conditions).flatMap chars := by
  have hitems : (Line.ofItems (note names) 6 ((conditions.map Condition.name).map .text)).flatMap
      Line.text = (conditions.map fun c => "      - " ++ c.name).flatMap chars := by
    rw [Line.ofItems, List.map_map, List.map_map, List.flatMap_map, List.flatMap_map]
    refine List.flatMap_congr fun c _ => ?_
    rw [chars, String.toList_append]
    rfl
  cases conditions with
  | nil => rfl
  | cons c conditions =>
    show (Line.ofField (note names) 4 ("conditions",
      .sequence (((c :: conditions).map Condition.name).map .text)) ++ []).flatMap Line.text = _
    rw [List.append_nil, Line.ofField, List.flatMap_cons]
    show Line.text (.field 4 "conditions".toList .nothing) ++ (Line.ofItems (note names) 6
      (((c :: conditions).map Condition.name).map .text)).flatMap Line.text = _
    rw [hitems]
    rfl

/-- The lines of a rule are written as the listing writes them. -/
theorem flatMap_text_ruleDocument (names : ItemNames) (r : RecoveredRule) :
    (ruleDocument names r).flatMap Line.text = (ruleLines names r).flatMap chars := by
  obtain ⟨items, numerator, denominator, rarity, conditions, unnamed⟩ := r
  have hitems := flatMap_text_itemLines names items
  have hconditions := flatMap_text_conditionLines names conditions
  have hword : ∀ (key w : String), Line.text (.field 4 key.toList (.word w.toList)) =
      chars ("    " ++ key ++ ": " ++ w) := by
    intro key w
    simp only [chars, String.toList_append, List.append_assoc]
    rfl
  have hdocument : ruleDocument names ⟨items, numerator, denominator, rarity, conditions, unnamed⟩ =
      .first 2 "possibleItems".toList
          (Value.sequence (items.map fun i => .integer i.toInt)).payload
        :: (Line.ofItems (note names) 6 (items.map fun i => .integer i.toInt)
          ++ (.field 4 "chanceNumerator".toList (.word (toString numerator.toInt).toList)
            :: .field 4 "chanceDenominator".toList (.word (toString denominator.toInt).toList)
            :: .field 4 "rarity".toList (.word (rarity.getD .any).name.toList)
            :: (Entry.conditionFields (conditions.map Condition.name)).flatMap
              (Line.ofField (note names) 4)
          ++ [.blank])) := by
    rw [← List.append_assoc, ← List.cons_append]
    rfl
  rw [hdocument, ruleLines, List.flatMap_cons]
  simp only [List.flatMap_append, List.flatMap_cons, List.flatMap_nil, List.append_assoc, hword,
    ← hitems, ← hconditions]
  rfl

/-- Every line of the account is empty or a comment. -/
theorem head?_account (t : Tally) (written : Nat) :
    ∀ s ∈ account t written, s.toList.head?.all (· == '#') := by
  have happend : ∀ s s' : String, s.toList.head? = some '#' →
      (s ++ s').toList.head?.all (· == '#') := by
    intro s s' hs
    rw [String.toList_append, List.head?_append, hs]
    rfl
  simp only [account, List.forall_mem_cons]
  refine ⟨rfl, rfl, happend _ _ rfl, happend _ _ rfl, happend _ _ rfl, happend _ _ rfl, ?_, nofun⟩
  rw [String.append_assoc]
  exact happend _ _ rfl

/-- **The text of a listing, line by line.** -/
theorem toList_text (rules : List RecoveredRule) (t : Tally) (names : ItemNames) :
    (text rules t names).toList = (document rules t names).flatMap Line.text := by
  have hrules : (rules.flatMap (ruleDocument names)).flatMap Line.text =
      (rules.flatMap (ruleLines names)).flatMap chars := by
    rw [List.flatMap_assoc, List.flatMap_assoc]
    exact List.flatMap_congr fun r _ => flatMap_text_ruleDocument names r
  have hkey : Line.text (.field 0 "rules".toList (if rules.isEmpty then .brackets else .nothing)) =
      chars (if rules.isEmpty then "rules: []" else "rules:") := by
    cases rules with
    | nil => rfl
    | cons r rules =>
      show Line.text (.field 0 "rules".toList .nothing) = chars "rules:"
      decide
  have hchars : (text rules t names).toList = (lines rules t names).flatMap chars := by
    rw [text, String.toList_join, List.flatMap_map]
    exact List.flatMap_congr fun s _ => String.toList_append
  rw [hchars, document, lines]
  simp only [List.flatMap_append, List.flatMap_cons, List.flatMap_nil, List.append_nil,
    List.append_assoc]
  rw [flatMap_text_remarkLine (head?_account t rules.length), hrules, hkey,
    flatMap_text_remarkLine (by decide)]

/-! ## What stands in comments -/

theorem printable_digits {s : List Char} (h : ∀ c ∈ s, c.isDigit) : Line.Printable s := by
  intro c hc
  have hword : isWord c := by
    rw [isWord, isAlphanum_of_isDigit (h c hc)]
    rfl
  exact ⟨isAllowed_of_isWord hword, isBreak_of_isWord hword⟩

theorem printable_toDigits (n : Nat) : Line.Printable (Nat.toDigits 10 n) :=
  printable_digits fun _ hc => Nat.isDigit_of_mem_toDigits (by decide) (by decide) hc

theorem printable_nat (n : Nat) : Line.Printable (toString n).toList := by
  show Line.Printable n.repr.toList
  rw [Nat.toList_repr]
  exact printable_toDigits n

theorem printable_int (i : Int) : Line.Printable (toString i).toList := by
  rw [Atom.toList_toString]
  by_cases hi : 0 ≤ i
  · rw [if_pos hi]
    exact printable_toDigits _
  · rw [if_neg hi]
    exact Line.Printable.append (s := ['-']) (by decide) (printable_toDigits _)

theorem printable_pointed (places n : Nat) : Line.Printable (Decimal.pointed places n).toList := by
  have hpadded : ∀ k, ∀ c ∈ List.replicate k '0' ++ Nat.toDigits 10 n, c.isDigit := by
    intro k c hc
    rcases List.mem_append.mp hc with hc | hc
    · rw [List.eq_of_mem_replicate hc]
      rfl
    · exact Nat.isDigit_of_mem_toDigits (by decide) (by decide) hc
  rw [Decimal.pointed, String.toList_ofList]
  refine .append (printable_digits fun c hc => hpadded _ c (List.mem_of_mem_take hc)) ?_
  exact Line.Printable.append (s := ['.']) (by decide)
    (printable_digits fun c hc => hpadded _ c (List.mem_of_mem_drop hc))

/-- A double is written in characters of ASCII. -/
theorem printable_fixed (places : Nat) (x : Float) :
    Line.Printable (Decimal.fixed places x).toList := by
  have hsign : Line.Printable (if Decimal.isNegative x.toBits then "-" else "").toList := by
    split <;> decide
  rw [Decimal.fixed]
  split
  · split
    · rw [String.toList_append]
      exact hsign.append (by decide)
    · decide
  · rw [String.toList_append]
    exact hsign.append (printable_pointed _ _)

theorem printable_counted (t : Tally) (value : Nat) :
    Line.Printable (t.counted value).toList := by
  rw [Tally.counted, Tally.share]
  simp only [String.toList_append]
  exact (((printable_nat value).append (by decide)).append
    ((printable_fixed 2 _).append (by decide))).append (by decide)

/-- What is written for an item can stand in a comment, if its display name can. -/
theorem printable_label {names : ItemNames} (h : names.Printable) (i : Item) :
    Line.Printable (names.label i).toList := by
  rw [ItemNames.label]
  cases hname : names i with
  | some name => exact h i name hname
  | none =>
    rw [Option.getD_none, String.toList_append, String.toList_append]
    exact (Line.Printable.append (by decide) (printable_int _)).append (by decide)

theorem printable_account (t : Tally) (written : Nat) :
    ∀ s ∈ account t written, Line.Printable s.toList := by
  simp only [account, List.forall_mem_cons, String.toList_append]
  refine ⟨by decide, by decide, .append (by decide) (printable_nat _),
    .append (by decide) (printable_counted t _), .append (by decide) (printable_counted t _),
    .append (by decide) (printable_counted t _),
    .append (.append (by decide) (printable_nat _)) (by decide), nofun⟩

/-! ## Rules as records -/

/-- The record of a rule has simple values: its integers have 32 bits, and its names are names. -/
theorem isRecord_record (r : RecoveredRule) : IsRecord (record r) where
  isName := (Entry.ofRule r.toNamed).isName_of_mem_fields
  isSimple := by
    have hinteger : ∀ i : Int32, (Value.integer i.toInt).IsWord := fun i =>
      ⟨i.le_toInt, Int.le_of_lt_add_one i.toInt_lt⟩
    have hrarity : ∀ r : Rarity, isName r.name.toList := by
      intro r
      cases r <;> decide
    have hcondition : ∀ c : Condition, isName c.name.toList := by
      intro c
      cases c <;> decide
    refine (Entry.ofRule r.toNamed).forall_mem_fields ?_ hinteger (fun s hs => ?_) ?_
    · exact List.forall_mem_map.mpr fun i _ => hinteger i
    · rw [← Option.some.inj hs]
      exact hrarity _
    · refine List.forall_mem_map.mpr fun s hs => ?_
      obtain ⟨c, -, rfl⟩ := List.mem_map.mp hs
      exact hcondition c
  nodup := (Entry.ofRule r.toNamed).nodup_fields

/-! ## Tokens -/

/-- The tokens of the rules of a listing. -/
def ruleKinds : List RecoveredRule → List TokenKind
  | [] => [.flowSequenceStart, .flowSequenceEnd]
  | r :: rules =>
    .blockSequenceStart
      :: ((r :: rules).flatMap (fun r => .blockEntry :: recordKinds (record r)) ++ [.blockEnd])

section Gives

variable {b : Blocks} {n : Nat} {outer : List Int} {lines : List Line} {kinds : List TokenKind}

theorem gives_remarks {ss : List String} (hss : ∀ s ∈ ss, Line.Printable s.toList)
    (h : Line.Gives b lines kinds) : Line.Gives b (ss.map remarkLine ++ lines) kinds := by
  induction ss with
  | nil => exact h
  | cons s ss ih =>
    have hs := hss s List.mem_cons_self
    have hrest := ih fun s hs => hss s (List.mem_cons_of_mem _ hs)
    rw [List.map_cons, List.cons_append, remarkLine]
    cases hlist : s.toList with
    | nil => exact hrest.blank
    | cons c words =>
      rw [hlist] at hs
      exact hrest.remark fun c hc => hs c (List.mem_cons_of_mem _ hc)

theorem shallower_remarks {indent : Int} (ss : List String) (h : Line.Shallower indent lines) :
    Line.Shallower indent (ss.map remarkLine ++ lines) := by
  induction ss with
  | nil => exact h
  | cons s ss ih =>
    rw [List.map_cons, List.cons_append, remarkLine]
    cases s.toList <;> exact ih

theorem printable_note {names : ItemNames} (hnames : names.Printable) (v : Value) :
    ∀ words ∈ note names v, Line.Printable words := by
  cases v with
  | integer i =>
    intro words hwords
    rw [← Option.some.inj hwords]
    exact Line.Printable.append (s := [' ']) (by decide) (printable_label hnames _)
  | _ => nofun

/-- The rules of a listing, one after the other. -/
theorem gives_rules {names : ItemNames} (hnames : names.Printable) (rules : List RecoveredRule)
    (hnext : Line.Shallower 2 lines) (h : Line.Gives ⟨2, outer⟩ lines kinds) :
    Line.Gives ⟨2, outer⟩ (rules.flatMap (ruleDocument names) ++ lines)
        (rules.flatMap (fun r => .blockEntry :: recordKinds (record r)) ++ kinds) ∧
      Line.Shallower 2 (rules.flatMap (ruleDocument names) ++ lines) := by
  induction rules with
  | nil => exact ⟨h, hnext⟩
  | cons r rules ih =>
    obtain ⟨hrest, hshallow⟩ := ih
    rw [List.flatMap_cons, List.append_assoc, List.flatMap_cons, List.append_assoc, ruleDocument,
      List.append_assoc]
    exact ⟨Line.Gives.ofRecord (n := 2) (printable_note hnames) (isRecord_record r) nofun hshallow
      hrest.blank, Int.le_refl _⟩

/-- **A listing fits together**, and these are its tokens. -/
theorem gives_document (rules : List RecoveredRule) (t : Tally) {names : ItemNames}
    (hnames : names.Printable) :
    Line.Gives ⟨-1, []⟩ (document rules t names)
      (.blockMappingStart :: .key :: .scalar "rules".toList .plain :: .value
        :: (ruleKinds rules ++ [.blockEnd, .streamEnd])) := by
  have hshallow : ∀ indent, Line.Shallower indent ((account t rules.length).map remarkLine) := by
    intro indent
    rw [← List.append_nil (List.map _ _)]
    exact shallower_remarks _ trivial
  have haccount : Line.Gives ⟨-1, []⟩ ((account t rules.length).map remarkLine) [.streamEnd] := by
    rw [← List.append_nil (List.map _ _)]
    exact gives_remarks (printable_account t rules.length) .nil
  have hfoot : Line.Gives ⟨0, [-1]⟩ ((account t rules.length).map remarkLine)
      [.blockEnd, .streamEnd] := Line.Gives.close (n := 0) (by decide) (hshallow _) haccount
  rw [document]
  refine gives_remarks (by decide) (Line.Gives.enter (n := 0) (by decide) rfl ?_)
  cases rules with
  | nil => exact Line.Gives.field (n := 0) (by decide) trivial hfoot
  | cons r rules =>
    obtain ⟨hrules, -⟩ := gives_rules hnames (r :: rules) (hshallow 2)
      (Line.Gives.close (n := 2) (by decide) (hshallow 0) hfoot)
    have hlist : Line.Gives ⟨0, [-1]⟩ ((r :: rules).flatMap (ruleDocument names)
        ++ (account t (r :: rules).length).map remarkLine)
        (ruleKinds (r :: rules) ++ [.blockEnd, .streamEnd]) := by
      rw [ruleKinds, List.cons_append, List.append_assoc]
      exact Line.Gives.enter (n := 2) (by decide) rfl hrules
    exact Line.Gives.field (n := 0) (by decide) trivial hlist

end Gives

/-! ## Reading -/

/-- The tokens of the rules are read as a sequence whose items mean entries. -/
theorem reads_ruleKinds (rules : List RecoveredRule) :
    Reads (ruleKinds rules) fun n => ∃ m ns, n = .sequence m none none ns ∧
      List.Forall₂ (Node.Means 126) ((rules.map fun r => Entry.ofRule r.toNamed).map Entry.value)
        ns := by
  cases rules with
  | nil =>
    refine Reads.brackets.mono ?_
    rintro n ⟨m, rfl⟩
    exact ⟨m, [], rfl, .nil⟩
  | cons r rules =>
    refine (Reads.sequence fun r _ => Says.record (isRecord_record r) 124).mono ?_
    rintro n ⟨m, ns, rfl, hns⟩
    refine ⟨m, ns, rfl, ?_⟩
    rw [List.map_map, List.forall₂_map_left_iff]
    exact hns

/-- **A listing is a document** with one field, whose items mean the entries that write the rules
down. -/
theorem exists_ofText_text (rules : List RecoveredRule) (t : Tally) {names : ItemNames}
    (hnames : names.Printable) :
    ∃ m m' m'' ns,
      List.Forall₂ (Node.Means 126) ((rules.map fun r => Entry.ofRule r.toNamed).map Entry.value)
        ns ∧
      Document.ofText (text rules t names).toList =
        ⟨.mapping m none none
          [(.scalar m' none none .plain "rules".toList, .sequence m'' none none ns)], none,
          false⟩ := by
  obtain ⟨hfit, hkinds⟩ := gives_document rules t hnames
  have hroot := (reads_ruleKinds rules).mapping_singleton "rules".toList
  have htokens := (ofText_lines hfit).1
  rw [hkinds, ← List.singleton_append (l := [TokenKind.streamEnd]), ← List.append_assoc] at htokens
  obtain ⟨n, ⟨m, m', v, rfl, m'', ns, rfl, hns⟩, hdocument⟩ :=
    Document.ofTokens_of_reads hroot htokens
  rw [toList_text]
  exact ⟨m, m', m'', ns, hns, hdocument⟩

/-- **A listing is read back as the rules that it was made from**, whatever is said about them in
comments. -/
theorem value_ofText_text (rules : List RecoveredRule) (t : Tally) (names : ItemNames)
    (hnames : names.Printable) :
    (RuleList.ofText (text rules t names)).value = .ok (rules.map RecoveredRule.toNamed) := by
  obtain ⟨m, m', m'', ns, hns, hdocument⟩ := exists_ofText_text rules t hnames
  rw [RuleList.value_ofText hns hdocument, List.map_map]
  congr 1
  exact List.map_congr_left fun r _ => Entry.value_toNamed_ofRule r.toNamed

/-- A bass without a counterpart, and a barrier without a rarity. -/
theorem value_ofText_text_bass :
    ItemNames.Printable (fun i => if i = 2290 then some "Bass" else none) ∧
      (RuleList.ofText (text
          [⟨[2290, -5], -1, 2, some .rare, [.ocean, .ocean], 1⟩, ⟨[], 1, 1, none, [], 0⟩]
          ⟨2, 1, 1, 0⟩
          fun i => if i = 2290 then some "Bass" else none)).value =
        .ok [⟨[2290, -5], -1, 2, some .rare, [.ocean, .ocean]⟩, ⟨[], 1, 1, some .any, []⟩] := by
  have hnames : ItemNames.Printable (fun i => if i = 2290 then some "Bass" else none) := by
    intro i name hname
    simp only at hname
    by_cases hi : i = 2290
    · rw [if_pos hi] at hname
      rw [← Option.some.inj hname]
      decide
    · rw [if_neg hi] at hname
      cases hname
  exact ⟨hnames, value_ofText_text _ _ _ hnames⟩

end Listing

end DropRules
