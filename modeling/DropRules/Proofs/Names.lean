import DropRules.Proofs.Listing

/-!
# Display names are comments

A listing shows the display names of items behind the items, in comments.  They come from elsewhere
and are written as they are, so it has to be asked when they remain comments.

Only the names of items that occur in the listing are written (`ItemNames.Shown`).  As long as none
of these breaks a line, every line of the listing is still one line, and a name can do one thing
only: a character that no document may hold makes the whole listing unreadable
(`RuleList.value_ofText_of_not_isAllowed`).  So the rules are read back exactly if the names are
free of such characters, and then it does not matter which names they are
(`Listing.value_ofText_text_eq_iff`).

A name that breaks a line is another matter.  What stands behind the break is read as a part of the
document, and can be anything: `Listing.text_eq_of_broken_name` is a listing of one item that is,
letter for letter, a listing of two.
-/

namespace DropRules

open Yaml

namespace ItemNames

/-- The name stands behind an item of these rules. -/
def Shown (names : ItemNames) (rules : List RecoveredRule) (name : String) : Prop :=
  ∃ r ∈ rules, ∃ i ∈ r.items, names i = some name

/-- No name behind an item of these rules breaks a line. -/
def Unbroken (names : ItemNames) (rules : List RecoveredRule) : Prop :=
  ∀ name, names.Shown rules name → ∀ c ∈ name.toList, isBreak c = false

/-- A document may hold every name behind an item of these rules. -/
def Allowed (names : ItemNames) (rules : List RecoveredRule) : Prop :=
  ∀ name, names.Shown rules name → ∀ c ∈ name.toList, isAllowed c

theorem unbroken_unknown (rules : List RecoveredRule) : unknown.Unbroken rules :=
  fun _ ⟨_, _, _, _, h⟩ => nomatch h

theorem allowed_unknown (rules : List RecoveredRule) : unknown.Allowed rules :=
  fun _ ⟨_, _, _, _, h⟩ => nomatch h

end ItemNames

/-! ## Characters that no document may hold -/

theorem Yaml.exists_controlAt? {text : List Char} {c : Char} (hc : c ∈ text)
    (hnot : isAllowed c = false) (offset : Nat) :
    ∃ k, TokenStream.controlAt? text offset = some k := by
  induction text generalizing offset with
  | nil => cases hc
  | cons d text ih =>
    rw [TokenStream.controlAt?]
    by_cases hd : isAllowed d
    · rw [if_pos hd]
      rcases List.mem_cons.mp hc with rfl | hc
      · rw [hnot] at hd
        cases hd
      · exact ih hc _
    · rw [if_neg hd]
      exact ⟨offset, rfl⟩

/-- **One such character makes a text unreadable**, wherever it stands. -/
theorem RuleList.value_ofText_of_not_isAllowed {text : String} {c : Char} (hc : c ∈ text.toList)
    (hnot : isAllowed c = false) :
    ∃ k, (RuleList.ofText text).value = .error (.invalid (.text (.control k))) := by
  obtain ⟨k, hk⟩ := exists_controlAt? hc hnot 0
  have htokens : TokenStream.ofText text.toList = ⟨[], some (.control k)⟩ := by
    rw [TokenStream.ofText, hk]
  have hdocument : Document.ofText text.toList = ⟨.cut, some (.control k), false⟩ := by
    rw [Document.ofText, htokens]
    rfl
  have hdraft : Draft.ofText .ruleList text = (.blank, some (.text (.control k))) := by
    rw [Draft.ofText]
    simp only [hdocument]
    rfl
  refine ⟨k, ?_⟩
  rw [RuleList.ofText]
  simp only [hdraft]
  rfl

namespace Listing

variable {rules : List RecoveredRule} {t : Tally} {names names' : ItemNames}

/-! ## Names that are shown -/

/-- Only the names of items that occur are written. -/
theorem text_congr (h : ∀ r ∈ rules, ∀ i ∈ r.items, names i = names' i) :
    text rules t names = text rules t names' := by
  have hitems : ∀ r ∈ rules, itemLines names r.items = itemLines names' r.items := by
    intro r hr
    have hlines : r.items.map (fun i => "      - " ++ toString i.toInt ++ " # " ++ names.label i) =
        r.items.map (fun i => "      - " ++ toString i.toInt ++ " # " ++ names'.label i) := by
      refine List.map_congr_left fun i hi => ?_
      rw [ItemNames.label, ItemNames.label, h r hr i hi]
    rw [itemLines, itemLines, hlines]
  have hrules : rules.flatMap (ruleLines names) = rules.flatMap (ruleLines names') := by
    refine List.flatMap_congr fun r hr => ?_
    rw [ruleLines, ruleLines, hitems r hr]
  rw [text, text, lines, lines, hrules]

/-- A name that is shown stands in the listing. -/
theorem mem_text {name : String} (h : names.Shown rules name) {c : Char} (hc : c ∈ name.toList) :
    c ∈ (text rules t names).toList := by
  obtain ⟨r, hr, i, hi, hname⟩ := h
  have hne : r.items.isEmpty = false := by
    rw [List.isEmpty_eq_false_iff]
    exact List.ne_nil_of_mem hi
  have hline : "      - " ++ toString i.toInt ++ " # " ++ name ∈ lines rules t names := by
    rw [lines]
    refine List.mem_append_left _ (List.mem_append_right _ (List.mem_flatMap.mpr ⟨r, hr, ?_⟩))
    rw [ruleLines, itemLines, hne]
    refine List.mem_append_left _ (List.mem_append_left _ (List.mem_append_left _ ?_))
    refine List.mem_cons_of_mem _ (List.mem_map.mpr ⟨i, hi, ?_⟩)
    rw [ItemNames.label, hname, Option.getD_some]
  rw [text, String.toList_join, List.mem_flatMap]
  refine ⟨_, List.mem_map.mpr ⟨_, hline, rfl⟩, ?_⟩
  simp [hc]

/-- Names that can stand in comments are not read. -/
theorem value_ofText_of_shown (t : Tally) (hunbroken : names.Unbroken rules)
    (hallowed : names.Allowed rules) :
    (RuleList.ofText (text rules t names)).value = .ok (rules.map RecoveredRule.toNamed) := by
  -- Of names that are not shown nothing is known; they may as well not be there.
  obtain ⟨shown, hshown⟩ : ∃ shown : ItemNames,
      shown = fun i => if rules.any (·.items.contains i) then names i else none := ⟨_, rfl⟩
  have hsame : ∀ r ∈ rules, ∀ i ∈ r.items, names i = shown i := by
    intro r hr i hi
    have hany : rules.any (·.items.contains i) = true :=
      List.any_eq_true.mpr ⟨r, hr, List.contains_iff_mem.mpr hi⟩
    rw [hshown]
    exact (if_pos hany).symm
  have hprintable : shown.Printable := by
    intro i name hname
    obtain ⟨⟨r, hr, hi⟩, hname⟩ : (∃ r ∈ rules, i ∈ r.items) ∧ names i = some name := by
      simpa [hshown] using hname
    have hname : names.Shown rules name := ⟨r, hr, i, hi, hname⟩
    exact fun c hc => ⟨hallowed name hname c hc, hunbroken name hname c hc⟩
  obtain ⟨m, m', m'', ns, hns, hdocument⟩ := exists_ofText_text rules t hprintable
  rw [text_congr hsame, RuleList.value_ofText hns hdocument, List.map_map]
  exact congrArg _ (List.map_congr_left fun r _ => Entry.value_toNamed_ofRule r.toNamed)

/-- Names with characters that no document may hold make a listing unreadable. -/
theorem exists_value_ofText_of_not_allowed (t : Tally) (h : ¬ names.Allowed rules) :
    ∃ k, (RuleList.ofText (text rules t names)).value = .error (.invalid (.text (.control k))) := by
  simp only [ItemNames.Allowed, not_forall, Bool.not_eq_true] at h
  obtain ⟨name, hname, c, hc, hnot⟩ := h
  exact RuleList.value_ofText_of_not_isAllowed (mem_text hname hc) hnot

/-- **Display names that do not break lines are comments and nothing else**, exactly if a document
may hold them.  Beside any harmless names, it is then that a listing is read as the same. -/
theorem value_ofText_text_eq_iff (rules : List RecoveredRule) (t : Tally) (names names' : ItemNames)
    (hunbroken : names.Unbroken rules) (hunbroken' : names'.Unbroken rules)
    (hallowed' : names'.Allowed rules) :
    (RuleList.ofText (text rules t names)).value = (RuleList.ofText (text rules t names')).value ↔
      names.Allowed rules := by
  have hread' := value_ofText_of_shown t hunbroken' hallowed'
  constructor
  · intro hsame
    by_contra hnot
    obtain ⟨k, hfault⟩ := exists_value_ofText_of_not_allowed t hnot
    rw [hfault, hread'] at hsame
    cases hsame
  · intro hallowed
    rw [value_ofText_of_shown t hunbroken hallowed, hread']

/-- A name with a sign of a comment and a letter beyond ASCII is a comment; one with a line break
does no harm, as it is not shown. -/
theorem value_ofText_text_eq_iff_bass :
    let rules : List RecoveredRule := [⟨[7], 1, 1, some .common, [.ocean], 0⟩]
    let names : ItemNames := fun i => if i = 7 then some "Bärsch # 1" else some "\n- 9"
    names.Unbroken rules ∧ ItemNames.unknown.Unbroken rules ∧ ItemNames.unknown.Allowed rules ∧
      (RuleList.ofText (text rules ⟨1, 1, 0, 0⟩ names)).value =
        (RuleList.ofText (text rules ⟨1, 1, 0, 0⟩ .unknown)).value := by
  intro rules names
  have hshown : ∀ name, names.Shown rules name → name = "Bärsch # 1" := by
    rintro name ⟨r, hr, i, hi, hname⟩
    obtain rfl := List.mem_singleton.mp hr
    obtain rfl := List.mem_singleton.mp hi
    exact (Option.some.inj hname).symm
  have hprintable : Line.Printable "Bärsch # 1".toList := by decide
  have hunbroken : names.Unbroken rules := by
    intro name hname
    rw [hshown name hname]
    exact fun c hc => (hprintable c hc).2
  have hallowed : names.Allowed rules := by
    intro name hname
    rw [hshown name hname]
    exact fun c hc => (hprintable c hc).1
  have hunbroken' := ItemNames.unbroken_unknown rules
  have hallowed' := ItemNames.allowed_unknown rules
  refine ⟨hunbroken, hunbroken', hallowed', ?_⟩
  exact (value_ofText_text_eq_iff rules ⟨1, 1, 0, 0⟩ names .unknown hunbroken hunbroken'
    hallowed').mpr hallowed

/-- Behind a break, a name goes on as one more item with a name of its own. -/
theorem text_eq_of_broken_name (t : Tally) :
    text [⟨[7], 1, 1, some .common, [], 0⟩] t (fun _ => some "Bass\n      - 9 # Trout") =
      text [⟨[7, 9], 1, 1, some .common, [], 0⟩] t
        (fun i => if i = 7 then some "Bass" else some "Trout") := by
  have hrule : String.join ((ruleLines (fun _ => some "Bass\n      - 9 # Trout")
        ⟨[7], 1, 1, some .common, [], 0⟩).map (· ++ "\n")) =
      String.join ((ruleLines (fun i => if i = 7 then some "Bass" else some "Trout")
        ⟨[7, 9], 1, 1, some .common, [], 0⟩).map (· ++ "\n")) := by
    decide +kernel
  simp only [text, lines, List.flatMap_cons, List.flatMap_nil, List.append_nil, List.map_append,
    String.join_append, hrule]
  rfl

/-- **A name that breaks a line can alter a rule.**  A rule with one item is read back as a rule
with two, though without the name it would be read back as it is. -/
theorem value_ofText_text_broken_name :
    let rules : List RecoveredRule := [⟨[7], 1, 1, some .common, [], 0⟩]
    let names : ItemNames := fun _ => some "Bass\n      - 9 # Trout"
    (RuleList.ofText (text rules ⟨1, 1, 0, 0⟩ names)).value =
        .ok [⟨[7, 9], 1, 1, some .common, []⟩] ∧
      (RuleList.ofText (text rules ⟨1, 1, 0, 0⟩ .unknown)).value =
        .ok [⟨[7], 1, 1, some .common, []⟩] := by
  intro rules names
  constructor
  · rw [text_eq_of_broken_name]
    have hplain : ∀ i name, (if (i : Item) = 7 then some "Bass" else some "Trout") = some name →
        Line.Printable name.toList := by
      intro i name hname
      by_cases hi : i = 7
      · rw [if_pos hi] at hname
        obtain rfl := Option.some.inj hname
        decide
      · rw [if_neg hi] at hname
        obtain rfl := Option.some.inj hname
        decide
    exact value_ofText_of_shown _ (fun name ⟨_, _, i, _, h⟩ c hc => (hplain i name h c hc).2)
      fun name ⟨_, _, i, _, h⟩ c hc => (hplain i name h c hc).1
  · exact value_ofText_of_shown _ (ItemNames.unbroken_unknown rules)
      (ItemNames.allowed_unknown rules)

end Listing

end DropRules
