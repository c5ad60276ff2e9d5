import DropRules.Tally

/-!
# Listings

A listing writes recovered rules down as a document that can be edited and read again: a list of
rules under the key `rules`, with a heading and an account of the rules in comments.  Behind every
item its display name stands in a comment, if a name is known.
-/

namespace DropRules

/-- The display names of items, as far as they are known. -/
abbrev ItemNames := Item → Option String

namespace ItemNames

/-- No item has a display name. -/
def unknown : ItemNames :=
  fun _ => none

/-- What is written for an item. -/
def label (names : ItemNames) (i : Item) : String :=
  (names i).getD ("Unknown(" ++ toString i.toInt ++ ")")

end ItemNames

namespace Listing

/-- The comment at the head of a listing. -/
def heading : List String :=
  ["# Fishing drop rule export",
   "# Generated automatically. Rules whose conditions cannot all be",
   "# named (quest fish, special world seeds) are left out.",
   ""]

/-- The lines of the items of a rule, of which the first opens the entry. -/
def itemLines (names : ItemNames) (items : List Item) : List String :=
  if items.isEmpty then ["  - possibleItems: []"]
  else
    "  - possibleItems:"
      :: items.map fun i => "      - " ++ toString i.toInt ++ " # " ++ names.label i

/-- The lines of the conditions of a rule. -/
def conditionLines (conditions : List Condition) : List String :=
  if conditions.isEmpty then []
  else "    conditions:" :: conditions.map fun c => "      - " ++ c.name

/-- The lines of a rule, closed by an empty one. -/
def ruleLines (names : ItemNames) (r : RecoveredRule) : List String :=
  itemLines names r.items
    ++ ["    chanceNumerator: " ++ toString r.numerator.toInt,
        "    chanceDenominator: " ++ toString r.denominator.toInt,
        "    rarity: " ++ (r.rarity.getD .any).name]
    ++ conditionLines r.conditions ++ [""]

/-- The account of the rules, at the foot of a listing that holds `written` of them. -/
def account (t : Tally) (written : Nat) : List String :=
  ["",
   "# ====== Export statistics ======",
   "# Total rules: " ++ toString t.total,
   "# Fully mapped: " ++ t.counted t.whole,
   "# Partially mapped: " ++ t.counted t.some,
   "# Unmapped: " ++ t.counted t.none,
   "# Exported: " ++ toString written ++ " rules"]

/-- The lines of a listing. -/
def lines (rules : List RecoveredRule) (t : Tally) (names : ItemNames) : List String :=
  heading ++ [if rules.isEmpty then "rules: []" else "rules:"]
    ++ rules.flatMap (ruleLines names) ++ account t rules.length

/-- A listing of recovered rules. -/
def text (rules : List RecoveredRule) (t : Tally) (names : ItemNames) : String :=
  String.join ((lines rules t names).map (· ++ "\n"))

end Listing

end DropRules
