import DropRules.Symbol

/-!
# The rarity roll a rule asks for

A rule names the roll of the rarity dice under which it may fire.  `Rarity.any` accepts every roll;
a rule that names none is read as `Rarity.fallback`.
-/

namespace DropRules

/-- The rarity roll a rule requires. -/
inductive Rarity where
  /-- Every roll. -/
  | any
  | legendary
  | veryRare
  | rare
  | uncommon
  | common
  /-- Uncommon, and neither legendary nor very rare. -/
  | bombRarity
  | uncommonOrCommon
deriving DecidableEq, Repr

namespace Rarity

/-- Every rarity, in the order in which handles are read. -/
def all : List Rarity :=
  [.any, .legendary, .veryRare, .rare, .uncommon, .common, .bombRarity, .uncommonOrCommon]

/-- The name of a rarity in settings and listings. -/
def name : Rarity → String
  | any => "Any"
  | legendary => "Legendary"
  | veryRare => "VeryRare"
  | rare => "Rare"
  | uncommon => "Uncommon"
  | common => "Common"
  | bombRarity => "BombRarity"
  | uncommonOrCommon => "UncommonOrCommon"

/-- The rarity of a rule that names none. -/
def fallback : Rarity := .common

instance : Symbol Rarity where
  all := all
  name := name

end Rarity

end DropRules
