import DropRules.Symbol

/-!
# The conditions of a fishing attempt

A condition is something the engine can test about the attempt: where the line hangs, what state the
world is in, whether the catch is an enemy.  The set is closed, and its order is the order in which
the engine's handles are read (`Condition.all`).
-/

namespace DropRules

/-- A condition the engine knows how to test. -/
inductive Condition where
  | hardMode
  /-- The world is not in hard mode yet. -/
  | earlyMode
  | inLava
  | inHoney
  | junk
  | crate
  /-- The catch is spawning enemies, and no loot drops while it holds. -/
  | anyEnemies
  | canFishInLava
  /-- The dungeon, once its guardian is defeated. -/
  | dungeon
  | beach
  | hallow
  | glowingMushrooms
  | trueDesert
  | trueSnow
  | remix
  /-- The sky. -/
  | height0
  /-- The surface. -/
  | height1
  /-- The underground. -/
  | height2
  /-- The caverns. -/
  | height3
  | height1And2
  | heightAbove1
  | heightAboveAnd1
  | heightUnder2
  | heightAbove2
  | underRockLayer
  | corruption
  | crimson
  | jungle
  | snow
  | desert
  | rolledHallowDesert
  | originalOcean
  | remixOcean
  /-- Either variant of the ocean. -/
  | ocean
  /-- More than a thousand tiles of water in the pool. -/
  | water1000
  | bloodMoon
  | didNotUseCombatBook
deriving DecidableEq, Repr

namespace Condition

/-- Every condition, in the order in which handles are read. -/
def all : List Condition :=
  [.hardMode, .earlyMode, .inLava, .inHoney, .junk, .crate, .anyEnemies, .canFishInLava,
   .dungeon, .beach, .hallow, .glowingMushrooms, .trueDesert, .trueSnow, .remix, .height0,
   .height1, .height2, .height3, .height1And2, .heightAbove1, .heightAboveAnd1, .heightUnder2,
   .heightAbove2, .underRockLayer, .corruption, .crimson, .jungle, .snow, .desert,
   .rolledHallowDesert, .originalOcean, .remixOcean, .ocean, .water1000, .bloodMoon,
   .didNotUseCombatBook]

/-- The name of a condition in settings and listings. -/
def name : Condition → String
  | hardMode => "HardMode"
  | earlyMode => "EarlyMode"
  | inLava => "InLava"
  | inHoney => "InHoney"
  | junk => "Junk"
  | crate => "Crate"
  | anyEnemies => "AnyEnemies"
  | canFishInLava => "CanFishInLava"
  | dungeon => "Dungeon"
  | beach => "Beach"
  | hallow => "Hallow"
  | glowingMushrooms => "GlowingMushrooms"
  | trueDesert => "TrueDesert"
  | trueSnow => "TrueSnow"
  | remix => "Remix"
  | height0 => "Height0"
  | height1 => "Height1"
  | height2 => "Height2"
  | height3 => "Height3"
  | height1And2 => "Height1And2"
  | heightAbove1 => "HeightAbove1"
  | heightAboveAnd1 => "HeightAboveAnd1"
  | heightUnder2 => "HeightUnder2"
  | heightAbove2 => "HeightAbove2"
  | underRockLayer => "UnderRockLayer"
  | corruption => "Corruption"
  | crimson => "Crimson"
  | jungle => "Jungle"
  | snow => "Snow"
  | desert => "Desert"
  | rolledHallowDesert => "RolledHallowDesert"
  | originalOcean => "OriginalOcean"
  | remixOcean => "RemixOcean"
  | ocean => "Ocean"
  | water1000 => "Water1000"
  | bloodMoon => "BloodMoon"
  | didNotUseCombatBook => "DidNotUseCombatBook"

instance : Symbol Condition where
  all := all
  name := name

end Condition

end DropRules
