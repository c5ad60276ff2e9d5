import DropRules.Entry
import DropRules.Logged
import DropRules.Region

/-!
# Notices

A `Notice` is one of the things that can be worth reporting while rules are read, named, bound and
published.  Its level, its wording and its fields follow from what it is.
-/

namespace DropRules

/-- Why a rule cannot be bound to handles. -/
inductive BindError where
  /-- The engine exposes neither this rarity nor the one that stands in for it. -/
  | missingRarity (rarity : Rarity)
deriving DecidableEq, Repr

/-- The wording of the failure to bind a rule. -/
def BindError.message : BindError → String
  | missingRarity rarity => "rarity '" ++ rarity.name ++ "' is not exposed by the engine"

/-- How much a notice matters. -/
inductive Level where
  | error
  | warning
  | info
  | debug
deriving DecidableEq, Repr

/-- Something worth reporting. -/
inductive Notice where
  /-- The engine exposes no value for a symbol. -/
  | handleMissing (symbol : String)
  /-- The engine exposes for a symbol the value of an earlier one. -/
  | handleShared (symbol first : String)
  /-- Names were given to the engine's values: so many to conditions and to rarities. -/
  | namingBuilt (conditions rarities : Nat)
  /-- A table opens with the barrier against enemies. -/
  | headBarrierAdded
  /-- The group of a region was closed by its barrier. -/
  | regionBarrierAdded (region : Region)
  /-- A rule loses a condition that the engine does not expose. -/
  | conditionUnresolved (condition : Condition)
  /-- A rule is left out of a table. -/
  | ruleSkipped (items : List Item) (cause : BindError)
  /-- An entry is left out of a list of rules. -/
  | entrySkipped (misfit : Entry.Misfit)
  /-- An entry names a rarity that does not exist. -/
  | rarityUnknown (name : String)
  /-- An entry names a condition that does not exist. -/
  | conditionUnknown (name : String)
  /-- A dispatcher was opened over the engine's own table, here described. -/
  | dispatcherOpened (engineTable : String)
  /-- A table of rules of one's own was published, here described. -/
  | rulesPublished (summary : String)

namespace Notice

/-- How much the notice matters. -/
def level : Notice → Level
  | handleMissing _ => .warning
  | handleShared _ _ => .debug
  | namingBuilt _ _ => .debug
  | headBarrierAdded => .info
  | regionBarrierAdded _ => .info
  | conditionUnresolved _ => .debug
  | ruleSkipped _ _ => .error
  | entrySkipped _ => .error
  | rarityUnknown _ => .debug
  | conditionUnknown _ => .debug
  | dispatcherOpened _ => .info
  | rulesPublished _ => .info

/-- The wording of the notice. -/
def message : Notice → String
  | handleMissing _ => "engine does not expose a handle"
  | handleShared _ _ => "engine handle shared between symbols"
  | namingBuilt _ _ => "symbol registries built"
  | headBarrierAdded => "added AnyEnemies head barrier"
  | regionBarrierAdded _ => "added region barrier"
  | conditionUnresolved _ => "dropping unresolved condition"
  | ruleSkipped _ cause => "failed to load drop rule: " ++ cause.message
  | entrySkipped misfit => "skipping drop rule: " ++ misfit.message
  | rarityUnknown _ => "unknown rarity, using Common"
  | conditionUnknown _ => "dropping unknown condition"
  | dispatcherOpened _ => "drop resolver initialized"
  | rulesPublished _ => "custom drop rules loaded"

/-- The particulars of the notice, each under a name. -/
def fields : Notice → List (String × String)
  | handleMissing symbol => [("symbol", symbol)]
  | handleShared symbol first => [("symbol", symbol), ("shared_with", first)]
  | namingBuilt conditions rarities =>
    [("conditions", toString conditions), ("rarities", toString rarities)]
  | headBarrierAdded => []
  | regionBarrierAdded region => [("region", region.name)]
  | conditionUnresolved condition => [("condition", condition.name)]
  | ruleSkipped items _ => [("items", Item.listText items)]
  | entrySkipped _ => []
  | rarityUnknown name => [("rarity", name)]
  | conditionUnknown name => [("condition", name)]
  | dispatcherOpened engineTable => [("vanilla", engineTable)]
  | rulesPublished summary => [("summary", summary)]

end Notice

/-- A result with the notices made on the way to it. -/
abbrev Noted := Logged Notice

end DropRules
