import DropRules.Naming
import DropRules.Table

/-!
# Assembling a table from named rules

`Assembly.ofRules` makes the table that the engine walks.

## 1.  The order

1. A barrier on `Condition.anyEnemies`, if the engine exposes it: enemies drop nothing.
2. For every region that some rule belongs to, in the priority of regions, the rules of that region
   in their given order and then a barrier on the region's condition, if the engine exposes it.
   The barrier keeps the rules below from firing inside the region.
3. The rules that belong to no region, in their given order.

## 2.  Binding

A rule is bound to handles on its own (`Naming.bind`).  A condition without a handle is dropped
from the rule.  A rarity without a handle gives way to `Rarity.fallback`; if that has none either,
the rule is skipped and counted, and the others are not affected.
-/

namespace DropRules

variable {α ρ : Type} [DecidableEq α] [DecidableEq ρ]

namespace Naming

/-- The handles of the conditions that have one, in order; the others are reported. -/
def bindConditions (n : Naming α ρ) : List Condition → Noted (List (Handle α))
  | [] => pure []
  | c :: rest =>
    match n.condition? c with
    | some h => do
      let hs ← n.bindConditions rest
      pure (h :: hs)
    | none => do
      Logged.tell (.conditionUnresolved c)
      n.bindConditions rest

/-- The handle for the rarity of a rule: its own, or that of the fallback. -/
def bindRarity (n : Naming α ρ) (rarity : Option Rarity) : Except BindError (Handle ρ) :=
  match (rarity.bind n.rarity?).or (n.rarity? .fallback) with
  | some h => .ok h
  | none => .error (.missingRarity (rarity.getD .fallback))

/-- Binds a rule to handles. -/
def bind (n : Naming α ρ) (r : NamedRule) : Noted (Except BindError (BoundRule α ρ)) :=
  match n.bindRarity r.rarity with
  | .error e => pure (.error e)
  | .ok rarity => do
    let conditions ← n.bindConditions r.conditions
    pure (.ok ⟨r.items, r.numerator, r.denominator, some rarity, conditions⟩)

/-- The barrier on a condition, if the condition has a handle. -/
def barrier? (n : Naming α ρ) (c : Condition) : Option (BoundRule α ρ) :=
  (n.condition? c).map fun h => .barrier h (n.rarity? .any)

end Naming

/-- Rules sorted by region. -/
structure Groups where
  /-- The regions that some rule belongs to, by priority, each with its rules in order. -/
  regions : List (Region × List NamedRule)
  /-- The rules that belong to no region, in order. -/
  others : List NamedRule

namespace Groups

/-- Puts a rule behind the others of its region, in a list of groups ordered by priority. -/
def insert (region : Region) (r : NamedRule) :
    List (Region × List NamedRule) → List (Region × List NamedRule)
  | [] => [(region, [r])]
  | (q, rs) :: rest =>
    if q = region then (q, rs ++ [r]) :: rest
    else if region.priority < q.priority then (region, [r]) :: (q, rs) :: rest
    else (q, rs) :: insert region r rest

/-- Puts a rule into its group. -/
def add (g : Groups) (r : NamedRule) : Groups :=
  match Region.ofConditions? r.conditions with
  | some region => { g with regions := insert region r g.regions }
  | none => { g with others := g.others ++ [r] }

/-- Sorts rules by region. -/
def ofRules (rules : List NamedRule) : Groups :=
  rules.foldl add ⟨[], []⟩

end Groups

/-- A table with the account of how it was assembled. -/
structure Assembly (α ρ : Type) where
  table : DropTable α ρ
  /-- How many rules were bound; barriers of the assembly itself do not count. -/
  loaded : Nat
  /-- How many rules could not be bound. -/
  skipped : Nat
deriving Repr

namespace Assembly

/-- The assembly without rules. -/
def empty : Assembly α ρ :=
  ⟨∅, 0, 0⟩

/-- Adds a rule of the table behind the others. -/
def push (a : Assembly α ρ) (r : BoundRule α ρ) : Assembly α ρ :=
  { a with table := ⟨a.table.rules ++ [r]⟩ }

/-- Adds a named rule, or counts and reports it as skipped. -/
def addRule (n : Naming α ρ) (a : Assembly α ρ) (r : NamedRule) : Noted (Assembly α ρ) := do
  match ← n.bind r with
  | .ok bound => pure { a.push bound with loaded := a.loaded + 1 }
  | .error e =>
    Logged.tell (.ruleSkipped r.items e)
    pure { a with skipped := a.skipped + 1 }

/-- Adds the barrier on a condition, if it has a handle, and reports it. -/
def addBarrier (n : Naming α ρ) (a : Assembly α ρ) (c : Condition) (notice : Notice) :
    Noted (Assembly α ρ) :=
  match n.barrier? c with
  | some b => do
    Logged.tell notice
    pure (a.push b)
  | none => pure a

/-- Adds the rules of a region and the barrier that closes them. -/
def addGroup (n : Naming α ρ) (a : Assembly α ρ) (group : Region × List NamedRule) :
    Noted (Assembly α ρ) := do
  let a ← group.2.foldlM (addRule n) a
  a.addBarrier n group.1.condition (.regionBarrierAdded group.1)

/-- Assembles the table of named rules. -/
def ofRules (n : Naming α ρ) (rules : List NamedRule) : Noted (Assembly α ρ) := do
  let groups := Groups.ofRules rules
  let a ← addBarrier n empty .anyEnemies .headBarrierAdded
  let a ← groups.regions.foldlM (addGroup n) a
  groups.others.foldlM (addRule n) a

/-- A one-line account of the assembly. -/
def text (a : Assembly α ρ) : String :=
  toString a.loaded ++ " loaded, " ++ toString a.skipped ++ " skipped, " ++ a.table.text

end Assembly

end DropRules
