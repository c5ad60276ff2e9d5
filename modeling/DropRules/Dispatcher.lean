import DropRules.Adoption
import DropRules.Assembly
import DropRules.Listing
import DropRules.Settings

/-!
# The dispatcher

A `Dispatcher` stands between the engine and a person's settings.  It reads the engine's catalog
once, names what the catalog exposes and takes over the engine's own rules; none of that changes
afterwards.  What settings change is the `Publication`: the table of a person's own rules, and
which of the two tables are asked.

## 1.  Publishing

A publication is made from settings and the naming alone (`Publication.ofSettings`), and replaces
the one before as a whole (`Dispatcher.reload`).  Settings without rules publish the empty table:
not even the barrier against enemies is in it.  A text that is no settings changes nothing
(`Dispatcher.reloadText`).

## 2.  Dropping

An attempt is answered by the own table first and by the engine's table if the former has no
answer, each provided that it is enabled (`Dispatcher.drop`).  Each table that is asked costs one
evaluation.

## 3.  What can be seen

Notices and the calls of the engine are seen in the order in which they happen (`Occurrence`).
-/

namespace DropRules

/-- The engine, as far as a dispatcher is concerned: what it offers, and how it evaluates a table
for an attempt. -/
structure Engine (α ρ κ : Type) where
  catalog : Catalog α ρ
  evaluate : DropTable α ρ → κ → Item

/-- What happens while a dispatcher works. -/
inductive Occurrence where
  /-- Something was reported. -/
  | noted (notice : Notice)
  /-- The engine was asked for its catalog. -/
  | catalogRead
  /-- The engine was asked to evaluate a table. -/
  | tableEvaluated

/-- A result with all that happened on the way to it. -/
abbrev Run := Logged Occurrence

/-- A result with notices, among whatever else happens. -/
def Noted.toRun {β : Type} (x : Noted β) : Run β :=
  x.mapLog .noted

namespace Engine

variable {α ρ κ : Type}

/-- Asks the engine for its catalog. -/
def readCatalog (e : Engine α ρ κ) : Run (Catalog α ρ) := do
  Logged.tell .catalogRead
  pure e.catalog

/-- Asks the engine to evaluate a table. -/
def ask (e : Engine α ρ κ) (table : DropTable α ρ) (attempt : κ) : Run Item := do
  Logged.tell .tableEvaluated
  pure (e.evaluate table attempt)

end Engine

/-- What settings change about a dispatcher. -/
structure Publication (α ρ : Type) where
  /-- The table of a person's own rules. -/
  table : DropTable α ρ
  ownEnabled : Bool
  engineEnabled : Bool
deriving DecidableEq, Repr

/-- The account of one publication. -/
structure Summary where
  /-- How many rules were bound. -/
  loaded : Nat
  /-- How many rules could not be bound. -/
  skipped : Nat
  /-- How many rules the table has, barriers included. -/
  published : Nat
deriving DecidableEq, Repr

/-- The wording of an account. -/
def Summary.text (s : Summary) : String :=
  toString s.loaded ++ " custom rules loaded, " ++ toString s.skipped ++ " skipped, "
    ++ toString s.published ++ " entries published"

variable {α ρ κ : Type} [DecidableEq α] [DecidableEq ρ]

/-- The account of an assembly. -/
def Assembly.summary (a : Assembly α ρ) : Summary :=
  ⟨a.loaded, a.skipped, a.table.length⟩

/-- Assembles the rules that settings list; of no rules, the empty table is made. -/
def Assembly.ofSettings (n : Naming α ρ) (s : Settings) : Noted (Assembly α ρ) :=
  if s.rules.isEmpty then pure .empty
  else do ofRules n (← s.namedRules)

namespace Publication

/-- The publication of an assembly, under the switches of settings. -/
def ofAssembly (a : Assembly α ρ) (s : Settings) : Publication α ρ :=
  ⟨a.table, s.ownEnabled, s.engineEnabled⟩

/-- Makes a publication of settings, with its account.  The account is reported if there is a rule
in it. -/
def ofSettings (n : Naming α ρ) (s : Settings) : Noted (Publication α ρ × Summary) := do
  let a ← Assembly.ofSettings n s
  if 0 < a.loaded then
    Logged.tell (.rulesPublished a.summary.text)
  pure (ofAssembly a s, a.summary)

end Publication

/-- The state between the engine and a person's settings. -/
structure Dispatcher (α ρ κ : Type) where
  engine : Engine α ρ κ
  naming : Naming α ρ
  /-- The engine's own rules. -/
  engineTable : DropTable α ρ
  published : Publication α ρ

namespace Dispatcher

/-- Publishes settings in place of what was published before. -/
def reload (d : Dispatcher α ρ κ) (s : Settings) : Noted (Dispatcher α ρ κ × Summary) := do
  let (published, summary) ← Publication.ofSettings d.naming s
  pure ({ d with published := published }, summary)

/-- Opens a dispatcher over an engine and publishes settings. -/
def opened (e : Engine α ρ κ) (s : Settings) : Run (Dispatcher α ρ κ) := do
  let catalog ← e.readCatalog
  Noted.toRun do
    let naming ← Naming.ofCatalog catalog
    let engineTable := naming.adopt catalog.rules
    Logged.tell (.dispatcherOpened engineTable.text)
    let (published, _) ← Publication.ofSettings naming s
    pure ⟨e, naming, engineTable, published⟩

/-- Publishes the settings that a text holds.  If it holds none, nothing changes. -/
def reloadText (d : Dispatcher α ρ κ) (text : String) :
    Noted (Dispatcher α ρ κ × Except LoadFault Summary) := do
  match ← Settings.ofText text with
  | .error f => pure (d, .error f)
  | .ok s =>
    let (d, summary) ← d.reload s
    pure (d, .ok summary)

/-- The item that an attempt drops, or zero. -/
def drop (d : Dispatcher α ρ κ) (attempt : κ) : Run Item := do
  let own ← if d.published.ownEnabled then d.engine.ask d.published.table attempt else pure 0
  if own ≠ 0 then pure own
  else if d.published.engineEnabled then d.engine.ask d.engineTable attempt
  else pure 0

/-- The engine's own rules in names; with `wholeOnly`, only those that came back whole. -/
def recovered (d : Dispatcher α ρ κ) (wholeOnly : Bool) : List RecoveredRule :=
  d.naming.recoverTable d.engineTable wholeOnly

/-- The engine's own rules, counted by what could be recovered of them. -/
def tally (d : Dispatcher α ρ κ) : Tally :=
  d.naming.tally d.engineTable

/-- A listing of those of the engine's own rules that came back whole. -/
def listing (d : Dispatcher α ρ κ) (names : ItemNames) : String :=
  Listing.text (d.recovered true) d.tally names

/-- Publishes the rules of the engine that a listing holds as if a person had written them, and
enables both tables. -/
def reloadListing (d : Dispatcher α ρ κ) : Noted (Dispatcher α ρ κ × Except LoadFault Summary) := do
  match ← RuleList.ofText (d.listing .unknown) with
  | .error f => pure (d, .error f)
  | .ok rules =>
    let (d, summary) ← d.reload ⟨true, true, rules.map Entry.ofRule⟩
    pure (d, .ok summary)

end Dispatcher

end DropRules
