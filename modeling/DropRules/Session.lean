import DropRules.Dispatcher

/-!
# Sessions

A `Session` is a dispatcher at work: steps are taken one after the other (`Session.step`), and each
has an `Answer`.  Besides the dispatcher a session holds the tables that were put aside, which
later steps read again, and counts the calls of the engine.
-/

namespace DropRules

/-- How often the engine was called. -/
structure Calls where
  catalogsRead : Nat
  tablesEvaluated : Nat
deriving DecidableEq, Repr

namespace Calls

/-- No call. -/
def zero : Calls :=
  ⟨0, 0⟩

/-- Counts one thing that happened. -/
def count (c : Calls) : Occurrence → Calls
  | .noted _ => c
  | .catalogRead => { c with catalogsRead := c.catalogsRead + 1 }
  | .tableEvaluated => { c with tablesEvaluated := c.tablesEvaluated + 1 }

end Calls

/-- The notices among what happened, in order. -/
def Occurrence.notice? : Occurrence → Option Notice
  | .noted n => some n
  | .catalogRead => none
  | .tableEvaluated => none

/-- What a session can be asked to do. -/
inductive Step (κ : Type) where
  /-- Tell what an attempt drops. -/
  | drop (attempt : κ)
  /-- Publish settings. -/
  | reload (settings : Settings)
  /-- Publish the settings that a text holds. -/
  | reloadText (text : String)
  /-- Publish the engine's own rules by way of their listing. -/
  | reloadListing
  /-- Show the table of a person's own rules. -/
  | ownTable
  /-- Show the table of the engine's own rules. -/
  | engineTable
  /-- Put the table of a person's own rules aside. -/
  | save
  /-- Show a table that was put aside. -/
  | saved (index : Nat)
  /-- Show the engine's own rules in names. -/
  | recovered (wholeOnly : Bool)
  /-- Count the engine's own rules by what can be recovered of them. -/
  | tally
  /-- Show the listing of the engine's own rules. -/
  | listing (names : ItemNames)

/-- The answer to a step. -/
inductive Answer (α ρ : Type) where
  | item (item : Item)
  | published (summary : Summary)
  /-- Nothing was published. -/
  | fault (fault : LoadFault)
  | table (table : DropTable α ρ)
  /-- The place of the table that was put aside. -/
  | place (index : Nat)
  /-- No table was put aside at that place. -/
  | vacant
  | recovered (rules : List RecoveredRule)
  | tally (tally : Tally)
  | listing (text : String)

/-- The answer to a step that publishes. -/
def Answer.ofPublishing {α ρ : Type} : Except LoadFault Summary → Answer α ρ
  | .ok s => .published s
  | .error f => .fault f

/-- A dispatcher at work. -/
structure Session (α ρ κ : Type) where
  dispatcher : Dispatcher α ρ κ
  /-- The tables put aside, the first at place zero. -/
  kept : List (DropTable α ρ)
  calls : Calls

namespace Session

variable {α ρ κ : Type} [DecidableEq α] [DecidableEq ρ]

/-- Counts the calls among what happened. -/
def counted (x : Run (Session α ρ κ × Answer α ρ)) : Run (Session α ρ κ × Answer α ρ) :=
  let w := { x.value.1 with calls := x.log.foldl Calls.count x.value.1.calls }
  { x with value := (w, x.value.2) }

/-- Opens a session over an engine with settings. -/
def opened (e : Engine α ρ κ) (s : Settings) : Run (Session α ρ κ) :=
  let d := Dispatcher.opened e s
  ⟨⟨d.value, [], d.log.foldl Calls.count .zero⟩, d.log⟩

/-- The session under another dispatcher. -/
def under (w : Session α ρ κ) (d : Dispatcher α ρ κ) : Session α ρ κ :=
  { w with dispatcher := d }

/-- Does what a step asks for, without counting. -/
def perform (w : Session α ρ κ) : Step κ → Run (Session α ρ κ × Answer α ρ)
  | .drop attempt => do
    let i ← w.dispatcher.drop attempt
    pure (w, .item i)
  | .reload s => do
    let (d, summary) ← Noted.toRun (w.dispatcher.reload s)
    pure (w.under d, .published summary)
  | .reloadText text => do
    let (d, result) ← Noted.toRun (w.dispatcher.reloadText text)
    pure (w.under d, .ofPublishing result)
  | .reloadListing => do
    let (d, result) ← Noted.toRun w.dispatcher.reloadListing
    pure (w.under d, .ofPublishing result)
  | .ownTable => pure (w, .table w.dispatcher.published.table)
  | .engineTable => pure (w, .table w.dispatcher.engineTable)
  | .save =>
    pure ({ w with kept := w.kept ++ [w.dispatcher.published.table] }, .place w.kept.length)
  | .saved i => pure (w, (w.kept[i]?).elim .vacant .table)
  | .recovered wholeOnly => pure (w, .recovered (w.dispatcher.recovered wholeOnly))
  | .tally => pure (w, .tally w.dispatcher.tally)
  | .listing names => pure (w, .listing (w.dispatcher.listing names))

/-- Takes one step. -/
def step (w : Session α ρ κ) (s : Step κ) : Run (Session α ρ κ × Answer α ρ) :=
  counted (w.perform s)

/-- Takes steps one after the other; the results of all of them. -/
def run : Session α ρ κ → List (Step κ) → List (Run (Session α ρ κ × Answer α ρ))
  | _, [] => []
  | w, s :: rest =>
    let x := w.step s
    x :: run x.value.1 rest

end Session

end DropRules
