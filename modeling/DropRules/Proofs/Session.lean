import DropRules.Evaluation
import DropRules.Proofs.Names
import DropRules.Session

/-!
# What a session remembers

A session takes steps of eleven kinds, some of which fail, and its steps are asked for in any order.
Here it is told what is left of them.

## 1.  The settings loaded last

A step may load settings (`Step.settings?`): those that it is given, those that its text holds, if
it holds any, or those that the listing of the engine's own rules holds, which it always does
(`Dispatcher.value_reloadListing`).  Of all that came before, the dispatcher remembers only which
settings were loaded last.  It is the dispatcher that a newcomer with these settings would open over
the same engine (`Session.dispatcher_after`).  So a text that holds no settings leaves no trace, and
what was read from the engine at the beginning is never read again.

## 2.  The tables put aside

The tables that were put aside are a list that only grows at its end (`Session.kept_step`).  A table
keeps its place in it and is never touched.

Both are shown for one step first, and then for a run by induction over its steps.  Put together,
they are `Session.history_independent`.
-/

namespace DropRules

variable {α ρ κ : Type}

/-! ## Dispatchers -/

namespace Dispatcher

/-- What the own table has for an attempt; zero if it is not to be asked. -/
def ownDrop (d : Dispatcher α ρ κ) (attempt : κ) : Item :=
  if d.published.ownEnabled then d.engine.evaluate d.published.table attempt else 0

/-- How many tables are asked for an attempt. -/
def tablesAsked (d : Dispatcher α ρ κ) (attempt : κ) : Nat :=
  (if d.published.ownEnabled then 1 else 0)
    + if d.ownDrop attempt = 0 ∧ d.published.engineEnabled then 1 else 0

/-- The own table comes first, and the engine's table only if the own one has nothing. -/
theorem value_drop (d : Dispatcher α ρ κ) (attempt : κ) :
    (d.drop attempt).value =
      if d.ownDrop attempt ≠ 0 then d.ownDrop attempt
      else if d.published.engineEnabled then d.engine.evaluate d.engineTable attempt
      else 0 := by
  rw [drop, ownDrop]
  cases d.published.ownEnabled with
  | false => cases d.published.engineEnabled <;> rfl
  | true =>
    by_cases hown : d.engine.evaluate d.published.table attempt = 0
    · cases d.published.engineEnabled <;> simp [Engine.ask, hown]
    · simp [Engine.ask, hown]

/-- All that happens is that tables are asked. -/
theorem log_drop (d : Dispatcher α ρ κ) (attempt : κ) :
    (d.drop attempt).log = List.replicate (d.tablesAsked attempt) .tableEvaluated := by
  rw [drop, tablesAsked, ownDrop]
  cases d.published.ownEnabled with
  | false => cases d.published.engineEnabled <;> rfl
  | true =>
    by_cases hown : d.engine.evaluate d.published.table attempt = 0
    · cases d.published.engineEnabled <;> simp [Engine.ask, hown]
    · simp [Engine.ask, hown]

/-- A text changes nothing, or it changes what its settings change. -/
theorem value_reloadText (d : Dispatcher α ρ κ) (text : String) :
    (d.reloadText text).value =
      match (Settings.ofText text).value with
      | .error f => (d, .error f)
      | .ok s => ((d.reload s).value.1, .ok (d.reload s).value.2) := by
  rw [reloadText, Logged.value_bind]
  cases (Settings.ofText text).value <;> rfl

variable [DecidableEq α] [DecidableEq ρ]

/-- Settings replace those before them, whatever they were. -/
theorem value_reload_opened (e : Engine α ρ κ) (s s' : Settings) :
    (((opened e s).value).reload s').value.1 = (opened e s').value := rfl

/-- The settings that the engine's own rules make if a person takes all of them over. -/
def listed (d : Dispatcher α ρ κ) : Settings :=
  ⟨true, true, (d.recovered true).map fun r => Entry.ofRule r.toNamed⟩

/-- The listing of the engine's own rules can always be loaded. -/
theorem value_reloadListing (d : Dispatcher α ρ κ) :
    d.reloadListing.value = ((d.reload d.listed).value.1, .ok (d.reload d.listed).value.2) := by
  have hrules : (RuleList.ofText (d.listing .unknown)).value =
      .ok ((d.recovered true).map RecoveredRule.toNamed) :=
    Listing.value_ofText_of_shown d.tally (ItemNames.unbroken_unknown _)
      (ItemNames.allowed_unknown _)
  rw [reloadListing, Logged.value_bind, hrules]
  show ((d.reload ⟨true, true, ((d.recovered true).map _).map _⟩).value.1, _) = _
  rw [List.map_map]
  rfl

end Dispatcher

/-! ## One step -/

namespace Calls

/-- Nothing is counted for what is reported. -/
theorem foldl_count_noted (c : Calls) (ns : List Notice) :
    (ns.map Occurrence.noted).foldl count c = c := by
  induction ns with
  | nil => rfl
  | cons n ns ih => exact ih

theorem foldl_count_tableEvaluated (c : Calls) (n : Nat) :
    (List.replicate n Occurrence.tableEvaluated).foldl count c =
      { c with tablesEvaluated := c.tablesEvaluated + n } := by
  induction n generalizing c with
  | zero => rfl
  | succ n ih =>
    rw [List.replicate_succ, List.foldl_cons, ih]
    simp [count, Nat.add_comm, Nat.add_left_comm]

end Calls

namespace Session

/-- Publishing changes the dispatcher, and no call of the engine is counted for it. -/
theorem value_counted_publishing {β : Type} (w : Session α ρ κ)
    (x : Noted (Dispatcher α ρ κ × β)) (f : β → Answer α ρ) :
    (counted (do
      let (d, b) ← Noted.toRun x
      pure (w.under d, f b))).value = (w.under x.value.1, f x.value.2) := by
  obtain ⟨⟨d, b⟩, log⟩ := x
  show (({ w.under d with calls := (log.map Occurrence.noted ++ []).foldl Calls.count w.calls } :
    Session α ρ κ), f b) = _
  rw [List.append_nil, Calls.foldl_count_noted]
  rfl

end Session

variable [DecidableEq α] [DecidableEq ρ]

/-- The settings that a step loads, if it loads any. -/
def Step.settings? (e : Engine α ρ κ) : Step κ → Option Settings
  | .reload s => some s
  | .reloadText text => (Settings.ofText text).value.toOption
  | .reloadListing => some (Dispatcher.opened e .standard).value.listed
  | _ => none

namespace Session

variable {e : Engine α ρ κ} {s : Settings} {w : Session α ρ κ}

theorem value_step_reload (w : Session α ρ κ) (s : Settings) :
    (w.step (.reload s)).value =
      (w.under (w.dispatcher.reload s).value.1, .published (w.dispatcher.reload s).value.2) :=
  value_counted_publishing w (w.dispatcher.reload s) .published

theorem value_step_reloadText (w : Session α ρ κ) (text : String) :
    (w.step (.reloadText text)).value =
      (w.under (w.dispatcher.reloadText text).value.1,
        .ofPublishing (w.dispatcher.reloadText text).value.2) :=
  value_counted_publishing w (w.dispatcher.reloadText text) .ofPublishing

theorem value_step_reloadListing (w : Session α ρ κ) :
    (w.step .reloadListing).value =
      (w.under w.dispatcher.reloadListing.value.1,
        .ofPublishing w.dispatcher.reloadListing.value.2) :=
  value_counted_publishing w w.dispatcher.reloadListing .ofPublishing

/-- An attempt leaves the session as it was, but for the tables that were asked. -/
theorem value_step_drop (w : Session α ρ κ) (attempt : κ) :
    (w.step (.drop attempt)).value =
      ({ w with calls := { w.calls with
          tablesEvaluated := w.calls.tablesEvaluated + w.dispatcher.tablesAsked attempt } },
        .item (w.dispatcher.drop attempt).value) := by
  show (({ w with calls := ((w.dispatcher.drop attempt).log ++ []).foldl Calls.count w.calls } :
    Session α ρ κ), _) = _
  rw [List.append_nil, Dispatcher.log_drop, Calls.foldl_count_tableEvaluated]
  rfl

/-- A text that holds no settings is answered with what is wrong with it, and that is all. -/
theorem value_step_reloadText_of_error {text : String} {f : LoadFault}
    (h : (Settings.ofText text).value = .error f) (w : Session α ρ κ) :
    (w.step (.reloadText text)).value = (w, .fault f) := by
  have hreload : (w.dispatcher.reloadText text).value = (w.dispatcher, .error f) := by
    rw [Dispatcher.value_reloadText, h]
  rw [value_step_reloadText, hreload]
  rfl

/-- The catalog is read when a session is opened. -/
theorem catalogsRead_opened (e : Engine α ρ κ) (s : Settings) :
    (opened e s).value.calls.catalogsRead = 1 := by
  obtain ⟨ns, hlog⟩ : ∃ ns : List Notice,
      (Dispatcher.opened e s).log = .catalogRead :: ns.map .noted := ⟨_, rfl⟩
  show ((Dispatcher.opened e s).log.foldl Calls.count .zero).catalogsRead = 1
  rw [hlog, List.foldl_cons, Calls.foldl_count_noted]
  rfl

/-- The catalog is not read again. -/
theorem catalogsRead_step (w : Session α ρ κ) (st : Step κ) :
    (w.step st).value.1.calls.catalogsRead = w.calls.catalogsRead := by
  cases st with
  | drop attempt => rw [value_step_drop]
  | reload s => rw [value_step_reload]; rfl
  | reloadText text => rw [value_step_reloadText]; rfl
  | reloadListing => rw [value_step_reloadListing]; rfl
  | _ => rfl

/-- **A step loads settings, or the dispatcher stays as it is.** -/
theorem dispatcher_step (h : w.dispatcher = (Dispatcher.opened e s).value) (st : Step κ) :
    (w.step st).value.1.dispatcher = (Dispatcher.opened e ((st.settings? e).getD s)).value := by
  have hreload : ∀ s', (w.dispatcher.reload s').value.1 = (Dispatcher.opened e s').value := by
    intro s'
    rw [h, Dispatcher.value_reload_opened]
  cases st with
  | reload s' =>
    rw [value_step_reload]
    exact hreload s'
  | reloadText text =>
    rw [value_step_reloadText, Session.under, Dispatcher.value_reloadText, Step.settings?]
    cases (Settings.ofText text).value with
    | error f => exact h
    | ok s' => exact hreload s'
  | reloadListing =>
    -- what is listed depends on what settings do not change
    have hlisted : w.dispatcher.listed = (Dispatcher.opened e .standard).value.listed := by
      rw [h]
      rfl
    rw [value_step_reloadListing, Session.under, Dispatcher.value_reloadListing, hlisted]
    exact hreload _
  | drop attempt =>
    rw [value_step_drop]
    exact h
  | _ => exact h

/-- A table is put aside behind those that were, or none is. -/
theorem kept_step (w : Session α ρ κ) (st : Step κ) :
    w.kept <+: (w.step st).value.1.kept := by
  have hsame : (w.step st).value.1.kept = w.kept → w.kept <+: (w.step st).value.1.kept :=
    fun h => ⟨[], by rw [h, List.append_nil]⟩
  cases st with
  | save => exact List.prefix_append _ _
  | drop attempt => exact hsame (by rw [value_step_drop])
  | reload s => exact hsame (by rw [value_step_reload]; rfl)
  | reloadText text => exact hsame (by rw [value_step_reloadText]; rfl)
  | reloadListing => exact hsame (by rw [value_step_reloadListing]; rfl)
  | _ => exact hsame rfl

/-! ## Runs -/

/-- The session after steps. -/
def after (w : Session α ρ κ) (steps : List (Step κ)) : Session α ρ κ :=
  steps.foldl (fun w st => (w.step st).value.1) w

/-- The settings loaded last, where `s` were loaded first. -/
def lastSettings (e : Engine α ρ κ) (s : Settings) (steps : List (Step κ)) : Settings :=
  steps.foldl (fun s st => (st.settings? e).getD s) s

theorem after_append (w : Session α ρ κ) (steps steps' : List (Step κ)) :
    w.after (steps ++ steps') = (w.after steps).after steps' :=
  List.foldl_append

/-- What was done before matters only for the session that it leaves behind. -/
theorem run_append (w : Session α ρ κ) (steps steps' : List (Step κ)) :
    w.run (steps ++ steps') = w.run steps ++ (w.after steps).run steps' := by
  induction steps generalizing w with
  | nil => rfl
  | cons st steps ih =>
    rw [List.cons_append, run, ih, run]
    rfl

theorem catalogsRead_after (w : Session α ρ κ) (steps : List (Step κ)) :
    (w.after steps).calls.catalogsRead = w.calls.catalogsRead := by
  induction steps generalizing w with
  | nil => rfl
  | cons st steps ih => exact (ih _).trans (catalogsRead_step w st)

/-- **All that the dispatcher remembers of a run** are the settings loaded last. -/
theorem dispatcher_after (h : w.dispatcher = (Dispatcher.opened e s).value)
    (steps : List (Step κ)) :
    (w.after steps).dispatcher = (Dispatcher.opened e (lastSettings e s steps)).value := by
  induction steps generalizing w s with
  | nil => exact h
  | cons st steps ih => exact ih (dispatcher_step h st)

theorem kept_after (w : Session α ρ κ) (steps : List (Step κ)) :
    w.kept <+: (w.after steps).kept := by
  induction steps generalizing w with
  | nil => exact List.prefix_rfl
  | cons st steps ih => exact (kept_step w st).trans (ih _)

/-- A table put aside is found at its place, whatever is done afterwards. -/
theorem getElem?_kept_after_save (w : Session α ρ κ) (later : List (Step κ)) :
    (w.after (.save :: later)).kept[w.kept.length]? = some w.dispatcher.published.table := by
  obtain ⟨tail, htail⟩ := kept_after (w.step .save).value.1 later
  have hkept : (w.step .save).value.1.kept = w.kept ++ [w.dispatcher.published.table] := rfl
  show ((w.step .save).value.1.after later).kept[w.kept.length]? = _
  rw [← htail, hkept, List.append_assoc, List.getElem?_append_right (Nat.le_refl _), Nat.sub_self]
  rfl

/-- **A session has no history** but for the settings loaded last and the tables put aside.  After
any steps from its opening on:

* the engine's catalog was read once, and what was made of it is what was made at the opening;
* what is published is what a session opened with the settings loaded last would publish;
* a text that holds no settings changes nothing, and the results of all other steps are those of
  the run without it;
* a table that was put aside is found at its place as it was published when it was put aside;
* an attempt drops what the own table has for it, if that is enabled and has something, and
  otherwise what the engine's table has, if that is enabled; only the tables that are needed for
  this are asked. -/
theorem history_independent (e : Engine α ρ κ) (s : Settings) (steps : List (Step κ)) :
    let w₀ := (opened e s).value
    let w := w₀.after steps
    (w.calls.catalogsRead = 1 ∧ w.dispatcher.engine = e ∧
      w.dispatcher.naming = w₀.dispatcher.naming ∧
      w.dispatcher.engineTable = w₀.dispatcher.engineTable) ∧
    w.dispatcher.published = (opened e (lastSettings e s steps)).value.dispatcher.published ∧
    (∀ text f, (Settings.ofText text).value = .error f →
      (w.step (.reloadText text)).value = (w, .fault f) ∧
      ∀ later,
        w₀.run (steps ++ .reloadText text :: later) =
            w₀.run steps ++ w.step (.reloadText text) :: w.run later ∧
          w₀.run (steps ++ later) = w₀.run steps ++ w.run later) ∧
    (∀ earlier later, steps = earlier ++ .save :: later →
      let v := w₀.after earlier
      (v.step .save).value.2 = .place v.kept.length ∧
        w.kept[v.kept.length]? = some v.dispatcher.published.table ∧
        (w.step (.saved v.kept.length)).value = (w, .table v.dispatcher.published.table)) ∧
    (∀ attempt, (w.step (.drop attempt)).value =
      let own := if w.dispatcher.published.ownEnabled then
        e.evaluate w.dispatcher.published.table attempt else 0
      let askedOwn := if w.dispatcher.published.ownEnabled then 1 else 0
      let askedEngine := if own = 0 ∧ w.dispatcher.published.engineEnabled then 1 else 0
      ({ w with calls := { w.calls with
          tablesEvaluated := w.calls.tablesEvaluated + (askedOwn + askedEngine) } },
        .item (if own ≠ 0 then own
          else if w.dispatcher.published.engineEnabled then
            e.evaluate w₀.dispatcher.engineTable attempt
          else 0))) := by
  intro w₀ w
  have hopened : w₀.dispatcher = (Dispatcher.opened e s).value := rfl
  have hdispatcher : w.dispatcher = (Dispatcher.opened e (lastSettings e s steps)).value :=
    dispatcher_after hopened steps
  refine ⟨⟨?_, ?_, ?_, ?_⟩, ?_, ?_, ?_, ?_⟩
  · exact (catalogsRead_after w₀ steps).trans (catalogsRead_opened e s)
  · rw [hdispatcher]
    rfl
  · rw [hdispatcher]
    rfl
  · rw [hdispatcher]
    rfl
  · rw [hdispatcher]
    rfl
  · intro text f hf
    have hstep := value_step_reloadText_of_error hf w
    refine ⟨hstep, fun later => ?_⟩
    have hrun : w.run (.reloadText text :: later) = w.step (.reloadText text) :: w.run later := by
      rw [run, hstep]
    exact ⟨by rw [run_append, hrun], run_append w₀ steps later⟩
  · intro earlier later hsteps v
    have hkept : w.kept[v.kept.length]? = some v.dispatcher.published.table := by
      show ((w₀.after steps).kept)[v.kept.length]? = _
      rw [hsteps, after_append]
      exact getElem?_kept_after_save v later
    refine ⟨rfl, hkept, ?_⟩
    show (w, (w.kept[v.kept.length]?).elim Answer.vacant Answer.table) = _
    rw [hkept]
    rfl
  · intro attempt
    have hengine : w.dispatcher.engine = e := by rw [hdispatcher]; rfl
    have htable : w.dispatcher.engineTable = w₀.dispatcher.engineTable := by rw [hdispatcher]; rfl
    rw [value_step_drop, Dispatcher.value_drop, Dispatcher.tablesAsked, Dispatcher.ownDrop, hengine,
      htable]

/-- Settings with a rule for the jungle are loaded, their table is put aside, and other settings are
loaded.  The table that was published and put aside has that rule, bound to the values of the jungle
and of the common roll, and while it is published an attempt in the jungle gets the item of the rule.
A text that holds no settings changes nothing then, the table is where it was put, and an attempt in
the jungle falls to the engine's own rule. -/
theorem history_independent_jungle :
    let catalog : Catalog Nat Nat :=
      ((Catalog.empty.exposeCondition .jungle 5).exposeRarity .common 1).addRule
        ⟨[7], 1, 1, none, [5]⟩
    let e : Engine Nat Nat Nat := ⟨catalog, fun t held => t.firstDrop (· == held) fun _ => true⟩
    let own : Settings := ⟨true, false, [⟨[3], 1, 1, none, ["Jungle"]⟩]⟩
    let steps : List (Step Nat) := [.reload own, .save, .reload ⟨true, true, []⟩]
    let v := (opened e .standard).value.after [.reload own]
    let w := (opened e .standard).value.after steps
    let table : DropTable Nat Nat := ⟨[⟨[3], 1, 1, some ⟨.ofNat 0, 1⟩, [⟨.ofNat 0, 5⟩]⟩]⟩
    v.dispatcher.published = ⟨table, true, false⟩ ∧ (v.step (.drop 5)).value.2 = .item 3 ∧
      w.dispatcher.published = ⟨⟨[]⟩, true, true⟩ ∧
      ∃ f, (Settings.ofText "- 1").value = .error f ∧
        (w.step (.reloadText "- 1")).value = (w, .fault f) ∧
        w.kept[0]? = some (Dispatcher.opened e own).value.published.table ∧
        (w.step (.saved 0)).value = (w, .table table) ∧
        (w.step (.drop 5)).value.2 = .item 7 := by
  intro catalog e own steps v w table
  obtain ⟨f, hf⟩ : ∃ f, (Settings.ofText "- 1").value = .error f := by
    have hnone : (Settings.ofText "- 1").value.toOption = none := by decide +kernel
    cases htext : (Settings.ofText "- 1").value with
    | error f => exact ⟨f, rfl⟩
    | ok s =>
      rw [htext] at hnone
      cases hnone
  obtain ⟨-, hfirst, -, -, hfirstDrop⟩ := history_independent e .standard [.reload own]
  obtain ⟨-, hlast, htext, hsave, hdrop⟩ := history_independent e .standard steps
  have hpublished : v.dispatcher.published = ⟨table, true, false⟩ :=
    hfirst.trans (by decide +kernel)
  obtain ⟨-, hkept, hsaved⟩ := hsave [.reload own] [.reload ⟨true, true, []⟩] rfl
  have hshown : (w.step (.saved 0)).value = (w, .table v.dispatcher.published.table) := hsaved
  rw [hpublished] at hshown
  refine ⟨hpublished, ?_, hlast.trans (by decide +kernel), f, hf, (htext "- 1" f hf).1, hkept,
    hshown, ?_⟩
  · exact (congrArg Prod.snd (hfirstDrop 5)).trans (congrArg Answer.item (by decide +kernel))
  · exact (congrArg Prod.snd (hdrop 5)).trans (congrArg Answer.item (by decide +kernel))

end Session

end DropRules
