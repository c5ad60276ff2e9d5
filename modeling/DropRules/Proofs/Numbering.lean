import DropRules.Proofs.Directory
import Mathlib.Data.List.Induction

/-!
# Numbers by first appearance

A directory numbers values as it meets them: a value that it has met keeps its number, and one that
it has not gets the next.  So a number is a place.  Listed without repetition, in the order in which
they were first met, the values stand at the places that are their numbers, and the handle of a value
is told by the list of values alone (`Handle.among`).

## 1.  Places

Places do not move when more values are met (`Handle.among_append`), different values have
different places (`Handle.id_among_inj`), and the places are the numbers from zero on, as long as a
word can hold them.

## 2.  Directories

`Directory.Numbers` says of a directory that its handles are those of a list of values, numbered by
their places.  One entry more is one value more (`Directory.Numbers.add`), and so a finished
directory numbers the values that are exposed, in the order of the symbols
(`Directory.numbers_ofLookup`).
-/

namespace DropRules

/-! ## Lists without repetition -/

section List

variable {α : Type} [DecidableEq α]

/-- A value behind others appears anew exactly if it is not among them. -/
theorem eraseDups_append_singleton (values : List α) (v : α) :
    (values ++ [v]).eraseDups = if v ∈ values then values.eraseDups else values.eraseDups ++ [v] := by
  rw [List.eraseDups_append, List.removeAll, List.filter_singleton]
  by_cases hv : v ∈ values <;> simp [hv, List.eraseDups_cons]

/-- What is left of a list has no repetition. -/
theorem nodup_eraseDups (values : List α) : values.eraseDups.Nodup := by
  induction values using List.reverseRecOn with
  | nil => exact List.nodup_nil
  | append_singleton values v ih =>
    rw [eraseDups_append_singleton]
    split
    · exact ih
    · next hv => exact ih.append (List.nodup_singleton v) (by simpa using hv)

/-- What is left of a list stands at the front of what is left of a longer one. -/
theorem eraseDups_prefix_append (values more : List α) :
    values.eraseDups <+: (values ++ more).eraseDups := by
  rw [List.eraseDups_append]
  exact List.prefix_append ..

/-- Values that a function keeps apart are repeated where their images are. -/
theorem eraseDups_map {β : Type} [DecidableEq β] {f : α → β} {l : List α}
    (h : ∀ v ∈ l, ∀ w ∈ l, f v = f w → v = w) : (l.map f).eraseDups = l.eraseDups.map f := by
  induction l using List.reverseRecOn with
  | nil => rfl
  | append_singleton l v ih =>
    have hmem : f v ∈ l.map f ↔ v ∈ l := by
      constructor
      · intro hv
        obtain ⟨w, hw, hwv⟩ := List.mem_map.mp hv
        rwa [← h w (List.mem_append_left _ hw) v (by simp) hwv]
      · exact fun hv => List.mem_map_of_mem hv
    have ih := ih fun v hv w hw => h v (List.mem_append_left _ hv) w (List.mem_append_left _ hw)
    rw [List.map_append, List.map_singleton, eraseDups_append_singleton, eraseDups_append_singleton,
      if_congr hmem rfl rfl, ih]
    split
    · rfl
    · rw [List.map_append, List.map_singleton]

end List

/-! ## Places -/

/-- A number that a word can hold is kept. -/
theorem HandleId.toNat_ofNat {i : Nat} (h : i < UInt32.size) : (HandleId.ofNat i).toNat = i :=
  UInt32.toNat_ofNat_of_lt' h

namespace Handle

variable {α : Type} [DecidableEq α] {values : List α} {v w : α}

/-- The handle of a value that is numbered by its place among the different values of a list. -/
def among (values : List α) (v : α) : Handle α :=
  ⟨.ofNat (values.eraseDups.idxOf v), v⟩

/-- A value that was met keeps its place. -/
theorem among_append (hv : v ∈ values) (more : List α) :
    among (values ++ more) v = among values v := by
  have hplace := (eraseDups_prefix_append values more).idxOf_eq_of_mem (List.mem_eraseDups.mpr hv)
  rw [among, among, ← hplace]

/-- A value that was not met gets the place behind the others. -/
theorem among_append_singleton (hv : v ∉ values) :
    among (values ++ [v]) v = ⟨.ofNat values.eraseDups.length, v⟩ := by
  have hnew : v ∉ values.eraseDups := fun h => hv (List.mem_eraseDups.mp h)
  rw [among, eraseDups_append_singleton, if_neg hv, List.idxOf_append_of_notMem hnew]
  simp

variable (hsize : values.eraseDups.length ≤ UInt32.size)

include hsize

/-- The number of a value is its place. -/
theorem toNat_id_among (hv : v ∈ values) :
    (among values v).id.toNat = values.eraseDups.idxOf v := by
  have hlt := List.idxOf_lt_length_iff.mpr (List.mem_eraseDups.mpr hv)
  exact HandleId.toNat_ofNat (by omega)

/-- **Different values have different numbers.** -/
theorem id_among_inj (hv : v ∈ values) (hw : w ∈ values) :
    (among values v).id = (among values w).id ↔ v = w := by
  constructor
  · intro h
    have hplace : values.eraseDups.idxOf v = values.eraseDups.idxOf w := by
      rw [← toNat_id_among hsize hv, ← toNat_id_among hsize hw, h]
    exact (List.idxOf_inj (List.mem_eraseDups.mpr hv)).mp hplace
  · rintro rfl
    rfl

/-- **The different values have the numbers from zero on**, in the order of first appearance. -/
theorem map_toNat_id_among :
    values.eraseDups.map (fun v => (among values v).id.toNat) =
      List.range values.eraseDups.length := by
  refine List.ext_getElem (by simp) fun i hi _ => ?_
  have hi' : i < values.eraseDups.length := by simpa using hi
  rw [List.getElem_map, List.getElem_range,
    toNat_id_among hsize (List.mem_eraseDups.mp (List.getElem_mem hi')),
    (nodup_eraseDups values).idxOf_getElem]

end Handle

/-! ## Directories -/

namespace Directory

variable {σ α : Type} [DecidableEq α] {d : Directory σ α} {values : List α}

/-- The handles of a directory are those of the values, numbered by their places. -/
structure Numbers (d : Directory σ α) (values : List α) : Prop where
  handles : d.entries.map (·.2) = values.map (.among values)
  size : d.size = values.eraseDups.length

/-- The handle in an entry is that of its value. -/
theorem Numbers.eq_among (h : d.Numbers values) {e : σ × Handle α} (he : e ∈ d.entries) :
    e.2.value ∈ values ∧ e.2 = .among values e.2.value := by
  have hmem : e.2 ∈ values.map (.among values) := by
    rw [← h.handles]
    exact List.mem_map_of_mem he
  obtain ⟨v, hv, hve⟩ := List.mem_map.mp hmem
  rw [← hve]
  exact ⟨hv, rfl⟩

/-- The entry that is found for a value holds its handle. -/
theorem Numbers.of_holder? (h : d.Numbers values) {v : α} {e : σ × Handle α}
    (hv : d.holder? v = some e) : v ∈ values ∧ e.2 = .among values v := by
  rw [← value_of_holder? hv]
  exact h.eq_among (List.mem_of_find?_eq_some hv)

/-- An entry is found exactly for the values met. -/
theorem Numbers.holder?_eq_none_iff (h : d.Numbers values) {v : α} :
    d.holder? v = none ↔ v ∉ values := by
  constructor
  · intro hnone hv
    have hmem : Handle.among values v ∈ d.entries.map (·.2) := by
      rw [h.handles]
      exact List.mem_map_of_mem hv
    obtain ⟨e, he, heq⟩ := List.mem_map.mp hmem
    have hvalue : e.2.value = v := congrArg Handle.value heq
    simpa [hvalue] using List.find?_eq_none.mp hnone e he
  · intro hv
    exact Option.eq_none_iff_forall_ne_some.mpr fun e he => hv (h.of_holder? he).1

/-- **One entry more numbers one value more.** -/
theorem Numbers.add (h : d.Numbers values) (s : σ) (v : α) :
    (d.add s v).Numbers (values ++ [v]) := by
  have hkept : values.map (Handle.among (values ++ [v])) = values.map (.among values) :=
    List.map_congr_left fun w hw => Handle.among_append hw [v]
  rw [Directory.add]
  cases hfound : d.holder? v with
  | some e =>
    obtain ⟨hv, he⟩ := h.of_holder? hfound
    constructor
    · rw [List.map_append, List.map_append, h.handles, hkept, List.map_singleton,
        List.map_singleton, Handle.among_append hv, he]
    · rw [eraseDups_append_singleton, if_pos hv, h.size]
  | none =>
    have hv := h.holder?_eq_none_iff.mp hfound
    constructor
    · rw [List.map_append, List.map_append, h.handles, hkept, List.map_singleton,
        List.map_singleton, Handle.among_append_singleton hv, h.size]
    · rw [eraseDups_append_singleton, if_neg hv, h.size, List.length_append, List.length_singleton]

/-- The values exposed, in the order of their symbols. -/
def exposedValues [Symbol σ] (lookup : σ → Option α) : List α :=
  (Symbol.all : List σ).filterMap lookup

omit [DecidableEq α] in
theorem mem_exposedValues [Symbol σ] [Symbol.Listed σ] {lookup : σ → Option α} {v : α} :
    v ∈ exposedValues lookup ↔ Exposed lookup v := by
  rw [exposedValues, List.mem_filterMap]
  constructor
  · rintro ⟨s, -, hs⟩
    exact ⟨s, hs⟩
  · rintro ⟨s, hs⟩
    exact ⟨s, Symbol.Listed.mem_all s, hs⟩

/-- **The finished directory numbers the values exposed**, in the order of their symbols. -/
theorem numbers_ofLookup [Symbol σ] (lookup : σ → Option α) :
    (ofLookup lookup).value.Numbers (exposedValues lookup) := by
  have hrun : ∀ (symbols : List σ) (d : Directory σ α) (values : List α), d.Numbers values →
      (symbols.foldl (fun d s => (note lookup d s).value) d).Numbers
        (values ++ symbols.filterMap lookup) := by
    intro symbols
    induction symbols with
    | nil =>
      intro d values hd
      rwa [List.filterMap_nil, List.append_nil]
    | cons s symbols ih =>
      intro d values hd
      rw [List.foldl_cons, value_note]
      cases hs : lookup s with
      | none =>
        rw [List.filterMap_cons_none hs]
        exact ih d values hd
      | some v =>
        have hnext := ih _ _ (hd.add s v)
        rwa [List.filterMap_cons_some hs, ← List.singleton_append, ← List.append_assoc]
  rw [ofLookup, Logged.value_foldlM]
  exact hrun Symbol.all empty [] ⟨rfl, rfl⟩

end Directory

end DropRules
