import DropRules.Naming
import Mathlib.Data.List.Nodup

/-!
# What a directory knows

A directory is made by one walk over the symbols.  What is to be known of it afterwards is carried
through that walk by an invariant, `Directory.Mirrors`: the entries are those of the symbols that
the engine exposes, each once and in their order, and each holds the value exposed for its symbol.

From it follows what the two ways through a directory have to do with the engine.  The handle of a
symbol holds the value exposed for it (`Directory.Mirrors.handle?_value`).  A handle that has a
symbol is the handle of that symbol, number and all (`Directory.Mirrors.handle?_of_symbol?`).
-/

namespace DropRules

namespace Symbol

/-- The list of all symbols holds each of them, and none twice. -/
class Listed (σ : Type) [Symbol σ] : Prop where
  nodup : (all : List σ).Nodup
  mem_all : ∀ s : σ, s ∈ (all : List σ)

instance : Listed Condition where
  nodup := by decide
  mem_all s := by cases s <;> decide

instance : Listed Rarity where
  nodup := by decide
  mem_all s := by cases s <;> decide

end Symbol

namespace Directory

variable {σ α : Type}

/-! ## What is found -/

/-- The handle found for a symbol is in an entry of the symbol. -/
theorem mem_entries_of_handle? [DecidableEq σ] {d : Directory σ α} {s : σ} {g : Handle α}
    (hs : d.handle? s = some g) : (s, g) ∈ d.entries := by
  obtain ⟨e, he, rfl⟩ := Option.map_eq_some_iff.mp hs
  have hfound := List.find?_some he
  rw [← of_decide_eq_true hfound]
  exact List.mem_of_find?_eq_some he

/-- The symbol found for a handle is in an entry with this very handle. -/
theorem mem_entries_of_symbol? [DecidableEq α] {d : Directory σ α} {s : σ} {g : Handle α}
    (hg : d.symbol? g = some s) : (s, g) ∈ d.entries := by
  obtain ⟨e, he, rfl⟩ := Option.map_eq_some_iff.mp hg
  have hfound := List.find?_some he
  rw [← Handle.eq_iff.mpr (of_decide_eq_true hfound)]
  exact List.mem_of_find?_eq_some he

/-- The entry found for a value holds it. -/
theorem value_of_holder? [DecidableEq α] {d : Directory σ α} {v : α} {e : σ × Handle α}
    (he : d.holder? v = some e) : e.2.value = v := by
  have hfound := List.find?_some he
  exact of_decide_eq_true hfound

/-! ## One entry more -/

/-- An entry is added behind the others, for the symbol and with the value. -/
theorem exists_entries_add [DecidableEq α] (d : Directory σ α) (s : σ) (v : α) :
    ∃ h : Handle α, (d.add s v).entries = d.entries ++ [(s, h)] ∧ h.value = v := by
  rw [add]
  cases hv : d.holder? v with
  | none => exact ⟨_, rfl, rfl⟩
  | some e => exact ⟨e.2, rfl, value_of_holder? hv⟩

/-- A symbol adds an entry exactly if a value is exposed for it. -/
theorem value_note [DecidableEq α] [Symbol σ] (lookup : σ → Option α) (d : Directory σ α) (s : σ) :
    (note lookup d s).value = (lookup s).elim d (d.add s) := by
  rw [note]
  cases lookup s with
  | none => rfl
  | some v => cases hv : d.holder? v <;> simp [hv]

/-! ## The walk over the symbols -/

/-- A value is exposed if it is exposed for some symbol. -/
def Exposed (lookup : σ → Option α) (v : α) : Prop :=
  ∃ s, lookup s = some v

instance [DecidableEq α] [Symbol σ] [Symbol.Listed σ] (lookup : σ → Option α) (v : α) :
    Decidable (Exposed lookup v) :=
  decidable_of_iff (∃ s ∈ (Symbol.all : List σ), lookup s = some v)
    ⟨fun ⟨s, _, hs⟩ => ⟨s, hs⟩, fun ⟨s, hs⟩ => ⟨s, Symbol.Listed.mem_all s, hs⟩⟩

/-- A directory holds, for the symbols seen, what is exposed for them. -/
structure Mirrors (lookup : σ → Option α) (seen : List σ) (d : Directory σ α) : Prop where
  /-- There is an entry for every symbol with a value, in the order of the symbols. -/
  symbols : d.entries.map (·.1) = seen.filter fun s => (lookup s).isSome
  /-- An entry holds the value of its symbol. -/
  values : ∀ e ∈ d.entries, lookup e.1 = some e.2.value

/-- One more symbol keeps the mirror. -/
theorem Mirrors.note [DecidableEq α] [Symbol σ] {lookup : σ → Option α} {seen : List σ}
    {d : Directory σ α} (h : d.Mirrors lookup seen) (s : σ) :
    (note lookup d s).value.Mirrors lookup (seen ++ [s]) := by
  rw [value_note]
  cases hs : lookup s with
  | none =>
    refine ⟨?_, h.values⟩
    rw [Option.elim_none, h.symbols, List.filter_append]
    simp [hs]
  | some v =>
    obtain ⟨g, hentries, hvalue⟩ := d.exists_entries_add s v
    rw [Option.elim_some]
    constructor
    · rw [hentries, List.map_append, h.symbols, List.filter_append]
      simp [hs]
    · intro e he
      rw [hentries, List.mem_append, List.mem_singleton] at he
      rcases he with he | rfl
      · exact h.values e he
      · rw [hs, hvalue]

/-- **The finished directory mirrors the engine.** -/
theorem mirrors_ofLookup [DecidableEq α] [Symbol σ] (lookup : σ → Option α) :
    (ofLookup lookup).value.Mirrors lookup Symbol.all := by
  have hrun : ∀ (seen rest : List σ) (d : Directory σ α), d.Mirrors lookup seen →
      (rest.foldl (fun d s => (Directory.note lookup d s).value) d).Mirrors lookup
        (seen ++ rest) := by
    intro seen rest
    induction rest generalizing seen with
    | nil =>
      intro d hd
      rwa [List.append_nil]
    | cons s rest ih =>
      intro d hd
      have hnext := ih (seen ++ [s]) _ (hd.note s)
      rwa [List.append_assoc, List.singleton_append] at hnext
  rw [ofLookup, Logged.value_foldlM]
  exact hrun [] _ _ ⟨rfl, nofun⟩

/-! ## There and back -/

variable [Symbol σ] [Symbol.Listed σ] {lookup : σ → Option α}

/-- No symbol has two entries. -/
theorem Mirrors.nodup {d : Directory σ α} (h : d.Mirrors lookup Symbol.all) :
    (d.entries.map (·.1)).Nodup := by
  rw [h.symbols]
  exact Symbol.Listed.nodup.filter _

/-- The handle of a symbol is the one in its entry. -/
theorem Mirrors.handle?_eq_some_iff [DecidableEq σ] {d : Directory σ α}
    (h : d.Mirrors lookup Symbol.all) {s : σ} {g : Handle α} :
    d.handle? s = some g ↔ (s, g) ∈ d.entries := by
  refine ⟨mem_entries_of_handle?, fun hmem => ?_⟩
  rw [handle?, Option.map_eq_some_iff]
  cases hfind : d.entries.find? fun e => e.1 = s with
  | none => simpa using List.find?_eq_none.mp hfind _ hmem
  | some e =>
    have hs : e.1 = s := by simpa using List.find?_some hfind
    have he := List.mem_of_find?_eq_some hfind
    have hsame : e = (s, g) := List.inj_on_of_nodup_map h.nodup he hmem hs
    exact ⟨e, rfl, by rw [hsame]⟩

variable [DecidableEq σ] {d : Directory σ α}

/-- **The handle of a symbol holds the value exposed for it.** -/
theorem Mirrors.handle?_value (h : d.Mirrors lookup Symbol.all) (s : σ) :
    (d.handle? s).map (·.value) = lookup s := by
  cases hs : lookup s with
  | none =>
    rw [Option.map_eq_none_iff]
    refine Option.eq_none_iff_forall_ne_some.mpr fun g hg => ?_
    have hvalue := h.values _ (h.handle?_eq_some_iff.mp hg)
    rw [hs] at hvalue
    cases hvalue
  | some v =>
    have hmem : s ∈ d.entries.map (·.1) := by
      rw [h.symbols, List.mem_filter]
      exact ⟨Symbol.Listed.mem_all s, by simp [hs]⟩
    obtain ⟨⟨s', g⟩, he, rfl⟩ := List.mem_map.mp hmem
    rw [h.handle?_eq_some_iff.mpr he, Option.map_some, ← hs]
    exact (h.values _ he).symm

/-- The handle of a symbol holds a value that is exposed for it. -/
theorem Mirrors.exposed_of_handle? (h : d.Mirrors lookup Symbol.all) {g : Handle α} {s : σ}
    (hs : d.handle? s = some g) : lookup s = some g.value := by
  rw [← h.handle?_value s, hs, Option.map_some]

variable [DecidableEq α]

/-- **A handle that has a symbol is the handle of that symbol**, and not merely one of the same
value: the number has to agree as well. -/
theorem Mirrors.handle?_of_symbol? (h : d.Mirrors lookup Symbol.all) {g : Handle α} {s : σ}
    (hg : d.symbol? g = some s) : d.handle? s = some g :=
  h.handle?_eq_some_iff.mpr (mem_entries_of_symbol? hg)

/-- The handle of a symbol has one, though not always that symbol. -/
theorem Mirrors.isSome_symbol?_of_handle? (h : d.Mirrors lookup Symbol.all) {g : Handle α} {s : σ}
    (hs : d.handle? s = some g) : (d.symbol? g).isSome := by
  rw [symbol?, Option.isSome_map, List.find?_isSome]
  exact ⟨(s, g), h.handle?_eq_some_iff.mp hs, by simp [Handle.Same]⟩

end Directory

end DropRules
