import DropRules.Proofs.Provenance
import DropRules.Register

/-!
# Registers answer as directories do

A register answers by way of numbers: it looks a number up in one table and goes to its place in
another.  A directory searches its one list of entries.  That the two agree on whatever they are
asked is carried through the walk over the symbols, which both make with the same notices.

## 1.  One entry more

What a directory with one entry more answers is what it answered before, or else what the entry
says.

## 2.  Four tables

`Register.Tabulates` says of each table what it holds, in the words of the directory.  A walk keeps
this step by step (`Register.Tabulates.note`), as long as no symbol comes twice and a word holds the
numbers, and so as a whole (`Register.Tabulates.foldlM`).  Of a symbol that came twice the directory
would go on finding the first entry, and the register the last.

## 3.  Answers

The tables then agree with one another: every number in them is the place of a handle with that
number (`Register.Tabulates.at?_eq_some_iff`).  So each way through them ends where the search of
the entries does (`Register.Tabulates.answers`), and that is so of the register of what an engine
exposes (`Register.answers_ofLookup`).
-/

namespace DropRules

namespace Directory

variable {σ α : Type} [DecidableEq α]

/-! ## 1.  One entry more -/

/-- What is found in a longer list is what was found before, or else what is added. -/
theorem map_find?_append_singleton {β γ : Type} (p : β → Bool) (f : β → γ) (l : List β) (b : β) :
    ((l ++ [b]).find? p).map f = ((l.find? p).map f).or (if p b then some (f b) else none) := by
  rw [List.find?_append, Option.map_or, List.find?_singleton]
  split <;> rfl

section Entry

variable {d d' : Directory σ α} {s : σ} {g : Handle α}
variable (hentries : d'.entries = d.entries ++ [(s, g)])

include hentries

omit [DecidableEq α] in
/-- The handle of a symbol is the one that it had, or else that of the entry. -/
theorem handle?_append [DecidableEq σ] (t : σ) :
    d'.handle? t = (d.handle? t).or (if s = t then some g else none) := by
  rw [handle?, hentries, map_find?_append_singleton]
  simp only [decide_eq_true_eq]
  rfl

/-- The symbol of a handle is the one that it had, or else that of the entry. -/
theorem symbol?_append (h : Handle α) :
    d'.symbol? h = (d.symbol? h).or (if g = h then some s else none) := by
  rw [symbol?, hentries, map_find?_append_singleton]
  simp only [decide_eq_true_eq, Handle.eq_iff]
  rfl

/-- The number of a value is the one that it had, or else that of the entry. -/
theorem id?_append (v : α) :
    d'.id? v = (d.id? v).or (if g.value = v then some g.id else none) := by
  rw [id?, holder?, hentries, map_find?_append_singleton]
  simp only [decide_eq_true_eq]
  rfl

/-- The handles are those of before, and that of the entry if it is another. -/
theorem handles_append :
    d'.handles = if g ∈ d.handles then d.handles else d.handles ++ [g] := by
  rw [handles, hentries, List.map_append, List.map_singleton, eraseDups_append_singleton]
  exact if_congr List.mem_eraseDups.symm rfl rfl

end Entry

variable {d : Directory σ α}

/-- A handle that is none of the directory's own has no symbol. -/
theorem symbol?_eq_none {g : Handle α} (hg : g ∉ d.handles) : d.symbol? g = none :=
  Option.eq_none_iff_forall_ne_some.mpr fun s hs =>
    hg (mem_handles.mpr ⟨s, mem_entries_of_symbol? hs⟩)

/-- The handle found for a value is one of the directory's own. -/
theorem mem_handles_of_holder? {v : α} {e : σ × Handle α} (he : d.holder? v = some e) :
    e.2 ∈ d.handles :=
  mem_handles.mpr ⟨e.1, List.mem_of_find?_eq_some he⟩

/-- One symbol more is nothing to the others. -/
theorem handle?_note_of_ne [DecidableEq σ] [Symbol σ] (lookup : σ → Option α) {s t : σ}
    (hst : s ≠ t) : (note lookup d s).value.handle? t = d.handle? t := by
  rw [value_note]
  cases lookup s with
  | none => rfl
  | some v =>
    obtain ⟨g, hentries, -⟩ := d.exists_entries_add s v
    rw [Option.elim_some, handle?_append hentries, if_neg hst, Option.or_none]

/-- One symbol more is at most one number more. -/
theorem size_note_le [Symbol σ] (lookup : σ → Option α) (s : σ) :
    (note lookup d s).value.size ≤ d.size + 1 := by
  rw [value_note]
  cases lookup s with
  | none => exact Nat.le_succ _
  | some v =>
    rw [Option.elim_some, add]
    split
    · exact Nat.le_succ _
    · exact Nat.le_refl _

/-- The first entry for a value is also the one that its handle leads back to. -/
theorem symbol?_of_holder? {v : α} {e : σ × Handle α} (he : d.holder? v = some e) :
    d.symbol? e.2 = some e.1 := by
  obtain ⟨-, before, after, hentries, hbefore⟩ := List.find?_eq_some_iff_append.mp he
  rw [symbol?, Option.map_eq_some_iff]
  refine ⟨e, List.find?_eq_some_iff_append.mpr ⟨?_, before, after, hentries, ?_⟩, rfl⟩
  · exact decide_eq_true ⟨rfl, rfl⟩
  · intro x hx
    have hother : x.2.value ≠ v := by simpa using hbefore x hx
    have hdifferent : ¬ (x.2.id = e.2.id ∧ x.2.Same e.2) := fun h =>
      hother (h.2.trans (value_of_holder? he))
    rw [decide_eq_false hdifferent, Bool.not_false]

end Directory

namespace Register

variable {σ α : Type} [DecidableEq σ] [DecidableEq α]
variable {r r' : Register σ α} {d d' : Directory σ α} {s : σ} {g : Handle α}

/-! ## 2.  Four tables -/

/-- A register holds in its tables what a directory lists. -/
structure Tabulates (r : Register σ α) (d : Directory σ α) : Prop where
  /-- The handles are the directory's own, in their order. -/
  handles : r.handles = d.handles
  /-- They stand at the places that are their numbers. -/
  places : r.handles.map (·.id.toNat) = List.range r.handles.length
  /-- At the same places stand the symbols that they lead back to. -/
  firsts : r.firsts.map some = r.handles.map d.symbol?
  /-- The number of a symbol is that of its handle. -/
  number? : ∀ s, r.number? s = (d.handle? s).map (·.id)
  /-- The number of a value is the one that it has in the directory. -/
  id? : ∀ v, r.id? v = d.id? v
  /-- The next number is the same in both. -/
  size : r.handles.length = d.size

/-- The empty tables hold what the empty directory lists. -/
theorem Tabulates.empty : (empty : Register σ α).Tabulates .empty :=
  ⟨rfl, rfl, rfl, fun _ => rfl, fun _ => rfl, rfl⟩

/-- A handle has a symbol, if it is in the tables. -/
theorem Tabulates.isSome_symbol? (h : r.Tabulates d) (hg : g ∈ r.handles) :
    (d.symbol? g).isSome := by
  have hmem : d.symbol? g ∈ r.firsts.map some := by
    rw [h.firsts]
    exact List.mem_map_of_mem hg
  obtain ⟨s, -, hs⟩ := List.mem_map.mp hmem
  rw [← hs, Option.isSome_some]

/-- **A number leads to the handle that has it**, and to no other. -/
theorem Tabulates.at?_eq_some_iff (h : r.Tabulates d) {i : HandleId} :
    r.at? i = some g ↔ g ∈ d.handles ∧ g.id = i := by
  rw [at?, ← h.handles]
  constructor
  · intro hi
    obtain ⟨hlt, rfl⟩ := List.getElem?_eq_some_iff.mp hi
    exact ⟨List.getElem_mem hlt, HandleId.toNat_inj.mp (Handle.toNat_id_getElem h.places hlt)⟩
  · rintro ⟨hg, rfl⟩
    obtain ⟨j, hj, rfl⟩ := List.getElem_of_mem hg
    rw [Handle.toNat_id_getElem h.places hj, List.getElem?_eq_getElem hj]

/-- A handle is found by its number. -/
theorem Tabulates.at?_id (h : r.Tabulates d) (hg : g ∈ d.handles) : r.at? g.id = some g :=
  h.at?_eq_some_iff.mpr ⟨hg, rfl⟩

/-- At the place of a handle stands the symbol that it leads back to. -/
theorem Tabulates.getElem?_firsts (h : r.Tabulates d) (hg : g ∈ d.handles) :
    r.firsts[g.id.toNat]? = d.symbol? g := by
  have hplace : r.handles[g.id.toNat]? = some g := h.at?_id hg
  have hrow : (r.firsts.map some)[g.id.toNat]? = some (d.symbol? g) := by
    rw [h.firsts, List.getElem?_map, hplace, Option.map_some]
  rw [List.getElem?_map, Option.map_eq_some_iff] at hrow
  obtain ⟨s, hs, hsymbol⟩ := hrow
  rw [hs, hsymbol]

/-- One entry more does not change where the handles in the tables lead back to. -/
theorem Tabulates.map_symbol?_append (h : r.Tabulates d)
    (hentries : d'.entries = d.entries ++ [(s, g)]) :
    r.handles.map d'.symbol? = r.firsts.map some := by
  rw [h.firsts]
  refine List.map_congr_left fun k hk => ?_
  rw [Directory.symbol?_append hentries, Option.or_of_isSome (h.isSome_symbol? hk)]

/-- A symbol that is new is entered under the number of its handle. -/
theorem Tabulates.number?_append (h : r.Tabulates d) (hs : d.handle? s = none)
    (hentries : d'.entries = d.entries ++ [(s, g)])
    (hsymbols : r'.bySymbol = (s, g.id) :: r.bySymbol) (t : σ) :
    r'.number? t = (d'.handle? t).map (·.id) := by
  rw [Register.number?, hsymbols, Directory.handle?_append hentries]
  by_cases hst : s = t
  · subst hst
    rw [List.lookup_cons_self, hs, if_pos rfl, Option.none_or, Option.map_some]
  · have hts : (t == s) = false := beq_false_of_ne (Ne.symm hst)
    rw [List.lookup_cons, hts, if_neg hst, Option.or_none]
    exact h.number? t

/-- A value that has a number keeps it, and the symbol is entered under it. -/
theorem Tabulates.add_shared (h : r.Tabulates d) (hs : d.handle? s = none) {v : α}
    {e : σ × Handle α} (he : d.holder? v = some e) : (r.add s v).Tabulates (d.add s v) := by
  have hid : d.id? v = some e.2.id := by rw [Directory.id?, he, Option.map_some]
  have hr : r.add s v = { r with bySymbol := (s, e.2.id) :: r.bySymbol } := by
    rw [add, issue, h.id?, hid]
  have hentries : (d.add s v).entries = d.entries ++ [(s, e.2)] := by rw [Directory.add, he]
  have hnext : (d.add s v).size = d.size := by rw [Directory.add, he]
  rw [hr]
  exact
    { handles := by
        rw [h.handles, Directory.handles_append hentries,
          if_pos (Directory.mem_handles_of_holder? he)]
      places := h.places
      firsts := (h.map_symbol?_append hentries).symm
      number? := h.number?_append hs hentries rfl
      id? := by
        intro w
        have hkept : r.id? w = (r.id? w).or (if v = w then some e.2.id else none) := by
          by_cases hw : v = w
          · rw [← hw, h.id?, hid, Option.some_or]
          · rw [if_neg hw, Option.or_none]
        rw [Directory.id?_append hentries, Directory.value_of_holder? he, ← h.id? w]
        exact hkept
      size := by
        rw [hnext]
        exact h.size }

/-- A value that has no number gets the next one, and all four tables get an entry. -/
theorem Tabulates.add_new (h : r.Tabulates d) (hs : d.handle? s = none)
    (hsize : d.size < UInt32.size) {v : α} (hv : d.holder? v = none) :
    (r.add s v).Tabulates (d.add s v) := by
  have hid : d.id? v = none := by rw [Directory.id?, hv, Option.map_none]
  have hother : ∀ k ∈ d.handles, k.value ≠ v := by
    intro k hk
    obtain ⟨t, ht⟩ := Directory.mem_handles.mp hk
    simpa using List.find?_eq_none.mp hv _ ht
  -- The new handle is none of the old ones, whatever its number: none of these holds the value.
  let g : Handle α := ⟨.ofNat d.size, v⟩
  have hnew : g ∉ d.handles := fun hg => hother g hg rfl
  have hr : r.add s v =
      ⟨r.handles ++ [g], r.firsts ++ [s], (s, g.id) :: r.bySymbol, (v, g.id) :: r.byValue⟩ := by
    rw [add, issue, h.id?, hid, h.size]
  have hentries : (d.add s v).entries = d.entries ++ [(s, g)] := by rw [Directory.add, hv]
  have hnext : (d.add s v).size = d.size + 1 := by rw [Directory.add, hv]
  rw [hr]
  exact
    { handles := by rw [h.handles, Directory.handles_append hentries, if_neg hnew]
      places := by
        rw [List.map_append, h.places, List.length_append, List.length_singleton, List.range_succ,
          List.map_singleton, HandleId.toNat_ofNat hsize, h.size]
      firsts := by
        rw [List.map_append, List.map_append, h.map_symbol?_append hentries, List.map_singleton,
          List.map_singleton, Directory.symbol?_append hentries, Directory.symbol?_eq_none hnew,
          if_pos rfl, Option.none_or]
      number? := h.number?_append hs hentries rfl
      id? := by
        intro w
        rw [Register.id?, Directory.id?_append hentries]
        by_cases hw : v = w
        · rw [← hw, List.lookup_cons_self, hid, if_pos rfl, Option.none_or]
        · have hwv : (w == v) = false := beq_false_of_ne (Ne.symm hw)
          rw [List.lookup_cons, hwv, if_neg hw, Option.or_none]
          exact h.id? w
      size := by rw [hnext, List.length_append, List.length_singleton, h.size] }

/-- **One symbol more keeps the tables**, and is noticed alike. -/
theorem Tabulates.note [Symbol σ] (h : r.Tabulates d) {lookup : σ → Option α}
    (hs : d.handle? s = none) (hsize : d.size < UInt32.size) :
    (Register.note lookup r s).log = (Directory.note lookup d s).log ∧
      (Register.note lookup r s).value.Tabulates (Directory.note lookup d s).value := by
  rw [Register.note, Directory.note]
  cases lookup s with
  | none => exact ⟨rfl, h⟩
  | some v =>
    cases hv : d.holder? v with
    | none =>
      have hid : r.id? v = none := by rw [h.id?, Directory.id?, hv, Option.map_none]
      simp only [hv, hid]
      exact ⟨rfl, h.add_new hs hsize hv⟩
    | some e =>
      have hid : r.id? v = some e.2.id := by rw [h.id?, Directory.id?, hv, Option.map_some]
      have hfirst : r.firsts[e.2.id.toNat]? = some e.1 := by
        rw [h.getElem?_firsts (Directory.mem_handles_of_holder? hv),
          Directory.symbol?_of_holder? hv]
      simp only [hv, hid, hfirst]
      exact ⟨rfl, h.add_shared hs hv⟩

/-- **A walk over symbols keeps the tables**, and is noticed alike, if no symbol comes twice and the
numbers do not run out. -/
theorem Tabulates.foldlM [Symbol σ] (lookup : σ → Option α) (symbols : List σ) (h : r.Tabulates d)
    (hnodup : symbols.Nodup) (hnew : ∀ s ∈ symbols, d.handle? s = none)
    (hsize : d.size + symbols.length ≤ UInt32.size) :
    (symbols.foldlM (Register.note lookup) r).log = (symbols.foldlM (Directory.note lookup) d).log ∧
      (symbols.foldlM (Register.note lookup) r).value.Tabulates
        (symbols.foldlM (Directory.note lookup) d).value := by
  induction symbols generalizing r d with
  | nil => exact ⟨rfl, h⟩
  | cons s rest ih =>
    obtain ⟨hother, hrest⟩ := List.nodup_cons.mp hnodup
    rw [List.length_cons] at hsize
    obtain ⟨hlog, hstep⟩ : _ ∧ (Register.note lookup r s).value.Tabulates _ :=
      h.note (hnew s List.mem_cons_self) (by omega)
    -- What is asked of the symbols still to come survives the step: none of them has a handle yet.
    have hstillNew : ∀ t ∈ rest, (Directory.note lookup d s).value.handle? t = none := by
      intro t ht
      have hst : s ≠ t := fun hst => hother (hst ▸ ht)
      rw [Directory.handle?_note_of_ne lookup hst]
      exact hnew t (List.mem_cons_of_mem s ht)
    have hgrown := d.size_note_le lookup s
    obtain ⟨hlogs, hrun⟩ := ih hstep hrest hstillNew (by omega)
    rw [List.foldlM_cons, List.foldlM_cons, Logged.log_bind, Logged.log_bind, hlog, hlogs]
    exact ⟨rfl, hrun⟩

/-! ## 3.  Answers -/

/-- A register answers as a directory does. -/
structure Answers [Symbol σ] (r : Register σ α) (d : Directory σ α) : Prop where
  handle? : ∀ s, r.handle? s = d.handle? s
  symbol? : ∀ g, r.symbol? g = d.symbol? g
  id? : ∀ v, r.id? v = d.id? v
  /-- The handle of a value is that in the first entry for it, so the value is taken over alike. -/
  holding? : ∀ v, r.holding? v = (d.holder? v).map (·.2)
  contains : ∀ s, r.contains s = d.contains s
  size : r.size = d.size
  isEmpty : r.isEmpty = d.isEmpty
  entries : r.entries = d.entries
  /-- The number of a symbol, or of a value, is that of a handle at its place. -/
  number : ∀ i, (∃ s, r.number? s = some i) ∨ (∃ v, r.id? v = some i) →
    ∃ g, r.at? i = some g ∧ g.id = i

/-- By its number, a symbol has the handle that the directory has for it. -/
theorem Tabulates.handle?_eq (h : r.Tabulates d) (s : σ) : r.handle? s = d.handle? s := by
  rw [Register.handle?, h.number?]
  cases hs : d.handle? s with
  | none => rfl
  | some g => exact h.at?_id (Directory.mem_handles_of_handle? hs)

/-- By its number, a value has the handle that the directory has for it. -/
theorem Tabulates.holding?_eq (h : r.Tabulates d) (v : α) :
    r.holding? v = (d.holder? v).map (·.2) := by
  rw [holding?, h.id?, Directory.id?]
  cases hv : d.holder? v with
  | none => rfl
  | some e => exact h.at?_id (Directory.mem_handles_of_holder? hv)

/-- The handle at the place of a handle's number is this handle, if it is the same at all. -/
theorem Tabulates.symbol?_eq (h : r.Tabulates d) (g : Handle α) : r.symbol? g = d.symbol? g := by
  rw [Register.symbol?]
  cases hat : r.at? g.id with
  | none =>
    have hunknown : g ∉ d.handles := fun hg => by simp [h.at?_id hg] at hat
    rw [Directory.symbol?_eq_none hunknown]
  | some k =>
    obtain ⟨hk, hid⟩ := h.at?_eq_some_iff.mp hat
    dsimp only
    by_cases hsame : k.Same g
    · have hkg : k = g := Handle.eq_iff.mpr ⟨hid, hsame⟩
      rw [if_pos hsame, h.getElem?_firsts (hkg ▸ hk)]
    · have hunknown : g ∉ d.handles := fun hg => by
        rw [h.at?_id hg, Option.some.injEq] at hat
        exact hsame (congrArg Handle.value hat.symm)
      rw [if_neg hsame, Directory.symbol?_eq_none hunknown]

/-- **Tables that hold what a directory lists answer as it does.** -/
theorem Tabulates.answers [Symbol σ] [Symbol.Listed σ] {lookup : σ → Option α} (h : r.Tabulates d)
    (hd : d.Mirrors lookup Symbol.all) : r.Answers d where
  handle? := h.handle?_eq
  symbol? := h.symbol?_eq
  id? := h.id?
  holding? := h.holding?_eq
  contains s := by rw [Register.contains, h.number?, Option.isSome_map, Directory.contains]
  size := h.size
  isEmpty := by
    rw [Register.isEmpty, Directory.isEmpty, ← h.size]
    cases r.handles <;> rfl
  entries := by
    rw [hd.entries_eq, Register.entries]
    simp only [h.handle?_eq]
  number := by
    rintro i (⟨s, hs⟩ | ⟨v, hv⟩)
    · rw [h.number?, Option.map_eq_some_iff] at hs
      obtain ⟨g, hg, rfl⟩ := hs
      exact ⟨g, h.at?_id (Directory.mem_handles_of_handle? hg), rfl⟩
    · rw [h.id?, Directory.id?, Option.map_eq_some_iff] at hv
      obtain ⟨e, he, rfl⟩ := hv
      exact ⟨e.2, h.at?_id (Directory.mem_handles_of_holder? he), rfl⟩

/-- **The register of what is exposed answers as its directory does**, and is made with the same
notices, if numbers do not run out before symbols do. -/
theorem answers_ofLookup [Symbol σ] [Symbol.Listed σ]
    (hall : (Symbol.all : List σ).length ≤ UInt32.size) (lookup : σ → Option α) :
    (ofLookup lookup).log = (Directory.ofLookup lookup).log ∧
      (ofLookup lookup).value.Answers (Directory.ofLookup lookup).value := by
  obtain ⟨hlog, hrun⟩ := Tabulates.empty.foldlM lookup Symbol.all Symbol.Listed.nodup
    (fun _ _ => rfl) (by rwa [Directory.empty, Nat.zero_add])
  exact ⟨hlog, hrun.answers (Directory.mirrors_ofLookup lookup)⟩

end Register

namespace Naming

variable {α ρ : Type} [DecidableEq α] [DecidableEq ρ]

/-- **The registers of what an engine exposes are coherent with it**, whatever it exposes and
however often one value stands for several symbols: they answer as the directories of its naming
do. -/
theorem answers_ofCatalog (c : Catalog α ρ) :
    let n := (ofCatalog c).value
    ((Register.ofLookup c.condition?).value.Answers n.conditions ∧
        n.conditions.Coherent c.condition?) ∧
      (Register.ofLookup c.rarity?).value.Answers n.rarities ∧ n.rarities.Coherent c.rarity? := by
  intro n
  obtain ⟨hconditions, hrarities⟩ := coherent_ofCatalog c
  exact ⟨⟨(Register.answers_ofLookup (by decide) c.condition?).2, hconditions⟩,
    (Register.answers_ofLookup (by decide) c.rarity?).2, hrarities⟩

/-- The rare roll shares the value of the very rare one, and four rolls have none. -/
example :
    let lookup : Rarity → Option Nat := fun
      | .any => some 5
      | .veryRare => some 7
      | .rare => some 7
      | .common => some 3
      | _ => none
    let r := (Register.ofLookup lookup).value
    r.handles = [⟨.ofNat 0, 5⟩, ⟨.ofNat 1, 7⟩, ⟨.ofNat 2, 3⟩] ∧
      r.firsts = [.any, .veryRare, .common] ∧
      r.bySymbol =
        [(.common, .ofNat 2), (.rare, .ofNat 1), (.veryRare, .ofNat 1), (.any, .ofNat 0)] ∧
      r.byValue = [(3, .ofNat 2), (7, .ofNat 1), (5, .ofNat 0)] := by
  decide +kernel

end Naming

end DropRules
