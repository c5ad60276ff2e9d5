import DropRules.Yaml.Decode
import Mathlib.Data.List.Forall2
import Mathlib.Data.List.Nodup

/-!
# The values of plain nodes

Reading a value may fail in many ways, and counts the aliases that it follows.  Most nodes have none
of this: a node `Means` a value if reading it gives this value wherever it stands and whatever else
is in the document, as long as collections may lie deep enough in one another.

A scalar means what its text means, a sequence the meanings of its items, and a mapping the meanings
of its entries if its keys are different texts.
-/

namespace DropRules.Yaml

/-- Reading the node gives the value, where collections may lie `depth` deep. -/
def Node.Means (depth : Nat) (v : Value) (n : Node) : Prop :=
  ∀ (src : Source) (d : Nat) (path : Path), depth ≤ d → Decode.value src d path n = pure v

namespace Node.Means

variable {depth : Nat}

theorem value_scalar (src : Source) (d : Nat) (path : Path) (m : Mark) (s : List Char) :
    Decode.value src d path (.scalar m none none .plain s) =
      Decode.scalar path m none .plain s := by
  cases d <;> rfl

theorem atom_plain (s : List Char) :
    Decode.atom (if (Decode.localTag? none).isSome then none else none) .plain s =
      .ok (Atom.ofPlain s) := rfl

/-- A plain scalar that looks like an integer means the integer. -/
theorem integer {i : Int} {s : List Char} (h : Atom.ofPlain s = .integer i) (m : Mark) :
    (Node.scalar m none none .plain s).Means depth (.integer i) := by
  intro src d path _
  rw [value_scalar, Decode.scalar]
  simp only [atom_plain, h]
  rfl

/-- A plain scalar that looks like nothing else means itself. -/
theorem text {s : List Char} (h : Atom.ofPlain s = .text s) (m : Mark) :
    (Node.scalar m none none .plain s).Means depth (.text (String.ofList s)) := by
  intro src d path _
  rw [value_scalar, Decode.scalar]
  simp only [atom_plain, h]
  rfl

/-! ## Collections -/

theorem items {vs : List Value} {ns : List Node} (h : List.Forall₂ (Means depth) vs ns)
    (src : Source) {d : Nat} (hd : depth ≤ d) (path : Path) (i : Nat) :
    Decode.items (Decode.value src d) path i ns = pure vs := by
  induction h generalizing i with
  | nil => rfl
  | cons hv _ ih => rw [Decode.items, hv src d _ hd, pure_bind, ih, pure_bind]

/-- A sequence means the meanings of its items. -/
theorem sequence {vs : List Value} {ns : List Node} (h : List.Forall₂ (Means depth) vs ns)
    (m : Mark) : (Node.sequence m none none ns).Means (depth + 1) (.sequence vs) := by
  intro src d path hd
  obtain ⟨d, rfl⟩ : ∃ n, d = n + 1 := ⟨d - 1, by omega⟩
  have hcontent : Decode.value src (d + 1) path (.sequence m none none ns) = (do
      let vs ← Decode.items (Decode.value src d) path 0 ns
      pure (Decode.underTag none (.sequence vs))) := rfl
  rw [hcontent, items h src (by omega), pure_bind]
  rfl

theorem entries {fields : List (String × Value)} {es : List (Node × Node)}
    (h : List.Forall₂ (fun f e => e.1.Means depth (.text f.1) ∧ e.2.Means depth f.2) fields es)
    (src : Source) {d : Nat} (hd : depth ≤ d) (path : Path) (m : Mark) (seen : List String)
    (hnodup : (fields.map (·.1) ++ seen).Nodup) :
    Decode.entries (Decode.value src d) path m (seen.map .text) es =
      pure (fields.map fun f => (.text f.1, f.2)) := by
  induction h generalizing seen with
  | nil => rfl
  | @cons f e fields es he hes ih =>
    obtain ⟨k, v⟩ := e
    rw [List.map_cons, List.cons_append] at hnodup
    have hlater := ih (f.1 :: seen) (List.nodup_middle.mpr hnodup)
    rw [List.nodup_cons, List.mem_append, not_or] at hnodup
    have hnew : (seen.map Value.text).find? (Value.text f.1).same = none := by
      rw [List.find?_eq_none]
      intro key hkey hsame
      obtain ⟨s, hs, rfl⟩ := List.mem_map.mp hkey
      have hname : f.1 = s := by simpa [Value.same] using hsame
      exact hnodup.1.2 (hname ▸ hs)
    rw [Decode.entries, he.1 src d path hd, pure_bind, hnew]
    show (do
      let val ← Decode.value src d (path.child k) v
      let more ← Decode.entries (Decode.value src d) path m ((f.1 :: seen).map .text) es
      pure ((Value.text f.1, val) :: more)) = _
    rw [he.2 src d _ hd, pure_bind, hlater, pure_bind]
    rfl

/-- A mapping whose keys are different texts means the meanings of its entries. -/
theorem mapping {fields : List (String × Value)} {es : List (Node × Node)}
    (h : List.Forall₂ (fun f e => e.1.Means depth (.text f.1) ∧ e.2.Means depth f.2) fields es)
    (hnodup : (fields.map (·.1)).Nodup) (m : Mark) :
    (Node.mapping m none none es).Means (depth + 1)
      (.mapping (fields.map fun f => (.text f.1, f.2))) := by
  intro src d path hd
  obtain ⟨d, rfl⟩ : ∃ n, d = n + 1 := ⟨d - 1, by omega⟩
  have hcontent : Decode.value src (d + 1) path (.mapping m none none es) = (do
      let vs ← Decode.entries (Decode.value src d) path m [] es
      pure (Decode.underTag none (.mapping vs))) := rfl
  have hentries := entries h src (Nat.le_of_succ_le_succ hd) path m [] (by rwa [List.append_nil])
  rw [hcontent]
  rw [List.map_nil] at hentries
  rw [hentries, pure_bind]
  rfl

end Node.Means

end DropRules.Yaml
