import DropRules.Proofs.Yaml.Decoding
import DropRules.Proofs.Yaml.Likeness

/-!
# Nodes that stand alone

A node stands alone (`Node.Alone`) if it refers to no other node.  What such a node says can be told
without its document: `Node.value?` is its value, if it has one.  Three things have none, and
whatever holds one of them has none either: an integer that 64 bits cannot hold, a scalar that is
not what its tag says, and a mapping of which two keys are the same.

Reading agrees (`Node.Alone.tells`): a node that stands alone is read as its value without following
an alias, and if it has no value, then reading it fails.
-/

namespace DropRules.Yaml

/-! ## Values that can be told from the node -/

/-- The value of an atom; an integer that 64 bits cannot hold has none. -/
def Atom.value? : Atom → Option Value
  | null => some .null
  | bool b => some (.bool b)
  | integer n => some (.integer n)
  | wide _ => none
  | real x => some (.real x)
  | text s => some (.text (String.ofList s))

/-- No key is the same as an earlier one. -/
def Value.Distinct (keys : List Value) : Prop :=
  keys.Pairwise fun first later => later.same first = false

instance (keys : List Value) : Decidable (Value.Distinct keys) :=
  inferInstanceAs (Decidable (keys.Pairwise _))

namespace Node

mutual

/-- The value of a node that refers to no other, if it has one. -/
def value? : Node → Option Value
  | scalar _ _ tag style s =>
    match Decode.atom (if (Decode.localTag? tag).isSome then none else tag) style s with
    | .ok a => a.value?.map (Decode.underTag tag)
    | .error _ => none
  | sequence _ _ tag ns => (values? ns).map fun vs => Decode.underTag tag (.sequence vs)
  | mapping _ _ tag es =>
    ((fields? es).filter fun fs => Value.Distinct (fs.map Prod.fst)).map fun fs =>
      Decode.underTag tag (.mapping fs)
  | reference .. => none
  | void _ => some .null
  | cut => none

/-- The values of nodes, if they all have one. -/
def values? : List Node → Option (List Value)
  | [] => some []
  | n :: rest => do
    let v ← n.value?
    let vs ← values? rest
    some (v :: vs)

/-- The values of entries, if their keys and their values all have one. -/
def fields? : List (Node × Node) → Option (List (Value × Value))
  | [] => some []
  | (k, v) :: rest => do
    let key ← k.value?
    let val ← v.value?
    let more ← fields? rest
    some ((key, val) :: more)

end

/-- The node refers to no other, nothing of it is cut, and its collections lie at most this deep in
one another. -/
inductive Alone : Nat → Node → Prop
  | scalar {depth : Nat} {m : Mark} {slot : Option Slot} {tag : Option Tag} {style : ScalarStyle}
      {text : List Char} : Alone depth (.scalar m slot tag style text)
  | sequence {depth : Nat} {m : Mark} {slot : Option Slot} {tag : Option Tag} {ns : List Node}
      (items : ∀ n ∈ ns, Alone depth n) : Alone (depth + 1) (.sequence m slot tag ns)
  | mapping {depth : Nat} {m : Mark} {slot : Option Slot} {tag : Option Tag}
      {es : List (Node × Node)} (keys : ∀ e ∈ es, Alone depth e.1)
      (values : ∀ e ∈ es, Alone depth e.2) : Alone (depth + 1) (.mapping m slot tag es)

end Node

/-! ## Computations that follow no alias -/

namespace Decode

variable {α β : Type}

/-- The computation gives what there is without following an alias, and fails if there is
nothing. -/
def Tells (x : Decode α) (o : Option α) : Prop :=
  match o with
  | some a => x = pure a
  | none => Fails x

namespace Tells

theorem bind {x : Decode α} {o : Option α} {f : α → Decode β} {g : α → Option β}
    (hx : Tells x o) (hf : ∀ a, o = some a → Tells (f a) (g a)) : Tells (x >>= f) (o.bind g) := by
  cases o with
  | none => exact Fails.bind_left hx f
  | some a =>
    have hx : x = pure a := hx
    rw [hx, pure_bind]
    exact hf a rfl

/-- What is done to the result in the end may fail no more. -/
theorem map {x : Decode α} {o : Option α} (hx : Tells x o) (f : α → β) :
    Tells (x >>= fun a => pure (f a)) (o.map f) := by
  rw [Option.map_eq_bind]
  exact hx.bind fun _ _ => rfl

end Tells

/-- A scalar tells its value. -/
theorem tells_scalar (path : Path) (m m' : Mark) (slot : Option Slot) (tag : Option Tag)
    (style : ScalarStyle) (s : List Char) :
    Tells (scalar path m tag style s) (Node.scalar m' slot tag style s).value? := by
  rw [scalar, Node.value?]
  split <;> rename_i hatom
  all_goals rw [hatom]
  · exact .throw _
  · exact .throw _
  all_goals rfl

variable {value : Path → Node → Decode Value}

theorem tells_items {ns : List Node} (hvalue : ∀ n ∈ ns, ∀ p, Tells (value p n) n.value?)
    (path : Path) (i : Nat) : Tells (items value path i ns) (Node.values? ns) := by
  induction ns generalizing i with
  | nil => rfl
  | cons n ns ih =>
    rw [items, Node.values?]
    refine (hvalue n List.mem_cons_self _).bind fun v _ => ?_
    refine (ih (fun n hn => hvalue n (List.mem_cons_of_mem _ hn)) _).bind fun vs _ => rfl

/-- No key is the same as an earlier one or as one of those seen before. -/
def Fresh (seen keys : List Value) : Prop :=
  (∀ key ∈ keys, ∀ first ∈ seen, key.same first = false) ∧ Value.Distinct keys

instance (seen keys : List Value) : Decidable (Fresh seen keys) :=
  inferInstanceAs (Decidable (_ ∧ _))

theorem fresh_cons {seen keys : List Value} {key : Value} :
    Fresh seen (key :: keys) ↔
      (∀ first ∈ seen, key.same first = false) ∧ Fresh (key :: seen) keys := by
  simp only [Fresh, Value.Distinct, List.forall_mem_cons, List.pairwise_cons]
  constructor
  · rintro ⟨⟨hkey, hkeys⟩, hlater, hdistinct⟩
    exact ⟨hkey, fun k hk => ⟨hlater k hk, hkeys k hk⟩, hdistinct⟩
  · rintro ⟨hkey, hkeys, hdistinct⟩
    exact ⟨⟨hkey, fun k hk => (hkeys k hk).2⟩, fun k hk => (hkeys k hk).1, hdistinct⟩

theorem find?_same_eq_none {seen : List Value} {key : Value} :
    seen.find? key.same = none ↔ ∀ first ∈ seen, key.same first = false := by
  simp only [List.find?_eq_none, Bool.not_eq_true]

theorem tells_entries {es : List (Node × Node)}
    (hvalue : ∀ e ∈ es, ∀ p, Tells (value p e.1) e.1.value? ∧ Tells (value p e.2) e.2.value?)
    (path : Path) (m : Mark) (seen : List Value) :
    Tells (entries value path m seen es)
      ((Node.fields? es).filter fun fs => Fresh seen (fs.map Prod.fst)) := by
  induction es generalizing seen with
  | nil =>
    have hfresh : Fresh seen [] := ⟨fun _ h => absurd h List.not_mem_nil, .nil⟩
    rw [Node.fields?, Option.filter_some, List.map_nil, if_pos (decide_eq_true hfresh)]
    rfl
  | cons e es ih =>
    obtain ⟨k, v⟩ := e
    have hkv := hvalue (k, v) List.mem_cons_self
    have ih := ih fun e he => hvalue e (List.mem_cons_of_mem _ he)
    -- the entry is refused before its value is read, which makes no difference
    have hfields : (Node.fields? ((k, v) :: es)).filter
          (fun fs => Fresh seen (fs.map Prod.fst)) =
        k.value?.bind fun key =>
          if ∀ first ∈ seen, key.same first = false then
            v.value?.bind fun val =>
              ((Node.fields? es).filter fun fs => Fresh (key :: seen) (fs.map Prod.fst)).bind
                fun more => some ((key, val) :: more)
          else none := by
      rw [Node.fields?]
      cases k.value? with
      | none => rfl
      | some key =>
        cases v.value? with
        | none => simp
        | some val =>
          cases Node.fields? es with
          | none => simp
          | some more =>
            show (some ((key, val) :: more)).filter _ = _
            simp only [Option.filter_some, Option.bind_some, List.map_cons, fresh_cons,
              decide_eq_true_eq]
            by_cases hseen : ∀ first ∈ seen, key.same first = false
            · by_cases hfresh : Fresh (key :: seen) (more.map Prod.fst)
              · rw [if_pos ⟨hseen, hfresh⟩, if_pos hseen, if_pos hfresh]
                rfl
              · rw [if_neg fun h => hfresh h.2, if_pos hseen, if_neg hfresh]
                rfl
            · rw [if_neg fun h => hseen h.1, if_neg hseen]
    rw [entries, hfields]
    refine (hkv path).1.bind fun key _ => ?_
    by_cases hseen : ∀ first ∈ seen, key.same first = false
    · rw [find?_same_eq_none.mpr hseen, if_pos hseen]
      refine (hkv _).2.bind fun val _ => ?_
      exact (ih _).bind fun more _ => rfl
    · rw [if_neg hseen]
      cases hfirst : seen.find? key.same with
      | none => exact absurd (find?_same_eq_none.mp hfirst) hseen
      | some first => exact Fails.bind_left (.throw _) _

end Decode

/-! ## Nodes that stand alone -/

namespace Node.Alone

open Decode

variable {depth : Nat} {n : Node}

/-- **A node that stands alone is read as its value.** -/
theorem tells (h : n.Alone depth) (src : Source) {d : Nat} (hd : depth ≤ d) (path : Path) :
    Tells (Decode.value src d path n) n.value? := by
  induction h generalizing d path with
  | scalar =>
    cases d <;> exact tells_scalar _ _ _ _ _ _ _
  | @sequence depth m slot tag ns _ ih =>
    obtain ⟨d, rfl⟩ : ∃ k, d = k + 1 := ⟨d - 1, by omega⟩
    rw [Node.value?]
    exact (tells_items (fun n hn p => ih n hn (by omega) p) path 0).map _
  | @mapping depth m slot tag es _ _ ihkeys ihvalues =>
    obtain ⟨d, rfl⟩ : ∃ k, d = k + 1 := ⟨d - 1, by omega⟩
    have hfresh (keys : List Value) : Fresh [] keys ↔ Value.Distinct keys :=
      and_iff_right fun _ _ _ h => absurd h List.not_mem_nil
    have hentries := @tells_entries (Decode.value src d) es
      (fun e he p => ⟨ihkeys e he (by omega) p, ihvalues e he (by omega) p⟩) path m []
    simp only [hfresh] at hentries
    rw [Node.value?]
    exact hentries.map _

/-- A node that stands alone and has a value means it. -/
theorem means (h : n.Alone depth) {v : Value} (hv : n.value? = some v) : n.Means depth v := by
  intro src d path hd
  have htells := h.tells src hd path
  rwa [hv] at htells

/-- A node that stands alone and has no value cannot be read. -/
theorem fails (h : n.Alone depth) (hv : n.value? = none) (src : Source) {d : Nat} (hd : depth ≤ d)
    (path : Path) : Fails (Decode.value src d path n) := by
  have htells := h.tells src hd path
  rwa [hv] at htells

end Node.Alone

end DropRules.Yaml
