import DropRules.Proofs.Fields

/-!
# Lists of entries, and what does not fit

The values of a list are read as entries one by one, each on its own.  So what is read of the list can
be told without the list: the entries are those of the values that fit, in their order
(`Entry.fst_ofValues`), and the misfits are the others, each with its position in the list and not
among the misfits or among the entries (`Entry.snd_ofValues`).

Nothing is lost, therefore: every value is an entry or a misfit.  And a list behind another one is read
as it is read alone, but for the positions, which go on where the first list ends.  Together with what
an entry is read from (`Entry.Fits`), this is `Entry.ofValues_exact`.
-/

namespace DropRules

open Yaml (Value Complaint)

namespace Entry

/-- The entry that a value writes down, if it fits. -/
def ofValue? (v : Value) : Option Entry :=
  (ofValue v).toOption

/-- The misfit at a position, if the value there does not fit. -/
def misfit? : Value × Nat → Option Misfit
  | (v, i) =>
    match ofValue v with
    | .ok _ => none
    | .error c => some ⟨i, c⟩

theorem misfit?_eq_some_iff {v : Value} {i : Nat} {m : Misfit} :
    misfit? (v, i) = some m ↔ m.index = i ∧ ofValue v = .error m.complaint := by
  obtain ⟨index, complaint⟩ := m
  rw [misfit?]
  cases ofValue v <;> simp [eq_comm]

theorem ofValuesFrom_eq (i : Nat) (vs : List Value) :
    ofValuesFrom i vs = (vs.filterMap ofValue?, (vs.zipIdx i).filterMap misfit?) := by
  induction vs generalizing i with
  | nil => rfl
  | cons v vs ih =>
    rw [ofValuesFrom, ih, List.zipIdx_cons, List.filterMap_cons, List.filterMap_cons, ofValue?,
      misfit?]
    cases ofValue v <;> rfl

/-- The entries of a list are those of its values that fit, in order. -/
theorem fst_ofValues (vs : List Value) : (ofValues vs).1 = vs.filterMap ofValue? :=
  congrArg Prod.fst (ofValuesFrom_eq 0 vs)

/-- The misfits of a list are its values that do not fit, in order and with their positions. -/
theorem snd_ofValues (vs : List Value) : (ofValues vs).2 = vs.zipIdx.filterMap misfit? :=
  congrArg Prod.snd (ofValuesFrom_eq 0 vs)

/-- Every value is an entry or a misfit. -/
theorem length_ofValues (vs : List Value) :
    (ofValues vs).1.length + (ofValues vs).2.length = vs.length := by
  have hfrom (i : Nat) : (ofValuesFrom i vs).1.length + (ofValuesFrom i vs).2.length = vs.length := by
    induction vs generalizing i with
    | nil => rfl
    | cons v vs ih =>
      have hrest := ih (i + 1)
      rw [ofValuesFrom, List.length_cons]
      cases ofValue v <;> simp only [List.length_cons] <;> omega
  exact hfrom 0

/-- A value is a misfit exactly at its own position, and for its own reason. -/
theorem mem_snd_ofValues_iff {vs : List Value} {m : Misfit} :
    m ∈ (ofValues vs).2 ↔ ∃ v, vs[m.index]? = some v ∧ ofValue v = .error m.complaint := by
  simp only [snd_ofValues, List.mem_filterMap, Prod.exists, misfit?_eq_some_iff,
    List.mk_mem_zipIdx_iff_getElem?]
  constructor
  · rintro ⟨v, _, hv, rfl, herror⟩
    exact ⟨v, hv, herror⟩
  · rintro ⟨v, hv, herror⟩
    exact ⟨v, _, hv, rfl, herror⟩

/-- Misfits come in the order of their positions. -/
theorem pairwise_snd_ofValues (vs : List Value) :
    ((ofValues vs).2.map (·.index)).Pairwise (· < ·) := by
  have hpositions : vs.zipIdx.Pairwise fun p q => p.2 < q.2 := by
    rw [← List.pairwise_map, List.zipIdx_map_snd]
    exact List.pairwise_lt_range' 1
  rw [snd_ofValues, List.pairwise_map]
  refine hpositions.filterMap misfit? ?_
  rintro ⟨v, i⟩ ⟨w, j⟩ hij m hm n hn
  rwa [(misfit?_eq_some_iff.mp hm).1, (misfit?_eq_some_iff.mp hn).1]

/-- **A list behind another one is read as it is read alone**, but for the positions. -/
theorem ofValues_append (vs ws : List Value) :
    ofValues (vs ++ ws) =
      ((ofValues vs).1 ++ (ofValues ws).1,
        (ofValues vs).2 ++ (ofValues ws).2.map fun m => { m with index := vs.length + m.index }) := by
  refine Prod.ext ?_ ?_
  · simp only [fst_ofValues, List.filterMap_append]
  · have hpositions : ws.zipIdx vs.length = ws.zipIdx.map fun p => (p.1, vs.length + p.2) :=
      List.zipIdx_eq_map_add
    have hshift (p : Value × Nat) : misfit? (p.1, vs.length + p.2) =
        (misfit? p).map fun m => { m with index := vs.length + m.index } := by
      obtain ⟨v, i⟩ := p
      rw [misfit?, misfit?]
      cases ofValue v <;> rfl
    simp only [snd_ofValues, List.zipIdx_append, List.filterMap_append, Nat.zero_add, hpositions,
      List.filterMap_map, List.map_filterMap]
    exact congrArg _ (List.filterMap_congr fun p _ => hshift p)

/-- **A list of values is divided into entries and misfits.**  Every value is one or the other.  The
misfits come in the order of their positions, and there is one at a position exactly if the value there
is no entry on its own, and for the same reason.  The entries are those that the other values are on
their own, in order.  A list behind another one is divided as it is alone, with its positions behind
those of the first.  And a record whose names are different is an entry exactly if each of its fields is
acceptable, namely the one that fits the fields. -/
theorem ofValues_exact :
    (∀ vs : List Value,
        (ofValues vs).1.length + (ofValues vs).2.length = vs.length ∧
          ((ofValues vs).2.map (·.index)).Pairwise (· < ·) ∧
          (∀ m, m ∈ (ofValues vs).2 ↔
            ∃ v, vs[m.index]? = some v ∧ ofValue v = .error m.complaint) ∧
          (ofValues vs).1 = vs.filterMap ofValue?) ∧
      (∀ vs ws : List Value,
        ofValues (vs ++ ws) =
          ((ofValues vs).1 ++ (ofValues ws).1,
            (ofValues vs).2 ++
              (ofValues ws).2.map fun m => { m with index := vs.length + m.index })) ∧
      ∀ fields : List (String × Value), (fields.map (·.1)).Nodup →
        ((∃ e, ofValue (record fields) = .ok e) ↔ ∀ f ∈ fields, Admits f.1 f.2) ∧
          ∀ e, ofValue (record fields) = .ok e ↔ Fits fields e := by
  refine ⟨fun vs => ⟨length_ofValues vs, pairwise_snd_ofValues vs,
    fun m => mem_snd_ofValues_iff, fst_ofValues vs⟩, ofValues_append, fun fields h => ⟨?_, ?_⟩⟩
  · rw [← exists_fits_iff h]
    exact exists_congr fun e => ofValue_record_eq_ok_iff h
  · exact fun e => ofValue_record_eq_ok_iff h

/-- The least and the greatest integers of 32 bits are acceptable, a null may stand for a list, and a field
of another name may have any value.  A list that holds such a record twice, each time between an integer
and a record with an item that is one too great, has its entry twice, and the others are misfits at their
positions. -/
theorem ofValues_exact_between_misfits :
    let fields : List (String × Value) :=
      [("chanceDenominator", .integer 2147483647), ("conditions", .null),
        ("weight", .sequence [.integer 2147483648]), ("rarity", .text "Mythic"),
        ("possibleItems", .sequence [.integer (-2147483648), .integer 7])]
    let e : Entry := ⟨[-2147483648, 7], 1, 2147483647, some "Mythic", []⟩
    let vs : List Value :=
      [.integer 7, record fields, record [("possibleItems", .sequence [.integer 2147483648])]]
    (fields.map (·.1)).Nodup ∧ (∀ f ∈ fields, Admits f.1 f.2) ∧ ofValue (record fields) = .ok e ∧
      (ofValues (vs ++ vs)).1 = [e, e] ∧ (ofValues (vs ++ vs)).2.map (·.index) = [0, 2, 3, 5] := by
  intro fields e vs
  obtain ⟨-, happend, hrecord⟩ := ofValues_exact
  have hnodup : (fields.map (·.1)).Nodup := by decide
  obtain ⟨hadmits, hfits⟩ := hrecord fields hnodup
  have hok : ofValue (record fields) = .ok e :=
    (hfits e).mpr ⟨.inr ⟨_, rfl, .cons rfl (.cons rfl .nil)⟩, rfl, rfl, .inr ⟨_, rfl, rfl⟩,
      .inl ⟨rfl, rfl⟩⟩
  refine ⟨hnodup, hadmits.mp ⟨e, hok⟩, hok, ?_, ?_⟩
  · rw [happend]
    rfl
  · rw [happend]
    rfl

end Entry

end DropRules
