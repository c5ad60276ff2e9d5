import DropRules.Yaml.Document
import Mathlib.Data.List.Forall2

/-!
# Reading the tokens of a tree

`Reader.node` and the functions beside it read the tree of a document from its tokens, with fuel and
with all that a document may hold.  Here it is told what they make of the tokens of plain block
collections, by a contract that says nothing of the places of tokens: `Reads kinds P` means that
wherever the tokens ahead are of these kinds, a node is read off them that satisfies `P`, and the
reader is left as it was but for these tokens.  Three units of fuel for every token are enough.

The contract is made for a scalar, for a pair of brackets, and, out of contracts for the parts, for
a sequence and for a mapping.  `Document.ofTokens_of_reads` takes it to the whole document.

Of a value it is enough to know how it is read behind a key (`ReadsValue`).  There a sequence may
also stand without a sign of its beginning, since it ends where the next key comes.
-/

namespace DropRules.Yaml

/-- A token of this kind begins a node. -/
def TokenKind.opensNode : TokenKind → Bool
  | .scalar .. | .flowSequenceStart | .blockSequenceStart | .blockMappingStart => true
  | _ => false

/-- Tokens of these kinds are read as a node that satisfies `P`, where no brackets are open. -/
structure Reads (kinds : List TokenKind) (P : Node → Prop) : Prop where
  opens : ∃ k rest, kinds = k :: rest ∧ k.opensNode
  reads : ∀ (r : Reader) (ts rest : List Token) (fuel : Nat) (dashes : Bool),
    r.tokens = ts ++ rest → ts.map (·.kind) = kinds → 3 * kinds.length ≤ fuel →
      ∃ n, r.node fuel true dashes = (n, { r with tokens := rest }) ∧ P n

namespace Reader

/-- A node without properties begins with its content. -/
theorem node_of_opensNode {r : Reader} {t : Token} {rest : List Token} (hr : r.tokens = t :: rest)
    (ht : t.kind.opensNode) (fuel : Nat) (block dashes : Bool) :
    r.node (fuel + 1) block dashes = r.content fuel block dashes t.start none none t := by
  obtain ⟨kind, start, stop⟩ := t
  obtain ⟨tokens, fault, handles, anchors⟩ := r
  subst hr
  cases kind <;> first | rfl | cases ht

/-- Where a node begins, none of these tokens comes next. -/
theorem atKind_of_opensNode {r : Reader} {t : Token} {rest : List Token}
    (hr : r.tokens = t :: rest) (ht : t.kind.opensNode) {kinds : List TokenKind}
    (hkinds : ∀ k ∈ kinds, k.opensNode = false) : r.atKind kinds = false := by
  rw [atKind, hr]
  show decide (t.kind ∈ kinds) = false
  rw [decide_eq_false_iff_not]
  intro hmem
  rw [hkinds _ hmem] at ht
  cases ht

end Reader

namespace Reads

variable {ι : Type} {kinds : List TokenKind} {P Q : Node → Prop}

theorem mono (h : Reads kinds P) (himp : ∀ n, P n → Q n) : Reads kinds Q where
  opens := h.opens
  reads r ts rest fuel dashes hr hts hfuel := by
    obtain ⟨n, hn, hP⟩ := h.reads r ts rest fuel dashes hr hts hfuel
    exact ⟨n, hn, himp n hP⟩

/-- The first of the tokens. -/
theorem exists_cons (h : Reads kinds P) {ts : List Token} (hts : ts.map (·.kind) = kinds) :
    ∃ t tail, ts = t :: tail ∧ t.kind.opensNode := by
  obtain ⟨k, rest, hkinds, hk⟩ := h.opens
  rw [hkinds] at hts
  obtain ⟨t, tail, rfl, rfl, -⟩ := List.map_eq_cons_iff.mp hts
  exact ⟨t, tail, rfl, hk⟩

/-- A scalar. -/
theorem scalar (w : List Char) (style : ScalarStyle) :
    Reads [.scalar w style] fun n => ∃ m, n = .scalar m none none style w where
  opens := ⟨_, _, rfl, rfl⟩
  reads r ts rest fuel dashes hr hts hfuel := by
    obtain ⟨⟨kind, start, stop⟩, rfl, hkind⟩ := List.map_eq_singleton_iff.mp hts
    obtain ⟨fuel, rfl⟩ : ∃ n, fuel = n + 2 := ⟨fuel - 2, by simp at hfuel; omega⟩
    subst hkind
    refine ⟨.scalar start none none style w, ?_, start, rfl⟩
    rw [Reader.node_of_opensNode hr rfl]
    show (Node.scalar start none none style w, r.skip) = _
    rw [Reader.skip, hr]
    rfl

/-- A pair of brackets is read as a sequence without items. -/
theorem brackets :
    Reads [.flowSequenceStart, .flowSequenceEnd] fun n => ∃ m, n = .sequence m none none [] where
  opens := ⟨_, _, rfl, rfl⟩
  reads r ts rest fuel dashes hr hts hfuel := by
    obtain ⟨⟨kind, start, stop⟩, tail, rfl, hkind, htail⟩ := List.map_eq_cons_iff.mp hts
    obtain ⟨⟨kind', start', stop'⟩, rfl, hkind'⟩ := List.map_eq_singleton_iff.mp htail
    obtain ⟨fuel, rfl⟩ : ∃ n, fuel = n + 3 := ⟨fuel - 3, by simp at hfuel; omega⟩
    subst hkind
    subst hkind'
    refine ⟨.sequence start none none [], ?_, start, rfl⟩
    obtain ⟨tokens, fault, handles, anchors⟩ := r
    subst hr
    rfl

/-! ## Sequences -/

/-- One more item of a block sequence. -/
theorem blockItems_cons (h : Reads kinds P) {r : Reader} {dash : Token} {item rest : List Token}
    (hr : r.tokens = dash :: (item ++ rest)) (hdash : dash.kind = .blockEntry)
    (hitem : item.map (·.kind) = kinds) (fuel : Nat) (hfuel : 3 * kinds.length ≤ fuel)
    (since : Mark) :
    ∃ n, P n ∧ r.blockItems (fuel + 1) since =
      (n :: (Reader.blockItems fuel since { r with tokens := rest }).1,
        (Reader.blockItems fuel since { r with tokens := rest }).2) := by
  obtain ⟨t, tail, rfl, ht⟩ := h.exists_cons hitem
  obtain ⟨n, hn, hP⟩ := h.reads { r with tokens := t :: tail ++ rest } (t :: tail) rest fuel false
    rfl hitem hfuel
  have hat :
      Reader.atKind { r with tokens := t :: tail ++ rest } [.blockEntry, .blockEnd] = false :=
    Reader.atKind_of_opensNode rfl ht (by decide)
  obtain ⟨kind, start, stop⟩ := dash
  obtain ⟨tokens, fault, handles, anchors⟩ := r
  subst hr
  subst hdash
  refine ⟨n, hP, ?_⟩
  rw [Reader.blockItems]
  simp only [hat, Bool.false_eq_true, if_false, hn]

/-- The items of a block sequence are read one after the other. -/
theorem blockItems {f : ι → List TokenKind} {P : ι → Node → Prop} {xs : List ι}
    (h : ∀ x ∈ xs, Reads (f x) (P x)) {r : Reader} {ts rest : List Token}
    (hr : r.tokens = ts ++ rest)
    (hts : ts.map (·.kind) = xs.flatMap (fun x => .blockEntry :: f x) ++ [.blockEnd]) (fuel : Nat)
    (hfuel : 3 * ts.length ≤ fuel) (since : Mark) :
    ∃ ns, List.Forall₂ P xs ns ∧ r.blockItems fuel since = (ns, { r with tokens := rest }) := by
  induction xs generalizing r ts fuel with
  | nil =>
    obtain ⟨⟨kind, start, stop⟩, rfl, hkind⟩ := List.map_eq_singleton_iff.mp hts
    obtain ⟨fuel, rfl⟩ : ∃ n, fuel = n + 1 := ⟨fuel - 1, by simp at hfuel; omega⟩
    obtain ⟨tokens, fault, handles, anchors⟩ := r
    subst hr
    subst hkind
    exact ⟨[], .nil, rfl⟩
  | cons x xs ih =>
    rw [List.flatMap_cons, List.cons_append, List.cons_append, List.append_assoc] at hts
    obtain ⟨dash, tail, rfl, hdash, htail⟩ := List.map_eq_cons_iff.mp hts
    obtain ⟨item, others, rfl, hitem, hothers⟩ := List.map_eq_append_iff.mp htail
    have hlength : item.length = (f x).length := by rw [← hitem, List.length_map]
    simp only [List.length_cons, List.length_append] at hfuel
    obtain ⟨fuel, rfl⟩ : ∃ n, fuel = n + 1 := ⟨fuel - 1, by omega⟩
    have hr' : r.tokens = dash :: (item ++ (others ++ rest)) := by
      rw [hr, List.cons_append, List.append_assoc]
    obtain ⟨n, hn, hread⟩ := (h x List.mem_cons_self).blockItems_cons hr' hdash hitem fuel
      (by omega) since
    obtain ⟨ns, hns, hlater⟩ := ih (fun y hy => h y (List.mem_cons_of_mem _ hy))
      (r := { r with tokens := others ++ rest }) rfl hothers fuel (by omega)
    exact ⟨n :: ns, .cons hn hns, by rw [hread, hlater]⟩

/-- **A block sequence** is read item by item. -/
theorem sequence {f : ι → List TokenKind} {P : ι → Node → Prop} {xs : List ι}
    (h : ∀ x ∈ xs, Reads (f x) (P x)) :
    Reads (.blockSequenceStart :: (xs.flatMap (fun x => .blockEntry :: f x) ++ [.blockEnd]))
      fun n => ∃ m ns, n = .sequence m none none ns ∧ List.Forall₂ P xs ns where
  opens := ⟨_, _, rfl, rfl⟩
  reads r ts rest fuel dashes hr hts hfuel := by
    obtain ⟨⟨kind, start, stop⟩, tail, rfl, hkind, htail⟩ := List.map_eq_cons_iff.mp hts
    rw [← hts, List.length_map, List.length_cons] at hfuel
    obtain ⟨fuel, rfl⟩ : ∃ n, fuel = n + 2 := ⟨fuel - 2, by omega⟩
    obtain ⟨ns, hns, hread⟩ := blockItems h (r := { r with tokens := tail ++ rest }) rfl htail fuel
      (by omega) start
    refine ⟨.sequence start none none ns, ?_, start, ns, rfl, hns⟩
    subst hkind
    rw [Reader.node_of_opensNode hr rfl]
    have hskip : r.skip = { r with tokens := tail ++ rest } := by rw [Reader.skip, hr]; rfl
    rw [← hskip] at hread
    have hcontent : r.content (fuel + 1) true dashes start none none
        ⟨.blockSequenceStart, start, stop⟩ =
        (.sequence start none none (r.skip.blockItems fuel start).1,
          (r.skip.blockItems fuel start).2) := by
      cases dashes <;> rfl
    rw [hcontent, hread]
    rfl

/-! ## Mappings -/

/-- A key or a value of a block mapping. -/
theorem blockPart (h : Reads kinds P) {r : Reader} {ts rest : List Token}
    (hr : r.tokens = ts ++ rest) (hts : ts.map (·.kind) = kinds) (fuel : Nat)
    (hfuel : 3 * kinds.length ≤ fuel) (stop : Mark) :
    ∃ n, P n ∧ r.blockPart (fuel + 1) stop = (n, { r with tokens := rest }) := by
  obtain ⟨t, tail, rfl, ht⟩ := h.exists_cons hts
  obtain ⟨n, hn, hP⟩ := h.reads r (t :: tail) rest fuel true hr hts hfuel
  have hat : r.atKind [.key, .value, .blockEnd] = false :=
    Reader.atKind_of_opensNode hr ht (by decide)
  refine ⟨n, hP, ?_⟩
  rw [Reader.blockPart, hat, if_neg (by decide), hn]

end Reads

/-- Tokens of these kinds, in front of another key or of the end of a mapping, are read as the value
of a key, which satisfies `P`. -/
def ReadsValue (kinds : List TokenKind) (P : Node → Prop) : Prop :=
  ∀ (r : Reader) (ts rest : List Token) (t : Token) (fuel : Nat) (stop : Mark),
    t.kind = .key ∨ t.kind = .blockEnd → r.tokens = ts ++ t :: rest → ts.map (·.kind) = kinds →
      3 * kinds.length + 3 ≤ fuel →
        ∃ n, P n ∧ r.blockPart (fuel + 1) stop = (n, { r with tokens := t :: rest })

/-- What is a node anywhere, is a value. -/
theorem Reads.value {kinds : List TokenKind} {P : Node → Prop} (h : Reads kinds P) :
    ReadsValue kinds P :=
  fun _ _ _ _ fuel stop _ hr hts hfuel => h.blockPart hr hts fuel (by omega) stop

namespace ReadsValue

variable {ι : Type} {kinds : List TokenKind} {P Q : Node → Prop}

theorem mono (h : ReadsValue kinds P) (himp : ∀ n, P n → Q n) : ReadsValue kinds Q := by
  intro r ts rest t fuel stop ht hr hts hfuel
  obtain ⟨n, hP, hn⟩ := h r ts rest t fuel stop ht hr hts hfuel
  exact ⟨n, himp n hP, hn⟩

/-! ## Sequences in the column of a key -/

/-- One more item of such a sequence. -/
theorem dashItems_cons (h : Reads kinds P) {r : Reader} {dash : Token} {item rest : List Token}
    (hr : r.tokens = dash :: (item ++ rest)) (hdash : dash.kind = .blockEntry)
    (hitem : item.map (·.kind) = kinds) (fuel : Nat) (hfuel : 3 * kinds.length ≤ fuel) :
    ∃ n, P n ∧ r.dashItems (fuel + 1) =
      (n :: (Reader.dashItems fuel { r with tokens := rest }).1,
        (Reader.dashItems fuel { r with tokens := rest }).2) := by
  obtain ⟨t, tail, rfl, ht⟩ := h.exists_cons hitem
  obtain ⟨n, hn, hP⟩ := h.reads { r with tokens := t :: tail ++ rest } (t :: tail) rest fuel false
    rfl hitem hfuel
  have hat : Reader.atKind { r with tokens := t :: tail ++ rest }
      [.blockEntry, .key, .value, .blockEnd] = false :=
    Reader.atKind_of_opensNode rfl ht (by decide)
  obtain ⟨kind, start, stop⟩ := dash
  obtain ⟨tokens, fault, handles, anchors⟩ := r
  subst hr
  subst hdash
  refine ⟨n, hP, ?_⟩
  rw [Reader.dashItems]
  simp only [hat, Bool.false_eq_true, if_false, hn]

/-- The items are read one after the other, until something else than a dash comes. -/
theorem dashItems {f : ι → List TokenKind} {P : ι → Node → Prop} {xs : List ι}
    (h : ∀ x ∈ xs, Reads (f x) (P x)) {r : Reader} {ts rest : List Token} {t : Token}
    (ht : t.kind = .key ∨ t.kind = .blockEnd) (hr : r.tokens = ts ++ t :: rest)
    (hts : ts.map (·.kind) = xs.flatMap fun x => .blockEntry :: f x) (fuel : Nat)
    (hfuel : 3 * ts.length + 1 ≤ fuel) :
    ∃ ns, List.Forall₂ P xs ns ∧ r.dashItems fuel = (ns, { r with tokens := t :: rest }) := by
  induction xs generalizing r ts fuel with
  | nil =>
    obtain rfl : ts = [] := List.map_eq_nil_iff.mp hts
    obtain ⟨fuel, rfl⟩ : ∃ n, fuel = n + 1 := ⟨fuel - 1, by omega⟩
    obtain ⟨kind, start, stop⟩ := t
    obtain ⟨tokens, fault, handles, anchors⟩ := r
    subst hr
    refine ⟨[], .nil, ?_⟩
    rcases ht with ht | ht <;> subst ht <;> rfl
  | cons x xs ih =>
    rw [List.flatMap_cons, List.cons_append] at hts
    obtain ⟨dash, tail, rfl, hdash, htail⟩ := List.map_eq_cons_iff.mp hts
    obtain ⟨item, others, rfl, hitem, hothers⟩ := List.map_eq_append_iff.mp htail
    have hlength : item.length = (f x).length := by rw [← hitem, List.length_map]
    simp only [List.length_cons, List.length_append] at hfuel
    obtain ⟨fuel, rfl⟩ : ∃ n, fuel = n + 1 := ⟨fuel - 1, by omega⟩
    have hr' : r.tokens = dash :: (item ++ (others ++ t :: rest)) := by
      rw [hr, List.cons_append, List.append_assoc]
    obtain ⟨n, hn, hread⟩ := dashItems_cons (h x List.mem_cons_self) hr' hdash hitem fuel (by omega)
    obtain ⟨ns, hns, hlater⟩ := ih (fun y hy => h y (List.mem_cons_of_mem _ hy))
      (r := { r with tokens := others ++ t :: rest }) rfl hothers fuel (by omega)
    exact ⟨n :: ns, .cons hn hns, by rw [hread, hlater]⟩

/-- **A sequence in the column of its key** is read item by item. -/
theorem dashes {f : ι → List TokenKind} {P : ι → Node → Prop} {xs : List ι} (hne : xs ≠ [])
    (h : ∀ x ∈ xs, Reads (f x) (P x)) :
    ReadsValue (xs.flatMap fun x => .blockEntry :: f x)
      fun n => ∃ m ns, n = .sequence m none none ns ∧ List.Forall₂ P xs ns := by
  intro r ts rest t fuel stop ht hr hts hfuel
  rw [← hts, List.length_map] at hfuel
  obtain ⟨fuel, rfl⟩ : ∃ n, fuel = n + 2 := ⟨fuel - 2, by omega⟩
  obtain ⟨ns, hns, hread⟩ := dashItems h ht hr hts fuel (by omega)
  obtain ⟨⟨kind, start, stop'⟩, tail, rfl, hkind⟩ :
      ∃ dash tail, ts = dash :: tail ∧ dash.kind = TokenKind.blockEntry := by
    obtain ⟨x, xs, rfl⟩ := List.exists_cons_of_ne_nil hne
    rw [List.flatMap_cons, List.cons_append] at hts
    obtain ⟨dash, tail, rfl, hdash, -⟩ := List.map_eq_cons_iff.mp hts
    exact ⟨dash, tail, rfl, hdash⟩
  refine ⟨.sequence start none none ns, ⟨start, ns, rfl, hns⟩, ?_⟩
  have hpart : r.blockPart (fuel + 2 + 1) stop =
      (.sequence start none none (r.dashItems fuel).1, (r.dashItems fuel).2) := by
    obtain ⟨tokens, fault, handles, anchors⟩ := r
    subst hr
    subst hkind
    rfl
  rw [hpart, hread]

/-! ## Mappings of values -/

/-- One more entry of a block mapping. -/
theorem blockEntries_cons (h : ReadsValue kinds P) {r : Reader} {name : List Char}
    {key word colon next : Token} {item rest : List Token}
    (hr : r.tokens = key :: word :: colon :: (item ++ next :: rest)) (hkey : key.kind = .key)
    (hword : word.kind = .scalar name .plain) (hcolon : colon.kind = .value)
    (hitem : item.map (·.kind) = kinds) (hnext : next.kind = .key ∨ next.kind = .blockEnd)
    (fuel : Nat) (hfuel : 3 * kinds.length + 4 ≤ fuel) (since : Mark) :
    ∃ n m, P n ∧ r.blockEntries (fuel + 1) since =
      ((.scalar m none none .plain name, n)
          :: (Reader.blockEntries fuel since { r with tokens := next :: rest }).1,
        (Reader.blockEntries fuel since { r with tokens := next :: rest }).2) := by
  obtain ⟨fuel, rfl⟩ : ∃ n, fuel = n + 1 := ⟨fuel - 1, by omega⟩
  obtain ⟨kind, start, stop⟩ := key
  obtain ⟨kind', start', stop'⟩ := colon
  obtain ⟨tokens, fault, handles, anchors⟩ := r
  subst hr
  subst hkey
  subst hcolon
  have hwordItem : (⟨word :: ⟨.value, start', stop'⟩ :: (item ++ next :: rest), fault, handles,
      anchors⟩ : Reader).tokens = [word] ++ (⟨.value, start', stop'⟩ :: (item ++ next :: rest)) :=
    rfl
  obtain ⟨k, ⟨m, rfl⟩, hname⟩ := (Reads.scalar name .plain).blockPart hwordItem
    (by rw [List.map_singleton, hword]) fuel (by rw [List.length_singleton]; omega) stop
  obtain ⟨n, hn, hvalue⟩ := h ⟨item ++ next :: rest, fault, handles, anchors⟩ item rest next fuel
    stop' hnext rfl hitem (by omega)
  refine ⟨n, m, hn, ?_⟩
  rw [Reader.blockEntries]
  simp only [hname, hvalue]

/-- The entries of a block mapping are read one after the other. -/
theorem blockEntries {key : ι → List Char} {f : ι → List TokenKind} {P : ι → Node → Prop}
    {xs : List ι} (h : ∀ x ∈ xs, ReadsValue (f x) (P x)) {r : Reader} {ts rest : List Token}
    (hr : r.tokens = ts ++ rest)
    (hts : ts.map (·.kind) =
      xs.flatMap (fun x => .key :: .scalar (key x) .plain :: .value :: f x) ++ [.blockEnd])
    (fuel : Nat) (hfuel : 3 * ts.length ≤ fuel) (since : Mark) :
    ∃ es, List.Forall₂ (fun x e => (∃ m, e.1 = .scalar m none none .plain (key x)) ∧ P x e.2) xs es
      ∧ r.blockEntries fuel since = (es, { r with tokens := rest }) := by
  induction xs generalizing r ts fuel with
  | nil =>
    obtain ⟨⟨kind, start, stop⟩, rfl, hkind⟩ := List.map_eq_singleton_iff.mp hts
    obtain ⟨fuel, rfl⟩ : ∃ n, fuel = n + 1 := ⟨fuel - 1, by simp at hfuel; omega⟩
    obtain ⟨tokens, fault, handles, anchors⟩ := r
    subst hr
    subst hkind
    exact ⟨[], .nil, rfl⟩
  | cons x xs ih =>
    rw [List.flatMap_cons, List.append_assoc] at hts
    obtain ⟨sign, tail, rfl, hsign, htail⟩ := List.map_eq_cons_iff.mp hts
    obtain ⟨word, tail, rfl, hword, htail⟩ := List.map_eq_cons_iff.mp htail
    obtain ⟨colon, tail, rfl, hcolon, htail⟩ := List.map_eq_cons_iff.mp htail
    obtain ⟨item, others, rfl, hitem, hothers⟩ := List.map_eq_append_iff.mp htail
    have hlength : item.length = (f x).length := by rw [← hitem, List.length_map]
    simp only [List.length_cons, List.length_append] at hfuel
    obtain ⟨fuel, rfl⟩ : ∃ n, fuel = n + 1 := ⟨fuel - 1, by omega⟩
    obtain ⟨next, more, rfl, hnext⟩ :
        ∃ next more, others = next :: more ∧ (next.kind = .key ∨ next.kind = .blockEnd) := by
      cases xs with
      | nil =>
        obtain ⟨next, rfl, hnext⟩ := List.map_eq_singleton_iff.mp hothers
        exact ⟨next, [], rfl, .inr hnext⟩
      | cons y ys =>
        obtain ⟨next, more, rfl, hnext, -⟩ := List.map_eq_cons_iff.mp hothers
        exact ⟨next, more, rfl, .inl hnext⟩
    have hr' : r.tokens = sign :: word :: colon :: (item ++ next :: (more ++ rest)) := by
      rw [hr]
      simp only [List.cons_append, List.append_assoc]
    obtain ⟨n, m, hn, hread⟩ := (h x List.mem_cons_self).blockEntries_cons hr' hsign hword hcolon
      hitem hnext fuel (by omega) since
    obtain ⟨es, hes, hlater⟩ := ih (fun y hy => h y (List.mem_cons_of_mem _ hy))
      (r := { r with tokens := next :: (more ++ rest) }) rfl hothers fuel (by omega)
    exact ⟨(_, n) :: es, .cons ⟨⟨m, rfl⟩, hn⟩ hes, by rw [hread, hlater]⟩

/-- **A block mapping** is read entry by entry. -/
theorem mapping {key : ι → List Char} {f : ι → List TokenKind} {P : ι → Node → Prop} {xs : List ι}
    (h : ∀ x ∈ xs, ReadsValue (f x) (P x)) :
    Reads (.blockMappingStart
        :: (xs.flatMap (fun x => .key :: .scalar (key x) .plain :: .value :: f x) ++ [.blockEnd]))
      fun n => ∃ m es, n = .mapping m none none es ∧
        List.Forall₂ (fun x e => (∃ m, e.1 = .scalar m none none .plain (key x)) ∧ P x e.2) xs es
    where
  opens := ⟨_, _, rfl, rfl⟩
  reads r ts rest fuel dashes hr hts hfuel := by
    obtain ⟨⟨kind, start, stop⟩, tail, rfl, hkind, htail⟩ := List.map_eq_cons_iff.mp hts
    rw [← hts, List.length_map, List.length_cons] at hfuel
    obtain ⟨fuel, rfl⟩ : ∃ n, fuel = n + 2 := ⟨fuel - 2, by omega⟩
    obtain ⟨es, hes, hread⟩ := blockEntries h (r := { r with tokens := tail ++ rest }) rfl htail
      fuel (by omega) start
    refine ⟨.mapping start none none es, ?_, start, es, rfl, hes⟩
    subst hkind
    rw [Reader.node_of_opensNode hr rfl]
    have hskip : r.skip = { r with tokens := tail ++ rest } := by rw [Reader.skip, hr]; rfl
    rw [← hskip] at hread
    have hcontent : r.content (fuel + 1) true dashes start none none
        ⟨.blockMappingStart, start, stop⟩ =
        (.mapping start none none (r.skip.blockEntries fuel start).1,
          (r.skip.blockEntries fuel start).2) := by
      cases dashes <;> rfl
    rw [hcontent, hread]
    rfl

end ReadsValue

namespace Reads

variable {kinds : List TokenKind} {P : Node → Prop}

/-- A block mapping with one entry. -/
theorem mapping_singleton (h : Reads kinds P) (key : List Char) :
    Reads (.blockMappingStart :: .key :: .scalar key .plain :: .value :: (kinds ++ [.blockEnd]))
      fun n => ∃ m m' v, n = .mapping m none none [(.scalar m' none none .plain key, v)] ∧ P v := by
  have hmapping : Reads (.blockMappingStart
      :: ([()].flatMap (fun _ => .key :: .scalar key .plain :: .value :: kinds)
        ++ [.blockEnd])) _ := ReadsValue.mapping fun _ _ => h.value
  rw [List.flatMap_singleton] at hmapping
  refine hmapping.mono ?_
  rintro n ⟨m, es, rfl, hes⟩
  obtain ⟨⟨k, v⟩, es, ⟨⟨m', rfl⟩, hv⟩, hnil, rfl⟩ := List.forall₂_cons_left_iff.mp hes
  rw [List.forall₂_nil_left_iff] at hnil
  rw [hnil]
  exact ⟨m, m', v, rfl, hv⟩

end Reads

/-! ## The whole document -/

/-- **A document is read** from tokens that are read as a node and are all there is. -/
theorem Document.ofTokens_of_reads {kinds : List TokenKind} {P : Node → Prop} (h : Reads kinds P)
    {s : TokenStream} (hkinds : s.tokens.map (·.kind) = kinds ++ [.streamEnd]) :
    ∃ n, P n ∧ Document.ofTokens s = ⟨n, none, false⟩ := by
  obtain ⟨tokens, fault⟩ := s
  obtain ⟨ts, tail, rfl, hts, htail⟩ := List.map_eq_append_iff.mp hkinds
  obtain ⟨⟨kind, start, stop⟩, rfl, hkind⟩ := List.map_eq_singleton_iff.mp htail
  subst hkind
  obtain ⟨t, tail, rfl, ht⟩ := h.exists_cons hts
  obtain ⟨all, hall⟩ : ∃ all, all = t :: tail ++ [⟨.streamEnd, start, stop⟩] := ⟨_, rfl⟩
  obtain ⟨n, hn, hP⟩ := h.reads (Reader.withCommonHandles ⟨all, fault, [], []⟩) (t :: tail)
    [⟨.streamEnd, start, stop⟩] (3 * all.length + 4) false hall hts (by
      rw [← hts, List.length_map, hall, List.length_append]
      omega)
  have hroot : Reader.root ⟨all, fault, [], []⟩ =
      (n, { Reader.withCommonHandles ⟨all, fault, [], []⟩ with
        tokens := [⟨.streamEnd, start, stop⟩] }) := by
    have hopens : all.head?.any (Reader.opensDocument ·.kind) = false := by
      rw [hall]
      obtain ⟨kind, start, stop⟩ := t
      cases kind <;> first | rfl | cases ht
    rw [Reader.root]
    simp only [hopens, Bool.false_eq_true, if_false, hn]
  rw [← hall]
  refine ⟨n, hP, ?_⟩
  rw [Document.ofTokens]
  split
  · next hfirst =>
    rw [hall] at hfirst
    obtain ⟨rfl, -⟩ := List.cons.inj hfirst
    cases ht
  · rw [hroot]
    rfl

end DropRules.Yaml
