import DropRules.Yaml.Token

/-!
# The tree of a document

A document is a tree of scalars, sequences and mappings.  An alias stands for the node that bears
an anchor; since that node may enclose the alias, the tree keeps the alias as it is, and the
anchored nodes carry the `Slot` by which it refers to them (`Node.anchored`).

A text with a fault still has a tree, for what comes before the fault may decide how the document
is answered.  Where the fault is, the tree has a `Node.cut`, and nothing behind a cut is of any
meaning.
-/

namespace DropRules.Yaml

/-- The number by which aliases refer to an anchored node. -/
abbrev Slot := Nat

/-- A node of a document. -/
inductive Node where
  /-- A word or a text. -/
  | scalar (mark : Mark) (slot : Option Slot) (tag : Option Tag) (style : ScalarStyle)
      (text : List Char)
  /-- A list of nodes. -/
  | sequence (mark : Mark) (slot : Option Slot) (tag : Option Tag) (items : List Node)
  /-- A list of keys with their values. -/
  | mapping (mark : Mark) (slot : Option Slot) (tag : Option Tag) (entries : List (Node × Node))
  /-- A reference to an anchored node. -/
  | reference (mark : Mark) (slot : Slot)
  /-- The document of a text that holds none. -/
  | void (mark : Mark)
  /-- The place of a fault. -/
  | cut

namespace Node

mutual

/-- Whether a fault lies in the node. -/
def isCut : Node → Bool
  | scalar .. => false
  | sequence _ _ _ items => isCutList items
  | mapping _ _ _ entries => isCutEntries entries
  | reference .. => false
  | void _ => false
  | cut => true

/-- Whether a fault lies in one of the nodes. -/
def isCutList : List Node → Bool
  | [] => false
  | n :: rest => n.isCut || isCutList rest

/-- Whether a fault lies in one of the entries. -/
def isCutEntries : List (Node × Node) → Bool
  | [] => false
  | (k, v) :: rest => k.isCut || v.isCut || isCutEntries rest

end

mutual

/-- The number of signs that describe the node: one for a leaf, and for a collection one where it
begins and one where it ends, if it ends. -/
def weight : Node → Nat
  | scalar .. => 1
  | sequence _ _ _ items => 1 + weightList items + if isCutList items then 0 else 1
  | mapping _ _ _ entries => 1 + weightEntries entries + if isCutEntries entries then 0 else 1
  | reference .. => 1
  | void _ => 1
  | cut => 0

/-- The number of signs that describe the nodes. -/
def weightList : List Node → Nat
  | [] => 0
  | n :: rest => n.weight + weightList rest

/-- The number of signs that describe the entries. -/
def weightEntries : List (Node × Node) → Nat
  | [] => 0
  | (k, v) :: rest => k.weight + v.weight + weightEntries rest

end

mutual

/-- The anchored nodes with their slots, in the order in which they begin. -/
def anchored : Node → List (Slot × Node)
  | scalar mark slot tag style text =>
    slot.toList.map fun s => (s, scalar mark slot tag style text)
  | sequence mark slot tag items =>
    (slot.toList.map fun s => (s, sequence mark slot tag items)) ++ anchoredList items
  | mapping mark slot tag entries =>
    (slot.toList.map fun s => (s, mapping mark slot tag entries)) ++ anchoredEntries entries
  | reference .. => []
  | void _ => []
  | cut => []

/-- The anchored nodes among the nodes. -/
def anchoredList : List Node → List (Slot × Node)
  | [] => []
  | n :: rest => n.anchored ++ anchoredList rest

/-- The anchored nodes among the entries. -/
def anchoredEntries : List (Node × Node) → List (Slot × Node)
  | [] => []
  | (k, v) :: rest => k.anchored ++ v.anchored ++ anchoredEntries rest

end

/-! ## Equality -/

mutual

/-- Whether two nodes are equal. -/
def same : Node → Node → Bool
  | scalar m slot tag style s, scalar m' slot' tag' style' s' =>
    m == m' && slot == slot' && tag == tag' && style == style' && s == s'
  | sequence m slot tag ns, sequence m' slot' tag' ns' =>
    m == m' && slot == slot' && tag == tag' && sameList ns ns'
  | mapping m slot tag es, mapping m' slot' tag' es' =>
    m == m' && slot == slot' && tag == tag' && sameEntries es es'
  | reference m slot, reference m' slot' => m == m' && slot == slot'
  | void m, void m' => m == m'
  | cut, cut => true
  | _, _ => false

/-- Whether two lists of nodes are equal. -/
def sameList : List Node → List Node → Bool
  | [], [] => true
  | n :: ns, n' :: ns' => n.same n' && sameList ns ns'
  | _, _ => false

/-- Whether two lists of entries are equal. -/
def sameEntries : List (Node × Node) → List (Node × Node) → Bool
  | [], [] => true
  | (k, v) :: es, (k', v') :: es' => k.same k' && v.same v' && sameEntries es es'
  | _, _ => false

end

mutual

theorem same_iff : ∀ n n' : Node, n.same n' = true ↔ n = n'
  | scalar .., n' | reference .., n' | void _, n' | cut, n' => by
    cases n' <;> simp [same, and_assoc]
  | sequence _ _ _ ns, n' => by
    cases n' <;> simp [same, sameList_iff ns, and_assoc]
  | mapping _ _ _ es, n' => by
    cases n' <;> simp [same, sameEntries_iff es, and_assoc]

theorem sameList_iff : ∀ ns ns' : List Node, sameList ns ns' = true ↔ ns = ns'
  | [], ns' => by cases ns' <;> simp [sameList]
  | n :: ns, ns' => by
    cases ns' <;> simp [sameList, same_iff n, sameList_iff ns]

theorem sameEntries_iff : ∀ es es' : List (Node × Node), sameEntries es es' = true ↔ es = es'
  | [], es' => by cases es' <;> simp [sameEntries]
  | (k, v) :: es, es' => by
    cases es' <;> simp [sameEntries, same_iff k, same_iff v, sameEntries_iff es, Prod.ext_iff]

end

instance : DecidableEq Node :=
  fun n n' => decidable_of_iff _ (same_iff n n')

end Node

end DropRules.Yaml
