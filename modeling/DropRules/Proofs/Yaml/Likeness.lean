import DropRules.Yaml.Decode
import Mathlib.Data.List.Forall2

/-!
# Reading the same thing at another place

Two nodes are alike (`Node.Alike`) if they say the same, wherever they stand: the places may differ,
and so may the slots, as long as a relation tells which slot of the one document is which slot of
the other.  If related slots stand for nodes that are alike, then nodes that are alike have the same
value (`Node.Alike.value`).

## 1.  Computations that fail

Reading may fail, and counts the aliases that it follows.  `Decode.Fails` tells that a computation
gives no result, wherever the counting starts.

## 2.  Copies of a computation

A second computation is a copy of a first (`Decode.Copied`) if, whenever the first gives a result,
the second gives a related one without following more aliases, wherever the counting starts, as long
as the limit of the second document allows it.  Copies compose (`Decode.Copied.bind`), so that for
each function of reading only its own choices are left to be compared.
-/

namespace DropRules.Yaml

/-- Nodes that say the same up to their places, where `ρ` tells which slots correspond.  No node is
like a cut. -/
inductive Node.Alike (ρ : Slot → Slot → Prop) : Node → Node → Prop
  | scalar {m m' : Mark} {s s' : Option Slot} {tag : Option Tag} {style : ScalarStyle}
      {text : List Char} : Alike ρ (.scalar m s tag style text) (.scalar m' s' tag style text)
  | sequence {m m' : Mark} {s s' : Option Slot} {tag : Option Tag} {ns ns' : List Node}
      (items : List.Forall₂ (Alike ρ) ns ns') :
      Alike ρ (.sequence m s tag ns) (.sequence m' s' tag ns')
  | mapping {m m' : Mark} {s s' : Option Slot} {tag : Option Tag} {es es' : List (Node × Node)}
      (keys : List.Forall₂ (Alike ρ) (es.map Prod.fst) (es'.map Prod.fst))
      (values : List.Forall₂ (Alike ρ) (es.map Prod.snd) (es'.map Prod.snd)) :
      Alike ρ (.mapping m s tag es) (.mapping m' s' tag es')
  | reference {m m' : Mark} {s s' : Slot} (slots : ρ s s') :
      Alike ρ (.reference m s) (.reference m' s')
  | void {m m' : Mark} : Alike ρ (.void m) (.void m')

/-- Documents in which slots that correspond stand for nodes that are alike. -/
def Source.Alike (ρ : Slot → Slot → Prop) (src src' : Source) : Prop :=
  ∀ s s', ρ s s' → ∀ n, src.target? s = some n → ∃ n', src'.target? s' = some n' ∧ n.Alike ρ n'

namespace Decode

variable {α β γ δ : Type} {limit : Nat}

theorem run_bind_eq_ok {x : Decode α} {f : α → Decode β} {c c₂ : Nat} {b : β} :
    (x >>= f).run c = .ok (b, c₂) ↔ ∃ a c₁, x.run c = .ok (a, c₁) ∧ (f a).run c₁ = .ok (b, c₂) := by
  rw [StateT.run_bind]
  constructor
  · intro h
    cases hx : x.run c with
    | error e =>
      rw [hx] at h
      cases h
    | ok p =>
      rw [hx] at h
      exact ⟨p.1, p.2, rfl, h⟩
  · rintro ⟨a, c₁, hx, hf⟩
    rw [hx]
    exact hf

/-! ## 1.  Computations that fail -/

/-- The computation gives no result, however many aliases were followed before. -/
def Fails (x : Decode α) : Prop :=
  ∀ c r, x.run c ≠ .ok r

namespace Fails

theorem throw (f : ReadFault) : Fails (MonadExcept.throw f : Decode α) := by
  intro c r h
  cases h

theorem bind_left {x : Decode α} (hx : Fails x) (f : α → Decode β) : Fails (x >>= f) := by
  rintro c ⟨b, c₂⟩ h
  obtain ⟨a, c₁, hx₁, -⟩ := run_bind_eq_ok.mp h
  exact hx c _ hx₁

theorem bind_right (x : Decode α) {f : α → Decode β} (hf : ∀ a, Fails (f a)) : Fails (x >>= f) := by
  rintro c ⟨b, c₂⟩ h
  obtain ⟨a, c₁, -, hf₁⟩ := run_bind_eq_ok.mp h
  exact hf a c₁ _ hf₁

end Fails

/-! ## 2.  Copies of a computation -/

/-- Whatever `x` gives, `y` gives something related to it without following more aliases, if `limit`
allows as many. -/
def Copied (limit : Nat) (R : α → β → Prop) (x : Decode α) (y : Decode β) : Prop :=
  ∀ c a c₂, x.run c = .ok (a, c₂) →
    ∃ k b, c + k ≤ c₂ ∧ R a b ∧ ∀ c', c' + k ≤ limit → y.run c' = .ok (b, c' + k)

namespace Copied

theorem pure {R : α → β → Prop} {a : α} {b : β} (h : R a b) :
    Copied limit R (Pure.pure a) (Pure.pure b) := by
  intro c a' c₂ hx
  cases hx
  exact ⟨0, b, Nat.le_refl c, h, fun _ _ => rfl⟩

/-- Nothing is asked of a copy of a computation that fails. -/
theorem of_fails {R : α → β → Prop} {x : Decode α} (hx : Fails x) (y : Decode β) :
    Copied limit R x y :=
  fun c _ _ h => absurd h (hx c _)

theorem bind {R : α → β → Prop} {S : γ → δ → Prop} {x : Decode α} {y : Decode β}
    {f : α → Decode γ} {g : β → Decode δ} (hx : Copied limit R x y)
    (hf : ∀ a b, R a b → Copied limit S (f a) (g b)) : Copied limit S (x >>= f) (y >>= g) := by
  intro c a c₂ h
  obtain ⟨a₁, c₁, hx₁, hf₁⟩ := run_bind_eq_ok.mp h
  obtain ⟨k, b₁, hk, hR, hy⟩ := hx c a₁ c₁ hx₁
  obtain ⟨l, b, hl, hS, hg⟩ := hf a₁ b₁ hR c₁ a c₂ hf₁
  refine ⟨k + l, b, by omega, hS, fun c' hc => ?_⟩
  refine run_bind_eq_ok.mpr ⟨b₁, c' + k, hy c' (by omega), ?_⟩
  rw [hg (c' + k) (by omega), Nat.add_assoc]

end Copied

/-- The count does not go down. -/
def Grows (x : Decode α) : Prop :=
  ∀ c a c₂, x.run c = .ok (a, c₂) → c ≤ c₂

namespace Grows

theorem pure (a : α) : Grows (Pure.pure a) := by
  intro c a' c₂ hx
  cases hx
  exact Nat.le_refl c

theorem of_fails {x : Decode α} (hx : Fails x) : Grows x :=
  fun c _ _ h => absurd h (hx c _)

theorem bind {x : Decode α} {f : α → Decode β} (hx : Grows x) (hf : ∀ a, Grows (f a)) :
    Grows (x >>= f) := by
  intro c b c₂ h
  obtain ⟨a, c₁, hx₁, hf₁⟩ := run_bind_eq_ok.mp h
  exact Nat.le_trans (hx c a c₁ hx₁) (hf a c₁ b c₂ hf₁)

/-- A computation that follows no alias at all is a copy of any other. -/
theorem copied {x : Decode α} (hx : Grows x) {R : α → β → Prop} {b : β} (hR : ∀ a, R a b) :
    Copied limit R x (Pure.pure b) :=
  fun c a c₂ h => ⟨0, b, hx c a c₂ h, hR a, fun _ _ => rfl⟩

end Grows

/-! ## 3.  The count of aliases -/

variable (src : Source)

/-- Following an alias takes one step, if it is allowed and leads anywhere. -/
theorem run_follow_reference (m : Mark) (s : Slot) (c : Nat) :
    (follow src (.reference m s)).run c =
      if src.aliasLimit < c + 1 then .error .tooManyAliases
      else
        match src.target? s with
        | some n => .ok (n, c + 1)
        | none => .error src.cutFault := by
  simp only [Decode.follow, StateT.run_bind, StateT.run_get, pure_bind]
  split
  · rfl
  · show (match src.target? s with
      | some n => pure n
      | none => throw src.cutFault : Decode Node).run (c + 1) = _
    split <;> rfl

theorem grows_follow (n : Node) : Grows (follow src n) := by
  cases n with
  | reference m s =>
    intro c a c₂ hx
    rw [run_follow_reference] at hx
    split at hx
    · cases hx
    · split at hx
      · cases hx
        exact Nat.le_succ c
      · cases hx
  | scalar | sequence | mapping | void | cut => exact .pure _

theorem grows_scalar (path : Path) (m : Mark) (tag : Option Tag) (style : ScalarStyle)
    (s : List Char) : Grows (scalar path m tag style s) := by
  rw [scalar]
  split
  · exact .of_fails (.throw _)
  · exact .of_fails (.throw _)
  all_goals exact .pure _

section Collections

variable {value : Path → Node → Decode Value} (hvalue : ∀ p n, Grows (value p n))

include hvalue

theorem grows_items (path : Path) (i : Nat) (ns : List Node) : Grows (items value path i ns) := by
  induction ns generalizing i with
  | nil => exact .pure _
  | cons n ns ih =>
    rw [items]
    exact (hvalue _ n).bind fun v => (ih _).bind fun vs => .pure _

theorem grows_entries (path : Path) (m : Mark) (seen : List Value) (es : List (Node × Node)) :
    Grows (entries value path m seen es) := by
  induction es generalizing seen with
  | nil => exact .pure _
  | cons e es ih =>
    obtain ⟨k, v⟩ := e
    rw [entries]
    refine (hvalue _ k).bind fun key => ?_
    cases seen.find? key.same with
    | some first => exact .of_fails (Fails.bind_left (.throw _) _)
    | none => exact (hvalue _ v).bind fun val => (ih _).bind fun more => .pure _

end Collections

theorem grows_content (depth : Nat) (path : Path) (n : Node) : Grows (content src depth path n) := by
  induction depth generalizing path n with
  | zero =>
    cases n with
    | scalar => exact grows_scalar _ _ _ _ _
    | void => exact .pure _
    | sequence | mapping | reference | cut => exact .of_fails (.throw _)
  | succ depth ih =>
    have hvalue (p : Path) (n : Node) : Grows (value src depth p n) :=
      (grows_follow src n).bind (ih p)
    cases n with
    | scalar => exact grows_scalar _ _ _ _ _
    | sequence => exact (grows_items hvalue _ _ _).bind fun _ => .pure _
    | mapping => exact (grows_entries hvalue _ _ _ _).bind fun _ => .pure _
    | void => exact .pure _
    | reference | cut => exact .of_fails (.throw _)

/-- Reading a value does not take back an alias that was followed. -/
theorem grows_value (depth : Nat) (path : Path) (n : Node) : Grows (value src depth path n) :=
  (grows_follow src n).bind (grows_content src depth path)

end Decode

/-! ## 4.  Nodes that are alike are read alike -/

theorem Node.isCutEntries_eq (es : List (Node × Node)) :
    isCutEntries es = (isCutList (es.map Prod.fst) || isCutList (es.map Prod.snd)) := by
  induction es with
  | nil => rfl
  | cons e es ih =>
    obtain ⟨k, v⟩ := e
    simp only [isCutEntries, isCutList, List.map_cons, ih]
    ac_rfl

namespace Node.Alike

open Decode

variable {ρ : Slot → Slot → Prop} {src src' : Source} {limit : Nat}

/-- What is like a node holds no fault. -/
theorem isCut {n n' : Node} (h : n.Alike ρ n') : n'.isCut = false := by
  refine @Node.Alike.rec ρ (fun _ n' _ => n'.isCut = false) (fun _ ns' _ => isCutList ns' = false)
    ?scalar ?sequence ?mapping ?reference ?void ?nil ?cons n n' h
  case scalar => exact rfl
  case sequence => exact fun _ ih => ih
  case mapping =>
    intro _ _ _ _ _ _ _ _ _ ihkeys ihvalues
    rw [Node.isCut, isCutEntries_eq, ihkeys, ihvalues]
    rfl
  case reference => exact fun _ => rfl
  case void => exact rfl
  case nil => exact rfl
  case cons =>
    intro _ _ _ _ _ _ ih ihs
    rw [isCutList, ih, ihs]
    rfl

/-- The entries of mappings that are alike are alike one by one. -/
theorem entries {es es' : List (Node × Node)}
    (keys : List.Forall₂ (Node.Alike ρ) (es.map Prod.fst) (es'.map Prod.fst))
    (values : List.Forall₂ (Node.Alike ρ) (es.map Prod.snd) (es'.map Prod.snd)) :
    List.Forall₂ (fun e e' => e.1.Alike ρ e'.1 ∧ e.2.Alike ρ e'.2) es es' := by
  induction es generalizing es' with
  | nil =>
    cases es' with
    | nil => exact .nil
    | cons => cases keys
  | cons e es ih =>
    cases es' with
    | nil => cases keys
    | cons e' es' =>
      obtain ⟨hkey, hkeys⟩ := List.forall₂_cons.mp keys
      obtain ⟨hvalue, hvalues⟩ := List.forall₂_cons.mp values
      exact .cons ⟨hkey, hvalue⟩ (ih hkeys hvalues)

/-- Following leads to nodes that are alike. -/
theorem follow {n n' : Node} (h : n.Alike ρ n') (hsrc : src.Alike ρ src') :
    Copied src'.aliasLimit (Node.Alike ρ) (Decode.follow src n) (Decode.follow src' n') := by
  cases h with
  | scalar => exact .pure .scalar
  | sequence items => exact .pure (.sequence items)
  | mapping keys values => exact .pure (.mapping keys values)
  | void => exact .pure .void
  | @reference m m' s s' slots =>
    intro c a c₂ hx
    rw [run_follow_reference] at hx
    split at hx
    · cases hx
    · cases htarget : src.target? s with
      | none =>
        rw [htarget] at hx
        cases hx
      | some n =>
        obtain ⟨n', htarget', halike⟩ := hsrc s s' slots n htarget
        rw [htarget] at hx
        cases hx
        refine ⟨1, n', Nat.le_refl _, halike, fun c' hc => ?_⟩
        rw [run_follow_reference, if_neg (by omega), htarget']

/-! ### Values -/

theorem scalar_copied (path path' : Path) (m m' : Mark) (tag : Option Tag) (style : ScalarStyle)
    (s : List Char) :
    Copied limit Eq (Decode.scalar path m tag style s) (Decode.scalar path' m' tag style s) := by
  simp only [Decode.scalar]
  split
  · exact .of_fails (.throw _) _
  · exact .of_fails (.throw _) _
  all_goals exact .pure rfl

section Collections

variable {value value' : Path → Node → Decode Value}
  (hvalue : ∀ p p' n n', n.Alike ρ n' → Copied limit Eq (value p n) (value' p' n'))

include hvalue

theorem items_copied {ns ns' : List Node} (h : List.Forall₂ (Node.Alike ρ) ns ns')
    (path path' : Path) (i i' : Nat) :
    Copied limit Eq (Decode.items value path i ns) (Decode.items value' path' i' ns') := by
  induction h generalizing i i' with
  | nil => exact .pure rfl
  | cons hn _ ih =>
    rw [Decode.items, Decode.items]
    refine (hvalue _ _ _ _ hn).bind ?_
    rintro v _ rfl
    refine (ih _ _).bind ?_
    rintro vs _ rfl
    exact .pure rfl

theorem entries_copied {es es' : List (Node × Node)}
    (h : List.Forall₂ (fun e e' => e.1.Alike ρ e'.1 ∧ e.2.Alike ρ e'.2) es es')
    (path path' : Path) (m m' : Mark) (seen : List Value) :
    Copied limit Eq (Decode.entries value path m seen es)
      (Decode.entries value' path' m' seen es') := by
  induction h generalizing seen with
  | nil => exact .pure rfl
  | @cons e e' es es' he _ ih =>
    obtain ⟨k, v⟩ := e
    obtain ⟨k', v'⟩ := e'
    rw [Decode.entries, Decode.entries]
    refine (hvalue _ _ _ _ he.1).bind ?_
    rintro key _ rfl
    cases seen.find? key.same with
    | some first => exact .of_fails (Fails.bind_left (.throw _) _) _
    | none =>
      refine (hvalue _ _ _ _ he.2).bind ?_
      rintro val _ rfl
      refine (ih _).bind ?_
      rintro vs _ rfl
      exact .pure rfl

end Collections

/-- **Nodes that are alike have the same value.** -/
theorem content (hsrc : src.Alike ρ src') (depth : Nat) (path path' : Path) {n n' : Node}
    (h : n.Alike ρ n') :
    Copied src'.aliasLimit Eq (Decode.content src depth path n)
      (Decode.content src' depth path' n') := by
  induction depth generalizing path path' n n' with
  | zero =>
    cases h with
    | scalar => exact scalar_copied _ _ _ _ _ _ _
    | sequence | mapping | reference => exact .of_fails (.throw _) _
    | void => exact .pure rfl
  | succ depth ih =>
    have hvalue (p p' : Path) (n n' : Node) (h : n.Alike ρ n') :
        Copied src'.aliasLimit Eq (Decode.value src depth p n) (Decode.value src' depth p' n') :=
      (h.follow hsrc).bind fun _ _ h => ih p p' h
    cases h with
    | scalar => exact scalar_copied _ _ _ _ _ _ _
    | sequence items =>
      refine (items_copied hvalue items path path' 0 0).bind ?_
      rintro vs _ rfl
      exact .pure rfl
    | mapping keys values =>
      refine (entries_copied hvalue (entries keys values) path path' _ _ []).bind ?_
      rintro vs _ rfl
      exact .pure rfl
    | reference => exact .of_fails (.throw _) _
    | void => exact .pure rfl

theorem value (hsrc : src.Alike ρ src') (depth : Nat) (path path' : Path) {n n' : Node}
    (h : n.Alike ρ n') :
    Copied src'.aliasLimit Eq (Decode.value src depth path n) (Decode.value src' depth path' n') :=
  (h.follow hsrc).bind fun _ _ h => h.content hsrc depth path path'

/-! ### Other readings -/

theorem misfit_fails {α : Type} (src : Source) (path : Path) (wanted : Wanted) (n : Node) :
    Fails (Decode.misfit (α := α) src path wanted n) := by
  cases n <;> exact .throw _

theorem bool (hsrc : src.Alike ρ src') (path path' : Path) {n n' : Node} (h : n.Alike ρ n') :
    Copied src'.aliasLimit Eq (Decode.bool src path n) (Decode.bool src' path' n') := by
  refine (h.follow hsrc).bind fun t t' ht => ?_
  cases ht with
  | scalar =>
    simp only
    split
    · exact .pure rfl
    · exact .of_fails (misfit_fails _ _ _ _) _
  | sequence | mapping | reference | void => exact .of_fails (misfit_fails _ _ _ _) _

theorem fieldName (hsrc : src.Alike ρ src') (path path' : Path) {n n' : Node}
    (h : n.Alike ρ n') :
    Copied src'.aliasLimit Eq (Decode.fieldName src path n) (Decode.fieldName src' path' n') := by
  refine (h.follow hsrc).bind fun t t' ht => ?_
  cases ht with
  | scalar => exact .pure rfl
  | sequence | mapping | reference | void => exact .of_fails (misfit_fails _ _ _ _) _

theorem isAbsent {n n' : Node} (h : n.Alike ρ n') : Decode.isAbsent n' = Decode.isAbsent n := by
  cases h <;> rfl

theorem sequence_copied (hsrc : src.Alike ρ src') (depth : Nat) (path path' : Path) {n n' : Node}
    (h : n.Alike ρ n') :
    Copied src'.aliasLimit Eq (Decode.sequence src depth path n)
      (Decode.sequence src' depth path' n') := by
  cases h with
  | sequence items =>
    cases depth with
    | zero => exact .of_fails (.throw _) _
    | succ depth =>
      exact items_copied (fun p p' _ _ h => h.value hsrc depth p p') items path path' 0 0
  | @scalar m m' s s' tag style text =>
    show Copied _ Eq
      (if style == .plain && text.isEmpty then Pure.pure [] else Decode.misfit src path .sequence _)
      (if style == .plain && text.isEmpty then Pure.pure [] else Decode.misfit src' path' .sequence _)
    split
    · exact .pure rfl
    · exact .of_fails (misfit_fails _ _ _ _) _
  | void => exact .pure rfl
  | mapping | reference => exact .of_fails (.throw _) _

end Node.Alike

end DropRules.Yaml
