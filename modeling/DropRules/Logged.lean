/-!
# Results with a log

What the library has to report while it works is a value like any other.  A `Logged` result carries
the things reported on the way to it, in order.  It is a lawful monad, and in a sequence of steps the
results are those of the steps without their logs, and the log is that of all steps behind one
another: `value_foldlM` and `log_foldlM` for a fold, and `value_mapM` for the results of a list.
-/

namespace DropRules

/-- A result and what was reported on the way to it. -/
structure Logged (ε α : Type) where
  value : α
  log : List ε
deriving Repr

namespace Logged

variable {ε δ α β : Type}

@[ext] theorem ext {x y : Logged ε α} (value : x.value = y.value) (log : x.log = y.log) : x = y := by
  cases x
  cases y
  simp_all

instance : Monad (Logged ε) where
  pure a := ⟨a, []⟩
  bind x f := ⟨(f x.value).value, x.log ++ (f x.value).log⟩

/-- Reports one thing. -/
def tell (e : ε) : Logged ε Unit :=
  ⟨(), [e]⟩

/-- Reports in another vocabulary. -/
def mapLog (f : ε → δ) (x : Logged ε α) : Logged δ α :=
  ⟨x.value, x.log.map f⟩

@[simp] theorem value_pure (a : α) : (pure a : Logged ε α).value = a := rfl

@[simp] theorem log_pure (a : α) : (pure a : Logged ε α).log = [] := rfl

@[simp] theorem value_bind (x : Logged ε α) (f : α → Logged ε β) :
    (x >>= f).value = (f x.value).value := rfl

@[simp] theorem log_bind (x : Logged ε α) (f : α → Logged ε β) :
    (x >>= f).log = x.log ++ (f x.value).log := rfl

@[simp] theorem value_map (f : α → β) (x : Logged ε α) : (f <$> x).value = f x.value := rfl

@[simp] theorem log_map (f : α → β) (x : Logged ε α) : (f <$> x).log = x.log := by
  change x.log ++ [] = x.log
  simp

@[simp] theorem log_tell (e : ε) : (tell e).log = [e] := rfl

@[simp] theorem value_mapLog (f : ε → δ) (x : Logged ε α) : (x.mapLog f).value = x.value := rfl

@[simp] theorem log_mapLog (f : ε → δ) (x : Logged ε α) : (x.mapLog f).log = x.log.map f := rfl

instance : LawfulMonad (Logged ε) :=
  LawfulMonad.mk' _
    (fun _ => by ext1 <;> simp)
    (fun _ _ => by ext1 <;> simp)
    (fun _ _ _ => by ext1 <;> simp)

/-- The result of a fold is the fold of the results. -/
theorem value_foldlM (f : β → α → Logged ε β) (l : List α) (b : β) :
    (l.foldlM f b).value = l.foldl (fun b a => (f b a).value) b := by
  induction l generalizing b with
  | nil => rfl
  | cons a l ih => simp [ih]

/-- The log of a fold is the logs of its steps behind one another, if what a step reports does not
depend on the steps before it. -/
theorem log_foldlM {f : β → α → Logged ε β} {reports : α → List ε}
    (h : ∀ b a, (f b a).log = reports a) (l : List α) (b : β) :
    (l.foldlM f b).log = l.flatMap reports := by
  induction l generalizing b with
  | nil => rfl
  | cons a l ih => rw [List.foldlM_cons, log_bind, h, ih, List.flatMap_cons]

/-- The results of a list are the results of its members. -/
theorem value_mapM (f : α → Logged ε β) (l : List α) :
    (l.mapM f).value = l.map fun a => (f a).value := by
  induction l with
  | nil => rfl
  | cons a l ih => simp [ih]

end Logged

end DropRules
