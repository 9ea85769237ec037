/-!
# Findings

What a run finds wrong without being ended by it, and values that come with findings.

* `Finding` — one thing found.
* `Noted` — a value together with the findings made on the way to it, in order.
* `Noted.each` — the values of a list, with all their findings.
-/

namespace ApiPages

/-- One thing that a run finds wrong. -/
inductive Finding where
  /-- Something is wrong with the symbol at a path. -/
  | error (path description : String)
  /-- A path inside the project leads nowhere. -/
  | internalReference (path : String)
  /-- A path outside the project has no link. -/
  | externalReference (path : String)
  /-- A symbol has no docstring. -/
  | missingDocstring (path : String)
  /-- A cross-link of a symbol has an unknown tag. -/
  | unknownTag (parent tag : String)
  /-- A cross-link of a symbol could mean several things, or nothing. -/
  | unresolvedLink (parent link : String) (candidates : List String)
deriving DecidableEq, Repr

/-- A value and what was found on the way to it. -/
structure Noted (α : Type) where
  value : α
  findings : List Finding
deriving Repr

namespace Noted

variable {α β : Type}

/-- A value with one finding. -/
def found (a : α) (f : Finding) : Noted α := ⟨a, [f]⟩

/-- A value without findings. -/
protected def pure (a : α) : Noted α := ⟨a, []⟩

/-- Continues with the value and keeps all findings. -/
protected def bind (x : Noted α) (f : α → Noted β) : Noted β :=
  let y := f x.value
  ⟨y.value, x.findings ++ y.findings⟩

instance : Monad Noted where
  pure := Noted.pure
  bind := Noted.bind

/-- The values of `f` on a list, with the findings in the order of the list. -/
def each (f : α → Noted β) (xs : List α) : Noted (List β) :=
  let ys := xs.map f
  ⟨ys.map Noted.value, ys.flatMap Noted.findings⟩

@[simp] theorem value_pure (a : α) : (pure a : Noted α).value = a := rfl

@[simp] theorem findings_pure (a : α) : (pure a : Noted α).findings = [] := rfl

@[simp] theorem value_bind (x : Noted α) (f : α → Noted β) : (x >>= f).value = (f x.value).value :=
  rfl

@[simp] theorem findings_bind (x : Noted α) (f : α → Noted β) :
    (x >>= f).findings = x.findings ++ (f x.value).findings := rfl

@[simp] theorem value_map (f : α → β) (x : Noted α) : (f <$> x).value = f x.value := rfl

@[simp] theorem findings_map (f : α → β) (x : Noted α) : (f <$> x).findings = x.findings :=
  List.append_nil _

@[simp] theorem value_each (f : α → Noted β) (xs : List α) :
    (each f xs).value = xs.map fun x => (f x).value := by
  simp [each]

@[simp] theorem findings_each (f : α → Noted β) (xs : List α) :
    (each f xs).findings = xs.flatMap fun x => (f x).findings := by
  simp [each, List.flatMap_map]

end Noted

end ApiPages
