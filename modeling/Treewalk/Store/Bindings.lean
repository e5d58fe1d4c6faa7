/-!
# Bindings

Names bound to things. `Bindings.get?_put` is the law of writing: it changes what the written name
is bound to, and nothing else.
-/

namespace Treewalk

/-- Names with what they are bound to; of two bindings of a name the first counts. -/
structure Bindings (α : Type) where
  entries : List (String × α)

namespace Bindings

variable {α : Type}

instance : EmptyCollection (Bindings α) := ⟨⟨[]⟩⟩

instance : Inhabited (Bindings α) := ⟨∅⟩

/-- What a name is bound to. -/
def get? (b : Bindings α) (name : String) : Option α := b.entries.lookup name

/-- The name is bound. -/
def binds (b : Bindings α) (name : String) : Bool := (b.get? name).isSome

/-- The entries with a name bound anew, in its old place if it has one. -/
def putEntry (name : String) (value : α) : List (String × α) → List (String × α)
  | [] => [(name, value)]
  | (other, old) :: rest =>
    if name == other then (name, value) :: rest else (other, old) :: putEntry name value rest

/-- Binds a name, in place of what it was bound to. -/
def put (b : Bindings α) (name : String) (value : α) : Bindings α :=
  ⟨putEntry name value b.entries⟩

/-- Binds names in order; of a name that comes twice the last value stays. -/
def ofList (pairs : List (String × α)) : Bindings α :=
  pairs.foldl (fun b p => b.put p.1 p.2) ∅

/-- The bound names, each once. -/
def names (b : Bindings α) : List String := b.entries.map (·.1)

@[simp] theorem get?_empty (name : String) : (∅ : Bindings α).get? name = none := rfl

theorem lookup_putEntry (entries : List (String × α)) (name other : String) (value : α) :
    (putEntry name value entries).lookup other =
      if other = name then some value else entries.lookup other := by
  induction entries with
  | nil => by_cases h : other = name <;> simp [putEntry, List.lookup_cons, h, beq_false_of_ne]
  | cons entry rest ih =>
    obtain ⟨bound, old⟩ := entry
    by_cases hb : name = bound
    · subst hb
      by_cases h : other = name <;> simp [putEntry, List.lookup_cons, h, beq_false_of_ne]
    · by_cases h : other = bound
      · subst h
        simp [putEntry, hb, Ne.symm hb]
      · simp [putEntry, List.lookup_cons, hb, beq_false_of_ne h, ih]

/-- Writing changes what the written name is bound to, and nothing else. -/
theorem get?_put (b : Bindings α) (name other : String) (value : α) :
    (b.put name value).get? other = if other = name then some value else b.get? other :=
  lookup_putEntry b.entries name other value

end Bindings

end Treewalk
