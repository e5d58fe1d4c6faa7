import Treewalk.Store.Frames

/-!
# Laws of frames

What a new frame and a new binding change, and that frames only ever grow: a frame keeps the one
around it, and a name that is bound stays bound.
-/

namespace Treewalk

namespace Bindings

variable {α : Type}

theorem get?_foldl_put_isSome (pairs : List (String × α)) (b : Bindings α) (name : String) :
    ((pairs.foldl (fun b p => b.put p.1 p.2) b).get? name).isSome = true ↔
      name ∈ pairs.map (·.1) ∨ (b.get? name).isSome = true := by
  induction pairs generalizing b with
  | nil => simp
  | cons p rest ih =>
    rw [List.foldl_cons, ih, get?_put]
    by_cases same : name = p.1
    · simp [same]
    · simp [same]

theorem get?_ofList_isSome (pairs : List (String × α)) (name : String) :
    ((ofList pairs).get? name).isSome = true ↔ name ∈ pairs.map (·.1) := by
  rw [ofList, get?_foldl_put_isSome]
  simp

theorem get?_foldl_put_cases (pairs : List (String × α)) (b : Bindings α) {name : String}
    {value : α} (h : (pairs.foldl (fun b p => b.put p.1 p.2) b).get? name = some value) :
    (name, value) ∈ pairs ∨ b.get? name = some value := by
  induction pairs generalizing b with
  | nil => exact .inr h
  | cons p rest ih =>
    rcases ih (b.put p.1 p.2) h with member | found
    · exact .inl (.tail _ member)
    · rw [get?_put] at found
      split at found
      · next same =>
        obtain rfl : p.2 = value := Option.some.inj found
        exact .inl (same ▸ .head _)
      · exact .inr found

theorem mem_of_get?_ofList {pairs : List (String × α)} {name : String} {value : α}
    (h : (ofList pairs).get? name = some value) : (name, value) ∈ pairs :=
  (get?_foldl_put_cases pairs ∅ h).resolve_right (by simp)

theorem get?_foldl_put (pairs : List (String × α)) (b : Bindings α) (name : String) :
    (pairs.foldl (fun b p => b.put p.1 p.2) b).get? name =
      ((pairs.reverse.find? fun p => p.1 == name).map (·.2)).or (b.get? name) := by
  induction pairs generalizing b with
  | nil => rfl
  | cons p rest ih =>
    rw [List.foldl_cons, ih, get?_put, List.reverse_cons, List.find?_append]
    by_cases same : name = p.1
    · cases rest.reverse.find? fun p => p.1 == name <;> simp [same]
    · cases rest.reverse.find? fun p => p.1 == name <;> simp [same, Ne.symm same]

/-- Of two bindings of a name the later one stays. -/
theorem get?_ofList (pairs : List (String × α)) (name : String) :
    (ofList pairs).get? name = (pairs.reverse.find? fun p => p.1 == name).map (·.2) := by
  rw [ofList, get?_foldl_put, get?_empty, Option.or_none]

/-- The same names, bound to what these things become. -/
def map {β : Type} (f : α → β) (b : Bindings α) : Bindings β :=
  ⟨b.entries.map fun p => (p.1, f p.2)⟩

variable {β : Type} (f : α → β)

theorem get?_map (b : Bindings α) (name : String) : (b.map f).get? name = (b.get? name).map f := by
  obtain ⟨entries⟩ := b
  show (entries.map fun p => (p.1, f p.2)).lookup name = (entries.lookup name).map f
  induction entries with
  | nil => rfl
  | cons p rest ih =>
    rw [List.map_cons, List.lookup_cons, List.lookup_cons, ih]
    split <;> rfl

theorem map_id (b : Bindings α) : b.map id = b :=
  congrArg Bindings.mk (List.map_id b.entries)

theorem map_map {γ : Type} (g : β → γ) (b : Bindings α) : (b.map f).map g = b.map (g ∘ f) :=
  congrArg Bindings.mk List.map_map

theorem map_put (b : Bindings α) (name : String) (value : α) :
    (b.put name value).map f = (b.map f).put name (f value) := by
  obtain ⟨entries⟩ := b
  have same : (putEntry name value entries).map (fun p => (p.1, f p.2)) =
      putEntry name (f value) (entries.map fun p => (p.1, f p.2)) := by
    induction entries with
    | nil => rfl
    | cons p rest ih =>
      rw [putEntry, List.map_cons, putEntry, ← ih]
      split <;> rfl
  exact congrArg Bindings.mk same

theorem map_ofList (pairs : List (String × α)) :
    (ofList pairs).map f = ofList (pairs.map fun p => (p.1, f p.2)) := by
  unfold ofList
  have start : (∅ : Bindings β) = (∅ : Bindings α).map f := rfl
  rw [start]
  generalize (∅ : Bindings α) = b
  induction pairs generalizing b with
  | nil => rfl
  | cons p rest ih =>
    rw [List.foldl_cons, List.map_cons, List.foldl_cons, ih, map_put]

/-- Things that belong together pairwise do so under each name. -/
theorem rel_get?_ofList {β ι : Type} {R : α → β → Prop} (items : List ι) (key : ι → String)
    (f : ι → α) (g : ι → β) (each : ∀ i ∈ items, R (f i) (g i)) (name : String) :
    Option.Rel R ((ofList (items.map fun i => (key i, f i))).get? name)
      ((ofList (items.map fun i => (key i, g i))).get? name) := by
  unfold ofList
  have start : ∀ x, Option.Rel R ((∅ : Bindings α).get? x) ((∅ : Bindings β).get? x) :=
    fun _ => .none
  generalize (∅ : Bindings α) = b, (∅ : Bindings β) = b' at start ⊢
  induction items generalizing b b' with
  | nil => exact start name
  | cons i rest ih =>
    refine ih (fun j member => each j (.tail _ member)) _ _ fun x => ?_
    rw [get?_put, get?_put]
    split
    · exact .some (each i (.head _))
    · exact start x

end Bindings

namespace Frames

variable (frames : Frames) (f g : FrameId) (name other : String)

theorem lookup?_define (value : Value) :
    (frames.define f name value).lookup? g other =
      if g = f ∧ other = name ∧ f < frames.all.size then some value
      else frames.lookup? g other := by
  simp only [lookup?, define, Array.getElem?_modify]
  by_cases same : f = g
  · subst same
    by_cases bound : f < frames.all.size
    · simp only [↓reduceIte, Array.getElem?_eq_getElem bound, Option.map_some, Option.bind_some,
        Bindings.get?_put, true_and, bound, and_true]
    · rw [if_pos rfl, Array.getElem?_eq_none (Nat.le_of_not_lt bound)]
      simp [bound]
  · rw [if_neg same, if_neg fun h => same h.1.symm]

theorem parent?_define (value : Value) :
    (frames.define f name value).parent? g = frames.parent? g := by
  simp only [parent?, define, Array.getElem?_modify]
  split
  · cases frames.all[g]? <;> rfl
  · rfl

theorem size_define (value : Value) :
    (frames.define f name value).all.size = frames.all.size := by
  simp [define]

theorem lookup?_push (values : Bindings Value) (parent : Option FrameId) :
    (frames.push values parent).lookup? g name =
      if g = frames.next then values.get? name else frames.lookup? g name := by
  simp only [lookup?, push, next, Array.getElem?_push]
  by_cases new : g = frames.all.size <;> simp only [new, ↓reduceIte]
  all_goals rfl

theorem parent?_push (values : Bindings Value) (parent : Option FrameId) :
    (frames.push values parent).parent? g =
      if g = frames.next then parent else frames.parent? g := by
  simp only [parent?, push, next, Array.getElem?_push]
  by_cases new : g = frames.all.size <;> simp only [new, ↓reduceIte]
  all_goals rfl

theorem size_push (values : Bindings Value) (parent : Option FrameId) :
    (frames.push values parent).all.size = frames.all.size + 1 := by
  simp [push]

variable {frames f g name other}

theorem getAt?_zero (frames : Frames) (f : FrameId) (name : String) :
    frames.getAt? f 0 name = frames.lookup? f name := rfl

theorem getAt?_succ (parent : frames.parent? f = some g) (d : Nat) (name : String) :
    frames.getAt? f (d + 1) name = frames.getAt? g d name := by
  simp only [getAt?, ancestor?, parent]

theorem lt_of_lookup? {value : Value} (h : frames.lookup? f name = some value) :
    f < frames.all.size := by
  obtain ⟨frame, found, -⟩ := Option.bind_eq_some_iff.1 h
  exact (Array.getElem?_eq_some_iff.1 found).1

theorem lt_of_parent? (h : frames.parent? f = some g) : f < frames.all.size := by
  obtain ⟨frame, found, -⟩ := Option.bind_eq_some_iff.1 h
  exact (Array.getElem?_eq_some_iff.1 found).1

/-- A name that the first frame binds is found there. -/
theorem find?_of_lookup? {value : Value} (h : frames.lookup? f name = some value) :
    frames.find? f name = some (f, value) := by
  unfold find?
  have bound := lt_of_lookup? h
  cases size : frames.all.size with
  | zero => exact absurd (size ▸ bound) (Nat.not_lt_zero f)
  | succ n => simp only [search, h]

end Frames

end Treewalk
