import Treewalk.Proofs.Plain.Interpreter
import Treewalk.Proofs.Scope.Distinct
import Treewalk.Proofs.Scope.Layout

/-!
# Cells for the names in frames

Where the machine binds a name in a frame the plain interpreter has a cell. A `Link` says which
cell stands for which name of which frame, and `Cells` that the two hold the same values. A frame
goes on growing after a function has closed over it, an environment does not: what holds the two
together is that the names declared before a place have their cells already.
-/

namespace Treewalk

open Plain

/-- The frames of the machine with the cells for their names. -/
structure Link where
  layout : Layout
  cell : FrameId → String → CellId → Prop
  /-- The frame that the run is in. -/
  here : FrameId
  /-- The frames that a run is in, or was in. -/
  entered : FrameId → Prop

namespace Link

/-- Frames and cells only become more. -/
structure Grows (v w : Link) : Prop where
  layout : v.layout.Le w.layout
  cell : ∀ f x c, v.cell f x c → w.cell f x c

/-- A link only grows, and of the frames that were entered only the current one gets names. -/
structure Le (v w : Link) : Prop extends Grows v w where
  here : w.here = v.here
  entered : ∀ f, v.entered f → w.entered f
  closed : ∀ f x c, v.entered f → f ≠ v.here → w.cell f x c → v.cell f x c

theorem Le.refl (w : Link) : w.Le w :=
  ⟨⟨.refl _, fun _ _ _ h => h⟩, rfl, fun _ h => h, fun _ _ _ _ _ h => h⟩

theorem Le.trans {u v w : Link} (h : u.Le v) (h' : v.Le w) : u.Le w where
  layout := h.layout.trans h'.layout
  cell f x c known := h'.cell f x c (h.cell f x c known)
  here := h'.here.trans h.here
  entered f known := h'.entered f (h.entered f known)
  closed f x c known other new := by
    have other' : f ≠ v.here := by rw [h.here]; exact other
    exact h.closed f x c known other (h'.closed f x c (h.entered f known) other' new)

/-- The names are those declared in the scopes around a place, innermost first, each with its cell
in the frame of its scope. -/
def Lists (w : Link) : Context → FrameId → Names → Prop
  | [], _, names => names = []
  | s :: outer, f, names => ∃ own rest g, names = own ++ rest ∧
      own.map (·.1) = s.own ∧ (∀ p ∈ own, w.cell f p.1 p.2) ∧
      w.layout.frames.parent? f = some g ∧ w.Lists outer g rest

variable {v w : Link} {c : Context} {f g : FrameId} {names : Names} {name x : String}

theorem Lists.mono (h : v.Lists c f names) (grown : v.Grows w) : w.Lists c f names := by
  induction c generalizing f names with
  | nil => exact h
  | cons s outer ih =>
    obtain ⟨own, rest, g, split, declared, cells, parent, others⟩ := h
    exact ⟨own, rest, g, split, declared, fun p member => grown.cell f p.1 p.2 (cells p member),
      grown.layout.parent f g parent, ih others⟩

/-- Among the own names of a scope are just those that it declares. -/
theorem lookup_own {s : LexicalScope} {own : Names}
    (declared : own.map (·.1) = s.own) :
    own.lookup name = none ↔ ¬ s.Declares name := by
  rw [LexicalScope.declares_iff, ← declared, List.lookup_eq_none_iff]
  constructor
  · intro none member
    obtain ⟨p, listed, rfl⟩ := List.mem_map.1 member
    exact absurd (none p listed) (by simp)
  · intro none p listed
    have member : p.1 ∈ own.map (·.1) := List.mem_map_of_mem listed
    have other : name ≠ p.1 := fun same => none (same ▸ member)
    simpa using other

/-- They are the names around the place. -/
theorem Lists.keys (h : w.Lists c f names) : names.map (·.1) = c.names := by
  induction c generalizing f names with
  | nil =>
    obtain rfl : names = [] := h
    rfl
  | cons s outer ih =>
    obtain ⟨own, rest, g, rfl, declared, -, -, others⟩ := h
    rw [List.map_append, declared, ih others, Context.names, Context.names, List.flatMap_cons]

/-- A name that no scope declares is not in the environment. -/
theorem Lists.lookup_eq_none (h : w.Lists c f names) (global : c.distance? name = none) :
    names.lookup name = none := by
  induction c generalizing f names with
  | nil =>
    obtain rfl : names = [] := h
    rfl
  | cons s outer ih =>
    obtain ⟨own, rest, g, rfl, declared, -, -, others⟩ := h
    rw [Context.distance?] at global
    split at global
    · cases global
    · next undeclared =>
      have none := ih others (Option.map_eq_none_iff.1 global)
      rw [List.lookup_append, (lookup_own declared).2 undeclared, none]
      rfl

/-- The first entry for a name is its cell in the frame at its distance. -/
theorem Lists.lookup_eq_some (h : w.Lists c f names) {d : Nat} (found : c.distance? name = some d) :
    ∃ g cell, w.layout.frames.ancestor? f d = some g ∧ w.cell g name cell ∧
      names.lookup name = some cell := by
  induction c generalizing f names d with
  | nil => cases found
  | cons s outer ih =>
    obtain ⟨own, rest, g, rfl, declared, cells, parent, others⟩ := h
    rw [Context.distance?] at found
    rw [List.lookup_append]
    split at found
    · next declares =>
      obtain rfl : 0 = d := Option.some.inj found
      cases first : own.lookup name with
      | none => exact absurd declares ((lookup_own declared).1 first)
      | some cell =>
        have member : (name, cell) ∈ own := by
          obtain ⟨before, after, rfl, -⟩ := List.lookup_eq_some_iff.1 first
          simp
        exact ⟨f, cell, rfl, cells _ member, rfl⟩
    · next undeclared =>
      obtain ⟨n, further, rfl⟩ := Option.map_eq_some_iff.1 found
      obtain ⟨g', cell, ancestor, known, first⟩ := ih others further
      refine ⟨g', cell, ?_, known, ?_⟩
      · rw [Frames.ancestor?, parent]
        exact ancestor
      · rw [(lookup_own declared).2 undeclared, first]
        rfl

/-- What a place means on both sides. -/
structure Place (w : Link) (c : Context) (f : FrameId) (env : Env) : Prop where
  chain : w.layout.Chain c f
  lists : w.Lists c f (env.getD [])
  top : env = none ↔ c = []

theorem Place.mono {env : Env} (h : w.Place c f env) {w' : Link} (grown : w.Grows w') :
    w'.Place c f env :=
  ⟨h.chain.mono grown.layout, h.lists.mono grown, h.top⟩

/-- The names of a frame that have cells are declared in the innermost scope. -/
def Exact (w : Link) (c : Context) (f : FrameId) : Prop :=
  ∀ x cell, w.cell f x cell → ∃ s ∈ c.head?, s.Declares x

/-- The link with cells for more names of a frame. -/
def extend (w : Link) (f : FrameId) (own : Names) : Link :=
  { w with cell := fun g x c => w.cell g x c ∨ g = f ∧ (x, c) ∈ own }

/-- The link while a run is in a frame. -/
def enter (w : Link) (f : FrameId) : Link :=
  { w with here := f, entered := fun g => g = f ∨ w.entered g }

end Link

/-- Names in order get the next cells in order; the last one is found first. -/
def Plain.allot (first : CellId) (names : List String) : Names := (names.zipIdx first).reverse

theorem Plain.mem_allot {first cell : CellId} {names : List String} {x : String} :
    (x, cell) ∈ allot first names ↔ ∃ i, cell = first + i ∧ names[i]? = some x := by
  rw [allot, List.mem_reverse, List.mem_zipIdx_iff_le_and_getElem?_sub]
  constructor
  · rintro ⟨above, name⟩
    exact ⟨cell - first, (Nat.add_sub_of_le above).symm, name⟩
  · rintro ⟨i, rfl, name⟩
    rw [Nat.add_sub_cancel_left]
    exact ⟨Nat.le_add_right .., name⟩

theorem Plain.map_allot (first : CellId) (names : List String) :
    (allot first names).map (·.1) = names.reverse := by
  rw [allot, List.map_reverse, List.zipIdx_map_fst]

theorem Plain.extend_eq (names : Names) (pairs : List (String × Value)) (s : State) :
    extend names pairs s = .ok (allot s.cells.size (pairs.map (·.1)) ++ names)
      { s with cells := s.cells ++ (pairs.map (·.2)).toArray } := by
  induction pairs generalizing names s with
  | nil => simp [extend, allot, pure, EStateM.pure]
  | cons p rest ih =>
    obtain ⟨name, value⟩ := p
    rw [Plain.extend]
    show EStateM.bind (newCell value) _ s = _
    simp only [EStateM.bind, newCell, ih, allot, Array.size_push, List.map_cons, List.zipIdx_cons,
      List.reverse_cons, List.append_assoc, List.singleton_append]
    congr 2
    simp

/-- The cells hold what the frames bind. -/
structure Cells (frames : Frames) (cell : FrameId → String → CellId → Prop)
    (values : Array Value) : Prop where
  inside : ∀ {f x c}, cell f x c → f ≠ 0 ∧ f < frames.all.size ∧ c < values.size
  holds : ∀ {f x c v}, cell f x c → frames.lookup? f x = some v → values[c]? = some v
  bound : ∀ {f x v}, f ≠ 0 → frames.lookup? f x = some v → ∃ c, cell f x c
  apart : ∀ {f g x y c d}, cell f x c → cell g y d → (c = d ↔ f = g ∧ x = y)

namespace Cells

variable {frames frames' : Frames} {cell : FrameId → String → CellId → Prop} {values : Array Value}

/-- What a frame binds anew is stored in the cell of the name. -/
theorem set (h : Cells frames cell values) {f : FrameId} {x : String} {c : CellId}
    (known : cell f x c) (value : Value) :
    Cells (frames.define f x value) cell (values.setIfInBounds c value) where
  inside := by
    intro g y d old
    obtain ⟨global, place, size⟩ := h.inside old
    rw [Frames.size_define, Array.size_setIfInBounds]
    exact ⟨global, place, size⟩
  holds := by
    intro g y d v old found
    have size := (h.inside known).2.2
    rw [Frames.lookup?_define] at found
    split at found
    · next same =>
      obtain rfl : c = d := (h.apart known old).2 ⟨same.1.symm, same.2.1.symm⟩
      rw [← found]
      exact Array.getElem?_setIfInBounds_self_of_lt size
    · next other =>
      have apart : c ≠ d := by
        intro same
        obtain ⟨rfl, rfl⟩ := (h.apart known old).1 same
        exact other ⟨rfl, rfl, (h.inside known).2.1⟩
      rw [Array.getElem?_setIfInBounds_ne apart]
      exact h.holds old found
  bound := by
    intro g y v global found
    rw [Frames.lookup?_define] at found
    split at found
    · next same =>
      obtain ⟨rfl, rfl, -⟩ := same
      exact ⟨c, known⟩
    · exact h.bound global found
  apart := h.apart

/-- A global has no cell. -/
theorem setGlobal (h : Cells frames cell values) (x : String) (value : Value) :
    Cells (frames.define 0 x value) cell values where
  inside := by
    intro g y d old
    rw [Frames.size_define]
    exact h.inside old
  holds := by
    intro g y d v old found
    rw [Frames.lookup?_define, if_neg fun same => (h.inside old).1 same.1] at found
    exact h.holds old found
  bound := by
    intro g y v global found
    rw [Frames.lookup?_define, if_neg fun same => global same.1] at found
    exact h.bound global found
  apart := h.apart

/-- More names of a frame get the next cells, with the values that the frame binds them to. -/
theorem allot (h : Cells frames cell values) {f : FrameId} (pairs : List (String × Value))
    (later : frames.all.size ≤ frames'.all.size) (place : f < frames'.all.size) (inner : f ≠ 0)
    (distinct : (pairs.map (·.1)).Nodup) (fresh : ∀ p ∈ pairs, ∀ c, ¬ cell f p.1 c)
    (found : ∀ {g x v}, frames'.lookup? g x = some v →
      frames.lookup? g x = some v ∨ g = f ∧ (x, v) ∈ pairs) :
    Cells frames' (fun g x c => cell g x c ∨ g = f ∧
        (x, c) ∈ Plain.allot values.size (pairs.map (·.1)))
      (values ++ (pairs.map (·.2)).toArray) := by
  have unknown : ∀ {x c}, x ∈ pairs.map (·.1) → ¬ cell f x c := by
    intro x c member
    obtain ⟨p, listed, rfl⟩ := List.mem_map.1 member
    exact fresh p listed c
  have named : ∀ {x c}, (x, c) ∈ Plain.allot values.size (pairs.map (·.1)) →
      x ∈ pairs.map (·.1) := by
    intro x c member
    obtain ⟨i, -, name⟩ := Plain.mem_allot.1 member
    exact List.mem_of_getElem? name
  have later_ne : ∀ {g x c i}, cell g x c → c ≠ values.size + i := by
    intro g x c i known same
    exact absurd (same ▸ (h.inside known).2.2) (Nat.not_lt_of_le (Nat.le_add_right ..))
  constructor
  · intro g x c known
    simp only [Array.size_append, List.size_toArray, List.length_map]
    rcases known with known | ⟨rfl, member⟩
    · obtain ⟨global, inside, size⟩ := h.inside known
      exact ⟨global, Nat.lt_of_lt_of_le inside later, Nat.lt_add_right _ size⟩
    · obtain ⟨i, rfl, name⟩ := Plain.mem_allot.1 member
      have below := (List.getElem?_eq_some_iff.1 name).1
      rw [List.length_map] at below
      exact ⟨inner, place, Nat.add_lt_add_left below _⟩
  · intro g x c v known bound
    rcases known with known | ⟨rfl, member⟩
    · rw [Array.getElem?_append_left (h.inside known).2.2]
      rcases found bound with bound | ⟨rfl, listed⟩
      · exact h.holds known bound
      · exact absurd known (unknown (List.mem_map_of_mem listed))
    · rcases found bound with bound | ⟨-, listed⟩
      · obtain ⟨c', known⟩ := h.bound inner bound
        exact absurd known (unknown (named member))
      · obtain ⟨i, rfl, name⟩ := Plain.mem_allot.1 member
        obtain ⟨j, value⟩ := List.mem_iff_getElem?.1 listed
        have name' : (pairs.map (·.1))[j]? = some x := by rw [List.getElem?_map, value]; rfl
        have below := (List.getElem?_eq_some_iff.1 name).1
        obtain rfl : i = j := (List.getElem?_inj below distinct).1 (name.trans name'.symm)
        rw [Array.getElem?_append_right (Nat.le_add_right ..), Nat.add_sub_cancel_left,
          List.getElem?_toArray, List.getElem?_map, value]
        rfl
  · intro g x v global bound
    rcases found bound with bound | ⟨rfl, listed⟩
    · obtain ⟨c, known⟩ := h.bound global bound
      exact ⟨c, .inl known⟩
    · obtain ⟨i, value⟩ := List.mem_iff_getElem?.1 listed
      have name : (pairs.map (·.1))[i]? = some x := by rw [List.getElem?_map, value]; rfl
      exact ⟨values.size + i, .inr ⟨rfl, Plain.mem_allot.2 ⟨i, rfl, name⟩⟩⟩
  · intro g g' x y c d known known'
    rcases known with known | ⟨rfl, member⟩ <;> rcases known' with known' | ⟨rfl, member'⟩
    · exact h.apart known known'
    · obtain ⟨i, rfl, -⟩ := Plain.mem_allot.1 member'
      constructor
      · intro same
        exact absurd same (later_ne known)
      · rintro ⟨rfl, rfl⟩
        exact absurd known (unknown (named member'))
    · obtain ⟨i, rfl, -⟩ := Plain.mem_allot.1 member
      constructor
      · intro same
        exact absurd same.symm (later_ne known')
      · rintro ⟨rfl, rfl⟩
        exact absurd known' (unknown (named member))
    · obtain ⟨i, rfl, name⟩ := Plain.mem_allot.1 member
      obtain ⟨j, rfl, name'⟩ := Plain.mem_allot.1 member'
      have below := (List.getElem?_eq_some_iff.1 name).1
      constructor
      · intro same
        obtain rfl : i = j := Nat.add_left_cancel same
        exact ⟨rfl, Option.some.inj (name.symm.trans name')⟩
      · rintro ⟨-, rfl⟩
        rw [(List.getElem?_inj below distinct).1 (name.trans name'.symm)]

end Cells

end Treewalk
