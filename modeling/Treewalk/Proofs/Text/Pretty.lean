import Mathlib.Data.List.Forall2
import Treewalk.Proofs.Text.Json

/-!
# White space outside strings

The pretty text of a value is its compact text with white space outside strings. `squeeze` takes
the white space out again: it reads a text once and knows of every character whether it stands in a
string. So a pretty text tells the value as well as a compact one.
-/

namespace Treewalk.Json

/-- Where a character of a text stands. -/
inductive Place where
  | outside
  | inside
  /-- Inside a string and behind a backslash. -/
  | escaped
deriving DecidableEq

/-- Where the next character stands. -/
def Place.next : Place → Char → Place
  | .outside, c => if c = '"' then .inside else .outside
  | .inside, c => if c = '\\' then .escaped else if c = '"' then .outside else .inside
  | .escaped, _ => .inside

/-- The characters without the white space outside strings. -/
def squeezeFrom (place : Place) : List Char → List Char
  | [] => []
  | c :: rest =>
    if place = .outside ∧ c.isWhitespace = true then squeezeFrom place rest
    else c :: squeezeFrom (place.next c) rest

/-- A text without the white space outside its strings. -/
def squeeze (text : String) : String := String.ofList (squeezeFrom .outside text.toList)

/-- Outside strings, whatever follows, the one text is the other with white space in it. -/
def Squeezes (loose tight : String) : Prop :=
  ∀ rest, squeezeFrom .outside (loose.toList ++ rest) =
    tight.toList ++ squeezeFrom .outside rest

/-- A figure is neither a quote nor white space. -/
theorem plain_of_isFigure {c : Char} (figure : Number.isFigure c = true) :
    c ≠ '"' ∧ c.isWhitespace = false := by
  have none {d : Char} (other : Number.isFigure d = false) : c ≠ d :=
    Number.ne_of_isFigure figure other
  refine ⟨none (by decide), ?_⟩
  simp only [Char.isWhitespace, Bool.or_eq_false_iff, decide_eq_false_iff_not]
  exact ⟨⟨⟨none (by decide), none (by decide)⟩, none (by decide)⟩, none (by decide)⟩

namespace Squeezes

variable {loose tight loose' tight' : String}

theorem eq (h : Squeezes loose tight) : squeeze loose = tight := by
  have all := h []
  rw [List.append_nil, squeezeFrom, List.append_nil] at all
  rw [squeeze, all, String.ofList_toList]

theorem append (h : Squeezes loose tight) (h' : Squeezes loose' tight') :
    Squeezes (loose ++ loose') (tight ++ tight') := by
  intro rest
  rw [String.toList_append, String.toList_append, List.append_assoc, List.append_assoc, h, h']

theorem plain {text : String} (all : ∀ c ∈ text.toList, c ≠ '"' ∧ c.isWhitespace = false) :
    Squeezes text text := by
  intro rest
  generalize text.toList = cs at all
  induction cs with
  | nil => rfl
  | cons c cs ih =>
    obtain ⟨noQuote, noBlank⟩ := all c (.head _)
    have stays : Place.next .outside c = .outside := if_neg noQuote
    rw [List.cons_append, squeezeFrom, if_neg (by simp [noBlank]), stays,
      ih fun d member => all d (.tail _ member), List.cons_append]

theorem blank {text : String} (all : ∀ c ∈ text.toList, c.isWhitespace = true) :
    Squeezes text "" := by
  intro rest
  show _ = squeezeFrom .outside rest
  generalize text.toList = cs at all
  induction cs with
  | nil => rfl
  | cons c cs ih =>
    rw [List.cons_append, squeezeFrom, if_pos ⟨rfl, all c (.head _)⟩,
      ih fun d member => all d (.tail _ member)]

end Squeezes

theorem squeezeFrom_inside (c : Char) (rest : List Char) :
    squeezeFrom .inside (c :: rest) = c :: squeezeFrom (Place.next .inside c) rest :=
  if_neg (by simp)

/-- An escape leaves a string open. -/
theorem squeezeFrom_escape (c : Char) (rest : List Char) :
    squeezeFrom .inside (escape c ++ rest) = escape c ++ squeezeFrom .inside rest := by
  have digits : ∀ n < 16, Place.next .inside (hexDigit n) = .inside := by decide
  unfold escape
  split
  · rfl
  next noQuote =>
  split
  · rfl
  next noBackslash =>
  -- The other escapes of two characters do not look at `c`.
  repeat' split
  any_goals rfl
  · have high := digits (c.toNat / 16) (by omega)
    have low := digits (c.toNat % 16) (by omega)
    show '\\' :: 'u' :: '0' :: '0' :: squeezeFrom .inside (hexDigit (c.toNat / 16) ::
      hexDigit (c.toNat % 16) :: rest) = _
    rw [squeezeFrom_inside, high, squeezeFrom_inside, low]
    rfl
  · have stays : Place.next .inside c = .inside := by
      rw [Place.next, if_neg noBackslash, if_neg noQuote]
    show squeezeFrom .inside (c :: rest) = _
    rw [squeezeFrom_inside, stays, List.singleton_append]

/-- A string is kept as it is. -/
theorem squeezes_quote (s : String) : Squeezes (quote s) (quote s) := by
  intro rest
  have inside (cs : List Char) : squeezeFrom .inside (cs.flatMap escape ++ '"' :: rest) =
      cs.flatMap escape ++ '"' :: squeezeFrom .outside rest := by
    induction cs with
    | nil => rfl
    | cons c cs ih =>
      rw [List.flatMap_cons, List.append_assoc, squeezeFrom_escape, ih, List.append_assoc]
  rw [toList_quote, List.cons_append, List.append_assoc, List.singleton_append, List.cons_append,
    List.append_assoc, List.singleton_append, ← inside]
  rfl

theorem squeezes_natural (n : Nat) : Squeezes (Nat.repr n) (Nat.repr n) := by
  obtain ⟨c, cs, opening, all⟩ := natural_figures n
  apply Squeezes.plain
  rw [opening]
  exact fun d member => plain_of_isFigure (all d member)

theorem squeezes_null : Squeezes "null" "null" := Squeezes.plain (by simp)

/-- What is not finite is a word, and what is finite is written with figures. -/
theorem squeezes_number (x : Float) : Squeezes (Number.json x) (Number.json x) := by
  unfold Number.json
  split
  · exact squeezes_null
  · exact squeezes_null
  · next negative magnitude _ =>
    have figures := Number.figured_jsonDecimal (magnitude.shortest .toEven)
    apply Squeezes.append
    · apply Squeezes.plain
      cases negative <;> simp [Number.sign]
    · exact Squeezes.plain fun c member => plain_of_isFigure (figures.all c member)

theorem squeezes_newLine (level : Nat) : Squeezes (newLine level) "" := by
  apply Squeezes.blank
  rw [newLine, String.toList_ofList, List.forall_mem_cons]
  refine ⟨rfl, fun c member => ?_⟩
  rw [List.eq_of_mem_replicate member]
  rfl

/-- The separators of items lose the new line behind the comma. -/
theorem squeezes_intercalate {loose tight : List String} (items : List.Forall₂ Squeezes loose tight)
    (level : Nat) : Squeezes (String.intercalate ("," ++ newLine level) loose)
      (String.intercalate "," tight) := by
  have comma : Squeezes ("," ++ newLine level) "," := by
    have mark : Squeezes "," "," := Squeezes.plain (by simp)
    have parted := mark.append (squeezes_newLine level)
    rwa [String.append_empty] at parted
  induction items with
  | nil => exact fun _ => rfl
  | cons first rest ih =>
    cases rest with
    | nil =>
      rw [String.intercalate_singleton, String.intercalate_singleton]
      exact first
    | cons second rest =>
      rw [String.intercalate_cons_cons, String.intercalate_cons_cons]
      exact (first.append comma).append ih

theorem squeezes_enclose {opening closing : String} (opens : Squeezes opening opening)
    (closes : Squeezes closing closing) {loose tight : List String}
    (items : List.Forall₂ Squeezes loose tight) (level : Nat) :
    Squeezes (enclose opening closing level loose)
      (opening ++ String.intercalate "," tight ++ closing) := by
  unfold enclose
  split
  · next none =>
    cases items with
    | nil =>
      rw [String.intercalate_nil, String.append_empty]
      exact opens.append closes
    | cons => cases none
  · have first := opens.append (squeezes_newLine (level + 1))
    have all := first.append (squeezes_intercalate items (level + 1))
    have last := (all.append (squeezes_newLine level)).append closes
    rwa [String.append_empty, String.append_empty] at last

theorem prettyItems_eq_map (level : Nat) (items : List Json) :
    prettyItems level items = items.map (prettyAt level) := by
  induction items with
  | nil => rfl
  | cons a items ih => rw [prettyItems, ih, List.map_cons]

/-- A field of an object at a level. -/
def prettyField (level : Nat) (f : String × Json) : String :=
  quote f.1 ++ ": " ++ f.2.prettyAt level

theorem prettyFields_eq_map (level : Nat) (fields : List (String × Json)) :
    prettyFields level fields = fields.map (prettyField level) := by
  induction fields with
  | nil => rfl
  | cons f fields ih => rw [prettyFields, ih, List.map_cons, prettyField]

/-- At every level the pretty text is the compact one with white space outside strings. -/
theorem squeezes_prettyAt (a : Json) (level : Nat) : Squeezes (a.prettyAt level) a.compact := by
  induction a using Json.ind generalizing level with
  | null => exact squeezes_null
  | natural n => exact squeezes_natural n
  | number x => exact squeezes_number x
  | string s => exact squeezes_quote s
  | array items ih =>
    rw [prettyAt, compact, prettyItems_eq_map, compactItems_eq_map]
    apply squeezes_enclose
    · exact Squeezes.plain (by simp)
    · exact Squeezes.plain (by simp)
    · rw [List.forall₂_map_left_iff, List.forall₂_map_right_iff, List.forall₂_same]
      exact fun a member => ih a member _
  | object fields ih =>
    rw [prettyAt, compact, prettyFields_eq_map, compactFields_eq_map]
    apply squeezes_enclose
    · exact Squeezes.plain (by simp)
    · exact Squeezes.plain (by simp)
    · rw [List.forall₂_map_left_iff, List.forall₂_map_right_iff, List.forall₂_same]
      intro f member
      have colon : Squeezes ":" ":" := Squeezes.plain (by simp)
      have blank : Squeezes " " "" := Squeezes.blank (by simp)
      exact ((squeezes_quote f.1).append (colon.append blank)).append (ih f member _)

/-- The pretty text without the white space outside strings is the compact text. -/
theorem squeeze_pretty (a : Json) : squeeze a.pretty = a.compact := (squeezes_prettyAt a 0).eq

/-- Values with finite numbers and one pretty text are equal. -/
theorem pretty_inj {a b : Json} (finite : a.Finite) (finite' : b.Finite)
    (same : a.pretty = b.pretty) : a = b := by
  apply compact_inj finite finite'
  rw [← squeeze_pretty, same, squeeze_pretty]

end Treewalk.Json
