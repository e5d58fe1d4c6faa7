import Treewalk.Proofs.Decimal.Figured
import Treewalk.Text.Json

/-!
# What a JSON text tells

The compact text of a value whose numbers are finite tells the value: the first character says of
which shape it is, a string ends at the first quote that no backslash hides, and a number at the
first mark that is no figure.
-/

namespace Treewalk.Json

open Text

/-- Induction over a value, with all items of an array and the values of all fields at once. -/
theorem ind {P : Json → Prop} (null : P .null) (natural : ∀ n, P (.natural n))
    (number : ∀ x, P (.number x)) (string : ∀ s, P (.string s))
    (array : ∀ items, (∀ a ∈ items, P a) → P (.array items))
    (object : ∀ fields, (∀ f ∈ fields, P f.2) → P (.object fields)) : ∀ a, P a :=
  @Json.rec P (fun items => ∀ a ∈ items, P a) (fun fields => ∀ f ∈ fields, P f.2) (fun f => P f.2)
    null natural number string array object nofun
    (fun _ _ head tail => List.forall_mem_cons.2 ⟨head, tail⟩) nofun
    (fun _ _ head tail => List.forall_mem_cons.2 ⟨head, tail⟩) (fun _ _ value => value)

/-- A field of an object, without any blank. -/
def compactField (f : String × Json) : String := quote f.1 ++ ":" ++ f.2.compact

theorem compactItems_eq_map (items : List Json) : compactItems items = items.map compact := by
  induction items with
  | nil => rfl
  | cons a items ih => rw [compactItems, ih, List.map_cons]

theorem compactFields_eq_map (fields : List (String × Json)) :
    compactFields fields = fields.map compactField := by
  induction fields with
  | nil => rfl
  | cons f fields ih => rw [compactFields, ih, List.map_cons, compactField]

section Strings

/-- The value of a hexadecimal digit. -/
def hexValue (c : Char) : Nat := if c.isDigit then c.toNat - 48 else c.toNat - 87

theorem hexValue_hexDigit : ∀ n < 16, hexValue (hexDigit n) = n := by decide

/-- The character that a letter behind a backslash stands for. -/
def unescaped (c : Char) : Char :=
  if c = 'n' then '\n'
  else if c = 'r' then '\r'
  else if c = 't' then '\t'
  else if c = 'b' then Char.ofNat 8
  else if c = 'f' then Char.ofNat 12
  else c

/-- The character that stands behind a backslash, and what follows it. -/
def readEscape : List Char → Option (Char × List Char)
  | 'u' :: _ :: _ :: high :: low :: rest =>
    some (Char.ofNat (16 * hexValue high + hexValue low), rest)
  | c :: rest => some (unescaped c, rest)
  | [] => none

/-- The first character of what stands inside a string, and what follows it. -/
def readChar : List Char → Option (Char × List Char)
  | [] => none
  | c :: rest => if c = '\\' then readEscape rest else some (c, rest)

theorem readChar_escape (c : Char) (rest : List Char) :
    readChar (escape c ++ rest) = some (c, rest) := by
  have code : Char.ofNat c.toNat = c := Char.ofNat_toNat c
  unfold escape
  split
  · next is => rw [is]; rfl
  split
  · next is => rw [is]; rfl
  split
  · next is => rw [is]; rfl
  split
  · next is => rw [is]; rfl
  split
  · next is => rw [is]; rfl
  split
  · next is => rw [← code, is]; rfl
  split
  · next is => rw [← code, is]; rfl
  split
  · next control =>
    have high := hexValue_hexDigit (c.toNat / 16) (by omega)
    have low := hexValue_hexDigit (c.toNat % 16) (by omega)
    have whole : 16 * (c.toNat / 16) + c.toNat % 16 = c.toNat := by omega
    show some (Char.ofNat (16 * hexValue (hexDigit (c.toNat / 16)) +
      hexValue (hexDigit (c.toNat % 16))), rest) = some (c, rest)
    rw [high, low, whole, code]
  · next plain _ _ _ _ _ _ => exact if_neg plain

/-- No character is written with a quote in front. -/
theorem escape_opens (c : Char) : ∃ d ds, escape c = d :: ds ∧ d ≠ '"' := by
  unfold escape
  split
  · exact ⟨_, _, rfl, by decide⟩
  next plain =>
  repeat' split
  all_goals first
    | exact ⟨_, _, rfl, by decide⟩
    | exact ⟨_, _, rfl, plain⟩

theorem toList_quote (s : String) :
    (quote s).toList = '"' :: (s.toList.flatMap escape ++ ['"']) := by
  rw [quote, String.toList_ofList, List.cons_append]

/-- A string ends at the first quote that is not part of an escape. -/
theorem escapes_apart {cs ds r s : List Char}
    (same : cs.flatMap escape ++ '"' :: r = ds.flatMap escape ++ '"' :: s) : cs = ds ∧ r = s := by
  induction cs generalizing ds with
  | nil =>
    cases ds with
    | nil => exact ⟨rfl, (List.cons.inj same).2⟩
    | cons d ds =>
      obtain ⟨e, es, opening, other⟩ := escape_opens d
      rw [List.flatMap_cons, opening] at same
      exact absurd (List.cons.inj same).1.symm other
  | cons c cs ih =>
    rw [List.flatMap_cons, List.append_assoc] at same
    cases ds with
    | nil =>
      obtain ⟨e, es, opening, other⟩ := escape_opens c
      rw [opening] at same
      exact absurd (List.cons.inj same).1 other
    | cons d ds =>
      rw [List.flatMap_cons, List.append_assoc] at same
      have read := congrArg readChar same
      rw [readChar_escape, readChar_escape] at read
      obtain ⟨rfl, behind⟩ := Prod.mk.inj (Option.some.inj read)
      obtain ⟨rfl, left⟩ := ih behind
      exact ⟨rfl, left⟩

theorem quote_apart {s t : String} {r u : List Char}
    (same : (quote s).toList ++ r = (quote t).toList ++ u) : s = t ∧ r = u := by
  rw [toList_quote, toList_quote, List.cons_append, List.cons_append, List.append_assoc,
    List.append_assoc] at same
  obtain ⟨texts, left⟩ := escapes_apart (List.cons.inj same).2
  exact ⟨String.toList_inj.1 texts, left⟩

end Strings

section Compact

/-- All numbers of the value are finite. -/
inductive Finite : Json → Prop
  | null : Finite .null
  | natural (n : Nat) : Finite (.natural n)
  | number {x : Float} (finite : x.isFinite = true) : Finite (.number x)
  | string (s : String) : Finite (.string s)
  | array {items : List Json} (all : ∀ a ∈ items, Finite a) : Finite (.array items)
  | object {fields : List (String × Json)} (all : ∀ f ∈ fields, Finite f.2) :
    Finite (.object fields)

@[simp] theorem finite_null : Finite .null := .null

@[simp] theorem finite_natural (n : Nat) : (Json.natural n).Finite := .natural n

@[simp] theorem finite_string (s : String) : (Json.string s).Finite := .string s

@[simp] theorem finite_number_iff (x : Float) : (Json.number x).Finite ↔ x.isFinite = true := by
  constructor
  · rintro ⟨⟩
    assumption
  · exact .number

@[simp] theorem finite_array_iff (items : List Json) :
    (Json.array items).Finite ↔ ∀ a ∈ items, a.Finite := by
  constructor
  · rintro ⟨⟩
    assumption
  · exact .array

@[simp] theorem finite_object_iff (fields : List (String × Json)) :
    (Json.object fields).Finite ↔ ∀ f ∈ fields, f.2.Finite := by
  constructor
  · rintro ⟨⟩
    assumption
  · exact .object

@[simp] theorem finite_ofOption_iff (o : Option Json) :
    (Json.ofOption o).Finite ↔ ∀ a ∈ o, a.Finite := by
  cases o <;> simp [ofOption]

/-- What the first character of a value says about it. -/
inductive Shape where
  | null
  | figures
  | string
  | array
  | object

def shape : Json → Shape
  | .null => .null
  | .natural _ => .figures
  | .number _ => .figures
  | .string _ => .string
  | .array _ => .array
  | .object _ => .object

def Shape.of (c : Char) : Shape :=
  if c = 'n' then .null
  else if c = '"' then .string
  else if c = '[' then .array
  else if c = '{' then .object
  else .figures

/-- The marks that may stand behind a value. -/
def ends : List Char := [',', ']', '}']

theorem Shape.of_isFigure {c : Char} (figure : Number.isFigure c = true) : of c = .figures := by
  have other {d : Char} : Number.isFigure d = false → c ≠ d := Number.ne_of_isFigure figure
  rw [of, if_neg (other (by decide)), if_neg (other (by decide)), if_neg (other (by decide)),
    if_neg (other (by decide))]

theorem not_ends_of_isFigure {c : Char} (figure : Number.isFigure c = true) : c ∉ ends :=
  Number.not_mem_of_isFigure figure (by simp [ends, Number.isFigure])

theorem natural_figures (n : Nat) :
    ∃ c cs, (Nat.repr n).toList = c :: cs ∧ ∀ d ∈ c :: cs, Number.isFigure d = true := by
  have digits : ∀ c ∈ Nat.toDigits 10 n, Number.isFigure c = true :=
    fun c member => Number.isFigure_of_isDigit (Source.Figures.toDigits n c member)
  rw [Number.toList_repr]
  obtain ⟨c, cs, shape⟩ := List.exists_cons_of_ne_nil (@Nat.toDigits_ne_nil n 10)
  rw [shape] at digits ⊢
  exact ⟨c, cs, rfl, digits⟩

theorem number_figures {x : Float} (finite : x.isFinite = true) :
    ∃ c cs, (Number.json x).toList = c :: cs ∧ ∀ d ∈ c :: cs, Number.isFigure d = true := by
  obtain ⟨c, cs, shape, -, all⟩ := (Number.written_json finite).all
  exact ⟨c, cs, shape, all⟩

/-- What is written with figures ends at the first mark. -/
theorem figures_apart {cs ds r s : List Char} (first : ∃ c rest, cs = c :: rest ∧
    ∀ d ∈ c :: rest, Number.isFigure d = true) (second : ∃ c rest, ds = c :: rest ∧
    ∀ d ∈ c :: rest, Number.isFigure d = true) (ended : Ended ends r) (ended' : Ended ends s)
    (same : cs ++ r = ds ++ s) : cs = ds ∧ r = s := by
  obtain ⟨c, rest, rfl, all⟩ := first
  obtain ⟨c', rest', rfl, all'⟩ := second
  exact run_append (fun d member => not_ends_of_isFigure (all d member))
    (fun d member => not_ends_of_isFigure (all' d member)) ended ended' same

theorem number_ne_natural {x : Float} (finite : x.isFinite = true) (n : Nat) :
    (Number.json x).toList ≠ (Nat.repr n).toList := by
  intro same
  obtain ⟨c, member, other⟩ :=
    Number.marked_jsonDecimal ((Number.magnitude x).shortest .toEven)
  have inside : c ∈ (Number.json x).toList := by
    rw [Number.json_of_finite finite, String.toList_append]
    exact List.mem_append_right _ member
  rw [same, Number.toList_repr] at inside
  have digit := Source.Figures.toDigits n c inside
  rw [other] at digit
  cases digit

theorem toList_array (items : List Json) : (Json.array items).compact.toList =
    '[' :: ([','].intercalate (items.map (·.compact.toList)) ++ [']']) := by
  rw [compact, compactItems_eq_map, String.toList_append, String.toList_append,
    String.toList_intercalate, List.map_map]
  rfl

theorem toList_object (fields : List (String × Json)) : (Json.object fields).compact.toList =
    '{' :: ([','].intercalate (fields.map fun f => (compactField f).toList) ++ ['}']) := by
  rw [compact, compactFields_eq_map, String.toList_append, String.toList_append,
    String.toList_intercalate, List.map_map]
  rfl

/-- The first character of a text says of which shape the value is, and is no mark. -/
theorem compact_opens {a : Json} (finite : a.Finite) :
    ∃ c cs, a.compact.toList = c :: cs ∧ Shape.of c = a.shape ∧ c ∉ ends := by
  have figures {c : Char} (figure : Number.isFigure c = true) :
      Shape.of c = .figures ∧ c ∉ ends :=
    ⟨Shape.of_isFigure figure, not_ends_of_isFigure figure⟩
  cases finite with
  | null => exact ⟨_, _, rfl, rfl, by decide⟩
  | natural n =>
    obtain ⟨c, cs, opening, all⟩ := natural_figures n
    exact ⟨c, cs, opening, figures (all c (.head _))⟩
  | number finite =>
    obtain ⟨c, cs, opening, all⟩ := number_figures finite
    exact ⟨c, cs, opening, figures (all c (.head _))⟩
  | string s => exact ⟨_, _, toList_quote s, rfl, by decide⟩
  | array all => exact ⟨_, _, toList_array _, rfl, by decide⟩
  | object all => exact ⟨_, _, toList_object _, rfl, by decide⟩

theorem shape_eq {a b : Json} (finite : a.Finite) (finite' : b.Finite) {r s : List Char}
    (same : a.compact.toList ++ r = b.compact.toList ++ s) : a.shape = b.shape := by
  obtain ⟨c, cs, opening, shape, -⟩ := compact_opens finite
  obtain ⟨d, ds, opening', shape', -⟩ := compact_opens finite'
  rw [opening, opening'] at same
  rw [← shape, ← shape', (List.cons.inj same).1]

theorem toList_compactField (f : String × Json) :
    (compactField f).toList = (quote f.1).toList ++ ':' :: f.2.compact.toList := by
  rw [compactField, String.toList_append, String.toList_append, List.append_assoc]
  rfl

/-- Items are parted by commas, and no item begins with the bracket that closes. -/
theorem marks_array : Marks ends (·.compact.toList) Finite ',' ']' := by
  constructor
  · decide
  · decide
  · decide
  · intro a finite
    obtain ⟨c, cs, opening, -, none⟩ := compact_opens finite
    refine ⟨c, cs, opening, ?_⟩
    rintro rfl
    exact none (by decide)

theorem marks_object :
    Marks ends (fun f => (compactField f).toList) (fun f => f.2.Finite) ',' '}' := by
  constructor
  · decide
  · decide
  · decide
  · intro f _
    rw [toList_compactField, toList_quote]
    exact ⟨_, _, rfl, by decide⟩

/-- A field ends where its value does. -/
theorem field_apart {f : String × Json} (value : Apart ends (·.compact.toList) Finite f.2) :
    Apart ends (fun f => (compactField f).toList) (fun f => f.2.Finite) f := by
  intro g r s finite ended ended' same
  simp only [toList_compactField, List.append_assoc] at same
  obtain ⟨names, behind⟩ := quote_apart same
  obtain ⟨values, left⟩ := value finite ended ended' (List.cons.inj behind).2
  exact ⟨Prod.ext names values, left⟩

/-- The compact text of a value with finite numbers tells the value. -/
theorem compact_apart {a : Json} (finite : a.Finite) :
    Apart ends (·.compact.toList) Finite a := by
  induction a using Json.ind with
  | null =>
    intro b r s finite' _ _ same
    have shapes := shape_eq finite finite' same
    cases finite' with
    | null => exact ⟨rfl, List.append_cancel_left same⟩
    | _ => cases shapes
  | natural n =>
    intro b r s finite' ended ended' same
    have shapes := shape_eq finite finite' same
    cases finite' with
    | natural m =>
      obtain ⟨digits, left⟩ :=
        figures_apart (natural_figures n) (natural_figures m) ended ended' same
      rw [Number.toList_repr, Number.toList_repr] at digits
      exact ⟨congrArg _ (Number.toDigits_inj digits), left⟩
    | number isFinite =>
      obtain ⟨digits, -⟩ :=
        figures_apart (natural_figures n) (number_figures isFinite) ended ended' same
      exact absurd digits.symm (number_ne_natural isFinite n)
    | _ => cases shapes
  | number x =>
    intro b r s finite' ended ended' same
    have shapes := shape_eq finite finite' same
    cases finite with | number isFinite =>
    cases finite' with
    | natural m =>
      obtain ⟨digits, -⟩ :=
        figures_apart (number_figures isFinite) (natural_figures m) ended ended' same
      exact absurd digits (number_ne_natural isFinite m)
    | number isFinite' =>
      obtain ⟨digits, left⟩ :=
        figures_apart (number_figures isFinite) (number_figures isFinite') ended ended' same
      have written := Number.written_json isFinite
      rw [String.toList_inj.1 digits] at written
      exact ⟨congrArg _ (written.eq isFinite isFinite' (Number.written_json isFinite')), left⟩
    | _ => cases shapes
  | string t =>
    intro b r s finite' _ _ same
    have shapes := shape_eq finite finite' same
    cases finite' with
    | string u =>
      obtain ⟨rfl, left⟩ := quote_apart same
      exact ⟨rfl, left⟩
    | _ => cases shapes
  | array items ih =>
    intro b r s finite' _ _ same
    have shapes := shape_eq finite finite' same
    cases finite with | array all =>
    cases finite' with
    | array all' =>
      simp only [toList_array, List.cons_append, List.append_assoc] at same
      obtain ⟨rfl, left⟩ := marks_array.items_apart (fun a member => ih a member (all a member))
        all all' (List.cons.inj same).2
      exact ⟨rfl, left⟩
    | _ => cases shapes
  | object fields ih =>
    intro b r s finite' _ _ same
    have shapes := shape_eq finite finite' same
    cases finite with | object all =>
    cases finite' with
    | object all' =>
      simp only [toList_object, List.cons_append, List.append_assoc] at same
      obtain ⟨rfl, left⟩ := marks_object.items_apart
        (fun f member => field_apart (ih f member (all f member))) all all' (List.cons.inj same).2
      exact ⟨rfl, left⟩
    | _ => cases shapes

/-- Values with finite numbers and one compact text are equal. -/
theorem compact_inj {a b : Json} (finite : a.Finite) (finite' : b.Finite)
    (same : a.compact = b.compact) : a = b :=
  (compact_apart finite).eq finite' (congrArg String.toList same)

end Compact

end Treewalk.Json
