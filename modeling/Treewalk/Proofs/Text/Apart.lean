import Mathlib.Data.List.Basic

/-!
# Texts that tell where they end

Two things are told apart by their texts if the texts differ whatever stands behind them, as long as
it is nothing or begins with a mark that may end a text. Runs of characters without such a mark are
told apart, and so are lists of things that are: their items are parted by one mark and closed by
another.
-/

namespace Treewalk.Text

/-- Nothing, or a mark that ends a text and what follows it. -/
def Ended (ends : List Char) (rest : List Char) : Prop := ∀ c ∈ rest.head?, c ∈ ends

theorem Ended.nil {ends : List Char} : Ended ends [] := nofun

theorem Ended.cons {ends : List Char} {c : Char} (member : c ∈ ends) (rest : List Char) :
    Ended ends (c :: rest) := by
  rintro _ ⟨⟩
  exact member

/-- A run without an ending mark ends at the first one. -/
theorem run_append {ends a b r s : List Char} (first : ∀ c ∈ a, c ∉ ends)
    (second : ∀ c ∈ b, c ∉ ends) (ended : Ended ends r) (ended' : Ended ends s)
    (same : a ++ r = b ++ s) : a = b ∧ r = s := by
  induction a generalizing b with
  | nil =>
    cases b with
    | nil => exact ⟨rfl, same⟩
    | cons d b =>
      cases same
      exact absurd (ended d rfl) (second d (.head _))
  | cons c a ih =>
    cases b with
    | nil =>
      cases same
      exact absurd (ended' c rfl) (first c (.head _))
    | cons d b =>
      obtain ⟨rfl, behind⟩ := List.cons.inj same
      obtain ⟨rfl, left⟩ := ih (fun e member => first e (.tail _ member))
        (fun e member => second e (.tail _ member)) behind
      exact ⟨rfl, left⟩

variable {α : Type} {ends : List Char} {text : α → List Char} {good : α → Prop}

/-- The text of `a` is that of no other good thing, and what stands behind it begins at its end. -/
def Apart (ends : List Char) (text : α → List Char) (good : α → Prop) (a : α) : Prop :=
  ∀ ⦃b r s⦄, good b → Ended ends r → Ended ends s → text a ++ r = text b ++ s → a = b ∧ r = s

theorem Apart.eq {a b : α} (apart : Apart ends text good a) (isGood : good b)
    (same : text a = text b) : a = b := by
  apply (apart isGood .nil .nil _).1
  rw [same]

/-- Items with a mark between them. -/
theorem intercalate_mark (mark : Char) (first : List Char) (rest : List (List Char)) :
    [mark].intercalate (first :: rest) = first ++ rest.flatMap (mark :: ·) := by
  induction rest generalizing first with
  | nil => simp
  | cons second rest ih => simp [List.intercalate_cons_cons, ih]

/-- The items behind the first, each with the mark in front of it, up to the closing mark. -/
def following (text : α → List Char) (mark close : Char) (items : List α) (rest : List Char) :
    List Char :=
  items.flatMap (fun a => mark :: text a) ++ close :: rest

section Marks

variable {mark close : Char}

theorem following_cons (a : α) (items : List α) (rest : List Char) :
    following text mark close (a :: items) rest =
      mark :: (text a ++ following text mark close items rest) := by
  simp [following]

theorem intercalate_close (a : α) (items : List α) (rest : List Char) :
    [mark].intercalate ((a :: items).map text) ++ close :: rest =
      text a ++ following text mark close items rest := by
  rw [List.map_cons, intercalate_mark, List.append_assoc, List.flatMap_map, following]

/-- The marks of a list end the texts of its items, and no item begins with the closing one. -/
structure Marks (ends : List Char) (text : α → List Char) (good : α → Prop) (mark close : Char) :
    Prop where
  parted : mark ≠ close
  parts : mark ∈ ends
  closes : close ∈ ends
  opens : ∀ a, good a → ∃ c cs, text a = c :: cs ∧ c ≠ close

namespace Marks

variable (marks : Marks ends text good mark close)

include marks

theorem ended (items : List α) (rest : List Char) :
    Ended ends (following text mark close items rest) := by
  cases items with
  | nil => exact .cons marks.closes _
  | cons a items =>
    rw [following_cons]
    exact .cons marks.parts _

/-- Behind an item the next mark says whether there is another one. -/
theorem following_apart {as bs : List α} {r s : List Char}
    (apart : ∀ a ∈ as, Apart ends text good a) (goods : ∀ b ∈ bs, good b)
    (same : following text mark close as r = following text mark close bs s) :
    as = bs ∧ r = s := by
  induction as generalizing bs with
  | nil =>
    cases bs with
    | nil => exact ⟨rfl, (List.cons.inj same).2⟩
    | cons b bs =>
      rw [following_cons] at same
      exact absurd (List.cons.inj same).1.symm marks.parted
  | cons a as ih =>
    rw [following_cons] at same
    cases bs with
    | nil => exact absurd (List.cons.inj same).1 marks.parted
    | cons b bs =>
      rw [following_cons] at same
      obtain ⟨rfl, behind⟩ := apart a (.head _) (goods b (.head _)) (marks.ended _ _)
        (marks.ended _ _) (List.cons.inj same).2
      obtain ⟨rfl, left⟩ := ih (fun c member => apart c (.tail _ member))
        (fun c member => goods c (.tail _ member)) behind
      exact ⟨rfl, left⟩

/-- Lists of things that are told apart are told apart. -/
theorem items_apart {as bs : List α} {r s : List Char}
    (apart : ∀ a ∈ as, Apart ends text good a) (goods : ∀ a ∈ as, good a)
    (goods' : ∀ b ∈ bs, good b)
    (same : [mark].intercalate (as.map text) ++ close :: r =
      [mark].intercalate (bs.map text) ++ close :: s) : as = bs ∧ r = s := by
  cases as with
  | nil =>
    cases bs with
    | nil => exact ⟨rfl, (List.cons.inj same).2⟩
    | cons b bs =>
      obtain ⟨c, cs, opening, other⟩ := marks.opens b (goods' b (.head _))
      rw [intercalate_close, opening] at same
      exact absurd (List.cons.inj same).1.symm other
  | cons a as =>
    rw [intercalate_close] at same
    cases bs with
    | nil =>
      obtain ⟨c, cs, opening, other⟩ := marks.opens a (goods a (.head _))
      rw [opening] at same
      exact absurd (List.cons.inj same).1 other
    | cons b bs =>
      rw [intercalate_close] at same
      obtain ⟨rfl, behind⟩ := apart a (.head _) (goods' b (.head _)) (marks.ended _ _)
        (marks.ended _ _) same
      obtain ⟨rfl, left⟩ := marks.following_apart (fun c member => apart c (.tail _ member))
        (fun c member => goods' c (.tail _ member)) behind
      exact ⟨rfl, left⟩

end Marks

end Marks

end Treewalk.Text
