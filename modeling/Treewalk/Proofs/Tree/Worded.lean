import Treewalk.Proofs.Text.Apart
import Treewalk.Syntax.Form

/-!
# What a written form tells

If no word of a form is empty or has a blank or a parenthesis in it, the text of the form tells the
form: a word ends at the first mark, and a list at the parenthesis that closes it.
-/

namespace Treewalk.Form

open Text

/-- Induction over a form, with all items of a list at once. -/
theorem ind {P : Form → Prop} (word : ∀ w, P (.word w))
    (list : ∀ items, (∀ a ∈ items, P a) → P (.list items)) : ∀ a, P a :=
  @Form.rec P (fun items => ∀ a ∈ items, P a) word list nofun
    (fun _ _ head tail => List.forall_mem_cons.2 ⟨head, tail⟩)

theorem texts_eq_map (items : List Form) : texts items = items.map text := by
  induction items with
  | nil => rfl
  | cons a items ih => rw [texts, ih, List.map_cons]

/-- The text is one word: not empty, without a blank and without a parenthesis. -/
def IsWord (w : String) : Prop := w.toList ≠ [] ∧ ∀ c ∈ w.toList, c ∉ [' ', '(', ')']

/-- All words of the form are words. -/
inductive Worded : Form → Prop
  | word {w : String} (is : IsWord w) : Worded (.word w)
  | list {items : List Form} (all : ∀ a ∈ items, Worded a) : Worded (.list items)

@[simp] theorem worded_word_iff (w : String) : (Form.word w).Worded ↔ IsWord w := by
  constructor
  · rintro ⟨⟩
    assumption
  · exact .word

@[simp] theorem worded_list_iff (items : List Form) :
    (Form.list items).Worded ↔ ∀ a ∈ items, a.Worded := by
  constructor
  · rintro ⟨⟩
    assumption
  · exact .list

@[simp] theorem worded_headed_iff (head : String) (items : List Form) :
    (Form.headed head items).Worded ↔ IsWord head ∧ ∀ a ∈ items, a.Worded := by
  rw [headed, worded_list_iff, List.forall_mem_cons, worded_word_iff]

/-- The marks that may stand behind a form. -/
def ends : List Char := [' ', ')']

theorem toList_list (items : List Form) : (Form.list items).text.toList =
    '(' :: ([' '].intercalate (items.map (·.text.toList)) ++ [')']) := by
  rw [text, texts_eq_map, String.toList_append, String.toList_append, String.toList_intercalate,
    List.map_map]
  rfl

/-- The form is a list. -/
def isList : Form → Bool
  | .word _ => false
  | .list _ => true

theorem IsWord.not_ends {w : String} (is : IsWord w) : ∀ c ∈ w.toList, c ∉ ends := by
  intro c member
  have none := is.2 c member
  simp_all [ends]

/-- A form begins with no mark, and with a parenthesis only if it is a list. -/
theorem text_opens {a : Form} (worded : a.Worded) :
    ∃ c cs, a.text.toList = c :: cs ∧ c ∉ ends ∧ (c == '(') = a.isList := by
  cases worded with
  | word is =>
    obtain ⟨c, cs, opening⟩ := List.exists_cons_of_ne_nil is.1
    have member := opening ▸ List.mem_cons_self
    refine ⟨c, cs, opening, is.not_ends c member, ?_⟩
    have none := is.2 c member
    simp_all [isList]
  | list all => exact ⟨_, _, toList_list _, by decide, rfl⟩

theorem isList_eq {a b : Form} (worded : a.Worded) (worded' : b.Worded) {r s : List Char}
    (same : a.text.toList ++ r = b.text.toList ++ s) : a.isList = b.isList := by
  obtain ⟨c, cs, opening, -, list⟩ := text_opens worded
  obtain ⟨d, ds, opening', -, list'⟩ := text_opens worded'
  rw [opening, opening'] at same
  rw [← list, ← list', (List.cons.inj same).1]

theorem marks_list : Marks ends (·.text.toList) Worded ' ' ')' := by
  constructor
  · decide
  · decide
  · decide
  · intro a worded
    obtain ⟨c, cs, opening, none, -⟩ := text_opens worded
    refine ⟨c, cs, opening, ?_⟩
    rintro rfl
    exact none (by decide)

/-- The text of a form whose words are words tells the form. -/
theorem text_apart {a : Form} (worded : a.Worded) : Apart ends (·.text.toList) Worded a := by
  induction a using Form.ind with
  | word w =>
    intro b r s worded' ended ended' same
    have lists := isList_eq worded worded' same
    cases worded with | word is =>
    cases worded' with
    | word is' =>
      obtain ⟨words, left⟩ := run_append is.not_ends is'.not_ends ended ended' same
      exact ⟨congrArg _ (String.toList_inj.1 words), left⟩
    | list => cases lists
  | list items ih =>
    intro b r s worded' _ _ same
    have lists := isList_eq worded worded' same
    cases worded with | list all =>
    cases worded' with
    | word => cases lists
    | list all' =>
      simp only [toList_list, List.cons_append, List.append_assoc] at same
      obtain ⟨rfl, left⟩ := marks_list.items_apart (fun a member => ih a member (all a member))
        all all' (List.cons.inj same).2
      exact ⟨rfl, left⟩

theorem text_inj {a b : Form} (worded : a.Worded) (worded' : b.Worded) (same : a.text = b.text) :
    a = b :=
  (text_apart worded).eq worded' (congrArg String.toList same)

end Treewalk.Form
