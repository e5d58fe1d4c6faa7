import Treewalk.Proofs.Source.Munch
import Treewalk.Token.Reader

/-!
# The items of a source

The items of a source are those of its pieces, in order, each with the line its piece ends on, and
then the token of the end. A reader yields them one by one, and then nothing more.
-/

namespace Treewalk

namespace Source

/-- The items of pieces that begin on `line`. -/
def itemsFrom (line : Nat) : List Piece → List Item
  | [] => []
  | piece :: rest =>
    (itemOf piece (line + linesIn piece.slice)).toList ++
      itemsFrom (line + linesIn piece.slice) rest

theorem linesIn_append (a b : List UInt8) : linesIn (a ++ b) = linesIn a + linesIn b :=
  List.count_append

theorem itemsFrom_append (line : Nat) (ps qs : List Piece) :
    itemsFrom line (ps ++ qs) =
      itemsFrom line ps ++ itemsFrom (line + linesIn (ps.flatMap Piece.slice)) qs := by
  induction ps generalizing line with
  | nil => rfl
  | cons piece ps ih =>
    rw [List.cons_append, itemsFrom, itemsFrom, ih, List.flatMap_cons, linesIn_append,
      List.append_assoc, Nat.add_assoc]

theorem itemsAfter_eq (done : List Item) (line : Nat) (ps : List Piece) :
    itemsAfter done line ps = done.reverse ++ itemsFrom line ps ++
      [.ok (Token.eof (line + linesIn (ps.flatMap Piece.slice)))] := by
  induction ps generalizing done line with
  | nil => simp [itemsAfter, itemsFrom, linesIn]
  | cons piece ps ih =>
    rw [itemsAfter, itemsFrom, List.flatMap_cons, linesIn_append, ← Nat.add_assoc]
    cases itemOf piece (line + linesIn piece.slice) with
    | none => exact ih done _
    | some item =>
      refine (ih (item :: done) _).trans ?_
      simp

/-- The items of a source are those of its pieces and the token of the end. -/
theorem scan_eq (source : List UInt8) :
    scan source =
      itemsFrom 1 (pieces source) ++ [.ok (Token.eof (1 + linesIn source))] := by
  rw [scan, itemsAfter_eq, flatMap_pieces]
  rfl

theorem Rule.ne_eof {text : List UInt8} {kind : TokenKind} (h : Rule text kind) : kind ≠ .eof := by
  have keywords : ∀ p ∈ keywordTexts, p.2 ≠ .eof := by decide +kernel
  have operators' : ∀ p ∈ operators, p.2 ≠ .eof := by decide
  cases h with
  | whole | fraction | identifier | string => exact TokenKind.noConfusion
  | keyword entry => exact keywords _ entry
  | operator entry => exact operators' _ entry

theorem Munched.ne_eof {piece : Piece} {after : List UInt8} (h : Munched piece after) {line : Nat}
    {t : Token} (item : itemOf piece line = some (.ok t)) : t.kind ≠ .eof := by
  cases h with
  | token longest =>
    cases item
    exact longest.rule.ne_eof
  | _ => cases item

/-- No piece is the token of the end. -/
theorem AllMunched.ne_eof {ps : List Piece} (h : AllMunched ps) {line : Nat} {t : Token}
    (member : .ok t ∈ itemsFrom line ps) : t.kind ≠ .eof := by
  induction h generalizing line with
  | nil => cases member
  | @cons piece ps first _ ih =>
    rcases List.mem_append.1 member with here | later
    · rw [Option.mem_toList] at here
      exact first.ne_eof here
    · exact ih later

theorem AllMunched.ne_nil {ps : List Piece} (h : AllMunched ps) :
    ∀ piece ∈ ps, piece.slice ≠ [] := by
  induction h with
  | nil => exact fun _ member => nomatch member
  | cons first _ ih => exact List.forall_mem_cons.2 ⟨first.ne_nil, ih⟩

namespace Reader

theorem call_none (line : Nat) (k : Nat) : call ⟨none, line⟩ k = none := by
  induction k with
  | zero => rfl
  | succ k ih => exact ih

theorem call_some (source : List UInt8) (line k : Nat) :
    call ⟨some source, line⟩ k =
      (itemsFrom line (pieces source) ++ [.ok (Token.eof (line + linesIn source))])[k]? := by
  induction size : source.length using Nat.strongRecOn generalizing source line k with
  | ind n ih =>
    cases source with
    | nil =>
      cases k with
      | zero => simp [call, next, advance, itemsFrom, linesIn]
      | succ k =>
        have ended : (next ⟨some [], line⟩).2 = ⟨none, line⟩ := by simp [next, advance]
        rw [call, ended, call_none]
        simp [itemsFrom]
    | cons b rest =>
      have shorter := length_cut_le b rest
      rw [List.length_cons] at size
      have whole : linesIn (b :: rest) =
          linesIn (b :: (cut b rest).2.1) + linesIn (cut b rest).2.2 := by
        rw [← linesIn_append, List.cons_append, cut_append]
      rw [pieces_cons, itemsFrom, whole, ← Nat.add_assoc]
      have later := fun line k => ih _ (by omega) (cut b rest).2.2 line k rfl
      cases found : itemOf ⟨(cut b rest).1, b :: (cut b rest).2.1⟩
          (line + linesIn (b :: (cut b rest).2.1)) with
      | none =>
        rw [Option.toList, List.nil_append, ← later]
        have skipped : next ⟨some (b :: rest), line⟩ =
            next ⟨some (cut b rest).2.2, line + linesIn (b :: (cut b rest).2.1)⟩ := by
          simp only [next]
          rw [advance]
          simp only [found]
        cases k <;> rw [call, call, skipped]
      | some item =>
        have told : next ⟨some (b :: rest), line⟩ =
            (some item, ⟨some (cut b rest).2.2, line + linesIn (b :: (cut b rest).2.1)⟩) := by
          simp only [next]
          rw [advance]
          simp only [found]
        cases k with
        | zero =>
          rw [call, told]
          rfl
        | succ k =>
          rw [call, told, later]
          rfl

end Reader

/-- The scanner is a tokenizer by maximal munch, on all bytes. Exactly one list of munched pieces
makes up the source, none of them is empty, and what a reader yields call by call are the items of
these pieces, none of which is the token of the end, then that token, and then nothing. -/
theorem scan_munches (source : List UInt8) :
    ∃ ps : List Piece, ps.flatMap Piece.slice = source ∧ AllMunched ps ∧
      (∀ ps', ps'.flatMap Piece.slice = source → AllMunched ps' → ps' = ps) ∧
      (∀ piece ∈ ps, piece.slice ≠ []) ∧
      (∀ t, .ok t ∈ itemsFrom 1 ps → t.kind ≠ .eof) ∧
      scan source = itemsFrom 1 ps ++ [.ok (Token.eof (1 + linesIn source))] ∧
      ∀ k, (Reader.start source).call k = (scan source)[k]? := by
  have munched := allMunched_pieces source
  refine ⟨pieces source, flatMap_pieces source, munched, ?_, munched.ne_nil,
    fun t member => munched.ne_eof member, scan_eq source, ?_⟩
  · intro ps' same munched'
    rw [← same, munched'.pieces_eq]
  · intro k
    rw [scan_eq]
    exact Reader.call_some source 1 k

end Source

end Treewalk
