import Treewalk.Proofs.Grammar.Accepts
import Treewalk.Proofs.Grammar.SoundExpr

/-!
# Parsing expressions is complete

What a rule derives its parser accepts, whatever stands behind it, as long as the next token does
not continue the expression and the recursion may go deep enough: sixteen steps for each token and
one for each rule on the way to the tightest one.

The rules of operators and of calls are left-recursive and their parsers are loops. The lemma about
such a rule therefore speaks of the loop that runs on behind the expression.
-/

namespace Treewalk.Grammar

open Treewalk.Parser

variable {i j k : NodeId} {ts us rest : List Token} {e : Expr} {es : List Expr} {r : Rule}

/-- An expression may begin with this kind. -/
def beginsExpression : TokenKind → Bool
  | .bang | .minus | .kwTrue | .kwFalse | .kwNil | .number | .string | .kwSuper | .kwThis
  | .identifier | .leftParen => true
  | _ => false

theorem constant?_kind {t : Token} {c : Constant} (h : constant? t = some c) :
    beginsExpression t.kind = true := by
  unfold constant? at h
  split at h <;> simp_all [beginsExpression]

theorem Derives.first {r : Rule} {i j : NodeId} {ts : List Token} {e : Expr} :
    Derives r i ts e j → ∃ t us, ts = t :: us ∧ beginsExpression t.kind = true
  | .single h => h.first
  | .sequence h _ _ => by
    obtain ⟨t, us, rfl, begins⟩ := h.first
    exact ⟨t, _, rfl, begins⟩
  | .operation h => h.first
  | .assign identifier _ _ => ⟨_, _, rfl, by rw [identifier]; rfl⟩
  | .set h _ _ _ _ => by
    obtain ⟨t, us, rfl, begins⟩ := h.first
    exact ⟨t, _, rfl, begins⟩
  | .operand _ h => h.first
  | .binary _ h _ _ => by
    obtain ⟨t, us, rfl, begins⟩ := h.first
    exact ⟨t, _, rfl, begins⟩
  | .unary kind _ => ⟨_, _, rfl, by rcases kind with kind | kind <;> rw [kind] <;> rfl⟩
  | .operatorless h => h.first
  | .atom h => h.first
  | .call h _ _ _ => by
    obtain ⟨t, us, rfl, begins⟩ := h.first
    exact ⟨t, _, rfl, begins⟩
  | .get h _ _ => by
    obtain ⟨t, us, rfl, begins⟩ := h.first
    exact ⟨t, _, rfl, begins⟩
  | .constant h => ⟨_, _, rfl, constant?_kind h⟩
  | .super kind _ _ => ⟨_, _, rfl, by rw [kind]; rfl⟩
  | .this kind => ⟨_, _, rfl, by rw [kind]; rfl⟩
  | .name kind => ⟨_, _, rfl, by rw [kind]; rfl⟩
  | .grouping kind _ _ => ⟨_, _, rfl, by rw [kind]; rfl⟩

theorem Derives.pos (h : Derives r i ts e j) : 0 < ts.length := by
  obtain ⟨t, us, rfl, -⟩ := h.first
  simp

/-- No token of these kinds begins an expression. -/
theorem Derives.nextNot (h : Derives r i ts e j) {kinds : List TokenKind}
    (others : ∀ kind ∈ kinds, beginsExpression kind = false) : NextNot kinds (ts ++ rest) := by
  obtain ⟨t, us, rfl, begins⟩ := h.first
  intro t' head member
  obtain rfl : t = t' := by simpa using head
  simp [others _ member] at begins

theorem Derives.firstPrimary (h : Derives .primary i ts e j) :
    ∃ t us, ts = t :: us ∧ t.kind ≠ .bang ∧ t.kind ≠ .minus := by
  cases h with
  | operand rule | binary rule => cases rule
  | constant h =>
    refine ⟨_, _, rfl, ?_⟩
    unfold constant? at h
    split at h <;> simp_all
  | super kind | this kind | name kind | grouping kind => exact ⟨_, _, rfl, by simp [kind]⟩

/-- A call begins with no operator. -/
theorem Derives.firstCall {i j : NodeId} {ts : List Token} {e : Expr} :
    Derives .call i ts e j → ∃ t us, ts = t :: us ∧ t.kind ≠ .bang ∧ t.kind ≠ .minus
  | .operand rule _ => by cases rule
  | .binary rule _ _ _ => by cases rule
  | .atom h => h.firstPrimary
  | .call h _ _ _ => by
    obtain ⟨t, us, rfl, other⟩ := h.firstCall
    exact ⟨t, _, rfl, other⟩
  | .get h _ _ => by
    obtain ⟨t, us, rfl, other⟩ := h.firstCall
    exact ⟨t, _, rfl, other⟩

/-- How loosely a token binds behind an operand; what continues no expression comes last. -/
def looseness : TokenKind → Nat
  | .leftParen | .dot => 1
  | .slash | .star => 2
  | .minus | .plus => 3
  | .greater | .greaterEqual | .less | .lessEqual => 4
  | .bangEqual | .equalEqual => 5
  | .kwAnd => 6
  | .kwOr => 7
  | .equal => 8
  | .comma => 9
  | _ => 10

/-- The loosest token that continues an expression of a rule. No token continues a primary one. -/
def Rule.looseness : Rule → Nat
  | .primary => 0
  | .call | .unary => 1
  | .factor => 2
  | .term => 3
  | .comparison => 4
  | .equality => 5
  | .logicAnd => 6
  | .logicOr => 7
  | .assignment => 8
  | .expression => 9

/-- The next token does not continue an expression of a rule. -/
def Stops (r : Rule) (rest : List Token) : Prop :=
  ∀ t ∈ rest.head?, r.looseness < Grammar.looseness t.kind

theorem Stops.mono {r' : Rule} (h : Stops r rest) (tighter : r'.looseness ≤ r.looseness) :
    Stops r' rest :=
  fun t head => Nat.lt_of_le_of_lt tighter (h t head)

theorem Stops.nextNot (h : Stops r rest) {kinds : List TokenKind}
    (continuing : ∀ kind ∈ kinds, Grammar.looseness kind ≤ r.looseness) : NextNot kinds rest :=
  fun t head member => absurd (h t head) (Nat.not_lt.2 (continuing _ member))

theorem stops_cons {t : Token} (h : r.looseness < Grammar.looseness t.kind) :
    Stops r (t :: rest) := by
  intro t' head
  obtain rfl : t = t' := by simpa using head
  exact h

theorem stops_primary (rest : List Token) : Stops .primary rest := by
  intro t _
  cases t.kind <;> decide

/-- The rules that the parser passes on its way from a rule to the tightest one. -/
def Rule.depth : Rule → Nat
  | .primary => 1
  | .call => 2
  | .unary => 3
  | .factor => 5
  | .term => 6
  | .comparison => 7
  | .equality => 8
  | .logicAnd => 9
  | .logicOr => 10
  | .assignment => 11
  | .expression => 12

/-- The recursion may go deep enough for a rule to read so many tokens. -/
def Enough (r : Rule) (ts : List Token) (n : Nat) : Prop := r.depth + 16 * ts.length ≤ n + 16

/-- The parser of a rule. -/
def parserOf : Rule → Nat → Parser Expr
  | .expression => expression
  | .assignment => assignment
  | .logicOr => (operation · (some .or))
  | .logicAnd => (operation · (some .and))
  | .equality => (operation · (some .equality))
  | .comparison => (operation · (some .comparison))
  | .term => (operation · (some .term))
  | .factor => (operation · (some .factor))
  | .unary => unary
  | .call => call
  | .primary => primary

theorem parserOf_levelRule (level : Level) (n : Nat) :
    parserOf (levelRule level) n = operation n (some level) := by
  cases level <;> rfl

theorem binary?_eq_some {b : BinaryRule} (h : r.binary? = some b) :
    ∃ level, r = levelRule level ∧
      b = ⟨operandRule level.tighter, level.operators, level.combine⟩ := by
  cases r <;> cases h
  · exact ⟨.or, rfl, rfl⟩
  · exact ⟨.and, rfl, rfl⟩
  · exact ⟨.equality, rfl, rfl⟩
  · exact ⟨.comparison, rfl, rfl⟩
  · exact ⟨.term, rfl, rfl⟩
  · exact ⟨.factor, rfl, rfl⟩

theorem levelRule_injective {level level' : Level} (h : levelRule level = levelRule level') :
    level = level' := by
  cases level <;> cases level' <;> first | rfl | cases h

/-- `Rule.depth` where the operands of a level are read. -/
def operandDepth : Option Level → Nat
  | some level => (levelRule level).depth
  | none => Rule.unary.depth + 1

theorem operandDepth_tighter (level : Level) :
    operandDepth level.tighter + 1 = (levelRule level).depth := by
  cases level <;> rfl

/-- An operator continues none of its operands. -/
theorem looseness_operator {level : Level} {kind : TokenKind} (member : kind ∈ level.operators) :
    (operandRule level.tighter).looseness < looseness kind := by
  cases level <;> simp only [Level.operators, List.mem_cons, List.not_mem_nil, or_false] at member
  · subst member; decide
  · subst member; decide
  · rcases member with rfl | rfl <;> decide
  · rcases member with rfl | rfl | rfl | rfl <;> decide
  · rcases member with rfl | rfl <;> decide
  · rcases member with rfl | rfl <;> decide

/-- The parser of a rule accepts what is derived by it. -/
def Complete (r : Rule) (i : NodeId) (ts : List Token) (e : Expr) (j : NodeId) : Prop :=
  ∀ n rest, Enough r ts n → Stops r rest → Accepts (parserOf r n) i ts rest e j

/-- Where a rule of operators derives `ts`, its parser goes on as the loop behind that operand. -/
def CompleteLevel (r : Rule) (i : NodeId) (ts : List Token) (e : Expr) (j : NodeId) : Prop :=
  ∀ level, r = levelRule level → ∀ n us rest result k, Enough r ts n →
    Stops (operandRule level.tighter) (us ++ rest) →
    (∀ m, n ≤ m + ts.length → Accepts (operations m level e) j us rest result k) →
    Accepts (operation n (some level)) i (ts ++ us) rest result k

/-- The same for calls. -/
def CompleteCall (r : Rule) (i : NodeId) (ts : List Token) (e : Expr) (j : NodeId) : Prop :=
  r = .call → ∀ n us rest result k, Enough r ts n →
    (∀ m, n ≤ m + ts.length → Accepts (calls m e) j us rest result k) →
    Accepts (call n) i (ts ++ us) rest result k

/-- The operand of a level, read by its parser. -/
theorem Complete.operand {level : Option Level} {n : Nat}
    (h : Complete (operandRule level) i ts e j)
    (enough : operandDepth level + 16 * ts.length ≤ n + 16)
    (stops : Stops (operandRule level) rest) (pos : 0 < ts.length) :
    Accepts (operation n level) i ts rest e j := by
  cases level with
  | some level =>
    rw [← parserOf_levelRule]
    exact h n rest enough stops
  | none =>
    simp only [operandDepth, Rule.depth] at enough
    cases n with
    | zero => omega
    | succ n => exact h n rest (by simp only [Enough, operandRule, Rule.depth]; omega) stops

theorem completeLevel_operand {b : BinaryRule} (rule : r.binary? = some b)
    (h : Complete b.operand i ts e j) (pos : 0 < ts.length) : CompleteLevel r i ts e j := by
  rintro level rfl n us rest result k enough stops loop
  obtain ⟨level', same, rfl⟩ := binary?_eq_some rule
  obtain rfl := levelRule_injective same
  have deeper := operandDepth_tighter level
  unfold Enough at enough
  cases n with
  | zero => omega
  | succ n =>
    rw [operation]
    exact (h.operand (by omega) stops pos).bind (loop n (by omega))

theorem completeLevel_binary {b : BinaryRule} {left right : Expr} {operator : Token}
    (rule : r.binary? = some b) (hleft : CompleteLevel r i ts left j)
    (member : operator.kind ∈ b.operators) (hright : Complete b.operand j us right k)
    (pos : 0 < us.length) :
    CompleteLevel r i (ts ++ operator :: us) (b.node left operator right) k := by
  rintro level rfl n vs rest result l enough stops loop
  obtain ⟨level', same, rfl⟩ := binary?_eq_some rule
  obtain rfl := levelRule_injective same
  have deeper := operandDepth_tighter level
  simp only [Enough, List.length_append, List.length_cons] at enough loop
  rw [List.append_assoc]
  refine hleft level rfl n _ rest result l (by unfold Enough; omega) ?_ fun m deep => ?_
  · exact stops_cons (looseness_operator member)
  · cases m with
    | zero => omega
    | succ m =>
      rw [operations]
      refine (accepts_acceptAny member).bind ?_
      exact (hright.operand (by omega) stops pos).bind (loop m (by omega))

/-- Behind the last operand the loop of a level ends. -/
theorem CompleteLevel.complete {l : Level} (h : CompleteLevel (levelRule l) i ts e j)
    (pos : 0 < ts.length) : Complete (levelRule l) i ts e j := by
  intro n rest enough stops
  rw [parserOf_levelRule, ← List.append_nil ts]
  refine h l rfl n [] rest e j enough (stops.mono ?_) fun m deep => ?_
  · cases l <;> decide
  · have deep' : 5 ≤ (levelRule l).depth := by cases l <;> decide
    unfold Enough at enough
    cases m with
    | zero => omega
    | succ m =>
      rw [operations]
      refine (accepts_acceptAny_none (stops.nextNot ?_)).look Accepts.pure
      cases l <;> decide

theorem complete_unary {operator : Token} (kind : operator.kind = .bang ∨ operator.kind = .minus)
    (h : Complete .unary i ts e j) : Complete .unary i (operator :: ts) (.unary operator e) j := by
  intro n rest enough stops
  simp only [Enough, List.length_cons, Rule.depth] at enough
  cases n with
  | zero => omega
  | succ n =>
    show Accepts (unary (n + 1)) i (operator :: ts) rest _ j
    rw [unary]
    refine (accepts_acceptAny (t := operator) (by simpa using kind)).bind ?_
    rw [← List.append_nil ts]
    exact (h n rest (by simp only [Enough, Rule.depth]; omega) stops).bind (u := []) Accepts.pure

theorem complete_operatorless (h : Derives .call i ts e j) (hc : Complete .call i ts e j) :
    Complete .unary i ts e j := by
  intro n rest enough stops
  simp only [Enough, Rule.depth] at enough
  have pos := h.pos
  cases n with
  | zero => omega
  | succ n =>
    show Accepts (unary (n + 1)) i ts rest _ j
    rw [unary]
    refine (accepts_acceptAny_none ?_).look
      (hc n rest (by simp only [Enough, Rule.depth]; omega) stops)
    obtain ⟨t, us, rfl, notBang, notMinus⟩ := h.firstCall
    simpa [NextNot] using ⟨notBang, notMinus⟩

theorem completeCall_atom (h : Complete .primary i ts e j) (pos : 0 < ts.length) :
    CompleteCall .call i ts e j := by
  rintro - n us rest result k enough loop
  simp only [Enough, Rule.depth] at enough
  cases n with
  | zero => omega
  | succ n =>
    rw [call]
    refine Accepts.bind (h n _ (by simp only [Enough, Rule.depth]; omega) (stops_primary _)) ?_
    exact loop n (by omega)

/-- Behind the last call the loop ends. -/
theorem CompleteCall.complete (h : CompleteCall .call i ts e j) (pos : 0 < ts.length) :
    Complete .call i ts e j := by
  intro n rest enough stops
  show Accepts (call n) i ts rest e j
  rw [← List.append_nil ts]
  refine h rfl n [] rest e j enough fun m deep => ?_
  simp only [Enough, Rule.depth] at enough
  cases m with
  | zero => omega
  | succ m =>
    rw [calls]
    exact (accepts_acceptAny_none (stops.nextNot (by decide))).look Accepts.pure

theorem completeCall_get {dot name : Token} (h : CompleteCall .call i ts e j)
    (isDot : dot.kind = .dot) (identifier : name.kind = .identifier) :
    CompleteCall .call i (ts ++ [dot, name]) (.get e name) j := by
  rintro - n us rest result k enough loop
  simp only [Enough, Rule.depth, List.length_append, List.length_cons, List.length_nil]
    at enough loop
  rw [List.append_assoc]
  refine h rfl n _ rest result k (by simp only [Enough, Rule.depth]; omega) fun m deep => ?_
  cases m with
  | zero => omega
  | succ m =>
    rw [calls]
    refine (accepts_acceptAny (t := dot) (by simp [isDot])).bind (u := name :: us) ?_
    dsimp only
    rw [if_pos isDot]
    exact (accepts_expect identifier).bind (loop m (by omega))

/-- The parsers of comma-separated assignments accept what is derived, behind the items already
read. -/
structure CompleteList (i : NodeId) (ts : List Token) (es : List Expr) (j : NodeId) : Prop where
  items : ∀ n rest done comma, 13 + 16 * ts.length ≤ n + 16 → comma.kind = .comma →
    Stops .expression rest →
    Accepts (items n done) i (comma :: ts) rest (.sequence (done.reverse ++ es)) j
  arguments : ∀ n rest done, 13 + 16 * ts.length ≤ n + 16 → Stops .expression rest →
    done.length + es.length ≤ listLimit →
    Accepts (moreArguments n done) i ts rest (done.reverse ++ es) j

theorem stops_comma {comma : Token} (kind : comma.kind = .comma) :
    Stops .assignment (comma :: rest) :=
  stops_cons (by rw [kind]; decide)

theorem completeList_one (h : Complete .assignment i ts e j) (pos : 0 < ts.length) :
    CompleteList i ts [e] j where
  items n rest done comma enough isComma stops := by
    cases n with
    | zero => omega
    | succ n =>
      rw [items, ← List.append_nil (comma :: ts)]
      refine (accepts_accept isComma).bind (u := ts ++ []) ?_
      refine (h n _ (by simp only [Enough, Rule.depth]; omega) (stops.mono (by decide))).bind ?_
      cases n with
      | zero => omega
      | succ n =>
        rw [items]
        refine (accepts_accept_none (stops.nextNot (by decide))).look ?_
        simpa using Accepts.pure
  arguments n rest done enough stops short := by
    cases n with
    | zero => omega
    | succ n =>
      have room : ¬ maxArity ≤ done.length := Nat.not_le.2 short
      rw [moreArguments, if_neg room, ← List.append_nil ts]
      refine (h n _ (by simp only [Enough, Rule.depth]; omega) (stops.mono (by decide))).bind ?_
      refine (accepts_accept_none (stops.nextNot (by decide))).look ?_
      simpa using Accepts.pure

theorem completeList_more {comma : Token} (h : Complete .assignment i ts e j)
    (pos : 0 < ts.length) (isComma : comma.kind = .comma) (hs : CompleteList j us es k) :
    CompleteList i (ts ++ comma :: us) (e :: es) k where
  items n rest done comma' enough isComma' stops := by
    simp only [List.length_append, List.length_cons] at enough
    cases n with
    | zero => omega
    | succ n =>
      rw [items]
      refine (accepts_accept isComma').bind (u := ts ++ comma :: us) ?_
      refine (h n _ (by simp only [Enough, Rule.depth]; omega) (stops_comma isComma)).bind ?_
      simpa using hs.items n rest (e :: done) comma (by omega) isComma stops
  arguments n rest done enough stops short := by
    simp only [List.length_append, List.length_cons] at enough short
    cases n with
    | zero => omega
    | succ n =>
      have room : ¬ maxArity ≤ done.length := by
        simp only [listLimit] at short
        simp only [maxArity]
        omega
      rw [moreArguments, if_neg room]
      refine (h n _ (by simp only [Enough, Rule.depth]; omega) (stops_comma isComma)).bind ?_
      refine (accepts_accept isComma).bind (u := us) ?_
      have := hs.arguments n rest (e :: done) (by omega) stops
        (by simp only [List.length_cons]; omega)
      simpa using this

/-- The parser of the arguments of a call accepts what is derived before the closing
parenthesis. -/
def CompleteArguments (i : NodeId) (ts : List Token) (es : List Expr) (j : NodeId) : Prop :=
  ∀ n rest closing, 14 + 16 * ts.length ≤ n → closing.kind = .rightParen →
    Accepts (arguments n) i ts (closing :: rest) es j

theorem completeArguments_none : CompleteArguments i [] [] i := by
  intro n rest closing enough isClosing
  cases n with
  | zero => omega
  | succ n =>
    rw [arguments]
    exact (accepts_check isClosing).look Accepts.pure

theorem Assignments.first {i j : NodeId} {ts : List Token} {es : List Expr}
    (h : Assignments i ts es j) : ∃ e us vs k, ts = us ++ vs ∧ Derives .assignment i us e k := by
  cases h with
  | one h => exact ⟨_, _, [], _, by simp, h⟩
  | more h => exact ⟨_, _, _, _, rfl, h⟩

theorem completeArguments_some (h : Assignments i ts es j) (hs : CompleteList i ts es j)
    (short : es.length ≤ listLimit) : CompleteArguments i ts es j := by
  intro n rest closing enough isClosing
  cases n with
  | zero => omega
  | succ n =>
    rw [arguments]
    refine (accepts_check_false ?_).look ?_
    · obtain ⟨e, us, vs, k, rfl, first⟩ := h.first
      rw [List.append_assoc]
      exact first.nextNot (by decide)
    · exact hs.arguments n _ [] (by omega) (stops_cons (by rw [isClosing]; decide))
        (by simpa using short)

theorem completeCall_call {opening closing : Token} (h : CompleteCall .call i ts e j)
    (isOpening : opening.kind = .leftParen) (hs : CompleteArguments j us es k)
    (isClosing : closing.kind = .rightParen) :
    CompleteCall .call i (ts ++ opening :: (us ++ [closing])) (.call e closing es) k := by
  rintro - n vs rest result l enough loop
  simp only [Enough, Rule.depth, List.length_append, List.length_cons, List.length_nil]
    at enough loop
  rw [List.append_assoc]
  refine h rfl n _ rest result l (by simp only [Enough, Rule.depth]; omega) fun m deep => ?_
  cases m with
  | zero => omega
  | succ m =>
    rw [calls]
    refine (accepts_acceptAny (t := opening) (by simp [isOpening])).bind
      (u := (us ++ [closing]) ++ vs) ?_
    dsimp only
    rw [if_neg (by rw [isOpening]; decide), List.append_assoc]
    refine (hs m _ closing (by omega) isClosing).bind ?_
    exact (accepts_expect isClosing).bind (loop m (by omega))

/-- What a call is, the looser rules are too. -/
theorem Complete.logicOr (h : Derives .call i ts e j) (hc : Complete .call i ts e j) :
    Complete .logicOr i ts e j := by
  have pos := h.pos
  have unary := complete_operatorless h hc
  have factor := (completeLevel_operand (r := .factor) rfl unary pos).complete (l := .factor) pos
  have term := (completeLevel_operand (r := .term) rfl factor pos).complete (l := .term) pos
  have comparison := (completeLevel_operand (r := .comparison) rfl term pos).complete
    (l := .comparison) pos
  have equality := (completeLevel_operand (r := .equality) rfl comparison pos).complete
    (l := .equality) pos
  have logicAnd := (completeLevel_operand (r := .logicAnd) rfl equality pos).complete
    (l := .and) pos
  exact (completeLevel_operand (r := .logicOr) rfl logicAnd pos).complete (l := .or) pos

theorem complete_operation (h : Complete .logicOr i ts e j) (pos : 0 < ts.length) :
    Complete .assignment i ts e j := by
  intro n rest enough stops
  simp only [Enough, Rule.depth] at enough
  cases n with
  | zero => omega
  | succ n =>
    show Accepts (assignment (n + 1)) i ts rest e j
    rw [assignment, ← List.append_nil ts]
    refine Accepts.bind (h n _ (by simp only [Enough, Rule.depth]; omega)
      (stops.mono (by decide))) ?_
    exact (accepts_accept_none (stops.nextNot (by decide))).look Accepts.pure

/-- An assignment to a target that is read as a call. -/
theorem complete_assigned {target value : Expr} {equals : Token} (h : Derives .call i ts target j)
    (hc : Complete .call i ts target j) (isEqual : equals.kind = .equal)
    (hv : Complete .assignment j us value k) (assigned : target.assigned? value = some e) :
    Complete .assignment i (ts ++ equals :: us) e k := by
  intro n rest enough stops
  have pos := h.pos
  simp only [Enough, Rule.depth, List.length_append, List.length_cons] at enough
  cases n with
  | zero => omega
  | succ n =>
    show Accepts (assignment (n + 1)) i (ts ++ equals :: us) rest e k
    rw [assignment]
    refine Accepts.bind (Complete.logicOr h hc n _ (by simp only [Enough, Rule.depth]; omega)
      (stops_cons (by rw [isEqual]; decide))) ?_
    rw [← List.append_nil us]
    refine (accepts_accept isEqual).bind (u := us ++ []) ?_
    refine Accepts.bind (hv n _ (by simp only [Enough, Rule.depth]; omega) stops) ?_
    rw [assigned]
    exact Accepts.pure

theorem complete_single (h : Complete .assignment i ts e j) (pos : 0 < ts.length) :
    Complete .expression i ts e j := by
  intro n rest enough stops
  simp only [Enough, Rule.depth] at enough
  cases n with
  | zero => omega
  | succ n =>
    show Accepts (expression (n + 1)) i ts rest e j
    rw [expression, ← List.append_nil ts]
    refine Accepts.bind (h n _ (by simp only [Enough, Rule.depth]; omega)
      (stops.mono (by decide))) ?_
    exact (accepts_check_false (stops.nextNot (by decide))).look Accepts.pure

theorem complete_sequence {comma : Token} (h : Complete .assignment i ts e j)
    (pos : 0 < ts.length) (isComma : comma.kind = .comma) (hs : CompleteList j us es k) :
    Complete .expression i (ts ++ comma :: us) (.sequence (e :: es)) k := by
  intro n rest enough stops
  simp only [Enough, Rule.depth, List.length_append, List.length_cons] at enough
  cases n with
  | zero => omega
  | succ n =>
    show Accepts (expression (n + 1)) i (ts ++ comma :: us) rest _ k
    rw [expression]
    refine (h n _ (by simp only [Enough, Rule.depth]; omega) (stops_comma isComma)).bind ?_
    refine (accepts_check isComma).look ?_
    exact hs.items n rest [e] comma (by omega) isComma stops

theorem complete_constant {t : Token} {c : Constant} (h : constant? t = some c) :
    Complete .primary i [t] (.constant c) i := by
  intro n rest enough stops
  simp only [Enough, Rule.depth] at enough
  cases n with
  | zero => simp at enough
  | succ n =>
    show Accepts (primary (n + 1)) i [t] rest _ i
    rw [primary]
    refine accepts_peek ?_
    unfold constant? at h
    split at h
    · next kind =>
      cases h
      rw [kind]
      exact accepts_advance Accepts.pure
    · next kind =>
      cases h
      rw [kind]
      exact accepts_advance Accepts.pure
    · next kind =>
      cases h
      rw [kind]
      exact accepts_advance Accepts.pure
    · next kind =>
      obtain ⟨literal, known, rfl⟩ := Option.map_eq_some_iff.1 h
      rw [kind, known]
      cases literal <;> exact accepts_advance Accepts.pure
    · next kind =>
      obtain ⟨literal, known, rfl⟩ := Option.map_eq_some_iff.1 h
      rw [kind, known]
      cases literal <;> exact accepts_advance Accepts.pure
    · cases h

theorem complete_super {keyword dot method : Token} (kind : keyword.kind = .kwSuper)
    (isDot : dot.kind = .dot) (identifier : method.kind = .identifier) :
    Complete .primary i [keyword, dot, method] (.super i keyword method) (i + 1) := by
  intro n rest enough stops
  simp only [Enough, Rule.depth] at enough
  cases n with
  | zero => simp at enough
  | succ n =>
    show Accepts (primary (n + 1)) i [keyword, dot, method] rest _ _
    rw [primary]
    refine accepts_peek ?_
    rw [kind]
    refine accepts_advance ((accepts_expect isDot).bind (u := [method]) ?_)
    refine (accepts_expect identifier).bind (u := []) ?_
    exact accepts_fresh.bind (u := []) Accepts.pure

theorem complete_this {keyword : Token} (kind : keyword.kind = .kwThis) :
    Complete .primary i [keyword] (.this i keyword) (i + 1) := by
  intro n rest enough stops
  simp only [Enough, Rule.depth] at enough
  cases n with
  | zero => simp at enough
  | succ n =>
    show Accepts (primary (n + 1)) i [keyword] rest _ _
    rw [primary]
    refine accepts_peek ?_
    rw [kind]
    exact accepts_advance (accepts_fresh.bind (u := []) Accepts.pure)

theorem complete_name {name : Token} (kind : name.kind = .identifier) :
    Complete .primary i [name] (.read ⟨i, name⟩) (i + 1) := by
  intro n rest enough stops
  simp only [Enough, Rule.depth] at enough
  cases n with
  | zero => simp at enough
  | succ n =>
    show Accepts (primary (n + 1)) i [name] rest _ _
    rw [primary]
    refine accepts_peek ?_
    rw [kind]
    exact accepts_advance (accepts_fresh.bind (u := []) Accepts.pure)

theorem complete_grouping {opening closing : Token} (kind : opening.kind = .leftParen)
    (h : Complete .expression i ts e j) (isClosing : closing.kind = .rightParen) :
    Complete .primary i (opening :: (ts ++ [closing])) (.grouping e) j := by
  intro n rest enough stops
  simp only [Enough, Rule.depth, List.length_append, List.length_cons, List.length_nil] at enough
  cases n with
  | zero => omega
  | succ n =>
    show Accepts (primary (n + 1)) i (opening :: (ts ++ [closing])) rest _ _
    rw [primary]
    refine accepts_peek ?_
    rw [kind]
    refine accepts_advance (Accepts.bind (h n _ (by simp only [Enough, Rule.depth]; omega)
      (stops_cons (by rw [isClosing]; decide))) ?_)
    exact (accepts_expect isClosing).bind (u := []) Accepts.pure

/-- What is shown of a derivation: for the left-recursive rules also the lemma about their loop. -/
def Accepted (r : Rule) (i : NodeId) (ts : List Token) (e : Expr) (j : NodeId) : Prop :=
  Complete r i ts e j ∧ CompleteLevel r i ts e j ∧ CompleteCall r i ts e j

theorem Complete.accepted (h : Complete r i ts e j) (notLevel : r.binary? = none)
    (notCall : r ≠ .call) : Accepted r i ts e j := by
  refine ⟨h, ?_, fun isCall => absurd isCall notCall⟩
  rintro level rfl
  rw [binary?_levelRule] at notLevel
  cases notLevel

theorem CompleteLevel.accepted {b : BinaryRule} (h : CompleteLevel r i ts e j)
    (rule : r.binary? = some b) (pos : 0 < ts.length) : Accepted r i ts e j := by
  obtain ⟨level, rfl, -⟩ := binary?_eq_some rule
  refine ⟨h.complete pos, h, fun isCall => ?_⟩
  rw [isCall] at rule
  cases rule

theorem CompleteCall.accepted (h : CompleteCall .call i ts e j) (pos : 0 < ts.length) :
    Accepted .call i ts e j := by
  refine ⟨h.complete pos, fun level isLevel => ?_, h⟩
  cases level <;> cases isLevel

mutual

theorem Derives.accepted {r : Rule} {i j : NodeId} {ts : List Token} {e : Expr} :
    Derives r i ts e j → Accepted r i ts e j
  | .single h => (complete_single h.accepted.1 h.pos).accepted rfl (by decide)
  | .sequence h isComma hs =>
    (complete_sequence h.accepted.1 h.pos isComma hs.accepted).accepted rfl (by decide)
  | .operation h => (complete_operation h.accepted.1 h.pos).accepted rfl (by decide)
  | .assign identifier isEqual hv =>
    have target := Derives.name identifier
    have call := (completeCall_atom (complete_name identifier) target.pos).complete target.pos
    (complete_assigned (.atom target) call isEqual hv.accepted.1 rfl).accepted rfl (by decide)
  | .set ho isDot identifier isEqual hv => by
    have target := Derives.get ho isDot identifier
    have call := (completeCall_get ho.accepted.2.2 isDot identifier).complete target.pos
    have := complete_assigned target call isEqual hv.accepted.1 rfl
    rw [List.append_assoc] at this
    exact this.accepted rfl (by decide)
  | .operand rule h => (completeLevel_operand rule h.accepted.1 h.pos).accepted rule h.pos
  | .binary rule hl member hr =>
    (completeLevel_binary rule hl.accepted.2.1 member hr.accepted.1 hr.pos).accepted rule
      (Derives.binary rule hl member hr).pos
  | .unary kind h => (complete_unary kind h.accepted.1).accepted rfl (by decide)
  | .operatorless h => (complete_operatorless h h.accepted.1).accepted rfl (by decide)
  | .atom h => (completeCall_atom h.accepted.1 h.pos).accepted h.pos
  | .call h isOpening hs isClosing =>
    (completeCall_call h.accepted.2.2 isOpening hs.accepted isClosing).accepted
      (Derives.call h isOpening hs isClosing).pos
  | .get h isDot identifier =>
    (completeCall_get h.accepted.2.2 isDot identifier).accepted
      (Derives.get h isDot identifier).pos
  | .constant h => (complete_constant h).accepted rfl (by decide)
  | .super kind isDot identifier =>
    (complete_super kind isDot identifier).accepted rfl (by decide)
  | .this kind => (complete_this kind).accepted rfl (by decide)
  | .name kind => (complete_name kind).accepted rfl (by decide)
  | .grouping kind h isClosing =>
    (complete_grouping kind h.accepted.1 isClosing).accepted rfl (by decide)

theorem Assignments.accepted {i j : NodeId} {ts : List Token} {es : List Expr} :
    Assignments i ts es j → CompleteList i ts es j
  | .one h => completeList_one h.accepted.1 h.pos
  | .more h isComma hs => completeList_more h.accepted.1 h.pos isComma hs.accepted

theorem Arguments.accepted {i j : NodeId} {ts : List Token} {es : List Expr} :
    Arguments i ts es j → CompleteArguments i ts es j
  | .none => completeArguments_none
  | .some hs short => completeArguments_some hs hs.accepted short

end

theorem accepts_expression {n : Nat} (h : Derives .expression i ts e j)
    (enough : 12 + 16 * ts.length ≤ n + 16) (stops : Stops .expression rest) :
    Accepts (expression n) i ts rest e j :=
  h.accepted.1 n rest enough stops

theorem accepts_assignment {n : Nat} (h : Derives .assignment i ts e j)
    (enough : 11 + 16 * ts.length ≤ n + 16) (stops : Stops .assignment rest) :
    Accepts (assignment n) i ts rest e j :=
  h.accepted.1 n rest enough stops

end Treewalk.Grammar
