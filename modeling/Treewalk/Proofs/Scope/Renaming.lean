import Mathlib.Data.List.Nodup
import Treewalk.Proofs.Scope.Accepted
import Treewalk.Proofs.Scope.Covered
import Treewalk.Proofs.Scope.Distinct
import Treewalk.Proofs.Scope.Layout

/-!
# Renaming a local variable

A declaration in a scope and the uses that its scope is found for get another name, one that the
program does not mention. What results resolves, with the same distances, and every name in it is
found where it was.
-/

namespace Treewalk

/-- One name for another, and all else as it was. -/
def Relabel.renaming (x y : String) : Relabel :=
  ⟨fun i => i, fun line => line, fun name => if name = x then y else name⟩

/-- Among names that are all changed the name is found where it was; a global keeps its name. -/
structure Relabel.Finds (r : Relabel) (names : List String) (name : String) : Prop where
  place : (names.map r.name).idxOf (r.name name) = names.idxOf name
  global : name ∉ names → r.name name = name

/-- What a mention means stays the same. -/
def Relabel.Keeps (r : Relabel) : Occurrence → Prop
  | ⟨.use .read ref, c⟩ | ⟨.use .write ref, c⟩ => r.Finds c.names ref.name.lexeme
  | ⟨.use .this _, _⟩ | ⟨.use .super _, _⟩ => True
  | ⟨.declare name, c⟩ => c = [] → r.name name.lexeme = name.lexeme

namespace Relabel

variable {r r' : Relabel} {names : List String} {name : String}

theorem idxOf_map {f : String → String} (h : ∀ other ∈ names, f other = f name → other = name) :
    (names.map f).idxOf (f name) = names.idxOf name := by
  induction names with
  | nil => rfl
  | cons first rest ih =>
    obtain ⟨here, there⟩ := List.forall_mem_cons.1 h
    rw [List.map_cons]
    by_cases same : first = name
    · rw [List.idxOf_cons_eq _ same, List.idxOf_cons_eq _ (congrArg f same)]
    · rw [List.idxOf_cons_ne _ same, List.idxOf_cons_ne _ fun equal => same (here equal), ih there]

/-- If the changed names are distinct, so were the names before. -/
theorem injOn_of_nodup {f : String → String} (h : (names.map f).Nodup) (member : name ∈ names) :
    ∀ other ∈ names, f other = f name → other = name :=
  fun _ listed equal => List.inj_on_of_nodup_map h listed member equal

/-- What finds a name through two changes finds it through the second one. -/
theorem Finds.second (h : r.Finds names name) {r₀ r₁ : Relabel}
    (both : ∀ other ∈ name :: names, r₁.name (r₀.name other) = r.name other)
    (apart : ∀ other ∈ names, r₀.name other = r₀.name name → other = name)
    (global : name ∉ names → r₀.name name = name) :
    r₁.Finds (names.map r₀.name) (r₀.name name) where
  place := by
    have changed : (names.map r₀.name).map r₁.name = names.map r.name := by
      rw [List.map_map]
      exact List.map_congr_left fun other member => both other (.tail _ member)
    rw [changed, both name (.head _), h.place, idxOf_map apart]
  global missing := by
    have absent : name ∉ names := fun member => missing (List.mem_map_of_mem member)
    rw [both name (.head _), global absent, h.global absent]

end Relabel

theorem LexicalScope.own_relabel (r : Relabel) (s : LexicalScope) :
    (s.relabel r).own = s.own.map r.name := by
  obtain ⟨site, names, pending⟩ := s
  rw [LexicalScope.own, LexicalScope.own, List.map_append]
  cases pending <;> rfl

theorem Context.names_relabel (r : Relabel) (c : Context) :
    (c.relabel r).names = c.names.map r.name := by
  induction c with
  | nil => rfl
  | cons s outer ih =>
    simp only [Context.names, Context.relabel, List.map_cons, List.flatMap_cons, List.map_append]
      at ih ⊢
    rw [ih, LexicalScope.own_relabel]

namespace Context

variable {r : Relabel} {c : Context} {name : String}

/-- A name that no other one is changed to keeps its distance. -/
theorem distance?_relabel (h : ∀ other ∈ c.names, r.name other = r.name name → other = name) :
    (c.relabel r).distance? (r.name name) = c.distance? name := by
  induction c with
  | nil => rfl
  | cons s outer ih =>
    rw [Context.names, List.flatMap_cons, List.forall_mem_append] at h
    have same : (s.relabel r).Declares (r.name name) ↔ s.Declares name := by
      rw [LexicalScope.declares_iff, LexicalScope.declares_iff, LexicalScope.own_relabel,
        List.mem_map]
      constructor
      · rintro ⟨other, member, equal⟩
        exact h.1 other member equal ▸ member
      · exact fun member => ⟨name, member, rfl⟩
    rw [Context.relabel, List.map_cons, Context.distance?, Context.distance?]
    simp only [same]
    rw [← Context.relabel, ih h.2]

/-- The distance of `x` leads to a scope that declares `y`, when the names are changed. -/
def Leads (r : Relabel) (around : Context) (x y : String) : Prop :=
  ∃ d scope, (around.relabel r).distance? x = some d ∧ around[d]? = some scope ∧
    scope.Declares y

theorem leads_cons {s : LexicalScope} {x y : String} :
    Leads r (s :: c) x y ↔
      if (s.relabel r).Declares x then s.Declares y else Leads r c x y := by
  unfold Leads
  rw [Context.relabel, List.map_cons, Context.distance?]
  split
  · constructor
    · rintro ⟨d, scope, zero, at_, declares⟩
      cases zero
      cases at_
      exact declares
    · exact fun declares => ⟨0, s, rfl, rfl, declares⟩
  · constructor
    · rintro ⟨d, scope, found, at_, declares⟩
      obtain ⟨n, further, rfl⟩ := Option.map_eq_some_iff.1 found
      exact ⟨n, scope, further, at_, declares⟩
    · rintro ⟨d, scope, found, at_, declares⟩
      exact ⟨d + 1, scope, Option.map_eq_some_iff.2 ⟨d, found, rfl⟩, at_, declares⟩

/-- A name that is changed to `x` and is where `x` is found afterwards keeps its place and its
distance. -/
theorem finds_of_leads {x : String} (distinct : (c.relabel r).Distinct) (change : r.name name = x)
    (leads : (c.relabel r).distance? x ≠ none → Leads r c x name) :
    (c.names.map r.name).idxOf x = c.names.idxOf name ∧
      (c.relabel r).distance? x = c.distance? name ∧
      ((c.relabel r).distance? x ≠ none → name ∈ c.names) := by
  induction c with
  | nil => exact ⟨rfl, rfl, fun found => absurd rfl found⟩
  | cons s outer ih =>
    obtain ⟨own, others⟩ := List.forall_mem_cons.1 distinct
    rw [LexicalScope.own_relabel] at own
    rw [leads_cons] at leads
    rw [Context.names, List.flatMap_cons, ← Context.names, List.map_append]
    by_cases here : (s.relabel r).Declares x
    · rw [if_pos here] at leads
      have found : Context.distance? x (Context.relabel r (s :: outer)) = some 0 := by
        rw [Context.relabel, List.map_cons, Context.distance?, if_pos here]
      have declares : s.Declares name := leads (by rw [found]; exact Option.some_ne_none 0)
      have member : name ∈ s.own := LexicalScope.declares_iff.1 declares
      rw [LexicalScope.declares_iff, LexicalScope.own_relabel] at here
      refine ⟨?_, ?_, fun _ => List.mem_append_left _ member⟩
      · rw [List.idxOf_append_of_mem here, List.idxOf_append_of_mem member, ← change]
        exact Relabel.idxOf_map (Relabel.injOn_of_nodup own member)
      · rw [found, Context.distance?, if_pos declares]
    · rw [if_neg here] at leads
      have found : Context.distance? x (Context.relabel r (s :: outer)) =
          ((Context.relabel r outer).distance? x).map (· + 1) := by
        rw [Context.relabel, List.map_cons, Context.distance?, if_neg here]
        rfl
      rw [LexicalScope.declares_iff, LexicalScope.own_relabel] at here
      have missing : name ∉ s.own := fun member => here (change ▸ List.mem_map_of_mem member)
      have further : Context.distance? x (Context.relabel r outer) ≠ none →
          Context.distance? x (Context.relabel r (s :: outer)) ≠ none := by
        intro some none
        rw [found, Option.map_eq_none_iff] at none
        exact some none
      obtain ⟨place, distance, member⟩ := ih others fun some => leads (further some)
      refine ⟨?_, ?_, fun some => List.mem_append_right _ (member fun none => some ?_)⟩
      · rw [List.idxOf_append_of_notMem here, List.idxOf_append_of_notMem missing, place,
          List.length_map]
      · rw [found, distance, Context.distance?,
          if_neg fun declares => missing (LexicalScope.declares_iff.1 declares)]
      · rw [found, none, Option.map_none]

end Context

/-- A program in which one variable of a scope, that was `x`, is `y`. For each variable of a scope
there is one (`Accepted.exists_renames`). -/
structure Renames (x y : String) (c : Compiled) (program' : List Stmt) : Prop where
  /-- With `x` back in place of `y` it is the old program. -/
  back : Stmt.relabelAll (.renaming y x) program' = c.program
  identifier : ∀ kind, (y, kind) ∉ TokenKind.keywords
  /-- The old program does not mention `y`. -/
  unused : ∀ o ∈ occurrences c.program, o.mention.token.lexeme ≠ y
  /-- One declaration has the new name, and it stands in a scope. -/
  declaration : ∃ before name scope outer after,
    occurrences program' = before ++ ⟨.declare name, scope :: outer⟩ :: after ∧
      name.lexeme = y ∧ ∀ o ∈ before ++ after, ¬ o.Declares y
  /-- So have just those uses of the old name whose distance leads to the scope that now declares
  the new one. -/
  uses : ∀ p ∈ (occurrences c.program).zip (occurrences program'), ∀ role ref,
    p.2.mention = .use role ref → (role = .read ∨ role = .write) →
    (ref.name.lexeme = y ↔ p.1.mention.token.lexeme = x ∧ ∃ d scope,
      (Distances.addAll ∅ c.distances).get? ref.id = some d ∧ p.2.context[d]? = some scope ∧
        scope.Declares y)

/-- Mentions beside those that they were changed to. -/
theorem Occurrence.mem_zip_relabel {r : Relabel} {os : List Occurrence}
    {p : Occurrence × Occurrence} :
    p ∈ (os.map (Occurrence.relabel r)).zip os ↔ ∃ o ∈ os, (o.relabel r, o) = p := by
  have both : (os.map (Occurrence.relabel r)).zip (os.map id) =
      os.map fun o => (o.relabel r, o) := List.zip_map' ..
  rw [List.map_id] at both
  rw [both, List.mem_map]

variable {x y : String} {c : Compiled} {program' : List Stmt} {first next : NodeId}

theorem Ordinary.of_identifier (h : ∀ kind, (y, kind) ∉ TokenKind.keywords) : Ordinary y := by
  refine ⟨fun same => h .kwThis ?_, fun same => h .kwSuper ?_⟩ <;> rw [same] <;> decide

theorem Relabel.fixes_renaming (ordinary : Ordinary y) (x : String) :
    (Relabel.renaming y x).Fixes :=
  ⟨if_neg ordinary.1.symm, if_neg ordinary.2.symm⟩

namespace Accepted

variable (accepted : Accepted first c next)
  (back : Stmt.relabelAll (.renaming y x) program' = c.program)
include accepted back

/-- Functions and classes have the names that they have in the old program. -/
theorem tidy_of_back {named : String → Prop}
    (all : ∀ o ∈ occurrences c.program, named o.mention.token.lexeme) :
    Stmt.AllTidy named program' := by
  rw [← Stmt.allTidy_relabel (r := .renaming y x), back]
  refine Stmt.allTidy_of_regular [] _ accepted.regular fun o occurs name declares => ?_
  obtain ⟨token, same, rfl⟩ := declares
  have wanted := all o occurs
  rw [same] at wanted
  exact wanted

/-- The mentions are those of the old program, under the other name. -/
theorem occurrences_of_back (ordinary : Ordinary y)
    (unused : ∀ o ∈ occurrences c.program, o.mention.token.lexeme ≠ y) :
    occurrences c.program = (occurrences program').map (Occurrence.relabel (.renaming y x)) := by
  rw [← back]
  exact Stmt.allOccurrences_relabel (Relabel.fixes_renaming ordinary x) [] program'
    (accepted.tidy_of_back back fun o occurs => if_neg (unused o occurs))

end Accepted

namespace Renames

variable (h : Renames x y c program')

theorem renaming_other {name : String} (other : name ≠ y) :
    (Relabel.renaming y x).name name = name := if_neg other

theorem renaming_self : (Relabel.renaming y x).name y = x := if_pos rfl

include h

theorem ordinary : Ordinary y := .of_identifier h.identifier

theorem fixes : (Relabel.renaming y x).Fixes := Relabel.fixes_renaming h.ordinary x

variable (accepted : Accepted first c next)
include accepted

theorem tidy : Stmt.AllTidy (Relabel.renaming y x).Named program' :=
  accepted.tidy_of_back h.back fun o occurs => renaming_other (h.unused o occurs)

theorem occurrences_eq :
    occurrences c.program = (occurrences program').map (Occurrence.relabel (.renaming y x)) :=
  accepted.occurrences_of_back h.back h.ordinary h.unused

theorem occurs {o : Occurrence} (member : o ∈ occurrences program') :
    o.relabel (.renaming y x) ∈ occurrences c.program := by
  rw [h.occurrences_eq accepted]
  exact List.mem_map_of_mem member

/-- A variable has the new name where its distance leads to the renamed declaration. -/
theorem uses_iff {role : Role} {ref : Variable} {context : Context}
    (member : ⟨.use role ref, context⟩ ∈ occurrences program')
    (named : role = .read ∨ role = .write) :
    ref.name.lexeme = y ↔ (Relabel.renaming y x).name ref.name.lexeme = x ∧
      context.Leads (.renaming y x) x y := by
  have old := h.occurs accepted member
  have pair : (Occurrence.relabel (.renaming y x) ⟨.use role ref, context⟩,
      (⟨.use role ref, context⟩ : Occurrence)) ∈
        (occurrences c.program).zip (occurrences program') := by
    rw [h.occurrences_eq accepted]
    exact Occurrence.mem_zip_relabel.2 ⟨_, member, rfl⟩
  have token : role.relabel (.renaming y x) ref.name = ref.name.rename (.renaming y x) := by
    rcases named with rfl | rfl <;> rfl
  have distance : (Distances.addAll ∅ c.distances).get? ref.id =
      Context.distance? ((Relabel.renaming y x).name ref.name.lexeme)
        (context.relabel (.renaming y x)) := by
    rw [accepted.distances_eq]
    have none : ∀ id ∈ (occurrences c.program).filterMap Occurrence.id?,
        (∅ : Distances).get? id = none := fun _ _ => rfl
    have found := Distances.get?_addAll_use accepted.unique none old
    rw [token] at found
    exact found
  rw [h.uses _ pair role ref rfl named]
  have lexeme : (Occurrence.relabel (.renaming y x) ⟨.use role ref, context⟩).mention.token.lexeme =
      (Relabel.renaming y x).name ref.name.lexeme := congrArg Token.lexeme token
  rw [lexeme, distance]
  constructor
  · rintro ⟨same, d, scope, found, at_, declares⟩
    rw [same] at found
    exact ⟨same, d, scope, found, at_, declares⟩
  · rintro ⟨same, d, scope, found, at_, declares⟩
    refine ⟨same, d, scope, ?_, at_, declares⟩
    rw [same]
    exact found

/-- The name that was given up is the name of a variable. -/
theorem ordinary_old : Ordinary x := by
  obtain ⟨before, name, scope, outer, after, split, same, -⟩ := h.declaration
  have member : ⟨.declare name, scope :: outer⟩ ∈ occurrences program' := by
    rw [split]
    exact List.mem_append_right _ (.head _)
  have lexed : Ordinary ((Relabel.renaming y x).name name.lexeme) :=
    accepted.lexed _ (h.occurs accepted member)
  rw [same, renaming_self] at lexed
  exact lexed

/-- A variable is found where it was, and at the same distance. -/
theorem finds {role : Role} {ref : Variable} {context : Context}
    (member : ⟨.use role ref, context⟩ ∈ occurrences program')
    (named : role = .read ∨ role = .write) :
    (Relabel.renaming y x).Finds context.names ref.name.lexeme ∧
      (context.relabel (.renaming y x)).distance?
          ((Relabel.renaming y x).name ref.name.lexeme) =
        context.distance? ref.name.lexeme := by
  have bound := h.uses_iff accepted member named
  have distinct : (context.relabel (.renaming y x)).Distinct :=
    occurrences_distinct accepted.admissible _ (h.occurs accepted member)
  generalize ref.name.lexeme = name at bound ⊢
  by_cases new : name = y
  · subst new
    obtain ⟨-, leads⟩ := bound.1 rfl
    obtain ⟨place, distance, inside⟩ :=
      Context.finds_of_leads distinct renaming_self fun _ => leads
    have member : name ∈ context.names := by
      obtain ⟨d, scope, found, -⟩ := leads
      exact inside (by rw [found]; exact Option.some_ne_none d)
    rw [renaming_self]
    refine ⟨⟨?_, fun missing => absurd member missing⟩, distance⟩
    rw [renaming_self, place]
  · have same : (Relabel.renaming y x).name name = name := renaming_other new
    by_cases old : name = x
    · subst old
      have leads : (context.relabel (.renaming y name)).distance? name ≠ none →
          context.Leads (.renaming y name) name name := by
        intro found
        obtain ⟨d, found⟩ := Option.ne_none_iff_exists'.1 found
        obtain ⟨scope', at_', declares, -⟩ := Context.distance?_eq_some found
        rw [Context.relabel, List.getElem?_map] at at_'
        obtain ⟨scope, at_, rfl⟩ := Option.map_eq_some_iff.1 at_'
        rw [LexicalScope.declares_iff, LexicalScope.own_relabel] at declares
        obtain ⟨other, listed, equal⟩ := List.mem_map.1 declares
        have here : scope.Declares other := LexicalScope.declares_iff.2 listed
        by_cases this : other = y
        · subst this
          exact absurd (bound.2 ⟨same, d, scope, found, at_, here⟩) new
        · rw [renaming_other this] at equal
          exact ⟨d, scope, found, at_, equal ▸ here⟩
      obtain ⟨place, distance, -⟩ := Context.finds_of_leads distinct same leads
      rw [same]
      exact ⟨⟨by rw [same]; exact place, fun _ => same⟩, distance⟩
    · have apart : ∀ other ∈ context.names, (Relabel.renaming y x).name other =
          (Relabel.renaming y x).name name → other = name := by
        intro other _ equal
        rw [same] at equal
        by_cases this : other = y
        · rw [this, renaming_self] at equal
          exact absurd equal.symm old
        · rw [renaming_other this] at equal
          exact equal
      exact ⟨⟨Relabel.idxOf_map apart, fun _ => same⟩, Context.distance?_relabel apart⟩

/-- Every mention means what it did. -/
theorem keeps {o : Occurrence} (member : o ∈ occurrences program') :
    (Relabel.renaming y x).Keeps o := by
  obtain ⟨mention, context⟩ := o
  cases mention with
  | use role ref =>
    cases role with
    | read => exact (h.finds accepted member (.inl rfl)).1
    | write => exact (h.finds accepted member (.inr rfl)).1
    | this | super => trivial
  | declare name =>
    intro top
    subst top
    refine renaming_other fun new => ?_
    obtain ⟨before, name', scope, outer, after, split, -, others⟩ := h.declaration
    rw [split, List.mem_append, List.mem_cons] at member
    rcases member with member | same | member
    · exact others _ (List.mem_append_left _ member) ⟨name, rfl, new⟩
    · cases same
    · exact others _ (List.mem_append_right _ member) ⟨name, rfl, new⟩

/-- A keyword has the distance that it had. -/
theorem distance_keyword {name : String} (special : ¬ Ordinary name) (context : Context) :
    (context.relabel (.renaming y x)).distance? name = context.distance? name := by
  have other : name ≠ y := fun same => special (same ▸ h.ordinary)
  have old : name ≠ x := fun same => special (same ▸ h.ordinary_old accepted)
  have same : (Relabel.renaming y x).name name = name := renaming_other other
  refine Eq.trans ?_ (Context.distance?_relabel (r := .renaming y x) fun other' _ equal => ?_)
  · rw [same]
  · rw [same] at equal
    by_cases this : other' = y
    · rw [this, renaming_self] at equal
      exact absurd equal.symm old
    · rw [renaming_other this] at equal
      exact equal

theorem distance {o : Occurrence} (member : o ∈ occurrences program') :
    (o.relabel (.renaming y x)).distance? = o.distance? := by
  obtain ⟨mention, context⟩ := o
  cases mention with
  | declare name => rfl
  | use role ref =>
    have lexed := accepted.lexed _ (h.occurs accepted member)
    cases role with
    | read => exact congrArg (Option.map _) (h.finds accepted member (.inl rfl)).2
    | write => exact congrArg (Option.map _) (h.finds accepted member (.inr rfl)).2
    | this =>
      have keyword : ref.name.lexeme = thisName := lexed
      refine congrArg (Option.map _) (h.distance_keyword accepted ?_ context)
      exact fun ordinary => ordinary.1 keyword
    | super =>
      have keyword : ref.name.lexeme = superName := lexed
      refine congrArg (Option.map _) (h.distance_keyword accepted ?_ context)
      exact fun ordinary => ordinary.2 keyword

theorem lexed {o : Occurrence} (member : o ∈ occurrences program') : o.mention.Lexed := by
  have old := accepted.lexed _ (h.occurs accepted member)
  have named : ∀ {name : String}, Ordinary ((Relabel.renaming y x).name name) →
      Ordinary name := by
    intro name ordinary
    by_cases new : name = y
    · exact new ▸ h.ordinary
    · rw [renaming_other new] at ordinary
      exact ordinary
  obtain ⟨mention, context⟩ := o
  cases mention with
  | declare name => exact named old
  | use role ref =>
    cases role with
    | read | write => exact named old
    | this | super => exact old

/-- The program resolves, with the same distances, and has the same numbers. -/
theorem accepted_renamed : Accepted first ⟨program', c.distances⟩ next := by
  have tidy := h.tidy accepted
  have regular := Stmt.allRegular_of_tidy _ tidy
  have lexed : ∀ o ∈ occurrences program', o.mention.Lexed := fun o => h.lexed accepted
  have resolved := accepted.resolved
  rw [← h.back] at resolved
  obtain ⟨distances, resolved⟩ := resolve_of_relabel h.fixes tidy resolved
  have same : distances = c.distances := by
    rw [(resolve_eq_ok resolved regular lexed).1, accepted.distances_eq,
      h.occurrences_eq accepted, List.filterMap_map]
    exact (List.filterMap_congr fun o member => h.distance accepted member).symm
  refine ⟨accepted.le, regular, ?_, lexed, same ▸ resolved⟩
  have numbers := accepted.numbers
  rw [h.occurrences_eq accepted, List.filterMap_map] at numbers
  have ids : Occurrence.id? ∘ Occurrence.relabel (.renaming y x) = Occurrence.id? := by
    funext ⟨mention, context⟩
    cases mention <;> rfl
  rw [ids] at numbers
  exact numbers

end Renames

end Treewalk
