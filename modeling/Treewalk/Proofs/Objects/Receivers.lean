import Treewalk.Proofs.Objects.Accounts

/-!
# What `this` and `super` refer to

A method is bound to an instance once, and its class names its superclass once. Whenever the text
of the method is run, also in functions that it made and that are called later, `this` is that
instance, and `super` finds its methods from that class.
-/

namespace Treewalk

open Run

/-- In a sound account a class finds the method that its nearest ancestor declares. -/
theorem Ledger.Sound.nearest {l : Ledger} (h : l.Sound) {c : ClassId}
    (known : c < l.store.classes.size) (name : String) :
    ∃ found, l.history.Nearest name c found ∧ l.store.method? c name = found.map (·.closure) := by
  rw [← h.tells.declarations] at known
  exact ⟨_, h.descends.nearest_method? name known, h.tells.method? c name⟩

namespace Moment.Placed

variable {p : Moment} {ref : Variable}

/-- `this` is the instance that the method around the place is bound to. -/
theorem read_this (h : p.Placed) (reads : p.doing = .read ref)
    (lexeme : ref.name.lexeme = thisName) :
    ∃ self, p.account.receiver = some self ∧
      readVariable ref.id ref.name p.account.machine =
        .ok (.object self.object) p.account.machine := by
  obtain ⟨texts, c, now, known, attends⟩ := h
  rw [reads] at known
  have known : texts.Knows ⟨.use .this ref, c⟩ := by
    refine known.resolve_left fun ordinary => ?_
    have lexed : ref.name.lexeme ≠ thisName ∧ ref.name.lexeme ≠ superName := ordinary.lexed
    exact lexed.1 lexeme
  obtain ⟨d, place⟩ := known.admissible
  obtain ⟨self, receiver, bound, -⟩ := attends.this place
  have distance : p.account.machine.distances.get? ref.id = some d := by
    rw [now.distances, known.distance .this ref rfl, lexeme, place]
  exact ⟨self, receiver, by simp only [readVariable, distance, lexeme, bound]⟩

/-- `super` looks for its method from the superclass that the class around the place was declared
with, and binds it to the instance that `this` is. -/
theorem read_super (h : p.Placed) (sound : p.account.ledger.Sound) {method : Token}
    (reads : p.doing = .super ref method) :
    ∃ self above found, p.account.receiver = some self ∧ self.above = some above ∧
      p.account.history.Nearest method.lexeme above found ∧
      Run.readSuper ref.id ref.name method p.account.machine =
        readMethod (found.map (·.closure)) self.object method p.account.machine := by
  obtain ⟨texts, c, now, known, attends⟩ := h
  rw [reads] at known
  have known : texts.Knows ⟨.use .super ref, c⟩ := known
  have lexeme : ref.name.lexeme = superName := known.lexed
  obtain ⟨d, this, super⟩ := known.admissible
  obtain ⟨self, receiver, bound, offers⟩ := attends.this this
  obtain ⟨above, named, cls⟩ := offers super
  have distance : p.account.machine.distances.get? ref.id = some (d + 1) := by
    rw [now.distances, known.distance .super ref rfl, lexeme, super]
  obtain ⟨found, nearest, search⟩ :=
    sound.nearest (sound.getAt? cls (.cls above) rfl) method.lexeme
  have search : p.account.machine.store.method? above method.lexeme = found.map (·.closure) := search
  refine ⟨self, above, found, receiver, named, nearest, ?_⟩
  simp only [Run.readSuper, bind, EStateM.bind, gets, distance, cls, Nat.succ_ne_zero, if_false,
    Nat.add_sub_cancel, bound, search]
  cases found <;> rfl

end Moment.Placed

namespace Chronicle.Lasting

variable {k : Chronicle} {a : Account}

/-- Every account grew into the last one. -/
theorem grows_now (h : k.Lasting) (member : a ∈ k.accounts) : a.ledger.Grows k.now.ledger := by
  rcases List.mem_cons.1 member with rfl | older
  · exact .refl _
  · exact (List.pairwise_cons.1 h.grown).1 a older

theorem mem_accounts {p : Moment} (member : p ∈ k.moments) : p.account ∈ k.accounts :=
  .tail _ (List.mem_map_of_mem member)

end Chronicle.Lasting

end Treewalk
