import LeftRecursion.Proofs.Elimination.Step
import LeftRecursion.Proofs.Walk

/-!
# The leading graph

The names are joined by what the alternatives start with. Substituting `b` into `a` leads `a` past
`b` to wherever `b` leads, and splitting `a` takes its lead back to itself away. Both need
alternatives to be non-empty: an empty one would lay open what stands behind the leading name.
-/

namespace LeftRecursion

namespace Grammar

variable {g h : Grammar} {names : List Char} {a b c helper : Char} {p : Body}

def LeadsAtOnce (g : Grammar) (a b : Char) : Prop :=
  ∃ p ∈ g.alternatives a, p.StartsWith b

instance (g : Grammar) : DecidableRel g.LeadsAtOnce := fun a b =>
  inferInstanceAs (Decidable (∃ p ∈ g.alternatives a, p.StartsWith b))

theorem leadsAtOnce_congr (same : g.alternatives a = h.alternatives a) :
    g.LeadsAtOnce a c ↔ h.LeadsAtOnce a c := by
  unfold LeadsAtOnce
  rw [same]

theorem recursive_eq_nil_iff : g.recursive a = [] ↔ ¬g.LeadsAtOnce a a := by
  rw [List.eq_nil_iff_forall_not_mem]
  simp only [mem_recursive, LeadsAtOnce]
  exact not_exists.symm

/-- No alternative is empty, except perhaps for a sign of the empty word. -/
def NoEmptyBody (g : Grammar) : Prop :=
  ∀ a, ∀ p ∈ g.alternatives a, p ≠ []

instance (g : Grammar) : Decidable g.NoEmptyBody :=
  decidable_of_iff _ forall_mem_alternatives_iff.symm

theorem NoEmptyBody.step (s : Step names g h) (nonempty : g.NoEmptyBody) : h.NoEmptyBody := by
  intro c p hp
  cases s with
  | substitute _ _ _ _ =>
    rcases mem_alternatives_substitute.1 hp with ⟨hp, _⟩ | ⟨_, q, _, d, hd, rfl⟩
    · exact nonempty c p hp
    · exact List.append_ne_nil_of_left_ne_nil (nonempty _ d hd) q
  | split _ ha _ fresh =>
    have absent := not_mem_of_freshName fresh
    rcases (mem_alternatives_splitInto ha absent).1 hp with
      ⟨_, ⟨q, _, rfl⟩ | rfl⟩ | ⟨_, q, _, _, rfl⟩ | ⟨_, _, hp⟩
    · exact List.concat_ne_nil _ q
    · exact List.cons_ne_nil _ _
    · exact List.concat_ne_nil _ q
    · exact nonempty c p hp

theorem NoEmptyBody.steps (s : Relation.ReflTransGen (Step names) g h)
    (nonempty : g.NoEmptyBody) : h.NoEmptyBody := by
  induction s with
  | refl => exact nonempty
  | tail _ s ih => exact ih.step s

theorem leadsAtOnce_substitute (nonempty : g.NoEmptyBody) :
    (g.substitute a b).LeadsAtOnce a c ↔
      g.LeadsAtOnce a c ∧ c ≠ b ∨ g.LeadsAtOnce a b ∧ g.LeadsAtOnce b c := by
  constructor
  · rintro ⟨p, hp, starts⟩
    rcases mem_alternatives_substitute.1 hp with ⟨hp, other⟩ | ⟨_, q, hq, d, hd, rfl⟩
    · refine .inl ⟨⟨p, hp, starts⟩, ?_⟩
      rintro rfl
      exact other rfl starts
    · exact .inr ⟨⟨_, hq, by simp⟩, d, hd, (Body.startsWith_append (nonempty b d hd)).1 starts⟩
  · rintro (⟨⟨p, hp, starts⟩, distinct⟩ | ⟨⟨p, hp, starts⟩, d, hd, starts'⟩)
    · refine ⟨p, mem_alternatives_substitute.2 (.inl ⟨hp, fun _ starts' => distinct ?_⟩), starts⟩
      simpa using starts.symm.trans starts'
    · rw [Body.startsWith_iff_cons_tail] at starts
      refine ⟨d ++ p.tail, ?_, (Body.startsWith_append (nonempty b d hd)).2 starts'⟩
      exact mem_alternatives_substitute.2 (.inr ⟨rfl, _, starts ▸ hp, d, hd, rfl⟩)

theorem leadsAtOnce_splitInto (ha : a ∈ g) (hh : helper ∉ g) (nonempty : g.NoEmptyBody) :
    (g.splitInto a helper).LeadsAtOnce a c ↔ g.LeadsAtOnce a c ∧ c ≠ a := by
  constructor
  · rintro ⟨p, hp, starts⟩
    obtain ⟨q, hq, other, rfl⟩ := (mem_alternatives_splitInto_self ha hh).1 hp
    rw [Body.startsWith_append (nonempty a q hq)] at starts
    refine ⟨⟨q, hq, starts⟩, ?_⟩
    rintro rfl
    exact other starts
  · rintro ⟨⟨q, hq, starts⟩, distinct⟩
    refine ⟨q ++ [.nonTerminal helper], ?_, (Body.startsWith_append (nonempty a q hq)).2 starts⟩
    refine (mem_alternatives_splitInto_self ha hh).2 ⟨q, hq, fun starts' => distinct ?_, rfl⟩
    simpa using starts.symm.trans starts'

def namesUpTo (g : Grammar) (a : Char) : List Char :=
  g.nonTerminals.take (g.nonTerminals.idxOf a + 1)

/-- `a` lies on a closed walk through the leading graph all of whose members come no later than
`a`. -/
def ReturnsEarly (g : Grammar) (a : Char) : Prop :=
  Relation.TransGen
    (fun b c => g.LeadsAtOnce b c ∧ b ∈ g.namesUpTo a ∧ c ∈ g.namesUpTo a) a a

theorem idxOf_eq_length {earlier remaining : List Char}
    (order : g.nonTerminals = earlier ++ a :: remaining) :
    g.nonTerminals.idxOf a = earlier.length := by
  have absent : a ∉ earlier := fun ha => ne_of_mem_before order ha rfl
  rw [order, List.idxOf_append_of_notMem absent, List.idxOf_cons_self, Nat.add_zero]

theorem namesUpTo_eq {earlier remaining : List Char}
    (order : g.nonTerminals = earlier ++ a :: remaining) : g.namesUpTo a = earlier ++ [a] := by
  rw [namesUpTo, idxOf_eq_length order, order, List.take_length_add_append, List.take_one]
  rfl

theorem mem_namesUpTo (ha : a ∈ g) : a ∈ g.namesUpTo a := by
  obtain ⟨earlier, remaining, order⟩ := List.append_of_mem ha
  rw [namesUpTo_eq order]
  simp

theorem not_leadsAtOnce_of_not_mem (ha : a ∉ g) : ¬g.LeadsAtOnce a c := by
  rintro ⟨p, hp, _⟩
  exact ha (mem_of_mem_alternatives hp)

/-- Only the names before `a` are needed as stops: the walk can be left where it meets `a`. -/
theorem returnsEarly_iff_walk {earlier remaining : List Char}
    (order : g.nonTerminals = earlier ++ a :: remaining) :
    g.ReturnsEarly a ↔ Walk g.LeadsAtOnce earlier a a := by
  have same : ∀ x, x ∈ g.namesUpTo a ↔ x ∈ a :: earlier := by
    intro x
    rw [namesUpTo_eq order, List.mem_append, List.mem_singleton, List.mem_cons, or_comm]
  have ha : a ∈ g.namesUpTo a := (same a).2 (List.mem_cons_self ..)
  rw [ReturnsEarly, transGen_iff_walk ha ha, walk_congr same, walk_cons_self]

instance (g : Grammar) : DecidablePred g.ReturnsEarly := fun a =>
  if ha : a ∈ g then
    decidable_of_iff (Walk g.LeadsAtOnce (g.namesUpTo a) a a)
      (transGen_iff_walk (mem_namesUpTo ha) (mem_namesUpTo ha)).symm
  else
    isFalse fun t => by
      obtain ⟨_, s, _⟩ := Relation.TransGen.head'_iff.1 t
      exact not_leadsAtOnce_of_not_mem ha s.1

end Grammar

end LeftRecursion
