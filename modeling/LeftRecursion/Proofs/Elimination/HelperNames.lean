import LeftRecursion.Proofs.Elimination.Step

/-!
# Helper names in use

A fresh name is one that is not declared, so it is only as good as the grammar: a helper name that
is used without being declared would get alternatives it never had. A grammar that declares every
helper name it uses stays such a grammar (`HelperNamesDeclared.step`).
-/

namespace LeftRecursion

namespace Grammar

variable {g h : Grammar} {names : List Char} {a b c helper : Char} {p : Body}

def Mentions (g : Grammar) (c : Char) : Prop :=
  ∃ a, ∃ p ∈ g.alternatives a, .nonTerminal c ∈ p

instance (g : Grammar) (c : Char) : Decidable (g.Mentions c) :=
  decidable_of_iff _ exists_mem_alternatives_iff.symm

theorem Mentions.intro (hp : p ∈ g.alternatives a) (hc : .nonTerminal c ∈ p) : g.Mentions c :=
  ⟨a, p, hp, hc⟩

def HelperNamesDeclared (g : Grammar) : Prop :=
  ∀ c ∈ helperNames, g.Mentions c → c ∈ g

instance (g : Grammar) : Decidable g.HelperNamesDeclared :=
  List.decidableBAll (fun c => g.Mentions c → c ∈ g) helperNames

theorem HelperNamesDeclared.not_mentions (declared : g.HelperNamesDeclared)
    (fresh : g.freshName = .ok c) : ¬g.Mentions c := fun mentioned =>
  not_mem_of_freshName fresh (declared c (mem_helperNames_of_freshName fresh) mentioned)

theorem mentions_of_mentions_substitute (m : (g.substitute a b).Mentions c) : g.Mentions c := by
  obtain ⟨e, p, hp, hc⟩ := m
  rcases mem_alternatives_substitute.1 hp with ⟨hp, _⟩ | ⟨rfl, q, hq, d, hd, rfl⟩
  · exact .intro hp hc
  · rcases List.mem_append.1 hc with hc | hc
    · exact .intro hd hc
    · exact .intro hq (List.mem_cons_of_mem _ hc)

theorem mentions_of_mentions_splitInto (ha : a ∈ g) (hh : helper ∉ g)
    (m : (g.splitInto a helper).Mentions c) : c = helper ∨ g.Mentions c := by
  obtain ⟨e, p, hp, hc⟩ := m
  rcases (mem_alternatives_splitInto ha hh).1 hp with
    ⟨_, ⟨q, hq, rfl⟩ | rfl⟩ | ⟨_, q, hq, _, rfl⟩ | ⟨_, _, hp⟩
  · rcases List.mem_append.1 hc with hc | hc
    · exact .inr (.intro hq (List.mem_cons_of_mem _ hc))
    · exact .inl (by simpa using hc)
  · simp [Body.epsilon] at hc
  · rcases List.mem_append.1 hc with hc | hc
    · exact .inr (.intro hq hc)
    · exact .inl (by simpa using hc)
  · exact .inr (.intro hp hc)

theorem HelperNamesDeclared.step (s : Step names g h) (declared : g.HelperNamesDeclared) :
    h.HelperNamesDeclared := by
  intro c hc m
  cases s with
  | substitute _ _ _ ha => exact mem_setAlternatives.2 (.inr (declared c hc
      (mentions_of_mentions_substitute m)))
  | split _ ha _ fresh =>
    have absent := not_mem_of_freshName fresh
    rw [mem_iff, nonTerminals_splitInto ha absent, List.mem_append, List.mem_singleton]
    rcases mentions_of_mentions_splitInto ha absent m with same | m
    · exact .inr same
    · exact .inl (declared c hc m)

theorem HelperNamesDeclared.steps (s : Relation.ReflTransGen (Step names) g h)
    (declared : g.HelperNamesDeclared) : h.HelperNamesDeclared := by
  induction s with
  | refl => exact declared
  | tail _ s ih => exact ih.step s

/-- The names that helpers of `g` can get, in the order in which they are given out. -/
def freeHelperNames (g : Grammar) : List Char :=
  helperNames.filter (· ∉ g)

@[simp] theorem mem_freeHelperNames : c ∈ g.freeHelperNames ↔ c ∈ helperNames ∧ c ∉ g := by
  simp [freeHelperNames]

theorem HelperNamesDeclared.not_mentions_of_mem_freeHelperNames (declared : g.HelperNamesDeclared)
    (hc : c ∈ g.freeHelperNames) : ¬g.Mentions c := by
  intro mentioned
  obtain ⟨pool, new⟩ := mem_freeHelperNames.1 hc
  exact new (declared c pool mentioned)

theorem nodup_freeHelperNames (g : Grammar) : g.freeHelperNames.Nodup :=
  nodup_helperNames.filter _

theorem freeHelperNames_congr (names : g.nonTerminals = h.nonTerminals) :
    g.freeHelperNames = h.freeHelperNames := by
  simp only [freeHelperNames, mem_iff, names]

/-- A helper that takes the fresh name takes the first of the free names. -/
theorem freeHelperNames_eq_cons (fresh : g.freshName = .ok helper)
    (added : h.nonTerminals = g.nonTerminals ++ [helper]) :
    g.freeHelperNames = helper :: h.freeHelperNames := by
  have first : g.freeHelperNames.head? = some helper := by
    unfold freshName at fresh
    rw [freeHelperNames, List.head?_filter]
    split at fresh
    · next found => rw [found, Except.ok.inj fresh]
    · cases fresh
  obtain ⟨others, free⟩ := List.head?_eq_some_iff.1 first
  have absent : helper ∉ others := (List.nodup_cons.1 (free ▸ g.nodup_freeHelperNames)).1
  have rest : h.freeHelperNames = g.freeHelperNames.filter (· ≠ helper) := by
    simp only [freeHelperNames, List.filter_filter, mem_iff, added, List.mem_append,
      List.mem_singleton, not_or, Bool.decide_and, Bool.and_comm]
  rw [rest, free, List.filter_cons_of_neg (by simp), List.filter_eq_self.2]
  intro c hc
  simpa using ne_of_mem_of_not_mem hc absent

/-- The first member of a list that is not among its first `n` members is the next one. -/
theorem find?_not_mem_take {xs : List Char} (nodup : xs.Nodup) (n : Nat) :
    xs.find? (· ∉ xs.take n) = xs[n]? := by
  have taken : (xs.take n).find? (· ∉ xs.take n) = none := by simp
  have behind : (xs.drop n).find? (· ∉ xs.take n) = (xs.drop n).head? := by
    cases rest : xs.drop n with
    | nil => rfl
    | cons x ys =>
      rw [← List.take_append_drop n xs, rest] at nodup
      have absent : x ∉ xs.take n := fun hx =>
        (List.nodup_append.1 nodup).2.2 x hx x (List.mem_cons_self ..) rfl
      rw [List.find?_cons_of_pos (by simpa using absent), List.head?_cons]
  calc xs.find? (· ∉ xs.take n)
      = (xs.take n ++ xs.drop n).find? (· ∉ xs.take n) := by rw [List.take_append_drop]
    _ = xs[n]? := by rw [List.find?_append, taken, behind, Option.none_or, List.head?_drop]

/-- When `n` helpers have been named, the next free name is up. -/
theorem freshName_eq {n : Nat}
    (named : h.nonTerminals = g.nonTerminals ++ g.freeHelperNames.take n) :
    h.freshName = match g.freeHelperNames[n]? with
      | some a => .ok a
      | none => .error .namesExhausted := by
  have declared (c : Char) : c ∈ h ↔ c ∈ g ∨ c ∈ g.freeHelperNames.take n := by
    rw [mem_iff, named, List.mem_append, mem_iff]
  have next : helperNames.find? (· ∉ h) = g.freeHelperNames[n]? := by
    rw [← find?_not_mem_take g.nodup_freeHelperNames, freeHelperNames, List.find?_filter,
      ← freeHelperNames]
    simp only [declared, not_or, Bool.decide_and, decide_eq_true_eq]
  calc h.freshName
      = match helperNames.find? (· ∉ h) with
        | some a => .ok a
        | none => .error .namesExhausted := rfl
    _ = _ := by rw [next]

end Grammar

end LeftRecursion
