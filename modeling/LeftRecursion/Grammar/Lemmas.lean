import LeftRecursion.Grammar.Basic

/-!
# What the operations on grammars do

A grammar is seen through the list of its names and the alternatives of each, and these determine it
(`Grammar.ext_alternatives`). Every operation is described by what it does to the two.
-/

namespace LeftRecursion

namespace Rule

def lookup (a : Char) (rs : List Rule) : List Body :=
  ((rs.find? (·.left = a)).map alternatives).getD []

theorem lookup_cons (a : Char) (r : Rule) (rs : List Rule) :
    lookup a (r :: rs) = if r.left = a then r.alternatives else lookup a rs := by
  unfold lookup
  split <;> simp_all

theorem lookup_eq_nil {a : Char} {rs : List Rule} (h : a ∉ rs.map left) : lookup a rs = [] := by
  induction rs with
  | nil => rfl
  | cons r rs ih => grind [lookup_cons]

theorem lookup_modify_self (a : Char) (f : List Body → List Body) (rs : List Rule) :
    lookup a (modify a f rs) = f (lookup a rs) := by
  induction rs with
  | nil => simp [modify, lookup]
  | cons r rs ih => grind [modify, lookup_cons]

theorem lookup_modify_of_ne {a b : Char} (h : b ≠ a) (f : List Body → List Body)
    (rs : List Rule) : lookup b (modify a f rs) = lookup b rs := by
  induction rs with
  | nil => simp [modify, lookup, h.symm]
  | cons r rs ih => grind [modify, lookup_cons]

theorem modify_of_not_mem {a : Char} {rs : List Rule} (h : a ∉ rs.map left)
    (f : List Body → List Body) : modify a f rs = rs ++ [⟨a, f []⟩] := by
  induction rs with
  | nil => rfl
  | cons r rs ih => grind [modify]

theorem map_lookup (rs : List Rule) (h : (rs.map left).Nodup) :
    (rs.map left).map (fun a => ⟨a, lookup a rs⟩) = rs := by
  induction rs with
  | nil => rfl
  | cons r rs ih =>
    obtain ⟨hr, hrs⟩ := List.nodup_cons.1 h
    rw [List.map_cons, List.map_cons, lookup_cons, if_pos rfl]
    congr 1
    refine .trans (List.map_congr_left fun a ha => ?_) (ih hrs)
    rw [lookup_cons, if_neg]
    rintro rfl
    exact hr ha

end Rule

namespace Grammar

theorem nodup_nonTerminals (g : Grammar) : g.nonTerminals.Nodup := g.nodup

theorem mem_of_order {g : Grammar} {a : Char} {before behind : List Char}
    (order : g.nonTerminals = before ++ a :: behind) : a ∈ g := by
  rw [mem_iff, order]
  exact List.mem_append_right _ (List.mem_cons_self ..)

/-- The names before `a` in the order of the grammar are other names. -/
theorem ne_of_mem_before {g : Grammar} {a b : Char} {before behind : List Char}
    (order : g.nonTerminals = before ++ a :: behind) (hb : b ∈ before) : b ≠ a := by
  have nodup := g.nodup_nonTerminals
  rw [order] at nodup
  exact (List.nodup_append.1 nodup).2.2 b hb a (List.mem_cons_self ..)

@[simp] theorem nonTerminals_empty : (∅ : Grammar).nonTerminals = [] := rfl

@[simp] theorem not_mem_empty (a : Char) : a ∉ (∅ : Grammar) := by simp [mem_iff]

@[simp] theorem alternatives_empty (a : Char) : (∅ : Grammar).alternatives a = [] := rfl

@[simp] theorem isEmpty_iff {g : Grammar} : g.isEmpty ↔ g = ∅ := by
  rw [isEmpty, List.isEmpty_iff, Grammar.ext_iff]; rfl

theorem alternatives_of_not_mem {g : Grammar} {a : Char} (h : a ∉ g) : g.alternatives a = [] :=
  Rule.lookup_eq_nil h

theorem mem_of_mem_alternatives {g : Grammar} {a : Char} {p : Body}
    (hp : p ∈ g.alternatives a) : a ∈ g :=
  Decidable.byContradiction fun absent => by
    rw [alternatives_of_not_mem absent] at hp
    cases hp

/-- The rules of a grammar are its names, each with its alternatives. -/
theorem rules_eq_map (g : Grammar) :
    g.rules = g.nonTerminals.map fun a => ⟨a, g.alternatives a⟩ :=
  (Rule.map_lookup g.rules g.nodup).symm

/-- To look for an alternative is to look through the rules. -/
theorem exists_mem_alternatives_iff {g : Grammar} {P : Char → Body → Prop} :
    (∃ a, ∃ p ∈ g.alternatives a, P a p) ↔ ∃ r ∈ g.rules, ∃ p ∈ r.alternatives, P r.left p := by
  rw [rules_eq_map]
  simp only [List.mem_map, ← mem_iff]
  constructor
  · rintro ⟨a, p, hp, h⟩
    exact ⟨_, ⟨a, mem_of_mem_alternatives hp, rfl⟩, p, hp, h⟩
  · rintro ⟨_, ⟨a, _, rfl⟩, p, hp, h⟩
    exact ⟨a, p, hp, h⟩

theorem forall_mem_alternatives_iff {g : Grammar} {P : Char → Body → Prop} :
    (∀ a, ∀ p ∈ g.alternatives a, P a p) ↔ ∀ r ∈ g.rules, ∀ p ∈ r.alternatives, P r.left p := by
  simpa using not_congr (exists_mem_alternatives_iff (g := g) (P := fun a p => ¬P a p))

theorem ext_alternatives {g h : Grammar} (names : g.nonTerminals = h.nonTerminals)
    (alternatives : ∀ a ∈ g, g.alternatives a = h.alternatives a) : g = h := by
  apply Grammar.ext
  rw [rules_eq_map, rules_eq_map h, ← names]
  apply List.map_congr_left
  intro a ha
  rw [alternatives a ha]

theorem nonTerminals_modify (g : Grammar) (a : Char) (f : List Body → List Body) :
    (g.modify a f).nonTerminals =
      if a ∈ g then g.nonTerminals else g.nonTerminals ++ [a] :=
  Rule.map_left_modify a f g.rules

theorem nonTerminals_modify_of_mem {g : Grammar} {a : Char} (h : a ∈ g)
    (f : List Body → List Body) : (g.modify a f).nonTerminals = g.nonTerminals := by
  rw [nonTerminals_modify, if_pos h]

@[simp] theorem mem_modify {g : Grammar} {a b : Char} {f : List Body → List Body} :
    b ∈ g.modify a f ↔ b = a ∨ b ∈ g := by
  rw [mem_iff, nonTerminals_modify]
  split
  · rw [← mem_iff]; exact ⟨.inr, by rintro (rfl | h) <;> assumption⟩
  · simp [mem_iff, or_comm]

@[simp] theorem alternatives_modify_self (g : Grammar) (a : Char) (f : List Body → List Body) :
    (g.modify a f).alternatives a = f (g.alternatives a) :=
  Rule.lookup_modify_self a f g.rules

theorem alternatives_modify_of_ne {a b : Char} (h : b ≠ a) (g : Grammar)
    (f : List Body → List Body) : (g.modify a f).alternatives b = g.alternatives b :=
  Rule.lookup_modify_of_ne h f g.rules

theorem nonTerminals_addAlternatives (g : Grammar) (a : Char) (ps : List Body) :
    (g.addAlternatives a ps).nonTerminals =
      if a ∈ g then g.nonTerminals else g.nonTerminals ++ [a] :=
  nonTerminals_modify g a _

@[simp] theorem mem_addAlternatives {g : Grammar} {a b : Char} {ps : List Body} :
    b ∈ g.addAlternatives a ps ↔ b = a ∨ b ∈ g :=
  mem_modify

theorem alternatives_addAlternatives (g : Grammar) (a b : Char) (ps : List Body) :
    (g.addAlternatives a ps).alternatives b =
      if b = a then g.alternatives a ++ ps else g.alternatives b := by
  split
  · next h => rw [h, addAlternatives, alternatives_modify_self]
  · next h => rw [addAlternatives, alternatives_modify_of_ne h]

theorem nonTerminals_setAlternatives (g : Grammar) (a : Char) (ps : List Body) :
    (g.setAlternatives a ps).nonTerminals =
      if a ∈ g then g.nonTerminals else g.nonTerminals ++ [a] :=
  nonTerminals_modify g a _

@[simp] theorem mem_setAlternatives {g : Grammar} {a b : Char} {ps : List Body} :
    b ∈ g.setAlternatives a ps ↔ b = a ∨ b ∈ g :=
  mem_modify

theorem alternatives_setAlternatives (g : Grammar) (a b : Char) (ps : List Body) :
    (g.setAlternatives a ps).alternatives b = if b = a then ps else g.alternatives b := by
  split
  · next h => rw [h, setAlternatives, alternatives_modify_self]
  · next h => rw [setAlternatives, alternatives_modify_of_ne h]

end Grammar

end LeftRecursion
