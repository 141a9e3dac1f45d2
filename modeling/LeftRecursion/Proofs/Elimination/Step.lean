import LeftRecursion.Elimination
import Mathlib.Data.List.Basic
import Mathlib.Logic.Relation

/-!
# The steps of an elimination

An elimination consists of steps of two kinds, and it takes them at the names of its input alone,
never at a helper. What every step keeps therefore holds of the result (`eliminate_induction`).
-/

namespace LeftRecursion

namespace Grammar

variable {g h : Grammar} {names : List Char} {a b c d helper : Char} {p : Body}

theorem mem_alternatives_substitute :
    p ∈ (g.substitute a b).alternatives c ↔
      p ∈ g.alternatives c ∧ (c = a → ¬p.StartsWith b) ∨
        c = a ∧ ∃ q, .nonTerminal b :: q ∈ g.alternatives a ∧ ∃ d ∈ g.alternatives b, p = d ++ q := by
  rw [alternatives_substitute]
  split
  · next same =>
    subst same
    simp only [List.mem_flatMap, Body.mem_expandLeading, true_implies, true_and]
    constructor
    · rintro ⟨q, hq, ⟨starts, d, hd, rfl⟩ | ⟨starts, rfl⟩⟩
      · exact .inr ⟨q.tail, Body.startsWith_iff_cons_tail.1 starts ▸ hq, d, hd, rfl⟩
      · exact .inl ⟨hq, starts⟩
    · rintro (⟨hp, starts⟩ | ⟨q, hq, d, hd, rfl⟩)
      · exact ⟨p, hp, .inr ⟨starts, rfl⟩⟩
      · exact ⟨_, hq, .inl ⟨by simp, d, hd, rfl⟩⟩
  · next other => simp [other]

theorem mem_recursive : p ∈ g.recursive a ↔ p ∈ g.alternatives a ∧ p.StartsWith a := by
  simp [recursive]

theorem cons_tail_mem_alternatives (hp : p ∈ g.recursive a) :
    .nonTerminal a :: p.tail ∈ g.alternatives a := by
  obtain ⟨hp, starts⟩ := mem_recursive.1 hp
  exact Body.startsWith_iff_cons_tail.1 starts ▸ hp

theorem mem_others : p ∈ g.others a ↔ p ∈ g.alternatives a ∧ ¬p.StartsWith a := by
  simp [others]

theorem mem_alternatives_splitInto_helper (ha : a ∈ g) (hh : helper ∉ g) :
    p ∈ (g.splitInto a helper).alternatives helper ↔
      (∃ q, .nonTerminal a :: q ∈ g.alternatives a ∧ p = q ++ [.nonTerminal helper]) ∨
        p = Body.epsilon := by
  rw [alternatives_splitInto ha hh, if_pos rfl, List.mem_append, List.mem_map, List.mem_singleton]
  refine or_congr_left ⟨?_, ?_⟩
  · rintro ⟨q, hq, rfl⟩
    exact ⟨q.tail, cons_tail_mem_alternatives hq, rfl⟩
  · rintro ⟨q, hq, rfl⟩
    exact ⟨_, mem_recursive.2 ⟨hq, by simp⟩, rfl⟩

theorem mem_alternatives_splitInto_self (ha : a ∈ g) (hh : helper ∉ g) :
    p ∈ (g.splitInto a helper).alternatives a ↔
      ∃ q ∈ g.alternatives a, ¬q.StartsWith a ∧ p = q ++ [.nonTerminal helper] := by
  have distinct : a ≠ helper := by rintro rfl; exact hh ha
  rw [alternatives_splitInto ha hh, if_neg distinct, if_pos rfl, List.mem_map]
  apply exists_congr
  intro q
  rw [mem_others, and_assoc, eq_comm (a := p)]

theorem alternatives_splitInto_of_ne (ha : a ∈ g) (hh : helper ∉ g) (hc : c ≠ a)
    (hc' : c ≠ helper) : (g.splitInto a helper).alternatives c = g.alternatives c := by
  rw [alternatives_splitInto ha hh, if_neg hc', if_neg hc]

theorem alternatives_splitInto_helper (ha : a ∈ g) (hh : helper ∉ g) :
    (g.splitInto a helper).alternatives helper =
      (g.recursive a).map (·.tail ++ [.nonTerminal helper]) ++ [Body.epsilon] := by
  rw [alternatives_splitInto ha hh, if_pos rfl]

theorem alternatives_splitInto_self (ha : a ∈ g) (hh : helper ∉ g) :
    (g.splitInto a helper).alternatives a = (g.others a).map (· ++ [.nonTerminal helper]) := by
  have distinct : a ≠ helper := ne_of_mem_of_not_mem ha hh
  rw [alternatives_splitInto ha hh, if_neg distinct, if_pos rfl]

/-- An alternative after the split is one of the helper, one of `a` with the helper behind it, or
one that was there before. -/
theorem mem_alternatives_splitInto (ha : a ∈ g) (hh : helper ∉ g) :
    p ∈ (g.splitInto a helper).alternatives c ↔
      c = helper ∧ ((∃ q, .nonTerminal a :: q ∈ g.alternatives a ∧
          p = q ++ [.nonTerminal helper]) ∨ p = Body.epsilon) ∨
        c = a ∧ (∃ q ∈ g.alternatives a, ¬q.StartsWith a ∧ p = q ++ [.nonTerminal helper]) ∨
          c ≠ helper ∧ c ≠ a ∧ p ∈ g.alternatives c := by
  by_cases atHelper : c = helper
  · subst atHelper
    have distinct : c ≠ a := by rintro rfl; exact hh ha
    simp [mem_alternatives_splitInto_helper ha hh, distinct]
  by_cases atSelf : c = a
  · subst atSelf
    simp [mem_alternatives_splitInto_self ha hh, atHelper]
  · simp [alternatives_splitInto_of_ne ha hh atSelf atHelper, atHelper, atSelf]

theorem mem_splitInto (ha : a ∈ g) (hh : helper ∉ g) :
    c ∈ g.splitInto a helper ↔ c ∈ g ∨ c = helper := by
  rw [mem_iff, nonTerminals_splitInto ha hh, List.mem_append, List.mem_singleton, mem_iff]

/-- One change to a grammar in an elimination that treats `names`. -/
inductive Step (names : List Char) : Grammar → Grammar → Prop
  | substitute {g : Grammar} {a b : Char} :
      a ∈ names → b ∈ names → b ≠ a → a ∈ g → Step names g (g.substitute a b)
  | split {g : Grammar} {a helper : Char} :
      a ∈ names → a ∈ g → g.recursive a ≠ [] → g.freshName = .ok helper →
        Step names g (g.splitInto a helper)

theorem Step.nonTerminals_prefix (s : Step names g h) : g.nonTerminals <+: h.nonTerminals := by
  cases s with
  | substitute _ _ _ ha =>
    exact ⟨[], by rw [List.append_nil, nonTerminals_substitute ha]⟩
  | split _ ha _ fresh =>
    rw [nonTerminals_splitInto ha (not_mem_of_freshName fresh)]
    exact List.prefix_append _ _

theorem Step.mem (s : Step names g h) (hc : c ∈ g) : c ∈ h :=
  s.nonTerminals_prefix.subset hc

theorem split_cases (e : (g.split a).result = .ok h) :
    g.recursive a = [] ∧ h = g ∨
      g.recursive a ≠ [] ∧ ∃ helper, g.freshName = .ok helper ∧ h = g.splitInto a helper := by
  rw [result_split] at e
  split at e
  · next none => exact .inl ⟨none, (Except.ok.inj e).symm⟩
  · next some =>
    obtain ⟨helper, fresh, same⟩ := exists_of_map_eq_ok e
    exact .inr ⟨some, helper, fresh, same.symm⟩

theorem nonTerminals_expose (ha : a ∈ g) (bs : List Char) :
    (g.expose a bs).nonTerminals = g.nonTerminals := by
  induction bs generalizing g with
  | nil => rfl
  | cons b bs ih =>
    have same := nonTerminals_substitute ha b
    rw [expose_cons, ih (by rw [mem_iff, same]; exact ha), same]

theorem alternatives_expose_of_ne (hc : c ≠ a) (bs : List Char) :
    (g.expose a bs).alternatives c = g.alternatives c := by
  induction bs generalizing g with
  | nil => rfl
  | cons b bs ih => rw [expose_cons, ih, alternatives_substitute, if_neg hc]

theorem mem_expose (ha : a ∈ g) (bs : List Char) : c ∈ g.expose a bs ↔ c ∈ g := by
  rw [mem_iff, nonTerminals_expose ha bs, mem_iff]

/-- To treat `a` leaves the alternatives of all other names alone. -/
theorem alternatives_turn_of_ne {bs : List Char} (ha : a ∈ g)
    (done : ((g.expose a bs).split a).result = .ok h) (hc : c ∈ g) (other : c ≠ a) :
    h.alternatives c = g.alternatives c := by
  rcases split_cases done with ⟨_, rfl⟩ | ⟨_, helper, fresh, rfl⟩
  · exact alternatives_expose_of_ne other bs
  · have absent := not_mem_of_freshName fresh
    have notHelper : c ≠ helper := by
      rintro rfl
      exact absent ((mem_expose ha bs).2 hc)
    rw [alternatives_splitInto_of_ne ((mem_expose ha bs).2 ha) absent other notHelper]
    exact alternatives_expose_of_ne other bs

/-- Substituting into one name any number of others is a run of steps. -/
theorem steps_expose (ha : a ∈ names) (hg : a ∈ g) (bs : List Char)
    (hbs : ∀ b ∈ bs, b ∈ names ∧ b ≠ a) :
    Relation.ReflTransGen (Step names) g (g.expose a bs) := by
  induction bs generalizing g with
  | nil => exact .refl
  | cons b bs ih =>
    obtain ⟨hb, hbs⟩ := List.forall_mem_cons.1 hbs
    have s : Step names g (g.substitute a b) := .substitute ha hb.1 hb.2 hg
    exact .head s (ih (s.mem hg) hbs)

theorem steps_mem (s : Relation.ReflTransGen (Step names) g h) (hc : c ∈ g) : c ∈ h := by
  induction s with
  | refl => exact hc
  | tail _ s ih => exact s.mem ih

/-- So is treating one name, whether it is split or not. -/
theorem steps_turn (ha : a ∈ names) (hg : a ∈ g) {bs : List Char}
    (hbs : ∀ b ∈ bs, b ∈ names ∧ b ≠ a)
    (done : ((g.expose a bs).split a).result = .ok h) :
    Relation.ReflTransGen (Step names) g h := by
  have exposed := steps_expose ha hg bs hbs
  rcases split_cases done with ⟨_, rfl⟩ | ⟨found, helper, fresh, rfl⟩
  · exact exposed
  · exact exposed.tail (.split ha (steps_mem exposed hg) found fresh)

/-- A run that succeeds succeeds at its first name, and goes on from there. -/
theorem exists_turn_of_eliminateFrom {earlier remaining : List Char}
    (e : (g.eliminateFrom earlier (a :: remaining)).result = .ok h) :
    ∃ k, ((g.expose a earlier).split a).result = .ok k ∧
      (k.eliminateFrom (earlier ++ [a]) remaining).result = .ok h := by
  rw [result_eliminateFrom_cons] at e
  exact exists_of_bind_eq_ok e

theorem steps_eliminateFrom {earlier remaining : List Char} (nodup : (earlier ++ remaining).Nodup)
    (declared : ∀ c ∈ remaining, c ∈ g)
    (e : (g.eliminateFrom earlier remaining).result = .ok h) :
    Relation.ReflTransGen (Step (earlier ++ remaining)) g h := by
  induction remaining generalizing g earlier with
  | nil => cases e; exact .refl
  | cons a remaining ih =>
    have ha := declared a (List.mem_cons_self ..)
    have here : a ∈ earlier ++ a :: remaining := by simp
    have others : ∀ b ∈ earlier, b ∈ earlier ++ a :: remaining ∧ b ≠ a := fun b hb =>
      ⟨List.mem_append_left _ hb, (List.nodup_append.1 nodup).2.2 b hb a (List.mem_cons_self ..)⟩
    obtain ⟨k, turn, e⟩ := exists_turn_of_eliminateFrom e
    have treated := steps_turn here ha others turn
    have declared' : ∀ c ∈ remaining, c ∈ k := fun c hc =>
      steps_mem treated (declared c (List.mem_cons_of_mem _ hc))
    have regroup : earlier ++ a :: remaining = (earlier ++ [a]) ++ remaining := by simp
    rw [regroup] at nodup treated ⊢
    exact treated.trans (ih nodup declared' e)

theorem steps_eliminate (e : g.eliminate = .ok h) :
    Relation.ReflTransGen (Step g.nonTerminals) g h := by
  rw [← List.nil_append g.nonTerminals]
  exact steps_eliminateFrom g.nodup_nonTerminals (fun _ hc => hc) e

/-- What holds of the input and is kept by every step holds of the result. -/
theorem eliminate_induction {P : Grammar → Prop} (e : g.eliminate = .ok h) (start : P g)
    (step : ∀ {k l}, Step g.nonTerminals k l → P k → P l) : P h := by
  have s := steps_eliminate e
  clear e
  induction s with
  | refl => exact start
  | tail _ s ih => exact step s ih

def Older (g : Grammar) (c d : Char) : Prop :=
  g.nonTerminals.idxOf c < g.nonTerminals.idxOf d

instance (g : Grammar) : DecidableRel g.Older := fun c d =>
  inferInstanceAs (Decidable (g.nonTerminals.idxOf c < g.nonTerminals.idxOf d))

theorem older_iff_of_extends (names : g.nonTerminals <+: h.nonTerminals) (hc : c ∈ g) (hd : d ∈ g) :
    h.Older c d ↔ g.Older c d := by
  obtain ⟨more, eq⟩ := names
  rw [Older, Older, ← eq, List.idxOf_append_of_mem hc, List.idxOf_append_of_mem hd]

/-- `a` is older than all names but itself and those before it. -/
theorem older_iff_not_mem {before behind : List Char}
    (order : g.nonTerminals = before ++ a :: behind) : g.Older a b ↔ b ∉ before ++ [a] := by
  have absent : a ∉ before := fun ha => ne_of_mem_before order ha rfl
  rw [Older, order, List.idxOf_append_of_notMem absent, List.idxOf_cons_self, Nat.add_zero,
    List.mem_append, List.mem_singleton, not_or]
  by_cases first : b ∈ before
  · have bound := List.idxOf_lt_length_iff.2 first
    rw [List.idxOf_append_of_mem first]
    exact ⟨fun older => absurd older (by omega), fun other => absurd first other.1⟩
  · rw [List.idxOf_append_of_notMem first]
    by_cases same : b = a
    · simp [same]
    · rw [List.idxOf_cons_ne _ (Ne.symm same)]
      exact ⟨fun _ => ⟨first, same⟩, fun _ => by omega⟩

theorem Older.mem (older : g.Older c d) : c ∈ g :=
  List.idxOf_lt_length_iff.1 (Nat.lt_of_lt_of_le older List.idxOf_le_length)

theorem Older.step (s : Step names g h) (older : g.Older c d) (hd : d ∈ g) : h.Older c d :=
  (older_iff_of_extends s.nonTerminals_prefix older.mem hd).2 older

def crossed : Grammar where
  rules := [⟨'S', ["Sa", "A"].map Body.ofString⟩, ⟨'A', ["Sc", "d"].map Body.ofString⟩]
  nodup := by decide

def crossedFreed : Grammar where
  rules := [
    ⟨'S', ["AZ"].map Body.ofString⟩,
    ⟨'A', ["dY"].map Body.ofString⟩,
    ⟨'Z', ["aZ", "e"].map Body.ofString⟩,
    ⟨'Y', ["ZcY", "e"].map Body.ofString⟩]
  nodup := by decide

theorem eliminate_crossed : crossed.eliminate = .ok crossedFreed := rfl

end Grammar

end LeftRecursion
