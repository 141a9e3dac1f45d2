import LeftRecursion.Proofs.Elimination.Stage
import LeftRecursion.Proofs.Reading.RoundTrip

/-!
# Helpers that the input uses

A helper gets the first free name that is not declared. A name may be written without being
declared, because every capital is a non-terminal, and then the helper takes over a letter that has a
meaning already. Which names are given out is known from the input, so it is known when this happens
(`not_uses_helper_iff`).
-/

namespace LeftRecursion

open Text

namespace Grammar

variable {g h : Grammar} {a c : Char} {s : String}

/-- The letter `c` is written in some alternative, as whatever symbol. -/
def Uses (g : Grammar) (c : Char) : Prop :=
  ∃ a, ∃ p ∈ g.alternatives a, c ∈ p.toChars

instance (g : Grammar) (c : Char) : Decidable (g.Uses c) :=
  decidable_of_iff _ exists_mem_alternatives_iff.symm

theorem Mentions.uses (mentioned : g.Mentions c) : g.Uses c := by
  obtain ⟨a, p, hp, hc⟩ := mentioned
  exact ⟨a, p, hp, List.mem_map_of_mem hc⟩

theorem isUppercase_of_mem_helperNames (hc : c ∈ helperNames) : isUppercase c := by
  have upper : helperNames.all Char.isUpper := by decide
  exact isUppercase_of_isUpper (List.all_eq_true.1 upper c hc)

/-- In a grammar that was read, a helper name is never written as a terminal. -/
theorem Writable.uses_iff_mentions (writable : g.Writable) (hc : c ∈ helperNames) :
    g.Uses c ↔ g.Mentions c := by
  refine ⟨fun used => ?_, Mentions.uses⟩
  obtain ⟨a, p, hp, written⟩ := used
  obtain ⟨symbol, hs, same⟩ := List.mem_map.1 written
  cases symbol with
  | nonTerminal b =>
    have hc' : b = c := same
    exact .intro hp (hc' ▸ hs)
  | terminal b =>
    have hc' : b = c := same
    have capital : g.isNonTerminal b := by
      simp [isNonTerminal, hc', isUppercase_of_mem_helperNames hc]
    exact absurd capital ((writable.bodies a p hp).terminals b hs)
  | epsilon =>
    have small : Symbol.epsilonChar ∉ helperNames := by decide
    have hc' : Symbol.epsilonChar = c := same
    exact absurd (hc' ▸ hc) small

theorem Writable.noEmptyBody (writable : g.Writable) : g.NoEmptyBody := fun a p hp =>
  (writable.bodies a p hp).nonempty

/-- The helpers are the free names that come first. -/
theorem Stage.mem_helpers_iff (stage : Stage g g.nonTerminals h) :
    c ∈ h ∧ c ∉ g ↔ c ∈ g.freeHelperNames.take (g.returning g.nonTerminals) := by
  rw [mem_iff, stage.names, List.mem_append]
  constructor
  · intro ⟨declared, new⟩
    exact declared.resolve_left new
  · intro free
    exact ⟨.inr free, (mem_freeHelperNames.1 (List.mem_of_mem_take free)).2⟩

/-- No helper of a grammar that was read is used in it exactly if it mentions none of the free names
that come first, as many of them as names return to themselves early. -/
theorem not_uses_helper_iff (read : parse s = .ok g) (e : g.eliminate = .ok h) :
    (∀ c ∈ h, c ∉ g → ¬g.Uses c) ↔
      ∀ c ∈ g.freeHelperNames.take (g.returning g.nonTerminals), ¬g.Mentions c := by
  have writable := writable_of_parse read
  have helpers (c : Char) := (stage_of_eliminate writable.noEmptyBody e).mem_helpers_iff (c := c)
  have pool (c : Char) (hc : c ∈ g.freeHelperNames.take (g.returning g.nonTerminals)) :
      c ∈ helperNames :=
    (mem_freeHelperNames.1 (List.mem_of_mem_take hc)).1
  constructor
  · intro unused c hc
    obtain ⟨declared, new⟩ := (helpers c).2 hc
    rw [← writable.uses_iff_mentions (pool c hc)]
    exact unused c declared new
  · intro unmentioned c declared new
    have hc := (helpers c).1 ⟨declared, new⟩
    rw [writable.uses_iff_mentions (pool c hc)]
    exact unmentioned c hc

theorem not_uses_helper_iff_crossed :
    parse "S -> Sa A\nA -> Sc d" = .ok crossed ∧ crossed.eliminate = .ok crossedFreed ∧
      ∀ c ∈ crossedFreed, c ∉ crossed → ¬crossed.Uses c := by
  have read : parse "S -> Sa A\nA -> Sc d" = .ok crossed := by decide +kernel
  have declared : crossed.HelperNamesDeclared := by decide
  have unmentioned (c : Char)
      (hc : c ∈ crossed.freeHelperNames.take (crossed.returning crossed.nonTerminals)) :
      ¬crossed.Mentions c :=
    declared.not_mentions_of_mem_freeHelperNames (List.mem_of_mem_take hc)
  exact ⟨read, eliminate_crossed, (not_uses_helper_iff read eliminate_crossed).2 unmentioned⟩

def undeclared : Grammar where
  rules := [⟨'S', ["Sa", "Z"].map Body.ofString⟩]
  nodup := by decide

def undeclaredFreed : Grammar where
  rules := [
    ⟨'S', ["ZZ"].map Body.ofString⟩,
    ⟨'Z', ["aZ", "e"].map Body.ofString⟩]
  nodup := by decide

/-- The helper of `S` gives alternatives to the `Z` that was there. -/
theorem uses_helper_undeclared :
    parse "S -> Sa Z" = .ok undeclared ∧ undeclared.eliminate = .ok undeclaredFreed ∧
      'Z' ∈ undeclaredFreed ∧ 'Z' ∉ undeclared ∧ undeclared.Uses 'Z' ∧
        undeclared.alternatives 'Z' = [] ∧ undeclaredFreed.alternatives 'Z' ≠ [] :=
  ⟨by decide +kernel, rfl, by decide, by decide, by decide, by decide, by decide⟩

end Grammar

end LeftRecursion
