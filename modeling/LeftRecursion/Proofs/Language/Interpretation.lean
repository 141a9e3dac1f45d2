import LeftRecursion.Grammar.Language
import Mathlib.Computability.Language
import Mathlib.Order.CompletePartialOrder

/-!
# Interpretations

An interpretation reads every non-terminal as some language, and with it a body as the product of
what its symbols are read as. The languages that a grammar generates are the least interpretation
that makes room for all of its alternatives (`language_le`). So one grammar generates no more than
another if it has room in the languages of the other.
-/

namespace LeftRecursion

abbrev Interpretation := Char → Language Char

def Symbol.language (l : Interpretation) : Symbol → Language Char
  | nonTerminal a => l a
  | terminal c => {[c]}
  | epsilon => 1

namespace Body

variable {l m : Interpretation} {p q : Body} {a : Char}

def language (l : Interpretation) (p : Body) : Language Char :=
  (p.map (Symbol.language l)).prod

@[simp] theorem language_nil : language l [] = 1 := rfl

@[simp] theorem language_cons (s : Symbol) : language l (s :: p) = s.language l * language l p :=
  List.prod_cons

@[simp] theorem language_append : language l (p ++ q) = language l p * language l q := by
  rw [language, List.map_append, List.prod_append]
  rfl

theorem language_nonTerminal_cons :
    language l (.nonTerminal a :: p) = l a * language l p :=
  language_cons _

@[simp] theorem language_concat : language l (p ++ [.nonTerminal a]) = language l p * l a := by
  rw [language_append, language_nonTerminal_cons, language_nil, mul_one]

@[simp] theorem language_epsilon : language l epsilon = 1 :=
  mul_one 1

theorem language_mono (le : l ≤ m) : language l p ≤ language m p := by
  induction p with
  | nil => exact le_rfl
  | cons s p ih =>
    rw [language_cons, language_cons]
    refine mul_le_mul' ?_ ih
    cases s with
    | nonTerminal a => exact le a
    | terminal c => exact le_rfl
    | epsilon => exact le_rfl

/-- Only what is read as a symbol of the body counts. -/
theorem language_congr (same : ∀ a, .nonTerminal a ∈ p → l a = m a) :
    language l p = language m p := by
  rw [language, language]
  congr 1
  apply List.map_congr_left
  intro s hs
  cases s with
  | nonTerminal a => exact same a hs
  | terminal c => rfl
  | epsilon => rfl

end Body

namespace Grammar

variable {g : Grammar} {l : Interpretation} {a : Char} {p : Body} {w : List Char}

/-- The words of each alternative of `a` are among the words that `a` is read as. -/
def HasRoom (g : Grammar) (l : Interpretation) : Prop :=
  ∀ a, ∀ p ∈ g.alternatives a, p.language l ≤ l a

def language (g : Grammar) : Interpretation := fun a => {w | g.Generates a w}

@[simp] theorem mem_language : w ∈ g.language a ↔ g.Generates a w := Iff.rfl

theorem derives_iff_mem_language : g.Derives p w ↔ w ∈ p.language g.language := by
  induction p generalizing w with
  | nil => exact derives_nil
  | cons s p ih =>
    rw [Body.language_cons, Language.mem_mul]
    cases s with
    | nonTerminal a =>
      rw [derives_nonTerminal_cons]
      constructor
      · rintro ⟨u, v, rfl, hu, hv⟩
        exact ⟨u, hu, v, ih.1 hv, rfl⟩
      · rintro ⟨u, hu, v, hv, rfl⟩
        exact ⟨u, v, rfl, hu, ih.2 hv⟩
    | terminal c =>
      rw [derives_terminal_cons]
      constructor
      · rintro ⟨v, rfl, hv⟩
        exact ⟨[c], rfl, v, ih.1 hv, rfl⟩
      · rintro ⟨_, rfl, v, hv, rfl⟩
        exact ⟨v, rfl, ih.2 hv⟩
    | epsilon =>
      rw [derives_epsilon_cons, ih]
      constructor
      · intro hw
        exact ⟨[], rfl, w, hw, rfl⟩
      · rintro ⟨_, rfl, v, hv, rfl⟩
        exact hv

/-- The words of a non-terminal are those of its alternatives. -/
theorem language_eq_iSup (g : Grammar) (a : Char) :
    g.language a = ⨆ p ∈ g.alternatives a, Body.language g.language p := by
  ext w
  simp only [Language.mem_iSup, mem_language, Generates, derives_iff_mem_language, exists_prop]

theorem hasRoom_language (g : Grammar) : g.HasRoom g.language := by
  intro a p hp
  rw [language_eq_iSup g a]
  exact le_iSup₂ (f := fun q _ => Body.language g.language q) p hp

/-- The languages of a grammar fit into every interpretation that has room for its alternatives. -/
theorem language_le (room : g.HasRoom l) : g.language ≤ l := by
  have within : ∀ {p : Body} {w : List Char}, g.Derives p w → w ∈ p.language l := by
    intro p w h
    induction h with
    | nil => exact Language.nil_mem_one
    | epsilon _ ih => exact Language.append_mem_mul (a := []) Language.nil_mem_one ih
    | @terminal c p w _ ih => exact Language.append_mem_mul (a := [c]) rfl ih
    | nonTerminal hq _ _ ihq ihp => exact Language.append_mem_mul (room _ _ hq ihq) ihp
  rintro a w ⟨p, hp, h⟩
  exact room a p hp (within h)

end Grammar

end LeftRecursion
