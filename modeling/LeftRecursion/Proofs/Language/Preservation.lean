import LeftRecursion.Proofs.Elimination.HelperNames
import LeftRecursion.Proofs.Language.Interpretation

/-!
# Elimination preserves the language

Every step leaves the words of every name alone, except for the name that is new. For a substitution
this is associativity of concatenation. For a split it is the law of the star: if `a` stands for
itself followed by `x`, or else for `y`, then it stands for `y` followed by the star of `x`, and the
star is what the helper stands for (`language_helper`).
-/

namespace LeftRecursion

namespace Grammar

open Computability

variable {g h : Grammar} {a b c helper : Char} {l m : Interpretation}

theorem language_substitute (distinct : b ≠ a) :
    (g.substitute a b).language = g.language := by
  apply le_antisymm
  · apply language_le
    intro c p hp
    rcases mem_alternatives_substitute.1 hp with ⟨hp, _⟩ | ⟨rfl, q, hq, d, hd, rfl⟩
    · exact g.hasRoom_language c p hp
    · calc Body.language g.language (d ++ q)
          = d.language g.language * Body.language g.language q := Body.language_append
        _ ≤ g.language b * Body.language g.language q :=
            mul_le_mul' (g.hasRoom_language b d hd) le_rfl
        _ = Body.language g.language (.nonTerminal b :: q) := Body.language_nonTerminal_cons.symm
        _ ≤ g.language c := g.hasRoom_language c _ hq
  · have room := (g.substitute a b).hasRoom_language
    apply language_le
    intro c p hp
    by_cases expanded : c = a ∧ p.StartsWith b
    · obtain ⟨rfl, starts⟩ := expanded
      rw [Body.startsWith_iff_cons_tail] at starts
      rw [starts, Body.language_nonTerminal_cons, language_eq_iSup _ b]
      simp only [Language.iSup_mul, iSup_le_iff, ← Body.language_append]
      intro d hd
      rw [alternatives_substitute, if_neg distinct] at hd
      exact room c _ (mem_alternatives_substitute.2 (.inr ⟨rfl, _, starts ▸ hp, d, hd, rfl⟩))
    · apply room c p
      refine mem_alternatives_substitute.2 (.inl ⟨hp, ?_⟩)
      intro same starts
      exact expanded ⟨same, starts⟩

def loop (g : Grammar) (a : Char) (l : Interpretation) : Language Char :=
  ⨆ p ∈ g.recursive a, Body.language l p.tail

theorem language_le_loop {q : Body} (hq : .nonTerminal a :: q ∈ g.alternatives a) :
    Body.language l q ≤ g.loop a l :=
  le_iSup₂ (f := fun p _ => Body.language l (List.tail p)) _ (mem_recursive.2 ⟨hq, by simp⟩)

/-- Going round the loop once more stays in every language with room for the recursive
alternatives. -/
theorem mul_loop_le (room : ∀ q, .nonTerminal a :: q ∈ g.alternatives a →
    l a * Body.language m q ≤ l a) : l a * g.loop a m ≤ l a := by
  simp only [loop, Language.mul_iSup, iSup_le_iff]
  exact fun p hp => room p.tail (cons_tail_mem_alternatives hp)

section Split

variable (ha : a ∈ g) (hh : helper ∉ g)

include ha hh

/-- The helper carries on any number of times. -/
theorem language_helper :
    (g.splitInto a helper).language helper = (g.loop a (g.splitInto a helper).language)∗ := by
  set k := (g.splitInto a helper).language with hk
  have room : (g.splitInto a helper).HasRoom k := hasRoom_language _
  have mem {p : Body} := mem_alternatives_splitInto_helper (p := p) ha hh
  have star_le : (g.loop a k)∗ ≤ k helper := by
    apply kstar_le_of_mul_le_right
    · rw [← Body.language_epsilon (l := k)]
      exact room helper _ (mem.2 (.inr rfl))
    · simp only [loop, Language.iSup_mul, iSup_le_iff]
      intro p hp
      rw [← Body.language_concat]
      exact room helper _ (mem.2 (.inl ⟨p.tail, cons_tail_mem_alternatives hp, rfl⟩))
  -- Reading the helper as the star leaves less for every body, and it is room enough.
  have below : Function.update k helper (g.loop a k)∗ ≤ k :=
    update_le_iff.2 ⟨star_le, fun _ _ => le_rfl⟩
  have least : k ≤ Function.update k helper (g.loop a k)∗ := by
    apply language_le
    intro c p hp
    by_cases same : c = helper
    · subst same
      rw [Function.update_self]
      rcases mem.1 hp with ⟨q, hq, rfl⟩ | rfl
      · rw [Body.language_concat, Function.update_self]
        calc Body.language (Function.update k c (g.loop a k)∗) q * (g.loop a k)∗
            ≤ g.loop a k * (g.loop a k)∗ :=
              mul_le_mul' ((Body.language_mono below).trans (language_le_loop hq)) le_rfl
          _ ≤ (g.loop a k)∗ := mul_kstar_le_kstar
      · rw [Body.language_epsilon]
        exact one_le_kstar
    · rw [Function.update_of_ne same]
      exact (Body.language_mono below).trans (room c p hp)
  refine le_antisymm ?_ star_le
  simpa using least helper

theorem language_le_splitInto : g.language ≤ (g.splitInto a helper).language := by
  set k := (g.splitInto a helper).language with hk
  have room : (g.splitInto a helper).HasRoom k := hasRoom_language _
  have star := language_helper ha hh
  rw [← hk] at star
  apply language_le
  intro c p hp
  have notHelper : c ≠ helper := by rintro rfl; exact hh (mem_of_mem_alternatives hp)
  by_cases same : c = a
  · subst same
    by_cases starts : p.StartsWith c
    · rw [Body.startsWith_iff_cons_tail] at starts
      rw [starts] at hp ⊢
      rw [Body.language_nonTerminal_cons, hk, language_eq_iSup _ c, ← hk]
      simp only [Language.iSup_mul, iSup_le_iff]
      intro d hd
      obtain ⟨q, hq, others, rfl⟩ := (mem_alternatives_splitInto_self ha hh).1 hd
      rw [Body.language_concat, mul_assoc]
      calc q.language k * (k helper * Body.language k p.tail)
          ≤ q.language k * k helper := by
            refine mul_le_mul' le_rfl ?_
            rw [star]
            exact (mul_le_mul' le_rfl (language_le_loop hp)).trans kstar_mul_le_kstar
        _ = Body.language k (q ++ [.nonTerminal helper]) := Body.language_concat.symm
        _ ≤ ⨆ d ∈ (g.splitInto c helper).alternatives c, Body.language k d :=
            le_iSup₂ (f := fun d _ => Body.language k d) _ hd
    · calc p.language k = p.language k * 1 := (mul_one _).symm
        _ ≤ p.language k * k helper := mul_le_mul' le_rfl (star ▸ one_le_kstar)
        _ = Body.language k (p ++ [.nonTerminal helper]) := Body.language_concat.symm
        _ ≤ k c := room c _ ((mem_alternatives_splitInto_self ha hh).2 ⟨p, hp, starts, rfl⟩)
  · rw [← alternatives_splitInto_of_ne ha hh same notHelper] at hp
    exact room c p hp

theorem language_splitInto_le (unused : ¬g.Mentions helper) :
    (g.splitInto a helper).language ≤
      Function.update g.language helper (g.loop a g.language)∗ := by
  have room : g.HasRoom g.language := hasRoom_language _
  -- No alternative of the grammar before the split can tell how the helper is read.
  have read {c : Char} {p q : Body} (hp : p ∈ g.alternatives c) (hq : q ⊆ p) :
      q.language (Function.update g.language helper (g.loop a g.language)∗) =
        q.language g.language := by
    refine Body.language_congr fun d hd => Function.update_of_ne ?_ _ _
    rintro rfl
    exact unused (.intro hp (hq hd))
  apply language_le
  intro c p hp
  rcases (mem_alternatives_splitInto ha hh).1 hp with
    ⟨rfl, ⟨q, hq, rfl⟩ | rfl⟩ | ⟨rfl, q, hq, _, rfl⟩ | ⟨notHelper, _, hp⟩
  · rw [Body.language_concat, Function.update_self, read hq (List.subset_cons_self ..)]
    exact (mul_le_mul' (language_le_loop hq) le_rfl).trans mul_kstar_le_kstar
  · rw [Body.language_epsilon, Function.update_self]
    exact one_le_kstar
  · have notHelper : c ≠ helper := by rintro rfl; exact hh ha
    rw [Body.language_concat, Function.update_self, Function.update_of_ne notHelper,
      read hq (List.Subset.refl q)]
    refine mul_kstar_le (room c q hq) (mul_loop_le fun r hr => ?_)
    rw [← Body.language_nonTerminal_cons]
    exact room c _ hr
  · rw [Function.update_of_ne notHelper, read hp (List.Subset.refl p)]
    exact room c p hp

theorem language_splitInto (unused : ¬g.Mentions helper) (hc : c ≠ helper) :
    (g.splitInto a helper).language c = g.language c := by
  apply le_antisymm
  · have within := language_splitInto_le ha hh unused c
    rwa [Function.update_of_ne hc] at within
  · exact language_le_splitInto ha hh c

end Split

/-- A step keeps the words of every name there was. -/
theorem Step.language_eq {names : List Char} (s : Step names g h)
    (declared : g.HelperNamesDeclared) (hc : c ∈ g) : h.language c = g.language c := by
  cases s with
  | substitute _ _ distinct _ => rw [language_substitute distinct]
  | split _ ha _ fresh =>
    have absent := not_mem_of_freshName fresh
    refine language_splitInto ha absent (declared.not_mentions fresh) ?_
    rintro rfl
    exact absent hc

/-- Elimination neither adds words to a non-terminal nor takes any from it. -/
theorem generates_eliminate_iff (declared : g.HelperNamesDeclared) (e : g.eliminate = .ok h) :
    ∀ a ∈ g, ∀ w, h.Generates a w ↔ g.Generates a w := by
  have kept : h.HelperNamesDeclared ∧ ∀ a ∈ g, a ∈ h ∧ h.language a = g.language a := by
    refine eliminate_induction (P := fun k => k.HelperNamesDeclared ∧
      ∀ a ∈ g, a ∈ k ∧ k.language a = g.language a) e ⟨declared, fun a ha => ⟨ha, rfl⟩⟩ ?_
    rintro k l s ⟨declared, same⟩
    refine ⟨declared.step s, fun a ha => ?_⟩
    obtain ⟨hk, eq⟩ := same a ha
    exact ⟨s.mem hk, (s.language_eq declared hk).trans eq⟩
  intro a ha w
  rw [← mem_language, ← mem_language, (kept.2 a ha).2]

theorem generates_eliminate_iff_crossed :
    crossed.HelperNamesDeclared ∧ crossed.eliminate = .ok crossedFreed ∧
      ∀ a ∈ crossed, ∀ w, crossedFreed.Generates a w ↔ crossed.Generates a w :=
  have declared : crossed.HelperNamesDeclared := by decide
  ⟨declared, eliminate_crossed, generates_eliminate_iff declared eliminate_crossed⟩

end Grammar

end LeftRecursion
