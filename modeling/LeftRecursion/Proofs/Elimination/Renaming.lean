import LeftRecursion.Proofs.Elimination.Step
import Mathlib.Data.List.Nodup
import Mathlib.Logic.Equiv.Basic

/-!
# Renaming

Elimination compares names with each other and with the helper names, and it never looks at a
terminal. A renaming that keeps the names apart and the helper names in place therefore commutes with
it, whatever it makes of the terminals: every operation on the renamed grammar is the renamed
operation on the grammar, up to the whole run with its events (`eliminateTraced_rename`).
-/

namespace LeftRecursion

/-- New names for the non-terminals and new characters for the terminals. Names stay apart and those
of helpers stay what they are; terminals may fall together, and with names. -/
structure Renaming where
  name : Char → Char
  terminal : Char → Char
  injective : Function.Injective name
  name_helper : ∀ a ∈ Grammar.helperNames, name a = a

variable {ρ : Renaming} {a b : Char} {p : Body} {g : Grammar}

def Symbol.rename (ρ : Renaming) : Symbol → Symbol
  | nonTerminal a => nonTerminal (ρ.name a)
  | terminal c => terminal (ρ.terminal c)
  | epsilon => epsilon

theorem Symbol.rename_eq_nonTerminal_iff {s : Symbol} :
    s.rename ρ = nonTerminal (ρ.name a) ↔ s = nonTerminal a := by
  cases s with
  | nonTerminal b => simp only [rename, nonTerminal.injEq, ρ.injective.eq_iff]
  | terminal c => simp only [rename, reduceCtorEq]
  | epsilon => simp only [rename, reduceCtorEq]

def Body.rename (ρ : Renaming) (p : Body) : Body :=
  p.map (Symbol.rename ρ)

def Rule.rename (ρ : Renaming) (r : Rule) : Rule :=
  ⟨ρ.name r.left, r.alternatives.map (Body.rename ρ)⟩

def Grammar.rename (ρ : Renaming) (g : Grammar) : Grammar where
  rules := g.rules.map (Rule.rename ρ)
  nodup := by
    have names : (g.rules.map (Rule.rename ρ)).map Rule.left =
        (g.rules.map Rule.left).map ρ.name := by
      simp only [List.map_map, Function.comp_def, Rule.rename]
    rw [names]
    exact g.nodup.map ρ.injective

def Event.rename (ρ : Renaming) : Event → Event
  | longLeftSide line name rest => longLeftSide line name rest
  | substituted a b count => substituted (ρ.name a) (ρ.name b) count
  | split a helper recursive others => split (ρ.name a) (ρ.name helper) recursive others
  | emptied a => emptied (ρ.name a)

def Traced.rename (ρ : Renaming) (x : Traced Grammar) : Traced Grammar :=
  ⟨x.events.map (Event.rename ρ), x.result.map (Grammar.rename ρ)⟩

namespace Body

@[simp] theorem rename_append (p q : Body) : (p ++ q).rename ρ = p.rename ρ ++ q.rename ρ :=
  List.map_append

@[simp] theorem tail_rename (p : Body) : (p.rename ρ).tail = rename ρ p.tail :=
  List.map_tail.symm

@[simp] theorem rename_epsilon : epsilon.rename ρ = epsilon := rfl

@[simp] theorem startsWith_rename : (p.rename ρ).StartsWith (ρ.name a) ↔ p.StartsWith a := by
  cases p with
  | nil => simp only [rename, List.map_nil, not_startsWith_nil]
  | cons s p =>
    simp only [rename, List.map_cons, startsWith_cons, Symbol.rename_eq_nonTerminal_iff]

theorem expandLeading_rename (ds : List Body) (p : Body) :
    (p.rename ρ).expandLeading (ρ.name a) (ds.map (rename ρ)) =
      (p.expandLeading a ds).map (rename ρ) := by
  by_cases starts : p.StartsWith a
  · have starts' := (startsWith_rename (ρ := ρ)).2 starts
    simp only [expandLeading_of_startsWith starts, expandLeading_of_startsWith starts',
      List.map_map, Function.comp_def, rename_append, tail_rename]
  · have starts' := mt (startsWith_rename (ρ := ρ)).1 starts
    simp only [expandLeading_of_not_startsWith starts, expandLeading_of_not_startsWith starts',
      List.map_singleton]

end Body

namespace Rule

theorem lookup_rename (rs : List Rule) :
    lookup (ρ.name a) (rs.map (rename ρ)) = (lookup a rs).map (Body.rename ρ) := by
  induction rs with
  | nil => rfl
  | cons r rs ih =>
    simp only [List.map_cons, lookup_cons, rename, ρ.injective.eq_iff, ih]
    split <;> rfl

/-- Renaming is compatible with a change of the alternatives if it is compatible with what the
change makes of them. -/
theorem modify_rename {f f' : List Body → List Body}
    (along : ∀ ps, f' (ps.map (Body.rename ρ)) = (f ps).map (Body.rename ρ)) (rs : List Rule) :
    modify (ρ.name a) f' (rs.map (rename ρ)) = (modify a f rs).map (rename ρ) := by
  induction rs with
  | nil =>
    have added := along []
    rw [List.map_nil] at added
    simp only [List.map_nil, modify, List.map_cons, rename, added]
  | cons r rs ih =>
    simp only [List.map_cons, modify, rename, ρ.injective.eq_iff]
    split
    · simp only [List.map_cons, rename, along]
    · simp only [List.map_cons, rename, ih]

end Rule

namespace Grammar

theorem nonTerminals_rename (g : Grammar) :
    (g.rename ρ).nonTerminals = g.nonTerminals.map ρ.name := by
  simp only [nonTerminals, rename, List.map_map, Function.comp_def, Rule.rename]

@[simp] theorem mem_rename : ρ.name a ∈ g.rename ρ ↔ a ∈ g := by
  rw [mem_iff, nonTerminals_rename, List.mem_map_of_injective ρ.injective, mem_iff]

theorem alternatives_rename (g : Grammar) (a : Char) :
    (g.rename ρ).alternatives (ρ.name a) = (g.alternatives a).map (Body.rename ρ) :=
  Rule.lookup_rename g.rules

theorem setAlternatives_rename (g : Grammar) (a : Char) (ps : List Body) :
    (g.rename ρ).setAlternatives (ρ.name a) (ps.map (Body.rename ρ)) =
      (g.setAlternatives a ps).rename ρ :=
  Grammar.ext (Rule.modify_rename (f := fun _ => ps) (fun _ => rfl) g.rules)

theorem addAlternatives_rename (g : Grammar) (a : Char) (ps : List Body) :
    (g.rename ρ).addAlternatives (ρ.name a) (ps.map (Body.rename ρ)) =
      (g.addAlternatives a ps).rename ρ :=
  Grammar.ext (Rule.modify_rename (f := (· ++ ps)) (fun _ => List.map_append.symm) g.rules)

theorem freshName_rename (g : Grammar) : (g.rename ρ).freshName = g.freshName := by
  have kept : ∀ c ∈ helperNames, c ∈ g.rename ρ ↔ c ∈ g := by
    intro c hc
    have moved : ρ.name c ∈ g.rename ρ ↔ c ∈ g := mem_rename
    rwa [ρ.name_helper c hc] at moved
  have free : helperNames.filter (· ∉ g.rename ρ) = helperNames.filter (· ∉ g) :=
    List.filter_congr fun c hc => by simp only [kept c hc]
  have same : helperNames.find? (· ∉ g.rename ρ) = helperNames.find? (· ∉ g) := by
    rw [← List.head?_filter, free, List.head?_filter]
  unfold freshName
  rw [same]

theorem countP_startsWith_rename (ps : List Body) :
    (ps.map (Body.rename ρ)).countP (·.StartsWith (ρ.name a)) = ps.countP (·.StartsWith a) := by
  simp only [List.countP_map, Function.comp_def, Body.startsWith_rename]

theorem substitute_rename (g : Grammar) (a b : Char) :
    (g.rename ρ).substitute (ρ.name a) (ρ.name b) = (g.substitute a b).rename ρ := by
  have expanded : ((g.alternatives a).map (Body.rename ρ)).flatMap
        (Body.expandLeading (ρ.name b) ((g.alternatives b).map (Body.rename ρ))) =
      ((g.alternatives a).flatMap (Body.expandLeading b (g.alternatives b))).map
        (Body.rename ρ) := by
    simp only [List.flatMap_map, List.map_flatMap, Body.expandLeading_rename]
  simp only [substitute, alternatives_rename, expanded, setAlternatives_rename]

theorem recursive_rename (g : Grammar) (a : Char) :
    (g.rename ρ).recursive (ρ.name a) = (g.recursive a).map (Body.rename ρ) := by
  simp only [recursive, alternatives_rename, List.filter_map, Function.comp_def,
    Body.startsWith_rename]

theorem others_rename (g : Grammar) (a : Char) :
    (g.rename ρ).others (ρ.name a) = (g.others a).map (Body.rename ρ) := by
  simp only [others, alternatives_rename, List.filter_map, Function.comp_def,
    Body.startsWith_rename]

theorem splitInto_rename (g : Grammar) (a helper : Char) :
    (g.rename ρ).splitInto (ρ.name a) (ρ.name helper) = (g.splitInto a helper).rename ρ := by
  have bases : ((g.others a).map (Body.rename ρ)).map (· ++ [.nonTerminal (ρ.name helper)]) =
      ((g.others a).map (· ++ [.nonTerminal helper])).map (Body.rename ρ) := by
    simp only [List.map_map, Function.comp_def, Body.rename_append]
    rfl
  have loops : ((g.recursive a).map (Body.rename ρ)).map
        (·.tail ++ [.nonTerminal (ρ.name helper)]) ++ [Body.epsilon] =
      ((g.recursive a).map (·.tail ++ [.nonTerminal helper]) ++ [Body.epsilon]).map
        (Body.rename ρ) := by
    simp only [List.map_map, Function.comp_def, Body.rename_append, Body.tail_rename,
      List.map_append, List.map_singleton, Body.rename_epsilon]
    rfl
  simp only [splitInto, others_rename, recursive_rename, bases, loops, setAlternatives_rename,
    addAlternatives_rename]

end Grammar

namespace Traced

@[simp] theorem rename_pure (g : Grammar) : (pure g : Traced Grammar).rename ρ = pure (g.rename ρ) :=
  rfl

@[simp] theorem rename_fail (e : Failure) : (fail e : Traced Grammar).rename ρ = fail e := rfl

theorem rename_tell_bind (e : Event) (f : Unit → Traced Grammar) :
    (tell e >>= f).rename ρ = tell (e.rename ρ) >>= fun _ => (f ()).rename ρ := rfl

theorem rename_bind (x : Traced Grammar) {f f' : Grammar → Traced Grammar}
    (along : ∀ g, f' (g.rename ρ) = (f g).rename ρ) : (x >>= f).rename ρ = x.rename ρ >>= f' := by
  cases done : x.result with
  | ok g =>
    have renamed : (x.rename ρ).result = .ok (g.rename ρ) := by
      rw [rename, done]
      rfl
    apply Traced.ext
    · rw [events_bind_of_ok renamed, along]
      simp only [rename, events_bind_of_ok done, List.map_append]
    · rw [result_bind, renamed]
      simp only [rename, result_bind, done]
      exact congrArg Traced.result (along g).symm
  | error e =>
    have renamed : (x.rename ρ).result = .error e := by
      rw [rename, done]
      rfl
    apply Traced.ext
    · rw [events_bind_of_error renamed]
      simp only [rename, events_bind_of_error done]
    · rw [result_bind, renamed]
      simp only [rename, result_bind, done]
      rfl

end Traced

namespace Grammar

theorem substituteTraced_rename (g : Grammar) (a b : Char) :
    (g.rename ρ).substituteTraced (ρ.name a) (ρ.name b) = (g.substituteTraced a b).rename ρ := by
  simp only [substituteTraced, alternatives_rename, countP_startsWith_rename, substitute_rename]
  split <;> rfl

theorem substituteAll_rename (g : Grammar) (a : Char) (bs : List Char) :
    (g.rename ρ).substituteAll (ρ.name a) (bs.map ρ.name) = (g.substituteAll a bs).rename ρ := by
  induction bs generalizing g with
  | nil => rfl
  | cons b bs ih =>
    rw [List.map_cons, substituteAll, substituteAll, substituteTraced_rename]
    exact (Traced.rename_bind _ fun h => ih h).symm

theorem split_rename (g : Grammar) (a : Char) :
    (g.rename ρ).split (ρ.name a) = (g.split a).rename ρ := by
  simp only [split, recursive_rename, others_rename, freshName_rename, List.map_eq_nil_iff,
    List.length_map]
  by_cases none : g.recursive a = []
  · simp only [if_pos none, Traced.rename_pure]
  · simp only [if_neg none]
    cases fresh : g.freshName with
    | error e => rfl
    | ok helper =>
      have kept := ρ.name_helper helper (mem_helperNames_of_freshName fresh)
      have parts := splitInto_rename (ρ := ρ) g a helper
      rw [kept] at parts
      dsimp only
      split
      · simp only [Traced.rename_tell_bind, Event.rename, kept, parts, Traced.rename_pure]
      · simp only [Traced.rename_tell_bind, Event.rename, kept, parts, Traced.rename_pure]

theorem eliminateFrom_rename (g : Grammar) (earlier remaining : List Char) :
    (g.rename ρ).eliminateFrom (earlier.map ρ.name) (remaining.map ρ.name) =
      (g.eliminateFrom earlier remaining).rename ρ := by
  induction remaining generalizing g earlier with
  | nil => rfl
  | cons a remaining ih =>
    have next (h : Grammar) :
        (h.rename ρ).eliminateFrom (earlier.map ρ.name ++ [ρ.name a]) (remaining.map ρ.name) =
          (h.eliminateFrom (earlier ++ [a]) remaining).rename ρ := by
      rw [← ih, List.map_append, List.map_singleton]
    rw [List.map_cons, eliminateFrom, eliminateFrom, substituteAll_rename]
    refine (Traced.rename_bind _ fun h => ?_).symm
    rw [split_rename]
    exact (Traced.rename_bind _ next).symm

theorem eliminateTraced_rename (ρ : Renaming) (g : Grammar) :
    (g.rename ρ).eliminateTraced = g.eliminateTraced.rename ρ := by
  rw [eliminateTraced, nonTerminals_rename]
  exact eliminateFrom_rename g [] g.nonTerminals

/-- Elimination of a renamed grammar fails exactly if elimination of the grammar does, and otherwise
it gives the renamed result. -/
theorem eliminate_rename (ρ : Renaming) (g : Grammar) :
    (g.rename ρ).eliminate = g.eliminate.map (Grammar.rename ρ) :=
  congrArg Traced.result (eliminateTraced_rename ρ g)

/-- `S` and `s` change places, and every terminal is written `A`. -/
def exchange : Renaming where
  name := Equiv.swap 'S' 's'
  terminal _ := 'A'
  injective := (Equiv.swap 'S' 's').injective
  name_helper a ha := by
    have notCapital : a ≠ 'S' := ne_of_mem_of_not_mem ha (by decide)
    have notSmall : a ≠ 's' := ne_of_mem_of_not_mem ha (by decide)
    exact Equiv.swap_apply_of_ne_of_ne notCapital notSmall

theorem eliminate_rename_crossed :
    (crossed.rename exchange).nonTerminals = ['s', 'A'] ∧
      (crossed.rename exchange).eliminate = .ok (crossedFreed.rename exchange) := by
  refine ⟨by decide, ?_⟩
  rw [eliminate_rename, eliminate_crossed]
  rfl

end Grammar

end LeftRecursion
