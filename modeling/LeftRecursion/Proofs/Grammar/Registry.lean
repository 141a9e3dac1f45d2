import LeftRecursion.Grammar.Registry
import LeftRecursion.Proofs.Elimination.Step

/-!
# The two containers stay in step

Every operation on a registry is made of changes of single entries, and a change either leaves the
list of names alone or puts one name behind the others, together with its entry. So an operation keeps
the containers in step and the names in their places, and by induction a sequence of operations does
(`extends_of_perform`). What the operations do to a registry is what they do to the grammar that it
holds (`perform_registry`).
-/

namespace LeftRecursion

namespace Registry

variable {r q t : Registry} {a b : Char} {f : List Body → List Body} {earlier remaining : List Char}
  {s : String} {op : Operation} {ops : List Operation}

theorem contains_register : (r.register a).contains b ↔ b = a ∨ r.contains b := by
  unfold register
  split
  · next known => exact ⟨.inr, fun h => h.elim (fun same => same ▸ known) id⟩
  · by_cases same : b = a <;> simp [contains, same]

theorem contains_modify : (r.modify a f).contains b ↔ b = a ∨ r.contains b := by
  rw [← contains_register (r := r) (a := a)]
  by_cases same : b = a
  · simp [modify, contains, same]
  · simp [modify, contains, same]

theorem order_modify :
    (r.modify a f).order = if r.contains a then r.order else r.order ++ [a] := by
  simp only [modify, register]
  split <;> rfl

theorem alternatives_modify_of_ne (h : b ≠ a) :
    (r.modify a f).alternatives b = r.alternatives b := by
  unfold alternatives modify register
  split <;> simp [h]

/-- The list names each entry of the table once, and nothing else. -/
structure LockStep (r : Registry) : Prop where
  nodup : r.order.Nodup
  mem_order_iff : ∀ a, a ∈ r.order ↔ r.contains a

theorem lockStep_empty : LockStep ∅ where
  nodup := List.nodup_nil
  mem_order_iff _ := by simp [EmptyCollection.emptyCollection, contains]

theorem LockStep.modify (lockStep : r.LockStep) (a : Char) (f : List Body → List Body) :
    (r.modify a f).LockStep := by
  have keys (b : Char) : b = a ∨ r.contains b ↔ b = a ∨ b ∈ r.order :=
    or_congr_right (lockStep.mem_order_iff b).symm
  by_cases known : r.contains a
  · have same : (r.modify a f).order = r.order := by rw [order_modify, if_pos known]
    refine ⟨same ▸ lockStep.nodup, fun b => ?_⟩
    rw [same, contains_modify, keys]
    exact ⟨.inr, fun h => h.elim (fun here => here ▸ (lockStep.mem_order_iff a).2 known) id⟩
  · have more : (r.modify a f).order = r.order ++ [a] := by rw [order_modify, if_neg known]
    have new : a ∉ r.order := fun ha => known ((lockStep.mem_order_iff a).1 ha)
    refine ⟨?_, fun b => ?_⟩
    · rw [more, List.nodup_append]
      refine ⟨lockStep.nodup, by simp, ?_⟩
      rintro b hb c hc rfl
      exact new (List.mem_singleton.1 hc ▸ hb)
    · rw [more, contains_modify, keys, List.mem_append, List.mem_singleton, or_comm]

/-- What every operation keeps: the containers in step, and the names in their places. -/
structure Extends (r q : Registry) : Prop where
  lockStep : r.LockStep → q.LockStep
  order : r.order <+: q.order

theorem Extends.refl (r : Registry) : r.Extends r :=
  ⟨id, List.prefix_rfl⟩

theorem Extends.trans (first : r.Extends q) (second : q.Extends t) : r.Extends t :=
  ⟨second.lockStep ∘ first.lockStep, first.order.trans second.order⟩

theorem extends_modify (r : Registry) (a : Char) (f : List Body → List Body) :
    r.Extends (r.modify a f) := by
  refine ⟨fun lockStep => lockStep.modify a f, ?_⟩
  rw [order_modify]
  split
  · exact List.prefix_rfl
  · exact List.prefix_append ..

theorem extends_addLines (isName : Char → Bool) (r : Registry) (ls : List Line) :
    r.Extends (r.addLines isName ls) := by
  induction ls generalizing r with
  | nil => exact .refl r
  | cons l ls ih => exact (extends_modify r l.name _).trans (ih _)

theorem extends_of_parse (read : parse s = .ok r) : Extends ∅ r := by
  obtain ⟨ls, _, rfl⟩ := exists_of_map_eq_ok read
  exact extends_addLines _ ∅ ls

theorem extends_expose (r : Registry) (a : Char) (bs : List Char) : r.Extends (r.expose a bs) := by
  induction bs generalizing r with
  | nil => exact .refl r
  | cons b bs ih => exact (extends_modify r a _).trans (ih _)

theorem extends_splitInto (r : Registry) (a helper : Char) : r.Extends (r.splitInto a helper) :=
  (extends_modify r a _).trans (extends_modify _ helper _)

theorem extends_of_split (done : r.split a = .ok q) : r.Extends q := by
  unfold split at done
  split at done
  · cases done
    exact .refl _
  · obtain ⟨helper, _, rfl⟩ := exists_of_map_eq_ok done
    exact extends_splitInto r a helper

/-- In the middle of an elimination the helpers so far are in both containers. -/
theorem extends_of_eliminateFrom (done : r.eliminateFrom earlier remaining = .ok q) :
    r.Extends q := by
  induction remaining generalizing r earlier with
  | nil =>
    cases done
    exact .refl _
  | cons a remaining ih =>
    obtain ⟨t, turn, rest⟩ := exists_of_bind_eq_ok done
    exact ((extends_expose _ a earlier).trans (extends_of_split turn)).trans (ih rest)

theorem extends_of_apply (done : r.apply op = .ok q) : r.Extends q := by
  cases op with
  | add a ps =>
    cases done
    exact extends_modify r a _
  | set a ps =>
    cases done
    exact extends_modify r a _
  | eliminate => exact extends_of_eliminateFrom done
  | copy =>
    cases done
    exact .refl _

theorem extends_of_perform (done : r.perform ops = .ok q) : r.Extends q := by
  induction ops generalizing r with
  | nil =>
    cases done
    exact .refl _
  | cons op ops ih =>
    rw [perform, List.foldlM_cons] at done
    obtain ⟨t, first, rest⟩ := exists_of_bind_eq_ok done
    exact (extends_of_apply first).trans (ih rest)

end Registry

namespace Grammar

variable {g : Grammar} {a : Char}

theorem contains_registry : g.registry.contains a ↔ a ∈ g := by
  simp [registry, Registry.contains, alternatives?, mem_iff, nonTerminals]

theorem alternatives_registry (g : Grammar) (a : Char) :
    g.registry.alternatives a = g.alternatives a := rfl

theorem table_registry (g : Grammar) (a : Char) :
    g.registry.table a = if a ∈ g then some (g.alternatives a) else none := by
  split
  · next declared =>
    obtain ⟨ps, found⟩ := Option.isSome_iff_exists.1 (contains_registry.2 declared)
    rw [← alternatives_registry, Registry.alternatives, found, Option.getD_some]
  · next absent => exact Option.not_isSome_iff_eq_none.1 (contains_registry.not.2 absent)

theorem registry_modify (g : Grammar) (a : Char) (f : List Body → List Body) :
    (g.modify a f).registry = g.registry.modify a f := by
  apply Registry.ext
  · rw [Registry.order_modify]
    simp only [contains_registry]
    exact nonTerminals_modify g a f
  · funext b
    rw [table_registry, Registry.modify]
    by_cases here : b = a
    · subst here
      by_cases known : b ∈ g
      · simp [Registry.register, contains_registry, table_registry, known]
      · simp [Registry.register, contains_registry, known, alternatives_of_not_mem known]
    · rw [alternatives_modify_of_ne here]
      by_cases known : a ∈ g
      · simp [Registry.register, contains_registry, table_registry, known, here]
      · simp [Registry.register, contains_registry, table_registry, known, here]

theorem registry_addLines (isName : Char → Bool) (g : Grammar) (ls : List Line) :
    (g.addLines isName ls).registry = g.registry.addLines isName ls := by
  induction ls generalizing g with
  | nil => rfl
  | cons l ls ih =>
    refine (ih _).trans ?_
    exact congrArg (·.addLines isName ls) (registry_modify g l.name _)

theorem parse_registry (s : String) : Registry.parse s = (parse s).map registry := by
  have empty : (∅ : Grammar).registry = ∅ := rfl
  rw [Registry.parse, parse, parseTraced, Traced.result_bind]
  cases (readLines 1 (Text.lines s.toList)).result with
  | error => rfl
  | ok ls =>
    show Except.ok (Registry.ofLines ls) = Except.ok (ofLines ls).registry
    rw [Registry.ofLines, ofLines, registry_addLines, empty]

theorem registry_expose (g : Grammar) (a : Char) (bs : List Char) :
    (g.expose a bs).registry = g.registry.expose a bs := by
  induction bs generalizing g with
  | nil => rfl
  | cons b bs ih =>
    refine (ih _).trans ?_
    exact congrArg (·.expose a bs) (registry_modify g a _)

theorem registry_splitInto (g : Grammar) (a helper : Char) :
    (g.splitInto a helper).registry = g.registry.splitInto a helper := by
  rw [splitInto, addAlternatives, registry_modify, setAlternatives, registry_modify]
  rfl

theorem freshName_registry (g : Grammar) : g.registry.freshName = g.freshName := by
  have taken : (!g.registry.contains ·) = fun a => decide (a ∉ g) := by
    funext a
    rw [Bool.eq_iff_iff, Bool.not_eq_true', Bool.eq_false_iff, decide_eq_true_eq]
    exact contains_registry.not
  cases free : helperNames.find? (· ∉ g) <;>
    simp only [Registry.freshName, freshName, taken, free]

theorem split_registry (g : Grammar) (a : Char) :
    g.registry.split a = (g.split a).result.map registry := by
  have same : g.registry.recursive a = g.recursive a := rfl
  rw [Registry.split, result_split, same, freshName_registry]
  split
  · rfl
  · cases g.freshName with
    | error => rfl
    | ok helper =>
      show Except.ok (g.registry.splitInto a helper) = Except.ok (g.splitInto a helper).registry
      rw [registry_splitInto]

theorem eliminateFrom_registry (g : Grammar) (earlier remaining : List Char) :
    g.registry.eliminateFrom earlier remaining =
      (g.eliminateFrom earlier remaining).result.map registry := by
  induction remaining generalizing g earlier with
  | nil => rfl
  | cons a remaining ih =>
    rw [Registry.eliminateFrom, ← registry_expose, split_registry, result_eliminateFrom_cons]
    cases ((g.expose a earlier).split a).result with
    | error => rfl
    | ok h => exact ih h _

theorem apply_registry (g : Grammar) (op : Operation) :
    g.registry.apply op = (g.apply op).map registry := by
  cases op with
  | add a ps => exact congrArg Except.ok (registry_modify g a _).symm
  | set a ps => exact congrArg Except.ok (registry_modify g a _).symm
  | eliminate => exact eliminateFrom_registry g [] g.nonTerminals
  | copy => rfl

/-- One run on the containers is one run on the grammar. -/
theorem perform_registry (g : Grammar) (ops : List Operation) :
    g.registry.perform ops = (g.perform ops).map registry := by
  induction ops generalizing g with
  | nil => rfl
  | cons op ops ih =>
    rw [Registry.perform, perform, List.foldlM_cons, List.foldlM_cons, apply_registry]
    cases g.apply op with
    | error => rfl
    | ok h => exact ih h

end Grammar

namespace Registry

variable {r q : Registry} {ops : List Operation}

theorem exists_grammar_of_perform (start : r = ∅ ∨ ∃ s, parse s = .ok r)
    (ran : r.perform ops = .ok q) :
    ∃ g k : Grammar, (g = ∅ ∨ ∃ s, Grammar.parse s = .ok g) ∧ g.registry = r ∧
      g.perform ops = .ok k ∧ k.registry = q := by
  have held : ∃ g : Grammar, (g = ∅ ∨ ∃ s, Grammar.parse s = .ok g) ∧ g.registry = r := by
    rcases start with rfl | ⟨s, read⟩
    · exact ⟨∅, .inl rfl, rfl⟩
    · rw [Grammar.parse_registry] at read
      obtain ⟨g, grammar, rfl⟩ := exists_of_map_eq_ok read
      exact ⟨g, .inr ⟨s, grammar⟩, rfl⟩
  obtain ⟨g, made, rfl⟩ := held
  rw [Grammar.perform_registry] at ran
  obtain ⟨k, done, rfl⟩ := exists_of_map_eq_ok ran
  exact ⟨g, k, made, rfl, done, rfl⟩

/-- After any operations the list holds each key of the table once, a name without an entry has no
alternatives, and a walk through the list finds the entry of each name. A further operation puts new
names behind those that are there, and to add or set alternatives of a name leaves those of the
others alone. The containers hold what the same operations make of the grammar. -/
theorem lockStep_of_perform (start : r = ∅ ∨ ∃ s, parse s = .ok r) (ran : r.perform ops = .ok q) :
    q.LockStep ∧ (∀ a, a ∉ q.order → q.alternatives a = []) ∧
      (q.rules.map Rule.left = q.order ∧
        ∀ rule ∈ q.rules, q.table rule.left = some rule.alternatives) ∧
      (∀ op t, q.apply op = .ok t → q.order <+: t.order) ∧
      (∀ a b ps, b ≠ a → (q.addAlternatives a ps).alternatives b = q.alternatives b ∧
        (q.setAlternatives a ps).alternatives b = q.alternatives b) ∧
      ∃ g k : Grammar, (g = ∅ ∨ ∃ s, Grammar.parse s = .ok g) ∧ g.registry = r ∧
        g.perform ops = .ok k ∧ k.registry = q := by
  have begun : r.LockStep := by
    rcases start with rfl | ⟨s, read⟩
    · exact lockStep_empty
    · exact (extends_of_parse read).lockStep lockStep_empty
  have lockStep : q.LockStep := (extends_of_perform ran).lockStep begun
  refine ⟨lockStep, fun a absent => ?_, ⟨?_, ?_⟩, fun op t done => (extends_of_apply done).order,
    fun a b ps other => ⟨alternatives_modify_of_ne other, alternatives_modify_of_ne other⟩,
    exists_grammar_of_perform start ran⟩
  · have none : q.table a = none :=
      Option.not_isSome_iff_eq_none.1 fun key => absent ((lockStep.mem_order_iff a).2 key)
    rw [alternatives, none, Option.getD_none]
  · rw [rules, List.map_map]
    exact List.map_id' _
  · intro rule listed
    obtain ⟨a, ha, rfl⟩ := List.mem_map.1 listed
    obtain ⟨ps, found⟩ := Option.isSome_iff_exists.1 ((lockStep.mem_order_iff a).1 ha)
    show q.table a = some ((q.table a).getD [])
    rw [found, Option.getD_some]

def crossedExtended : Grammar where
  rules := [
    ⟨'S', ["AZ", "q"].map Body.ofString⟩,
    ⟨'A', ["dY"].map Body.ofString⟩,
    ⟨'B', []⟩,
    ⟨'Z', ["aZ", "e"].map Body.ofString⟩,
    ⟨'Y', ["ZcY", "e"].map Body.ofString⟩]
  nodup := by decide

/-- Between the operations that set `B` and add to `S`, an elimination registers two helpers. -/
theorem lockStep_of_perform_crossed :
    parse "S -> Sa A\nA -> Sc d" = .ok Grammar.crossed.registry ∧
      Grammar.crossed.registry.perform
          [.set 'B' [], .copy, .eliminate, .add 'S' [Body.ofString "q"]] =
        .ok crossedExtended.registry ∧
      crossedExtended.registry.LockStep ∧
      crossedExtended.registry.order <+:
        (crossedExtended.registry.setAlternatives 'X' []).order ∧
      (crossedExtended.registry.setAlternatives 'X' []).alternatives 'S' =
        crossedExtended.registry.alternatives 'S' := by
  have grammar : Grammar.parse "S -> Sa A\nA -> Sc d" = .ok .crossed := by decide +kernel
  have read : parse "S -> Sa A\nA -> Sc d" = .ok Grammar.crossed.registry := by
    rw [Grammar.parse_registry, grammar]
    rfl
  have done : Grammar.crossed.perform
      [.set 'B' [], .copy, .eliminate, .add 'S' [Body.ofString "q"]] = .ok crossedExtended := rfl
  have ran : Grammar.crossed.registry.perform
      [.set 'B' [], .copy, .eliminate, .add 'S' [Body.ofString "q"]] =
        .ok crossedExtended.registry := by
    rw [Grammar.perform_registry, done]
    rfl
  obtain ⟨lockStep, _, _, grows, frame, _⟩ := lockStep_of_perform (.inr ⟨_, read⟩) ran
  exact ⟨read, ran, lockStep, grows (.set 'X' []) _ rfl, (frame 'X' 'S' [] (by decide)).2⟩

end Registry

end LeftRecursion
