import LeftRecursion.Proofs.Elimination.HelperUse
import LeftRecursion.Proofs.Elimination.Shape

/-!
# Direct left recursion

After the elimination no name of the input has an alternative that starts with it. A helper has one
if the name it was split from had come to stand for itself alone: nothing follows the leading name,
so the helper comes first in its own alternative. A name comes to stand for itself alone by unit
alternatives of earlier names, but only of names that are not split, because a split puts a helper
behind every alternative.
-/

namespace LeftRecursion

namespace Grammar

variable {g h k : Grammar} {earlier remaining : List Char} {a b c helper : Char}

theorem unitStep_congr (same : g.alternatives a = h.alternatives a) :
    g.UnitStep a c ↔ h.UnitStep a c := by
  rw [UnitStep, UnitStep, same]

theorem UnitStep.leadsAtOnce (unit : g.UnitStep a b) : g.LeadsAtOnce a b :=
  ⟨_, unit, by simp⟩

theorem unitStep_substitute (nonempty : g.NoEmptyBody) :
    (g.substitute a b).UnitStep a c ↔
      g.UnitStep a c ∧ c ≠ b ∨ g.UnitStep a b ∧ g.UnitStep b c := by
  rw [UnitStep, mem_alternatives_substitute]
  apply or_congr
  · simp [UnitStep]
  · constructor
    · rintro ⟨_, q, hq, d, hd, alone⟩
      rcases List.append_eq_singleton_iff.1 alone.symm with ⟨none, _⟩ | ⟨rfl, rfl⟩
      · exact absurd none (nonempty b d hd)
      · exact ⟨hq, hd⟩
    · intro ⟨first, second⟩
      exact ⟨rfl, [], first, _, second, rfl⟩

theorem not_unitStep_splitInto (ha : a ∈ g) (hh : helper ∉ g) (nonempty : g.NoEmptyBody) :
    ¬(g.splitInto a helper).UnitStep a c := by
  intro unit
  obtain ⟨q, hq, _, same⟩ := (mem_alternatives_splitInto_self ha hh).1 unit
  rcases List.append_eq_singleton_iff.1 same.symm with ⟨none, _⟩ | ⟨_, none⟩
  · exact nonempty a q hq none
  · cases none

/-- The helper comes first in its own alternative if nothing followed the leading `a`. -/
theorem leadsAtOnce_helper_iff (ha : a ∈ g) (hh : helper ∉ g) (unused : ¬g.Mentions helper) :
    (g.splitInto a helper).LeadsAtOnce helper helper ↔ g.UnitStep a a := by
  constructor
  · rintro ⟨p, hp, starts⟩
    rcases (mem_alternatives_splitInto_helper ha hh).1 hp with ⟨q, hq, rfl⟩ | rfl
    · cases q with
      | nil => exact hq
      | cons s q =>
        have first : s = .nonTerminal helper := by simpa using starts
        exact absurd (.intro hq (by simp [first])) unused
    · simp [Body.epsilon] at starts
  · intro unit
    refine ⟨[.nonTerminal helper], ?_, by simp⟩
    exact (mem_alternatives_splitInto_helper ha hh).2 (.inl ⟨[], unit, rfl⟩)

def settled (g : Grammar) (names : List Char) : List Char :=
  names.filter (¬g.ReturnsEarly ·)

theorem settled_concat_of_returnsEarly (names : List Char) (returns : g.ReturnsEarly a) :
    g.settled (names ++ [a]) = g.settled names := by
  simp [settled, returns]

theorem mem_settled_concat_iff (names : List Char) (steady : ¬g.ReturnsEarly a) (x : Char) :
    x ∈ g.settled (names ++ [a]) ↔ x ∈ a :: g.settled names := by
  simp [settled, steady, or_comm]

def namesBefore (g : Grammar) (a : Char) : List Char :=
  g.nonTerminals.take (g.nonTerminals.idxOf a)

theorem namesBefore_eq (order : g.nonTerminals = earlier ++ a :: remaining) :
    g.namesBefore a = earlier := by
  rw [namesBefore, idxOf_eq_length order, order, List.take_left]

/-- Unit alternatives lead from `a` back to `a`, and all names on the way come before `a` and are
not split. -/
def ReturnsAlone (g : Grammar) (a : Char) : Prop :=
  Walk g.UnitStep (g.settled (g.namesBefore a)) a a

instance (g : Grammar) : DecidablePred g.ReturnsAlone := fun a =>
  inferInstanceAs (Decidable (Walk g.UnitStep (g.settled (g.namesBefore a)) a a))

theorem NoUnitCycle.not_returnsAlone (acyclic : g.NoUnitCycle) : ¬g.ReturnsAlone a := by
  intro alone
  have w : Walk g.UnitStep g.nonTerminals a a :=
    alone.mono fun x hx => List.mem_of_mem_take (List.mem_filter.1 hx).1
  exact acyclic a (transGen_unitStep_iff_walk.2 w)

theorem returnsEarly_of_walk (order : g.nonTerminals = earlier ++ a :: remaining)
    (w : Walk g.UnitStep (g.settled earlier) a a) : g.ReturnsEarly a := by
  apply (returnsEarly_iff_walk order).2
  exact (w.imp fun _ _ => UnitStep.leadsAtOnce).mono fun x hx => (List.mem_filter.1 hx).1

/-- A stage at which the unit alternatives of the treated names are known: none if the name has been
split, and otherwise those that lead on from the names treated before. -/
structure UnitStage (g : Grammar) (earlier : List Char) (h : Grammar) : Prop where
  stage : Stage g earlier h
  declared : h.HelperNamesDeclared
  unit : ∀ {l r b}, earlier = l ++ b :: r → ∀ {c},
    h.UnitStep b c ↔ ¬g.ReturnsEarly b ∧ c ∉ l ∧ Walk g.UnitStep (g.settled l) b c
  helpers : (∃ c ∈ h, c ∉ g ∧ h.LeadsAtOnce c c) ↔ ∃ b ∈ earlier, g.ReturnsAlone b

namespace UnitStage

theorem start (nonempty : g.NoEmptyBody) (declared : g.HelperNamesDeclared) : UnitStage g [] g where
  stage := .start nonempty
  declared := declared
  unit := by simp
  helpers := by
    simp only [List.not_mem_nil, false_and, exists_false, iff_false]
    rintro ⟨c, hc, new, _⟩
    exact new hc

section Turn

variable (s : UnitStage g earlier h) (order : g.nonTerminals = earlier ++ a :: remaining)

include s order

theorem unitStep_exposed {l r : List Char} (split : earlier = l ++ r) :
    (h.expose a l).UnitStep a c ↔ c ∉ l ∧ Walk g.UnitStep (g.settled l) a c := by
  induction l using List.reverseRecOn generalizing r c with
  | nil =>
    have ha := mem_of_order order
    have untouched := s.stage.pending a ha fun here => ne_of_mem_before order here rfl
    rw [expose_nil, unitStep_congr untouched, settled, List.filter_nil, walk_nil]
    simp
  | append_singleton l b ih =>
    have split' : earlier = l ++ b :: r := by simpa using split
    have hb : b ∈ earlier := by rw [split']; simp
    have order' : g.nonTerminals = l ++ b :: (r ++ a :: remaining) := by
      rw [order, split', List.append_assoc, List.cons_append]
    have first : b ∉ l := fun hbl => ne_of_mem_before order' hbl rfl
    have nonempty := s.stage.nonempty.steps (s.stage.steps_exposed order l (by simp_all))
    have row : (h.expose a l).alternatives b = h.alternatives b :=
      alternatives_expose_of_ne (ne_of_mem_before order hb) l
    have along (d : Char) : (h.expose a l).UnitStep a d ↔
        d ∉ l ∧ Walk g.UnitStep (g.settled l) a d := ih split'
    rw [expose_concat, unitStep_substitute nonempty, along, along, unitStep_congr row,
      s.unit split', List.mem_append, List.mem_singleton]
    by_cases returns : g.ReturnsEarly b
    · rw [settled_concat_of_returnsEarly l returns]
      tauto
    · have noLoop : ¬Walk g.UnitStep (g.settled l) b b := fun w =>
        returns (returnsEarly_of_walk order' w)
      have onward : c = b → ¬Walk g.UnitStep (g.settled l) b c := by
        rintro rfl
        exact noLoop
      rw [walk_congr (mem_settled_concat_iff l returns), walk_cons]
      tauto

theorem unitStep_self_iff : (h.expose a earlier).UnitStep a a ↔ g.ReturnsAlone a := by
  rw [s.unitStep_exposed order (List.append_nil earlier).symm, ReturnsAlone, namesBefore_eq order]
  exact and_iff_right fun ha => ne_of_mem_before order ha rfl

theorem recursive_eq_nil_iff_not_returnsEarly :
    (h.expose a earlier).recursive a = [] ↔ ¬g.ReturnsEarly a :=
  recursive_eq_nil_iff.trans (s.stage.leadsAtOnce_self_iff order).not

variable (done : ((h.expose a earlier).split a).result = .ok k)

include done

theorem steps_turn : Relation.ReflTransGen (Step g.nonTerminals) h k := by
  have ha := mem_of_order order
  apply Grammar.steps_turn ha (s.stage.mem ha) _ done
  intro b hb
  refine ⟨?_, ne_of_mem_before order hb⟩
  rw [order]
  exact List.mem_append_left _ hb

theorem unitStep_turn :
    k.UnitStep a c ↔ ¬g.ReturnsEarly a ∧ c ∉ earlier ∧ Walk g.UnitStep (g.settled earlier) a c := by
  have ha := mem_of_order order
  have loops := s.recursive_eq_nil_iff_not_returnsEarly order
  rcases split_cases done with ⟨none, rfl⟩ | ⟨found, helper, fresh, rfl⟩
  · rw [s.unitStep_exposed order (List.append_nil earlier).symm]
    exact (and_iff_right (loops.1 none)).symm
  · have returns : g.ReturnsEarly a := not_not.1 (loops.not.1 found)
    have exposed := s.stage.steps_exposed order earlier fun _ hb => hb
    have unit : ¬((h.expose a earlier).splitInto a helper).UnitStep a c :=
      not_unitStep_splitInto (steps_mem exposed (s.stage.mem ha)) (not_mem_of_freshName fresh)
        (s.stage.nonempty.steps exposed)
    exact iff_of_false unit fun h => h.1 returns

/-- Only the helper of `a` can become another helper that leads to itself. -/
theorem helpers_turn :
    (∃ c ∈ k, c ∉ g ∧ k.LeadsAtOnce c c) ↔
      (∃ c ∈ h, c ∉ g ∧ h.LeadsAtOnce c c) ∨ g.ReturnsAlone a := by
  have hg := mem_of_order order
  have ha := s.stage.mem hg
  have exposed := s.stage.steps_exposed order earlier fun _ hb => hb
  have old {c : Char} (hc : c ∈ h) (new : c ∉ g) : k.LeadsAtOnce c c ↔ h.LeadsAtOnce c c := by
    apply leadsAtOnce_congr
    apply alternatives_turn_of_ne ha done hc
    rintro rfl
    exact new hg
  have kept {c : Char} (hc : c ∈ h) : c ∈ k := steps_mem (s.steps_turn order done) hc
  rcases split_cases done with ⟨none, rfl⟩ | ⟨found, helper, fresh, rfl⟩
  · have steady := (s.recursive_eq_nil_iff_not_returnsEarly order).1 none
    have alone : ¬g.ReturnsAlone a := by
      intro alone
      rw [ReturnsAlone, namesBefore_eq order] at alone
      exact steady (returnsEarly_of_walk order alone)
    rw [or_iff_left alone]
    apply exists_congr
    intro c
    rw [mem_expose ha]
    exact and_congr_right fun hc => and_congr_right fun new => old hc new
  · have absent := not_mem_of_freshName fresh
    have unused := (s.declared.steps exposed).not_mentions fresh
    have own := leadsAtOnce_helper_iff (steps_mem exposed ha) absent unused
    rw [s.unitStep_self_iff order] at own
    constructor
    · rintro ⟨c, hc, new, leads⟩
      rcases (mem_splitInto (steps_mem exposed ha) absent).1 hc with hc | rfl
      · have hc := (mem_expose ha earlier).1 hc
        exact .inl ⟨c, hc, new, (old hc new).1 leads⟩
      · exact .inr (own.1 leads)
    · rintro (⟨c, hc, new, leads⟩ | alone)
      · exact ⟨c, kept hc, new, (old hc new).2 leads⟩
      · have new : helper ∉ g := fun hg => absent (steps_mem exposed (s.stage.mem hg))
        have declared := (mem_splitInto (steps_mem exposed ha) absent).2 (.inr rfl)
        exact ⟨helper, declared, new, own.2 alone⟩

theorem turn : UnitStage g (earlier ++ [a]) k where
  stage := by
    rcases s.stage.turn order with ⟨k', done', s'⟩ | ⟨_, failed⟩
    · cases done.symm.trans done'
      exact s'
    · cases done.symm.trans failed
  declared := s.declared.steps (s.steps_turn order done)
  unit := by
    intro l r b split c
    rcases eq_or_split_of_concat split with ⟨rfl, rfl⟩ | ⟨r, rfl⟩
    · exact s.unitStep_turn order done
    · have hb : b ∈ l ++ b :: r := by simp
      have declared : b ∈ g := by
        rw [mem_iff, order]
        exact List.mem_append_left _ hb
      have untouched : k.alternatives b = h.alternatives b :=
        alternatives_turn_of_ne (s.stage.mem (mem_of_order order)) done (s.stage.mem declared)
          (ne_of_mem_before order hb)
      rw [unitStep_congr untouched]
      exact s.unit rfl
  helpers := by
    rw [s.helpers_turn order done, s.helpers]
    simp only [List.mem_append, List.mem_singleton, or_and_right, exists_or, exists_eq_left]

end Turn

theorem run (s : UnitStage g earlier h) (order : g.nonTerminals = earlier ++ remaining)
    (done : (h.eliminateFrom earlier remaining).result = .ok k) : UnitStage g g.nonTerminals k := by
  induction remaining generalizing earlier h with
  | nil =>
    cases done
    rwa [order, List.append_nil]
  | cons a remaining ih =>
    rw [result_eliminateFrom_cons] at done
    cases turned : ((h.expose a earlier).split a).result with
    | error =>
      rw [turned] at done
      cases done
    | ok l =>
      rw [turned] at done
      exact ih (s.turn order turned) (by simpa using order) done

end UnitStage

theorem unitStage_of_eliminate (nonempty : g.NoEmptyBody) (declared : g.HelperNamesDeclared)
    (e : g.eliminate = .ok h) : UnitStage g g.nonTerminals h :=
  (UnitStage.start nonempty declared).run (List.nil_append _).symm e

/-- After the elimination of a grammar that was read, no name of the input leads to itself at once.
If the input declares the helper names it uses, no helper does either, exactly if no name returns
alone. -/
theorem not_leadsAtOnce_self_iff {text : String} (read : parse text = .ok g)
    (e : g.eliminate = .ok h) :
    (∀ a ∈ g, ¬h.LeadsAtOnce a a) ∧
      (g.HelperNamesDeclared →
        ((∀ a ∈ h, ¬h.LeadsAtOnce a a) ↔ ∀ a ∈ g, ¬g.ReturnsAlone a)) := by
  have nonempty := (writable_of_parse read).noEmptyBody
  have input : ∀ a ∈ g, ¬h.LeadsAtOnce a a := by
    intro a ha leads
    exact Nat.lt_irrefl _ ((stage_of_eliminate nonempty e).older ha leads)
  refine ⟨input, fun declared => ?_⟩
  have helpers := (unitStage_of_eliminate nonempty declared e).helpers
  constructor
  · intro free a ha alone
    obtain ⟨c, hc, _, leads⟩ := helpers.2 ⟨a, ha, alone⟩
    exact free c hc leads
  · intro free a ha leads
    by_cases known : a ∈ g
    · exact input a known leads
    · obtain ⟨b, hb, alone⟩ := helpers.1 ⟨a, ha, known, leads⟩
      exact free b hb alone

theorem not_leadsAtOnce_self_iff_crossed :
    parse "S -> Sa A\nA -> Sc d" = .ok crossed ∧ crossed.eliminate = .ok crossedFreed ∧
      (∀ a ∈ crossed, ¬crossedFreed.LeadsAtOnce a a) ∧
        crossed.HelperNamesDeclared ∧ (∀ a ∈ crossed, ¬crossed.ReturnsAlone a) ∧
          ∀ a ∈ crossedFreed, ¬crossedFreed.LeadsAtOnce a a := by
  have read : parse "S -> Sa A\nA -> Sc d" = .ok crossed := by decide +kernel
  have declared : crossed.HelperNamesDeclared := by decide
  have acyclic : crossed.NoUnitCycle := by decide
  have steady : ∀ a ∈ crossed, ¬crossed.ReturnsAlone a := fun a _ => acyclic.not_returnsAlone
  have ⟨input, all⟩ := not_leadsAtOnce_self_iff read eliminate_crossed
  exact ⟨read, eliminate_crossed, input, declared, steady, (all declared).2 steady⟩

def idle : Grammar where
  rules := [⟨'S', ["S", "a"].map Body.ofString⟩]
  nodup := by decide

def idleFreed : Grammar where
  rules := [
    ⟨'S', ["aZ"].map Body.ofString⟩,
    ⟨'Z', ["Z", "e"].map Body.ofString⟩]
  nodup := by decide

/-- Nothing follows the leading `S`, so `Z` comes first in its own alternative. -/
theorem leadsAtOnce_self_idle :
    parse "S -> S a" = .ok idle ∧ idle.eliminate = .ok idleFreed ∧
      'Z' ∈ idleFreed ∧ idleFreed.LeadsAtOnce 'Z' 'Z' :=
  ⟨by decide +kernel, rfl, by decide, by decide⟩

end Grammar

end LeftRecursion
