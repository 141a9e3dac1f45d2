import LeftRecursion.Proofs.Elimination.Events

/-!
# The events account for the result

The reports of splits name the helpers in the order in which they were added, and say how the
alternatives of a name were shared out between the name and its helper; a name that was neither split
nor substituted into is as it was (`Accounts`). The events are reported in the middle of the run, but
nothing touches a name after its turn, nor a helper after the turn that has added it, so they are true
of the result. A run that fails has reported as many splits as there were free helper names.
-/

namespace LeftRecursion

namespace Grammar

open Event

variable {g h k l : Grammar} {earlier remaining : List Char} {a helper : Char} {m n : Nat}
  {front behind : List Event} {e : Failure}

/-- A turn adds the helper that its report names, and that is the first free name. -/
theorem splits_treat_cases (ha : a ∈ k) (done : (k.treat earlier a).result = .ok l) :
    splits (k.treat earlier a).events = [] ∧ l.nonTerminals = k.nonTerminals ∨
      ∃ helper, splits (k.treat earlier a).events = [(a, helper)] ∧
        l.nonTerminals = k.nonTerminals ++ [helper] ∧
          k.freeHelperNames = helper :: l.freeHelperNames := by
  have here : a ∈ k.expose a earlier := (mem_expose ha earlier).2 ha
  have names : (k.expose a earlier).nonTerminals = k.nonTerminals := nonTerminals_expose ha earlier
  rw [result_treat] at done
  rw [events_treat, splits_append, splits_events_substituteAll, List.nil_append]
  rcases split_report_cases done with ⟨_, rfl, none⟩ | ⟨_, helper, fresh, rfl, report⟩
  · rw [none]
    exact .inl ⟨rfl, names⟩
  · have added := nonTerminals_splitInto here (not_mem_of_freshName fresh)
    rw [report, splits_splitReport]
    refine .inr ⟨helper, rfl, names ▸ added, ?_⟩
    rw [← freeHelperNames_congr names]
    exact freeHelperNames_eq_cons fresh added

theorem splits_treat_of_error (ha : a ∈ k) (failed : (k.treat earlier a).result = .error e) :
    splits (k.treat earlier a).events = [] ∧ k.freeHelperNames = [] := by
  rw [result_treat] at failed
  obtain ⟨exhausted, silent⟩ := events_split_of_error failed
  have taken : ∀ c ∈ helperNames, c ∈ k.expose a earlier := (freshName_eq_error_iff.1 exhausted).2
  constructor
  · rw [events_treat, splits_append, splits_events_substituteAll, silent]
    rfl
  · rw [← freeHelperNames_congr (nonTerminals_expose ha earlier)]
    exact List.filter_eq_nil_iff.2 fun c hc => by simpa using taken c hc

/-- What the splits reported in a run tell of its names: `remaining` are to be treated in `k`. -/
structure SplitsInOrder (k : Grammar) (remaining : List Char) (x : Traced Grammar) : Prop where
  order : ((splits x.events).map Prod.fst).Sublist remaining
  added : ∀ h, x.result = .ok h → h.nonTerminals = k.nonTerminals ++ (splits x.events).map Prod.snd
  exhausted : ∀ e, x.result = .error e → (splits x.events).map Prod.snd = k.freeHelperNames

theorem splitsInOrder_eliminateFrom (declared : ∀ c ∈ remaining, c ∈ k) :
    SplitsInOrder k remaining (k.eliminateFrom earlier remaining) := by
  induction remaining generalizing k earlier with
  | nil =>
    refine ⟨.slnil, fun h done => ?_, fun e failed => ?_⟩
    · cases done
      exact (List.append_nil _).symm
    · cases failed
  | cons a remaining ih =>
    obtain ⟨ha, declared⟩ := List.forall_mem_cons.1 declared
    cases turn : (k.treat earlier a).result with
    | error e =>
      obtain ⟨none, exhausted⟩ := splits_treat_of_error ha turn
      rw [eliminateFrom_cons_of_error turn]
      refine ⟨?_, fun h done => ?_, fun _ _ => ?_⟩
      · rw [none]
        exact List.nil_sublist _
      · cases done
      · rw [none, exhausted]
        rfl
    | ok l =>
      have later : SplitsInOrder l remaining (l.eliminateFrom (earlier ++ [a]) remaining) :=
        ih fun c hc => mem_turn ha ((result_treat k earlier a).symm.trans turn) (declared c hc)
      rw [eliminateFrom_cons_of_ok turn]
      rcases splits_treat_cases ha turn with ⟨none, names⟩ | ⟨helper, one, names, free⟩
      · refine ⟨?_, fun h done => ?_, fun e failed => ?_⟩
        · rw [splits_append, none]
          exact later.order.cons a
        · rw [splits_append, none, later.added h done, names]
          rfl
        · rw [splits_append, none, ← freeHelperNames_congr names]
          exact later.exhausted e failed
      · refine ⟨?_, fun h done => ?_, fun e failed => ?_⟩
        · rw [splits_append, one]
          exact later.order.cons_cons a
        · rw [splits_append, one, later.added h done, names, List.append_assoc]
          rfl
        · rw [splits_append, one, free, ← later.exhausted e failed]
          rfl

theorem splitsInOrder_eliminateTraced (g : Grammar) :
    SplitsInOrder g g.nonTerminals g.eliminateTraced :=
  splitsInOrder_eliminateFrom fun _ hc => hc

/-- The alternatives of `a` have been shared out: `others` of them hand over to `helper`, which
carries on behind `recursive` ones and may end. -/
structure SharedOut (h : Grammar) (a helper : Char) (recursive others : Nat) : Prop where
  recursive_pos : 1 ≤ recursive
  own : ∃ ps : List Body, ps.length = others ∧
    h.alternatives a = ps.map (· ++ [.nonTerminal helper])
  helper : ∃ ps : List Body, ps.length = recursive ∧
    h.alternatives helper = ps.map (· ++ [.nonTerminal helper]) ++ [Body.epsilon]

structure SplitTurn (g h : Grammar) (earlier : List Char) (a : Char) (remaining : List Char)
    (helper : Char) (m n : Nat) (k l : Grammar) : Prop where
  order : g.nonTerminals = earlier ++ a :: remaining
  cut : Cut g h earlier a remaining k l
  loops : (k.expose a earlier).recursive a ≠ []
  fresh : (k.expose a earlier).freshName = .ok helper
  split : l = (k.expose a earlier).splitInto a helper
  report : ((k.expose a earlier).split a).events = splitReport a helper m n
  recursive : m = ((k.expose a earlier).recursive a).length
  others : n = ((k.expose a earlier).others a).length

theorem exists_splitTurn (e : g.eliminate = .ok h)
    (reported : .split a helper m n ∈ g.eliminateTraced.events) :
    ∃ earlier remaining k l, SplitTurn g h earlier a remaining helper m n k l := by
  obtain ⟨earlier, remaining, order⟩ := exists_order_of_subject reported rfl
  obtain ⟨k, l, cut⟩ := exists_cut e order
  have reported := (cut.mem_split_iff order rfl (by simp)).1 reported
  have done := (cut.turn order).done
  rcases split_report_cases done with ⟨_, _, none⟩ | ⟨some, helper', fresh, same, report⟩
  · rw [none] at reported
    cases reported
  · rw [report] at reported
    obtain ⟨_, rfl, rfl, rfl⟩ := split_mem_splitReport_iff.1 reported
    exact ⟨earlier, remaining, k, l, order, cut, some, fresh, same, report, rfl, rfl⟩

namespace SplitTurn

variable (t : SplitTurn g h earlier a remaining helper m n k l)

include t

/-- The result has what the split left to the name and to the helper. -/
theorem sharedOut : h.SharedOut a helper m n := by
  have turn := t.cut.turn t.order
  have here := turn.mem_exposed t.order
  have absent : helper ∉ k.expose a earlier := not_mem_of_freshName t.fresh
  have new : helper ∉ g := fun hg =>
    absent ((mem_expose (turn.mem t.order) earlier).2 (turn.declared helper hg))
  have own := turn.alternatives_settled t.order
  have added : h.alternatives helper = l.alternatives helper := by
    refine turn.settled helper ?_ fun hg => absurd hg new
    rw [t.split]
    exact (mem_splitInto here absent).2 (.inr rfl)
  rw [t.split, alternatives_splitInto_self here absent] at own
  rw [t.split, alternatives_splitInto_helper here absent] at added
  refine ⟨?_, ⟨_, t.others.symm, own⟩, ((k.expose a earlier).recursive a).map List.tail, ?_, ?_⟩
  · rw [t.recursive]
    exact List.length_pos_iff.2 t.loops
  · rw [List.length_map, t.recursive]
  · rw [added, List.map_map]
    rfl

/-- Behind the report of a split stands the warning, if there is one, and then the next turn. -/
theorem behind_eq
    (found : g.eliminateTraced.events = front ++ .split a helper m n :: behind) :
    behind = (if n = 0 then [.emptied a] else []) ++
      (l.eliminateFrom (earlier ++ [a]) remaining).events := by
  have parts : g.eliminateTraced.events =
      ((g.eliminateFrom [] earlier).events ++ (k.substituteAll a earlier).events) ++
        .split a helper m n :: ((if n = 0 then [.emptied a] else []) ++
          (l.eliminateFrom (earlier ++ [a]) remaining).events) := by
    rw [t.cut.events_eq t.order, events_treat, t.report, splitReport]
    simp only [List.append_assoc, List.cons_append]
  have notInFront : .split a helper m n ∉
      (g.eliminateFrom [] earlier).events ++ (k.substituteAll a earlier).events := by
    intro early
    rcases List.mem_append.1 early with before | substitution
    · exact Cut.not_mem_before t.order rfl before
    · exact not_mem_substituteAll (by simp) substitution
  have notBehind : .split a helper m n ∉ (if n = 0 then [.emptied a] else []) ++
      (l.eliminateFrom (earlier ++ [a]) remaining).events := by
    intro late
    rcases List.mem_append.1 late with warning | after
    · split at warning <;> simp at warning
    · exact Cut.not_mem_after t.order rfl after
  exact ((List.append_cons_inj_of_notMem notInFront notBehind).1 (parts.symm.trans found)).2.2.symm

theorem emptied_mem_iff : .emptied a ∈ g.eliminateTraced.events ↔ n = 0 := by
  refine (t.cut.mem_split_iff t.order rfl (by simp)).trans ?_
  rw [t.report, emptied_mem_splitReport_iff]
  exact and_iff_right rfl

theorem head?_behind_iff
    (found : g.eliminateTraced.events = front ++ .split a helper m n :: behind) :
    behind.head? = some (.emptied a) ↔ n = 0 := by
  rw [t.behind_eq found]
  by_cases none : n = 0
  · simp only [none, if_true, List.cons_append, List.head?_cons]
  · simp only [none, if_false, List.nil_append, iff_false]
    exact fun next => Cut.not_mem_after t.order rfl (List.mem_of_head? next)

end SplitTurn

/-- A name that no event is about has in the end what it had at the start. -/
theorem alternatives_eq_of_silent (e : g.eliminate = .ok h) (ha : a ∈ g)
    (unsplit : ∀ helper m n, .split a helper m n ∉ g.eliminateTraced.events)
    (unsubstituted : ∀ b n, .substituted a b n ∉ g.eliminateTraced.events) :
    h.alternatives a = g.alternatives a := by
  obtain ⟨earlier, remaining, order⟩ := List.append_of_mem ha
  obtain ⟨k, l, cut⟩ := exists_cut e order
  have turn := cut.turn order
  have here := turn.mem order
  have silent : (k.substituteAll a earlier).events = [] := by
    apply List.eq_nil_iff_forall_not_mem.2
    intro event reported
    obtain ⟨b, n, rfl⟩ := eq_substituted_of_mem reported
    apply unsubstituted b n
    rw [cut.mem_treat_iff order rfl, events_treat]
    exact List.mem_append_left _ reported
  have exposed := expose_eq_self_of_silent here silent
  rcases split_report_cases turn.done with ⟨_, same, _⟩ | ⟨some, helper, fresh, _, _⟩
  · rw [exposed] at same
    rw [turn.alternatives_settled order, same, turn.alternatives_self order]
  · exact absurd (turn.reported _ (mem_events_split some fresh)) (unsplit _ _ _)

/-- The events tell how `h` has come from `g`. -/
structure Accounts (g h : Grammar) (events : List Event) : Prop where
  helpers : h.nonTerminals = g.nonTerminals ++ (splits events).map Prod.snd
  order : ((splits events).map Prod.fst).Sublist g.nonTerminals
  distinct : ((splits events).map Prod.fst).Nodup
  sharedOut : ∀ a helper m n, .split a helper m n ∈ events → h.SharedOut a helper m n
  warned : ∀ front a helper m n behind, events = front ++ .split a helper m n :: behind →
    (behind.head? = some (.emptied a) ↔ n = 0) ∧ (.emptied a ∈ events ↔ n = 0)
  kept : ∀ a ∈ g, (∀ helper m n, .split a helper m n ∉ events) →
    (∀ b n, .substituted a b n ∉ events) → h.alternatives a = g.alternatives a

/-- The events of an elimination account for its result, and if it fails they report one split for
each of the helper names that were free. -/
theorem accounts_and_length_splits (g : Grammar) :
    (∀ h, g.eliminate = .ok h → Accounts g h g.eliminateTraced.events) ∧
      (g.eliminate = .error .namesExhausted →
        (splits g.eliminateTraced.events).length = g.freeHelperNames.length) := by
  have names := splitsInOrder_eliminateTraced g
  constructor
  · intro h e
    refine ⟨names.added h e, names.order, names.order.nodup g.nodup_nonTerminals, ?_, ?_, ?_⟩
    · intro a helper m n reported
      obtain ⟨_, _, _, _, t⟩ := exists_splitTurn e reported
      exact t.sharedOut
    · intro front a helper m n behind found
      have reported : .split a helper m n ∈ g.eliminateTraced.events := by
        rw [found]
        exact List.mem_append_right _ (List.mem_cons_self ..)
      obtain ⟨_, _, _, _, t⟩ := exists_splitTurn e reported
      exact ⟨t.head?_behind_iff found, t.emptied_mem_iff⟩
    · exact fun a ha unsplit unsubstituted => alternatives_eq_of_silent e ha unsplit unsubstituted
  · intro failed
    rw [← names.exhausted _ failed, List.length_map]

/-- `S` and `A` are split, but all helper names are declared except for one. -/
def crowded : Grammar where
  rules := [⟨'S', ["Sa", "b"].map Body.ofString⟩, ⟨'A', ["Aa", "b"].map Body.ofString⟩] ++
    helperNames.tail.map fun a => ⟨a, [Body.ofString "a"]⟩
  nodup := by decide

theorem accounts_and_length_splits_crowded :
    (crossed.eliminate = .ok crossedFreed ∧
      splits crossed.eliminateTraced.events = [('S', 'Z'), ('A', 'Y')] ∧
        Accounts crossed crossedFreed crossed.eliminateTraced.events) ∧
      crowded.eliminate = .error .namesExhausted ∧
        (splits crowded.eliminateTraced.events).length = crowded.freeHelperNames.length := by
  have exhausted : crowded.eliminate = .error .namesExhausted := rfl
  exact ⟨⟨eliminate_crossed, rfl, (accounts_and_length_splits crossed).1 _ eliminate_crossed⟩,
    exhausted, (accounts_and_length_splits crowded).2 exhausted⟩

end Grammar

end LeftRecursion
