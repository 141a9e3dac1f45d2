import LeftRecursion.Proofs.Elimination.Events
import LeftRecursion.Proofs.Elimination.HelperUse

/-!
# Names that lose all their alternatives

A name is left without alternatives if its leading names, followed through names that come no later,
never come to an alternative that starts outside these. No step up to the turn of the name changes
whether they do (`Step.leadsOut_iff`), and after its turn all its alternatives start outside. The loss
is reported only of a name that was split: one that loses its alternatives to the substitution of a
name without any does so silently.
-/

namespace LeftRecursion

namespace Grammar

variable {g h k l : Grammar} {names earlier more remaining : List Char} {a b c d helper : Char}
  {s : String}

/-- Some alternative of `a` starts with none of `names`. -/
def StartsOutside (g : Grammar) (names : List Char) (a : Char) : Prop :=
  ∃ p ∈ g.alternatives a, ∀ c ∈ names, ¬p.StartsWith c

instance (g : Grammar) (names : List Char) : DecidablePred (g.StartsOutside names) := fun a =>
  have (p : Body) := List.decidableBAll (fun c => ¬p.StartsWith c) names
  List.decidableBEx (fun p : Body => ∀ c ∈ names, ¬p.StartsWith c) (g.alternatives a)

/-- From `a` leading names, all of them out of `names`, come to one that starts outside, which may be
`a` itself. -/
inductive LeadsOut (g : Grammar) (names : List Char) : Char → Prop
  | here {a : Char} : g.StartsOutside names a → LeadsOut g names a
  | past {a b : Char} : g.LeadsAtOnce a b → b ∈ names → LeadsOut g names b → LeadsOut g names a

theorem LeadsOut.of_walk (w : Walk g.LeadsAtOnce names a b) (hb : b ∈ names)
    (out : g.LeadsOut names b) : g.LeadsOut names a := by
  induction w with
  | single leads => exact .past leads hb out
  | tail _ stop leads ih => exact ih stop (.past leads hb out)

theorem leadsOut_iff :
    g.LeadsOut names a ↔ g.StartsOutside names a ∨
      ∃ b ∈ names, Walk g.LeadsAtOnce names a b ∧ g.StartsOutside names b := by
  constructor
  · intro out
    induction out with
    | here outside => exact .inl outside
    | past leads hb _ ih =>
      rcases ih with outside | ⟨c, hc, w, outside⟩
      · exact .inr ⟨_, hb, .single leads, outside⟩
      · exact .inr ⟨c, hc, Walk.trans (.single leads) hb w, outside⟩
  · rintro (outside | ⟨b, hb, w, outside⟩)
    · exact .here outside
    · exact .of_walk w hb (.here outside)

instance (g : Grammar) (names : List Char) : DecidablePred (g.LeadsOut names) := fun a =>
  have := List.decidableBEx (fun b => Walk g.LeadsAtOnce names a b ∧ g.StartsOutside names b) names
  decidable_of_iff _ leadsOut_iff.symm

theorem LeadsOut.alternatives_ne_nil (out : g.LeadsOut names a) : g.alternatives a ≠ [] := by
  cases out with
  | here outside =>
    obtain ⟨_, hp, _⟩ := outside
    exact List.ne_nil_of_mem hp
  | past leads _ _ =>
    obtain ⟨_, hp, _⟩ := leads
    exact List.ne_nil_of_mem hp

theorem startsOutside_congr (same : g.alternatives a = h.alternatives a) :
    g.StartsOutside names a ↔ h.StartsOutside names a := by
  unfold StartsOutside
  rw [same]

theorem startsOutside_substitute (nonempty : g.NoEmptyBody) (hb : b ∈ names) :
    (g.substitute a b).StartsOutside names a ↔
      g.StartsOutside names a ∨ g.LeadsAtOnce a b ∧ g.StartsOutside names b := by
  constructor
  · rintro ⟨p, hp, outside⟩
    rcases mem_alternatives_substitute.1 hp with ⟨hp, _⟩ | ⟨_, q, hq, d, hd, rfl⟩
    · exact .inl ⟨p, hp, outside⟩
    · refine .inr ⟨⟨_, hq, by simp⟩, d, hd, fun c hc starts => outside c hc ?_⟩
      exact (Body.startsWith_append (nonempty b d hd)).2 starts
  · rintro (⟨p, hp, outside⟩ | ⟨⟨p, hp, starts⟩, d, hd, outside⟩)
    · exact ⟨p, mem_alternatives_substitute.2 (.inl ⟨hp, fun _ => outside b hb⟩), outside⟩
    · rw [Body.startsWith_iff_cons_tail] at starts
      refine ⟨d ++ p.tail, ?_, fun c hc starts' => outside c hc ?_⟩
      · exact mem_alternatives_substitute.2 (.inr ⟨rfl, _, starts ▸ hp, d, hd, rfl⟩)
      · exact (Body.startsWith_append (nonempty b d hd)).1 starts'

theorem startsOutside_splitInto (ha : a ∈ g) (hh : helper ∉ g) (nonempty : g.NoEmptyBody)
    (listed : a ∈ names) :
    (g.splitInto a helper).StartsOutside names a ↔ g.StartsOutside names a := by
  constructor
  · rintro ⟨p, hp, outside⟩
    obtain ⟨q, hq, _, rfl⟩ := (mem_alternatives_splitInto_self ha hh).1 hp
    refine ⟨q, hq, fun c hc starts => outside c hc ?_⟩
    exact (Body.startsWith_append (nonempty a q hq)).2 starts
  · rintro ⟨q, hq, outside⟩
    refine ⟨q ++ [.nonTerminal helper], ?_, fun c hc starts => outside c hc ?_⟩
    · exact (mem_alternatives_splitInto_self ha hh).2 ⟨q, hq, outside a listed, rfl⟩
    · exact (Body.startsWith_append (nonempty a q hq)).1 starts

/-- Of two grammars that differ at `a` only, the one leads out where the other does if `a` does. -/
theorem LeadsOut.of_row (others : ∀ c ∈ names, c ≠ a → h.alternatives c = g.alternatives c)
    (outside : g.StartsOutside names a → h.LeadsOut names a)
    (onward : ∀ d ∈ names, g.LeadsAtOnce a d → h.LeadsOut names d → h.LeadsOut names a)
    (hc : c ∈ names) (out : g.LeadsOut names c) : h.LeadsOut names c := by
  induction out with
  | @here c starts =>
    by_cases same : c = a
    · subst same
      exact outside starts
    · exact .here ((startsOutside_congr (others c hc same)).2 starts)
  | @past c d leads hd _ ih =>
    by_cases same : c = a
    · subst same
      exact onward d hd leads (ih hd)
    · exact .past ((leadsAtOnce_congr (others c hc same)).2 leads) hd (ih hd)

/-- Where `a` led to `b` it leads past it now, so it leads out as before. -/
theorem leadsOut_substitute (nonempty : g.NoEmptyBody) (hb : b ∈ names) (distinct : b ≠ a)
    (hc : c ∈ names) : (g.substitute a b).LeadsOut names c ↔ g.LeadsOut names c := by
  have row (c : Char) (other : c ≠ a) : (g.substitute a b).alternatives c = g.alternatives c := by
    rw [alternatives_substitute, if_neg other]
  constructor
  · refine LeadsOut.of_row (fun c _ other => (row c other).symm) ?outside ?onward hc
    case outside =>
      intro starts
      rcases (startsOutside_substitute nonempty hb).1 starts with starts | ⟨leads, starts⟩
      · exact .here starts
      · exact .past leads hb (.here starts)
    case onward =>
      intro d hd leads out
      rcases (leadsAtOnce_substitute nonempty).1 leads with ⟨leads, _⟩ | ⟨first, second⟩
      · exact .past leads hd out
      · exact .past first hb (.past second hd out)
  · refine LeadsOut.of_row (fun c _ other => row c other) ?outside ?onward hc
    case outside =>
      exact fun starts => .here ((startsOutside_substitute nonempty hb).2 (.inl starts))
    case onward =>
      intro d hd leads out
      by_cases replaced : d = b
      · subst replaced
        -- What comes behind `b` comes behind `a` at once.
        cases out with
        | here starts =>
          have starts := (startsOutside_congr (row d distinct)).1 starts
          exact .here ((startsOutside_substitute nonempty hb).2 (.inr ⟨leads, starts⟩))
        | past further he out =>
          have further := (leadsAtOnce_congr (row d distinct)).1 further
          exact .past ((leadsAtOnce_substitute nonempty).2 (.inr ⟨leads, further⟩)) he out
      · exact .past ((leadsAtOnce_substitute nonempty).2 (.inl ⟨leads, replaced⟩)) hd out

/-- A name leads out without the leads back to itself. -/
theorem leadsOut_splitInto (ha : a ∈ g) (hh : helper ∉ g) (nonempty : g.NoEmptyBody)
    (declared : ∀ c ∈ names, c ∈ g) (listed : a ∈ names) (hc : c ∈ names) :
    (g.splitInto a helper).LeadsOut names c ↔ g.LeadsOut names c := by
  have row (c : Char) (hc : c ∈ names) (other : c ≠ a) :
      (g.splitInto a helper).alternatives c = g.alternatives c :=
    alternatives_splitInto_of_ne ha hh other fun same => hh (same ▸ declared c hc)
  have outside := startsOutside_splitInto ha hh nonempty listed
  constructor
  · refine LeadsOut.of_row (fun c hc other => (row c hc other).symm) ?_ ?_ hc
    · exact fun starts => .here (outside.1 starts)
    · exact fun d hd leads out => .past ((leadsAtOnce_splitInto ha hh nonempty).1 leads).1 hd out
  · refine LeadsOut.of_row row ?_ ?_ hc
    · exact fun starts => .here (outside.2 starts)
    · intro d hd leads out
      by_cases loop : d = a
      · exact loop ▸ out
      · exact .past ((leadsAtOnce_splitInto ha hh nonempty).2 ⟨leads, loop⟩) hd out

theorem Step.leadsOut_iff (step : Step names g h) (nonempty : g.NoEmptyBody)
    (declared : ∀ c ∈ names, c ∈ g) (hc : c ∈ names) :
    h.LeadsOut names c ↔ g.LeadsOut names c := by
  cases step with
  | substitute _ hb distinct _ => exact leadsOut_substitute nonempty hb distinct hc
  | split listed ha _ fresh =>
    exact leadsOut_splitInto ha (not_mem_of_freshName fresh) nonempty declared listed hc

theorem steps_leadsOut_iff (steps : Relation.ReflTransGen (Step names) g h)
    (nonempty : g.NoEmptyBody) (declared : ∀ c ∈ names, c ∈ g) (hc : c ∈ names) :
    h.LeadsOut names c ↔ g.LeadsOut names c := by
  induction steps with
  | refl => exact Iff.rfl
  | tail steps step ih =>
    have declared' : ∀ c ∈ names, c ∈ _ := fun c hc => steps_mem steps (declared c hc)
    exact (step.leadsOut_iff (nonempty.steps steps) declared' hc).trans ih

/-- Treating more names leads from one stage to a later one. -/
theorem Stage.advance (stage : Stage g earlier h)
    (order : g.nonTerminals = earlier ++ (more ++ remaining))
    (done : (h.eliminateFrom earlier more).result = .ok k) : Stage g (earlier ++ more) k := by
  induction more generalizing earlier h with
  | nil =>
    cases done
    rwa [List.append_nil]
  | cons a more ih =>
    obtain ⟨l, turn, done⟩ := exists_turn_of_eliminateFrom done
    have next : Stage g (earlier ++ [a]) l := by
      rcases stage.turn order with ⟨l', turn', next⟩ | ⟨_, failed⟩
      · cases turn.symm.trans turn'
        exact next
      · cases turn.symm.trans failed
    rw [← List.singleton_append, ← List.append_assoc]
    exact ih next (by simpa using order) done

theorem mem_of_mem_upTo (order : g.nonTerminals = earlier ++ a :: remaining)
    (hc : c ∈ earlier ++ [a]) : c ∈ g := by
  rw [mem_iff, order, ← List.singleton_append, ← List.append_assoc]
  exact List.mem_append_left _ hc

section Turn

variable (cut : Cut g h earlier a remaining k l) (order : g.nonTerminals = earlier ++ a :: remaining)

include cut order

/-- The steps up to the turn of `a` and in it are at names up to `a`. -/
theorem Cut.steps : Relation.ReflTransGen (Step (earlier ++ [a])) g l := by
  have nodup : ([] ++ (earlier ++ [a])).Nodup := by
    have nodup := g.nodup_nonTerminals
    rw [order, ← List.singleton_append, ← List.append_assoc] at nodup
    exact (List.nodup_append.1 nodup).1
  have reached : (g.eliminateFrom [] (earlier ++ [a])).result = .ok l := by
    rw [eliminateFrom_append, Traced.result_bind, cut.before]
    exact congrArg Traced.result (eliminateFrom_cons_of_ok cut.treated)
  have steps : Relation.ReflTransGen (Step ([] ++ (earlier ++ [a]))) g l :=
    steps_eliminateFrom nodup (fun _ hc => mem_of_mem_upTo order hc) reached
  exact steps

/-- A name has to be split exactly if it returns to itself early. -/
theorem Cut.recursive_ne_nil_iff (nonempty : g.NoEmptyBody) :
    (k.expose a earlier).recursive a ≠ [] ↔ g.ReturnsEarly a := by
  have stage : Stage g ([] ++ earlier) k := (Stage.start nonempty).advance order cut.before
  rw [← stage.leadsAtOnce_self_iff order, Ne, recursive_eq_nil_iff, not_not]
  exact Iff.rfl

end Turn

theorem alternatives_eliminate_eq_nil_iff (nonempty : g.NoEmptyBody) (e : g.eliminate = .ok h)
    (ha : a ∈ g) : h.alternatives a = [] ↔ ¬g.LeadsOut (g.namesUpTo a) a := by
  obtain ⟨earlier, remaining, order⟩ := List.append_of_mem ha
  obtain ⟨k, l, cut⟩ := exists_cut e order
  have own := (cut.turn order).alternatives_settled order
  have declared : ∀ c ∈ earlier ++ [a], c ∈ g := fun _ hc => mem_of_mem_upTo order hc
  rw [namesUpTo_eq order, ← steps_leadsOut_iff (cut.steps order) nonempty declared (by simp)]
  constructor
  · intro none out
    exact out.alternatives_ne_nil (own ▸ none)
  · intro inside
    -- After the turn of `a` an alternative starts with no name up to `a`.
    apply List.eq_nil_iff_forall_not_mem.2
    intro p hp
    refine inside (.here ⟨p, own ▸ hp, fun c hc starts => ?_⟩)
    exact (((stage_of_eliminate nonempty e).leading order).1 ⟨p, hp, starts⟩).1 hc

/-- The loss of all alternatives is reported of the names that return to themselves early, and of no
others. -/
theorem emptied_mem_iff (nonempty : g.NoEmptyBody) (e : g.eliminate = .ok h) (ha : a ∈ g) :
    .emptied a ∈ g.eliminateTraced.events ↔ g.ReturnsEarly a ∧ h.alternatives a = [] := by
  obtain ⟨earlier, remaining, order⟩ := List.append_of_mem ha
  obtain ⟨k, l, cut⟩ := exists_cut e order
  have turn := cut.turn order
  refine (cut.mem_split_iff order rfl (by simp)).trans ?_
  rw [← cut.recursive_ne_nil_iff order nonempty, turn.alternatives_settled order]
  rcases split_report_cases turn.done with ⟨none, _, silent⟩ | ⟨some, helper, fresh, rfl, report⟩
  · simp only [silent, none, List.not_mem_nil, ne_eq, not_true, false_and]
  · have absent := not_mem_of_freshName fresh
    rw [report, Event.emptied_mem_splitReport_iff, List.length_eq_zero_iff,
      alternatives_splitInto_self (turn.mem_exposed order) absent, List.map_eq_nil_iff]
    exact and_congr_left fun _ => iff_of_true rfl some

/-- Every name that loses its alternatives is reported exactly if every name that has some leads out
of the names up to it, or returns to itself early. -/
theorem forall_emptied_mem_iff (read : parse s = .ok g) (e : g.eliminate = .ok h) :
    (∀ a, g.alternatives a ≠ [] → h.alternatives a = [] →
        .emptied a ∈ g.eliminateTraced.events) ↔
      ∀ a ∈ g, g.alternatives a ≠ [] → g.LeadsOut (g.namesUpTo a) a ∨ g.ReturnsEarly a := by
  have nonempty := (writable_of_parse read).noEmptyBody
  constructor
  · intro reported a ha some
    by_cases out : g.LeadsOut (g.namesUpTo a) a
    · exact .inl out
    · have none := (alternatives_eliminate_eq_nil_iff nonempty e ha).2 out
      exact .inr ((emptied_mem_iff nonempty e ha).1 (reported a some none)).1
  · intro known a some none
    have ha : a ∈ g := by
      obtain ⟨p, hp⟩ := List.exists_mem_of_ne_nil _ some
      exact mem_of_mem_alternatives hp
    have inside := (alternatives_eliminate_eq_nil_iff nonempty e ha).1 none
    exact (emptied_mem_iff nonempty e ha).2 ⟨(known a ha some).resolve_left inside, none⟩

/-- `S` leads nowhere but to itself, and `A` leads back to `S`. -/
def starved : Grammar where
  rules := [⟨'S', ["Sa"].map Body.ofString⟩, ⟨'A', ["Sb", "c"].map Body.ofString⟩]
  nodup := by decide

def starvedFreed : Grammar where
  rules := [
    ⟨'S', []⟩,
    ⟨'A', ["c"].map Body.ofString⟩,
    ⟨'Z', ["aZ", "e"].map Body.ofString⟩]
  nodup := by decide

theorem forall_emptied_mem_iff_starved :
    parse "S -> Sa\nA -> Sb c" = .ok starved ∧ starved.eliminate = .ok starvedFreed ∧
      starved.alternatives 'S' ≠ [] ∧ starvedFreed.alternatives 'S' = [] ∧
        ∀ a, starved.alternatives a ≠ [] → starvedFreed.alternatives a = [] →
          .emptied a ∈ starved.eliminateTraced.events := by
  have read : parse "S -> Sa\nA -> Sb c" = .ok starved := by decide +kernel
  have done : starved.eliminate = .ok starvedFreed := rfl
  have early : starved.ReturnsEarly 'S' := by decide
  have out : starved.LeadsOut (starved.namesUpTo 'A') 'A' := by decide
  have known : ∀ a ∈ starved, starved.alternatives a ≠ [] →
      starved.LeadsOut (starved.namesUpTo a) a ∨ starved.ReturnsEarly a := by
    intro a ha _
    have cases : a = 'S' ∨ a = 'A' := by simpa [mem_iff, nonTerminals, starved] using ha
    rcases cases with rfl | rfl
    · exact .inr early
    · exact .inl out
  exact ⟨read, done, by decide, by decide, (forall_emptied_mem_iff read done).2 known⟩

def starvedTwice : Grammar where
  rules := [⟨'S', ["Sa"].map Body.ofString⟩, ⟨'A', ["Sb"].map Body.ofString⟩]
  nodup := by decide

def starvedTwiceFreed : Grammar where
  rules := [⟨'S', []⟩, ⟨'A', []⟩, ⟨'Z', ["aZ", "e"].map Body.ofString⟩]
  nodup := by decide

/-- Only the loss of `S` is reported. -/
theorem not_emptied_mem_starvedTwice :
    parse "S -> Sa\nA -> Sb" = .ok starvedTwice ∧ starvedTwice.eliminate = .ok starvedTwiceFreed ∧
      starvedTwice.alternatives 'A' ≠ [] ∧ starvedTwiceFreed.alternatives 'A' = [] ∧
        .emptied 'A' ∉ starvedTwice.eliminateTraced.events :=
  ⟨by decide +kernel, rfl, by decide, by decide, by decide⟩

end Grammar

end LeftRecursion
