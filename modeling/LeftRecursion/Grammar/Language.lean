import LeftRecursion.Grammar.Basic

/-!
# The language of a grammar

`g.Derives p w` says that the body `p` becomes the word `w` when each non-terminal gives way to any
one of its alternatives. A derivation tree records which alternative was chosen, by its place among
the alternatives, so that two equal alternatives are different choices. A non-terminal leads to
those that can come first in one of its alternatives, and it is left recursive if it leads back to
itself; what stands before a symbol does not count if it derives the empty word.
-/

namespace LeftRecursion

/-- What was done to the symbols of a body, from left to right. -/
inductive Derivation where
  /-- No symbol is left. -/
  | done
  /-- A terminal or the empty word stays as it is. -/
  | keep (rest : Derivation)
  /-- A non-terminal gives way to the alternative at `position`, to which `inner` is done. -/
  | expand (position : Nat) (inner rest : Derivation)
  deriving DecidableEq

namespace Grammar

variable {g : Grammar}

inductive Derives (g : Grammar) : Body → List Char → Prop
  | nil : Derives g [] []
  | epsilon {p : Body} {w : List Char} : Derives g p w → Derives g (.epsilon :: p) w
  | terminal {c : Char} {p : Body} {w : List Char} :
      Derives g p w → Derives g (.terminal c :: p) (c :: w)
  | nonTerminal {a : Char} {q p : Body} {v w : List Char} :
      q ∈ g.alternatives a → Derives g q v → Derives g p w →
        Derives g (.nonTerminal a :: p) (v ++ w)

def Generates (g : Grammar) (a : Char) (w : List Char) : Prop :=
  ∃ p ∈ g.alternatives a, g.Derives p w

@[simp] theorem derives_nil {w : List Char} : g.Derives [] w ↔ w = [] :=
  ⟨fun h => by cases h; rfl, fun h => h ▸ .nil⟩

@[simp] theorem derives_epsilon_cons {p : Body} {w : List Char} :
    g.Derives (.epsilon :: p) w ↔ g.Derives p w :=
  ⟨fun h => by cases h; assumption, .epsilon⟩

@[simp] theorem derives_terminal_cons {c : Char} {p : Body} {w : List Char} :
    g.Derives (.terminal c :: p) w ↔ ∃ v, w = c :: v ∧ g.Derives p v :=
  ⟨fun h => by cases h; exact ⟨_, rfl, by assumption⟩, fun ⟨_, e, h⟩ => e ▸ .terminal h⟩

@[simp] theorem derives_nonTerminal_cons {a : Char} {p : Body} {w : List Char} :
    g.Derives (.nonTerminal a :: p) w ↔
      ∃ u v, w = u ++ v ∧ g.Generates a u ∧ g.Derives p v := by
  constructor
  · intro h
    cases h with
    | nonTerminal hq hu hv => exact ⟨_, _, rfl, ⟨_, hq, hu⟩, hv⟩
  · rintro ⟨u, v, rfl, ⟨q, hq, hu⟩, hv⟩
    exact .nonTerminal hq hu hv

theorem derives_singleton {a : Char} {w : List Char} :
    g.Derives [.nonTerminal a] w ↔ g.Generates a w := by
  simp

/-- A body derives the empty word if every symbol of it does. -/
theorem derives_empty_iff {p : Body} :
    g.Derives p [] ↔
      ∀ s ∈ p, s = .epsilon ∨ ∃ a, s = .nonTerminal a ∧ g.Generates a [] := by
  induction p with
  | nil => simp
  | cons s p ih =>
    cases s with
    | epsilon => simp [ih]
    | terminal c => simp
    | nonTerminal a =>
      rw [List.forall_mem_cons, ← ih]
      simp only [derives_nonTerminal_cons, reduceCtorEq, Symbol.nonTerminal.injEq, false_or,
        exists_eq_left']
      constructor
      · rintro ⟨u, v, e, hu, hv⟩
        obtain ⟨rfl, rfl⟩ := List.nil_eq_append_iff.1 e
        exact ⟨hu, hv⟩
      · rintro ⟨hu, hv⟩
        exact ⟨[], [], rfl, hu, hv⟩

/-- `g.Parses p d w` says that `d` turns the body `p` into the word `w`. -/
inductive Parses (g : Grammar) : Body → Derivation → List Char → Prop
  | nil : Parses g [] .done []
  | epsilon {p : Body} {d : Derivation} {w : List Char} :
      Parses g p d w → Parses g (.epsilon :: p) (.keep d) w
  | terminal {c : Char} {p : Body} {d : Derivation} {w : List Char} :
      Parses g p d w → Parses g (.terminal c :: p) (.keep d) (c :: w)
  | nonTerminal {a : Char} {i : Nat} {q p : Body} {d e : Derivation} {v w : List Char} :
      (g.alternatives a)[i]? = some q → Parses g q d v → Parses g p e w →
        Parses g (.nonTerminal a :: p) (.expand i d e) (v ++ w)

/-- `w` has two derivation trees from `a`. -/
def Ambiguous (g : Grammar) (a : Char) (w : List Char) : Prop :=
  ∃ d e, d ≠ e ∧ g.Parses [.nonTerminal a] d w ∧ g.Parses [.nonTerminal a] e w

theorem Parses.derives {p : Body} {d : Derivation} {w : List Char} (h : g.Parses p d w) :
    g.Derives p w := by
  induction h with
  | nil => exact .nil
  | epsilon _ ih => exact .epsilon ih
  | terminal _ ih => exact .terminal ih
  | nonTerminal hq _ _ ihd ihe => exact .nonTerminal (List.mem_of_getElem? hq) ihd ihe

theorem derives_iff_exists_parses {p : Body} {w : List Char} :
    g.Derives p w ↔ ∃ d, g.Parses p d w := by
  refine ⟨fun h => ?_, fun ⟨_, h⟩ => h.derives⟩
  induction h with
  | nil => exact ⟨_, .nil⟩
  | epsilon _ ih => exact ih.imp' _ fun _ => .epsilon
  | terminal _ ih => exact ih.imp' _ fun _ => .terminal
  | nonTerminal hq _ _ ihd ihe =>
    obtain ⟨i, hi⟩ := List.getElem?_of_mem hq
    obtain ⟨d, hd⟩ := ihd
    obtain ⟨e, he⟩ := ihe
    exact ⟨_, .nonTerminal hi hd he⟩

/-- A tree yields one word only. -/
theorem Parses.unique {p : Body} {d : Derivation} {v w : List Char} (hv : g.Parses p d v)
    (hw : g.Parses p d w) : v = w := by
  induction hv generalizing w with
  | nil => cases hw; rfl
  | epsilon _ ih => cases hw with | epsilon h => exact ih h
  | terminal _ ih => cases hw with | terminal h => rw [ih h]
  | nonTerminal hq _ _ ihd ihe =>
    cases hw with
    | nonTerminal hq' hd he =>
      cases hq.symm.trans hq'
      rw [ihd hd, ihe he]

/-- Some alternative of `a` holds `b` with nothing before it that has to be seen. -/
def Leads (g : Grammar) (a b : Char) : Prop :=
  ∃ u v, u ++ .nonTerminal b :: v ∈ g.alternatives a ∧ g.Derives u []

def LeftRecursive (g : Grammar) (a : Char) : Prop :=
  Relation.TransGen g.Leads a a

/-- No name is left recursive if leading descends in some rank. -/
theorem not_leftRecursive_of_descends (rank : Char → Nat)
    (descends : ∀ a b, g.Leads a b → rank b < rank a) (a : Char) : ¬g.LeftRecursive a := by
  have lower {b c : Char} (chain : Relation.TransGen g.Leads b c) : rank c < rank b := by
    induction chain with
    | single leads => exact descends _ _ leads
    | tail _ leads ih => exact Nat.lt_trans (descends _ _ leads) ih
  exact fun circle => Nat.lt_irrefl _ (lower circle)

theorem leads_of_startsWith {g : Grammar} {a b : Char} {p : Body} (hp : p ∈ g.alternatives a)
    (h : p.StartsWith b) : g.Leads a b := by
  rw [Body.startsWith_iff_cons_tail] at h
  exact ⟨[], p.tail, by rw [List.nil_append, ← h]; exact hp, .nil⟩

theorem leftRecursive_of_startsWith {g : Grammar} {a : Char} {p : Body}
    (hp : p ∈ g.alternatives a) (h : p.StartsWith a) : g.LeftRecursive a :=
  .single (leads_of_startsWith hp h)

end Grammar

end LeftRecursion
