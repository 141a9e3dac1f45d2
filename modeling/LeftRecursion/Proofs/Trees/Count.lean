import LeftRecursion.Grammar.Language
import LeftRecursion.Proofs.Trees.Series

/-!
# Counting derivation trees

The numbers of derivation trees solve the equations of the grammar: the series of a non-terminal is
the sum of those of its alternatives, and the series of a body is the product of those of its
symbols (`count_eq`). They are the least solution, since a tree has finite height and the trees of
bounded height are exhausted by going through the equations that many times (`count_le`).
-/

namespace LeftRecursion

universe u v

namespace Series

variable {α : Type u} {β : Type v} {S : List Char → Set α} {T : List Char → Set β}

noncomputable def card (S : List Char → Set α) : Series :=
  fun w => (S w).encard

/-- A member for a first part of the word with a member for the rest. -/
def cuts (S : List Char → Set α) (T : List Char → Set β) (w : List Char) : Set (α × β) :=
  {x | ∃ u v, w = u ++ v ∧ x.1 ∈ S u ∧ x.2 ∈ T v}

theorem cuts_nil : cuts S T [] = S [] ×ˢ T [] := by
  ext x
  constructor
  · rintro ⟨u, v, empty, hu, hv⟩
    obtain ⟨rfl, rfl⟩ := List.nil_eq_append_iff.1 empty
    exact ⟨hu, hv⟩
  · intro hx
    exact ⟨[], [], rfl, hx.1, hx.2⟩

theorem cuts_cons (c : Char) (w : List Char) :
    cuts S T (c :: w) = S [] ×ˢ T (c :: w) ∪ cuts (fun u => S (c :: u)) T w := by
  ext x
  constructor
  · rintro ⟨u, v, split, hu, hv⟩
    cases u with
    | nil => exact .inl ⟨hu, split ▸ hv⟩
    | cons d u =>
      obtain ⟨rfl, rfl⟩ := List.cons.inj split
      exact .inr ⟨u, v, rfl, hu, hv⟩
  · rintro (hx | ⟨u, v, rfl, hu, hv⟩)
    · exact ⟨[], c :: w, rfl, hx.1, hx.2⟩
    · exact ⟨c :: u, v, rfl, hu, hv⟩

/-- If a member tells its word, the cuts are counted by the product. -/
theorem card_cuts (tells : ∀ u v x, x ∈ S u → x ∈ S v → u = v) :
    card (cuts S T) = card S * card T := by
  ext w
  induction w generalizing S with
  | nil =>
    rw [card, cuts_nil, Set.encard_prod]
    rfl
  | cons c w ih =>
    have apart : Disjoint (S [] ×ˢ T (c :: w)) (cuts (fun u => S (c :: u)) T w) := by
      apply Set.disjoint_left.2
      rintro x ⟨here, _⟩ ⟨u, _, _, there, _⟩
      exact absurd (tells _ _ _ here there) (List.cons_ne_nil c u).symm
    have tells' (u v : List Char) (x : α) (hu : x ∈ S (c :: u)) (hv : x ∈ S (c :: v)) : u = v :=
      (List.cons.inj (tells _ _ x hu hv)).2
    have later : (cuts (fun u => S (c :: u)) T w).encard = ((card S).after c * card T) w := ih tells'
    rw [card, cuts_cons, Set.encard_union_eq apart, Set.encard_prod, later]
    rfl

/-- An increasing union is no larger than a bound on its members. -/
theorem encard_iUnion_le {S : ℕ → Set α} (mono : Monotone S) {n : ℕ∞}
    (bound : ∀ i, (S i).encard ≤ n) : (⋃ i, S i).encard ≤ n := by
  by_contra more
  have larger : n + 1 ≤ (⋃ i, S i).encard := Order.add_one_le_of_lt (not_le.1 more)
  obtain ⟨t, within, size⟩ := Set.exists_subset_encard_eq larger
  have bounded : n ≠ ⊤ := fun top => more (top ▸ le_top)
  have finite : t.Finite := Set.encard_ne_top_iff.1 (by simp [size, bounded])
  have directed : Directed (· ⊆ ·) S := mono.directed_le
  rw [← finite.coe_toFinset] at within
  obtain ⟨i, below⟩ := directed.exists_mem_subset_of_finset_subset_biUnion within
  rw [finite.coe_toFinset] at below
  have : n + 1 ≤ n := size ▸ (Set.encard_le_encard below).trans (bound i)
  exact absurd this (not_le.2 (ENat.lt_add_one_iff bounded |>.2 le_rfl))

end Series

def Symbol.series (l : Char → Series) : Symbol → Series
  | nonTerminal a => l a
  | terminal c => .single c
  | epsilon => 1

namespace Body

variable {l m : Char → Series} {p q : Body} {a : Char}

def series (l : Char → Series) (p : Body) : Series :=
  (p.map (Symbol.series l)).prod

@[simp] theorem series_nil : series l [] = 1 := rfl

@[simp] theorem series_cons (s : Symbol) : series l (s :: p) = s.series l * series l p :=
  List.prod_cons

@[simp] theorem series_append : series l (p ++ q) = series l p * series l q := by
  rw [series, List.map_append, List.prod_append]
  rfl

theorem series_nonTerminal_cons : series l (.nonTerminal a :: p) = l a * series l p :=
  series_cons _

theorem series_concat : series l (p ++ [.nonTerminal a]) = series l p * l a := by
  rw [series_append, series_nonTerminal_cons, series_nil, mul_one]

@[simp] theorem series_epsilon : series l epsilon = 1 :=
  mul_one 1

theorem series_mono (le : l ≤ m) : series l p ≤ series m p := by
  induction p with
  | nil => exact le_rfl
  | cons s p ih =>
    rw [series_cons, series_cons]
    apply mul_le_mul' _ ih
    cases s with
    | nonTerminal a => exact le a
    | terminal c => exact le_rfl
    | epsilon => exact le_rfl

/-- Only the non-terminals of the body count. -/
theorem series_congr (same : ∀ a, .nonTerminal a ∈ p → l a = m a) : series l p = series m p := by
  rw [series, series]
  congr 1
  apply List.map_congr_left
  intro s hs
  cases s with
  | nonTerminal a => exact same a hs
  | terminal c => rfl
  | epsilon => rfl

end Body

/-- For every non-terminal and every word, which alternatives may be chosen and what may be done
to them. -/
abbrev Choices :=
  Char → List Char → Set (ℕ × Derivation)

namespace Choices

variable {k : Choices} {p : Body}

def trees (k : Choices) : Body → List Char → Set Derivation
  | [], w => {d | d = .done ∧ w = []}
  | .epsilon :: p, w => .keep '' k.trees p w
  | .terminal _ :: _, [] => ∅
  | .terminal c :: p, d :: w => if d = c then .keep '' k.trees p w else ∅
  | .nonTerminal a :: p, w =>
    (fun x => .expand x.1.1 x.1.2 x.2) '' Series.cuts (k a) (k.trees p) w

theorem trees_mono {j : Choices} (le : ∀ a w, j a w ⊆ k a w) (p : Body) (w : List Char) :
    j.trees p w ⊆ k.trees p w := by
  induction p generalizing w with
  | nil => exact subset_rfl
  | cons s p ih =>
    cases s with
    | epsilon => exact Set.image_mono (ih w)
    | terminal c =>
      cases w with
      | nil => exact subset_rfl
      | cons d w =>
        simp only [trees]
        split
        · exact Set.image_mono (ih w)
        · exact subset_rfl
    | nonTerminal a =>
      apply Set.image_mono
      rintro x ⟨u, v, split, hu, hv⟩
      exact ⟨u, v, split, le a u hu, ih v hv⟩

theorem card_trees (tells : ∀ a u v x, x ∈ k a u → x ∈ k a v → u = v) :
    Series.card (k.trees p) = p.series fun a => Series.card (k a) := by
  have keep : Function.Injective Derivation.keep := fun _ _ same => Derivation.keep.inj same
  induction p with
  | nil =>
    ext w
    cases w with
    | nil => simp [Series.card, trees]
    | cons c w => simp [Series.card, trees]
  | cons s p ih =>
    rw [Body.series_cons, ← ih]
    cases s with
    | epsilon =>
      ext w
      rw [Symbol.series, one_mul]
      exact keep.encard_image _
    | terminal c =>
      ext w
      cases w with
      | nil => simp [Series.card, trees, Symbol.series]
      | cons d w =>
        rw [Symbol.series, Series.single_mul_cons, Series.card, trees]
        split
        · exact keep.encard_image _
        · exact Set.encard_empty
    | nonTerminal a =>
      rw [Symbol.series, ← Series.card_cuts (tells a)]
      ext w
      apply Function.Injective.encard_image
      rintro ⟨⟨i, d⟩, e⟩ ⟨⟨j, d'⟩, e'⟩ same
      simpa [and_assoc] using same

end Choices

def numbered (S : Body → Set Derivation) (ps : List Body) : Set (ℕ × Derivation) :=
  {x | ∃ p, ps[x.1]? = some p ∧ x.2 ∈ S p}

theorem encard_numbered (S : Body → Set Derivation) (ps : List Body) :
    (numbered S ps).encard = (ps.map fun p => (S p).encard).sum := by
  induction ps with
  | nil => simp [numbered]
  | cons p ps ih =>
    have split : numbered S (p :: ps) =
        Prod.mk 0 '' S p ∪ Prod.map Nat.succ id '' numbered S ps := by
      ext ⟨i, d⟩
      cases i with
      | zero => simp [numbered]
      | succ i => simp [numbered]
    have apart : Disjoint (Prod.mk 0 '' S p) (Prod.map Nat.succ id '' numbered S ps) := by
      apply Set.disjoint_left.2
      rintro _ ⟨d, _, rfl⟩ ⟨x, _, same⟩
      exact Nat.succ_ne_zero x.1 (congrArg Prod.fst same)
    have first : Function.Injective fun d : Derivation => (0, d) := Prod.mk_right_injective 0
    have later : Function.Injective (Prod.map Nat.succ (id : Derivation → Derivation)) :=
      Nat.succ_injective.prodMap Function.injective_id
    rw [split, Set.encard_union_eq apart, first.encard_image, later.encard_image, ih]
    rfl

namespace Grammar

variable {g : Grammar} {l : Char → Series} {a : Char} {p : Body} {d : Derivation} {w : List Char}

def total (g : Grammar) (l : Char → Series) (a : Char) : Series :=
  ((g.alternatives a).map (Body.series l)).sum

theorem card_numbered {S : Body → List Char → Set Derivation}
    (card : ∀ p, Series.card (S p) = p.series l) :
    Series.card (fun w => numbered (S · w) (g.alternatives a)) = g.total l a := by
  ext w
  rw [Series.card, encard_numbered, total]
  induction g.alternatives a with
  | nil => rfl
  | cons p ps ih =>
    rw [List.map_cons, List.map_cons, List.sum_cons, List.sum_cons, ih, ← card p]
    rfl

def choices (g : Grammar) : Choices :=
  fun a w => numbered (fun p => {d | g.Parses p d w}) (g.alternatives a)

theorem mem_trees_choices : d ∈ g.choices.trees p w ↔ g.Parses p d w := by
  constructor
  · intro h
    induction p generalizing d w with
    | nil =>
      obtain ⟨rfl, rfl⟩ := h
      exact .nil
    | cons s p ih =>
      cases s with
      | epsilon =>
        obtain ⟨e, he, rfl⟩ := h
        exact .epsilon (ih he)
      | terminal c =>
        cases w with
        | nil => cases h
        | cons c' w =>
          rw [Choices.trees] at h
          split at h
          · next same =>
            obtain ⟨e, he, rfl⟩ := h
            exact same ▸ .terminal (ih he)
          · cases h
      | nonTerminal a =>
        obtain ⟨_, ⟨u, v, rfl, ⟨q, hq, hu⟩, hv⟩, rfl⟩ := h
        exact .nonTerminal hq hu (ih hv)
  · intro h
    induction h with
    | nil => exact ⟨rfl, rfl⟩
    | epsilon _ ih => exact ⟨_, ih, rfl⟩
    | terminal _ ih =>
      rw [Choices.trees, if_pos rfl]
      exact ⟨_, ih, rfl⟩
    | @nonTerminal a i q p d e v w hq hd _ _ ih =>
      have chosen : (i, d) ∈ g.choices a v := ⟨q, hq, hd⟩
      exact ⟨((i, d), e), ⟨v, w, rfl, chosen, ih⟩, rfl⟩

/-- How many derivation trees a word has from a non-terminal. -/
noncomputable def count (g : Grammar) : Char → Series :=
  fun a => Series.card (g.choices a)

theorem choices_tells (a : Char) (u v : List Char) (x : ℕ × Derivation)
    (hu : x ∈ g.choices a u) (hv : x ∈ g.choices a v) : u = v := by
  obtain ⟨q, hq, hu⟩ := hu
  obtain ⟨q', hq', hv⟩ := hv
  cases hq.symm.trans hq'
  exact hu.unique hv

theorem card_parses (g : Grammar) (p : Body) :
    Series.card (fun w => {d | g.Parses p d w}) = p.series g.count := by
  have same : (fun w => {d | g.Parses p d w}) = g.choices.trees p := by
    ext w d
    exact mem_trees_choices.symm
  rw [same, Choices.card_trees choices_tells]
  rfl

theorem count_eq (g : Grammar) (a : Char) : g.count a = g.total g.count a :=
  card_numbered g.card_parses

theorem ambiguous_iff : g.Ambiguous a w ↔ 1 < g.count a w := by
  have alone : g.count a = Body.series g.count [.nonTerminal a] :=
    (mul_one (g.count a)).symm
  rw [alone, ← card_parses, Series.card, Set.one_lt_encard_iff]
  constructor
  · rintro ⟨d, e, distinct, hd, he⟩
    exact ⟨d, e, hd, he, distinct⟩
  · rintro ⟨d, e, hd, he, distinct⟩
    exact ⟨d, e, distinct, hd, he⟩

/-- The choices that open fewer than `n` alternatives inside each other. -/
def choicesWithin (g : Grammar) : ℕ → Choices
  | 0 => fun _ _ => ∅
  | n + 1 => fun a w => numbered ((g.choicesWithin n).trees · w) (g.alternatives a)

theorem choicesWithin_mono (a : Char) (w : List Char) :
    Monotone fun n => g.choicesWithin n a w := by
  apply monotone_nat_of_le_succ
  intro n
  induction n generalizing a w with
  | zero => exact Set.empty_subset _
  | succ n ih =>
    rintro x ⟨p, hp, hx⟩
    exact ⟨p, hp, Choices.trees_mono ih p w hx⟩

theorem Parses.exists_within (h : g.Parses p d w) : ∃ n, d ∈ (g.choicesWithin n).trees p w := by
  have mono {i j : ℕ} (le : i ≤ j) (p : Body) (w : List Char) :
      (g.choicesWithin i).trees p w ⊆ (g.choicesWithin j).trees p w :=
    Choices.trees_mono (fun a w => choicesWithin_mono a w le) p w
  induction h with
  | nil => exact ⟨0, rfl, rfl⟩
  | epsilon _ ih =>
    obtain ⟨n, hd⟩ := ih
    exact ⟨n, _, hd, rfl⟩
  | terminal _ ih =>
    obtain ⟨n, hd⟩ := ih
    refine ⟨n, ?_⟩
    rw [Choices.trees, if_pos rfl]
    exact ⟨_, hd, rfl⟩
  | @nonTerminal a i q p d e v w hq _ _ ihd ihe =>
    obtain ⟨m, hd⟩ := ihd
    obtain ⟨n, he⟩ := ihe
    have chosen : (i, d) ∈ g.choicesWithin (m + 1) a v := ⟨q, hq, hd⟩
    refine ⟨max (m + 1) n, ((i, d), e), ⟨v, w, rfl, ?_, ?_⟩, rfl⟩
    · exact choicesWithin_mono a v (le_max_left _ _) chosen
    · exact mono (le_max_right _ _) p w he

theorem choicesWithin_subset (n : ℕ) (a : Char) (w : List Char) :
    g.choicesWithin n a w ⊆ g.choices a w := by
  induction n generalizing a w with
  | zero => exact Set.empty_subset _
  | succ n ih =>
    rintro x ⟨p, hp, hx⟩
    exact ⟨p, hp, mem_trees_choices.1 (Choices.trees_mono ih p w hx)⟩

theorem card_choicesWithin_succ (g : Grammar) (n : ℕ) (a : Char) :
    Series.card (g.choicesWithin (n + 1) a) =
      g.total (fun b => Series.card (g.choicesWithin n b)) a := by
  apply card_numbered
  intro p
  apply Choices.card_trees
  intro b u v x hu hv
  exact choices_tells b u v x (choicesWithin_subset n b u hu) (choicesWithin_subset n b v hv)

theorem total_mono {m : Char → Series} (le : l ≤ m) (a : Char) : g.total l a ≤ g.total m a :=
  List.sum_le_sum fun _ _ => Body.series_mono le

/-- The numbers of trees are below every solution, even one with room to spare. -/
theorem count_le (room : ∀ a, g.total l a ≤ l a) : g.count ≤ l := by
  have bounded (n : ℕ) (a : Char) : Series.card (g.choicesWithin n a) ≤ l a := by
    induction n generalizing a with
    | zero =>
      intro w
      rw [Series.card, choicesWithin, Set.encard_empty]
      exact zero_le
    | succ n ih =>
      rw [card_choicesWithin_succ]
      exact (total_mono ih a).trans (room a)
  intro a w
  have exhausted : g.choices a w ⊆ ⋃ n, g.choicesWithin n a w := by
    rintro x ⟨p, hp, hx⟩
    obtain ⟨n, hd⟩ := Parses.exists_within hx
    exact Set.mem_iUnion.2 ⟨n + 1, p, hp, hd⟩
  calc g.count a w
      ≤ (⋃ n, g.choicesWithin n a w).encard := Set.encard_le_encard exhausted
    _ ≤ l a w := Series.encard_iUnion_le (choicesWithin_mono a w) fun n => bounded n a w

end Grammar

end LeftRecursion
