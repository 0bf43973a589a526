import SimpleZanzibar.Lib.CutEvaluation
import Mathlib.Order.FixedPoints
import Mathlib.Data.Set.Lattice
import Mathlib.Order.CompletePartialOrder

/-!
# The stratum-by-stratum least fixpoint

A stratification of a Boolean equation system is a level function that does not
increase along references and strictly decreases along references inside the
second operand of a difference.  `leastModel` computes the least fixpoint of the
keys of level `0`, then of level `1` with the answers below it fixed, and so on.

**Results.**
* `eval_iff_sat_leastModel`: from an empty cut set, depth-first search computes
  the least model of a stratified system, over any cycles.
* `eval_atom_iff_leastModel`, `eval_body_iff_leastModel`: the search of one key and
  of its equation, from an empty path.
-/

namespace BoolSystem

universe u

variable {K : Type u} {body : K → Formula K}

open Formula

mutual

/-- Truth of a formula; keys under a difference are looked up in `neg`. -/
def Sat (pos neg : Set K) : Formula K → Prop
  | .const b => b = true
  | .atom k => k ∈ pos
  | .any fs => SatSome pos neg fs
  | .all fs => SatEvery pos neg fs
  | .diff b e => Sat pos neg b ∧ ¬ Sat neg neg e

/-- Some formula of the list is true. -/
def SatSome (pos neg : Set K) : List (Formula K) → Prop
  | [] => False
  | f :: fs => Sat pos neg f ∨ SatSome pos neg fs

/-- Every formula of the list is true. -/
def SatEvery (pos neg : Set K) : List (Formula K) → Prop
  | [] => True
  | f :: fs => Sat pos neg f ∧ SatEvery pos neg fs

end

@[simp] theorem sat_const
    (pos neg : Set K) (b : Bool) :
    Sat pos neg (.const b) ↔ b = true := by
  rw [Sat]

@[simp] theorem sat_atom
    (pos neg : Set K) (k : K) :
    Sat pos neg (.atom k) ↔ k ∈ pos := by
  rw [Sat]

@[simp] theorem sat_any
    (pos neg : Set K) (fs : List (Formula K)) :
    Sat pos neg (.any fs) ↔ ∃ f ∈ fs, Sat pos neg f := by
  rw [Sat]
  induction fs with
  | nil => simp [SatSome]
  | cons f fs ih => simp [SatSome, ih]

@[simp] theorem sat_all
    (pos neg : Set K) (fs : List (Formula K)) :
    Sat pos neg (.all fs) ↔ ∀ f ∈ fs, Sat pos neg f := by
  rw [Sat]
  induction fs with
  | nil => simp [SatEvery]
  | cons f fs ih => simp [SatEvery, ih]

@[simp] theorem sat_diff
    (pos neg : Set K) (b e : Formula K) :
    Sat pos neg (.diff b e) ↔ Sat pos neg b ∧ ¬ Sat neg neg e := by
  rw [Sat]

/-- Truth only depends on the keys that occur in the formula. -/
theorem sat_congr
    {pos pos' neg neg' : Set K} {f : Formula K}
    (hpos : ∀ k, Refers f k → (k ∈ pos ↔ k ∈ pos'))
    (hneg : ∀ k, RefersExcluded f k → (k ∈ neg ↔ k ∈ neg')) :
    Sat pos neg f ↔ Sat pos' neg' f := by
  induction f using Formula.inductionOn generalizing pos pos' neg neg' with
  | const b => simp
  | atom k => simp [hpos k Refers.atom]
  | any fs ih =>
      simp only [sat_any]
      refine exists_congr (fun f => and_congr_right (fun hf => ?_))
      exact ih f hf (fun k hk => hpos k (Refers.any hf hk))
        (fun k hk => hneg k (RefersExcluded.any hf hk))
  | all fs ih =>
      simp only [sat_all]
      refine forall_congr' (fun f => imp_congr_right (fun hf => ?_))
      exact ih f hf (fun k hk => hpos k (Refers.all hf hk))
        (fun k hk => hneg k (RefersExcluded.all hf hk))
  | diff b e ihb ihe =>
      simp only [sat_diff]
      have hb := ihb (fun k hk => hpos k (Refers.base hk))
        (fun k hk => hneg k (RefersExcluded.base hk))
      have he := @ihe neg neg' neg neg'
        (fun k hk => hneg k (RefersExcluded.exclude hk))
        (fun k hk => hneg k (RefersExcluded.exclude hk.refers))
      rw [hb, he]

/-- Truth is monotone in the positive keys. -/
theorem Sat.mono
    {pos pos' neg : Set K} {f : Formula K}
    (hsub : pos ⊆ pos')
    (h : Sat pos neg f) :
    Sat pos' neg f := by
  induction f using Formula.inductionOn with
  | const b => simpa using h
  | atom k => exact (sat_atom _ _ _).mpr (hsub ((sat_atom _ _ _).mp h))
  | any fs ih =>
      obtain ⟨f, hf, hs⟩ := (sat_any _ _ _).mp h
      exact (sat_any _ _ _).mpr ⟨f, hf, ih f hf hs⟩
  | all fs ih =>
      exact (sat_all _ _ _).mpr (fun f hf => ih f hf ((sat_all _ _ _).mp h f hf))
  | diff b e ihb _ =>
      obtain ⟨hb, he⟩ := (sat_diff _ _ _ _).mp h
      exact (sat_diff _ _ _ _).mpr ⟨ihb hb, he⟩

/-- One round of consequences inside `allowed`, with the negative keys fixed. -/
def consequences (body : K → Formula K) (allowed neg : Set K) : Set K →o Set K where
  toFun X := {k | k ∈ allowed ∧ Sat X neg (body k)}
  monotone' _ _ hXY _ hk := ⟨hk.1, hk.2.mono hXY⟩

/-- Least set closed under the consequences. -/
def closure (body : K → Formula K) (allowed neg : Set K) : Set K :=
  (consequences body allowed neg).lfp

theorem mem_closure_iff
    {allowed neg : Set K} {k : K} :
    k ∈ closure body allowed neg ↔
      k ∈ allowed ∧ Sat (closure body allowed neg) neg (body k) := by
  have hfix := (consequences body allowed neg).map_lfp
  have hk : k ∈ consequences body allowed neg (closure body allowed neg) ↔
      k ∈ closure body allowed neg := by
    unfold closure
    rw [hfix]
  exact hk.symm

theorem closure_subset
    {allowed neg X : Set K}
    (h : ∀ k ∈ allowed, Sat X neg (body k) → k ∈ X) :
    closure body allowed neg ⊆ X :=
  (consequences body allowed neg).lfp_le (fun k hk => h k hk.1 hk.2)

theorem closure_mono
    {allowed allowed' neg : Set K}
    (h : allowed ⊆ allowed') :
    closure body allowed neg ⊆ closure body allowed' neg :=
  closure_subset (fun _ hk hs => mem_closure_iff.mpr ⟨h hk, hs⟩)

/-- Keys of level at most `n`, computed from the answers below level `n`. -/
def stratum (body : K → Formula K) (level : K → Nat) : Nat → Set K
  | 0 => closure body {k | level k ≤ 0} ∅
  | n + 1 => closure body {k | level k ≤ n + 1} (stratum body level n)

/-- The stratum-by-stratum least fixpoint. -/
def leastModel (body : K → Formula K) (level : K → Nat) : Set K :=
  {k | k ∈ stratum body level (level k)}

/-- Levels do not increase along references and drop under a difference. -/
structure IsStratification (body : K → Formula K) (level : K → Nat) : Prop where
  le : ∀ {t k}, Refers (body t) k → level k ≤ level t
  lt : ∀ {t k}, RefersExcluded (body t) k → level k < level t

/-- A level that drops along all references is a stratification. -/
theorem isStratification_of_decreasing
    {level : K → Nat}
    (h : ∀ {t k}, Refers (body t) k → level k < level t) :
    IsStratification body level :=
  ⟨fun hk => (h hk).le, fun hk => h hk.refers⟩

/-- Then no two keys reach each other. -/
theorem noMutualBelow_of_decreasing
    {level : K → Nat}
    (h : ∀ {t k}, Refers (body t) k → level k < level t)
    (roots : Set K) :
    NoMutualBelow body roots := by
  have hreaches : ∀ {j k}, Reaches body j k → j = k ∨ level k < level j := by
    intro j k hjk
    induction hjk with
    | refl => exact Or.inl rfl
    | tail _ hstep ih =>
        rcases ih with rfl | ih
        · exact Or.inr (h hstep)
        · exact Or.inr ((h hstep).trans ih)
  intro r _ j k _ hjk hkj
  rcases hreaches hjk with heq | hlt
  · exact heq
  · rcases hreaches hkj with heq | hlt'
    · exact heq.symm
    · omega

section Stratified

variable {level : K → Nat} (hlevel : IsStratification body level)
include hlevel

/-- A later stratum does not change the answers of an earlier one. -/
theorem mem_stratum_succ_iff
    (n : Nat) {k : K}
    (hk : level k ≤ n) :
    k ∈ stratum body level (n + 1) ↔ k ∈ stratum body level n := by
  induction n generalizing k with
  | zero =>
      constructor
      · intro h
        have hsub : stratum body level 1 ⊆ {k | level k ≤ 0 → k ∈ stratum body level 0} := by
          refine closure_subset (fun j _ hs hj => ?_)
          refine mem_closure_iff.mpr ⟨hj, (sat_congr ?_ ?_).mp hs⟩
          · intro i hi
            have hi0 : level i ≤ 0 := le_trans (hlevel.le hi) hj
            exact ⟨fun h => h hi0, fun h _ => h⟩
          · intro i hi
            have := hlevel.lt hi
            omega
        exact hsub h hk
      · intro h
        have hsub : stratum body level 0 ⊆ stratum body level 1 := by
          refine closure_subset (fun j hj hs => ?_)
          have hj0 : level j ≤ 0 := hj
          refine mem_closure_iff.mpr ⟨le_trans hj0 (Nat.zero_le 1), ?_⟩
          refine (sat_congr (fun _ _ => Iff.rfl) ?_).mp hs
          intro i hi
          have := hlevel.lt hi
          omega
        exact hsub h
  | succ n ih =>
      have hneg : ∀ j, level j ≤ n + 1 → ∀ i, RefersExcluded (body j) i →
          (i ∈ stratum body level (n + 1) ↔ i ∈ stratum body level n) := by
        intro j hj i hi
        have := hlevel.lt hi
        exact ih (by omega)
      constructor
      · intro h
        have hsub : stratum body level (n + 2) ⊆
            {k | level k ≤ n + 1 → k ∈ stratum body level (n + 1)} := by
          refine closure_subset (fun j _ hs hj => ?_)
          refine mem_closure_iff.mpr ⟨hj, (sat_congr ?_ (hneg j hj)).mp hs⟩
          intro i hi
          have hin : level i ≤ n + 1 := le_trans (hlevel.le hi) hj
          exact ⟨fun h => h hin, fun h _ => h⟩
        exact hsub h hk
      · intro h
        have hsub : stratum body level (n + 1) ⊆ stratum body level (n + 2) := by
          refine closure_subset (fun j hj hs => ?_)
          have hj' : level j ≤ n + 1 := hj
          refine mem_closure_iff.mpr ⟨le_trans hj' (Nat.le_succ _), ?_⟩
          exact (sat_congr (fun _ _ => Iff.rfl) (fun i hi => (hneg j hj' i hi).symm)).mp hs
        exact hsub h

/-- Every stratum from the level of the key on answers like the least model. -/
theorem mem_stratum_iff_leastModel
    {n : Nat} {k : K}
    (hk : level k ≤ n) :
    k ∈ stratum body level n ↔ k ∈ leastModel body level := by
  induction n, hk using Nat.le_induction with
  | base => exact Iff.rfl
  | succ n hn ih => rw [mem_stratum_succ_iff hlevel n hn, ih]

/-- The least model satisfies the equations. -/
theorem mem_leastModel_iff
    {k : K} :
    k ∈ leastModel body level ↔
      Sat (leastModel body level) (leastModel body level) (body k) := by
  have hpos : ∀ i, Refers (body k) i →
      (i ∈ stratum body level (level k) ↔ i ∈ leastModel body level) :=
    fun i hi => mem_stratum_iff_leastModel hlevel (hlevel.le hi)
  cases hn : level k with
  | zero =>
      have hsat : Sat (stratum body level 0) ∅ (body k) ↔
          Sat (leastModel body level) (leastModel body level) (body k) := by
        refine sat_congr (by simpa [hn] using hpos) ?_
        intro i hi
        have := hlevel.lt hi
        omega
      have hmem : k ∈ leastModel body level ↔ k ∈ stratum body level (level k) := Iff.rfl
      rw [← hsat, hmem, hn]
      exact mem_closure_iff.trans (and_iff_right hn.le)
  | succ n =>
      have hsat : Sat (stratum body level (n + 1)) (stratum body level n) (body k) ↔
          Sat (leastModel body level) (leastModel body level) (body k) := by
        refine sat_congr (by simpa [hn] using hpos) ?_
        intro i hi
        have := hlevel.lt hi
        exact mem_stratum_iff_leastModel hlevel (by omega)
      have hmem : k ∈ leastModel body level ↔ k ∈ stratum body level (level k) := Iff.rfl
      rw [← hsat, hmem, hn]
      exact mem_closure_iff.trans (and_iff_right hn.le)

/-- Keys derivable without using the cut keys; negative keys read the least model. -/
def derivable (body : K → Formula K) (level : K → Nat) (S : Set K) : Set K :=
  closure body Sᶜ (leastModel body level)

theorem derivable_subset_leastModel
    (S : Set K) :
    derivable body level S ⊆ leastModel body level :=
  closure_subset (fun _ _ hs => (mem_leastModel_iff hlevel).mpr hs)

/-- Cutting keys of higher levels does not change what is derivable below them. -/
theorem mem_derivable_iff_leastModel
    {S : Set K} {k : K}
    (hS : ∀ s ∈ S, level k < level s) :
    k ∈ derivable body level S ↔ k ∈ leastModel body level := by
  refine ⟨fun h => derivable_subset_leastModel hlevel S h, fun h => ?_⟩
  have hcut : ∀ j, level j ≤ level k → j ∈ Sᶜ := by
    intro j hj hjS
    have := hS j hjS
    omega
  have hsub : stratum body level (level k) ⊆ derivable body level S := by
    cases hn : level k with
    | zero =>
        refine closure_subset (fun j hj hs => ?_)
        have hj0 : level j ≤ 0 := hj
        refine mem_closure_iff.mpr ⟨hcut j (by omega), ?_⟩
        refine (sat_congr (fun _ _ => Iff.rfl) ?_).mp hs
        intro i hi
        have := hlevel.lt hi
        omega
    | succ n =>
        refine closure_subset (fun j hj hs => ?_)
        have hj' : level j ≤ n + 1 := hj
        refine mem_closure_iff.mpr ⟨hcut j (by omega), ?_⟩
        refine (sat_congr (fun _ _ => Iff.rfl) ?_).mp hs
        intro i hi
        have := hlevel.lt hi
        exact mem_stratum_iff_leastModel hlevel (by omega)
  exact hsub h

omit hlevel in
/--
A key is derivable iff its body is derivable without the key itself: a derivation
of the key that uses the key can be shortened.
-/
theorem mem_derivable_iff_insert
    {S : Set K} {k : K}
    (hk : k ∉ S) :
    k ∈ derivable body level S ↔
      Sat (derivable body level (insert k S)) (leastModel body level) (body k) := by
  have hsub : derivable body level (insert k S) ⊆ derivable body level S :=
    closure_mono (Set.compl_subset_compl.mpr (Set.subset_insert k S))
  refine ⟨fun h => ?_, fun h => mem_closure_iff.mpr ⟨hk, h.mono hsub⟩⟩
  by_contra hns
  have hpre : derivable body level S ⊆ derivable body level (insert k S) := by
    refine closure_subset (fun j hj hs => ?_)
    have hjk : j ≠ k := by
      rintro rfl
      exact hns hs
    refine mem_closure_iff.mpr ⟨?_, hs⟩
    simp only [Set.mem_compl_iff, Set.mem_insert_iff, hjk, false_or]
    exact hj
  have hkd := (mem_closure_iff.mp (hpre h)).1
  exact hkd (Set.mem_insert k S)

/-- Below a difference the cut keys are too high to matter. -/
theorem sat_derivable_excluded
    {S : Set K} {b e : Formula K} {n : Nat}
    (hS : ∀ s ∈ S, n ≤ level s)
    (hlt : ∀ k, RefersExcluded (.diff b e) k → level k < n) :
    Sat (derivable body level S) (leastModel body level) e ↔
      Sat (leastModel body level) (leastModel body level) e := by
  refine sat_congr (fun k hk => ?_) (fun _ _ => Iff.rfl)
  refine mem_derivable_iff_leastModel hlevel (fun s hs => ?_)
  exact lt_of_lt_of_le (hlt k (RefersExcluded.exclude hk)) (hS s hs)

/-- Depth-first search computes derivability without the cut keys. -/
theorem eval_iff_sat_derivable
    {S : Set K} {f : Formula K} {b : Bool}
    (h : Eval body S f b)
    {n : Nat}
    (hS : ∀ s ∈ S, n ≤ level s)
    (hle : ∀ k, Refers f k → level k ≤ n)
    (hlt : ∀ k, RefersExcluded f k → level k < n) :
    b = true ↔ Sat (derivable body level S) (leastModel body level) f := by
  induction h generalizing n with
  | const b => simp
  | @cut S k hk =>
      simp only [Bool.false_eq_true, sat_atom, false_iff]
      exact fun hd => (mem_closure_iff.mp hd).1 hk
  | @enter S k b hk _ ih =>
      rw [sat_atom, mem_derivable_iff_insert hk]
      refine ih (n := level k) ?_ (fun _ => hlevel.le) (fun _ => hlevel.lt)
      rintro s (rfl | hs)
      · exact Nat.le_refl _
      · exact le_trans (hle k Refers.atom) (hS s hs)
  | @anyTrue S fs f hf _ ih =>
      simp only [sat_any, true_iff]
      exact ⟨f, hf, (ih hS (fun k hk => hle k (Refers.any hf hk))
        (fun k hk => hlt k (RefersExcluded.any hf hk))).mp rfl⟩
  | @anyFalse S fs _ ih =>
      simp only [Bool.false_eq_true, sat_any, false_iff]
      rintro ⟨f, hf, hs⟩
      exact Bool.false_ne_true ((ih f hf hS (fun k hk => hle k (Refers.any hf hk))
        (fun k hk => hlt k (RefersExcluded.any hf hk))).mpr hs)
  | @allTrue S fs _ ih =>
      simp only [sat_all, true_iff]
      intro f hf
      exact (ih f hf hS (fun k hk => hle k (Refers.all hf hk))
        (fun k hk => hlt k (RefersExcluded.all hf hk))).mp rfl
  | @allFalse S fs f hf _ ih =>
      simp only [Bool.false_eq_true, sat_all, false_iff]
      intro hall
      exact Bool.false_ne_true ((ih hS (fun k hk => hle k (Refers.all hf hk))
        (fun k hk => hlt k (RefersExcluded.all hf hk))).mpr (hall f hf))
  | @diffTrue S b e _ _ ihb ihe =>
      have hb := ihb hS (fun k hk => hle k (Refers.base hk))
        (fun k hk => hlt k (RefersExcluded.base hk))
      have he := ihe hS (fun k hk => hle k (Refers.exclude hk))
        (fun k hk => hlt k (RefersExcluded.exclude hk.refers))
      rw [sat_derivable_excluded hlevel hS hlt] at he
      simp only [sat_diff, true_iff]
      exact ⟨hb.mp rfl, fun hs => Bool.false_ne_true (he.mpr hs)⟩
  | @diffBase S b e _ ih =>
      have hb := ih hS (fun k hk => hle k (Refers.base hk))
        (fun k hk => hlt k (RefersExcluded.base hk))
      simp only [Bool.false_eq_true, sat_diff, false_iff]
      exact fun hs => Bool.false_ne_true (hb.mpr hs.1)
  | @diffExclude S b e _ ih =>
      have he := ih hS (fun k hk => hle k (Refers.exclude hk))
        (fun k hk => hlt k (RefersExcluded.exclude hk.refers))
      rw [sat_derivable_excluded hlevel hS hlt] at he
      simp only [Bool.false_eq_true, sat_diff, false_iff]
      exact fun hs => hs.2 (he.mp rfl)

/-- From an empty cut set, depth-first search computes the least model. -/
theorem eval_iff_sat_leastModel
    {f : Formula K} {b : Bool}
    (h : Eval body ∅ f b)
    {n : Nat}
    (hle : ∀ k, Refers f k → level k ≤ n)
    (hlt : ∀ k, RefersExcluded f k → level k < n) :
    b = true ↔ Sat (leastModel body level) (leastModel body level) f := by
  rw [eval_iff_sat_derivable hlevel h (by simp) hle hlt]
  refine sat_congr (fun k _ => ?_) (fun _ _ => Iff.rfl)
  exact mem_derivable_iff_leastModel hlevel (by simp)

theorem eval_atom_iff_leastModel
    {k : K} {b : Bool}
    (h : Eval body ∅ (.atom k) b) :
    b = true ↔ k ∈ leastModel body level := by
  rw [← sat_atom (leastModel body level) (leastModel body level)]
  refine eval_iff_sat_leastModel hlevel h (n := level k) ?_ ?_
  · intro j hj
    cases hj
    exact Nat.le_refl _
  · intro j hj
    cases hj

theorem eval_body_iff_leastModel
    {k : K} {b : Bool}
    (h : Eval body ∅ (body k) b) :
    b = true ↔ k ∈ leastModel body level := by
  rw [mem_leastModel_iff hlevel]
  exact eval_iff_sat_leastModel hlevel h (fun _ => hlevel.le) (fun _ => hlevel.lt)

end Stratified

end BoolSystem
