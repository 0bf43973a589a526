import SimpleZanzibar.Lib.StratifiedFixpoint
import Mathlib.Data.List.Forall2

/-!
# Freezing parts of a system

A part of a formula is frozen when it is replaced by its truth value in a given set of
keys.  Freezing parts of the bodies of a stratified system by their values in the least
model leaves the least model as it is, although the frozen system refers to fewer keys.
-/

/-- The partner of an element of the second list. -/
theorem List.Forall₂.exists_left
    {α β : Type*} {R : α → β → Prop} {as : List α} {bs : List β} {b : β}
    (h : List.Forall₂ R as bs)
    (hb : b ∈ bs) :
    ∃ a ∈ as, R a b := by
  induction h with
  | nil =>
      cases hb
  | cons hR _ ih =>
      rcases List.mem_cons.mp hb with rfl | hb
      · exact ⟨_, List.mem_cons_self, hR⟩
      · obtain ⟨a, ha, hab⟩ := ih hb
        exact ⟨a, List.mem_cons_of_mem _ ha, hab⟩

/-- The partner of an element of the first list. -/
theorem List.Forall₂.exists_right
    {α β : Type*} {R : α → β → Prop} {as : List α} {bs : List β} {a : α}
    (h : List.Forall₂ R as bs)
    (ha : a ∈ as) :
    ∃ b ∈ bs, R a b := by
  obtain ⟨b, hb, hba⟩ := h.flip.exists_left ha
  exact ⟨b, hb, hba⟩

namespace BoolSystem

universe u

variable {K : Type u} {body body' : K → Formula K} {model : Set K}

open Formula

/-- The second formula is the first one with some parts replaced by their values. -/
inductive Freezes (model : Set K) : Formula K → Formula K → Prop
  | value {f : Formula K} {b : Bool} :
      (b = true ↔ Sat model model f) → Freezes model f (.const b)
  | same (f : Formula K) : Freezes model f f
  | any {fs gs : List (Formula K)} :
      List.Forall₂ (Freezes model) fs gs → Freezes model (.any fs) (.any gs)
  | all {fs gs : List (Formula K)} :
      List.Forall₂ (Freezes model) fs gs → Freezes model (.all fs) (.all gs)
  | diff {b e b' e' : Formula K} :
      Freezes model b b' → Freezes model e e' → Freezes model (.diff b e) (.diff b' e')

namespace Freezes

/-- Induction over the first formula, with the operands matched pairwise. -/
theorem induct
    {P : Formula K → Formula K → Prop}
    (value : ∀ {f b}, (b = true ↔ Sat model model f) → P f (.const b))
    (same : ∀ f, P f f)
    (any : ∀ {fs gs}, List.Forall₂ P fs gs → P (.any fs) (.any gs))
    (all : ∀ {fs gs}, List.Forall₂ P fs gs → P (.all fs) (.all gs))
    (diff : ∀ {b e b' e'}, P b b' → Freezes model e e' → P e e' →
      P (.diff b e) (.diff b' e')) :
    ∀ {f g}, Freezes model f g → P f g := by
  intro f
  induction f using Formula.inductionOn with
  | const b =>
      intro g h
      cases h with
      | value hb => exact value hb
      | same => exact same _
  | atom k =>
      intro g h
      cases h with
      | value hb => exact value hb
      | same => exact same _
  | any fs ih =>
      intro g h
      cases h with
      | value hb => exact value hb
      | same => exact same _
      | any hfs =>
          refine any ?_
          clear value same all diff any
          induction hfs with
          | nil => exact List.Forall₂.nil
          | cons h _ ihs =>
              exact List.Forall₂.cons (ih _ List.mem_cons_self h)
                (ihs (fun f hf => ih f (List.mem_cons_of_mem _ hf)))
  | all fs ih =>
      intro g h
      cases h with
      | value hb => exact value hb
      | same => exact same _
      | all hfs =>
          refine all ?_
          clear value same all diff any
          induction hfs with
          | nil => exact List.Forall₂.nil
          | cons h _ ihs =>
              exact List.Forall₂.cons (ih _ List.mem_cons_self h)
                (ihs (fun f hf => ih f (List.mem_cons_of_mem _ hf)))
  | diff b e ihb ihe =>
      intro g h
      cases h with
      | value hb => exact value hb
      | same => exact same _
      | diff hb he => exact diff (ihb hb) he (ihe he)

variable {f g : Formula K}

/-- The model does not see the difference. -/
theorem sat_iff
    (h : Freezes model f g) :
    Sat model model f ↔ Sat model model g := by
  refine h.induct (P := fun f g => Sat model model f ↔ Sat model model g) ?_ ?_ ?_ ?_ ?_
  · intro f b hb
    rw [sat_const, hb]
  · intro f
    exact Iff.rfl
  · intro fs gs hfs
    rw [sat_any, sat_any]
    constructor
    · rintro ⟨f, hf, hs⟩
      obtain ⟨g, hg, hfg⟩ := hfs.exists_right hf
      exact ⟨g, hg, hfg.mp hs⟩
    · rintro ⟨g, hg, hs⟩
      obtain ⟨f, hf, hfg⟩ := hfs.exists_left hg
      exact ⟨f, hf, hfg.mpr hs⟩
  · intro fs gs hfs
    rw [sat_all, sat_all]
    constructor
    · intro hall g hg
      obtain ⟨f, hf, hfg⟩ := hfs.exists_left hg
      exact hfg.mp (hall f hf)
    · intro hall f hf
      obtain ⟨g, hg, hfg⟩ := hfs.exists_right hf
      exact hfg.mpr (hall g hg)
  · intro b e b' e' hb _ he
    rw [sat_diff, sat_diff, hb, he]

/-- Fewer keys than the model has make the frozen formula true as soon as the other one. -/
theorem sat_of_subset
    (h : Freezes model f g)
    {pos : Set K}
    (hpos : pos ⊆ model)
    (hs : Sat pos model f) :
    Sat pos model g := by
  revert hs
  refine h.induct (P := fun f g => Sat pos model f → Sat pos model g) ?_ ?_ ?_ ?_ ?_
  · intro f b hb hs
    exact (sat_const _ _ _).mpr (hb.mpr (hs.mono hpos))
  · intro f hs
    exact hs
  · intro fs gs hfs hs
    obtain ⟨f, hf, hs⟩ := (sat_any _ _ _).mp hs
    obtain ⟨g, hg, hfg⟩ := hfs.exists_right hf
    exact (sat_any _ _ _).mpr ⟨g, hg, hfg hs⟩
  · intro fs gs hfs hs
    refine (sat_all _ _ _).mpr (fun g hg => ?_)
    obtain ⟨f, hf, hfg⟩ := hfs.exists_left hg
    exact hfg ((sat_all _ _ _).mp hs f hf)
  · intro b e b' e' hb he _ hs
    obtain ⟨hsb, hse⟩ := (sat_diff _ _ _ _).mp hs
    exact (sat_diff _ _ _ _).mpr ⟨hb hsb, fun h => hse (he.sat_iff.mpr h)⟩

/-- Freezing adds no reference. -/
theorem refers
    (h : Freezes model f g) :
    ∀ k, Refers g k → Refers f k := by
  refine h.induct (P := fun f g => ∀ k, Refers g k → Refers f k) ?_ ?_ ?_ ?_ ?_
  · intro f b _ k hk
    cases hk
  · intro f k hk
    exact hk
  · intro fs gs hfs k hk
    cases hk with
    | any hg hk =>
        obtain ⟨f, hf, hfg⟩ := hfs.exists_left hg
        exact Refers.any hf (hfg k hk)
  · intro fs gs hfs k hk
    cases hk with
    | all hg hk =>
        obtain ⟨f, hf, hfg⟩ := hfs.exists_left hg
        exact Refers.all hf (hfg k hk)
  · intro b e b' e' hb _ he k hk
    cases hk with
    | base hk => exact Refers.base (hb k hk)
    | exclude hk => exact Refers.exclude (he k hk)

theorem refersExcluded
    (h : Freezes model f g) :
    ∀ k, RefersExcluded g k → RefersExcluded f k := by
  refine h.induct (P := fun f g => ∀ k, RefersExcluded g k → RefersExcluded f k) ?_ ?_ ?_ ?_ ?_
  · intro f b _ k hk
    cases hk
  · intro f k hk
    exact hk
  · intro fs gs hfs k hk
    cases hk with
    | any hg hk =>
        obtain ⟨f, hf, hfg⟩ := hfs.exists_left hg
        exact RefersExcluded.any hf (hfg k hk)
  · intro fs gs hfs k hk
    cases hk with
    | all hg hk =>
        obtain ⟨f, hf, hfg⟩ := hfs.exists_left hg
        exact RefersExcluded.all hf (hfg k hk)
  · intro b e b' e' hb he _ k hk
    cases hk with
    | base hk => exact RefersExcluded.base (hb k hk)
    | exclude hk => exact RefersExcluded.exclude (he.refers k hk)

end Freezes

section Systems

variable {level : K → Nat}

theorem IsStratification.freeze
    (hlevel : IsStratification body level)
    (hfreeze : ∀ k, Freezes model (body k) (body' k)) :
    IsStratification body' level :=
  ⟨fun h => hlevel.le ((hfreeze _).refers _ h),
    fun h => hlevel.lt ((hfreeze _).refersExcluded _ h)⟩

/-- Induction over the least model up to a level: keys may be assumed in the set where they
are used positively. -/
theorem leastModel_induct
    (hlevel : IsStratification body level)
    {n : Nat} {X : Set K}
    (hX : ∀ k, level k ≤ n →
      Sat (X ∩ leastModel body level) (leastModel body level) (body k) → k ∈ X) :
    ∀ k, level k ≤ n → k ∈ leastModel body level → k ∈ X := by
  have hsub : derivable body level ∅ ⊆
      {k | k ∈ leastModel body level ∧ (level k ≤ n → k ∈ X)} := by
    refine closure_subset (fun k _ hs => ⟨?_, fun hk => hX k hk ?_⟩)
    · exact (mem_leastModel_iff hlevel).mpr (hs.mono (fun _ h => h.1))
    · have hlow : Sat ({k | k ∈ leastModel body level ∧ (level k ≤ n → k ∈ X)} ∩
          {j | level j ≤ n}) (leastModel body level) (body k) := by
        refine (sat_congr (fun j hj => ?_) (fun _ _ => Iff.rfl)).mp hs
        exact ⟨fun h => ⟨h, le_trans (hlevel.le hj) hk⟩, fun h => h.1⟩
      exact hlow.mono (fun j hj => ⟨hj.1.2 hj.2, hj.1.1⟩)
  intro k hk hmem
  exact (hsub ((mem_derivable_iff_leastModel hlevel (by simp)).mpr hmem)).2 hk

/-- Freezing parts of the bodies by their values in the least model keeps the least model. -/
theorem leastModel_freeze
    (hlevel : IsStratification body level)
    (hfreeze : ∀ k, Freezes (leastModel body level) (body k) (body' k)) :
    leastModel body' level = leastModel body level := by
  have hlevel' := hlevel.freeze hfreeze
  have hbelow : ∀ n k, level k < n →
      (k ∈ leastModel body' level ↔ k ∈ leastModel body level) := by
    intro n
    induction n with
    | zero =>
        intro k hk
        omega
    | succ n ih =>
        intro k hk
        have hle : level k ≤ n := by omega
        -- below the current level the two models agree by induction
        have hneg : ∀ {j i}, level j ≤ n → RefersExcluded (body' j) i →
            (i ∈ leastModel body' level ↔ i ∈ leastModel body level) := by
          intro j i hj hi
          have := hlevel'.lt hi
          exact ih i (by omega)
        constructor
        · refine leastModel_induct hlevel' ?_ k hle
          intro j hj hs
          refine (mem_leastModel_iff hlevel).mpr ((hfreeze j).sat_iff.mpr ?_)
          exact ((sat_congr (fun _ _ => Iff.rfl) (fun i hi => hneg hj hi)).mp hs).mono
            Set.inter_subset_left
        · refine leastModel_induct hlevel ?_ k hle
          intro j hj hs
          have hs' := (hfreeze j).sat_of_subset Set.inter_subset_right hs
          refine (mem_leastModel_iff hlevel').mpr ?_
          exact ((sat_congr (fun _ _ => Iff.rfl) (fun i hi => (hneg hj hi).symm)).mp hs').mono
            Set.inter_subset_left
  ext k
  exact hbelow (level k + 1) k (Nat.lt_succ_self _)

end Systems

end BoolSystem
