import SimpleZanzibar.Lib.CutEvaluation

/-!
# What a depth-first walk covers

A walk over the keys of a system of Boolean equations follows the references that can make a
key true and skips the keys that are active or were seen before.  Where it finds no true
constant, the keys that it has visited are false.

**Results.**
* `Grounded`: a formula that is false where the keys of a set are.
* `Covers`, `Visits`: what a walk from some seen keys to others has looked at.
* `Visits.eval_false`: a whole walk that finds no true constant.
-/

universe u

namespace BoolSystem

open Formula

variable {K : Type u} {body : K → Formula K}

/-- The formula has no true constant, and its atoms are in the set, where they count: in all
operands of a union, in some operand of an intersection, in the base of a difference. -/
inductive Grounded (W : Set K) : Formula K → Prop
  | const : Grounded W (.const false)
  | atom {k : K} : k ∈ W → Grounded W (.atom k)
  | any {fs : List (Formula K)} : (∀ f ∈ fs, Grounded W f) → Grounded W (.any fs)
  | all {fs : List (Formula K)} {f : Formula K} : f ∈ fs → Grounded W f → Grounded W (.all fs)
  | diff {b e : Formula K} : Grounded W b → Grounded W (.diff b e)

theorem Grounded.mono
    {W W' : Set K} {f : Formula K}
    (h : Grounded W f)
    (hsubset : W ⊆ W') :
    Grounded W' f := by
  induction h with
  | const => exact .const
  | atom hk => exact .atom (hsubset hk)
  | any _ ih => exact .any ih
  | all hf _ ih => exact .all hf ih
  | diff _ ih => exact .diff ih

/-- Over a set whose keys have grounded bodies a grounded formula is false. -/
theorem Grounded.eval_false
    {W S : Set K} {f : Formula K} {b : Bool}
    (hclosed : ∀ k ∈ W, Grounded W (body k))
    (h : Grounded W f)
    (heval : Eval body S f b) :
    b = false := by
  induction heval with
  | const b =>
      cases h
      rfl
  | cut _ => rfl
  | enter _ _ ih =>
      cases h with
      | atom hk => exact ih (hclosed _ hk)
  | anyTrue hf _ ih =>
      cases h with
      | any hall => exact ih (hall _ hf)
  | anyFalse _ _ => rfl
  | allTrue _ ih =>
      cases h with
      | all hf hground => exact ih _ hf hground
  | allFalse _ _ _ => rfl
  | diffTrue _ _ ihb _ =>
      cases h with
      | diff hb => exact ihb hb
  | diffBase _ _ => rfl
  | diffExclude _ _ => rfl

/-- A walk that saw the keys of `seen` before and those of `seen'` after it covers the formulas:
they are grounded in the active keys, the keys that it found and the keys seen before, and so
are the bodies of the keys that it found. -/
def Covers (body : K → Formula K) (active seen seen' : Set K) (fs : Set (Formula K)) : Prop :=
  ∃ found : Set K, (∀ f ∈ fs, Grounded (active ∪ found ∪ seen) f) ∧
    seen' ⊆ active ∪ found ∪ seen ∧
    ∀ k ∈ found, Grounded (active ∪ found ∪ seen) (body k)

/-- The walk visits the key: it is active or the walk finds it. -/
def Visits (body : K → Formula K) (active seen seen' : Set K) (k : K) : Prop :=
  ∃ found : Set K, k ∈ active ∪ found ∧ seen' ⊆ active ∪ found ∪ seen ∧
    ∀ j ∈ found, Grounded (active ∪ found ∪ seen) (body j)

variable {active seen seen' seen'' : Set K} {fs gs : Set (Formula K)} {k : K}

/-- A walk that stands still. -/
theorem covers_of_grounded
    (h : ∀ f ∈ fs, Grounded (active ∪ seen) f) :
    Covers body active seen seen fs := by
  refine ⟨∅, fun f hf => (h f hf).mono ?_, fun j hj => Or.inr hj, fun j hj => (by cases hj)⟩
  rw [Set.union_empty]

theorem Covers.imp
    (h : Covers body active seen seen' fs)
    (hground : ∀ W : Set K, (∀ f ∈ fs, Grounded W f) → ∀ g ∈ gs, Grounded W g) :
    Covers body active seen seen' gs := by
  obtain ⟨found, hfs, hseen, hfound⟩ := h
  exact ⟨found, hground _ hfs, hseen, hfound⟩

/-- One walk after the other. -/
theorem Covers.trans
    (h : Covers body active seen seen' fs)
    (h' : Covers body active seen' seen'' gs) :
    Covers body active seen seen'' (fs ∪ gs) := by
  obtain ⟨found, hfs, hseen, hfound⟩ := h
  obtain ⟨found', hgs, hseen', hfound'⟩ := h'
  have hfirst : active ∪ found ∪ seen ⊆ active ∪ (found ∪ found') ∪ seen := by
    rintro j ((hj | hj) | hj)
    · exact Or.inl (Or.inl hj)
    · exact Or.inl (Or.inr (Or.inl hj))
    · exact Or.inr hj
  have hsecond : active ∪ found' ∪ seen' ⊆ active ∪ (found ∪ found') ∪ seen := by
    rintro j ((hj | hj) | hj)
    · exact Or.inl (Or.inl hj)
    · exact Or.inl (Or.inr (Or.inr hj))
    · exact hfirst (hseen hj)
  refine ⟨found ∪ found', ?_, hseen'.trans hsecond, ?_⟩
  · rintro f (hf | hf)
    · exact (hfs f hf).mono hfirst
    · exact (hgs f hf).mono hsecond
  · rintro j (hj | hj)
    · exact (hfound j hj).mono hfirst
    · exact (hfound' j hj).mono hsecond

/-- A key that is active is not walked again. -/
theorem visits_active
    (hk : k ∈ active) :
    Visits body active seen seen k :=
  ⟨∅, Or.inl hk, fun j hj => Or.inr hj, fun j hj => (by cases hj)⟩

/-- A walk of the body of a key, with the key active. -/
theorem Covers.visits
    (h : Covers body (insert k active) seen seen' {body k}) :
    Visits body active seen seen' k := by
  obtain ⟨found, hbody, hseen, hfound⟩ := h
  have hsame : insert k active ∪ found ∪ seen = active ∪ insert k found ∪ seen := by
    rw [Set.insert_union, Set.union_insert]
  rw [hsame] at hbody hseen hfound
  refine ⟨insert k found, Or.inr (Set.mem_insert k found), hseen, ?_⟩
  rintro j (rfl | hj)
  · exact hbody _ rfl
  · exact hfound j hj

theorem Visits.covers
    (h : Visits body active seen seen' k) :
    Covers body active seen seen' {.atom k} := by
  obtain ⟨found, hk, hseen, hfound⟩ := h
  refine ⟨found, ?_, hseen, hfound⟩
  rintro f rfl
  exact .atom (Or.inl hk)

/-- A key that is entered among the seen ones and then visited. -/
theorem Visits.covers_of_insert
    (h : Visits body active (insert k seen) seen' k) :
    Covers body active seen seen' {.atom k} := by
  obtain ⟨found, hk, hseen, hfound⟩ := h
  have hin : k ∈ active ∪ found ∪ seen := Or.inl hk
  have hsame : active ∪ found ∪ insert k seen = active ∪ found ∪ seen := by
    rw [Set.union_insert, Set.insert_eq_of_mem hin]
  rw [hsame] at hseen hfound
  refine ⟨found, ?_, hseen, hfound⟩
  rintro f rfl
  exact .atom (Or.inl hk)

/-- A walk from the beginning that finds no true constant: the key that it starts at is
false. -/
theorem Visits.eval_false
    {S : Set K} {b : Bool}
    (h : Visits body ∅ ∅ seen' k)
    (heval : Eval body S (body k) b) :
    b = false := by
  obtain ⟨found, hk, _, hfound⟩ := h
  simp only [Set.empty_union, Set.union_empty] at hk hfound
  exact (hfound k hk).eval_false hfound heval

end BoolSystem
