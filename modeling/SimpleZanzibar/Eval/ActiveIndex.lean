import SimpleZanzibar.Eval.Context

/-!
# Stacks with an index of their keys

A stack of keys with marks beside it.  Below the threshold, and while the index is off, a key is
looked for on the stack itself.  From the threshold on its mark answers: the whole stack is marked
when it reaches the threshold, later keys as they are pushed, and a pop withdraws the mark of its
key.  Marks of another generation count for nothing.

**Results.**
* `ActiveIndex.Inv.isActive_iff`: a key is found active iff it is on the stack.
* `ActiveIndex.Inv.push`, `ActiveIndex.Inv.pop`, `ActiveIndex.inv_empty`: what keeps the marks in
  step with the stack.
-/

namespace SimpleZanzibar

/-- A stack with the marks of its keys.  The top is at the head. -/
structure ActiveIndex (κ : Type) where
  stack : List κ
  marks : AList (fun _ : κ => VisitMark)
  generation : Nat
  indexed : Bool

namespace ActiveIndex

variable {κ : Type} [DecidableEq κ]

def isActive (index : ActiveIndex κ) (key : κ) : Bool :=
  if !index.indexed || decide (index.stack.length < activeIndexThreshold) then
    decide (key ∈ index.stack)
  else
    (index.marks.lookup key).any (fun mark =>
      decide (mark.generation = index.generation) && mark.active)

/-- The marks after every key of the stack was marked. -/
def rebuilt (index : ActiveIndex κ) : AList (fun _ : κ => VisitMark) :=
  index.stack.foldr (fun key active => active.insert key ⟨index.generation, true⟩) index.marks

def push (index : ActiveIndex κ) (key : κ) : ActiveIndex κ :=
  { index with
    stack := key :: index.stack
    marks :=
      if index.indexed && decide (activeIndexThreshold ≤ index.stack.length + 1) then
        (if index.stack.length + 1 = activeIndexThreshold then index.rebuilt
        else index.marks).insert key ⟨index.generation, true⟩
      else index.marks }

/-- The marks after the mark of a key was withdrawn. -/
def withdrawn (index : ActiveIndex κ) (key : κ) : AList (fun _ : κ => VisitMark) :=
  match index.marks.lookup key with
  | some mark =>
      if mark.generation = index.generation then index.marks.insert key ⟨mark.generation, false⟩
      else index.marks
  | none => index.marks

def pop (index : ActiveIndex κ) : ActiveIndex κ :=
  match index.stack with
  | [] => index
  | key :: rest => { index with stack := rest, marks := index.withdrawn key }

/-- The marks of the current generation agree with the stack. -/
structure Inv (index : ActiveIndex κ) : Prop where
  nodup : index.stack.Nodup
  generation : ∀ key mark, index.marks.lookup key = some mark →
    mark.generation ≤ index.generation
  sound : ∀ key mark, index.marks.lookup key = some mark →
    mark.generation = index.generation → mark.active = true → key ∈ index.stack
  complete : index.indexed = true → activeIndexThreshold ≤ index.stack.length →
    ∀ key ∈ index.stack, index.marks.lookup key = some ⟨index.generation, true⟩

variable {index : ActiveIndex κ}

/-- An empty stack, with marks of earlier generations only. -/
theorem inv_empty
    (hstack : index.stack = [])
    (hmarks : ∀ key mark, index.marks.lookup key = some mark →
      mark.generation < index.generation) :
    index.Inv := by
  constructor
  · rw [hstack]
    exact List.nodup_nil
  · exact fun key mark hmark => (hmarks key mark hmark).le
  · intro key mark hmark hgeneration _
    exact absurd hgeneration (hmarks key mark hmark).ne
  · intro _ hlength
    rw [hstack] at hlength
    exact (Nat.not_succ_le_zero _ hlength).elim

/-- A key is found active iff it is on the stack. -/
theorem Inv.isActive_iff
    (h : index.Inv)
    (key : κ) :
    index.isActive key = true ↔ key ∈ index.stack := by
  unfold isActive
  by_cases hscan : (!index.indexed ||
      decide (index.stack.length < activeIndexThreshold)) = true
  · rw [if_pos hscan, decide_eq_true_iff]
  · rw [if_neg hscan]
    simp only [Bool.or_eq_true, Bool.not_eq_true', decide_eq_true_eq, not_or, Bool.not_eq_false,
      not_lt] at hscan
    constructor
    · intro hany
      cases hlookup : index.marks.lookup key with
      | none =>
          rw [hlookup] at hany
          cases hany
      | some mark =>
          rw [hlookup] at hany
          simp only [Option.any_some, Bool.and_eq_true, decide_eq_true_eq] at hany
          exact h.sound key mark hlookup hany.1 hany.2
    · intro hmem
      rw [h.complete hscan.1 hscan.2 key hmem]
      simp

theorem lookup_rebuilt
    (index : ActiveIndex κ) (key : κ) :
    index.rebuilt.lookup key =
      if key ∈ index.stack then some ⟨index.generation, true⟩
      else index.marks.lookup key := by
  unfold rebuilt
  induction index.stack with
  | nil =>
      simp
  | cons first rest ih =>
      rw [List.foldr_cons]
      by_cases heq : key = first
      · subst heq
        simp
      · rw [AList.lookup_insert_ne heq, ih]
        simp [heq]

/-- The marks after a push: the stack is marked when it reaches the threshold, and every
key that is pushed from then on. -/
theorem lookup_push
    (index : ActiveIndex κ) (key other : κ) :
    (index.push key).marks.lookup other =
      if index.indexed = true ∧ activeIndexThreshold ≤ index.stack.length + 1 then
        if other = key then some ⟨index.generation, true⟩
        else if index.stack.length + 1 = activeIndexThreshold ∧ other ∈ index.stack then
          some ⟨index.generation, true⟩
        else index.marks.lookup other
      else index.marks.lookup other := by
  unfold push
  by_cases hindexed : index.indexed = true ∧ activeIndexThreshold ≤ index.stack.length + 1
  · rw [if_pos hindexed]
    simp only [if_pos (show (index.indexed &&
      decide (activeIndexThreshold ≤ index.stack.length + 1)) = true by simp [hindexed])]
    by_cases heq : other = key
    · subst heq
      rw [if_pos rfl, AList.lookup_insert]
    · rw [if_neg heq, AList.lookup_insert_ne heq]
      by_cases hfull : index.stack.length + 1 = activeIndexThreshold
      · simp only [hfull, if_true, true_and]
        exact lookup_rebuilt index other
      · simp only [hfull, if_false, false_and]
  · rw [if_neg hindexed]
    simp only [if_neg (show ¬(index.indexed &&
      decide (activeIndexThreshold ≤ index.stack.length + 1)) = true by simpa using hindexed)]

/-- Putting a new key on the stack keeps the marks in step. -/
theorem Inv.push
    (h : index.Inv)
    {key : κ}
    (hkey : key ∉ index.stack) :
    (index.push key).Inv := by
  constructor
  · exact List.nodup_cons.mpr ⟨hkey, h.nodup⟩
  · intro other mark hmark
    rw [lookup_push] at hmark
    show mark.generation ≤ index.generation
    split_ifs at hmark
    · cases hmark
      exact Nat.le_refl _
    · cases hmark
      exact Nat.le_refl _
    · exact h.generation other mark hmark
    · exact h.generation other mark hmark
  · intro other mark hmark hgeneration hactive
    rw [lookup_push] at hmark
    show other ∈ key :: index.stack
    rw [List.mem_cons]
    split_ifs at hmark with _ heq hfull
    · exact Or.inl heq
    · exact Or.inr hfull.2
    · exact Or.inr (h.sound other mark hmark hgeneration hactive)
    · exact Or.inr (h.sound other mark hmark hgeneration hactive)
  · intro hindexed hlength other hother
    rw [lookup_push, if_pos ⟨hindexed, hlength⟩]
    by_cases heq : other = key
    · rw [if_pos heq]
      rfl
    · rw [if_neg heq]
      have hmem : other ∈ index.stack := (List.mem_cons.mp hother).resolve_left heq
      by_cases hfull : index.stack.length + 1 = activeIndexThreshold
      · rw [if_pos ⟨hfull, hmem⟩]
        rfl
      · rw [if_neg (fun hc => hfull hc.1)]
        have hlength' : activeIndexThreshold ≤ index.stack.length + 1 := hlength
        exact h.complete hindexed (by omega) other hmem

/-- The marks of the other keys stay, and the key has no active mark of the generation left. -/
theorem lookup_withdrawn
    (index : ActiveIndex κ) (key : κ) :
    (∀ other, other ≠ key → (index.withdrawn key).lookup other = index.marks.lookup other) ∧
      ∀ mark, (index.withdrawn key).lookup key = some mark →
        mark.generation = index.generation → mark.active = false := by
  unfold withdrawn
  cases hlookup : index.marks.lookup key with
  | none =>
      refine ⟨fun _ _ => rfl, fun mark hmark => ?_⟩
      rw [hlookup] at hmark
      cases hmark
  | some mark =>
      by_cases hgeneration : mark.generation = index.generation
      · simp only [hgeneration, if_true]
        refine ⟨fun other hne => AList.lookup_insert_ne hne, fun mark' hmark' _ => ?_⟩
        rw [AList.lookup_insert] at hmark'
        cases hmark'
        rfl
      · simp only [hgeneration, if_false]
        refine ⟨fun _ _ => trivial, fun mark' hmark' hgeneration' => ?_⟩
        rw [hlookup] at hmark'
        cases hmark'
        exact absurd hgeneration' hgeneration

/-- No mark of a later generation comes in. -/
theorem generation_withdrawn
    (h : ∀ key mark, index.marks.lookup key = some mark → mark.generation ≤ index.generation)
    (key : κ) :
    ∀ other mark, (index.withdrawn key).lookup other = some mark →
      mark.generation ≤ index.generation := by
  intro other mark hmark
  by_cases heq : other = key
  · subst heq
    unfold withdrawn at hmark
    split at hmark
    · next found hfound =>
        split at hmark
        · next hgeneration =>
            rw [AList.lookup_insert] at hmark
            cases hmark
            exact hgeneration.le
        · exact h other mark hmark
    · exact h other mark hmark
  · rw [(lookup_withdrawn index key).1 other heq] at hmark
    exact h other mark hmark

/-- Taking the top key off the stack keeps the marks in step. -/
theorem Inv.pop
    (h : index.Inv) :
    index.pop.Inv := by
  unfold ActiveIndex.pop
  split
  · exact h
  · next key rest hstack =>
      have hnodup := h.nodup
      rw [hstack, List.nodup_cons] at hnodup
      obtain ⟨hothers, hkey⟩ := lookup_withdrawn index key
      refine ⟨hnodup.2, generation_withdrawn h.generation key, ?_, ?_⟩
      · intro other mark hmark hgeneration hactive
        by_cases heq : other = key
        · subst heq
          have hinactive := hkey mark hmark hgeneration
          rw [hactive] at hinactive
          cases hinactive
        · have hmem := h.sound other mark ((hothers other heq).symm.trans hmark) hgeneration
            hactive
          rw [hstack, List.mem_cons] at hmem
          exact hmem.resolve_left heq
      · intro hindexed hlength other hmem
        have hne : other ≠ key := by
          rintro rfl
          exact hnodup.1 hmem
        show (index.withdrawn key).lookup other = _
        rw [hothers other hne]
        apply h.complete hindexed
        · rw [hstack, List.length_cons]
          exact Nat.le_succ_of_le hlength
        · rw [hstack]
          exact List.mem_cons_of_mem _ hmem

end ActiveIndex

end SimpleZanzibar
