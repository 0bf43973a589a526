import Mathlib.Data.List.Basic
import Mathlib.Order.Lattice

/-!
# Binary search

A search halves a window of a list until one element is left, and compares that one.  The
comparison tells where an element stands relative to what is searched, so that less elements
stand before equal ones, and these before greater ones.

**Results.**
* `binarySearchBy_sound`: what is found is equal.
* `binarySearchBy_eq_none_iff`: in a parted list nothing is found iff nothing is equal.
* `binarySearchBy_compare`: among distinct keys in ascending order a key is found at its place.
-/

universe u v

namespace BinarySearch

variable {α : Type u} {β : Type v}

/-- The place of the last window, after so many halvings. -/
def searchWindow (order : α → Ordering) (xs : List α) : Nat → Nat → Nat → Nat
  | 0, base, _ => base
  | fuel + 1, base, size =>
      if size ≤ 1 then base
      else
        let half := size / 2
        let mid := base + half
        let base := if xs[mid]?.map order = some .gt then base else mid
        searchWindow order xs fuel base (size - half)

/-- The place of an equal element. -/
def binarySearchBy (order : α → Ordering) (xs : List α) : Option Nat :=
  let base := searchWindow order xs xs.length 0 xs.length
  if xs[base]?.map order = some .eq then some base else none

/-- Less elements stand before the others, and greater ones behind them. -/
def Parted (order : α → Ordering) (xs : List α) : Prop :=
  xs.Pairwise (fun a b => (order b = .lt → order a = .lt) ∧ (order a = .gt → order b = .gt))

/-- The element at the place is equal. -/
def EqualAt (order : α → Ordering) (xs : List α) (place : Nat) : Prop :=
  xs[place]?.map order = some .eq

variable {order : α → Ordering} {xs : List α}

/-- What is found is equal. -/
theorem binarySearchBy_sound
    {place : Nat}
    (h : binarySearchBy order xs = some place) :
    EqualAt order xs place := by
  unfold binarySearchBy at h
  dsimp only at h
  split at h
  · cases h
    assumption
  · cases h

theorem Parted.equalAt_lt
    (h : Parted order xs)
    {mid place : Nat}
    (hmid : xs[mid]?.map order = some .gt)
    (hplace : EqualAt order xs place) :
    place < mid := by
  obtain ⟨a, ha, hgt⟩ := Option.map_eq_some_iff.mp hmid
  obtain ⟨b, hb, heq⟩ := Option.map_eq_some_iff.mp hplace
  obtain ⟨hmidLt, rfl⟩ := List.getElem?_eq_some_iff.mp ha
  obtain ⟨hplaceLt, rfl⟩ := List.getElem?_eq_some_iff.mp hb
  rcases Nat.lt_trichotomy place mid with hlt | rfl | hlt
  · exact hlt
  · rw [hgt] at heq
    cases heq
  · have hparted := (List.pairwise_iff_getElem.mp h mid place hmidLt hplaceLt hlt).2 hgt
    rw [hparted] at heq
    cases heq

theorem Parted.lt_equalAt
    (h : Parted order xs)
    {mid place : Nat}
    (hmid : xs[mid]?.map order = some .lt)
    (hplace : EqualAt order xs place) :
    mid < place := by
  obtain ⟨a, ha, hless⟩ := Option.map_eq_some_iff.mp hmid
  obtain ⟨b, hb, heq⟩ := Option.map_eq_some_iff.mp hplace
  obtain ⟨hmidLt, rfl⟩ := List.getElem?_eq_some_iff.mp ha
  obtain ⟨hplaceLt, rfl⟩ := List.getElem?_eq_some_iff.mp hb
  rcases Nat.lt_trichotomy mid place with hlt | rfl | hlt
  · exact hlt
  · rw [hless] at heq
    cases heq
  · have hparted := (List.pairwise_iff_getElem.mp h place mid hplaceLt hmidLt hlt).1 hless
    rw [hparted] at heq
    cases heq

/-- A window with an equal element keeps one when it is halved. -/
theorem Parted.halve
    (h : Parted order xs)
    {base size : Nat}
    (hsize : 1 < size)
    (hbound : base + size ≤ xs.length)
    (hwindow : ∃ place, base ≤ place ∧ place < base + size ∧ EqualAt order xs place) :
    let half := size / 2
    let base' := if xs[base + half]?.map order = some .gt then base else base + half
    base' + (size - half) ≤ xs.length ∧
      ∃ place, base' ≤ place ∧ place < base' + (size - half) ∧ EqualAt order xs place := by
  intro half base'
  have hhalf : half = size / 2 := rfl
  obtain ⟨place, hle, hlt, hequal⟩ := hwindow
  by_cases hgt : xs[base + half]?.map order = some .gt
  · have hbase : base' = base := if_pos hgt
    have hbefore := h.equalAt_lt hgt hequal
    rw [hbase]
    exact ⟨by omega, place, hle, by omega, hequal⟩
  · have hbase : base' = base + half := if_neg hgt
    rw [hbase]
    refine ⟨by omega, ?_⟩
    have hin : base + half < xs.length := by omega
    cases hmid : order xs[base + half] with
    | lt =>
        have hbehind := h.lt_equalAt (by rw [List.getElem?_eq_getElem hin, Option.map_some, hmid])
          hequal
        exact ⟨place, by omega, by omega, hequal⟩
    | eq =>
        refine ⟨base + half, Nat.le_refl _, by omega, ?_⟩
        unfold EqualAt
        rw [List.getElem?_eq_getElem hin, Option.map_some, hmid]
    | gt => exact absurd (by rw [List.getElem?_eq_getElem hin, Option.map_some, hmid]) hgt

/-- The last window of a search holds an equal element if the first one does. -/
theorem Parted.equalAt_searchWindow
    (h : Parted order xs)
    {fuel base size : Nat}
    (hfuel : size ≤ fuel + 1)
    (hbound : base + size ≤ xs.length)
    (hwindow : ∃ place, base ≤ place ∧ place < base + size ∧ EqualAt order xs place) :
    EqualAt order xs (searchWindow order xs fuel base size) := by
  have hlast : size ≤ 1 → EqualAt order xs base := by
    intro hsize
    obtain ⟨place, hle, hlt, hequal⟩ := hwindow
    have hsame : place = base := by omega
    rw [← hsame]
    exact hequal
  induction fuel generalizing base size with
  | zero => exact hlast hfuel
  | succ fuel ih =>
      unfold searchWindow
      by_cases hsize : size ≤ 1
      · rw [if_pos hsize]
        exact hlast hsize
      · rw [if_neg hsize]
        obtain ⟨hbound', hwindow'⟩ := h.halve (Nat.not_le.mp hsize) hbound hwindow
        refine ih (by omega) hbound' hwindow' (fun hone => ?_)
        obtain ⟨place, hle, hlt, hequal⟩ := hwindow'
        have hsame : place = _ := Nat.le_antisymm (by omega) hle
        rw [← hsame]
        exact hequal

/-- In a parted list nothing is found iff nothing is equal. -/
theorem binarySearchBy_eq_none_iff
    (h : Parted order xs) :
    binarySearchBy order xs = none ↔ ∀ a ∈ xs, order a ≠ .eq := by
  constructor
  · intro hnone a ha heq
    obtain ⟨place, hplace⟩ := List.mem_iff_getElem?.mp ha
    have hequal : EqualAt order xs place := by
      unfold EqualAt
      rw [hplace, Option.map_some, heq]
    have hlt : place < xs.length := (List.getElem?_eq_some_iff.mp hplace).1
    have hfound := h.equalAt_searchWindow (Nat.le_succ xs.length) (by omega)
      ⟨place, Nat.zero_le _, by omega, hequal⟩
    unfold binarySearchBy at hnone
    exact absurd ((if_pos hfound).symm.trans hnone) (Option.some_ne_none _)
  · intro hall
    cases hplace : binarySearchBy order xs with
    | none => rfl
    | some place =>
        obtain ⟨a, ha, heq⟩ := Option.map_eq_some_iff.mp (binarySearchBy_sound hplace)
        exact absurd heq (hall a (List.mem_of_getElem? ha))

variable [LinearOrder β] {key : α → β}

/-- Ascending keys part a list at every key. -/
theorem parted_compare
    (hsorted : xs.Pairwise (fun a b => key a < key b))
    (k : β) :
    Parted (fun a => compare (key a) k) xs :=
  hsorted.imp (fun hlt =>
    ⟨fun h => compare_lt_iff_lt.mpr (hlt.trans (compare_lt_iff_lt.mp h)),
      fun h => compare_gt_iff_gt.mpr ((compare_gt_iff_gt.mp h).trans hlt)⟩)

/-- Among distinct keys in ascending order a key is found at its place. -/
theorem binarySearchBy_compare
    [DecidableEq α]
    (hsorted : xs.Pairwise (fun a b => key a < key b))
    (hinjective : Function.Injective key)
    (x : α) :
    binarySearchBy (fun a => compare (key a) (key x)) xs = xs.idxOf? x := by
  have hequal : ∀ a, compare (key a) (key x) = .eq ↔ a = x :=
    fun a => compare_eq_iff_eq.trans hinjective.eq_iff
  cases hplace : binarySearchBy (fun a => compare (key a) (key x)) xs with
  | none =>
      have hnone := (binarySearchBy_eq_none_iff (parted_compare hsorted (key x))).mp hplace
      exact (List.idxOf?_eq_none_iff.mpr (fun hmem => hnone x hmem ((hequal x).mpr rfl))).symm
  | some place =>
      obtain ⟨a, ha, heq⟩ := Option.map_eq_some_iff.mp (binarySearchBy_sound hplace)
      obtain ⟨hlt, hget⟩ := List.getElem?_eq_some_iff.mp ha
      refine (List.idxOf?_eq_some_iff.mpr ⟨hlt, hget.trans ((hequal a).mp heq), ?_⟩).symm
      intro other hother hsame
      have hascending :=
        List.pairwise_iff_getElem.mp hsorted other place (Nat.lt_trans hother hlt) hlt hother
      rw [hsame, hget, (hequal a).mp heq] at hascending
      exact lt_irrefl _ hascending

end BinarySearch
