import Mathlib.Logic.Function.Iterate

/-!
# Recursive procedures that end

A recursive procedure is a body over the procedure for the nested calls.  Unfolding the body `n`
times leaves something in place of the calls that are nested deeper.  A call ends where this is
never asked: from some depth on every unfolding gives the same, whatever stands below.

**Results.**
* `endsWith_of_agree`: two procedures that agree on ever more calls as they are unfolded.
-/

namespace SimpleZanzibar

variable {F C : Type}

/-- A computation over a recursive procedure ends with the result. -/
def EndsWith (body : F → F) (root : F → C) (c : C) : Prop :=
  ∃ depth, ∀ n, depth ≤ n → ∀ bottom, root (body^[n] bottom) = c

variable {body : F → F} {root : F → C}

/-- Unfolding two procedures makes them agree on more calls. -/
theorem agree_iterate
    {Agree : Nat → F → F → Prop}
    (hbody : ∀ k f g, Agree k f g → Agree (k + 1) (body f) (body g))
    {f g : F}
    (hbase : Agree 0 f g)
    (n : Nat) :
    Agree n (body^[n] f) (body^[n] g) := by
  induction n with
  | zero => exact hbase
  | succ n ih =>
      rw [Function.iterate_succ_apply', Function.iterate_succ_apply']
      exact hbody n _ _ ih

/-- A computation ends where it only asks for calls on which the unfolded procedures agree. -/
theorem endsWith_of_agree
    (Agree : Nat → F → F → Prop)
    {g : F} {depth : Nat}
    (hbase : ∀ f, Agree 0 (body f) g)
    (hbody : ∀ k f g, Agree k f g → Agree (k + 1) (body f) (body g))
    (hroot : ∀ f g, Agree depth f g → root f = root g) :
    EndsWith body root (root (body^[depth] g)) := by
  refine ⟨depth + 1, fun n hn bottom => ?_⟩
  obtain ⟨m, rfl⟩ := Nat.exists_eq_add_of_le hn
  apply hroot
  have hsplit : body^[depth + 1 + m] bottom = body^[depth] (body (body^[m] bottom)) := by
    rw [← Function.iterate_succ_apply' body m, ← Function.iterate_add_apply,
      Nat.add_right_comm, Nat.add_assoc]
  rw [hsplit]
  exact agree_iterate hbody (hbase _) depth

end SimpleZanzibar
