import SimpleZanzibar.Dsl
import SimpleZanzibar.SchemaHash

/-!
# The text of a schema

Configurations are printed in the schema language, namespaces and relations ordered by name.
-/

namespace SimpleZanzibar

mutual

/-- The text of an expression. -/
def pushExpression : LegacyUsersetExpression → String
  | .this => "this"
  | .computedUserset relation => "computed_userset(relation: \"" ++ relation.name ++ "\")"
  | .tupleToUserset tuplesetRelation computedUsersetRelation =>
      "tuple_to_userset(tupleset: \"" ++ tuplesetRelation.name ++ "\", computed_userset: \"" ++
        computedUsersetRelation.name ++ "\")"
  | .union expressions => "union(" ++ pushExpressionList "" expressions ++ ")"
  | .intersection expressions => "intersection(" ++ pushExpressionList "" expressions ++ ")"
  | .exclusion base exclude =>
      "exclusion(" ++ pushExpression base ++ ", " ++ pushExpression exclude ++ ")"

/-- The texts of operands, the first behind the given separator. -/
def pushExpressionList (separator : String) : List LegacyUsersetExpression → String
  | [] => ""
  | expression :: rest => separator ++ pushExpression expression ++ pushExpressionList ", " rest

end

def pushRelation (relation : RelationConfig) : String :=
  match relation.usersetRewrite with
  | some expression =>
      "    relation " ++ relation.name.name ++ " \x7b\n        rewrite " ++
        pushExpression expression ++ "\n    \x7d\n"
  | none => "    relation " ++ relation.name.name ++ " \x7b\x7d\n"

def pushNamespace (listing : MapListing) (config : NamespaceConfig) : String :=
  "namespace " ++ config.name ++ " \x7b\n" ++
    String.join ((sortByName (·.name.name) (listing.relations config)).map pushRelation) ++
    "\x7d\n\n"

/-- The text of all namespaces. -/
def canonicalSchemaSource (listing : MapListing) (configs : NamespaceConfigs) : String :=
  String.join ((sortByName (·.name) (listing.namespaces configs)).map (pushNamespace listing))

end SimpleZanzibar
