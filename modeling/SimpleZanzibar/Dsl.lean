import SimpleZanzibar.Writer

/-!
# The schema language

The parser of the schema language follows the grammar rule by rule: choices are tried in
order, a repetition stops at the first item that does not match, and white space and
comments are skipped between the parts of a rule but not inside a name or a string.  The
recursion is bounded by the length of the text, which every nested rule shortens.
-/

namespace SimpleZanzibar

namespace Dsl

def isWhitespace (c : Char) : Bool :=
  c == ' ' || c == '\t' || c == '\r' || c == '\n'

/-- Skips white space and comments; the flag tells that a comment is open. -/
def skipFrom : Bool → List Char → List Char
  | _, [] => []
  | true, c :: rest => skipFrom (c != '\n') rest
  | false, '/' :: '/' :: rest => skipFrom true rest
  | false, c :: rest => if isWhitespace c then skipFrom false rest else c :: rest

def skip (input : List Char) : List Char :=
  skipFrom false input

/-- Matches the characters of a literal. -/
def matchChars : List Char → List Char → Option (List Char)
  | [], input => some input
  | _ :: _, [] => none
  | c :: text, c' :: input => if c = c' then matchChars text input else none

def literal (text : String) (input : List Char) : Option (List Char) :=
  matchChars text.toList input

/-- A literal after skipped text. -/
def token (text : String) (input : List Char) : Option (List Char) :=
  literal text (skip input)

def isIdentifierStart (c : Char) : Bool :=
  c.isAlpha || c == '_'

def isIdentifierRest (c : Char) : Bool :=
  c.isAlphanum || c == '_'

def identifier (input : List Char) : Option (String × List Char) :=
  match skip input with
  | [] => none
  | c :: rest =>
      if isIdentifierStart c then
        some (String.ofList (c :: rest.takeWhile isIdentifierRest),
          rest.dropWhile isIdentifierRest)
      else none

/-- A string between quotes, without the quotes. -/
def stringLiteral (input : List Char) : Option (String × List Char) := do
  let rest ← token "\"" input
  let closed ← literal "\"" (rest.dropWhile (· != '"'))
  return (String.ofList (rest.takeWhile (· != '"')), closed)

/-- `computed_userset(relation: "…")`. -/
def computedUsersetExpr (input : List Char) :
    Option (LegacyUsersetExpression × List Char) := do
  let input ← token "computed_userset" input
  let input ← token "(" input
  let input ← token "relation" input
  let input ← token ":" input
  let (relation, input) ← stringLiteral input
  let input ← token ")" input
  return (.computedUserset ⟨relation⟩, input)

/-- `tuple_to_userset(tupleset: "…", computed_userset: "…")`. -/
def tupleToUsersetExpr (input : List Char) :
    Option (LegacyUsersetExpression × List Char) := do
  let input ← token "tuple_to_userset" input
  let input ← token "(" input
  let input ← token "tupleset" input
  let input ← token ":" input
  let (tupleset, input) ← stringLiteral input
  let input ← token "," input
  let input ← token "computed_userset" input
  let input ← token ":" input
  let (computed, input) ← stringLiteral input
  let input ← token ")" input
  return (.tupleToUserset ⟨tupleset⟩ ⟨computed⟩, input)

def thisExpr (input : List Char) : Option (LegacyUsersetExpression × List Char) := do
  let input ← token "this" input
  return (.this, input)

mutual

def expression : Nat → List Char → Option (LegacyUsersetExpression × List Char)
  | 0, _ => none
  | fuel + 1, input =>
      setExpr fuel "union" .union input <|>
      setExpr fuel "intersection" .intersection input <|>
      exclusionExpr fuel input <|>
      thisExpr input <|>
      computedUsersetExpr input <|>
      tupleToUsersetExpr input <|>
      parenthesized fuel input

/-- A union or an intersection with any number of operands. -/
def setExpr : Nat → String →
    (List LegacyUsersetExpression → LegacyUsersetExpression) → List Char →
    Option (LegacyUsersetExpression × List Char)
  | 0, _, _, _ => none
  | fuel + 1, keyword, node, input => do
      let input ← token keyword input
      let input ← token "(" input
      let (operands, input) := match expression fuel input with
        | some (first, rest) =>
            let (others, rest) := moreExpressions fuel rest
            (first :: others, rest)
        | none => ([], input)
      let input ← token ")" input
      return (node operands, input)

/-- `("," ~ expression)*`. -/
def moreExpressions : Nat → List Char → List LegacyUsersetExpression × List Char
  | 0, input => ([], input)
  | fuel + 1, input =>
      match (token "," input).bind (expression fuel) with
      | some (operand, rest) =>
          let (others, rest) := moreExpressions fuel rest
          (operand :: others, rest)
      | none => ([], input)

def exclusionExpr : Nat → List Char → Option (LegacyUsersetExpression × List Char)
  | 0, _ => none
  | fuel + 1, input => do
      let input ← token "exclusion" input
      let input ← token "(" input
      let (base, input) ← expression fuel input
      let input ← token "," input
      let (exclude, input) ← expression fuel input
      let input ← token ")" input
      return (.exclusion base exclude, input)

def parenthesized : Nat → List Char → Option (LegacyUsersetExpression × List Char)
  | 0, _ => none
  | fuel + 1, input => do
      let input ← token "(" input
      let (inner, input) ← expression fuel input
      let input ← token ")" input
      return (inner, input)

end

structure LegacyRelationAst where
  name : String
  rewrite : Option LegacyUsersetExpression

structure LegacyNamespaceAst where
  name : String
  relations : List LegacyRelationAst

def rewriteRule (input : List Char) : Option (LegacyUsersetExpression × List Char) := do
  let input ← token "rewrite" input
  expression (3 * input.length + 3) input

def relationDef (input : List Char) : Option (LegacyRelationAst × List Char) := do
  let input ← token "relation" input
  let (name, input) ← identifier input
  let input ← token "\x7b" input
  let (rewrite, input) := match rewriteRule input with
    | some (rewrite, rest) => (some rewrite, rest)
    | none => (none, input)
  let input ← token "\x7d" input
  return (⟨name, rewrite⟩, input)

/-- Repeats a rule until it does not match. -/
def many {α : Type} (rule : List Char → Option (α × List Char)) :
    Nat → List Char → List α × List Char
  | 0, input => ([], input)
  | fuel + 1, input =>
      match rule input with
      | some (item, rest) =>
          let (items, rest) := many rule fuel rest
          (item :: items, rest)
      | none => ([], input)

def namespaceDef (input : List Char) : Option (LegacyNamespaceAst × List Char) := do
  let input ← token "namespace" input
  let (name, input) ← identifier input
  let input ← token "\x7b" input
  let (relations, input) := many relationDef input.length input
  let input ← token "\x7d" input
  return (⟨name, relations⟩, input)

/-- The whole text is a sequence of namespaces. -/
def file (input : List Char) : Option (List LegacyNamespaceAst) :=
  let (namespaces, rest) := many namespaceDef input.length input
  if skip rest = [] then some namespaces else none

end Dsl

open Dsl

def parseDslAst (dsl : String) : Except ZanzibarError (List LegacyNamespaceAst) :=
  match file dsl.toList with
  | some namespaces => .ok namespaces
  | none => .error .parseError

/-- The relations of a parsed namespace by name, the last one winning. -/
def NamespaceConfig.ofAst (ast : LegacyNamespaceAst) : NamespaceConfig :=
  ⟨ast.name, ast.relations.foldl (fun relations relation =>
    relations.insert ⟨relation.name⟩ ⟨⟨relation.name⟩, relation.rewrite⟩) ∅⟩

def parseDsl (dsl : String) : Except ZanzibarError (List NamespaceConfig) := do
  let namespaces ← parseDslAst dsl
  return namespaces.map NamespaceConfig.ofAst

def compileLegacyAst (namespaces : List LegacyNamespaceAst) :
    Except ZanzibarError CompiledSchema := do
  let definitions ← namespaces.mapM (fun ast => do
    let relations ← ast.relations.mapM (fun relation =>
      compileLegacyRelation ⟨⟨relation.name⟩, relation.rewrite⟩)
    let name ← ofDomainError (Identifier.new .objectType ast.name)
    return (⟨name, relations⟩ : NamespaceDefinition))
  ofSchemaError (CompiledSchema.fromDefinitions definitions)

def compileLegacyDsl (dsl : String) : Except ZanzibarError CompiledSchema := do
  let namespaces ← parseDslAst dsl
  compileLegacyAst namespaces

end SimpleZanzibar
