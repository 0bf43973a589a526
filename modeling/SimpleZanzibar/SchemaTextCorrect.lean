import SimpleZanzibar.SchemaEdits
import SimpleZanzibar.SchemaText

/-!
# Printed schemas are read back

The printer writes what the grammar reads: a name is followed by a character that no name
holds, and the first letters of an expression tell which rule reads it.

**Results.**
* `Dsl.expression_pushExpression`: an expression is read back from its text.
* `Dsl.file_printable`: what the parser accepts can be printed.
* `parseDslAst_canonicalSchemaSource`: so is a whole schema, in the order of the printer.
-/

namespace SimpleZanzibar

namespace Dsl

/-! ## Names and strings -/

/-- The names of the grammar. -/
def IsName (name : String) : Prop :=
  ∃ c rest, name.toList = c :: rest ∧ isIdentifierStart c = true ∧
    ∀ other ∈ rest, isIdentifierRest other = true

/-- The string can be written between quotes. -/
def IsQuotable (name : String) : Prop :=
  '"' ∉ name.toList

theorem takeWhile_append_cons
    {α : Type} {p : α → Bool} {word rest : List α} {stop : α}
    (hword : ∀ a ∈ word, p a = true)
    (hstop : p stop = false) :
    (word ++ stop :: rest).takeWhile p = word := by
  rw [List.takeWhile_append_of_pos hword]
  simp [hstop]

theorem dropWhile_append_cons
    {α : Type} {p : α → Bool} {word rest : List α} {stop : α}
    (hword : ∀ a ∈ word, p a = true)
    (hstop : p stop = false) :
    (word ++ stop :: rest).dropWhile p = stop :: rest := by
  rw [List.dropWhile_append_of_pos hword]
  simp [hstop]

theorem stringLiteral_quoted
    {name : String}
    (hname : IsQuotable name)
    (rest : List Char) :
    stringLiteral ('"' :: (name.toList ++ '"' :: rest)) = some (name, rest) := by
  have hword : ∀ c ∈ name.toList, (c != '"') = true := by
    intro c hc
    rw [bne_iff_ne]
    rintro rfl
    exact hname hc
  have htoken : token "\"" ('"' :: (name.toList ++ '"' :: rest)) =
      some (name.toList ++ '"' :: rest) := rfl
  have hliteral : literal "\"" ('"' :: rest) = some rest := rfl
  unfold stringLiteral
  simp [htoken, takeWhile_append_cons hword, dropWhile_append_cons hword, hliteral]

theorem skip_of_isIdentifierStart
    {c : Char} {rest : List Char}
    (hc : isIdentifierStart c = true) :
    skip (c :: rest) = c :: rest := by
  have hne : ∀ other, isIdentifierStart other = false → c ≠ other := by
    rintro other hother rfl
    simp [hc] at hother
  have hblank : isWhitespace c = false := by
    simp [isWhitespace, hne ' ' (by decide), hne '\t' (by decide), hne '\r' (by decide),
      hne '\n' (by decide)]
  unfold skip
  rw [skipFrom]
  · simp [hblank]
  · intro _ hslash _
    exact hne '/' (by decide) hslash

theorem identifier_name
    {name : String} {stop : Char}
    (hname : IsName name)
    (hstop : isIdentifierRest stop = false)
    (rest : List Char) :
    identifier (' ' :: (name.toList ++ stop :: rest)) = some (name, stop :: rest) := by
  obtain ⟨c, tail, htext, hc, htail⟩ := hname
  have hskip : skip (' ' :: c :: (tail ++ stop :: rest)) = c :: (tail ++ stop :: rest) :=
    skip_of_isIdentifierStart hc
  unfold identifier
  rw [htext, List.cons_append, hskip]
  simp [hc, takeWhile_append_cons htail hstop, dropWhile_append_cons htail hstop, ← htext]

/-! ## Expressions -/

/-- No rule of a set reads a text that does not start with its keyword. -/
theorem setExpr_eq_none
    {fuel : Nat} {keyword : String}
    {node : List LegacyUsersetExpression → LegacyUsersetExpression} {input : List Char}
    (h : token keyword input = none) :
    setExpr fuel keyword node input = none := by
  cases fuel with
  | zero => rfl
  | succ fuel => simp [setExpr, h]

theorem exclusionExpr_eq_none
    {fuel : Nat} {input : List Char}
    (h : token "exclusion" input = none) :
    exclusionExpr fuel input = none := by
  cases fuel with
  | zero => rfl
  | succ fuel => simp [exclusionExpr, h]

theorem parenthesized_eq_none
    {fuel : Nat} {input : List Char}
    (h : token "(" input = none) :
    parenthesized fuel input = none := by
  cases fuel with
  | zero => rfl
  | succ fuel => simp [parenthesized, h]

/-- White space before an expression is skipped. -/
theorem expression_space
    (fuel : Nat) (input : List Char) :
    expression fuel (' ' :: input) = expression fuel input := by
  have htoken : ∀ text, token text (' ' :: input) = token text input := fun _ => rfl
  cases fuel with
  | zero => rfl
  | succ fuel =>
      cases fuel with
      | zero => rfl
      | succ fuel =>
          simp [expression, setExpr, exclusionExpr, parenthesized, thisExpr,
            computedUsersetExpr, tupleToUsersetExpr, htoken]

/-- An operand list ends where no expression starts. -/
theorem expression_close
    (fuel : Nat) (rest : List Char) :
    expression fuel (')' :: rest) = none := by
  cases fuel with
  | zero => rfl
  | succ fuel =>
      have hthis : thisExpr (')' :: rest) = none := rfl
      have hcomputed : computedUsersetExpr (')' :: rest) = none := rfl
      have htuple : tupleToUsersetExpr (')' :: rest) = none := rfl
      simp [expression, setExpr_eq_none (rfl : token "union" (')' :: rest) = none),
        setExpr_eq_none (rfl : token "intersection" (')' :: rest) = none),
        exclusionExpr_eq_none (rfl : token "exclusion" (')' :: rest) = none),
        parenthesized_eq_none (rfl : token "(" (')' :: rest) = none), hthis, hcomputed, htuple]

mutual

/-- The names of the expression can be written between quotes. -/
def Quotable : LegacyUsersetExpression → Prop
  | .this => True
  | .computedUserset relation => IsQuotable relation.name
  | .tupleToUserset tuplesetRelation computedUsersetRelation =>
      IsQuotable tuplesetRelation.name ∧ IsQuotable computedUsersetRelation.name
  | .union expressions => AllQuotable expressions
  | .intersection expressions => AllQuotable expressions
  | .exclusion base exclude => Quotable base ∧ Quotable exclude

def AllQuotable : List LegacyUsersetExpression → Prop
  | [] => True
  | expression :: rest => Quotable expression ∧ AllQuotable rest

end

mutual

/-- The recursion that the parser needs for an expression. -/
def expressionFuel : LegacyUsersetExpression → Nat
  | .this => 1
  | .computedUserset _ => 1
  | .tupleToUserset _ _ => 1
  | .union expressions => operandsFuel expressions + 2
  | .intersection expressions => operandsFuel expressions + 2
  | .exclusion base exclude => max (expressionFuel base) (expressionFuel exclude) + 2

def operandsFuel : List LegacyUsersetExpression → Nat
  | [] => 0
  | expression :: rest => max (expressionFuel expression) (operandsFuel rest) + 1

end

/-! The characters of each kind of expression. -/

theorem toList_computedUserset
    (relation : Relation) :
    (pushExpression (.computedUserset relation)).toList =
      "computed_userset(relation: ".toList ++
        '"' :: (relation.name.toList ++ '"' :: ')' :: []) := by
  have htext : pushExpression (.computedUserset relation) =
      "computed_userset(relation: \"" ++ relation.name ++ "\")" := rfl
  rw [htext, String.toList_append, String.toList_append, List.append_assoc]
  rfl

theorem toList_tupleToUserset
    (tuplesetRelation computedUsersetRelation : Relation) :
    (pushExpression (.tupleToUserset tuplesetRelation computedUsersetRelation)).toList =
      "tuple_to_userset(tupleset: ".toList ++
        '"' :: (tuplesetRelation.name.toList ++ '"' :: (", computed_userset: ".toList ++
          '"' :: (computedUsersetRelation.name.toList ++ '"' :: ')' :: []))) := by
  have htext : pushExpression (.tupleToUserset tuplesetRelation computedUsersetRelation) =
      "tuple_to_userset(tupleset: \"" ++ tuplesetRelation.name ++ "\", computed_userset: \"" ++
        computedUsersetRelation.name ++ "\")" := rfl
  rw [htext]
  simp only [String.toList_append, List.append_assoc]
  rfl

theorem toList_union
    (expressions : List LegacyUsersetExpression) :
    (pushExpression (.union expressions)).toList =
      "union(".toList ++ ((pushExpressionList "" expressions).toList ++ [')']) := by
  have htext : pushExpression (.union expressions) =
      "union(" ++ pushExpressionList "" expressions ++ ")" := rfl
  rw [htext, String.toList_append, String.toList_append, List.append_assoc]
  rfl

theorem toList_intersection
    (expressions : List LegacyUsersetExpression) :
    (pushExpression (.intersection expressions)).toList =
      "intersection(".toList ++ ((pushExpressionList "" expressions).toList ++ [')']) := by
  have htext : pushExpression (.intersection expressions) =
      "intersection(" ++ pushExpressionList "" expressions ++ ")" := rfl
  rw [htext, String.toList_append, String.toList_append, List.append_assoc]
  rfl

theorem toList_exclusion
    (base exclude : LegacyUsersetExpression) :
    (pushExpression (.exclusion base exclude)).toList =
      "exclusion(".toList ++ ((pushExpression base).toList ++
        ',' :: ' ' :: ((pushExpression exclude).toList ++ [')'])) := by
  have htext : pushExpression (.exclusion base exclude) =
      "exclusion(" ++ pushExpression base ++ ", " ++ pushExpression exclude ++ ")" := rfl
  rw [htext]
  simp only [String.toList_append, List.append_assoc]
  rfl

theorem toList_operands
    (separator : String) (expression : LegacyUsersetExpression)
    (rest : List LegacyUsersetExpression) :
    (pushExpressionList separator (expression :: rest)).toList =
      separator.toList ++ ((pushExpression expression).toList ++
        (pushExpressionList ", " rest).toList) := by
  have htext : pushExpressionList separator (expression :: rest) =
      separator ++ pushExpression expression ++ pushExpressionList ", " rest := rfl
  rw [htext, String.toList_append, String.toList_append, List.append_assoc]

mutual

/-- The text of an expression is long enough for its recursion. -/
theorem expressionFuel_le :
    ∀ expression : LegacyUsersetExpression,
      1 ≤ expressionFuel expression ∧
        expressionFuel expression ≤ (pushExpression expression).toList.length
  | .this => ⟨Nat.le_refl 1, by decide⟩
  | .computedUserset _ => by
      simp only [expressionFuel, toList_computedUserset, List.length_append, List.length_cons]
      omega
  | .tupleToUserset _ _ => by
      simp only [expressionFuel, toList_tupleToUserset, List.length_append, List.length_cons]
      omega
  | .union expressions => by
      have h := operandsFuel_le "" expressions
      have hkeyword : "union(".toList.length = 6 := rfl
      simp only [expressionFuel, toList_union, List.length_append, hkeyword]
      omega
  | .intersection expressions => by
      have h := operandsFuel_le "" expressions
      have hkeyword : "intersection(".toList.length = 13 := rfl
      simp only [expressionFuel, toList_intersection, List.length_append, hkeyword]
      omega
  | .exclusion base exclude => by
      have hbase := expressionFuel_le base
      have hexclude := expressionFuel_le exclude
      simp only [expressionFuel, toList_exclusion, List.length_append, List.length_cons]
      omega

theorem operandsFuel_le :
    ∀ (separator : String) (expressions : List LegacyUsersetExpression),
      operandsFuel expressions ≤
        (pushExpressionList separator expressions).toList.length + 1
  | _, [] => Nat.zero_le _
  | separator, expression :: rest => by
      have hfirst := expressionFuel_le expression
      have hrest := operandsFuel_le ", " rest
      simp only [operandsFuel, toList_operands, List.length_append]
      omega

end

/-- The first rules fail on a text that starts with another keyword. -/
theorem expression_of_term
    {fuel : Nat} {input : List Char}
    (hunion : token "union" input = none)
    (hintersection : token "intersection" input = none)
    (hexclusion : token "exclusion" input = none) :
    expression (fuel + 1) input =
      (thisExpr input <|> computedUsersetExpr input <|> tupleToUsersetExpr input <|>
        parenthesized fuel input) := by
  rw [expression]
  simp [setExpr_eq_none hunion, setExpr_eq_none hintersection, exclusionExpr_eq_none hexclusion]

theorem expression_this
    (fuel : Nat) (rest : List Char) :
    expression (fuel + 1) ("this".toList ++ rest) = some (.this, rest) := by
  rw [expression_of_term rfl rfl rfl]
  rfl

theorem expression_computedUserset
    {relation : Relation}
    (hquotable : IsQuotable relation.name)
    (fuel : Nat) (rest : List Char) :
    expression (fuel + 1) ((pushExpression (.computedUserset relation)).toList ++ rest) =
      some (.computedUserset relation, rest) := by
  have hread : ∀ input, computedUsersetExpr ("computed_userset(relation: ".toList ++ input) =
      (stringLiteral input).bind (fun read =>
        (token ")" read.2).bind (fun rest => some (.computedUserset ⟨read.1⟩, rest))) :=
    fun _ => rfl
  rw [toList_computedUserset, List.append_assoc, expression_of_term rfl rfl rfl, hread,
    List.cons_append, List.append_assoc, List.cons_append, stringLiteral_quoted hquotable]
  rfl

theorem tupleToUsersetExpr_text
    {tuplesetRelation computedUsersetRelation : Relation}
    (htupleset : IsQuotable tuplesetRelation.name)
    (hcomputed : IsQuotable computedUsersetRelation.name)
    (rest : List Char) :
    tupleToUsersetExpr ("tuple_to_userset(tupleset: ".toList ++
        '"' :: (tuplesetRelation.name.toList ++ '"' :: (", computed_userset: ".toList ++
          '"' :: (computedUsersetRelation.name.toList ++ '"' :: ')' :: rest)))) =
      some (.tupleToUserset tuplesetRelation computedUsersetRelation, rest) := by
  have hread : ∀ input, tupleToUsersetExpr ("tuple_to_userset(tupleset: ".toList ++ input) =
      (stringLiteral input).bind (fun tupleset =>
        (token "," tupleset.2).bind (fun rest =>
          (token "computed_userset" rest).bind (fun rest =>
            (token ":" rest).bind (fun rest =>
              (stringLiteral rest).bind (fun computed =>
                (token ")" computed.2).bind (fun rest =>
                  some (.tupleToUserset ⟨tupleset.1⟩ ⟨computed.1⟩, rest))))))) :=
    fun _ => rfl
  rw [hread, stringLiteral_quoted htupleset]
  change (stringLiteral ('"' :: (computedUsersetRelation.name.toList ++ '"' :: ')' :: rest))).bind
    (fun computed => (token ")" computed.2).bind (fun rest =>
      some (LegacyUsersetExpression.tupleToUserset ⟨tuplesetRelation.name⟩ ⟨computed.1⟩, rest))) =
    _
  rw [stringLiteral_quoted hcomputed]
  rfl

theorem expression_tupleToUserset
    {tuplesetRelation computedUsersetRelation : Relation}
    (htupleset : IsQuotable tuplesetRelation.name)
    (hcomputed : IsQuotable computedUsersetRelation.name)
    (fuel : Nat) (rest : List Char) :
    expression (fuel + 1) ((pushExpression
        (.tupleToUserset tuplesetRelation computedUsersetRelation)).toList ++ rest) =
      some (.tupleToUserset tuplesetRelation computedUsersetRelation, rest) := by
  simp only [toList_tupleToUserset, List.append_assoc, List.cons_append, List.nil_append]
  rw [expression_of_term rfl rfl rfl, tupleToUsersetExpr_text htupleset hcomputed]
  rfl

/-- The operands of a set, up to its closing bracket. -/
def operandList (fuel : Nat) (input : List Char) : List LegacyUsersetExpression × List Char :=
  match expression fuel input with
  | some (first, rest) =>
      (first :: (moreExpressions fuel rest).1, (moreExpressions fuel rest).2)
  | none => ([], input)

theorem setExpr_operandList
    {fuel : Nat} {keyword : String}
    {node : List LegacyUsersetExpression → LegacyUsersetExpression}
    {operands : List LegacyUsersetExpression} {input bracket inner rest : List Char}
    (hkeyword : token keyword input = some bracket)
    (hbracket : token "(" bracket = some inner)
    (hoperands : operandList fuel inner = (operands, ')' :: rest)) :
    setExpr (fuel + 1) keyword node input = some (node operands, rest) := by
  have hclose : token ")" (')' :: rest) = some rest := rfl
  unfold operandList at hoperands
  cases hfirst : expression fuel inner with
  | none =>
      rw [hfirst] at hoperands
      obtain ⟨rfl, rfl⟩ := Prod.mk.inj hoperands
      simp [setExpr, hkeyword, hbracket, hfirst, hclose]
  | some first =>
      rw [hfirst] at hoperands
      obtain ⟨rfl, hrest⟩ := Prod.mk.inj hoperands
      simp [setExpr, hkeyword, hbracket, hfirst, hrest, hclose]

theorem expression_union
    {fuel : Nat} {operands : List LegacyUsersetExpression} {rest : List Char}
    (hoperands : operandList fuel ((pushExpressionList "" operands).toList ++ ')' :: rest) =
      (operands, ')' :: rest)) :
    expression (fuel + 2) ((pushExpression (.union operands)).toList ++ rest) =
      some (.union operands, rest) := by
  simp only [toList_union, List.append_assoc, List.cons_append, List.nil_append]
  rw [expression, setExpr_operandList rfl rfl hoperands]
  rfl

theorem expression_intersection
    {fuel : Nat} {operands : List LegacyUsersetExpression} {rest : List Char}
    (hoperands : operandList fuel ((pushExpressionList "" operands).toList ++ ')' :: rest) =
      (operands, ')' :: rest)) :
    expression (fuel + 2) ((pushExpression (.intersection operands)).toList ++ rest) =
      some (.intersection operands, rest) := by
  simp only [toList_intersection, List.append_assoc, List.cons_append, List.nil_append]
  rw [expression, setExpr_eq_none rfl, setExpr_operandList rfl rfl hoperands]
  rfl

theorem exclusionExpr_text
    {fuel : Nat} {base exclude : LegacyUsersetExpression} {inner rest : List Char}
    (hbase : expression fuel inner = some (base, ',' :: rest))
    {rest' : List Char}
    (hexclude : expression fuel rest = some (exclude, ')' :: rest')) :
    exclusionExpr (fuel + 1) ("exclusion(".toList ++ inner) =
      some (.exclusion base exclude, rest') := by
  have hread : exclusionExpr (fuel + 1) ("exclusion(".toList ++ inner) =
      (expression fuel inner).bind (fun base =>
        (token "," base.2).bind (fun rest =>
          (expression fuel rest).bind (fun exclude =>
            (token ")" exclude.2).bind (fun rest =>
              some (.exclusion base.1 exclude.1, rest))))) :=
    rfl
  have hcomma : token "," (',' :: rest) = some rest := rfl
  have hclose : token ")" (')' :: rest') = some rest' := rfl
  rw [hread]
  simp [hbase, hcomma, hexclude, hclose]

theorem expression_exclusion
    {fuel : Nat} {base exclude : LegacyUsersetExpression} {rest : List Char}
    (hbase : ∀ rest, expression fuel ((pushExpression base).toList ++ rest) = some (base, rest))
    (hexclude : ∀ rest, expression fuel ((pushExpression exclude).toList ++ rest) =
      some (exclude, rest)) :
    expression (fuel + 2) ((pushExpression (.exclusion base exclude)).toList ++ rest) =
      some (.exclusion base exclude, rest) := by
  simp only [toList_exclusion, List.append_assoc, List.cons_append, List.nil_append]
  rw [expression, setExpr_eq_none rfl, setExpr_eq_none rfl,
    exclusionExpr_text (hbase _) ((expression_space _ _).trans (hexclude _))]
  rfl

mutual

/-- An expression is read back from its text, whatever follows. -/
theorem expression_pushExpression :
    ∀ (e : LegacyUsersetExpression) (fuel : Nat) (rest : List Char),
      Quotable e → expressionFuel e ≤ fuel →
      expression fuel ((pushExpression e).toList ++ rest) = some (e, rest)
  | e, 0, rest, _, hfuel => by
      have h := (expressionFuel_le e).1
      omega
  | .this, fuel + 1, rest, _, _ => expression_this fuel rest
  | .computedUserset _, fuel + 1, rest, hquotable, _ =>
      expression_computedUserset hquotable fuel rest
  | .tupleToUserset _ _, fuel + 1, rest, hquotable, _ =>
      expression_tupleToUserset hquotable.1 hquotable.2 fuel rest
  | .union expressions, 1, rest, hquotable, hfuel => by
      simp [expressionFuel] at hfuel
  | .union expressions, fuel + 2, rest, hquotable, hfuel => by
      simp only [expressionFuel] at hfuel
      exact expression_union (operandList_pushExpressionList expressions fuel rest hquotable
        (by omega))
  | .intersection expressions, 1, rest, hquotable, hfuel => by
      simp [expressionFuel] at hfuel
  | .intersection expressions, fuel + 2, rest, hquotable, hfuel => by
      simp only [expressionFuel] at hfuel
      exact expression_intersection (operandList_pushExpressionList expressions fuel rest
        hquotable (by omega))
  | .exclusion base exclude, 1, rest, hquotable, hfuel => by
      simp [expressionFuel] at hfuel
  | .exclusion base exclude, fuel + 2, rest, hquotable, hfuel => by
      simp only [expressionFuel] at hfuel
      exact expression_exclusion
        (fun rest => expression_pushExpression base fuel rest hquotable.1 (by omega))
        (fun rest => expression_pushExpression exclude fuel rest hquotable.2 (by omega))

/-- So are the operands of a set. -/
theorem operandList_pushExpressionList :
    ∀ (es : List LegacyUsersetExpression) (fuel : Nat) (rest : List Char),
      AllQuotable es → operandsFuel es ≤ fuel →
      operandList fuel ((pushExpressionList "" es).toList ++ ')' :: rest) = (es, ')' :: rest)
  | [], fuel, rest, _, _ => by
      have htext : (pushExpressionList "" []).toList ++ ')' :: rest = ')' :: rest := rfl
      rw [htext, operandList, expression_close]
  | e :: es, fuel, rest, hquotable, hfuel => by
      simp only [operandsFuel] at hfuel
      have hfirst := expression_pushExpression e fuel
        ((pushExpressionList ", " es).toList ++ ')' :: rest) hquotable.1 (by omega)
      have hrest := moreExpressions_pushExpressionList es fuel rest hquotable.2 (by omega)
      have htext : (pushExpressionList "" (e :: es)).toList ++ ')' :: rest =
          (pushExpression e).toList ++ ((pushExpressionList ", " es).toList ++ ')' :: rest) := by
        rw [toList_operands, List.append_assoc, List.append_assoc]
        rfl
      rw [htext, operandList, hfirst]
      simp only [hrest]

/-- So are the operands behind the first one. -/
theorem moreExpressions_pushExpressionList :
    ∀ (es : List LegacyUsersetExpression) (fuel : Nat) (rest : List Char),
      AllQuotable es → operandsFuel es ≤ fuel →
      moreExpressions fuel ((pushExpressionList ", " es).toList ++ ')' :: rest) =
        (es, ')' :: rest)
  | [], 0, rest, _, _ => rfl
  | [], fuel + 1, rest, _, _ => rfl
  | e :: es, 0, rest, _, hfuel => by
      simp [operandsFuel] at hfuel
  | e :: es, fuel + 1, rest, hquotable, hfuel => by
      simp only [operandsFuel] at hfuel
      have hfirst := expression_pushExpression e fuel
        ((pushExpressionList ", " es).toList ++ ')' :: rest) hquotable.1 (by omega)
      have hrest := moreExpressions_pushExpressionList es fuel rest hquotable.2 (by omega)
      have htext : (pushExpressionList ", " (e :: es)).toList ++ ')' :: rest = ',' :: ' ' ::
          ((pushExpression e).toList ++ ((pushExpressionList ", " es).toList ++ ')' :: rest)) := by
        rw [toList_operands, List.append_assoc, List.append_assoc]
        rfl
      have hread : ∀ input, (token "," (',' :: ' ' :: input)).bind (expression fuel) =
          expression fuel (' ' :: input) := fun _ => rfl
      rw [htext, moreExpressions, hread, expression_space, hfirst]
      simp only [hrest]

end

/-! ## Relations, namespaces and files -/

/-- The parsed form of a relation. -/
def relationAst (relation : RelationConfig) : LegacyRelationAst :=
  ⟨relation.name.name, relation.usersetRewrite⟩

/-- The text of the relation can be read. -/
structure PrintableRelation (relation : RelationConfig) : Prop where
  name : IsName relation.name.name
  rewrite : ∀ expression, relation.usersetRewrite = some expression → Quotable expression

theorem rewriteRule_text
    {e : LegacyUsersetExpression}
    (h : Quotable e)
    (rest : List Char) :
    rewriteRule ("\n        rewrite ".toList ++ ((pushExpression e).toList ++ rest)) =
      some (e, rest) := by
  have hkeyword : ∀ input, token "rewrite" ("\n        rewrite ".toList ++ input) =
      some (' ' :: input) := fun _ => rfl
  have hfuel := (expressionFuel_le e).2
  unfold rewriteRule
  simp only [hkeyword, Option.bind_eq_bind, Option.bind_some]
  rw [expression_space]
  refine expression_pushExpression e _ rest h ?_
  simp only [List.length_cons, List.length_append]
  omega

/-- The parts of a relation, one after the other. -/
theorem relationDef_parts
    {input named opened body closed rest : List Char} {name : String}
    {rewrite : Option LegacyUsersetExpression}
    (hkeyword : token "relation" input = some named)
    (hname : identifier named = some (name, opened))
    (hopen : token "\x7b" opened = some body)
    (hbody : (rewriteRule body).elim (none, body) (fun read => (some read.1, read.2)) =
      (rewrite, closed))
    (hclose : token "\x7d" closed = some rest) :
    relationDef input = some (⟨name, rewrite⟩, rest) := by
  cases hrule : rewriteRule body with
  | none =>
      rw [hrule] at hbody
      obtain ⟨rfl, rfl⟩ := Prod.mk.inj hbody
      simp [relationDef, hkeyword, hname, hopen, hrule, hclose]
  | some read =>
      rw [hrule] at hbody
      obtain ⟨rfl, rfl⟩ := Prod.mk.inj hbody
      simp [relationDef, hkeyword, hname, hopen, hrule, hclose]

/-- A relation is read back from its text. -/
theorem relationDef_pushRelation
    {relation : RelationConfig}
    (h : PrintableRelation relation)
    (rest : List Char) :
    relationDef ('\n' :: ((pushRelation relation).toList ++ rest)) =
      some (relationAst relation, '\n' :: rest) := by
  rw [relationAst]
  cases hrewrite : relation.usersetRewrite with
  | none =>
      have htext : (pushRelation relation).toList ++ rest =
          "    relation ".toList ++ (relation.name.name.toList ++
            ' ' :: '\x7b' :: '\x7d' :: '\n' :: rest) := by
        rw [pushRelation, hrewrite]
        simp only [String.toList_append, List.append_assoc]
        rfl
      rw [htext]
      exact relationDef_parts rfl (identifier_name h.name (by decide) _) rfl rfl rfl
  | some e =>
      have htext : (pushRelation relation).toList ++ rest =
          "    relation ".toList ++ (relation.name.name.toList ++
            ' ' :: '\x7b' :: ("\n        rewrite ".toList ++ ((pushExpression e).toList ++
              ("\n    ".toList ++ '\x7d' :: '\n' :: rest)))) := by
        rw [pushRelation, hrewrite]
        simp only [String.toList_append, List.append_assoc]
        rfl
      have hbody : ∀ body closed, rewriteRule body = some (e, closed) →
          (rewriteRule body).elim (none, body) (fun read => (some read.1, read.2)) =
            (some e, closed) := by
        intro body closed hrule
        rw [hrule]
        rfl
      rw [htext]
      exact relationDef_parts rfl (identifier_name h.name (by decide) _) rfl
        (hbody _ _ (rewriteRule_text (h.rewrite e hrewrite) _)) rfl

/-- A rule that reads each of the texts reads them one after the other. -/
theorem many_texts
    {α β : Type} {rule : List Char → Option (β × List Char)} {lead stop : List Char}
    {text : α → List Char} {value : α → β} {items : List α} {fuel : Nat}
    (hrule : ∀ item ∈ items, ∀ rest,
      rule (lead ++ (text item ++ rest)) = some (value item, lead ++ rest))
    (hstop : rule (lead ++ stop) = none)
    (hfuel : items.length ≤ fuel) :
    many rule fuel (lead ++ (items.flatMap text ++ stop)) = (items.map value, lead ++ stop) := by
  induction items generalizing fuel with
  | nil =>
      cases fuel with
      | zero => rfl
      | succ fuel => simp [many, hstop]
  | cons item rest ih =>
      cases fuel with
      | zero => simp at hfuel
      | succ fuel =>
          have hrest := ih (fun other hother => hrule other (List.mem_cons_of_mem _ hother))
            (Nat.le_of_succ_le_succ hfuel)
          rw [List.flatMap_cons, List.append_assoc, many, hrule item List.mem_cons_self]
          simp [hrest]

/-- The parsed form of a namespace, with its relations in the order of the printer. -/
def namespaceAst (listing : MapListing) (config : NamespaceConfig) : LegacyNamespaceAst :=
  ⟨config.name, (sortByName (·.name.name) (listing.relations config)).map relationAst⟩

/-- The text of the namespace can be read. -/
structure PrintableNamespace (config : NamespaceConfig) : Prop where
  name : IsName config.name
  relations : ∀ entry ∈ config.relations.entries, PrintableRelation entry.2

/-- The parts of a namespace, one after the other. -/
theorem namespaceDef_parts
    {input named opened body closed rest : List Char} {name : String}
    {relations : List LegacyRelationAst}
    (hkeyword : token "namespace" input = some named)
    (hname : identifier named = some (name, opened))
    (hopen : token "\x7b" opened = some body)
    (hbody : many relationDef body.length body = (relations, closed))
    (hclose : token "\x7d" closed = some rest) :
    namespaceDef input = some (⟨name, relations⟩, rest) := by
  simp [namespaceDef, hkeyword, hname, hopen, hbody, hclose]

/-- Items with a text are not more than the characters. -/
theorem length_le_flatMap
    {α : Type} {text : α → List Char} {items : List α}
    (h : ∀ item ∈ items, text item ≠ []) :
    items.length ≤ (items.flatMap text).length := by
  induction items with
  | nil => simp
  | cons item rest ih =>
      have hrest := ih (fun other hother => h other (List.mem_cons_of_mem _ hother))
      have hitem := List.length_pos_iff.mpr (h item List.mem_cons_self)
      simp only [List.flatMap_cons, List.length_append, List.length_cons]
      omega

theorem pushRelation_ne_nil
    (relation : RelationConfig) :
    (pushRelation relation).toList ≠ [] := by
  cases hrewrite : relation.usersetRewrite with
  | none => simp [pushRelation, hrewrite]
  | some e =>
      rw [pushRelation, hrewrite]
      simp

/-- A namespace is read back from its text. -/
theorem namespaceDef_pushNamespace
    {listing : MapListing} {config : NamespaceConfig}
    (h : PrintableNamespace config)
    (rest : List Char) :
    namespaceDef ((pushNamespace listing config).toList ++ rest) =
      some (namespaceAst listing config, '\n' :: '\n' :: rest) := by
  have htext : (pushNamespace listing config).toList ++ rest =
      "namespace ".toList ++ (config.name.toList ++ ' ' :: '\x7b' :: (['\n'] ++
        ((sortByName (·.name.name) (listing.relations config)).flatMap
          (fun relation => (pushRelation relation).toList) ++
            ('\x7d' :: '\n' :: '\n' :: rest)))) := by
    simp only [pushNamespace, String.toList_append, List.append_assoc, String.toList_join,
      List.flatMap_map]
    rfl
  rw [htext]
  refine namespaceDef_parts rfl (identifier_name h.name (by decide) _) rfl
    (many_texts ?_ rfl ?_) rfl
  · intro relation hmem rest
    refine relationDef_pushRelation ?_ rest
    have hlisted := (perm_sortByName _).mem_iff.mp hmem
    obtain ⟨entry, hentry, rfl⟩ :=
      List.mem_map.mp ((listing.relations_perm config).mem_iff.mp hlisted)
    exact h.relations entry hentry
  · have hlength := @length_le_flatMap _ (fun relation => (pushRelation relation).toList)
      (sortByName (·.name.name) (listing.relations config))
      (fun relation _ => pushRelation_ne_nil relation)
    simp only [List.length_append, List.length_cons, List.length_nil]
    omega

theorem pushNamespace_ne_nil
    (listing : MapListing) (config : NamespaceConfig) :
    (pushNamespace listing config).toList ≠ [] := by
  simp [pushNamespace]

/-- Namespaces are read back from their texts. -/
theorem file_pushNamespace
    {listing : MapListing} {configs : List NamespaceConfig}
    (h : ∀ config ∈ configs, PrintableNamespace config) :
    file (configs.flatMap (fun config => (pushNamespace listing config).toList)) =
      some (configs.map (namespaceAst listing)) := by
  cases configs with
  | nil => rfl
  | cons config rest =>
      have hfuel := @length_le_flatMap _ (fun config => (pushNamespace listing config).toList)
        (config :: rest) (fun config _ => pushNamespace_ne_nil listing config)
      rw [List.length_cons] at hfuel
      obtain ⟨fuel, hlength⟩ := Nat.exists_eq_succ_of_ne_zero (Nat.ne_zero_of_lt hfuel)
      have hfirst := @namespaceDef_pushNamespace listing config (h config List.mem_cons_self)
        (rest.flatMap (fun config => (pushNamespace listing config).toList))
      have hrest : many namespaceDef fuel (['\n', '\n'] ++
          (rest.flatMap (fun config => (pushNamespace listing config).toList) ++ [])) =
            (rest.map (namespaceAst listing), ['\n', '\n'] ++ []) := by
        refine many_texts ?_ rfl ?_
        · intro config hmem rest
          exact namespaceDef_pushNamespace (h config (List.mem_cons_of_mem _ hmem)) rest
        · omega
      have hskip : skip ['\n', '\n'] = [] := rfl
      simp only [List.append_nil, List.cons_append, List.nil_append] at hrest
      unfold file
      rw [hlength]
      simp [many, hfirst, hrest, hskip]

/-! ## What the parser reads -/

theorem stringLiteral_quotable
    {input rest : List Char} {name : String}
    (h : stringLiteral input = some (name, rest)) :
    IsQuotable name := by
  unfold stringLiteral at h
  simp only [Option.bind_eq_bind, Option.bind_eq_some_iff] at h
  obtain ⟨opened, _, closed, _, h⟩ := h
  cases h
  rw [IsQuotable, String.toList_ofList]
  intro hmem
  simpa using List.mem_takeWhile_imp hmem

theorem identifier_isName
    {input rest : List Char} {name : String}
    (h : identifier input = some (name, rest)) :
    IsName name := by
  unfold identifier at h
  split at h
  · cases h
  · next c tail _ =>
      split at h
      · next hc =>
          cases h
          exact ⟨c, _, String.toList_ofList, hc, fun _ hmem => List.mem_takeWhile_imp hmem⟩
      · cases h

theorem of_orElse
    {α : Type} {x y : Option α} {a : α}
    (h : (x <|> y) = some a) :
    x = some a ∨ y = some a := by
  cases x with
  | none => exact .inr h
  | some a' => exact .inl h

theorem computedUsersetExpr_quotable
    {input rest : List Char} {e : LegacyUsersetExpression}
    (h : computedUsersetExpr input = some (e, rest)) :
    Quotable e := by
  simp only [computedUsersetExpr, Option.bind_eq_bind, Option.bind_eq_some_iff] at h
  obtain ⟨_, _, _, _, _, _, _, _, read, hread, _, _, h⟩ := h
  cases h
  exact stringLiteral_quotable hread

theorem tupleToUsersetExpr_quotable
    {input rest : List Char} {e : LegacyUsersetExpression}
    (h : tupleToUsersetExpr input = some (e, rest)) :
    Quotable e := by
  simp only [tupleToUsersetExpr, Option.bind_eq_bind, Option.bind_eq_some_iff] at h
  obtain ⟨_, _, _, _, _, _, _, _, tupleset, htupleset, _, _, _, _, _, _, computed, hcomputed, _,
    _, h⟩ := h
  cases h
  exact ⟨stringLiteral_quotable htupleset, stringLiteral_quotable hcomputed⟩

/-- The rules of this fuel read expressions whose names can be written between quotes. -/
structure ReadsQuotable (fuel : Nat) : Prop where
  expression : ∀ input e rest, expression fuel input = some (e, rest) → Quotable e
  more : ∀ input, AllQuotable (moreExpressions fuel input).1
  set : ∀ keyword node input e rest, (∀ es, AllQuotable es → Quotable (node es)) →
    setExpr fuel keyword node input = some (e, rest) → Quotable e
  exclusion : ∀ input e rest, exclusionExpr fuel input = some (e, rest) → Quotable e
  parenthesized : ∀ input e rest, parenthesized fuel input = some (e, rest) → Quotable e

theorem readsQuotable
    (fuel : Nat) :
    ReadsQuotable fuel := by
  induction fuel with
  | zero =>
      exact ⟨fun _ _ _ h => (by cases h), fun _ => trivial, fun _ _ _ _ _ _ h => (by cases h),
        fun _ _ _ h => (by cases h), fun _ _ _ h => (by cases h)⟩
  | succ fuel ih =>
      constructor
      · intro input e rest h
        rw [Dsl.expression] at h
        rcases of_orElse h with h | h
        · exact ih.set "union" .union input e rest (fun _ hes => hes) h
        rcases of_orElse h with h | h
        · exact ih.set "intersection" .intersection input e rest (fun _ hes => hes) h
        rcases of_orElse h with h | h
        · exact ih.exclusion _ _ _ h
        rcases of_orElse h with h | h
        · simp only [thisExpr, Option.bind_eq_bind, Option.bind_eq_some_iff] at h
          obtain ⟨_, _, h⟩ := h
          cases h
          trivial
        rcases of_orElse h with h | h
        · exact computedUsersetExpr_quotable h
        rcases of_orElse h with h | h
        · exact tupleToUsersetExpr_quotable h
        · exact ih.parenthesized _ _ _ h
      · intro input
        rw [moreExpressions]
        cases hread : (token "," input).bind (expression fuel) with
        | none => trivial
        | some read =>
            obtain ⟨after, _, hoperand⟩ := Option.bind_eq_some_iff.mp hread
            exact ⟨ih.expression _ _ _ hoperand, ih.more _⟩
      · intro keyword node input e rest hnode h
        simp only [setExpr, Option.bind_eq_bind, Option.bind_eq_some_iff] at h
        obtain ⟨_, _, inner, _, h⟩ := h
        cases hfirst : Dsl.expression fuel inner with
        | none =>
            simp only [hfirst] at h
            obtain ⟨_, _, h⟩ := h
            cases h
            exact hnode [] trivial
        | some first =>
            simp only [hfirst] at h
            obtain ⟨_, _, h⟩ := h
            cases h
            exact hnode _ ⟨ih.expression _ _ _ hfirst, ih.more _⟩
      · intro input e rest h
        simp only [exclusionExpr, Option.bind_eq_bind, Option.bind_eq_some_iff] at h
        obtain ⟨_, _, _, _, base, hbase, _, _, exclude, hexclude, _, _, h⟩ := h
        cases h
        exact ⟨ih.expression _ _ _ hbase, ih.expression _ _ _ hexclude⟩
      · intro input e rest h
        simp only [Dsl.parenthesized, Option.bind_eq_bind, Option.bind_eq_some_iff] at h
        obtain ⟨_, _, inner, hinner, _, _, h⟩ := h
        cases h
        exact ih.expression _ _ _ hinner

/-- The parsed relation can be printed. -/
structure PrintableAst (ast : LegacyRelationAst) : Prop where
  name : IsName ast.name
  rewrite : ∀ e, ast.rewrite = some e → Quotable e

theorem relationDef_printable
    {input rest : List Char} {ast : LegacyRelationAst}
    (h : relationDef input = some (ast, rest)) :
    PrintableAst ast := by
  simp only [relationDef, Option.bind_eq_bind, Option.bind_eq_some_iff] at h
  obtain ⟨_, _, name, hname, body, _, h⟩ := h
  cases hrule : rewriteRule body with
  | none =>
      simp only [hrule] at h
      obtain ⟨_, _, h⟩ := h
      cases h
      exact ⟨identifier_isName hname, fun e he => (by cases he)⟩
  | some read =>
      simp only [hrule] at h
      obtain ⟨_, _, h⟩ := h
      cases h
      refine ⟨identifier_isName hname, fun e he => ?_⟩
      cases he
      simp only [rewriteRule, Option.bind_eq_bind, Option.bind_eq_some_iff] at hrule
      obtain ⟨inner, _, hexpression⟩ := hrule
      exact (readsQuotable _).expression _ _ _ hexpression

/-- What a rule reads holds of everything that its repetition reads. -/
theorem forall_many
    {α : Type} {rule : List Char → Option (α × List Char)} {P : α → Prop}
    (hrule : ∀ input item rest, rule input = some (item, rest) → P item)
    (fuel : Nat) (input : List Char) :
    ∀ item ∈ (many rule fuel input).1, P item := by
  induction fuel generalizing input with
  | zero => simp [many]
  | succ fuel ih =>
      rw [many]
      cases hread : rule input with
      | none => simp
      | some read =>
          intro item hitem
          rcases List.mem_cons.mp hitem with rfl | hrest
          · exact hrule _ _ _ hread
          · exact ih read.2 item hrest

/-- What the parser accepts can be printed. -/
theorem namespaceDef_printable
    {input rest : List Char} {ast : LegacyNamespaceAst}
    (h : namespaceDef input = some (ast, rest)) :
    IsName ast.name ∧ ∀ relation ∈ ast.relations, PrintableAst relation := by
  simp only [namespaceDef, Option.bind_eq_bind, Option.bind_eq_some_iff] at h
  obtain ⟨_, _, name, hname, body, _, _, _, h⟩ := h
  cases h
  exact ⟨identifier_isName hname,
    forall_many (fun _ _ _ hread => relationDef_printable hread) _ _⟩

theorem file_printable
    {input : List Char} {namespaces : List LegacyNamespaceAst}
    (h : file input = some namespaces) :
    ∀ ast ∈ namespaces, IsName ast.name ∧ ∀ relation ∈ ast.relations, PrintableAst relation := by
  have hmany : ∀ ast ∈ (many namespaceDef input.length input).1,
      IsName ast.name ∧ ∀ relation ∈ ast.relations, PrintableAst relation :=
    forall_many (fun _ _ _ hread => namespaceDef_printable hread) _ _
  simp only [file] at h
  by_cases hskip : skip (many namespaceDef input.length input).2 = []
  · rw [if_pos hskip] at h
    cases h
    exact hmany
  · rw [if_neg hskip] at h
    cases h

end Dsl

/-- The printed configurations are parsed back, namespaces and relations in the order of the
printer. -/
theorem parseDslAst_canonicalSchemaSource
    {listing : MapListing} {configs : NamespaceConfigs}
    (h : ∀ entry ∈ configs.entries, Dsl.PrintableNamespace entry.2) :
    parseDslAst (canonicalSchemaSource listing configs) =
      .ok ((sortByName (·.name) (listing.namespaces configs)).map
        (Dsl.namespaceAst listing)) := by
  have htext : (canonicalSchemaSource listing configs).toList =
      (sortByName (·.name) (listing.namespaces configs)).flatMap
        (fun config => (pushNamespace listing config).toList) := by
    simp only [canonicalSchemaSource, String.toList_join, List.flatMap_map]
  rw [parseDslAst, htext, Dsl.file_pushNamespace]
  intro config hmem
  have hlisted := (perm_sortByName _).mem_iff.mp hmem
  obtain ⟨entry, hentry, rfl⟩ :=
    List.mem_map.mp ((listing.namespaces_perm configs).mem_iff.mp hlisted)
  exact h entry hentry

end SimpleZanzibar
