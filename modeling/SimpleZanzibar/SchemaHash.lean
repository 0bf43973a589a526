import Mathlib.Data.List.Sort
import Mathlib.Data.String.Basic
import SimpleZanzibar.Lib.LittleEndian
import SimpleZanzibar.Lib.PreorderWords
import SimpleZanzibar.SchemaCorrect

/-!
# The schema hash

The hash of a compiled schema feeds length-prefixed words to the hasher: the namespaces in
the order of their names, the relations of each in the order of theirs, and each rewrite in
preorder.  Neither the list of explicit subject types nor the operands of a union or of an
intersection carry a count or an end mark.

**Results.**
* `forSchema_eq_iff`: schemas whose explicit subject types are not words of the stream have
  equal hashes iff they differ at most in the order of their parts and in the operand counts
  of their rewrites.
-/

namespace SimpleZanzibar

/-- The hash function, as the digest of all bytes that the hasher received. -/
class Blake3 where
  Digest : Type
  decidableEq : DecidableEq Digest
  finalize : List UInt8 → Digest

instance [Blake3] : DecidableEq Blake3.Digest :=
  Blake3.decidableEq

/-- Canonical hash of a compiled schema. -/
structure SchemaHash [Blake3] where
  bytes : Blake3.Digest
deriving DecidableEq

namespace SchemaHash

def updateStr (hasher : List UInt8) (value : String) : List UInt8 :=
  hasher ++ LittleEndian.encode 8 (stringBytes value).length ++ stringBytes value

mutual

def updateExpression (hasher : List UInt8) : UsersetExpression → List UInt8
  | .this => updateStr hasher "this"
  | .computedUserset relation =>
      updateStr (updateStr hasher "computed_userset") relation.value
  | .tupleToUserset tuplesetRelation computedUsersetRelation =>
      updateStr (updateStr (updateStr hasher "tuple_to_userset") tuplesetRelation.value)
        computedUsersetRelation.value
  | .union expressions => updateExpressions (updateStr hasher "union") expressions
  | .intersection expressions => updateExpressions (updateStr hasher "intersection") expressions
  | .exclusion base exclude =>
      updateExpression (updateExpression (updateStr hasher "exclusion") base) exclude

def updateExpressions (hasher : List UInt8) : List UsersetExpression → List UInt8
  | [] => hasher
  | child :: rest => updateExpressions (updateExpression hasher child) rest

end

def updateSubjects (hasher : List UInt8) : AllowedSubjectTypes → List UInt8
  | .unspecified => updateStr hasher "subjects_unspecified"
  | .explicit subjects =>
      (sortByName (·.value) subjects).foldl
        (fun hasher subjectType => updateStr hasher subjectType.value)
        (updateStr hasher "subjects_explicit")

def updateRewrite (hasher : List UInt8) : Option UsersetExpression → List UInt8
  | some expression => updateExpression hasher expression
  | none => updateStr hasher "rewrite_none"

def updateRelation (hasher : List UInt8) (relation : RelationDefinition) : List UInt8 :=
  updateRewrite
    (updateSubjects (updateStr (updateStr hasher "relation") relation.name.value)
      relation.allowedSubjectTypes)
    relation.usersetRewrite

def updateNamespace (hasher : List UInt8) (definition : NamespaceDefinition) : List UInt8 :=
  (sortByName (·.name.value) definition.relations).foldl updateRelation
    (updateStr (updateStr hasher "namespace") definition.name.value)

/-- Computes a canonical schema hash. -/
def forSchema [Blake3] (schema : CompiledSchema) : SchemaHash :=
  ⟨Blake3.finalize ((sortByName (·.name.value) schema.definitions).foldl updateNamespace [])⟩

end SchemaHash

/-! ## The words of a rewrite -/

/-- A node of a rewrite without its operands. -/
inductive RewriteSymbol where
  | this
  | computedUserset (relation : RelationName)
  | tupleToUserset (tuplesetRelation computedUsersetRelation : RelationName)
  | union
  | intersection
  | exclusion
deriving DecidableEq

namespace RewriteSymbol

/-- The nodes with any positive number of operands. -/
def isOpen : RewriteSymbol → Bool
  | .union => true
  | .intersection => true
  | _ => false

/-- The number of operands of the other nodes. -/
def arity : RewriteSymbol → Nat
  | .exclusion => 2
  | _ => 0

/-- The words that the hasher receives for the node. -/
def words : RewriteSymbol → List String
  | .this => ["this"]
  | .computedUserset relation => ["computed_userset", relation.value]
  | .tupleToUserset tuplesetRelation computedUsersetRelation =>
      ["tuple_to_userset", tuplesetRelation.value, computedUsersetRelation.value]
  | .union => ["union"]
  | .intersection => ["intersection"]
  | .exclusion => ["exclusion"]

end RewriteSymbol

namespace UsersetExpression

mutual

/-- The nodes of a rewrite in preorder, with their operand counts. -/
def preorder : UsersetExpression → List (RewriteSymbol × Nat)
  | .this => [(.this, 0)]
  | .computedUserset relation => [(.computedUserset relation, 0)]
  | .tupleToUserset tupleset computed => [(.tupleToUserset tupleset computed, 0)]
  | .union expressions => (.union, expressions.length) :: preorders expressions
  | .intersection expressions => (.intersection, expressions.length) :: preorders expressions
  | .exclusion base exclude => (.exclusion, 2) :: (preorder base ++ preorder exclude)

def preorders : List UsersetExpression → List (RewriteSymbol × Nat)
  | [] => []
  | expression :: rest => preorder expression ++ preorders rest

end

/-- The nodes of a rewrite in preorder. -/
def symbols (expression : UsersetExpression) : List RewriteSymbol :=
  expression.preorder.map Prod.fst

/-- The rewrite can be told apart from every other one with the same nodes. -/
def tight (expression : UsersetExpression) : Bool :=
  PreorderWord.tight RewriteSymbol.isOpen 1 expression.preorder

end UsersetExpression

namespace SchemaHash

/-- The bytes of the words behind their lengths. -/
def stream (words : List String) : List UInt8 :=
  (words.map stringBytes).flatMap (LittleEndian.frame 8)

def subjectWords : AllowedSubjectTypes → List String
  | .unspecified => ["subjects_unspecified"]
  | .explicit subjects =>
      "subjects_explicit" :: (sortByName (·.value) subjects).map (·.value)

def rewriteWords : Option UsersetExpression → List String
  | some expression => expression.symbols.flatMap RewriteSymbol.words
  | none => ["rewrite_none"]

def relationWords (relation : RelationDefinition) : List String :=
  "relation" :: relation.name.value ::
    (subjectWords relation.allowedSubjectTypes ++ rewriteWords relation.usersetRewrite)

def namespaceWords (definition : NamespaceDefinition) : List String :=
  "namespace" :: definition.name.value ::
    (sortByName (·.name.value) definition.relations).flatMap relationWords

def schemaWords (schema : CompiledSchema) : List String :=
  (sortByName (·.name.value) schema.definitions).flatMap namespaceWords

@[simp] theorem stream_nil : stream [] = [] := rfl

theorem stream_append
    (words words' : List String) :
    stream (words ++ words') = stream words ++ stream words' := by
  simp [stream, List.flatMap_append]

theorem updateStr_eq
    (hasher : List UInt8) (value : String) :
    updateStr hasher value = hasher ++ stream [value] := by
  simp [updateStr, stream, LittleEndian.frame]

/-- Words that follow each other are one stream. -/
theorem append_stream
    (hasher : List UInt8) (words words' : List String) :
    hasher ++ stream words ++ stream words' = hasher ++ stream (words ++ words') := by
  rw [stream_append, List.append_assoc]

/-- A loop that feeds the words of each item feeds the words of all. -/
theorem foldl_eq_stream
    {α : Type} {update : List UInt8 → α → List UInt8} {words : α → List String}
    (hupdate : ∀ hasher a, update hasher a = hasher ++ stream (words a))
    (hasher : List UInt8) (as : List α) :
    as.foldl update hasher = hasher ++ stream (as.flatMap words) := by
  induction as generalizing hasher with
  | nil => simp
  | cons a as ih => rw [List.foldl_cons, ih, hupdate, append_stream, List.flatMap_cons]

mutual

theorem updateExpression_eq :
    ∀ (expression : UsersetExpression) (hasher : List UInt8),
      updateExpression hasher expression =
        hasher ++ stream (expression.symbols.flatMap RewriteSymbol.words)
  | .this, hasher => by
      rw [updateExpression, updateStr_eq]
      rfl
  | .computedUserset relation, hasher => by
      rw [updateExpression, updateStr_eq, updateStr_eq, append_stream]
      rfl
  | .tupleToUserset tupleset computed, hasher => by
      rw [updateExpression, updateStr_eq, updateStr_eq, updateStr_eq, append_stream,
        append_stream]
      rfl
  | .union expressions, hasher => by
      rw [updateExpression, updateExpressions_eq expressions, updateStr_eq, append_stream]
      rfl
  | .intersection expressions, hasher => by
      rw [updateExpression, updateExpressions_eq expressions, updateStr_eq, append_stream]
      rfl
  | .exclusion base exclude, hasher => by
      rw [updateExpression, updateExpression_eq exclude, updateExpression_eq base, updateStr_eq,
        append_stream, append_stream]
      simp [UsersetExpression.symbols, UsersetExpression.preorder, RewriteSymbol.words]

theorem updateExpressions_eq :
    ∀ (expressions : List UsersetExpression) (hasher : List UInt8),
      updateExpressions hasher expressions = hasher ++
        stream (((UsersetExpression.preorders expressions).map Prod.fst).flatMap
          RewriteSymbol.words)
  | [], hasher => by simp [updateExpressions, UsersetExpression.preorders]
  | child :: rest, hasher => by
      rw [updateExpressions, updateExpressions_eq rest, updateExpression_eq child, append_stream]
      simp [UsersetExpression.symbols, UsersetExpression.preorders]

end

theorem updateSubjects_eq
    (hasher : List UInt8) (subjects : AllowedSubjectTypes) :
    updateSubjects hasher subjects = hasher ++ stream (subjectWords subjects) := by
  cases subjects with
  | unspecified => exact updateStr_eq hasher _
  | explicit subjects =>
      have hword : ∀ (hasher : List UInt8) (subjectType : ObjectType),
          updateStr hasher subjectType.value = hasher ++ stream [subjectType.value] :=
        fun hasher subjectType => updateStr_eq hasher subjectType.value
      rw [updateSubjects, foldl_eq_stream hword, updateStr_eq, append_stream,
        ← List.map_eq_flatMap]
      rfl

theorem updateRewrite_eq
    (hasher : List UInt8) (rewrite : Option UsersetExpression) :
    updateRewrite hasher rewrite = hasher ++ stream (rewriteWords rewrite) := by
  cases rewrite with
  | none => exact updateStr_eq hasher _
  | some expression => exact updateExpression_eq expression hasher

theorem updateRelation_eq
    (hasher : List UInt8) (relation : RelationDefinition) :
    updateRelation hasher relation = hasher ++ stream (relationWords relation) := by
  rw [updateRelation, updateRewrite_eq, updateSubjects_eq, updateStr_eq, updateStr_eq,
    append_stream, append_stream, append_stream]
  rfl

theorem updateNamespace_eq
    (hasher : List UInt8) (definition : NamespaceDefinition) :
    updateNamespace hasher definition = hasher ++ stream (namespaceWords definition) := by
  rw [updateNamespace, foldl_eq_stream updateRelation_eq, updateStr_eq, updateStr_eq,
    append_stream, append_stream]
  rfl

/-- The hash is the digest of the words of the schema. -/
theorem forSchema_eq
    [Blake3] (schema : CompiledSchema) :
    forSchema schema = ⟨Blake3.finalize (stream (schemaWords schema))⟩ := by
  rw [forSchema, foldl_eq_stream updateNamespace_eq]
  rfl

/-! ## The words determine the stream -/

/-- Words of a length that eight bytes can hold. -/
def Short (word : String) : Prop :=
  (stringBytes word).length < 256 ^ 8

theorem stringBytes_injective :
    Function.Injective stringBytes := by
  intro value value' h
  have hdata : value.toUTF8.data = value'.toUTF8.data := Array.toList_inj.mp h
  exact String.toByteArray_inj.mp (ByteArray.ext hdata)

theorem stream_injective
    {words words' : List String}
    (hshort : ∀ word ∈ words, Short word)
    (hshort' : ∀ word ∈ words', Short word)
    (h : stream words = stream words') :
    words = words' := by
  apply List.map_injective_iff.mpr stringBytes_injective
  refine LittleEndian.flatMap_frame_injective (by omega) ?_ ?_ h
  · intro bytes hbytes
    obtain ⟨word, hword, rfl⟩ := List.mem_map.mp hbytes
    exact hshort word hword
  · intro bytes hbytes
    obtain ⟨word, hword, rfl⟩ := List.mem_map.mp hbytes
    exact hshort' word hword

theorem short_identifier
    {kind : IdentifierKind} (identifier : Identifier kind) :
    Short identifier.value := by
  have hbound : ∀ valid maxBytes,
      validateBytes valid kind identifier.value maxBytes = .ok () →
        (stringBytes identifier.value).length ≤ maxBytes := by
    intro valid maxBytes h
    unfold validateBytes at h
    split_ifs at h with hempty hlong
    omega
  have hvalid := identifier.valid
  unfold Short
  cases kind with
  | objectType => have := hbound _ _ hvalid; simp only [maxTypeBytes] at this; omega
  | objectId => have := hbound _ _ hvalid; simp only [maxIdBytes] at this; omega
  | relationName => have := hbound _ _ hvalid; simp only [maxRelationBytes] at this; omega
  | subjectType => have := hbound _ _ hvalid; simp only [maxTypeBytes] at this; omega
  | subjectId => have := hbound _ _ hvalid; simp only [maxIdBytes] at this; omega

theorem short_symbolWords
    (symbol : RewriteSymbol) :
    ∀ word ∈ symbol.words, Short word := by
  intro word hword
  cases symbol with
  | this =>
      cases List.mem_singleton.mp hword
      unfold Short
      decide
  | computedUserset relation =>
      rcases List.mem_pair.mp hword with rfl | rfl
      · unfold Short
        decide
      · exact short_identifier relation
  | tupleToUserset tupleset computed =>
      simp only [RewriteSymbol.words, List.mem_cons, List.not_mem_nil, or_false] at hword
      rcases hword with rfl | rfl | rfl
      · unfold Short
        decide
      · exact short_identifier tupleset
      · exact short_identifier computed
  | union =>
      cases List.mem_singleton.mp hword
      unfold Short
      decide
  | intersection =>
      cases List.mem_singleton.mp hword
      unfold Short
      decide
  | exclusion =>
      cases List.mem_singleton.mp hword
      unfold Short
      decide

theorem short_relationWords
    (relation : RelationDefinition) :
    ∀ word ∈ relationWords relation, Short word := by
  intro word hword
  rcases List.mem_cons.mp hword with rfl | hword
  · unfold Short
    decide
  rcases List.mem_cons.mp hword with rfl | hword
  · exact short_identifier relation.name
  rcases List.mem_append.mp hword with hsubjects | hrewrite
  · cases hallowed : relation.allowedSubjectTypes with
    | unspecified =>
        rw [hallowed] at hsubjects
        cases List.mem_singleton.mp hsubjects
        unfold Short
        decide
    | explicit subjects =>
        rw [hallowed] at hsubjects
        rcases List.mem_cons.mp hsubjects with rfl | hsubjects
        · unfold Short
          decide
        · obtain ⟨subjectType, _, rfl⟩ := List.mem_map.mp hsubjects
          exact short_identifier subjectType
  · cases hexpression : relation.usersetRewrite with
    | none =>
        rw [hexpression] at hrewrite
        cases List.mem_singleton.mp hrewrite
        unfold Short
        decide
    | some expression =>
        rw [hexpression] at hrewrite
        obtain ⟨symbol, _, hsymbol⟩ := List.mem_flatMap.mp hrewrite
        exact short_symbolWords symbol word hsymbol

theorem short_schemaWords
    (schema : CompiledSchema) :
    ∀ word ∈ schemaWords schema, Short word := by
  intro word hword
  obtain ⟨definition, _, hword⟩ := List.mem_flatMap.mp hword
  rcases List.mem_cons.mp hword with rfl | hword
  · unfold Short
    decide
  rcases List.mem_cons.mp hword with rfl | hword
  · exact short_identifier definition.name
  obtain ⟨relation, _, hword⟩ := List.mem_flatMap.mp hword
  exact short_relationWords relation word hword

/-- Under an injective digest the hash determines the words. -/
theorem forSchema_eq_iff_schemaWords
    [Blake3] (hinjective : Function.Injective Blake3.finalize)
    (left right : CompiledSchema) :
    forSchema left = forSchema right ↔ schemaWords left = schemaWords right := by
  rw [forSchema_eq, forSchema_eq, SchemaHash.mk.injEq]
  constructor
  · intro h
    exact stream_injective (short_schemaWords left) (short_schemaWords right) (hinjective h)
  · intro h
    rw [h]

end SchemaHash

/-! ## Schemas up to the order of their parts -/

/-- The second list is the first in another order, with related entries. -/
def UpToOrder {α : Type} (R : α → α → Prop) (as bs : List α) : Prop :=
  ∃ cs, as.Perm cs ∧ List.Forall₂ R cs bs

/-- Both unspecified, or the same explicit list up to order. -/
def AllowedSubjectTypes.Same : AllowedSubjectTypes → AllowedSubjectTypes → Prop
  | .unspecified, .unspecified => True
  | .explicit left, .explicit right => left.Perm right
  | _, _ => False

section Same

variable (rewrites : Option UsersetExpression → Option UsersetExpression → Prop)

/-- The relations have the same name and subject types, and related rewrites. -/
structure RelationDefinition.Same (left right : RelationDefinition) : Prop where
  name : left.name = right.name
  subjects : left.allowedSubjectTypes.Same right.allowedSubjectTypes
  rewrite : rewrites left.usersetRewrite right.usersetRewrite

structure NamespaceDefinition.Same (left right : NamespaceDefinition) : Prop where
  name : left.name = right.name
  relations : UpToOrder (RelationDefinition.Same rewrites) left.relations right.relations

def CompiledSchema.Same (left right : CompiledSchema) : Prop :=
  UpToOrder (NamespaceDefinition.Same rewrites) left.definitions right.definitions

end Same

/-- The names of the namespaces are distinct, and so are those of the relations of each. -/
structure NamesDistinct (definitions : List NamespaceDefinition) : Prop where
  namespaces : (definitions.map (·.name)).Nodup
  relations : ∀ definition ∈ definitions, (definition.relations.map (·.name)).Nodup

theorem namesDistinct_iff
    {definitions : List NamespaceDefinition} :
    NamesDistinct definitions ↔ (definitions.map (·.name)).Nodup ∧
      ∀ definition ∈ definitions, (definition.relations.map (·.name)).Nodup :=
  ⟨fun h => ⟨h.namespaces, h.relations⟩, fun h => ⟨h.1, h.2⟩⟩

section SortByName

variable {α : Type} {name : α → String}

theorem perm_sortByName
    (as : List α) :
    (sortByName name as).Perm as :=
  List.perm_insertionSort _ as

theorem pairwise_sortByName
    (as : List α) :
    (sortByName name as).Pairwise (fun left right => name left ≤ name right) := by
  have : Std.Total (fun left right : α => name left ≤ name right) :=
    ⟨fun left right => le_total (name left) (name right)⟩
  have : IsTrans α (fun left right => name left ≤ name right) :=
    ⟨fun _ _ _ => le_trans⟩
  exact List.pairwise_insertionSort _ as

/-- Entries that the names determine are sorted alike from every order. -/
theorem sortByName_eq_of_perm
    {as bs : List α}
    (hperm : as.Perm bs)
    (hname : ∀ a ∈ as, ∀ b ∈ as, name a = name b → a = b) :
    sortByName name as = sortByName name bs := by
  refine List.Perm.eq_of_pairwise ?_ (pairwise_sortByName as) (pairwise_sortByName bs)
    ((perm_sortByName as).trans (hperm.trans (perm_sortByName bs).symm))
  intro a b ha hb hab hba
  have ha' := (perm_sortByName as).mem_iff.mp ha
  have hb' := hperm.mem_iff.mpr ((perm_sortByName bs).mem_iff.mp hb)
  exact hname a ha' b hb' (le_antisymm hab hba)

theorem forall₂_orderedInsert
    {R : α → α → Prop}
    (hname : ∀ a b, R a b → name a = name b)
    {a b : α} {as bs : List α}
    (hab : R a b)
    (h : List.Forall₂ R as bs) :
    List.Forall₂ R (as.orderedInsert (fun left right => name left ≤ name right) a)
      (bs.orderedInsert (fun left right => name left ≤ name right) b) := by
  induction h with
  | nil => exact List.Forall₂.cons hab List.Forall₂.nil
  | @cons a' b' as bs hab' h ih =>
      by_cases hle : name a ≤ name a'
      · have hle' : name b ≤ name b' := by rwa [← hname _ _ hab, ← hname _ _ hab']
        rw [List.orderedInsert_cons_of_le _ as hle, List.orderedInsert_cons_of_le _ bs hle']
        exact List.Forall₂.cons hab (List.Forall₂.cons hab' h)
      · have hle' : ¬ name b ≤ name b' := by rwa [← hname _ _ hab, ← hname _ _ hab']
        rw [List.orderedInsert_of_not_le _ as hle, List.orderedInsert_of_not_le _ bs hle']
        exact List.Forall₂.cons hab' ih

theorem forall₂_sortByName
    {R : α → α → Prop}
    (hname : ∀ a b, R a b → name a = name b)
    {as bs : List α}
    (h : List.Forall₂ R as bs) :
    List.Forall₂ R (sortByName name as) (sortByName name bs) := by
  induction h with
  | nil => exact List.Forall₂.nil
  | cons hab _ ih => exact forall₂_orderedInsert hname hab ih

/-- Lists that agree up to order are sorted to lists that agree one by one. -/
theorem upToOrder_iff
    {R : α → α → Prop}
    (hname : ∀ a b, R a b → name a = name b)
    {as bs : List α}
    (hdistinct : ∀ a ∈ as, ∀ b ∈ as, name a = name b → a = b) :
    UpToOrder R as bs ↔ List.Forall₂ R (sortByName name as) (sortByName name bs) := by
  constructor
  · rintro ⟨cs, hperm, h⟩
    rw [sortByName_eq_of_perm hperm hdistinct]
    exact forall₂_sortByName hname h
  · intro h
    have hcomp : Relation.Comp (List.Forall₂ R) List.Perm (sortByName name as) bs :=
      ⟨sortByName name bs, h, perm_sortByName bs⟩
    rw [List.forall₂_comp_perm_eq_perm_comp_forall₂] at hcomp
    obtain ⟨cs, hperm, hcs⟩ := hcomp
    exact ⟨cs, (perm_sortByName as).symm.trans hperm, hcs⟩

end SortByName

namespace SchemaHash

open KeywordStream

/-- The rewrites have the same nodes in preorder. -/
def SameSymbols (left right : Option UsersetExpression) : Prop :=
  left.map (·.symbols) = right.map (·.symbols)

/-- The words with which a rewrite can start. -/
def rewriteKeywords : List String :=
  ["this", "computed_userset", "tuple_to_userset", "union", "intersection", "exclusion",
    "rewrite_none"]

/-- No explicit subject type is spelled like the start of a rewrite. -/
def PlainSubjects : AllowedSubjectTypes → Prop
  | .unspecified => True
  | .explicit subjects => ∀ subjectType ∈ subjects, subjectType.value ∉ rewriteKeywords

instance (subjects : AllowedSubjectTypes) : Decidable (PlainSubjects subjects) :=
  match subjects with
  | .unspecified => inferInstanceAs (Decidable True)
  | .explicit subjects => inferInstanceAs (Decidable
      (∀ subjectType ∈ subjects, subjectType.value ∉ rewriteKeywords))

def Plain (schema : CompiledSchema) : Prop :=
  ∀ definition ∈ schema.definitions, ∀ relation ∈ definition.relations,
    PlainSubjects relation.allowedSubjectTypes

/-! ## Reading the words back -/

theorem symbolWords_append_inj
    {left right : RewriteSymbol} {rest rest' : List String}
    (h : left.words ++ rest = right.words ++ rest') :
    left = right ∧ rest = rest' := by
  cases left <;> cases right <;>
    simp_all [RewriteSymbol.words, Identifier.ext_iff]

theorem head_symbolWords
    (symbol : RewriteSymbol) :
    ∃ word ∈ rewriteKeywords, symbol.words.head? = some word := by
  cases symbol with
  | this => exact ⟨"this", by decide, rfl⟩
  | computedUserset relation => exact ⟨"computed_userset", by decide, rfl⟩
  | tupleToUserset tupleset computed => exact ⟨"tuple_to_userset", by decide, rfl⟩
  | union => exact ⟨"union", by decide, rfl⟩
  | intersection => exact ⟨"intersection", by decide, rfl⟩
  | exclusion => exact ⟨"exclusion", by decide, rfl⟩

/-- A rest that starts with a symbol does not start with an item. -/
theorem not_starts_symbolWords
    {symbol : RewriteSymbol} {rest : List String}
    (h : Starts ["relation", "namespace"] (symbol.words ++ rest)) :
    False := by
  obtain ⟨word, hword, hhead⟩ := head_symbolWords symbol
  have hmem := h word (by rw [List.head?_append, hhead]; rfl)
  revert hword hmem
  simp only [rewriteKeywords, List.mem_cons, List.not_mem_nil, or_false]
  rintro hword (rfl | rfl)
  · revert hword
    decide
  · revert hword
    decide

theorem symbolsWords_append_inj
    {left right : List RewriteSymbol} {rest rest' : List String}
    (hrest : Starts ["relation", "namespace"] rest)
    (hrest' : Starts ["relation", "namespace"] rest')
    (h : left.flatMap RewriteSymbol.words ++ rest = right.flatMap RewriteSymbol.words ++ rest') :
    left = right ∧ rest = rest' := by
  induction left generalizing right with
  | nil =>
      cases right with
      | nil => exact ⟨rfl, h⟩
      | cons symbol right =>
          rw [List.flatMap_nil, List.nil_append, List.flatMap_cons, List.append_assoc] at h
          rw [h] at hrest
          exact (not_starts_symbolWords hrest).elim
  | cons symbol left ih =>
      cases right with
      | nil =>
          rw [List.flatMap_nil, List.nil_append, List.flatMap_cons, List.append_assoc] at h
          rw [← h] at hrest'
          exact (not_starts_symbolWords hrest').elim
      | cons symbol' right =>
          rw [List.flatMap_cons, List.append_assoc, List.flatMap_cons, List.append_assoc] at h
          obtain ⟨rfl, htail⟩ := symbolWords_append_inj h
          obtain ⟨rfl, hsame⟩ := ih htail
          exact ⟨rfl, hsame⟩

theorem exists_symbols_cons
    (expression : UsersetExpression) :
    ∃ symbol symbols, expression.symbols = symbol :: symbols := by
  cases expression with
  | this => exact ⟨_, _, rfl⟩
  | computedUserset relation => exact ⟨_, _, rfl⟩
  | tupleToUserset tupleset computed => exact ⟨_, _, rfl⟩
  | union expressions => exact ⟨_, _, rfl⟩
  | intersection expressions => exact ⟨_, _, rfl⟩
  | exclusion base exclude => exact ⟨_, _, rfl⟩

theorem head_rewriteWords
    (rewrite : Option UsersetExpression) :
    ∃ word ∈ rewriteKeywords, (rewriteWords rewrite).head? = some word := by
  cases rewrite with
  | none => exact ⟨"rewrite_none", by decide, rfl⟩
  | some expression =>
      obtain ⟨symbol, symbols, hsymbols⟩ := exists_symbols_cons expression
      obtain ⟨word, hword, hhead⟩ := head_symbolWords symbol
      refine ⟨word, hword, ?_⟩
      rw [rewriteWords, hsymbols, List.flatMap_cons, List.head?_append, hhead]
      rfl

theorem symbols_ne_rewrite_none
    {expression : UsersetExpression} {rest rest' : List String}
    (h : rewriteWords (some expression) ++ rest = rewriteWords none ++ rest') :
    False := by
  obtain ⟨symbol, symbols, hsymbols⟩ := exists_symbols_cons expression
  rw [rewriteWords, hsymbols, List.flatMap_cons, List.append_assoc] at h
  cases symbol <;> simp [RewriteSymbol.words, rewriteWords] at h

theorem rewriteWords_append_inj
    {left right : Option UsersetExpression} {rest rest' : List String}
    (hrest : Starts ["relation", "namespace"] rest)
    (hrest' : Starts ["relation", "namespace"] rest')
    (h : rewriteWords left ++ rest = rewriteWords right ++ rest') :
    SameSymbols left right ∧ rest = rest' := by
  cases left with
  | none =>
      cases right with
      | none => exact ⟨rfl, List.append_cancel_left h⟩
      | some expression => exact (symbols_ne_rewrite_none h.symm).elim
  | some expression =>
      cases right with
      | none => exact (symbols_ne_rewrite_none h).elim
      | some expression' =>
          obtain ⟨hsymbols, hsame⟩ := symbolsWords_append_inj hrest hrest' h
          exact ⟨congrArg some hsymbols, hsame⟩

/-- Explicit subject types that are no keywords end where the rewrite starts. -/
theorem subjectWords_append_inj
    {left right : AllowedSubjectTypes} {rest rest' : List String}
    (hplain : PlainSubjects left)
    (hplain' : PlainSubjects right)
    (hrest : Starts rewriteKeywords rest)
    (hrest' : Starts rewriteKeywords rest')
    (h : subjectWords left ++ rest = subjectWords right ++ rest') :
    left.Same right ∧ rest = rest' := by
  cases left with
  | unspecified =>
      cases right with
      | unspecified => exact ⟨trivial, List.append_cancel_left h⟩
      | explicit subjects => simp [subjectWords] at h
  | explicit subjects =>
      cases right with
      | unspecified => simp [subjectWords] at h
      | explicit subjects' =>
          have hwords : ∀ types : List ObjectType,
              (∀ subjectType ∈ types, subjectType.value ∉ rewriteKeywords) →
              ∀ word ∈ (sortByName (·.value) types).map (·.value), word ∉ rewriteKeywords := by
            intro types htypes word hword
            obtain ⟨subjectType, hmem, rfl⟩ := List.mem_map.mp hword
            exact htypes subjectType ((perm_sortByName types).mem_iff.mp hmem)
          obtain ⟨hsorted, hsame⟩ := append_inj_of_starts (hwords subjects hplain)
            (hwords subjects' hplain') hrest hrest' (List.cons.inj h).2
          have hvalues : sortByName (·.value) subjects = sortByName (·.value) subjects' :=
            List.map_injective_iff.mpr (fun _ _ => Identifier.ext) hsorted
          refine ⟨?_, hsame⟩
          exact (perm_sortByName subjects).symm.trans (hvalues ▸ perm_sortByName subjects')

theorem relationWords_append_inj
    {left right : RelationDefinition} {rest rest' : List String}
    (hplain : PlainSubjects left.allowedSubjectTypes)
    (hplain' : PlainSubjects right.allowedSubjectTypes)
    (hrest : Starts ["relation", "namespace"] rest)
    (hrest' : Starts ["relation", "namespace"] rest')
    (h : relationWords left ++ rest = relationWords right ++ rest') :
    left.Same SameSymbols right ∧ rest = rest' := by
  have hstarts : ∀ (rewrite : Option UsersetExpression) (rest : List String),
      Starts rewriteKeywords (rewriteWords rewrite ++ rest) := by
    intro rewrite rest word hword
    obtain ⟨first, hfirst, hhead⟩ := head_rewriteWords rewrite
    rw [List.head?_append, hhead] at hword
    cases hword
    exact hfirst
  obtain ⟨hname, htail⟩ := List.cons.inj (List.cons.inj h).2
  rw [List.append_eq, List.append_eq, List.append_assoc, List.append_assoc] at htail
  obtain ⟨hsubjects, htail⟩ := subjectWords_append_inj hplain hplain' (hstarts _ _)
    (hstarts _ _) htail
  obtain ⟨hrewrite, hsame⟩ := rewriteWords_append_inj hrest hrest' htail
  exact ⟨⟨Identifier.ext hname, hsubjects, hrewrite⟩, hsame⟩

/-- Relations that are the same up to the operand counts have the same words. -/
theorem relationWords_eq
    {left right : RelationDefinition}
    (h : left.Same SameSymbols right) :
    relationWords left = relationWords right := by
  have hsubjects : subjectWords left.allowedSubjectTypes =
      subjectWords right.allowedSubjectTypes := by
    have hsame := h.subjects
    cases hleft : left.allowedSubjectTypes with
    | unspecified =>
        cases hright : right.allowedSubjectTypes with
        | unspecified => rfl
        | explicit subjects => rw [hleft, hright] at hsame; exact hsame.elim
    | explicit subjects =>
        cases hright : right.allowedSubjectTypes with
        | unspecified => rw [hleft, hright] at hsame; exact hsame.elim
        | explicit subjects' =>
            rw [hleft, hright] at hsame
            have hperm : subjects.Perm subjects' := hsame
            rw [subjectWords, subjectWords,
              sortByName_eq_of_perm hperm (fun _ _ _ _ => Identifier.ext)]
  have hrewrite : rewriteWords left.usersetRewrite = rewriteWords right.usersetRewrite := by
    have hsame := h.rewrite
    unfold SameSymbols at hsame
    cases hleft : left.usersetRewrite with
    | none =>
        cases hright : right.usersetRewrite with
        | none => rfl
        | some expression => rw [hleft, hright] at hsame; cases hsame
    | some expression =>
        cases hright : right.usersetRewrite with
        | none => rw [hleft, hright] at hsame; cases hsame
        | some expression' =>
            rw [hleft, hright] at hsame
            have hsymbols : expression.symbols = expression'.symbols := Option.some.inj hsame
            rw [rewriteWords, rewriteWords, hsymbols]
  rw [relationWords, relationWords, h.name, hsubjects, hrewrite]

theorem flatMap_eq_of_forall₂
    {α β : Type} {R : α → α → Prop} {item : α → List β} {as bs : List α}
    (h : List.Forall₂ R as bs)
    (hitem : ∀ a ∈ as, ∀ b, R a b → item a = item b) :
    as.flatMap item = bs.flatMap item := by
  induction h with
  | nil => rfl
  | cons hab _ ih =>
      rw [List.flatMap_cons, List.flatMap_cons, hitem _ (List.mem_cons_self ..) _ hab,
        ih (fun a ha => hitem a (List.mem_cons_of_mem _ ha))]

theorem upToOrder_relations_iff
    {left right : NamespaceDefinition}
    (hdistinct : (left.relations.map (·.name)).Nodup) :
    UpToOrder (RelationDefinition.Same SameSymbols) left.relations right.relations ↔
      List.Forall₂ (RelationDefinition.Same SameSymbols)
        (sortByName (·.name.value) left.relations)
        (sortByName (·.name.value) right.relations) := by
  refine upToOrder_iff (fun _ _ hab => congrArg (·.value) hab.name) ?_
  intro a ha b hb hab
  exact List.inj_on_of_nodup_map hdistinct ha hb (Identifier.ext hab)

theorem namespaceWords_append_inj
    {left right : NamespaceDefinition} {rest rest' : List String}
    (hplain : ∀ relation ∈ left.relations, PlainSubjects relation.allowedSubjectTypes)
    (hplain' : ∀ relation ∈ right.relations, PlainSubjects relation.allowedSubjectTypes)
    (hdistinct : (left.relations.map (·.name)).Nodup)
    (hrest : Starts ["namespace"] rest)
    (hrest' : Starts ["namespace"] rest')
    (h : namespaceWords left ++ rest = namespaceWords right ++ rest') :
    left.Same SameSymbols right ∧ rest = rest' := by
  obtain ⟨hname, htail⟩ := List.cons.inj (List.cons.inj h).2
  obtain ⟨hrelations, hsame⟩ := forall₂_of_flatMap
    (P := fun relation => PlainSubjects relation.allowedSubjectTypes) (fun _ => rfl) (by decide)
    (fun a b rest rest' ha hb => relationWords_append_inj ha hb)
    (fun relation hrelation =>
      hplain relation ((perm_sortByName left.relations).mem_iff.mp hrelation))
    (fun relation hrelation =>
      hplain' relation ((perm_sortByName right.relations).mem_iff.mp hrelation))
    hrest hrest' htail
  exact ⟨⟨Identifier.ext hname, (upToOrder_relations_iff hdistinct).mpr hrelations⟩, hsame⟩

theorem namespaceWords_eq
    {left right : NamespaceDefinition}
    (hdistinct : (left.relations.map (·.name)).Nodup)
    (h : left.Same SameSymbols right) :
    namespaceWords left = namespaceWords right := by
  have hrelations := (upToOrder_relations_iff hdistinct).mp h.relations
  rw [namespaceWords, namespaceWords, h.name,
    flatMap_eq_of_forall₂ hrelations (fun a _ b hab => relationWords_eq hab)]

theorem schemaWords_eq_iff
    {left right : CompiledSchema}
    (hplain : Plain left)
    (hplain' : Plain right)
    (hdistinct : NamesDistinct left.definitions)
    (hdistinct' : NamesDistinct right.definitions) :
    schemaWords left = schemaWords right ↔ left.Same SameSymbols right := by
  have hsort : left.Same SameSymbols right ↔
      List.Forall₂ (NamespaceDefinition.Same SameSymbols)
        (sortByName (·.name.value) left.definitions)
        (sortByName (·.name.value) right.definitions) := by
    refine upToOrder_iff (fun _ _ hab => congrArg (·.value) hab.name) ?_
    intro a ha b hb hab
    exact List.inj_on_of_nodup_map hdistinct.namespaces ha hb (Identifier.ext hab)
  rw [hsort]
  constructor
  · intro h
    have hitems : ∀ {schema : CompiledSchema}, Plain schema →
        NamesDistinct schema.definitions →
        ∀ definition ∈ sortByName (·.name.value) schema.definitions,
          (∀ relation ∈ definition.relations, PlainSubjects relation.allowedSubjectTypes) ∧
            (definition.relations.map (·.name)).Nodup := by
      intro schema hplain hdistinct definition hdefinition
      have hmem := (perm_sortByName schema.definitions).mem_iff.mp hdefinition
      exact ⟨hplain definition hmem, hdistinct.relations definition hmem⟩
    have hhead : ∀ definition, (namespaceWords definition).head? = some "namespace" :=
      fun _ => rfl
    have hends : "namespace" ∉ ([] : List String) := List.not_mem_nil
    refine (forall₂_of_flatMap hhead hends ?_ (hitems hplain hdistinct)
      (hitems hplain' hdistinct') starts_nil starts_nil ?_).1
    · intro a b rest rest' ha hb hrest hrest'
      exact namespaceWords_append_inj ha.1 hb.1 ha.2 hrest hrest'
    · rw [List.append_nil, List.append_nil]
      exact h
  · intro h
    refine flatMap_eq_of_forall₂ h ?_
    intro definition hdefinition definition' hsame
    have hmem := (perm_sortByName left.definitions).mem_iff.mp hdefinition
    exact namespaceWords_eq (hdistinct.relations definition hmem) hsame

/-- Schemas with plain subject types have equal hashes iff they are the same up to the order
of their parts and the operand counts of their rewrites. -/
theorem forSchema_eq_iff
    [Blake3] (hinjective : Function.Injective Blake3.finalize)
    {left right : CompiledSchema}
    (hplain : Plain left)
    (hplain' : Plain right)
    (hdistinct : NamesDistinct left.definitions)
    (hdistinct' : NamesDistinct right.definitions) :
    forSchema left = forSchema right ↔ left.Same SameSymbols right := by
  rw [forSchema_eq_iff_schemaWords hinjective,
    schemaWords_eq_iff hplain hplain' hdistinct hdistinct']

end SchemaHash

end SimpleZanzibar
