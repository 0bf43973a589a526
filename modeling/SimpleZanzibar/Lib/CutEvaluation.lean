import Mathlib.Data.Set.Insert
import Mathlib.Data.Set.Basic
import Mathlib.Logic.Relation

/-!
# Boolean equation systems evaluated by depth-first search

A system assigns to every key `k` a formula `body k` over the keys.  Formulas
have unions (`any`), intersections (`all`) and differences (`diff`), so the
system may be cyclic and may use negation.

`Eval body S f b` is the answer of a depth-first search that cuts every key of
`S` to `false`: entering a key adds it to the cut set.  The relation does not
fix an evaluation order and does not say which operands are visited, so every
short-circuiting strategy computes an instance of it.

**Results.**
* `Eval.deterministic`: two searches with the same cut set agree.
* `Eval.frame`: keys that the formula cannot reach may be added to or removed
  from the cut set.
* `Eval.congr_body`: only the bodies of the keys that the formula reaches matter.
* `AnswerLaws`: what an answer relation has to satisfy so that a search with a
  memo table computes it.
-/

namespace BoolSystem

universe u

variable {K : Type u}

/-- Formulas over the keys of a system. -/
inductive Formula (K : Type u) where
  | const (value : Bool)
  | atom (k : K)
  | any (parts : List (Formula K))
  | all (parts : List (Formula K))
  | diff (base exclude : Formula K)

namespace Formula

/-- Structural induction with the operand lists read as sets. -/
@[elab_as_elim]
theorem inductionOn
    {P : Formula K → Prop}
    (const : ∀ b, P (.const b))
    (atom : ∀ k, P (.atom k))
    (any : ∀ fs, (∀ f ∈ fs, P f) → P (.any fs))
    (all : ∀ fs, (∀ f ∈ fs, P f) → P (.all fs))
    (diff : ∀ b e, P b → P e → P (.diff b e)) :
    ∀ f, P f
  | .const b => const b
  | .atom k => atom k
  | .any fs => any fs (fun f _ => inductionOn const atom any all diff f)
  | .all fs => all fs (fun f _ => inductionOn const atom any all diff f)
  | .diff b e =>
      diff b e (inductionOn const atom any all diff b)
        (inductionOn const atom any all diff e)

/-- The key occurs in the formula. -/
inductive Refers : Formula K → K → Prop
  | atom {k : K} : Refers (.atom k) k
  | any {fs : List (Formula K)} {f : Formula K} {k : K} :
      f ∈ fs → Refers f k → Refers (.any fs) k
  | all {fs : List (Formula K)} {f : Formula K} {k : K} :
      f ∈ fs → Refers f k → Refers (.all fs) k
  | base {b e : Formula K} {k : K} : Refers b k → Refers (.diff b e) k
  | exclude {b e : Formula K} {k : K} : Refers e k → Refers (.diff b e) k

/-- The key occurs inside the second operand of some difference. -/
inductive RefersExcluded : Formula K → K → Prop
  | any {fs : List (Formula K)} {f : Formula K} {k : K} :
      f ∈ fs → RefersExcluded f k → RefersExcluded (.any fs) k
  | all {fs : List (Formula K)} {f : Formula K} {k : K} :
      f ∈ fs → RefersExcluded f k → RefersExcluded (.all fs) k
  | base {b e : Formula K} {k : K} :
      RefersExcluded b k → RefersExcluded (.diff b e) k
  | exclude {b e : Formula K} {k : K} :
      Refers e k → RefersExcluded (.diff b e) k

/-- Occurrences inside an excluded operand are occurrences. -/
theorem RefersExcluded.refers
    {f : Formula K} {k : K}
    (h : RefersExcluded f k) :
    Refers f k := by
  induction h with
  | any hf _ ih => exact Refers.any hf ih
  | all hf _ ih => exact Refers.all hf ih
  | base _ ih => exact Refers.base ih
  | exclude he => exact Refers.exclude he

end Formula

open Formula

/-- Answers of a depth-first search that cuts the keys of the set to `false`. -/
inductive Eval (body : K → Formula K) : Set K → Formula K → Bool → Prop
  | const {S : Set K} (b : Bool) : Eval body S (.const b) b
  | cut {S : Set K} {k : K} : k ∈ S → Eval body S (.atom k) false
  | enter {S : Set K} {k : K} {b : Bool} :
      k ∉ S → Eval body (insert k S) (body k) b → Eval body S (.atom k) b
  | anyTrue {S : Set K} {fs : List (Formula K)} {f : Formula K} :
      f ∈ fs → Eval body S f true → Eval body S (.any fs) true
  | anyFalse {S : Set K} {fs : List (Formula K)} :
      (∀ f ∈ fs, Eval body S f false) → Eval body S (.any fs) false
  | allTrue {S : Set K} {fs : List (Formula K)} :
      (∀ f ∈ fs, Eval body S f true) → Eval body S (.all fs) true
  | allFalse {S : Set K} {fs : List (Formula K)} {f : Formula K} :
      f ∈ fs → Eval body S f false → Eval body S (.all fs) false
  | diffTrue {S : Set K} {b e : Formula K} :
      Eval body S b true → Eval body S e false → Eval body S (.diff b e) true
  | diffBase {S : Set K} {b e : Formula K} :
      Eval body S b false → Eval body S (.diff b e) false
  | diffExclude {S : Set K} {b e : Formula K} :
      Eval body S e true → Eval body S (.diff b e) false

variable {body : K → Formula K}

namespace Eval

/-- Two searches with the same cut set give the same answer. -/
theorem deterministic
    {S : Set K} {f : Formula K} {b b' : Bool}
    (h : Eval body S f b)
    (h' : Eval body S f b') :
    b = b' := by
  induction h generalizing b' with
  | const b =>
      cases h'
      rfl
  | cut hk =>
      cases h' with
      | cut _ => rfl
      | enter hn _ => exact absurd hk hn
  | enter hn _ ih =>
      cases h' with
      | cut hk => exact absurd hk hn
      | enter _ hb => exact ih hb
  | anyTrue hf _ ih =>
      cases h' with
      | anyTrue _ _ => rfl
      | anyFalse hall => exact ih (hall _ hf)
  | anyFalse _ ih =>
      cases h' with
      | anyTrue hf ht => exact ih _ hf ht
      | anyFalse _ => rfl
  | allTrue _ ih =>
      cases h' with
      | allTrue _ => rfl
      | allFalse hf hff => exact ih _ hf hff
  | allFalse hf _ ih =>
      cases h' with
      | allTrue hall => exact ih (hall _ hf)
      | allFalse _ _ => rfl
  | diffTrue _ _ ihb ihe =>
      cases h' with
      | diffTrue _ _ => rfl
      | diffBase hb => exact ihb hb
      | diffExclude he => exact absurd (ihe he) Bool.false_ne_true
  | diffBase _ ih =>
      cases h' with
      | diffTrue hb _ => exact ih hb
      | diffBase _ => rfl
      | diffExclude _ => rfl
  | diffExclude _ ih =>
      cases h' with
      | diffTrue _ he => exact absurd (ih he) Bool.true_eq_false.mp
      | diffBase _ => rfl
      | diffExclude _ => rfl

/-- The operands of a union are read as a set. -/
theorem congr_any
    {S : Set K} {fs gs : List (Formula K)} {b : Bool}
    (h : Eval body S (.any fs) b)
    (hmem : ∀ f, f ∈ fs ↔ f ∈ gs) :
    Eval body S (.any gs) b := by
  cases h with
  | anyTrue hf h => exact anyTrue ((hmem _).mp hf) h
  | anyFalse h => exact anyFalse (fun f hf => h f ((hmem f).mpr hf))

end Eval

/-- The body of the first key mentions the second. -/
def Step (body : K → Formula K) (j k : K) : Prop :=
  Refers (body j) k

/-- The second key occurs somewhere below the first. -/
def Reaches (body : K → Formula K) : K → K → Prop :=
  Relation.ReflTransGen (Step body)

/-- Only the part of the cut set that the formula can reach matters. -/
theorem Eval.frame
    {S T : Set K} {f : Formula K} {b : Bool}
    (h : Eval body S f b)
    (hST : ∀ j k, Refers f j → Reaches body j k → (k ∈ S ↔ k ∈ T)) :
    Eval body T f b := by
  induction h generalizing T with
  | const b => exact Eval.const b
  | cut hk =>
      exact Eval.cut ((hST _ _ Refers.atom .refl).mp hk)
  | @enter S k b hn _ ih =>
      refine Eval.enter (fun hk => hn ((hST _ _ Refers.atom .refl).mpr hk)) (ih ?_)
      intro j i hj hji
      have hkj : Reaches body k i := Relation.ReflTransGen.head hj hji
      simp only [Set.mem_insert_iff, hST k i Refers.atom hkj]
  | anyTrue hf _ ih =>
      exact Eval.anyTrue hf (ih (fun j k hj => hST j k (Refers.any hf hj)))
  | anyFalse _ ih =>
      exact Eval.anyFalse
        (fun f hf => ih f hf (fun j k hj => hST j k (Refers.any hf hj)))
  | allTrue _ ih =>
      exact Eval.allTrue
        (fun f hf => ih f hf (fun j k hj => hST j k (Refers.all hf hj)))
  | allFalse hf _ ih =>
      exact Eval.allFalse hf (ih (fun j k hj => hST j k (Refers.all hf hj)))
  | diffTrue _ _ ihb ihe =>
      exact Eval.diffTrue
        (ihb (fun j k hj => hST j k (Refers.base hj)))
        (ihe (fun j k hj => hST j k (Refers.exclude hj)))
  | diffBase _ ih =>
      exact Eval.diffBase (ih (fun j k hj => hST j k (Refers.base hj)))
  | diffExclude _ ih =>
      exact Eval.diffExclude (ih (fun j k hj => hST j k (Refers.exclude hj)))

/-- Only the bodies that the formula can reach matter. -/
theorem Eval.congr_body
    {body' : K → Formula K} {S : Set K} {f : Formula K} {b : Bool}
    (h : Eval body S f b)
    (hbody : ∀ j k, Refers f j → Reaches body j k → body k = body' k) :
    Eval body' S f b := by
  induction h with
  | const b => exact Eval.const b
  | cut hk => exact Eval.cut hk
  | @enter S k b hn _ ih =>
      refine Eval.enter hn ?_
      rw [← hbody k k Refers.atom .refl]
      exact ih (fun j i hj hji => hbody k i Refers.atom (.head hj hji))
  | anyTrue hf _ ih =>
      exact Eval.anyTrue hf (ih (fun j k hj => hbody j k (Refers.any hf hj)))
  | anyFalse _ ih =>
      exact Eval.anyFalse
        (fun f hf => ih f hf (fun j k hj => hbody j k (Refers.any hf hj)))
  | allTrue _ ih =>
      exact Eval.allTrue
        (fun f hf => ih f hf (fun j k hj => hbody j k (Refers.all hf hj)))
  | allFalse hf _ ih =>
      exact Eval.allFalse hf (ih (fun j k hj => hbody j k (Refers.all hf hj)))
  | diffTrue _ _ ihb ihe =>
      exact Eval.diffTrue
        (ihb (fun j k hj => hbody j k (Refers.base hj)))
        (ihe (fun j k hj => hbody j k (Refers.exclude hj)))
  | diffBase _ ih =>
      exact Eval.diffBase (ih (fun j k hj => hbody j k (Refers.base hj)))
  | diffExclude _ ih =>
      exact Eval.diffExclude (ih (fun j k hj => hbody j k (Refers.exclude hj)))

/-- The formula is a part of the body of `t`, with the same polarity. -/
structure PartOf (body : K → Formula K) (t : K) (f : Formula K) : Prop where
  refers : ∀ k, Refers f k → Refers (body t) k
  excluded : ∀ k, RefersExcluded f k → RefersExcluded (body t) k

namespace PartOf

variable {t : K}

theorem whole : PartOf body t (body t) :=
  ⟨fun _ h => h, fun _ h => h⟩

theorem of_any
    {fs : List (Formula K)} {f : Formula K}
    (h : PartOf body t (.any fs))
    (hf : f ∈ fs) :
    PartOf body t f :=
  ⟨fun _ hk => h.refers _ (Refers.any hf hk),
    fun _ hk => h.excluded _ (RefersExcluded.any hf hk)⟩

theorem of_all
    {fs : List (Formula K)} {f : Formula K}
    (h : PartOf body t (.all fs))
    (hf : f ∈ fs) :
    PartOf body t f :=
  ⟨fun _ hk => h.refers _ (Refers.all hf hk),
    fun _ hk => h.excluded _ (RefersExcluded.all hf hk)⟩

theorem of_base
    {b e : Formula K}
    (h : PartOf body t (.diff b e)) :
    PartOf body t b :=
  ⟨fun _ hk => h.refers _ (Refers.base hk),
    fun _ hk => h.excluded _ (RefersExcluded.base hk)⟩

theorem of_exclude
    {b e : Formula K}
    (h : PartOf body t (.diff b e)) :
    PartOf body t e :=
  ⟨fun _ hk => h.refers _ (Refers.exclude hk),
    fun _ hk => h.excluded _ (RefersExcluded.exclude hk.refers)⟩

end PartOf

/--
Laws of an answer relation `R S t f b` ("while the keys of `S` are cut, the part
`f` of the body of `t` may be answered by `b`") and of a memo relation.

`Context S t` describes the cut sets that a search can have while it evaluates
the body of `t`.  The last two laws are only needed when the search keeps a memo
table.
-/
structure AnswerLaws
    (body : K → Formula K)
    (Context : Set K → K → Prop)
    (R : Set K → K → Formula K → Bool → Prop)
    (memoised : Prop)
    (Memo : K → Bool → Prop) : Prop where
  context_enter : ∀ {S t k}, Context S t → Refers (body t) k → k ∉ S →
    Context (insert k S) k
  const : ∀ {S t} b, Context S t → R S t (.const b) b
  anyTrue : ∀ {S t fs f}, Context S t → PartOf body t (.any fs) →
    f ∈ fs → R S t f true → R S t (.any fs) true
  anyFalse : ∀ {S t fs}, Context S t → PartOf body t (.any fs) →
    (∀ f ∈ fs, R S t f false) → R S t (.any fs) false
  allTrue : ∀ {S t fs}, Context S t → PartOf body t (.all fs) →
    (∀ f ∈ fs, R S t f true) → R S t (.all fs) true
  allFalse : ∀ {S t fs f}, Context S t → PartOf body t (.all fs) →
    f ∈ fs → R S t f false → R S t (.all fs) false
  diffTrue : ∀ {S t b e}, Context S t → PartOf body t (.diff b e) →
    R S t b true → R S t e false → R S t (.diff b e) true
  diffBase : ∀ {S t b e}, Context S t → PartOf body t (.diff b e) →
    R S t b false → R S t (.diff b e) false
  diffExclude : ∀ {S t b e}, Context S t → PartOf body t (.diff b e) →
    R S t e true → R S t (.diff b e) false
  cut : ∀ {S t k}, Context S t → Refers (body t) k → k ∈ S →
    R S t (.atom k) false
  enter : ∀ {S t k b}, Context S t → Refers (body t) k → k ∉ S →
    R (insert k S) k (body k) b → R S t (.atom k) b
  hit : memoised → ∀ {S t k b}, Context S t → Refers (body t) k → k ∉ S →
    Memo k b → R S t (.atom k) b
  record : memoised → ∀ {S t k b}, Context S t → Refers (body t) k → k ∉ S →
    R (insert k S) k (body k) b → Memo k b

/-- A search without memo table computes `Eval`. -/
theorem answerLaws_eval :
    AnswerLaws body (fun _ _ => True) (fun S _ f b => Eval body S f b)
      False (fun _ _ => True) where
  context_enter _ _ _ := trivial
  const b _ := Eval.const b
  anyTrue _ _ := Eval.anyTrue
  anyFalse _ _ := Eval.anyFalse
  allTrue _ _ := Eval.allTrue
  allFalse _ _ := Eval.allFalse
  diffTrue _ _ := Eval.diffTrue
  diffBase _ _ := Eval.diffBase
  diffExclude _ _ := Eval.diffExclude
  cut _ _ := Eval.cut
  enter _ _ := Eval.enter
  hit := False.elim
  record := False.elim

section NoMutualReachability

variable {roots : Set K}

/-- Below the roots, two keys that reach each other are equal. -/
def NoMutualBelow (body : K → Formula K) (roots : Set K) : Prop :=
  ∀ r ∈ roots, ∀ j k, Reaches body r j → Reaches body j k → Reaches body k j → j = k

/-- Cut sets of a search below the roots: every cut key reaches the current one. -/
def PathContext (body : K → Formula K) (roots : Set K) (S : Set K) (t : K) : Prop :=
  (∀ s ∈ S, Reaches body s t) ∧ ∃ r ∈ roots, Reaches body r t

theorem PathContext.enter
    {S : Set K} {t k : K}
    (h : PathContext body roots S t)
    (hk : Refers (body t) k) :
    PathContext body roots (insert k S) k := by
  obtain ⟨hS, r, hr, hrt⟩ := h
  refine ⟨?_, r, hr, hrt.tail hk⟩
  rintro s (rfl | hs)
  · exact .refl
  · exact (hS s hs).tail hk

/-- Without mutual reachability the ancestors of a key do not change its answer. -/
theorem eval_atom_below
    (hmut : NoMutualBelow body roots)
    {S : Set K} {t k : K} {b : Bool}
    (hctx : PathContext body roots S t)
    (hk : Refers (body t) k)
    (hkS : k ∉ S)
    (h : Eval body ∅ (.atom k) b) :
    Eval body (S ∩ {t}) (.atom k) b := by
  obtain ⟨_, r, hr, hrt⟩ := hctx
  refine h.frame ?_
  intro j i hj hji
  cases hj
  simp only [Set.mem_empty_iff_false, Set.mem_inter_iff, Set.mem_singleton_iff, false_iff]
  rintro ⟨hiS, rfl⟩
  have hik : i = k := hmut r hr i k hrt (.single hk) hji
  exact hkS (hik ▸ hiS)

/-- Closing the frame of a key gives its answer from scratch. -/
theorem eval_atom_of_own_frame
    {S : Set K} {k : K} {b : Bool}
    (h : Eval body (insert k S ∩ {k}) (body k) b) :
    Eval body ∅ (.atom k) b := by
  refine Eval.enter (by simp) ?_
  have hset : insert k S ∩ {k} = insert k (∅ : Set K) := by
    ext i
    simp only [Set.mem_inter_iff, Set.mem_insert_iff, Set.mem_singleton_iff,
      Set.mem_empty_iff_false, or_false]
    constructor
    · exact fun hi => hi.2
    · exact fun hi => ⟨Or.inl hi, hi⟩
  rwa [hset] at h

/--
Where no two keys reach each other, a memo table that stores answers from
scratch is transparent: a key only ever meets itself on the search path.
-/
theorem answerLaws_noMutual
    (hmut : NoMutualBelow body roots) :
    AnswerLaws body (PathContext body roots)
      (fun S t f b => Eval body (S ∩ {t}) f b)
      True (fun k b => Eval body ∅ (.atom k) b) where
  context_enter hctx hk _ := hctx.enter hk
  const b _ := Eval.const b
  anyTrue _ _ := Eval.anyTrue
  anyFalse _ _ := Eval.anyFalse
  allTrue _ _ := Eval.allTrue
  allFalse _ _ := Eval.allFalse
  diffTrue _ _ := Eval.diffTrue
  diffBase _ _ := Eval.diffBase
  diffExclude _ _ := Eval.diffExclude
  cut := by
    intro S t k hctx hk hkS
    obtain ⟨hS, r, hr, hrt⟩ := hctx
    have htk : t = k := hmut r hr t k hrt (.single hk) (hS k hkS)
    exact Eval.cut ⟨hkS, htk.symm⟩
  enter hctx hk hkS h := eval_atom_below hmut hctx hk hkS (eval_atom_of_own_frame h)
  hit _ _ _ _ _ hctx hk hkS h := eval_atom_below hmut hctx hk hkS h
  record _ _ _ _ _ _ _ _ h := eval_atom_of_own_frame h

end NoMutualReachability

end BoolSystem
