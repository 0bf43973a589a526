import Mathlib.Data.List.Basic

/-!
# Words without counts

Items that start with a keyword can be read back from their concatenation when each item can
be read back in front of a keyword.  Trees without operand counts are harder.

A tree is written in preorder as the list of its labels.  Some labels have a fixed number of
operands, others (the open ones) any positive number, which the word does not show.  A word
with operand counts stands for a forest iff it completes the pending trees, and the counts
can be read back from the labels alone iff the word is tight: only the first open label has
more than one operand, and if it has, the next open label comes after a point where exactly
one operand is missing.

**Results.**
* `forall₂_of_flatMap`: the items of equal streams are related one by one.
* `tight_unique`: a tight word is the only one with its labels.
* `exists_other_of_not_tight`: every other word shares its labels with a second one.
-/

universe u v

namespace KeywordStream

variable {σ : Type u} {α : Type v}

/-- The rest of the stream is empty or starts with one of the keywords. -/
def Starts (keywords : List σ) (rest : List σ) : Prop :=
  ∀ word, rest.head? = some word → word ∈ keywords

theorem starts_nil
    {keywords : List σ} :
    Starts keywords [] := by
  intro word hword
  cases hword

theorem Starts.mono
    {keywords keywords' : List σ} {rest : List σ}
    (h : Starts keywords rest)
    (hsub : keywords ⊆ keywords') :
    Starts keywords' rest :=
  fun word hword => hsub (h word hword)

/-- Plain words in front of a keyword are read back up to the keyword. -/
theorem append_inj_of_starts
    {keywords : List σ} {words words' rest rest' : List σ}
    (hplain : ∀ word ∈ words, word ∉ keywords)
    (hplain' : ∀ word ∈ words', word ∉ keywords)
    (hrest : Starts keywords rest)
    (hrest' : Starts keywords rest')
    (h : words ++ rest = words' ++ rest') :
    words = words' ∧ rest = rest' := by
  induction words generalizing words' with
  | nil =>
      cases words' with
      | nil => exact ⟨rfl, h⟩
      | cons word' words' =>
          have hword := hrest word' (by rw [List.nil_append] at h; rw [h]; rfl)
          exact absurd hword (hplain' word' (List.mem_cons_self ..))
  | cons word words ih =>
      cases words' with
      | nil =>
          have hword := hrest' word (by rw [List.nil_append] at h; rw [← h]; rfl)
          exact absurd hword (hplain word (List.mem_cons_self ..))
      | cons word' words' =>
          obtain ⟨rfl, htail⟩ := List.cons.inj h
          obtain ⟨rfl, hsame⟩ := ih (fun w hw => hplain w (List.mem_cons_of_mem _ hw))
            (fun w hw => hplain' w (List.mem_cons_of_mem _ hw)) htail
          exact ⟨rfl, hsame⟩

/-- A stream of items starts like its first item. -/
theorem starts_flatMap
    {item : α → List σ} {keyword : σ} {ends : List σ}
    (hhead : ∀ a, (item a).head? = some keyword)
    (as : List α) {rest : List σ}
    (hrest : Starts ends rest) :
    Starts (keyword :: ends) (as.flatMap item ++ rest) := by
  cases as with
  | nil => exact hrest.mono (List.subset_cons_self ..)
  | cons a as =>
      intro word hword
      rw [List.flatMap_cons, List.append_assoc, List.head?_append, hhead] at hword
      cases hword
      exact List.mem_cons_self ..

/-- The items of equal streams are related one by one. -/
theorem forall₂_of_flatMap
    {item : α → List σ} {keyword : σ} {ends : List σ} {P : α → Prop} {R : α → α → Prop}
    (hhead : ∀ a, (item a).head? = some keyword)
    (hkeyword : keyword ∉ ends)
    (hitem : ∀ a b rest rest', P a → P b → Starts (keyword :: ends) rest →
      Starts (keyword :: ends) rest' → item a ++ rest = item b ++ rest' →
      R a b ∧ rest = rest')
    {as bs : List α} {rest rest' : List σ}
    (has : ∀ a ∈ as, P a)
    (hbs : ∀ b ∈ bs, P b)
    (hrest : Starts ends rest)
    (hrest' : Starts ends rest')
    (h : as.flatMap item ++ rest = bs.flatMap item ++ rest') :
    List.Forall₂ R as bs ∧ rest = rest' := by
  induction as generalizing bs with
  | nil =>
      cases bs with
      | nil => exact ⟨List.Forall₂.nil, h⟩
      | cons b bs =>
          refine absurd (hrest keyword ?_) hkeyword
          rw [List.flatMap_nil, List.nil_append] at h
          rw [h, List.flatMap_cons, List.append_assoc, List.head?_append, hhead]
          rfl
  | cons a as ih =>
      cases bs with
      | nil =>
          refine absurd (hrest' keyword ?_) hkeyword
          rw [List.flatMap_nil, List.nil_append] at h
          rw [← h, List.flatMap_cons, List.append_assoc, List.head?_append, hhead]
          rfl
      | cons b bs =>
          rw [List.flatMap_cons, List.flatMap_cons, List.append_assoc, List.append_assoc] at h
          obtain ⟨hab, htail⟩ := hitem a b _ _ (has a (List.mem_cons_self ..))
            (hbs b (List.mem_cons_self ..)) (starts_flatMap hhead as hrest)
            (starts_flatMap hhead bs hrest') h
          obtain ⟨hall, hsame⟩ := ih (fun a' ha' => has a' (List.mem_cons_of_mem _ ha'))
            (fun b' hb' => hbs b' (List.mem_cons_of_mem _ hb')) htail
          exact ⟨List.Forall₂.cons hab hall, hsame⟩

end KeywordStream

namespace PreorderWord

variable {σ : Type u}

/-- The word completes `n` pending trees, and none is complete too early. -/
def Completes : Nat → List (σ × Nat) → Prop
  | n, [] => n = 0
  | 0, _ :: _ => False
  | n + 1, entry :: rest => Completes (n + entry.2) rest

theorem completes_cons_iff
    {n : Nat} {entry : σ × Nat} {rest : List (σ × Nat)} :
    Completes n (entry :: rest) ↔ 0 < n ∧ Completes (n - 1 + entry.2) rest := by
  cases n with
  | zero => simp [Completes]
  | succ n => simp [Completes]

section Labels

variable (isOpen : σ → Bool) (arity : σ → Nat)

/-- The operand counts fit the labels. -/
def Fits (word : List (σ × Nat)) : Prop :=
  ∀ entry ∈ word, if isOpen entry.1 then 0 < entry.2 else entry.2 = arity entry.1

/-- With `pending` trees to come, a point where exactly one is missing comes before the next
open label. -/
def barred (pending : Nat) : List (σ × Nat) → Bool
  | [] => true
  | entry :: rest =>
      decide (pending = 1) || (!isOpen entry.1 && barred (pending - 1 + entry.2) rest)

/-- The open labels have one operand each. -/
def single (word : List (σ × Nat)) : Bool :=
  word.all (fun entry => !isOpen entry.1 || decide (entry.2 = 1))

/-- Only the first open label may have more operands, and then a bar comes after it. -/
def tight (pending : Nat) : List (σ × Nat) → Bool
  | [] => true
  | entry :: rest =>
      if isOpen entry.1 then
        single isOpen rest &&
          (decide (entry.2 = 1) || barred isOpen (pending - 1 + entry.2) rest)
      else tight (pending - 1 + entry.2) rest

variable {isOpen arity}

theorem Fits.cons_iff
    {entry : σ × Nat} {rest : List (σ × Nat)} :
    Fits isOpen arity (entry :: rest) ↔
      (if isOpen entry.1 then 0 < entry.2 else entry.2 = arity entry.1) ∧
        Fits isOpen arity rest := by
  unfold Fits
  rw [List.forall_mem_cons]

/-- Words with the same labels and at least as many operands complete at most as many
trees. -/
theorem single_le
    {p p' : Nat} {word word' : List (σ × Nat)}
    (hlabels : word.map Prod.fst = word'.map Prod.fst)
    (hfits : Fits isOpen arity word)
    (hfits' : Fits isOpen arity word')
    (hsingle : single isOpen word = true)
    (h : Completes p word)
    (h' : Completes p' word') :
    p' ≤ p ∧ (p' = p → word = word') := by
  induction word generalizing word' p p' with
  | nil =>
      cases word' with
      | nil =>
          have hp : p = 0 := h
          have hp' : p' = 0 := h'
          exact ⟨by omega, fun _ => rfl⟩
      | cons entry' rest' => cases hlabels
  | cons entry rest ih =>
      cases word' with
      | nil => cases hlabels
      | cons entry' rest' =>
          obtain ⟨label, count⟩ := entry
          obtain ⟨label', count'⟩ := entry'
          obtain ⟨hlabel, hrestLabels⟩ := List.cons.inj hlabels
          dsimp only at hlabel
          subst hlabel
          obtain ⟨hpos, h⟩ := completes_cons_iff.mp h
          obtain ⟨hpos', h'⟩ := completes_cons_iff.mp h'
          obtain ⟨hcount, hfits⟩ := Fits.cons_iff.mp hfits
          obtain ⟨hcount', hfits'⟩ := Fits.cons_iff.mp hfits'
          obtain ⟨hone, hsingle⟩ := Bool.and_eq_true_iff.mp hsingle
          obtain ⟨hle, heq⟩ := ih hrestLabels hfits hfits' hsingle h h'
          have hcounts : count ≤ count' := by
            by_cases hopen : isOpen label = true
            · rw [if_pos hopen] at hcount'
              simp only [hopen, Bool.not_true, Bool.false_or, decide_eq_true_eq] at hone
              dsimp only at hcount' hone
              omega
            · rw [if_neg hopen] at hcount hcount'
              dsimp only at hcount hcount'
              omega
          dsimp only at hle heq
          refine ⟨by omega, ?_⟩
          intro hsame
          have hcountEq : count = count' := by omega
          rw [heq (by omega), hcountEq]

/-- Behind a bar the number of pending trees is determined. -/
theorem barred_unique
    {p p' : Nat} {word word' : List (σ × Nat)}
    (hlabels : word.map Prod.fst = word'.map Prod.fst)
    (hfits : Fits isOpen arity word)
    (hfits' : Fits isOpen arity word')
    (hbarred : barred isOpen p word = true)
    (h : Completes p word)
    (h' : Completes p' word')
    (hle : p' ≤ p) :
    p' = p := by
  induction word generalizing word' p p' with
  | nil =>
      have hp : p = 0 := h
      omega
  | cons entry rest ih =>
      cases word' with
      | nil => cases hlabels
      | cons entry' rest' =>
          obtain ⟨label, count⟩ := entry
          obtain ⟨label', count'⟩ := entry'
          obtain ⟨hlabel, hrestLabels⟩ := List.cons.inj hlabels
          dsimp only at hlabel
          subst hlabel
          obtain ⟨hpos, h⟩ := completes_cons_iff.mp h
          obtain ⟨hpos', h'⟩ := completes_cons_iff.mp h'
          obtain ⟨hcount, hfits⟩ := Fits.cons_iff.mp hfits
          obtain ⟨hcount', hfits'⟩ := Fits.cons_iff.mp hfits'
          rcases Bool.or_eq_true_iff.mp hbarred with hone | hrest
          · have hone := of_decide_eq_true hone
            omega
          · obtain ⟨hclosed, hrest⟩ := Bool.and_eq_true_iff.mp hrest
            simp only [Bool.not_eq_true'] at hclosed
            simp only [hclosed, Bool.false_eq_true, if_false] at hcount hcount'
            dsimp only at h h' hrest
            have := ih hrestLabels hfits hfits' hrest h h' (by omega)
            omega

/-- A tight word is the only one with its labels. -/
theorem tight_unique
    {n : Nat} {word word' : List (σ × Nat)}
    (hlabels : word.map Prod.fst = word'.map Prod.fst)
    (hfits : Fits isOpen arity word)
    (hfits' : Fits isOpen arity word')
    (htight : tight isOpen n word = true)
    (h : Completes n word)
    (h' : Completes n word') :
    word = word' := by
  induction word generalizing word' n with
  | nil =>
      cases word' with
      | nil => rfl
      | cons entry' rest' => cases hlabels
  | cons entry rest ih =>
      cases word' with
      | nil => cases hlabels
      | cons entry' rest' =>
          obtain ⟨label, count⟩ := entry
          obtain ⟨label', count'⟩ := entry'
          obtain ⟨hlabel, hrestLabels⟩ := List.cons.inj hlabels
          dsimp only at hlabel
          subst hlabel
          obtain ⟨hpos, h⟩ := completes_cons_iff.mp h
          obtain ⟨hpos', h'⟩ := completes_cons_iff.mp h'
          obtain ⟨hcount, hfits⟩ := Fits.cons_iff.mp hfits
          obtain ⟨hcount', hfits'⟩ := Fits.cons_iff.mp hfits'
          dsimp only at h h' hcount hcount'
          unfold tight at htight
          by_cases hopen : isOpen label = true
          · rw [if_pos hopen] at htight hcount hcount'
            obtain ⟨hsingle, hfirst⟩ := Bool.and_eq_true_iff.mp htight
            obtain ⟨hle, heq⟩ := single_le hrestLabels hfits hfits' hsingle h h'
            have hsame : count' = count := by
              rcases Bool.or_eq_true_iff.mp hfirst with hone | hbarred
              · have hone := of_decide_eq_true hone
                dsimp only at hone
                omega
              · have := barred_unique hrestLabels hfits hfits' hbarred h h' hle
                omega
            rw [heq (by omega), hsame]
          · rw [if_neg hopen] at htight hcount hcount'
            have hsame : count' = count := hcount'.trans hcount.symm
            rw [hsame] at h' ⊢
            rw [ih hrestLabels hfits hfits' htight h h']

/-- An operand can be taken from an open label that has several. -/
theorem exists_take
    {p : Nat} {word : List (σ × Nat)}
    (hfits : Fits isOpen arity word)
    (hsingle : single isOpen word = false)
    (h : Completes p word) :
    ∃ word', word'.map Prod.fst = word.map Prod.fst ∧ Fits isOpen arity word' ∧
      Completes (p + 1) word' := by
  induction word generalizing p with
  | nil => cases hsingle
  | cons entry rest ih =>
      obtain ⟨label, count⟩ := entry
      obtain ⟨hpos, h⟩ := completes_cons_iff.mp h
      obtain ⟨hcount, hfits⟩ := Fits.cons_iff.mp hfits
      dsimp only at h hcount
      by_cases hmany : isOpen label = true ∧ count ≠ 1
      · obtain ⟨hopen, hne⟩ := hmany
        rw [if_pos hopen] at hcount
        refine ⟨(label, count - 1) :: rest, rfl, Fits.cons_iff.mpr ⟨?_, hfits⟩,
          completes_cons_iff.mpr ⟨by omega, ?_⟩⟩
        · rw [if_pos hopen]
          dsimp only
          omega
        · dsimp only
          rw [show p + 1 - 1 + (count - 1) = p - 1 + count by omega]
          exact h
      · have hrest : single isOpen rest = false := by
          unfold single at hsingle
          rw [List.all_cons, Bool.and_eq_false_iff] at hsingle
          rcases hsingle with hhead | htail
          · exfalso
            apply hmany
            simpa using hhead
          · exact htail
        obtain ⟨word', hlabels, hfits', hword⟩ := ih hfits hrest h
        refine ⟨(label, count) :: word', congrArg (label :: ·) hlabels,
          Fits.cons_iff.mpr ⟨hcount, hfits'⟩, completes_cons_iff.mpr ⟨by omega, ?_⟩⟩
        dsimp only
        rw [show p + 1 - 1 + count = p - 1 + count + 1 by omega]
        exact hword

/-- Where no bar comes first, the next open label can take an operand more. -/
theorem exists_give
    {p : Nat} {word : List (σ × Nat)}
    (hfits : Fits isOpen arity word)
    (hbarred : barred isOpen p word = false)
    (h : Completes p word) :
    ∃ word', word'.map Prod.fst = word.map Prod.fst ∧ Fits isOpen arity word' ∧
      Completes (p - 1) word' := by
  induction word generalizing p with
  | nil => cases hbarred
  | cons entry rest ih =>
      obtain ⟨label, count⟩ := entry
      obtain ⟨hpos, h⟩ := completes_cons_iff.mp h
      obtain ⟨hcount, hfits⟩ := Fits.cons_iff.mp hfits
      dsimp only at h hcount
      obtain ⟨hone, hrest⟩ := Bool.or_eq_false_iff.mp hbarred
      have hone := of_decide_eq_false hone
      by_cases hopen : isOpen label = true
      · refine ⟨(label, count + 1) :: rest, rfl, Fits.cons_iff.mpr ⟨?_, hfits⟩,
          completes_cons_iff.mpr ⟨by omega, ?_⟩⟩
        · rw [if_pos hopen]
          exact Nat.succ_pos count
        · dsimp only
          rw [show p - 1 - 1 + (count + 1) = p - 1 + count by omega]
          exact h
      · have hrest : barred isOpen (p - 1 + count) rest = false := by
          simpa [hopen] using hrest
        obtain ⟨word', hlabels, hfits', hword⟩ := ih hfits hrest h
        refine ⟨(label, count) :: word', congrArg (label :: ·) hlabels,
          Fits.cons_iff.mpr ⟨hcount, hfits'⟩, completes_cons_iff.mpr ⟨by omega, ?_⟩⟩
        dsimp only
        rw [show p - 1 - 1 + count = p - 1 + count - 1 by omega]
        exact hword

/-- A word that is not tight shares its labels with another one. -/
theorem exists_other_of_not_tight
    {n : Nat} {word : List (σ × Nat)}
    (hfits : Fits isOpen arity word)
    (htight : tight isOpen n word = false)
    (h : Completes n word) :
    ∃ word', word' ≠ word ∧ word'.map Prod.fst = word.map Prod.fst ∧
      Fits isOpen arity word' ∧ Completes n word' := by
  induction word generalizing n with
  | nil => cases htight
  | cons entry rest ih =>
      obtain ⟨label, count⟩ := entry
      obtain ⟨hpos, h⟩ := completes_cons_iff.mp h
      obtain ⟨hcount, hfits⟩ := Fits.cons_iff.mp hfits
      dsimp only at h hcount
      unfold tight at htight
      by_cases hopen : isOpen label = true
      · rw [if_pos hopen] at htight hcount
        rcases Bool.and_eq_false_iff.mp htight with hsingle | hfirst
        · obtain ⟨word', hlabels, hfits', hword⟩ := exists_take hfits hsingle h
          refine ⟨(label, count + 1) :: word', ?_, congrArg (label :: ·) hlabels,
            Fits.cons_iff.mpr ⟨?_, hfits'⟩, completes_cons_iff.mpr ⟨hpos, hword⟩⟩
          · intro hsame
            simp at hsame
          · rw [if_pos hopen]
            exact Nat.succ_pos count
        · obtain ⟨hone, hbarred⟩ := Bool.or_eq_false_iff.mp hfirst
          have hone := of_decide_eq_false hone
          dsimp only at hone
          obtain ⟨word', hlabels, hfits', hword⟩ := exists_give hfits hbarred h
          refine ⟨(label, count - 1) :: word', ?_, congrArg (label :: ·) hlabels,
            Fits.cons_iff.mpr ⟨?_, hfits'⟩, completes_cons_iff.mpr ⟨hpos, ?_⟩⟩
          · intro hsame
            simp only [List.cons.injEq, Prod.mk.injEq, true_and] at hsame
            omega
          · rw [if_pos hopen]
            dsimp only
            omega
          · dsimp only
            rw [show n - 1 + (count - 1) = n - 1 + count - 1 by omega]
            exact hword
      · rw [if_neg hopen] at htight
        obtain ⟨word', hne, hlabels, hfits', hword⟩ := ih hfits htight h
        refine ⟨(label, count) :: word', ?_, congrArg (label :: ·) hlabels,
          Fits.cons_iff.mpr ⟨hcount, hfits'⟩, completes_cons_iff.mpr ⟨hpos, hword⟩⟩
        intro hsame
        exact hne (List.cons.inj hsame).2

end Labels

end PreorderWord
