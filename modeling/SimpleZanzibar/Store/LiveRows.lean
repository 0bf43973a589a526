import SimpleZanzibar.Store.Interner

/-!
# The liveness bitmap

While no row was deleted the live rows are an initial segment and only its length
is kept; the first deletion replaces it by a bitmap of 64-bit words.

**Results.**
* `contains_runAll_iff`: over the calls of a store the bitmap contains exactly the rows that
  were inserted and not removed since.
-/

namespace SimpleZanzibar

structure LiveRows where
  allLiveLen : Option Nat
  words : List (BitVec 64)
deriving DecidableEq

namespace LiveRows

def default : LiveRows :=
  ⟨some 0, []⟩

def full (len : Nat) : LiveRows :=
  ⟨some len, []⟩

/-- The bitmap of the initial segment of length `len`. -/
def sparseFull (len : Nat) : LiveRows :=
  let words := List.replicate ((len + 64 - 1) / 64) (BitVec.allOnes 64)
  let remainder := len % 64
  ⟨none,
    if remainder ≠ 0 then
      words.modify (words.length - 1) (fun _ => (1#64 <<< remainder) - 1#64)
    else words⟩

/-- Grows the bitmap to hold the word. -/
def resizedWords (live : LiveRows) (word : Nat) : List (BitVec 64) :=
  if live.words.length ≤ word then
    live.words ++ List.replicate (word + 1 - live.words.length) 0#64
  else live.words

/-- Sets the bit of a position. -/
def setBit (live : LiveRows) (index : Nat) : LiveRows :=
  { live with
    words := (live.resizedWords (index / 64)).modify (index / 64)
      (fun value => value ||| (1#64 <<< (index % 64))) }

/-- Clears the bit of a position. -/
def clearBit (live : LiveRows) (index : Nat) : LiveRows :=
  { live with
    words := live.words.modify (index / 64)
      (fun value => value &&& ~~~(1#64 <<< (index % 64))) }

/-- The bit of a position. -/
def testBit (live : LiveRows) (index : Nat) : Bool :=
  live.words[index / 64]?.any
    (fun value => value &&& (1#64 <<< (index % 64)) != 0#64)

def insert (live : LiveRows) (rowId : RowId) : LiveRows :=
  match live.allLiveLen with
  | some len =>
      if rowId.index = len then { live with allLiveLen := checkedAdd len 1 }
      else if rowId.index < len then live
      else (sparseFull len).setBit rowId.index
  | none => live.setBit rowId.index

def remove (live : LiveRows) (rowId : RowId) : LiveRows :=
  match live.allLiveLen with
  | some len => (sparseFull len).clearBit rowId.index
  | none => live.clearBit rowId.index

def contains (live : LiveRows) (rowId : RowId) : Bool :=
  match live.allLiveLen with
  | some len => decide (rowId.index < len)
  | none => live.testBit rowId.index

def isAllLive (live : LiveRows) : Bool :=
  live.allLiveLen.isSome

/-- Masking with one bit reads that bit. -/
theorem and_shift_ne_zero
    (value : BitVec 64) {bit : Nat}
    (hbit : bit < 64) :
    (value &&& (1#64 <<< bit) != 0#64) = value.getLsbD bit := by
  have hmask : value &&& (1#64 <<< bit) =
      if value.getLsbD bit then BitVec.twoPow 64 bit else 0#64 := by
    rw [← BitVec.twoPow_eq, BitVec.and_twoPow]
  rw [hmask]
  cases hval : value.getLsbD bit with
  | false =>
      simp
  | true =>
      simp only [if_true, bne_iff_ne]
      intro hzero
      have hget : (BitVec.twoPow 64 bit).getLsbD bit = (0#64).getLsbD bit := by rw [hzero]
      simp [hbit] at hget

theorem testBit_eq
    (live : LiveRows) (index : Nat) :
    live.testBit index =
      live.words[index / 64]?.any (fun value => value.getLsbD (index % 64)) := by
  have hlt : index % 64 < 64 := Nat.mod_lt _ (by decide)
  unfold testBit
  simp only [and_shift_ne_zero _ hlt]

/-- Two positions with the same word and bit are the same. -/
theorem index_eq_of_word_bit
    {i j : Nat}
    (hword : i / 64 = j / 64)
    (hbit : i % 64 = j % 64) :
    i = j := by
  rw [← Nat.div_add_mod i 64, hword, hbit, Nat.div_add_mod]

theorem testBit_setBit
    (live : LiveRows) (i j : Nat) :
    (live.setBit i).testBit j = (decide (j = i) || live.testBit j) := by
  have hi : i % 64 < 64 := Nat.mod_lt _ (by decide)
  have hj : j % 64 < 64 := Nat.mod_lt _ (by decide)
  rw [testBit_eq, testBit_eq]
  unfold setBit
  simp only [List.getElem?_modify]
  -- the words that a resize adds are zero
  have hresized : (live.resizedWords (i / 64))[j / 64]?.any
        (fun value => value.getLsbD (j % 64)) =
      live.words[j / 64]?.any (fun value => value.getLsbD (j % 64)) := by
    unfold resizedWords
    split
    · rcases Nat.lt_or_ge (j / 64) live.words.length with hlt | hge
      · rw [List.getElem?_append_left hlt]
      · rw [List.getElem?_append_right hge, List.getElem?_eq_none hge, List.getElem?_replicate]
        split <;> simp
    · rfl
  by_cases hword : i / 64 = j / 64
  · simp only [if_pos hword, Option.map_eq_map]
    have hpresent : ∃ value, (live.resizedWords (i / 64))[j / 64]? = some value := by
      rw [← hword]
      have hlt : i / 64 < (live.resizedWords (i / 64)).length := by
        unfold resizedWords
        split
        · simp
          omega
        · omega
      exact ⟨_, List.getElem?_eq_getElem hlt⟩
    obtain ⟨value, hvalue⟩ := hpresent
    rw [← hresized, hvalue]
    simp only [Option.map_some, Option.any_some]
    rw [BitVec.getLsbD_or, ← BitVec.twoPow_eq, BitVec.getLsbD_twoPow]
    by_cases hbit : i % 64 = j % 64
    · simp [index_eq_of_word_bit hword hbit, hj]
    · have hne : j ≠ i := by
        rintro rfl
        exact hbit rfl
      simp [hbit, hne, hi]
  · have hne : j ≠ i := by
      rintro rfl
      exact hword rfl
    simp only [if_neg hword, Option.map_eq_map, Option.map_id']
    rw [hresized]
    simp [hne]

theorem testBit_clearBit
    (live : LiveRows) (i j : Nat) :
    (live.clearBit i).testBit j = (decide (j ≠ i) && live.testBit j) := by
  have hi : i % 64 < 64 := Nat.mod_lt _ (by decide)
  have hj : j % 64 < 64 := Nat.mod_lt _ (by decide)
  rw [testBit_eq, testBit_eq]
  unfold clearBit
  simp only [List.getElem?_modify]
  by_cases hword : i / 64 = j / 64
  · simp only [if_pos hword, Option.map_eq_map]
    cases live.words[j / 64]? with
    | none =>
        simp
    | some value =>
        simp only [Option.map_some, Option.any_some]
        rw [BitVec.getLsbD_and, BitVec.getLsbD_not, ← BitVec.twoPow_eq, BitVec.getLsbD_twoPow]
        by_cases hbit : i % 64 = j % 64
        · simp [index_eq_of_word_bit hword hbit, hj]
        · have hne : j ≠ i := by
            rintro rfl
            exact hbit rfl
          simp [hbit, hne, hj]
  · have hne : j ≠ i := by
      rintro rfl
      exact hword rfl
    simp only [if_neg hword, Option.map_eq_map, Option.map_id']
    simp [hne]

/-- The mask of the lowest bits. -/
theorem getLsbD_shift_sub_one
    {count : Nat}
    (hcount : count < 64)
    (bit : Nat) :
    ((1#64 <<< count) - 1#64).getLsbD bit = decide (bit < count) := by
  have hpow : 2 ^ count < 2 ^ 64 := Nat.pow_lt_pow_right (by decide) hcount
  have hpos : 0 < 2 ^ count := Nat.two_pow_pos count
  have hnat : ((1#64 <<< count) - 1#64).toNat = 2 ^ count - 1 := by
    rw [← BitVec.twoPow_eq, BitVec.toNat_sub, BitVec.toNat_twoPow]
    simp
    omega
  unfold BitVec.getLsbD
  rw [hnat, Nat.testBit_two_pow_sub_one]

theorem testBit_sparseFull
    (len index : Nat) :
    (sparseFull len).testBit index = decide (index < len) := by
  have hbit : index % 64 < 64 := Nat.mod_lt _ (by decide)
  have hdiv := Nat.div_add_mod index 64
  have hlen := Nat.div_add_mod len 64
  have hrem : len % 64 < 64 := Nat.mod_lt _ (by decide)
  rw [testBit_eq]
  unfold sparseFull
  simp only
  by_cases hzero : len % 64 = 0
  · rw [if_neg (by omega), List.getElem?_replicate]
    by_cases hlt : index < len
    · rw [if_pos (by omega), Option.any_some, BitVec.getLsbD_allOnes, decide_eq_decide]
      exact ⟨fun _ => hlt, fun _ => hbit⟩
    · rw [if_neg (by omega)]
      simp [hlt]
  · rw [if_pos hzero, List.getElem?_modify, List.getElem?_replicate, List.length_replicate]
    have hlast : (len + 64 - 1) / 64 - 1 = len / 64 := by omega
    rw [hlast]
    rcases Nat.lt_trichotomy (index / 64) (len / 64) with hlt | heq | hgt
    · have hin : index < len := by omega
      simp only [if_neg (Nat.ne_of_gt hlt), Option.map_eq_map, Option.map_id']
      rw [if_pos (by omega), Option.any_some, BitVec.getLsbD_allOnes, decide_eq_decide]
      exact ⟨fun _ => hin, fun _ => hbit⟩
    · simp only [if_pos heq.symm, Option.map_eq_map]
      rw [if_pos (by omega)]
      simp only [Option.map_some, Option.any_some]
      rw [getLsbD_shift_sub_one hrem, decide_eq_decide]
      omega
    · have hout : ¬ index < len := by omega
      rw [if_neg (by omega)]
      simp [hout]

@[simp] theorem contains_default
    (rowId : RowId) :
    default.contains rowId = false := by
  simp [default, contains]

@[simp] theorem contains_full
    (len : Nat) (rowId : RowId) :
    (full len).contains rowId = decide (rowId.index < len) :=
  rfl

/-- Inserting a row makes that row live and no other. -/
theorem contains_insert
    (live : LiveRows) (a b : RowId) :
    (live.insert a).contains b = (decide (b = a) || live.contains b) := by
  have hsame : b = a ↔ b.index = a.index :=
    ⟨fun h => h ▸ rfl, RowId.index_injective⟩
  unfold insert contains
  cases hall : live.allLiveLen with
  | none =>
      have hnone : (live.setBit a.index).allLiveLen = none := hall
      simp only [hnone]
      rw [testBit_setBit, decide_eq_decide.mpr hsame]
  | some len =>
      simp only
      have ha : a.index + 1 ≤ usizeMax := by
        have hlt := a.value.lt
        have hmax : usizeMax = 2 ^ 64 - 1 := rfl
        unfold RowId.index NonZeroU32.index
        omega
      by_cases heq : a.index = len
      · subst heq
        simp only [if_true, checkedAdd, if_pos ha]
        rw [← Bool.decide_or, decide_eq_decide, hsame]
        omega
      · rw [if_neg heq]
        by_cases hlt : a.index < len
        · rw [if_pos hlt, hall, ← Bool.decide_or, decide_eq_decide, hsame]
          omega
        · have hnone : ((sparseFull len).setBit a.index).allLiveLen = none := rfl
          rw [if_neg hlt]
          simp only [hnone]
          rw [testBit_setBit, testBit_sparseFull, decide_eq_decide.mpr hsame]

/-- Inserting the next row of an all-live segment extends the segment. -/
theorem allLiveLen_insert
    {live : LiveRows} {rowId : RowId} {count len : Nat}
    (hcount : ∀ len, live.allLiveLen = some len → len = count)
    (hnext : rowId.index = count)
    (h : (live.insert rowId).allLiveLen = some len) :
    len = count + 1 := by
  unfold insert at h
  cases hall : live.allLiveLen with
  | none =>
      rw [hall] at h
      have hnone : (live.setBit rowId.index).allLiveLen = none := hall
      simp only [hnone] at h
      cases h
  | some old =>
      rw [hall] at h
      have hold := hcount old hall
      simp only [hnext, hold, if_true, checkedAdd] at h
      split at h
      · exact (Option.some.inj h).symm
      · cases h

/-- Removing a row makes that row dead and no other. -/
theorem contains_remove
    (live : LiveRows) (a b : RowId) :
    (live.remove a).contains b = (decide (b ≠ a) && live.contains b) := by
  have hsame : b ≠ a ↔ b.index ≠ a.index :=
    ⟨fun h h' => h (RowId.index_injective h'), fun h h' => h (h' ▸ rfl)⟩
  unfold remove contains
  cases hall : live.allLiveLen with
  | none =>
      have hnone : (live.clearBit a.index).allLiveLen = none := hall
      simp only [hnone]
      rw [testBit_clearBit, decide_eq_decide.mpr hsame]
  | some len =>
      have hnone : ((sparseFull len).clearBit a.index).allLiveLen = none := rfl
      simp only [hnone]
      rw [testBit_clearBit, testBit_sparseFull, decide_eq_decide.mpr hsame]

@[simp] theorem allLiveLen_remove
    (live : LiveRows) (rowId : RowId) :
    (live.remove rowId).allLiveLen = none := by
  unfold remove
  cases hall : live.allLiveLen with
  | none =>
      exact hall
  | some len =>
      rfl

/-! ## Runs of calls -/

/-- What the store calls on the bitmap. -/
inductive Call where
  | insert (rowId : RowId)
  | remove (rowId : RowId)
deriving DecidableEq

def Call.run (live : LiveRows) : Call → LiveRows
  | .insert rowId => live.insert rowId
  | .remove rowId => live.remove rowId

def runAll (live : LiveRows) (calls : List Call) : LiveRows :=
  calls.foldl Call.run live

/-- Calls as the store issues them when `used` row ids are taken: an insert takes the next
row id, a removal concerns an earlier one. -/
def Issued : Nat → List Call → Prop
  | _, [] => True
  | used, .insert rowId :: rest => rowId.index = used ∧ Issued (used + 1) rest
  | used, .remove rowId :: rest => rowId.index < used ∧ Issued used rest

/-- The number of row ids that are taken after the calls. -/
def usedAfter : Nat → List Call → Nat
  | used, [] => used
  | used, .insert _ :: rest => usedAfter (used + 1) rest
  | used, .remove _ :: rest => usedAfter used rest

/-- The row was among the first `n` or was inserted, and was not removed since. -/
def LiveAfter (n : Nat) (calls : List Call) (rowId : RowId) : Prop :=
  (rowId.index < n ∧ .remove rowId ∉ calls) ∨
    ∃ before after, calls = before ++ .insert rowId :: after ∧ .remove rowId ∉ after

theorem liveAfter_nil_iff
    {n : Nat} {rowId : RowId} :
    LiveAfter n [] rowId ↔ rowId.index < n := by
  simp [LiveAfter]

/-- An inserted row is live, and the others are as before. -/
theorem liveAfter_insert_iff
    {n : Nat} {calls : List Call} {a b : RowId} :
    LiveAfter n (calls ++ [.insert a]) b ↔ b = a ∨ LiveAfter n calls b := by
  constructor
  · rintro (⟨hlt, hnot⟩ | ⟨before, after, heq, hnot⟩)
    · exact Or.inr (Or.inl ⟨hlt, fun hmem => hnot (List.mem_append_left _ hmem)⟩)
    · rcases List.eq_nil_or_concat after with rfl | ⟨init, last, rfl⟩
      · obtain ⟨_, hcall⟩ := List.append_inj' heq rfl
        cases hcall
        exact Or.inl rfl
      · rw [List.concat_eq_append, ← List.cons_append, ← List.append_assoc] at heq
        obtain ⟨hcalls, _⟩ := List.append_inj' heq rfl
        rw [List.concat_eq_append] at hnot
        exact Or.inr (Or.inr ⟨before, init, hcalls, fun hmem =>
          hnot (List.mem_append_left _ hmem)⟩)
  · rintro (rfl | ⟨hlt, hnot⟩ | ⟨before, after, rfl, hnot⟩)
    · exact Or.inr ⟨calls, [], rfl, List.not_mem_nil⟩
    · exact Or.inl ⟨hlt, by simpa using hnot⟩
    · exact Or.inr ⟨before, after ++ [.insert a], by simp, by simpa using hnot⟩

/-- A removed row is dead, and the others are as before. -/
theorem liveAfter_remove_iff
    {n : Nat} {calls : List Call} {a b : RowId} :
    LiveAfter n (calls ++ [.remove a]) b ↔ b ≠ a ∧ LiveAfter n calls b := by
  constructor
  · rintro (⟨hlt, hnot⟩ | ⟨before, after, heq, hnot⟩)
    · have hparts : .remove b ∉ calls ∧ b ≠ a := by simpa [not_or] using hnot
      exact ⟨hparts.2, Or.inl ⟨hlt, hparts.1⟩⟩
    · rcases List.eq_nil_or_concat after with rfl | ⟨init, last, rfl⟩
      · obtain ⟨_, hcall⟩ := List.append_inj' heq rfl
        cases hcall
      · rw [List.concat_eq_append, ← List.cons_append, ← List.append_assoc] at heq
        obtain ⟨hcalls, hlast⟩ := List.append_inj' heq rfl
        cases hlast
        have hparts : .remove b ∉ init ∧ b ≠ a := by simpa [not_or] using hnot
        exact ⟨hparts.2, Or.inr ⟨before, init, hcalls, hparts.1⟩⟩
  · rintro ⟨hne, ⟨hlt, hnot⟩ | ⟨before, after, rfl, hnot⟩⟩
    · exact Or.inl ⟨hlt, by simp [hnot, hne]⟩
    · exact Or.inr ⟨before, after ++ [.remove a], by simp, by simp [hnot, hne]⟩

/-- After any calls the bitmap contains the live rows. -/
theorem contains_runAll_full
    (n : Nat) (calls : List Call) (rowId : RowId) :
    ((full n).runAll calls).contains rowId = true ↔ LiveAfter n calls rowId := by
  induction calls using List.reverseRecOn with
  | nil =>
      rw [liveAfter_nil_iff]
      exact decide_eq_true_iff
  | append_singleton calls call ih =>
      have hrun : (full n).runAll (calls ++ [call]) = call.run ((full n).runAll calls) := by
        unfold runAll
        rw [List.foldl_append]
        rfl
      rw [hrun]
      cases call with
      | insert a =>
          rw [Call.run, contains_insert, liveAfter_insert_iff, ← ih]
          simp
      | remove a =>
          rw [Call.run, contains_remove, liveAfter_remove_iff, ← ih]
          simp

/-- While the bitmap is a bare length, that is the number of row ids that are taken. -/
theorem allLiveLen_runAll
    {live : LiveRows} {used len : Nat} {calls : List Call}
    (hissued : Issued used calls)
    (hlen : ∀ len, live.allLiveLen = some len → len = used)
    (h : (live.runAll calls).allLiveLen = some len) :
    len = usedAfter used calls := by
  induction calls generalizing live used with
  | nil =>
      exact hlen len h
  | cons call rest ih =>
      cases call with
      | insert rowId =>
          exact ih hissued.2 (fun len hsome => allLiveLen_insert hlen hissued.1 hsome) h
      | remove rowId =>
          refine ih hissued.2 (fun len hsome => ?_) h
          rw [Call.run, allLiveLen_remove] at hsome
          cases hsome

/-- From the empty bitmap or an initial segment, after the calls that a store issues, the
bitmap contains exactly the live rows, and it takes all rows for live only when no row that
was issued is dead. -/
theorem contains_runAll_iff
    {start : LiveRows} {n : Nat} {calls : List Call}
    (hstart : start = default ∧ n = 0 ∨ start = full n)
    (hissued : Issued n calls) :
    (∀ rowId, (start.runAll calls).contains rowId = true ↔ LiveAfter n calls rowId) ∧
      ((start.runAll calls).isAllLive = true →
        ∀ rowId, rowId.index < usedAfter n calls → LiveAfter n calls rowId) := by
  have hfull : start = full n := by
    rcases hstart with ⟨rfl, rfl⟩ | rfl
    · rfl
    · rfl
  subst hfull
  refine ⟨contains_runAll_full n calls, ?_⟩
  intro hall rowId hrow
  obtain ⟨len, hlen⟩ := Option.isSome_iff_exists.mp hall
  have hused : len = usedAfter n calls :=
    allLiveLen_runAll hissued (fun len hsome => (Option.some.inj hsome).symm) hlen
  rw [← contains_runAll_full]
  unfold contains
  rw [hlen]
  exact decide_eq_true (hused ▸ hrow)

/-- The last row of a full word is removed and the next row starts a new word. -/
theorem contains_runAll_iff_boundary :
    let last : RowId := ⟨⟨64, by decide, by decide⟩⟩
    let next : RowId := ⟨⟨65, by decide, by decide⟩⟩
    (((full 64).runAll [.remove last, .insert next]).contains last = true ↔
        LiveAfter 64 [.remove last, .insert next] last) ∧
      ((full 64).runAll [.remove last, .insert next]).contains last = false ∧
      ((full 64).runAll [.remove last, .insert next]).contains next = true := by
  intro last next
  have hissued : Issued 64 [.remove last, .insert next] := ⟨by decide, by decide, trivial⟩
  exact ⟨(contains_runAll_iff (Or.inr rfl) hissued).1 last, by decide, by decide⟩

end LiveRows

end SimpleZanzibar
