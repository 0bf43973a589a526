import Mathlib.Data.List.AList
import Mathlib.Data.List.TakeWhile
import SimpleZanzibar.Lib.Action
import SimpleZanzibar.Store.Filter

/-!
# Symbols and the identifier interner

Rows refer to strings by symbol.  The interner maps a string to its symbol in one
of two ways: through hash tables with collision lists, or, after a trusted fast
load, through an array of symbols sorted by hash.  The hash functions are
parameters: nothing below depends on how they distribute.

The byte pool of the source is kept as the list of the strings it holds together
with its total length, on which the capacity checks depend.
-/

namespace SimpleZanzibar

/-- `NonZeroU32`. -/
structure NonZeroU32 where
  get : Nat
  pos : 0 < get
  lt : get < 2 ^ 32

namespace NonZeroU32

@[ext] theorem ext
    {a b : NonZeroU32}
    (h : a.get = b.get) :
    a = b := by
  cases a
  cases b
  cases h
  rfl

theorem get_inj
    {a b : NonZeroU32} :
    a.get = b.get ↔ a = b :=
  ⟨ext, congrArg get⟩

instance : DecidableEq NonZeroU32 :=
  fun a b => decidable_of_iff (a.get = b.get) get_inj

/-- The number after `index`, when it fits. -/
def ofIndex? (index : Nat) : Option NonZeroU32 :=
  if h : index + 1 < 2 ^ 32 then some ⟨index + 1, Nat.succ_pos _, h⟩ else none

/-- Position that a one-based number denotes. -/
def index (a : NonZeroU32) : Nat :=
  a.get - 1

theorem ofIndex?_eq_some_iff
    {index : Nat} {a : NonZeroU32} :
    ofIndex? index = some a ↔ a.index = index := by
  have hpos := a.pos
  have hlt := a.lt
  unfold ofIndex? NonZeroU32.index
  split
  · rw [Option.some.injEq]
    constructor
    · rintro rfl
      rfl
    · intro h
      apply ext
      show index + 1 = a.get
      omega
  · constructor
    · intro h
      cases h
    · intro h
      omega

theorem index_injective
    {a b : NonZeroU32}
    (h : a.index = b.index) :
    a = b := by
  have ha := ofIndex?_eq_some_iff.mpr (rfl : a.index = a.index)
  rw [h, ofIndex?_eq_some_iff.mpr rfl] at ha
  exact (Option.some.inj ha).symm

end NonZeroU32

/-- One-based number of an interned string. -/
structure SymbolId where
  value : NonZeroU32
deriving DecidableEq

/-- One-based number of a row. -/
structure RowId where
  value : NonZeroU32
deriving DecidableEq

namespace SymbolId

def fromIndex (index : Nat) : Except StoreError SymbolId :=
  match NonZeroU32.ofIndex? index with
  | some value => .ok ⟨value⟩
  | none => .error (.capacityExceeded "identifier interner")

def index (id : SymbolId) : Nat :=
  id.value.index

theorem fromIndex_ok_iff
    {index : Nat} {id : SymbolId} :
    fromIndex index = .ok id ↔ id.index = index := by
  unfold fromIndex SymbolId.index
  rw [← NonZeroU32.ofIndex?_eq_some_iff]
  cases NonZeroU32.ofIndex? index with
  | none =>
      simp
  | some value =>
      cases id
      simp

theorem index_injective
    {a b : SymbolId}
    (h : a.index = b.index) :
    a = b := by
  cases a
  cases b
  cases NonZeroU32.index_injective h
  rfl

end SymbolId

namespace RowId

def fromLen (len : Nat) : Except StoreError RowId :=
  match NonZeroU32.ofIndex? len with
  | some value => .ok ⟨value⟩
  | none => .error (.capacityExceeded "relationship rows")

def index (id : RowId) : Nat :=
  id.value.index

theorem fromLen_ok_iff
    {len : Nat} {id : RowId} :
    fromLen len = .ok id ↔ id.index = len := by
  unfold fromLen RowId.index
  rw [← NonZeroU32.ofIndex?_eq_some_iff]
  cases NonZeroU32.ofIndex? len with
  | none =>
      simp
  | some value =>
      cases id
      simp

theorem index_injective
    {a b : RowId}
    (h : a.index = b.index) :
    a = b := by
  cases a
  cases b
  cases NonZeroU32.index_injective h
  rfl

end RowId

/-- The interned fields of a row, by which rows are compared and hashed. -/
structure RowIdentity where
  resourceType : SymbolId
  resourceId : SymbolId
  relation : SymbolId
  subjectType : SymbolId
  subjectId : SymbolId
  subjectRelation : Option SymbolId
deriving DecidableEq

/-- The two uses of the standard hasher. -/
class StoreHasher where
  hashValue : String → UInt64
  identityHash : RowIdentity → UInt64

export StoreHasher (hashValue identityHash)

def fnvStep (hash : UInt64) (word : Nat) : UInt64 :=
  (hash ^^^ UInt64.ofNat word) * 1099511628211

/-- FNV-1a over the bytes of a string and over the numbers of a row: a hasher to run
the store with. -/
@[reducible] def fnvHasher : StoreHasher where
  hashValue value :=
    (stringBytes value).foldl (fun hash byte => fnvStep hash byte.toNat) 14695981039346656037
  identityHash row :=
    [row.resourceType.value.get, row.resourceId.value.get, row.relation.value.get,
      row.subjectType.value.get, row.subjectId.value.get,
      (row.subjectRelation.map (·.value.get)).getD 0].foldl fnvStep 14695981039346656037

/-- A hasher under which everything collides. -/
@[reducible] def constantHasher : StoreHasher where
  hashValue _ := 0
  identityHash _ := 0

def u32Max : Nat := 2 ^ 32 - 1

structure IdentifierInterner where
  byteLen : Nat
  entries : List String
  idsByHash : AList (fun _ : UInt64 => SymbolId)
  hashCollisions : AList (fun _ : UInt64 => List SymbolId)
  hashesById : List UInt64
  sortedLookup : List SymbolId

namespace IdentifierInterner

def default : IdentifierInterner :=
  ⟨0, [], ∅, ∅, [], []⟩

/-- The string of a symbol. -/
def resolve (interner : IdentifierInterner) (id : SymbolId) : Except StoreError String :=
  match interner.entries[id.index]? with
  | some value => .ok value
  | none => .error (.internalInvariant "interned identifier id is out of bounds")

def len (interner : IdentifierInterner) : Nat :=
  interner.entries.length

def symbolHash (interner : IdentifierInterner) (id : SymbolId) : Option UInt64 :=
  interner.hashesById[id.index]?

/-- The stored string of the symbol is `value`. -/
def stores (interner : IdentifierInterner) (value : String) (id : SymbolId) : Bool :=
  decide (interner.resolve id = .ok value)

section Hashed

variable [StoreHasher]

/-- The symbols with the hash of `value`, in the sorted array. -/
def sortedCandidates (interner : IdentifierInterner) (value : String) : List SymbolId :=
  (interner.sortedLookup.dropWhile (fun id =>
    (interner.symbolHash id).any (· < hashValue value))).takeWhile (fun id =>
      interner.symbolHash id == some (hashValue value))

def lookup (interner : IdentifierInterner) (value : String) : Option SymbolId :=
  if interner.sortedLookup.isEmpty then
    match (interner.idsByHash.lookup (hashValue value)).filter (interner.stores value) with
    | some id => some id
    | none =>
        (interner.hashCollisions.lookup (hashValue value)).bind
          (fun ids => ids.find? (interner.stores value))
  else
    (interner.sortedCandidates value).find? (interner.stores value)

/-- Appends to the collision list of a hash. -/
def pushCollision
    (interner : IdentifierInterner) (hash : UInt64) (id : SymbolId) : IdentifierInterner :=
  { interner with
    hashCollisions := interner.hashCollisions.insert hash
      ((interner.hashCollisions.lookup hash).getD [] ++ [id]) }

/-- The candidate comes before the new symbol in the order by hash and symbol. -/
def precedes
    (hashesById : List UInt64) (hash : UInt64) (id candidate : SymbolId) : Bool :=
  match hashesById[candidate.index]? with
  | some candidateHash =>
      decide (candidateHash < hash ∨
        candidateHash = hash ∧ candidate.value.get < id.value.get)
  | none => false

/-- Enters a new symbol into the sorted array. -/
def insertSorted
    (interner : IdentifierInterner) (hash : UInt64) (id : SymbolId) : IdentifierInterner :=
  let hashesById := interner.hashesById ++ [hash]
  { interner with
    hashesById := hashesById
    sortedLookup :=
      interner.sortedLookup.takeWhile (precedes hashesById hash id) ++
        id :: interner.sortedLookup.dropWhile (precedes hashesById hash id) }

/-- Makes a new symbol findable by its hash; returns the symbol that already has
the string, if the primary table holds it. -/
def register (value : String) (hash : UInt64) (id : SymbolId) :
    Action IdentifierInterner StoreError (Option SymbolId) := do
  let interner ← Action.get
  if interner.sortedLookup.isEmpty then
    match interner.idsByHash.lookup hash with
    | some existing =>
        if interner.stores value existing then
          return some existing
        Action.set (interner.pushCollision hash id)
    | none =>
        Action.set { interner with idsByHash := interner.idsByHash.insert hash id }
  else
    Action.set (interner.insertSorted hash id)
  return none

/-- Appends the string to the pool. -/
def push (value : String) : Action IdentifierInterner StoreError Unit := do
  let interner ← Action.get
  let length := (stringBytes value).length
  if u32Max < interner.byteLen then
    Action.throw (.capacityExceeded "identifier interner bytes")
  else if u32Max < length then
    Action.throw (.capacityExceeded "identifier interner string")
  else if u32Max < interner.byteLen + length then
    Action.throw (.capacityExceeded "identifier interner bytes")
  else
    Action.set { interner with
      byteLen := interner.byteLen + length
      entries := interner.entries ++ [value] }

def intern (value : String) : Action IdentifierInterner StoreError SymbolId := do
  let interner ← Action.get
  match interner.lookup value with
  | some id => return id
  | none =>
      let id ← Action.lift (SymbolId.fromIndex interner.entries.length)
      match ← register value (hashValue value) id with
      | some existing => return existing
      | none =>
          push value
          return id

/-- The symbol is entered where a lookup of the string searches. -/
def Registered (interner : IdentifierInterner) (value : String) (id : SymbolId) : Prop :=
  if interner.sortedLookup = [] then
    interner.idsByHash.lookup (hashValue value) = some id ∨
      ∃ ids, interner.hashCollisions.lookup (hashValue value) = some ids ∧ id ∈ ids
  else
    id ∈ interner.sortedLookup ∧ interner.symbolHash id = some (hashValue value)

/-- Distinct strings, all of them registered, and a sorted lookup array. -/
structure Inv (interner : IdentifierInterner) : Prop where
  nodup : interner.entries.Nodup
  registered :
    ∀ id value, interner.resolve id = .ok value → interner.Registered value id
  hashes :
    interner.sortedLookup ≠ [] → interner.hashesById.length = interner.entries.length
  bounded :
    ∀ id ∈ interner.sortedLookup, id.index < interner.entries.length
  sorted :
    interner.sortedLookup.Pairwise
      (fun a b => ∀ ha hb, interner.symbolHash a = some ha →
        interner.symbolHash b = some hb → ha ≤ hb)

end Hashed

theorem resolve_eq_ok_iff
    {interner : IdentifierInterner} {id : SymbolId} {value : String} :
    interner.resolve id = .ok value ↔ interner.entries[id.index]? = some value := by
  unfold resolve
  cases interner.entries[id.index]? with
  | none =>
      simp
  | some stored =>
      simp

@[simp] theorem stores_iff
    {interner : IdentifierInterner} {id : SymbolId} {value : String} :
    interner.stores value id = true ↔ interner.resolve id = .ok value := by
  unfold stores
  exact decide_eq_true_iff

theorem resolve_lt
    {interner : IdentifierInterner} {id : SymbolId} {value : String}
    (h : interner.resolve id = .ok value) :
    id.index < interner.entries.length := by
  obtain ⟨hlt, _⟩ := List.getElem?_eq_some_iff.mp (resolve_eq_ok_iff.mp h)
  exact hlt

/-- In an array sorted by hash the scan meets every symbol with the hash. -/
theorem mem_scan_of_sorted
    {key : SymbolId → Option UInt64} {hash : UInt64} {id : SymbolId}
    {ids : List SymbolId}
    (hsorted : ids.Pairwise (fun a b => ∀ ha hb, key a = some ha → key b = some hb → ha ≤ hb))
    (hkeys : ∀ a ∈ ids, (key a).isSome)
    (hmem : id ∈ ids)
    (hid : key id = some hash) :
    id ∈ (ids.dropWhile (fun a => (key a).any (· < hash))).takeWhile
      (fun a => key a == some hash) := by
  induction ids with
  | nil =>
      cases hmem
  | cons head rest ih =>
      obtain ⟨hhead, hrest⟩ := List.pairwise_cons.mp hsorted
      obtain ⟨headHash, hk⟩ := Option.isSome_iff_exists.mp (hkeys head List.mem_cons_self)
      have hkeysRest : ∀ a ∈ rest, (key a).isSome := fun a ha =>
        hkeys a (List.mem_cons_of_mem _ ha)
      by_cases hlt : headHash < hash
      · have hne : id ≠ head := by
          rintro rfl
          rw [hid] at hk
          cases hk
          exact UInt64.lt_irrefl _ hlt
        rw [List.dropWhile_cons, if_pos (by simp [hk, hlt])]
        exact ih hrest hkeysRest ((List.mem_cons.mp hmem).resolve_left hne)
      · rw [List.dropWhile_cons, if_neg (by simp [hk, hlt])]
        have hle : headHash ≤ hash := by
          rcases List.mem_cons.mp hmem with rfl | hmem
          · rw [hid] at hk
            cases hk
            exact UInt64.le_refl _
          · exact hhead id hmem _ _ hk hid
        have heq : headHash = hash := UInt64.le_antisymm hle (UInt64.not_lt.mp hlt)
        subst heq
        rw [List.takeWhile_cons, if_pos (by simp [hk])]
        rcases List.mem_cons.mp hmem with rfl | hmem
        · exact List.mem_cons_self
        · refine List.mem_cons_of_mem _ ?_
          have hscan := ih hrest hkeysRest hmem
          have hdrop :
              rest.dropWhile (fun a => (key a).any (· < headHash)) = rest := by
            cases rest with
            | nil =>
                rfl
            | cons next others =>
                obtain ⟨nextHash, hn⟩ :=
                  Option.isSome_iff_exists.mp (hkeysRest next List.mem_cons_self)
                have hge := hhead next List.mem_cons_self _ _ hk hn
                rw [List.dropWhile_cons, if_neg (by simp [hn, UInt64.not_lt.mpr hge])]
          rwa [hdrop] at hscan

section Lookup

variable [StoreHasher]

/-- What a lookup returns resolves to the string, in every state. -/
theorem resolve_of_lookup
    {interner : IdentifierInterner} {value : String} {id : SymbolId}
    (h : interner.lookup value = some id) :
    interner.resolve id = .ok value := by
  unfold lookup at h
  split at h
  · split at h
    · next id' hprimary =>
        cases h
        obtain ⟨_, hstores⟩ := Option.filter_eq_some_iff.mp hprimary
        exact stores_iff.mp hstores
    · obtain ⟨ids, _, hfind⟩ := Option.bind_eq_some_iff.mp h
      exact stores_iff.mp (List.find?_some hfind)
  · exact stores_iff.mp (List.find?_some h)

/-- A string has at most one symbol. -/
theorem lookup_injective
    {interner : IdentifierInterner} {a b : String} {id : SymbolId}
    (ha : interner.lookup a = some id)
    (hb : interner.lookup b = some id) :
    a = b := by
  have h := resolve_of_lookup ha
  rw [resolve_of_lookup hb] at h
  exact (Except.ok.inj h).symm

theorem Inv.resolve_injective
    {interner : IdentifierInterner}
    (hinv : interner.Inv)
    {a b : SymbolId} {value : String}
    (ha : interner.resolve a = .ok value)
    (hb : interner.resolve b = .ok value) :
    a = b := by
  apply SymbolId.index_injective
  obtain ⟨hlt, ha⟩ := List.getElem?_eq_some_iff.mp (resolve_eq_ok_iff.mp ha)
  obtain ⟨hlt', hb⟩ := List.getElem?_eq_some_iff.mp (resolve_eq_ok_iff.mp hb)
  exact (List.Nodup.getElem_inj_iff hinv.nodup).mp (ha.trans hb.symm)

theorem Inv.symbolHash_isSome
    {interner : IdentifierInterner}
    (hinv : interner.Inv)
    {id : SymbolId}
    (hid : id ∈ interner.sortedLookup) :
    (interner.symbolHash id).isSome := by
  have hne : interner.sortedLookup ≠ [] := List.ne_nil_of_mem hid
  have hlt := hinv.bounded id hid
  rw [← hinv.hashes hne] at hlt
  unfold symbolHash
  rw [List.getElem?_eq_getElem hlt]
  rfl

/-- A registered symbol is found. -/
theorem lookup_isSome_of_registered
    {interner : IdentifierInterner}
    (hinv : interner.Inv)
    {id : SymbolId} {value : String}
    (hresolve : interner.resolve id = .ok value) :
    ∃ id', interner.lookup value = some id' := by
  have hreg := hinv.registered id value hresolve
  have hstores : interner.stores value id = true := stores_iff.mpr hresolve
  unfold Registered at hreg
  unfold lookup
  by_cases hempty : interner.sortedLookup = []
  · rw [if_pos hempty] at hreg
    rw [if_pos (by simp [hempty])]
    split
    · exact ⟨_, rfl⟩
    · next hnone =>
        rcases hreg with hprimary | ⟨ids, hids, hmem⟩
        · rw [hprimary, Option.filter_some, if_pos hstores] at hnone
          cases hnone
        · rw [hids]
          exact Option.isSome_iff_exists.mp (List.find?_isSome.mpr ⟨id, hmem, hstores⟩)
  · rw [if_neg hempty] at hreg
    rw [if_neg (by simp [hempty])]
    have hscan := mem_scan_of_sorted hinv.sorted
      (fun a ha => hinv.symbolHash_isSome ha) hreg.1 hreg.2
    exact Option.isSome_iff_exists.mp (List.find?_isSome.mpr ⟨id, hscan, hstores⟩)

/-- Lookup and resolution are inverse to each other. -/
theorem Inv.lookup_eq_some_iff
    {interner : IdentifierInterner}
    (hinv : interner.Inv)
    {value : String} {id : SymbolId} :
    interner.lookup value = some id ↔ interner.resolve id = .ok value := by
  constructor
  · exact resolve_of_lookup
  · intro hresolve
    obtain ⟨id', hid'⟩ := lookup_isSome_of_registered hinv hresolve
    rw [hid', hinv.resolve_injective hresolve (resolve_of_lookup hid')]

theorem Inv.not_mem_of_lookup_none
    {interner : IdentifierInterner}
    (hinv : interner.Inv)
    {value : String}
    (hnone : interner.lookup value = none)
    (id : SymbolId) :
    interner.resolve id ≠ .ok value := by
  intro h
  rw [hinv.lookup_eq_some_iff.mpr h] at hnone
  cases hnone

end Lookup

/-- The state after a fresh string was registered and appended. -/
def extended (interner : IdentifierInterner) (value : String) : IdentifierInterner :=
  { interner with
    byteLen := interner.byteLen + (stringBytes value).length
    entries := interner.entries ++ [value] }

theorem resolve_append_iff
    {i j : IdentifierInterner} {value : String}
    (hentries : j.entries = i.entries ++ [value])
    {id : SymbolId} {stored : String} :
    j.resolve id = .ok stored ↔
      i.resolve id = .ok stored ∨ id.index = i.entries.length ∧ stored = value := by
  rw [resolve_eq_ok_iff, resolve_eq_ok_iff, hentries]
  rcases Nat.lt_trichotomy id.index i.entries.length with hlt | heq | hgt
  · rw [List.getElem?_append_left hlt]
    constructor
    · exact Or.inl
    · rintro (h | ⟨h, _⟩)
      · exact h
      · omega
  · rw [heq, List.getElem?_append_right (le_refl _)]
    simp [eq_comm]
  · rw [List.getElem?_append_right (le_of_lt hgt), List.getElem?_eq_none (by simp; omega),
      List.getElem?_eq_none (le_of_lt hgt)]
    constructor
    · intro h
      cases h
    · rintro (h | ⟨h, _⟩)
      · cases h
      · omega

/-- Behind the insertion point of a sorted array the hashes are not smaller. -/
theorem le_of_mem_dropWhile
    {key : SymbolId → Option UInt64} {before : SymbolId → Bool} {hash : UInt64}
    {ids : List SymbolId}
    (hsorted : ids.Pairwise (fun a b => ∀ ha hb, key a = some ha → key b = some hb → ha ≤ hb))
    (hbefore : ∀ a ∈ ids, ∃ ha, key a = some ha ∧ (before a = true ↔ ha ≤ hash))
    {b : SymbolId} {hb : UInt64}
    (hmem : b ∈ ids.dropWhile before)
    (hkey : key b = some hb) :
    hash ≤ hb := by
  induction ids with
  | nil =>
      cases hmem
  | cons head rest ih =>
      obtain ⟨hhead, hrest⟩ := List.pairwise_cons.mp hsorted
      obtain ⟨headHash, hk, hiff⟩ := hbefore head List.mem_cons_self
      rw [List.dropWhile_cons] at hmem
      by_cases hp : before head = true
      · rw [if_pos hp] at hmem
        exact ih hrest (fun a ha => hbefore a (List.mem_cons_of_mem _ ha)) hmem
      · rw [if_neg hp] at hmem
        have hle : hash ≤ headHash := by
          have hnot : ¬ headHash ≤ hash := fun h => hp (hiff.mpr h)
          exact UInt64.le_of_lt (UInt64.not_le.mp hnot)
        rcases List.mem_cons.mp hmem with rfl | hmem
        · rw [hk] at hkey
          cases hkey
          exact hle
        · exact UInt64.le_trans hle (hhead b hmem _ _ hk hkey)

/-- Inserting a symbol at the insertion point keeps the array sorted. -/
theorem pairwise_insert
    {key : SymbolId → Option UInt64} {before : SymbolId → Bool} {hash : UInt64}
    {ids : List SymbolId} {id : SymbolId}
    (hsorted : ids.Pairwise (fun a b => ∀ ha hb, key a = some ha → key b = some hb → ha ≤ hb))
    (hbefore : ∀ a ∈ ids, ∃ ha, key a = some ha ∧ (before a = true ↔ ha ≤ hash))
    (hid : key id = some hash) :
    (ids.takeWhile before ++ id :: ids.dropWhile before).Pairwise
      (fun a b => ∀ ha hb, key a = some ha → key b = some hb → ha ≤ hb) := by
  have hparts := hsorted
  rw [← List.takeWhile_append_dropWhile (l := ids), List.pairwise_append] at hparts
  refine List.pairwise_append.mpr ⟨hparts.1, List.pairwise_cons.mpr ⟨?_, hparts.2.1⟩, ?_⟩
  · intro b hb idHash bHash hidHash hbHash
    rw [hid] at hidHash
    cases hidHash
    exact le_of_mem_dropWhile hsorted hbefore hb hbHash
  · intro a ha b hb
    rcases List.mem_cons.mp hb with rfl | hb
    · intro aHash bHash haHash hbHash
      obtain ⟨known, hknown, hiff⟩ := hbefore a ((List.takeWhile_prefix _).subset ha)
      have hle := hiff.mp (List.mem_takeWhile_imp ha)
      rw [hknown] at haHash
      rw [hid] at hbHash
      cases haHash
      cases hbHash
      exact hle
    · exact hparts.2.2 a ha b hb

theorem mem_insertSorted
    {i : IdentifierInterner} {hash : UInt64} {id a : SymbolId} :
    a ∈ (i.insertSorted hash id).sortedLookup ↔ a = id ∨ a ∈ i.sortedLookup := by
  unfold insertSorted
  simp only [List.mem_append, List.mem_cons]
  constructor
  · rintro (h | h | h)
    · exact Or.inr ((List.takeWhile_prefix _).subset h)
    · exact Or.inl h
    · exact Or.inr ((List.dropWhile_suffix _).subset h)
  · rintro (h | h)
    · exact Or.inr (Or.inl h)
    · rw [← List.takeWhile_append_dropWhile (l := i.sortedLookup), List.mem_append] at h
      rcases h with h | h
      · exact Or.inl h
      · exact Or.inr (Or.inr h)

/-- Appending a string only fails for lack of capacity. -/
theorem push_cases
    (value : String) (i : IdentifierInterner) :
    push value i = (.ok (), extended i value) ∨
      ∃ component, push value i = (.error (.capacityExceeded component), i) := by
  unfold push extended
  simp only [Action.bind_apply, Action.get_apply]
  split_ifs
  · exact Or.inr ⟨_, rfl⟩
  · exact Or.inr ⟨_, rfl⟩
  · exact Or.inr ⟨_, rfl⟩
  · exact Or.inl rfl

/-- Symbols of a prefix keep their strings. -/
theorem resolve_of_prefix
    {i j : IdentifierInterner}
    (hextends : i.entries <+: j.entries)
    {id : SymbolId} {value : String}
    (h : i.resolve id = .ok value) :
    j.resolve id = .ok value := by
  rw [resolve_eq_ok_iff] at h ⊢
  obtain ⟨hlt, hvalue⟩ := List.getElem?_eq_some_iff.mp h
  obtain ⟨suffix, hsuffix⟩ := hextends
  rw [← hsuffix, List.getElem?_append_left hlt]
  exact h

section Intern

variable [StoreHasher]

/-- Appending a fresh string keeps the invariant when its symbol is registered and
the older registrations and the order of the lookup array are kept. -/
theorem Inv.of_push
    {i j : IdentifierInterner}
    (hinv : i.Inv)
    {value : String} {id : SymbolId}
    (hindex : id.index = i.entries.length)
    (hfresh : i.lookup value = none)
    (hentries : j.entries = i.entries ++ [value])
    (hnew : j.Registered value id)
    (hold : ∀ id' value', i.resolve id' = .ok value' → i.Registered value' id' →
      j.Registered value' id')
    (hhashes : j.sortedLookup ≠ [] → j.hashesById.length = j.entries.length)
    (hbounded : ∀ id' ∈ j.sortedLookup, id'.index < j.entries.length)
    (hsorted : j.sortedLookup.Pairwise
      (fun a b => ∀ ha hb, j.symbolHash a = some ha → j.symbolHash b = some hb →
        ha ≤ hb)) :
    j.Inv := by
  refine ⟨?_, ?_, hhashes, hbounded, hsorted⟩
  · have hnot : value ∉ i.entries := by
      intro hmem
      obtain ⟨n, hlt, hn⟩ := List.mem_iff_getElem.mp hmem
      have hid := id.value.lt
      have hpos := id.value.pos
      have hbound : n + 1 < 2 ^ 32 := by
        unfold SymbolId.index NonZeroU32.index at hindex
        omega
      refine hinv.not_mem_of_lookup_none hfresh ⟨⟨n + 1, Nat.succ_pos n, hbound⟩⟩ ?_
      rw [resolve_eq_ok_iff]
      exact List.getElem?_eq_some_iff.mpr ⟨hlt, hn⟩
    rw [hentries]
    exact List.nodup_append.mpr ⟨hinv.nodup, by simp, by
      intro a ha b hb
      rw [List.mem_singleton] at hb
      rintro rfl
      exact hnot (hb ▸ ha)⟩
  · intro id' value' hresolve
    rcases (resolve_append_iff hentries).mp hresolve with hresolve | ⟨hidx, rfl⟩
    · exact hold id' value' hresolve (hinv.registered id' value' hresolve)
    · rw [SymbolId.index_injective (hidx.trans hindex.symm)]
      exact hnew

theorem Inv.push_primary
    {i : IdentifierInterner}
    (hinv : i.Inv)
    {value : String} {id : SymbolId}
    (hindex : id.index = i.entries.length)
    (hfresh : i.lookup value = none)
    (hempty : i.sortedLookup = [])
    (hprimary : i.idsByHash.lookup (hashValue value) = none) :
    (extended { i with idsByHash := i.idsByHash.insert (hashValue value) id } value).Inv := by
  apply hinv.of_push hindex hfresh rfl
  · unfold Registered extended
    rw [if_pos hempty]
    exact Or.inl (AList.lookup_insert _)
  · intro id' value' _ hreg
    unfold Registered at hreg
    unfold Registered extended
    rw [if_pos hempty] at hreg ⊢
    rcases hreg with hreg | hreg
    · left
      have hne : hashValue value' ≠ hashValue value := by
        intro heq
        rw [heq, hprimary] at hreg
        cases hreg
      show (i.idsByHash.insert (hashValue value) id).lookup (hashValue value') = some id'
      rw [AList.lookup_insert_ne hne]
      exact hreg
    · exact Or.inr hreg
  · intro hne
    exact (hne hempty).elim
  · intro id' hid'
    unfold extended at hid'
    rw [hempty] at hid'
    cases hid'
  · unfold extended
    rw [hempty]
    exact List.Pairwise.nil

theorem Inv.push_collision
    {i : IdentifierInterner}
    (hinv : i.Inv)
    {value : String} {id : SymbolId}
    (hindex : id.index = i.entries.length)
    (hfresh : i.lookup value = none)
    (hempty : i.sortedLookup = []) :
    (extended (i.pushCollision (hashValue value) id) value).Inv := by
  apply hinv.of_push hindex hfresh rfl
  · unfold Registered extended pushCollision
    rw [if_pos hempty]
    exact Or.inr ⟨_, AList.lookup_insert _, by simp⟩
  · intro id' value' _ hreg
    unfold Registered at hreg
    unfold Registered extended pushCollision
    rw [if_pos hempty] at hreg ⊢
    rcases hreg with hreg | ⟨ids, hids, hmem⟩
    · exact Or.inl hreg
    · right
      by_cases heq : hashValue value' = hashValue value
      · rw [heq] at hids ⊢
        exact ⟨_, AList.lookup_insert _, by simp [hids, hmem]⟩
      · exact ⟨ids, (AList.lookup_insert_ne heq).trans hids, hmem⟩
  · intro hne
    exact (hne hempty).elim
  · intro id' hid'
    unfold extended pushCollision at hid'
    rw [hempty] at hid'
    cases hid'
  · unfold extended pushCollision
    rw [hempty]
    exact List.Pairwise.nil

theorem Inv.push_sorted
    {i : IdentifierInterner}
    (hinv : i.Inv)
    {value : String} {id : SymbolId}
    (hindex : id.index = i.entries.length)
    (hfresh : i.lookup value = none)
    (hsome : i.sortedLookup ≠ []) :
    (extended (i.insertSorted (hashValue value) id) value).Inv := by
  have hlength := hinv.hashes hsome
  -- every older symbol keeps its hash and precedes the new symbol in the tie-break
  have hkey : ∀ a ∈ i.sortedLookup,
      (i.hashesById ++ [hashValue value])[a.index]? = i.symbolHash a := by
    intro a ha
    have hlt := hinv.bounded a ha
    rw [List.getElem?_append_left (by omega)]
    rfl
  have hnewKey : (i.hashesById ++ [hashValue value])[id.index]? = some (hashValue value) := by
    rw [hindex, ← hlength]
    simp
  have hbefore : ∀ a ∈ i.sortedLookup, ∃ ha,
      i.symbolHash a = some ha ∧
        (precedes (i.hashesById ++ [hashValue value]) (hashValue value) id a = true ↔
          ha ≤ hashValue value) := by
    intro a ha
    obtain ⟨hash, hhash⟩ := Option.isSome_iff_exists.mp (hinv.symbolHash_isSome ha)
    refine ⟨hash, hhash, ?_⟩
    have hlt : a.value.get < id.value.get := by
      have hbound := hinv.bounded a ha
      unfold SymbolId.index NonZeroU32.index at hbound hindex
      have hpos := a.value.pos
      omega
    unfold precedes
    rw [hkey a ha, hhash]
    simp only [hlt, and_true, decide_eq_true_eq]
    rw [UInt64.le_iff_lt_or_eq]
  have hne : (extended (i.insertSorted (hashValue value) id) value).sortedLookup ≠ [] :=
    List.ne_nil_of_mem (mem_insertSorted.mpr (Or.inl rfl))
  apply hinv.of_push hindex hfresh rfl
  · unfold Registered
    rw [if_neg hne]
    exact ⟨mem_insertSorted.mpr (Or.inl rfl), hnewKey⟩
  · intro id' value' _ hreg
    unfold Registered at hreg ⊢
    rw [if_neg hsome] at hreg
    rw [if_neg hne]
    exact ⟨mem_insertSorted.mpr (Or.inr hreg.1), (hkey id' hreg.1).trans hreg.2⟩
  · intro _
    show (i.hashesById ++ [hashValue value]).length = (i.entries ++ [value]).length
    simp [hlength]
  · intro id' hid'
    show id'.index < (i.entries ++ [value]).length
    rcases mem_insertSorted.mp hid' with rfl | hid'
    · simp [hindex]
    · have hlt := hinv.bounded id' hid'
      simp
      omega
  · have hsorted : i.sortedLookup.Pairwise (fun a b => ∀ ha hb,
        (i.hashesById ++ [hashValue value])[a.index]? = some ha →
          (i.hashesById ++ [hashValue value])[b.index]? = some hb → ha ≤ hb) := by
      refine hinv.sorted.imp_of_mem ?_
      intro a b ha hb h
      rwa [hkey a ha, hkey b hb]
    refine pairwise_insert hsorted (fun a ha => ?_) hnewKey
    obtain ⟨hash, hhash, hiff⟩ := hbefore a ha
    exact ⟨hash, (hkey a ha).trans hhash, hiff⟩

/-- A fresh string is registered under a new symbol. -/
theorem register_fresh
    {i : IdentifierInterner}
    (hinv : i.Inv)
    {value : String} {id : SymbolId}
    (hindex : id.index = i.entries.length)
    (hfresh : i.lookup value = none) :
    ∃ j, register value (hashValue value) id i = (.ok none, j) ∧
      j.entries = i.entries ∧ j.byteLen = i.byteLen ∧ (extended j value).Inv := by
  unfold register
  by_cases hempty : i.sortedLookup = []
  · cases hprimary : i.idsByHash.lookup (hashValue value) with
    | none =>
        refine ⟨{ i with idsByHash := i.idsByHash.insert (hashValue value) id }, ?_, rfl, rfl,
          hinv.push_primary hindex hfresh hempty hprimary⟩
        simp [Action.bind_apply, hempty, hprimary]
    | some existing =>
        have hother : ¬ i.resolve existing = .ok value :=
          hinv.not_mem_of_lookup_none hfresh existing
        refine ⟨i.pushCollision (hashValue value) id, ?_, rfl, rfl,
          hinv.push_collision hindex hfresh hempty⟩
        simp [Action.bind_apply, hempty, hprimary, hother]
  · refine ⟨i.insertSorted (hashValue value) id, ?_, rfl, rfl,
      hinv.push_sorted hindex hfresh hempty⟩
    simp [Action.bind_apply, hempty]

/-- Interning returns the symbol of the string, and earlier symbols keep their
strings; it only fails for lack of capacity. -/
theorem Inv.intern
    {i : IdentifierInterner}
    (hinv : i.Inv)
    (value : String) :
    (intern value).Ensures i
      (fun id j => j.Inv ∧ i.entries <+: j.entries ∧ j.resolve id = .ok value)
      StoreError.IsCapacity := by
  cases hlookup : i.lookup value with
  | some id =>
      apply Action.Ensures.of_ok (a := id) (t := i)
      · simp [IdentifierInterner.intern, Action.bind_apply, hlookup]
      · exact ⟨hinv, List.prefix_refl _, resolve_of_lookup hlookup⟩
  | none =>
      cases hid : SymbolId.fromIndex i.entries.length with
      | error error =>
          have herror : error = .capacityExceeded "identifier interner" := by
            unfold SymbolId.fromIndex at hid
            split at hid
            · cases hid
            · cases hid
              rfl
          apply Action.Ensures.of_error (e := error) (t := i)
          · simp [IdentifierInterner.intern, Action.bind_apply, hlookup, hid]
          · exact ⟨_, herror⟩
      | ok id =>
          obtain ⟨j, hregister, hentries, _, hj⟩ :=
            register_fresh hinv (SymbolId.fromIndex_ok_iff.mp hid) hlookup
          have hpushed : (extended j value).entries = i.entries ++ [value] := by
            unfold extended
            rw [hentries]
          rcases push_cases value j with hpush | ⟨component, hpush⟩
          · apply Action.Ensures.of_ok (a := id) (t := extended j value)
            · simp [IdentifierInterner.intern, Action.bind_apply, hlookup, hid, hregister,
                hpush]
            · refine ⟨hj, ?_, ?_⟩
              · rw [hpushed]
                exact List.prefix_append _ _
              · rw [resolve_append_iff hpushed]
                exact Or.inr ⟨SymbolId.fromIndex_ok_iff.mp hid, rfl⟩
          · apply Action.Ensures.of_error (e := .capacityExceeded component) (t := j)
            · simp [IdentifierInterner.intern, Action.bind_apply, hlookup, hid, hregister,
                hpush]
            · exact ⟨component, rfl⟩

/-- Without a sorted array, more entries in the hash tables do no harm. -/
theorem Inv.of_tables
    {i j : IdentifierInterner}
    (hinv : i.Inv)
    (hempty : i.sortedLookup = [])
    (hentries : j.entries = i.entries)
    (hsorted : j.sortedLookup = [])
    (hprimary : ∀ hash id, i.idsByHash.lookup hash = some id →
      j.idsByHash.lookup hash = some id)
    (hcollisions : ∀ hash ids id, i.hashCollisions.lookup hash = some ids → id ∈ ids →
      ∃ ids', j.hashCollisions.lookup hash = some ids' ∧ id ∈ ids') :
    j.Inv := by
  refine ⟨hentries ▸ hinv.nodup, ?_, fun hne => (hne hsorted).elim, ?_, ?_⟩
  · intro id value hresolve
    have hold : i.resolve id = .ok value := by
      rw [resolve_eq_ok_iff, hentries] at hresolve
      exact resolve_eq_ok_iff.mpr hresolve
    have hregistered := hinv.registered id value hold
    unfold Registered at hregistered ⊢
    rw [if_pos hempty] at hregistered
    rw [if_pos hsorted]
    rcases hregistered with h | ⟨ids, hids, hmem⟩
    · exact Or.inl (hprimary _ _ h)
    · exact Or.inr (hcollisions _ _ _ hids hmem)
  · intro id hid
    rw [hsorted] at hid
    cases hid
  · rw [hsorted]
    exact List.Pairwise.nil

/-- A registration that no string follows keeps the invariant. -/
theorem register_unsorted
    {i : IdentifierInterner}
    (hinv : i.Inv)
    (hempty : i.sortedLookup = [])
    {value : String}
    (hfresh : i.lookup value = none)
    (id : SymbolId) :
    ∃ j, register value (hashValue value) id i = (.ok none, j) ∧
      j.entries = i.entries ∧ j.sortedLookup = [] ∧ j.Inv := by
  unfold register
  cases hprimary : i.idsByHash.lookup (hashValue value) with
  | none =>
      refine ⟨{ i with idsByHash := i.idsByHash.insert (hashValue value) id }, ?_, rfl, hempty,
        hinv.of_tables hempty rfl hempty ?_ (fun _ ids _ hids hmem => ⟨ids, hids, hmem⟩)⟩
      · simp [Action.bind_apply, hempty, hprimary]
      · intro hash id' hlookup
        have hne : hash ≠ hashValue value := by
          rintro rfl
          rw [hprimary] at hlookup
          cases hlookup
        exact (AList.lookup_insert_ne hne).trans hlookup
  | some existing =>
      have hother : ¬ i.resolve existing = .ok value :=
        hinv.not_mem_of_lookup_none hfresh existing
      refine ⟨i.pushCollision (hashValue value) id, ?_, rfl, hempty,
        hinv.of_tables hempty rfl hempty (fun _ _ h => h) ?_⟩
      · simp [Action.bind_apply, hempty, hprimary, hother]
      · intro hash ids id' hids hmem
        unfold pushCollision
        by_cases heq : hash = hashValue value
        · rw [heq] at hids ⊢
          exact ⟨_, AList.lookup_insert _, by simp [hids, hmem]⟩
        · exact ⟨ids, (AList.lookup_insert_ne heq).trans hids, hmem⟩

/-- Interning without a sorted array keeps the invariant also when it fails. -/
theorem Inv.intern_unsorted
    {i : IdentifierInterner}
    (hinv : i.Inv)
    (hempty : i.sortedLookup = [])
    (value : String) :
    (IdentifierInterner.intern value).Leaves i (fun _ j => j.Inv ∧ j.sortedLookup = [] ∧
      i.entries <+: j.entries) := by
  unfold Action.Leaves
  cases hlookup : i.lookup value with
  | some id =>
      have hrun : IdentifierInterner.intern value i = (.ok id, i) := by
        simp [IdentifierInterner.intern, Action.bind_apply, hlookup]
      rw [hrun]
      exact ⟨hinv, hempty, List.prefix_refl _⟩
  | none =>
      cases hid : SymbolId.fromIndex i.entries.length with
      | error error =>
          have hrun : IdentifierInterner.intern value i = (.error error, i) := by
            simp [IdentifierInterner.intern, Action.bind_apply, hlookup, hid]
          rw [hrun]
          exact ⟨hinv, hempty, List.prefix_refl _⟩
      | ok id =>
          obtain ⟨j, hregister, hentries, hsorted, hj⟩ :=
            register_unsorted hinv hempty hlookup id
          rcases push_cases value j with hpush | ⟨component, hpush⟩
          · have hrun : IdentifierInterner.intern value i = (.ok id, extended j value) := by
              simp [IdentifierInterner.intern, Action.bind_apply, hlookup, hid, hregister,
                hpush]
            have hspec := hinv.intern value
            unfold Action.Ensures at hspec
            rw [hrun] at hspec ⊢
            exact ⟨hspec.1, hsorted, hspec.2.1⟩
          · have hrun :
                IdentifierInterner.intern value i = (.error (.capacityExceeded component), j) := by
              simp [IdentifierInterner.intern, Action.bind_apply, hlookup, hid, hregister,
                hpush]
            rw [hrun]
            exact ⟨hj, hsorted, hentries ▸ List.prefix_refl _⟩

theorem inv_default :
    default.Inv := by
  constructor
  · exact List.nodup_nil
  · intro id value h
    rw [resolve_eq_ok_iff] at h
    cases h
  · intro h
    exact (h rfl).elim
  · intro id h
    cases h
  · exact List.Pairwise.nil

end Intern

end IdentifierInterner

end SimpleZanzibar
