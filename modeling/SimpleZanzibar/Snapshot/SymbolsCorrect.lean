import SimpleZanzibar.Snapshot.Symbols
import SimpleZanzibar.Store.SectionsCorrect

/-!
# Decoded symbols

A full load enters the symbols into hash tables and refuses a string that is there already;
a trusted load keeps the symbols in the order of their hashes.  Both find the symbol of every
string of a file that a full load accepts.

**Results.**
* `indexFullSymbolLookup_ok`: accepted symbols are distinct and have the stored hashes.
* `decodeInterner_full`: the interner of a full load satisfies the invariant.
* `lookup_eq_of_entries`: interners with the same strings look up the same symbols.
* `interner_bijection`: an interner that was built and has interned strings is a bijection.
-/

namespace SimpleZanzibar

namespace Snapshot

open IdentifierInterner

section Hashed

variable [StoreHasher]

omit [StoreHasher] in
/-- No symbol of a list has the string. -/
theorem anyResolvesTo_eq_false
    {symbols : List String} {value : String} {ids : List SymbolId}
    (h : anyResolvesTo symbols value ids = .ok false)
    {id : SymbolId}
    (hid : id ∈ ids) :
    symbols[id.index]? ≠ some value := by
  induction ids with
  | nil =>
      cases hid
  | cons first rest ih =>
      rw [anyResolvesTo] at h
      obtain ⟨stored, hstored, h⟩ := bind_eq_ok.mp h
      split at h
      · cases h
      · next hne =>
          rcases List.mem_cons.mp hid with rfl | hid
          · rw [okOr_eq_ok.mp hstored]
            intro heq
            exact hne (Option.some.inj heq)
          · exact ih h hid

/-- A string that was not found is not the string of an entered symbol. -/
theorem ne_of_symbolValueExists
    {symbols : List String} {tables : SymbolIndex} {value : String}
    (h : symbolValueExists symbols tables (hashValue value) value = .ok false)
    {id : SymbolId}
    (hid : InTables tables value id) :
    symbols[id.index]? ≠ some value := by
  apply anyResolvesTo_eq_false h
  rcases hid with hfirst | ⟨ids, hids, hmem⟩
  · rw [hfirst]
    exact List.mem_append_left _ (List.mem_singleton_self _)
  · rw [hids]
    exact List.mem_append_right _ hmem

/-- Accepted symbols have the stored hashes, are distinct and are all entered. -/
theorem indexFullSymbolLookup_ok
    {symbols : List String} {hashes : List UInt64} {start : Nat} {tables result : SymbolIndex}
    (h : indexFullSymbolLookup symbols start hashes tables = .ok result)
    (hlength : start + hashes.length = symbols.length)
    (hentered : ∀ id value, id.index < start → symbols[id.index]? = some value →
      InTables tables value id)
    (hnodup : (symbols.take start).Nodup) :
    hashes = (symbols.drop start).map hashValue ∧ symbols.Nodup ∧
      ∀ id value, symbols[id.index]? = some value → InTables result value id := by
  induction hashes generalizing start tables with
  | nil =>
      cases h
      have hstart : start = symbols.length := hlength
      subst hstart
      rw [List.take_length] at hnodup
      refine ⟨by rw [List.drop_length]; rfl, hnodup, ?_⟩
      intro id value hget
      exact hentered id value (List.getElem?_eq_some_iff.mp hget).1 hget
  | cons storedHash hashes ih =>
      rw [indexFullSymbolLookup] at h
      obtain ⟨id, hid, h⟩ := bind_eq_ok.mp h
      obtain ⟨value, hvalue, h⟩ := bind_eq_ok.mp h
      obtain ⟨hhash, h⟩ := require_bind_eq_ok.mp h
      obtain ⟨found, hfound, h⟩ := bind_eq_ok.mp h
      obtain ⟨hfalse, hrest⟩ := require_bind_eq_ok.mp h
      subst hfalse hhash
      have hindex : id.index = start := SymbolId.fromIndex_ok_iff.mp (mapError_eq_ok hid)
      replace hvalue : symbols[start]? = some value := by
        rw [← hindex]
        exact okOr_eq_ok.mp hvalue
      have hlt : start < symbols.length := (List.getElem?_eq_some_iff.mp hvalue).1
      have hget : symbols[start] = value := (List.getElem?_eq_some_iff.mp hvalue).2
      have hfresh : value ∉ symbols.take start := by
        intro hmem
        obtain ⟨n, hn⟩ := List.mem_iff_getElem?.mp hmem
        rw [List.getElem?_take] at hn
        split at hn
        · next hbefore =>
            obtain ⟨other, hother⟩ : ∃ other : SymbolId, other.index = n := by
              have hbound : n + 1 < 2 ^ 32 := by
                have := id.value.lt
                have : id.value.get - 1 = start := hindex
                omega
              exact ⟨⟨⟨n + 1, Nat.succ_pos n, hbound⟩⟩, rfl⟩
            have hentry := hentered other value (by omega) (by rw [hother]; exact hn)
            exact ne_of_symbolValueExists hfound hentry (by rw [hother]; exact hn)
        · cases hn
      have hnext : (symbols.take (start + 1)).Nodup := by
        rw [List.take_add_one, hvalue]
        exact (List.nodup_append_comm.mpr
          (List.nodup_cons.mpr ⟨hfresh, hnodup⟩ : ([value] ++ symbols.take start).Nodup))
      have hentered' : ∀ other value', other.index < start + 1 →
          symbols[other.index]? = some value' →
          InTables (indexSymbol tables (value, id)) value' other := by
        intro other value' hother hvalue'
        by_cases hlast : other.index = start
        · have hsame : other = id := SymbolId.index_injective (hlast.trans hindex.symm)
          rw [hlast, hvalue] at hvalue'
          cases hvalue'
          rw [hsame]
          exact inTables_indexSymbol_self tables value id
        · exact (hentered other value' (by omega) hvalue').indexSymbol (value, id)
      rw [List.length_cons] at hlength
      obtain ⟨hhashes, hall, htables⟩ := ih hrest (by omega) hentered' hnext
      refine ⟨?_, hall, htables⟩
      rw [List.drop_eq_getElem_cons hlt, List.map_cons, hget, hhashes]

/-- The interner of a full load. -/
theorem inv_fromSnapshotParts_full
    {byteLen : Nat} {symbols : List String} {hashes : List UInt64} {lookup : List SymbolId}
    {interner : IdentifierInterner}
    (hlength : hashes.length = symbols.length)
    (h : Snapshot.fromSnapshotParts byteLen symbols hashes lookup .full = .ok interner) :
    interner.Inv ∧ interner.entries = symbols ∧ hashes = symbols.map hashValue := by
  obtain ⟨⟨idsByHash, hashCollisions⟩, htables, h⟩ := bind_eq_ok.mp h
  cases h
  obtain ⟨hhashes, hnodup, hentered⟩ := indexFullSymbolLookup_ok htables (by omega)
    (fun _ _ hlt => absurd hlt (Nat.not_lt_zero _)) List.nodup_nil
  refine ⟨⟨hnodup, ?_, ?_, ?_, ?_⟩, rfl, hhashes⟩
  · intro id value hresolve
    exact (if_pos rfl).mpr (hentered id value (resolve_eq_ok_iff.mp hresolve))
  · intro hne
    exact absurd rfl hne
  · intro id hid
    cases hid
  · exact List.Pairwise.nil

end Hashed

theorem lookupKeyLt_trans
    {a b c : UInt64 × Nat}
    (hab : lookupKeyLt a b)
    (hbc : lookupKeyLt b c) :
    lookupKeyLt a c := by
  simp only [lookupKeyLt, UInt64.lt_iff_toNat_lt, ← UInt64.toNat_inj] at *
  omega

/-- The symbols that were read have hashes and are in order. -/
theorem readSymbolLookup_ok
    {width : KeyWidth} {symbolCount count : Nat} {hashes : List UInt64}
    {previous : Option (UInt64 × Nat)} {bytes rest : List UInt8} {ids : List SymbolId}
    (h : readSymbolLookup width symbolCount hashes count previous bytes = (.ok ids, rest)) :
    ids.length = count ∧
      ∃ keys, List.Forall₂ (fun id key => symbolLookupKey id hashes = .ok key) ids keys ∧
        (previous.toList ++ keys).Pairwise lookupKeyLt := by
  induction count generalizing previous bytes ids with
  | zero =>
      cases h
      refine ⟨rfl, [], List.Forall₂.nil, ?_⟩
      rw [List.append_nil]
      cases previous with
      | none => exact List.Pairwise.nil
      | some key => exact List.pairwise_singleton _ _
  | succ count ih =>
      obtain ⟨raw, bytes₁, _, h⟩ := Action.bind_eq_ok.mp h
      obtain ⟨id, _, h⟩ := Action.lift_bind_eq_ok.mp h
      obtain ⟨key, hkey, h⟩ := Action.lift_bind_eq_ok.mp h
      obtain ⟨_, horder, h⟩ := Action.lift_bind_eq_ok.mp h
      obtain ⟨tail, bytes₂, htail, h⟩ := Action.bind_eq_ok.mp h
      cases h
      obtain ⟨hlength, keys, hkeys, hsorted⟩ := ih htail
      refine ⟨by rw [List.length_cons, hlength], key :: keys, .cons hkey hkeys, ?_⟩
      replace horder : ∀ candidate ∈ previous, lookupKeyLt candidate key :=
        require_eq_ok.mp horder
      cases previous with
      | none => exact hsorted
      | some candidate =>
          have hcandidate := horder candidate rfl
          refine List.pairwise_cons.mpr ⟨?_, hsorted⟩
          intro other hother
          rcases List.mem_cons.mp hother with rfl | hother
          · exact hcandidate
          · exact lookupKeyLt_trans hcandidate ((List.pairwise_cons.mp hsorted).1 other hother)

theorem symbolLookupKey_eq_ok
    {id : SymbolId} {hashes : List UInt64} {key : UInt64 × Nat}
    (h : symbolLookupKey id hashes = .ok key) :
    hashes[id.index]? = some key.1 := by
  obtain ⟨hash, hhash, h⟩ := bind_eq_ok.mp h
  cases h
  exact okOr_eq_ok.mp hhash

/-- Distinct symbols below a bound, as many as there are, are all of them. -/
theorem mem_of_nodup_of_length
    {ids : List SymbolId} {count : Nat}
    (hnodup : ids.Nodup)
    (hlength : ids.length = count)
    (hbound : ∀ id ∈ ids, id.index < count)
    {id : SymbolId}
    (hid : id.index < count) :
    id ∈ ids := by
  have hindexes : (ids.map SymbolId.index).Nodup :=
    hnodup.map (fun _ _ => SymbolId.index_injective)
  have hsubset : ids.map SymbolId.index ⊆ List.range count := by
    intro n hn
    obtain ⟨other, hother, rfl⟩ := List.mem_map.mp hn
    exact List.mem_range.mpr (hbound other hother)
  have hperm : (ids.map SymbolId.index).Perm (List.range count) := by
    apply (List.subperm_of_subset hindexes hsubset).perm_of_length_le
    rw [List.length_map, List.length_range, hlength]
  obtain ⟨other, hother, hsame⟩ := List.mem_map.mp (hperm.mem_iff.mpr (List.mem_range.mpr hid))
  exact SymbolId.index_injective hsame ▸ hother

section Load

variable [Blake3Hash]

/-- As many strings as the header announces. -/
theorem decodeSymbolTable_length
    {reader : Reader} {byteLen : Nat} {symbols : List String}
    (h : decodeSymbolTable reader = .ok (byteLen, symbols)) :
    symbols.length = reader.header.symbolCount := by
  obtain ⟨pool, _, h⟩ := bind_eq_ok.mp h
  obtain ⟨table, _, h⟩ := bind_eq_ok.mp h
  obtain ⟨_, h⟩ := require_bind_eq_ok.mp h
  obtain ⟨⟨startWidth, lenWidth⟩, _, h⟩ := bind_eq_ok.mp h
  obtain ⟨_, _, h⟩ := bind_eq_ok.mp h
  obtain ⟨_, _, h⟩ := bind_eq_ok.mp h
  obtain ⟨_, h⟩ := require_bind_eq_ok.mp h
  obtain ⟨decoded, hdecoded, h⟩ := bind_eq_ok.mp h
  obtain ⟨_, h⟩ := require_bind_eq_ok.mp h
  cases h
  exact ByteCursor.length_times (Prod.ext hdecoded rfl)

theorem decodeSymbolHashes_length
    {reader : Reader} {hashes : List UInt64}
    (h : decodeSymbolHashes reader = .ok hashes) :
    hashes.length = reader.header.symbolCount := by
  obtain ⟨contents, _, h⟩ := bind_eq_ok.mp h
  obtain ⟨_, h⟩ := require_bind_eq_ok.mp h
  obtain ⟨_, _, h⟩ := bind_eq_ok.mp h
  obtain ⟨_, h⟩ := require_bind_eq_ok.mp h
  obtain ⟨values, hvalues, h⟩ := bind_eq_ok.mp h
  cases h
  rw [List.length_map]
  exact ByteCursor.length_times (Prod.ext hvalues rfl)

/-- The lookup section holds every symbol, ordered by hash. -/
theorem decodeSymbolLookup_ok
    {reader : Reader} {hashes : List UInt64} {lookup : List SymbolId}
    (h : decodeSymbolLookup reader hashes = .ok lookup)
    (hlength : hashes.length = reader.header.symbolCount) :
    (∀ id, id ∈ lookup ↔ id.index < hashes.length) ∧
      lookup.Pairwise (fun a b => ∀ ha hb, hashes[a.index]? = some ha →
        hashes[b.index]? = some hb → ha ≤ hb) := by
  obtain ⟨contents, _, h⟩ := bind_eq_ok.mp h
  obtain ⟨_, h⟩ := require_bind_eq_ok.mp h
  obtain ⟨width, _, h⟩ := bind_eq_ok.mp h
  obtain ⟨_, _, h⟩ := bind_eq_ok.mp h
  obtain ⟨_, h⟩ := require_bind_eq_ok.mp h
  obtain ⟨ids, hids, h⟩ := bind_eq_ok.mp h
  obtain ⟨_, h⟩ := require_bind_eq_ok.mp h
  obtain rfl : ids = lookup := Except.ok.inj h
  obtain ⟨hcount, keys, hkeys, hsorted⟩ := readSymbolLookup_ok (Prod.ext hids rfl)
  replace hsorted : keys.Pairwise lookupKeyLt := hsorted
  have hpairs : ids.Pairwise (fun a b => ∀ key key', symbolLookupKey a hashes = .ok key →
      symbolLookupKey b hashes = .ok key' → lookupKeyLt key key') := by
    rw [List.pairwise_iff_getElem] at hsorted ⊢
    intro i j hi hj hlt key key' hkey hkey'
    have hi' : i < keys.length := hkeys.length_eq ▸ hi
    have hj' : j < keys.length := hkeys.length_eq ▸ hj
    have hfirst := (List.forall₂_iff_get.mp hkeys).2 i hi hi'
    have hsecond := (List.forall₂_iff_get.mp hkeys).2 j hj hj'
    rw [List.get_eq_getElem, List.get_eq_getElem] at hfirst hsecond
    rw [hkey] at hfirst
    rw [hkey'] at hsecond
    cases hfirst
    cases hsecond
    exact hsorted i j hi' hj' hlt
  have hkeyed : ∀ id ∈ ids, ∃ key, symbolLookupKey id hashes = .ok key := by
    intro id hid
    obtain ⟨n, hn, rfl⟩ := List.mem_iff_getElem.mp hid
    exact ⟨_, (List.forall₂_iff_get.mp hkeys).2 n hn (hkeys.length_eq ▸ hn)⟩
  have hbound : ∀ id ∈ ids, id.index < hashes.length := by
    intro id hid
    obtain ⟨key, hkey⟩ := hkeyed id hid
    exact (List.getElem?_eq_some_iff.mp (symbolLookupKey_eq_ok hkey)).1
  have hnodup : ids.Nodup := by
    refine hpairs.imp_of_mem ?_
    intro a b ha _ horder heq
    subst heq
    obtain ⟨key, hkey⟩ := hkeyed a ha
    have hself := horder key key hkey hkey
    simp only [lookupKeyLt, UInt64.lt_iff_toNat_lt] at hself
    omega
  refine ⟨?_, ?_⟩
  · intro id
    exact ⟨hbound id, mem_of_nodup_of_length hnodup (hcount.trans hlength.symm) hbound⟩
  · refine hpairs.imp_of_mem ?_
    intro a b ha hb horder hash hash' hhash hhash'
    obtain ⟨key, hkey⟩ := hkeyed a ha
    obtain ⟨key', hkey'⟩ := hkeyed b hb
    have hlt := horder key key' hkey hkey'
    rw [symbolLookupKey_eq_ok hkey] at hhash
    rw [symbolLookupKey_eq_ok hkey'] at hhash'
    cases hhash
    cases hhash'
    simp only [lookupKeyLt, UInt64.lt_iff_toNat_lt, ← UInt64.toNat_inj] at hlt
    rw [UInt64.le_iff_toNat_le]
    omega

variable [StoreHasher]

/-- The interner of a trusted load of symbols that a full load accepts. -/
theorem inv_fromSnapshotParts_trusted
    {reader : Reader} {byteLen : Nat} {symbols : List String} {hashes : List UInt64}
    {lookup : List SymbolId}
    (hlength : hashes.length = reader.header.symbolCount)
    (hnodup : symbols.Nodup)
    (hhashes : hashes = symbols.map hashValue)
    (hlookup : decodeSymbolLookup reader hashes = .ok lookup) :
    (IdentifierInterner.mk byteLen symbols ∅ ∅ hashes lookup).Inv := by
  obtain ⟨hmem, hsorted⟩ := decodeSymbolLookup_ok hlookup hlength
  have hsame : hashes.length = symbols.length := by
    rw [hhashes, List.length_map]
  refine ⟨hnodup, ?_, fun _ => hsame, ?_, hsorted⟩
  · intro id value hresolve
    have hget : symbols[id.index]? = some value := resolve_eq_ok_iff.mp hresolve
    have hid : id ∈ lookup := by
      rw [hmem, hsame]
      exact (List.getElem?_eq_some_iff.mp hget).1
    refine (if_neg (List.ne_nil_of_mem hid)).mpr ⟨hid, ?_⟩
    show hashes[id.index]? = some (hashValue value)
    rw [hhashes, List.getElem?_map, hget]
    rfl
  · intro id hid
    show id.index < symbols.length
    rw [← hsame]
    exact (hmem id).mp hid

/-- The interner of a full load satisfies the invariant, and a trusted load has one with the
same symbols. -/
theorem decodeInterner_full
    {reader : Reader} {interner : IdentifierInterner}
    (h : decodeInterner reader .full = .ok interner) :
    interner.Inv ∧ interner.entries.length = reader.header.symbolCount ∧
      ∃ trusted, decodeInterner reader .trustedFastLoad = .ok trusted ∧ trusted.Inv ∧
        trusted.entries = interner.entries := by
  obtain ⟨⟨byteLen, symbols⟩, hsymbols, h⟩ := bind_eq_ok.mp h
  obtain ⟨hashes, hhashes, h⟩ := bind_eq_ok.mp h
  obtain ⟨lookup, hlookup, h⟩ := bind_eq_ok.mp h
  have hlength := decodeSymbolHashes_length hhashes
  have hcount := decodeSymbolTable_length hsymbols
  obtain ⟨hinv, hentries, hstored⟩ :=
    inv_fromSnapshotParts_full (hlength.trans hcount.symm) h
  have hnodup : symbols.Nodup := hentries ▸ hinv.nodup
  refine ⟨hinv, by rw [hentries, hcount], ⟨byteLen, symbols, ∅, ∅, hashes, lookup⟩, ?_,
    inv_fromSnapshotParts_trusted hlength hnodup hstored hlookup, hentries.symm⟩
  exact bind_eq_ok.mpr ⟨_, hsymbols, bind_eq_ok.mpr ⟨_, hhashes, bind_eq_ok.mpr ⟨_, hlookup, rfl⟩⟩⟩

omit [Blake3Hash] in
/-- Interners with the same symbols resolve and look up the same. -/
theorem lookup_eq_of_entries
    {a b : IdentifierInterner}
    (ha : a.Inv)
    (hb : b.Inv)
    (h : a.entries = b.entries)
    (value : String) :
    a.lookup value = b.lookup value := by
  apply Option.ext
  intro id
  rw [ha.lookup_eq_some_iff, hb.lookup_eq_some_iff,
    resolve_eq_ok_iff, resolve_eq_ok_iff, h]

end Load

/-! ## The interner as a bijection -/

section Runs

variable [StoreHasher]

/-- The symbols, each once, ordered by their hashes and then by their numbers. -/
structure SortedPermutation (hashes : List UInt64) (lookup : List SymbolId) : Prop where
  nodup : lookup.Nodup
  mem_iff : ∀ id : SymbolId, id ∈ lookup ↔ id.index < hashes.length
  sorted : lookup.Pairwise (fun a b => ∀ hash hash', hashes[a.index]? = some hash →
    hashes[b.index]? = some hash' → lookupKeyLt (hash, a.value.get) (hash', b.value.get))

/-- The empty interner, or one that a load builds from distinct symbols with their hashes. -/
inductive Built : IdentifierInterner → Prop
  | empty : Built .default
  | parts {byteLen : Nat} {symbols : List String} {hashes : List UInt64}
      {lookup : List SymbolId} {validation : SnapshotValidationMode}
      {interner : IdentifierInterner} :
      symbols.Nodup → hashes = symbols.map hashValue → SortedPermutation hashes lookup →
      fromSnapshotParts byteLen symbols hashes lookup validation = .ok interner → Built interner

/-- The interner of a trusted load of distinct symbols. -/
theorem inv_of_sortedPermutation
    {byteLen : Nat} {symbols : List String} {lookup : List SymbolId}
    (hnodup : symbols.Nodup)
    (hlookup : SortedPermutation (symbols.map hashValue) lookup) :
    (IdentifierInterner.mk byteLen symbols ∅ ∅ (symbols.map hashValue) lookup).Inv := by
  refine ⟨hnodup, ?_, fun _ => List.length_map _, ?_, ?_⟩
  · intro id value hresolve
    have hget : symbols[id.index]? = some value := resolve_eq_ok_iff.mp hresolve
    have hid : id ∈ lookup := by
      rw [hlookup.mem_iff, List.length_map]
      exact (List.getElem?_eq_some_iff.mp hget).1
    refine (if_neg (List.ne_nil_of_mem hid)).mpr ⟨hid, ?_⟩
    show (symbols.map hashValue)[id.index]? = some (hashValue value)
    rw [List.getElem?_map, hget]
    rfl
  · intro id hid
    have hlt := (hlookup.mem_iff id).mp hid
    rwa [List.length_map] at hlt
  · refine hlookup.sorted.imp ?_
    intro a b horder hash hash' hhash hhash'
    have hlt := horder hash hash' hhash hhash'
    simp only [lookupKeyLt, UInt64.lt_iff_toNat_lt, ← UInt64.toNat_inj] at hlt
    rw [UInt64.le_iff_toNat_le]
    omega

theorem Built.inv
    {interner : IdentifierInterner}
    (h : Built interner) :
    interner.Inv := by
  cases h with
  | empty => exact inv_default
  | @parts byteLen symbols hashes lookup validation _ hnodup hhashes hlookup hparts =>
      subst hhashes
      cases validation with
      | full => exact (inv_fromSnapshotParts_full (List.length_map _) hparts).1
      | trustedFastLoad =>
          cases hparts
          exact inv_of_sortedPermutation hnodup hlookup

/-- Interns strings in turn. -/
def internAll : List String → Action IdentifierInterner StoreError (List SymbolId)
  | [] => return []
  | value :: rest => do
      let id ← intern value
      let ids ← internAll rest
      return id :: ids

/-- Successful calls keep the invariant and the earlier strings, and their results resolve to
the strings. -/
theorem internAll_eq_ok
    {values : List String} {ids : List SymbolId} {start last : IdentifierInterner}
    (hinv : start.Inv)
    (h : internAll values start = (.ok ids, last)) :
    last.Inv ∧ start.entries <+: last.entries ∧
      List.Forall₂ (fun value id => last.resolve id = .ok value) values ids := by
  induction values generalizing start ids with
  | nil =>
      cases h
      exact ⟨hinv, List.prefix_rfl, List.Forall₂.nil⟩
  | cons value rest ih =>
      obtain ⟨id, next, hintern, h⟩ := Action.bind_eq_ok.mp h
      obtain ⟨rests, _, hrest, hlast⟩ := Action.bind_eq_ok.mp h
      cases hlast
      have hspec := hinv.intern value
      unfold Action.Ensures at hspec
      rw [hintern] at hspec
      obtain ⟨hnext, hprefix, hresolve⟩ := hspec
      obtain ⟨hinv', hprefix', hresolves⟩ := ih hnext hrest
      have hfirst := resolve_of_prefix hprefix' hresolve
      exact ⟨hinv', hprefix.trans hprefix', List.Forall₂.cons hfirst hresolves⟩

/-- Strings and their symbols determine each other, and interning a known string returns its
symbol. -/
structure IsBijection (interner : IdentifierInterner) : Prop where
  lookup_iff : ∀ value id, interner.lookup value = some id ↔ interner.resolve id = .ok value
  intern_known : ∀ value id, interner.resolve id = .ok value →
    intern value interner = (.ok id, interner)
  ids_distinct : ∀ value value' id, interner.lookup value = some id →
    interner.lookup value' = some id → value = value'

theorem isBijection_of_inv
    {interner : IdentifierInterner}
    (hinv : interner.Inv) :
    IsBijection interner := by
  refine ⟨fun value id => hinv.lookup_eq_some_iff, ?_, ?_⟩
  · intro value id hresolve
    have hlookup := hinv.lookup_eq_some_iff.mpr hresolve
    simp [intern, Action.bind_apply, hlookup]
  · intro value value' id hvalue hvalue'
    have hsame := (resolve_of_lookup hvalue).symm.trans (resolve_of_lookup hvalue')
    exact Except.ok.inj hsame

/-- Under any hash function, an interner that was built and has interned strings is a bijection
between strings and symbols, the symbols that it returned resolve to the strings, and no later
call changes what a symbol means. -/
theorem interner_bijection
    {start interner later : IdentifierInterner} {values values' : List String}
    {ids ids' : List SymbolId}
    (hbuilt : Built start)
    (hrun : internAll values start = (.ok ids, interner))
    (hlater : internAll values' interner = (.ok ids', later)) :
    IsBijection interner ∧
      List.Forall₂ (fun value id => interner.resolve id = .ok value) values ids ∧
      ∀ id value, interner.resolve id = .ok value → later.resolve id = .ok value := by
  obtain ⟨hinv, _, hresolves⟩ := internAll_eq_ok hbuilt.inv hrun
  obtain ⟨_, hprefix, _⟩ := internAll_eq_ok hinv hlater
  exact ⟨isBijection_of_inv hinv, hresolves, fun id value => resolve_of_prefix hprefix⟩

end Runs

/-- Two symbols of a trusted load and a third one under the same hash. -/
theorem interner_bijection_collisions :
    letI := constantHasher
    let symbol (n : Fin 3) : SymbolId := ⟨⟨n.val + 1, by omega, by omega⟩⟩
    ∃ interner, internAll ["viewer", "doc", "owner"]
        ⟨9, ["doc", "owner"], ∅, ∅, [0, 0], [symbol 0, symbol 1]⟩ =
          (.ok [symbol 2, symbol 0, symbol 1], interner) ∧ IsBijection interner := by
  let _ := constantHasher
  intro symbol
  have hmem : ∀ id : SymbolId, id ∈ [symbol 0, symbol 1] ↔ id.index < 2 := by
    intro id
    constructor
    · intro hid
      rcases List.mem_pair.mp hid with rfl | rfl
      · decide
      · decide
    · intro hlt
      have hcases : id.index = (symbol 0).index ∨ id.index = (symbol 1).index := by
        show id.index = 0 ∨ id.index = 1
        omega
      exact List.mem_pair.mpr (hcases.imp SymbolId.index_injective SymbolId.index_injective)
  have hlookup : SortedPermutation (["doc", "owner"].map hashValue) [symbol 0, symbol 1] := by
    refine ⟨by decide, hmem, List.pairwise_pair.mpr ?_⟩
    intro hash hash' hhash hhash'
    cases hhash
    cases hhash'
    exact Or.inr ⟨rfl, Nat.lt_succ_self 1⟩
  have hdistinct : ["doc", "owner"].Nodup := by decide
  have hparts : fromSnapshotParts 9 ["doc", "owner"] (["doc", "owner"].map hashValue)
      [symbol 0, symbol 1] .trustedFastLoad =
        .ok ⟨9, ["doc", "owner"], ∅, ∅, [0, 0], [symbol 0, symbol 1]⟩ := by
    unfold fromSnapshotParts
    rfl
  have hids : (internAll ["viewer", "doc", "owner"]
      ⟨9, ["doc", "owner"], ∅, ∅, [0, 0], [symbol 0, symbol 1]⟩).1 =
        .ok [symbol 2, symbol 0, symbol 1] := by
    decide +kernel
  have hrun := Prod.ext hids rfl
  have hlater : internAll [] (internAll ["viewer", "doc", "owner"]
      ⟨9, ["doc", "owner"], ∅, ∅, [0, 0], [symbol 0, symbol 1]⟩).2 = (.ok [], _) := rfl
  exact ⟨_, hrun, (interner_bijection (Built.parts hdistinct rfl hlookup hparts) hrun hlater).1⟩

end Snapshot

end SimpleZanzibar
