import SimpleZanzibar.Lib.Action
import SimpleZanzibar.Lib.LittleEndian

/-!
# Reading from the front of a byte string

A cursor is the rest of a byte string that was not read yet.  A record is written by a
function from values to bytes; a reader of the record takes exactly these bytes off the front.

**Results.**
* `reads_readNat`: reading gives a written number back.
* `Reads.bind`, `Reads.map`: records field by field.
* `Reads.times`: a counted sequence of records.
-/

namespace ByteCursor

open SimpleZanzibar

variable {ε α β : Type}

/-- Takes bytes off the front. -/
def readBytes (truncated : ε) (count : Nat) : Action (List UInt8) ε (List UInt8) := fun bytes =>
  if count ≤ bytes.length then (.ok (bytes.take count), bytes.drop count)
  else (.error truncated, bytes)

/-- Takes a little-endian number of some width off the front. -/
def readNat (truncated : ε) (width : Nat) : Action (List UInt8) ε Nat := do
  let bytes ← readBytes truncated width
  return LittleEndian.decode bytes

/-- Reads records one after the other. -/
def times (reader : Action (List UInt8) ε α) : Nat → Action (List UInt8) ε (List α)
  | 0 => return []
  | count + 1 => do
      let item ← reader
      let items ← times reader count
      return item :: items

/-- The reader takes these bytes off the front and returns the value. -/
def Reads (reader : Action (List UInt8) ε α) (written : List UInt8) (value : α) : Prop :=
  ∀ rest, reader (written ++ rest) = (.ok value, rest)

theorem reads_readBytes
    (truncated : ε) {count : Nat} {bytes : List UInt8}
    (hlength : bytes.length = count) :
    Reads (readBytes truncated count) bytes bytes := by
  intro rest
  have hle : count ≤ (bytes ++ rest).length := by
    rw [List.length_append]
    omega
  unfold readBytes
  rw [if_pos hle, List.take_left' hlength, List.drop_left' hlength]

/-- Reading after reading. -/
theorem Reads.bind
    {reader : Action (List UInt8) ε α} {next : α → Action (List UInt8) ε β}
    {written written' : List UInt8} {value : α} {result : β}
    (hreader : Reads reader written value)
    (hnext : Reads (next value) written' result) :
    Reads (reader >>= next) (written ++ written') result := by
  intro rest
  rw [Action.bind_apply, List.append_assoc, hreader (written' ++ rest)]
  exact hnext rest

/-- Reading at the end of a record. -/
theorem Reads.bind_last
    {reader : Action (List UInt8) ε α} {next : α → Action (List UInt8) ε β}
    {written : List UInt8} {value : α} {result : β}
    (hreader : Reads reader written value)
    (hnext : Reads (next value) [] result) :
    Reads (reader >>= next) written result := by
  simpa using hreader.bind hnext

theorem reads_pure
    (value : α) :
    Reads (pure value : Action (List UInt8) ε α) [] value :=
  fun _ => rfl

theorem reads_lift
    {result : Except ε α} {value : α}
    (h : result = .ok value) :
    Reads (Action.lift result) [] value := by
  intro rest
  rw [h]
  rfl

/-- A check or a conversion between two reads. -/
theorem Reads.lift_bind
    {result : Except ε α} {next : α → Action (List UInt8) ε β} {written : List UInt8}
    {value : α} {final : β}
    (h : result = .ok value)
    (hnext : Reads (next value) written final) :
    Reads (Action.lift result >>= next) written final := by
  intro rest
  rw [Action.bind_apply, Action.lift_apply, h]
  exact hnext rest

/-- Nothing is left of what was written. -/
theorem Reads.apply
    {reader : Action (List UInt8) ε α} {written : List UInt8} {value : α}
    (h : Reads reader written value) :
    reader written = (.ok value, []) := by
  simpa using h []

/-- A value that is computed from what was read. -/
theorem Reads.map
    {reader : Action (List UInt8) ε α} {written : List UInt8} {value : α}
    (f : α → β)
    (hreader : Reads reader written value) :
    Reads (do let item ← reader; return f item) written (f value) := by
  intro rest
  rw [Action.bind_apply, hreader rest]
  rfl

theorem reads_readNat
    (truncated : ε) {width n : Nat}
    (hn : n < 256 ^ width) :
    Reads (readNat truncated width) (LittleEndian.encode width n) n := by
  have h := (reads_readBytes truncated (LittleEndian.length_encode width n)).map
    LittleEndian.decode
  rw [LittleEndian.decode_encode hn] at h
  exact h

/-- A counted sequence of records, each read as the value that it stands for. -/
theorem Reads.times_map
    {reader : Action (List UInt8) ε β} {write : α → List UInt8} {value : α → β}
    {items : List α}
    (h : ∀ item ∈ items, Reads reader (write item) (value item)) :
    Reads (ByteCursor.times reader items.length) (items.flatMap write) (items.map value) := by
  induction items with
  | nil => exact reads_pure []
  | cons item rest ih =>
      have hrest := ih (fun other hother => h other (List.mem_cons_of_mem item hother))
      exact (h item List.mem_cons_self).bind (hrest.map (value item :: ·))

/-- A counted sequence of records. -/
theorem Reads.times
    {reader : Action (List UInt8) ε α} {write : α → List UInt8} {items : List α}
    (h : ∀ item ∈ items, Reads reader (write item) item) :
    Reads (ByteCursor.times reader items.length) (items.flatMap write) items := by
  have hread := @Reads.times_map _ _ _ reader write id items h
  rwa [List.map_id] at hread

/-- As many records are read as were asked for. -/
theorem length_times
    {reader : Action (List UInt8) ε α} {count : Nat} {items : List α}
    {bytes rest : List UInt8}
    (h : times reader count bytes = (.ok items, rest)) :
    items.length = count := by
  induction count generalizing items bytes with
  | zero =>
      cases h
      rfl
  | succ count ih =>
      obtain ⟨item, bytes', _, h⟩ := Action.bind_eq_ok.mp h
      obtain ⟨items', rest', hitems, h⟩ := Action.bind_eq_ok.mp h
      cases h
      rw [List.length_cons, ih hitems]

end ByteCursor
