import Mathlib.Algebra.Group.Nat.Defs
import Mathlib.Data.List.Basic

/-!
# Little-endian numbers and framed byte strings

A number is written as a fixed count of bytes, least significant first.  A frame is a byte
string behind its length, and a list of frames can be read back from their concatenation.

**Results.**
* `decode_encode`, `encode_decode`: writing and reading a number are inverse on its width.
* `flatMap_frame_injective`: equal streams of frames come from equal lists.
-/

namespace LittleEndian

/-- The lowest `width` bytes of a number. -/
def encode : Nat → Nat → List UInt8
  | 0, _ => []
  | width + 1, n => UInt8.ofNat n :: encode width (n / 256)

/-- The number that the bytes stand for. -/
def decode : List UInt8 → Nat
  | [] => 0
  | byte :: rest => byte.toNat + 256 * decode rest

@[simp] theorem length_encode
    (width n : Nat) :
    (encode width n).length = width := by
  induction width generalizing n with
  | zero => rfl
  | succ width ih => rw [encode, List.length_cons, ih]

/-- Reading gives the number back up to the width. -/
theorem decode_encode_mod
    (width n : Nat) :
    decode (encode width n) = n % 256 ^ width := by
  induction width generalizing n with
  | zero => simp [encode, decode, Nat.mod_one]
  | succ width ih =>
      have hbyte : (UInt8.ofNat n).toNat = n % 256 := UInt8.toNat_ofNat'
      rw [encode, decode, ih, hbyte, Nat.pow_succ, Nat.mul_comm (256 ^ width), Nat.mod_mul]

theorem decode_encode
    {width n : Nat}
    (h : n < 256 ^ width) :
    decode (encode width n) = n := by
  rw [decode_encode_mod, Nat.mod_eq_of_lt h]

theorem decode_lt
    (bytes : List UInt8) :
    decode bytes < 256 ^ bytes.length := by
  induction bytes with
  | nil => exact Nat.one_pos
  | cons byte rest ih =>
      have hbyte := byte.toNat_lt
      rw [decode, List.length_cons, Nat.pow_succ]
      omega

/-- Writing gives the bytes back. -/
theorem encode_decode
    (bytes : List UInt8) :
    encode bytes.length (decode bytes) = bytes := by
  induction bytes with
  | nil => rfl
  | cons byte rest ih =>
      have hbyte := byte.toNat_lt
      rw [List.length_cons, encode, decode]
      congr 1
      · apply UInt8.toNat_inj.mp
        have hfirst : (UInt8.ofNat (byte.toNat + 256 * decode rest)).toNat =
            (byte.toNat + 256 * decode rest) % 256 := UInt8.toNat_ofNat'
        omega
      · rw [show (byte.toNat + 256 * decode rest) / 256 = decode rest by omega, ih]

/-- A byte string behind its length. -/
def frame (width : Nat) (bytes : List UInt8) : List UInt8 :=
  encode width bytes.length ++ bytes

/-- The first frame of a stream can be read off. -/
theorem frame_append_inj
    {width : Nat} {bytes bytes' rest rest' : List UInt8}
    (hlength : bytes.length < 256 ^ width)
    (hlength' : bytes'.length < 256 ^ width)
    (h : frame width bytes ++ rest = frame width bytes' ++ rest') :
    bytes = bytes' ∧ rest = rest' := by
  unfold frame at h
  rw [List.append_assoc, List.append_assoc] at h
  obtain ⟨hcount, htail⟩ := List.append_inj h (by simp)
  have hsame : bytes.length = bytes'.length := by
    rw [← decode_encode hlength, ← decode_encode hlength', hcount]
  exact List.append_inj htail hsame

/-- Equal streams of frames come from equal lists. -/
theorem flatMap_frame_injective
    {width : Nat}
    (hwidth : 0 < width)
    {frames frames' : List (List UInt8)}
    (hlength : ∀ bytes ∈ frames, bytes.length < 256 ^ width)
    (hlength' : ∀ bytes ∈ frames', bytes.length < 256 ^ width)
    (h : frames.flatMap (frame width) = frames'.flatMap (frame width)) :
    frames = frames' := by
  have hne : ∀ bytes : List UInt8, frame width bytes ≠ [] := by
    intro bytes hnil
    have := congrArg List.length hnil
    simp only [frame, List.length_append, length_encode, List.length_nil] at this
    omega
  induction frames generalizing frames' with
  | nil =>
      cases frames' with
      | nil => rfl
      | cons bytes' rest' =>
          rw [List.flatMap_nil, List.flatMap_cons] at h
          exact absurd (List.append_eq_nil_iff.mp h.symm).1 (hne bytes')
  | cons bytes rest ih =>
      cases frames' with
      | nil =>
          rw [List.flatMap_nil, List.flatMap_cons] at h
          exact absurd (List.append_eq_nil_iff.mp h).1 (hne bytes)
      | cons bytes' rest' =>
          rw [List.flatMap_cons, List.flatMap_cons] at h
          obtain ⟨rfl, hrest⟩ := frame_append_inj (hlength bytes (List.mem_cons_self ..))
            (hlength' bytes' (List.mem_cons_self ..)) h
          rw [ih (fun b hb => hlength b (List.mem_cons_of_mem _ hb))
            (fun b hb => hlength' b (List.mem_cons_of_mem _ hb)) hrest]

end LittleEndian
