import Scriptlet.Bytes

/-!
# Packed byte strings

A script can build a long text piece by piece. The texts it works on are therefore kept
**packed**, in one piece of memory, where putting two together, comparing them and taking their
length cost little. Packing loses nothing, so a packed string is just another way to hold the same
bytes: `pack` and `unpack` are inverse to each other, and every operation on packed strings is the
one on the bytes they hold.
-/

namespace Scriptlet

namespace Bytes

/-- Bytes in one piece. -/
def pack (s : Bytes) : ByteArray :=
  s.toByteArray

/-- The bytes of a packed string. -/
def unpack (p : ByteArray) : Bytes :=
  p.data.toList

@[simp]
theorem unpack_pack (s : Bytes) : unpack (pack s) = s := by
  simp [unpack, pack, List.data_toByteArray]

@[simp]
theorem pack_unpack (p : ByteArray) : pack (unpack p) = p := by
  apply ByteArray.ext
  simp [unpack, pack, List.data_toByteArray]

theorem unpack_injective {p p' : ByteArray} (h : unpack p = unpack p') : p = p' := by
  rw [← pack_unpack p, ← pack_unpack p', h]

@[simp]
theorem unpack_append (p p' : ByteArray) : unpack (p ++ p') = unpack p ++ unpack p' := by
  simp [unpack, ByteArray.data_append]

@[simp]
theorem length_unpack (p : ByteArray) : (unpack p).length = p.size := by
  simp [unpack]

theorem packed_beq_iff {p p' : ByteArray} : (p == p') = true ↔ p = p' := by
  show (p.data == p'.data) = true ↔ p = p'
  rw [beq_iff_eq, ByteArray.ext_iff]

/-- Whether a packed string begins with another. -/
def packedBeginsWith (p start : ByteArray) : Bool :=
  p.extract 0 start.size == start

theorem unpack_extract (p : ByteArray) (n : Nat) :
    unpack (p.extract 0 n) = (unpack p).take n := by
  simp [unpack, ByteArray.data_extract]

theorem packedBeginsWith_eq (p start : ByteArray) :
    packedBeginsWith p start = beginsWith (unpack p) (unpack start) := by
  rw [Bool.eq_iff_iff, beginsWith_eq_true_iff, packedBeginsWith, packed_beq_iff]
  constructor
  · intro h
    refine ⟨(unpack p).drop start.size, ?_⟩
    rw [← h, unpack_extract, h, List.take_append_drop]
  · rintro ⟨r, h⟩
    apply unpack_injective
    rw [unpack_extract, h, ← length_unpack, List.take_left]

end Bytes

end Scriptlet
