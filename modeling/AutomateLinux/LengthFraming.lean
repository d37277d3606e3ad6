import Mathlib.Data.List.Basic
import Mathlib.Tactic.Ring

/-!
# Messages behind their length

A sender writes the length of each message in a field of fixed width, least significant byte
first, and the message behind it.  A receiver that reads the field and then as many bytes
gets the messages back, one after the other, if their lengths fit the field.
-/

namespace LengthFraming

def pack (width n : ℕ) : List UInt8 :=
  (List.range width).map fun i => UInt8.ofNat (n / 256 ^ i)

def unpack : List UInt8 → ℕ
  | [] => 0
  | byte :: bytes => byte.toNat + 256 * unpack bytes

@[simp] theorem length_pack (width n : ℕ) : (pack width n).length = width := by
  simp [pack]

theorem pack_succ (width n : ℕ) :
    pack (width + 1) n = UInt8.ofNat n :: pack width (n / 256) := by
  rw [pack, List.range_succ_eq_map, List.map_cons, List.map_map, pow_zero, Nat.div_one, pack]
  congr 1
  refine List.map_congr_left fun i _ => ?_
  rw [Function.comp_apply, Nat.succ_eq_add_one, pow_succ', Nat.div_div_eq_div_mul]

theorem unpack_pack {width n : ℕ} (hn : n < 256 ^ width) : unpack (pack width n) = n := by
  induction width generalizing n with
  | zero => simp_all [pack, unpack]
  | succ width ih =>
      have hrest : n / 256 < 256 ^ width := by
        rw [pow_succ'] at hn
        exact Nat.div_lt_of_lt_mul hn
      have hbyte : (UInt8.ofNat n).toNat = n % 256 := UInt8.toNat_ofNat'
      rw [pack_succ, unpack, ih hrest, hbyte]
      omega

/-- A message as it is sent. -/
def frame (width : ℕ) (message : List UInt8) : List UInt8 :=
  pack width message.length ++ message

theorem take_frame (width : ℕ) (message rest : List UInt8) :
    (frame width message ++ rest).take width = pack width message.length := by
  rw [frame, List.append_assoc]
  exact List.take_left' (length_pack width _)

theorem drop_frame (width : ℕ) (message rest : List UInt8) :
    (frame width message ++ rest).drop width = message ++ rest := by
  rw [frame, List.append_assoc]
  exact List.drop_left' (length_pack width _)

/-- What a receiver takes for the length of the first message. -/
theorem unpack_take_frame {width : ℕ} {message : List UInt8}
    (hlength : message.length < 256 ^ width) (rest : List UInt8) :
    unpack ((frame width message ++ rest).take width) = message.length := by
  rw [take_frame, unpack_pack hlength]

end LengthFraming
