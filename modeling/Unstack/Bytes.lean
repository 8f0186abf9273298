import Unstack.Text.Numeral

/-!
# Bytes

Fixed-width little-endian numbers, and bytes written as hexadecimal digit pairs.
-/

namespace Unstack.Bytes

/-- The `width` little-endian bytes of a natural; higher bits are dropped. -/
def ofNat : (width n : Nat) → List UInt8
  | 0, _ => []
  | width + 1, n => UInt8.ofNat (n % 256) :: ofNat width (n / 256)

/-- The natural with the given little-endian bytes. -/
def toNat : List UInt8 → Nat
  | [] => 0
  | byte :: rest => byte.toNat + 256 * toNat rest

/-- The `width` little-endian bytes of an integer in two's complement. -/
def ofInt (width : Nat) (value : Int) : List UInt8 :=
  ofNat width (value % (Nat.pow 256 width : Nat)).toNat

/-- The integer that `width` bytes stand for in two's complement, given as a natural. -/
def signed (width n : Nat) : Int := Int.bmod n (Nat.pow 256 width)

/-- The natural in the first `width` bytes, if there are so many. -/
def read? (width : Nat) (bytes : List UInt8) : Option Nat :=
  let field := bytes.take width
  if field.length = width then some (toNat field) else none

/-- The bytes of a natural are as many as asked for. -/
@[simp] theorem length_ofNat (width n : Nat) : (ofNat width n).length = width := by
  induction width generalizing n with
  | zero => rfl
  | succ width ih => simp [ofNat, ih]

/-- A natural read from bytes is below the power of their number. -/
theorem toNat_lt (bytes : List UInt8) : toNat bytes < Nat.pow 256 bytes.length := by
  induction bytes with
  | nil => exact Nat.zero_lt_one
  | cons byte rest ih =>
    have hbyte := byte.toNat_lt
    change byte.toNat + 256 * toNat rest < Nat.pow 256 rest.length * 256
    omega

/-- Writing the natural that was read gives the bytes back. -/
theorem ofNat_toNat (bytes : List UInt8) : ofNat bytes.length (toNat bytes) = bytes := by
  induction bytes with
  | nil => rfl
  | cons byte rest ih =>
    have hbyte := byte.toNat_lt
    have hlow : (byte.toNat + 256 * toNat rest) % 256 = byte.toNat := by omega
    have hhigh : (byte.toNat + 256 * toNat rest) / 256 = toNat rest := by omega
    rw [toNat, List.length_cons, ofNat, hlow, hhigh, ih, UInt8.ofNat_toNat]

/-- Reading the bytes of a natural that fits gives it back. -/
theorem toNat_ofNat {width n : Nat} (h : n < Nat.pow 256 width) : toNat (ofNat width n) = n := by
  induction width generalizing n with
  | zero =>
    change n < 1 at h
    rw [ofNat, toNat]
    omega
  | succ width ih =>
    change n < Nat.pow 256 width * 256 at h
    have hhigh : n / 256 < Nat.pow 256 width := by omega
    rw [ofNat, toNat, ih hhigh, UInt8.toNat_ofNat']
    omega

/-- The bytes of an integer are as many as asked for. -/
@[simp] theorem length_ofInt (width : Nat) (value : Int) : (ofInt width value).length = width :=
  length_ofNat _ _

/-- Two's complement in `width` bytes covers the integer. -/
def Covers (width : Nat) (value : Int) : Prop :=
  -(Nat.pow 256 width : Nat) ≤ value * 2 ∧ value * 2 < (Nat.pow 256 width : Nat)

/-- A signed number that is read is one that its bytes cover. -/
theorem covers_signed (width n : Nat) : Covers width (signed width n) := by
  have hpos : 0 < Nat.pow 256 width := Nat.pow_pos (by decide)
  have hlow : -((Nat.pow 256 width : Nat) / 2 : Int) ≤ signed width n := Int.le_bmod hpos
  have hhigh : signed width n < ((Nat.pow 256 width : Nat) + 1) / 2 := Int.bmod_lt hpos
  unfold Covers
  omega

/-- A natural that fits is written as the integer it is. -/
theorem ofInt_natCast {width n : Nat} (h : n < Nat.pow 256 width) :
    ofInt width (n : Int) = ofNat width n := by
  rw [ofInt, ← Int.natCast_emod, Nat.mod_eq_of_lt h, Int.toNat_natCast]

/-- Reading the bytes of an integer that is a natural and fits gives it back. -/
theorem toNat_ofInt {width : Nat} {value : Int} (hnonneg : 0 ≤ value)
    (h : value < (Nat.pow 256 width : Nat)) : (toNat (ofInt width value) : Int) = value := by
  obtain ⟨n, rfl⟩ := Int.eq_ofNat_of_zero_le hnonneg
  have hlt : n < Nat.pow 256 width := Int.ofNat_lt.mp h
  rw [ofInt_natCast hlt, toNat_ofNat hlt]

/-- Writing a signed number that was read gives its bytes. -/
theorem ofInt_signed {width n : Nat} (h : n < Nat.pow 256 width) :
    ofInt width (signed width n) = ofNat width n := by
  have hmod : signed width n % (Nat.pow 256 width : Nat) = n := by
    rw [signed, Int.bmod_emod, ← Int.natCast_emod, Nat.mod_eq_of_lt h]
  rw [ofInt, hmod, Int.toNat_natCast]

/-- Reading the bytes of an integer that they cover gives it back. -/
theorem signed_toNat_ofInt {width : Nat} {value : Int} (h : Covers width value) :
    signed width (toNat (ofInt width value)) = value := by
  have hpos : 0 < Nat.pow 256 width := Nat.pow_pos (by decide)
  have hnonneg : 0 ≤ value % (Nat.pow 256 width : Nat) := Int.emod_nonneg value (by omega)
  have hlt : value % (Nat.pow 256 width : Nat) < (Nat.pow 256 width : Nat) :=
    Int.emod_lt_of_pos value (by omega)
  rw [ofInt, toNat_ofNat (by omega), signed, Int.toNat_of_nonneg hnonneg, Int.emod_bmod]
  exact Int.bmod_eq_of_le_mul_two h.1 h.2

/-- Is the character skipped between hexadecimal digits? Space, tab, line feed, form feed and
carriage return are. -/
def isSeparator (c : Char) : Bool :=
  c == ' ' || c == '\t' || c == '\n' || c == '\x0c' || c == '\r'

/-- The bytes that pairs of hexadecimal digits stand for. -/
def ofDigits? : List Char → Option (List UInt8)
  | [] => some []
  | [_] => none
  | high :: low :: rest =>
    match Numeral.digitValue high, Numeral.digitValue low, ofDigits? rest with
    | some h, some l, some bytes => some (UInt8.ofNat (16 * h + l) :: bytes)
    | _, _, _ => none

/-- The bytes of a hexadecimal text, in which separators may stand anywhere. -/
def ofHex? (text : String) : Option (List UInt8) :=
  ofDigits? (text.toList.filter (!isSeparator ·))

end Unstack.Bytes
