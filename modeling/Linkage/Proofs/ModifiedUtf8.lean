import Linkage.Text.ModifiedUtf8
import Mathlib.Data.List.Basic

namespace Linkage.Text

namespace Utf16

theorem toNat_toUInt16 {n : Nat} (h : n < 0x10000) : n.toUInt16.toNat = n :=
  UInt16.toNat_ofNat_of_lt' h

theorem isHighSurrogate_iff {u : UInt16} :
    isHighSurrogate u = true ↔ 0xD800 ≤ u.toNat ∧ u.toNat < 0xDC00 := by
  simp [isHighSurrogate, UInt16.le_iff_toNat_le, UInt16.lt_iff_toNat_lt]

theorem isLowSurrogate_iff {u : UInt16} :
    isLowSurrogate u = true ↔ 0xDC00 ≤ u.toNat ∧ u.toNat < 0xE000 := by
  simp [isLowSurrogate, UInt16.le_iff_toNat_le, UInt16.lt_iff_toNat_lt]

theorem decode_unit {u : UInt16} (hu : u.toNat < 0xD800 ∨ 0xE000 ≤ u.toNat) (rest : List UInt16) :
    decode (u :: rest) = (decode rest).map (Char.ofNat u.toNat :: ·) := by
  have hhigh : isHighSurrogate u = false := by
    rw [Bool.eq_false_iff, Ne, isHighSurrogate_iff]
    omega
  have hlow : isLowSurrogate u = false := by
    rw [Bool.eq_false_iff, Ne, isLowSurrogate_iff]
    omega
  cases rest with
  | nil => simp [decode, hhigh, hlow]
  | cons v rest => simp [decode, hhigh, hlow]

theorem decode_pair {u v : UInt16} (hu : isHighSurrogate u = true) (hv : isLowSurrogate v = true)
    (rest : List UInt16) : decode (u :: v :: rest) = (decode rest).map (pair u v :: ·) := by
  have hlow : isLowSurrogate u = false := by
    rw [isHighSurrogate_iff] at hu
    rw [Bool.eq_false_iff, Ne, isLowSurrogate_iff]
    omega
  simp [decode, hu, hv, hlow]

theorem decode_ofChar (c : Char) (rest : List UInt16) :
    decode (ofChar c ++ rest) = (decode rest).map (c :: ·) := by
  have hvalid : c.toNat < 0xD800 ∨ 0xDFFF < c.toNat ∧ c.toNat < 0x110000 := c.valid
  unfold ofChar
  dsimp only
  split
  next hbasic =>
    rw [List.singleton_append, decode_unit (by rw [toNat_toUInt16 hbasic]; omega),
      toNat_toUInt16 hbasic, Char.ofNat_toNat]
  next hbeyond =>
    have hhigh := toNat_toUInt16 (n := 0xD800 + (c.toNat - 0x10000) / 0x400) (by omega)
    have hlow := toNat_toUInt16 (n := 0xDC00 + (c.toNat - 0x10000) % 0x400) (by omega)
    have hpair : pair (0xD800 + (c.toNat - 0x10000) / 0x400).toUInt16
        (0xDC00 + (c.toNat - 0x10000) % 0x400).toUInt16 = c := by
      have hcode : 0x10000 + (0xD800 + (c.toNat - 0x10000) / 0x400 - 0xD800) * 0x400 +
          (0xDC00 + (c.toNat - 0x10000) % 0x400 - 0xDC00) = c.toNat := by
        omega
      rw [pair, hhigh, hlow, hcode, Char.ofNat_toNat]
    rw [List.cons_append, List.singleton_append, decode_pair, hpair]
    · rw [isHighSurrogate_iff, hhigh]
      omega
    · rw [isLowSurrogate_iff, hlow]
      omega

theorem decode_encode (cs : List Char) : decode (encode cs) = some cs := by
  induction cs with
  | nil => rfl
  | cons c rest ih =>
      change decode (ofChar c ++ encode rest) = _
      rw [decode_ofChar, ih, Option.map_some]

end Utf16

namespace ModifiedUtf8

theorem toNat_toUInt8 {n : Nat} (h : n < 0x100) : n.toUInt8.toNat = n :=
  UInt8.toNat_ofNat_of_lt' h

theorem toUInt8_toNat (b : UInt8) : b.toNat.toUInt8 = b :=
  UInt8.ofNat_toNat

theorem toUInt16_toNat (u : UInt16) : u.toNat.toUInt16 = u :=
  UInt16.ofNat_toNat

theorem isContinuation_of_lt {n : Nat} (h : n < 0x40) :
    isContinuation (0x80 + n).toUInt8 = true := by
  have hn := toNat_toUInt8 (n := 0x80 + n) (by omega)
  rw [isContinuation, Bool.and_eq_true, decide_eq_true_eq, decide_eq_true_eq, UInt8.le_iff_toNat_le,
    UInt8.lt_iff_toNat_lt, hn]
  exact ⟨Nat.le_add_right _ _, Nat.add_lt_add_left h 0x80⟩

theorem decodeUnits_one {n : Nat} (hpos : 0 < n) (h : n < 0x80) (rest : List UInt8) :
    decodeUnits (n.toUInt8 :: rest) = (decodeUnits rest).map (n.toUInt16 :: ·) := by
  have hn := toNat_toUInt8 (n := n) (by omega)
  have hzero : n.toUInt8 ≠ 0 := by
    rw [Ne, ← UInt8.toNat_inj, hn]
    exact Nat.ne_of_gt hpos
  have hsmall : n.toUInt8 < 0x80 := by
    rwa [UInt8.lt_iff_toNat_lt, hn]
  have hsame : n.toUInt8.toUInt16 = n.toUInt16 := by
    rw [← UInt16.toNat_inj, UInt8.toNat_toUInt16, hn, Utf16.toNat_toUInt16 (by omega)]
  rw [decodeUnits.eq_def]
  dsimp only
  rw [if_neg hzero, if_pos hsmall, hsame]

theorem leads {m x : Nat} (hm : 0xC0 ≤ m) (h : m + x < 0x100) :
    (m + x).toUInt8 ≠ 0 ∧ ¬(m + x).toUInt8 < 0x80 ∧ ¬(m + x).toUInt8 < 0xC0 ∧
      (m + x).toUInt8.toNat = m + x := by
  have hn := toNat_toUInt8 h
  rw [Ne, ← UInt8.toNat_inj, UInt8.lt_iff_toNat_lt, UInt8.lt_iff_toNat_lt, hn]
  change m + x ≠ 0 ∧ ¬m + x < 0x80 ∧ ¬m + x < 0xC0 ∧ m + x = m + x
  omega

theorem decodeUnits_two {x y : Nat} (hx : x < 0x20) (hy : y < 0x40) (rest : List UInt8) :
    decodeUnits ((0xC0 + x).toUInt8 :: (0x80 + y).toUInt8 :: rest) =
      (decodeUnits rest).map ((x * 0x40 + y).toUInt16 :: ·) := by
  obtain ⟨hzero, hone, hmiddle, hfirst⟩ := leads (m := 0xC0) (x := x) (by omega) (by omega)
  have htwo : (0xC0 + x).toUInt8 < 0xE0 := by
    rw [UInt8.lt_iff_toNat_lt, hfirst]
    exact Nat.add_lt_add_left hx 0xC0
  have hsecond := toNat_toUInt8 (n := 0x80 + y) (by omega)
  rw [decodeUnits.eq_def]
  dsimp only
  rw [if_neg hzero, if_neg hone, if_neg hmiddle, if_pos htwo]
  simp only [isContinuation_of_lt hy, if_true, hfirst, hsecond, Nat.add_sub_cancel_left]

theorem decodeUnits_three {x y z : Nat} (hx : x < 0x10) (hy : y < 0x40) (hz : z < 0x40)
    (rest : List UInt8) :
    decodeUnits ((0xE0 + x).toUInt8 :: (0x80 + y).toUInt8 :: (0x80 + z).toUInt8 :: rest) =
      (decodeUnits rest).map ((x * 0x1000 + y * 0x40 + z).toUInt16 :: ·) := by
  obtain ⟨hzero, hone, hmiddle, hfirst⟩ := leads (m := 0xE0) (x := x) (by omega) (by omega)
  have htwo : ¬(0xE0 + x).toUInt8 < 0xE0 := by
    rw [UInt8.lt_iff_toNat_lt, hfirst]
    exact Nat.not_lt.mpr (Nat.le_add_right 0xE0 x)
  have hthree : (0xE0 + x).toUInt8 < 0xF0 := by
    rw [UInt8.lt_iff_toNat_lt, hfirst]
    exact Nat.add_lt_add_left hx 0xE0
  have hsecond := toNat_toUInt8 (n := 0x80 + y) (by omega)
  have hthird := toNat_toUInt8 (n := 0x80 + z) (by omega)
  rw [decodeUnits.eq_def]
  dsimp only
  rw [if_neg hzero, if_neg hone, if_neg hmiddle, if_neg htwo, if_pos hthree]
  simp only [isContinuation_of_lt hy, isContinuation_of_lt hz, Bool.and_self, if_true, hfirst,
    hsecond, hthird, Nat.add_sub_cancel_left]

def twoBytes (n : Nat) : List UInt8 :=
  [(0xC0 + n / 0x40).toUInt8, (0x80 + n % 0x40).toUInt8]

def threeBytes (n : Nat) : List UInt8 :=
  [(0xE0 + n / 0x1000).toUInt8, (0x80 + n / 0x40 % 0x40).toUInt8, (0x80 + n % 0x40).toUInt8]

inductive IsGroup (u : UInt16) : List UInt8 → Prop
  | one (hpos : 0 < u.toNat) (h : u.toNat < 0x80) : IsGroup u [u.toNat.toUInt8]
  | two (h : u.toNat < 0x800) : IsGroup u (twoBytes u.toNat)
  | three : IsGroup u (threeBytes u.toNat)

theorem IsGroup.decodeUnits {u : UInt16} {group : List UInt8} (h : IsGroup u group)
    (rest : List UInt8) : decodeUnits (group ++ rest) = (decodeUnits rest).map (u :: ·) := by
  have hu : u.toNat < 0x10000 := u.toNat_lt
  cases h with
  | one hpos h => rw [List.singleton_append, decodeUnits_one hpos h, toUInt16_toNat]
  | two h =>
      have hvalue : u.toNat / 0x40 * 0x40 + u.toNat % 0x40 = u.toNat := by omega
      rw [twoBytes, List.cons_append, List.singleton_append,
        decodeUnits_two (by omega) (by omega), hvalue, toUInt16_toNat]
  | three =>
      have hvalue : u.toNat / 0x1000 * 0x1000 + u.toNat / 0x40 % 0x40 * 0x40 + u.toNat % 0x40 =
          u.toNat := by
        omega
      rw [threeBytes, List.cons_append, List.cons_append, List.singleton_append,
        decodeUnits_three (by omega) (by omega) (by omega), hvalue, toUInt16_toNat]

theorem isGroup_encodeUnit (u : UInt16) : IsGroup u (encodeUnit u) := by
  unfold encodeUnit
  dsimp only
  split
  next hone => exact .one hone.1 hone.2
  next =>
    split
    next htwo => exact .two htwo
    next => exact .three

theorem decodeUnits_encodeUnit (u : UInt16) (rest : List UInt8) :
    decodeUnits (encodeUnit u ++ rest) = (decodeUnits rest).map (u :: ·) :=
  (isGroup_encodeUnit u).decodeUnits rest

theorem decodeUnits_encode (us : List UInt16) : decodeUnits (us.flatMap encodeUnit) = some us := by
  induction us with
  | nil => rfl
  | cons u rest ih => rw [List.flatMap_cons, decodeUnits_encodeUnit, ih, Option.map_some]

theorem decode_encode (s : String) : decode (encode s) = some s := by
  rw [decode, encode, decodeUnits_encode]
  change (do
    let chars ← Utf16.decode (Utf16.encode s.toList)
    return String.ofList chars) = some s
  rw [Utf16.decode_encode]
  simp

end ModifiedUtf8

end Linkage.Text
