import Linkage.Proofs.Framing

namespace Linkage

open Decoder

namespace Constant

def width (c : Constant) : Nat :=
  if c.isWide then 2 else 1

def totalWidth : List Constant → Nat
  | [] => 0
  | c :: rest => c.width + totalWidth rest

variable {c : Constant} {cs : List Constant} {k n : Nat}

theorem length_slots (c : Constant) : c.slots.length = c.width := by
  unfold slots width
  cases c.isWide <;> rfl

theorem length_flatMap_slots (cs : List Constant) : (cs.flatMap slots).length = totalWidth cs := by
  induction cs with
  | nil => rfl
  | cons c rest ih => rw [List.flatMap_cons, List.length_append, length_slots, ih, totalWidth]

theorem textLength_of_isWide (h : c.isWide = true) : c.textLength = 0 := by
  cases c with
  | utf8 text => simp [isWide] at h
  | _ => rfl

theorem split_at_constant (h : cs[k]? = some c) : cs.flatMap slots =
    (cs.take k).flatMap slots ++ (c.slots ++ (cs.drop (k + 1)).flatMap slots) := by
  obtain ⟨hk, rfl⟩ := List.getElem?_eq_some_iff.mp h
  rw [← List.flatMap_cons, ← List.drop_eq_getElem_cons hk, ← List.flatMap_append,
    List.take_append_drop]

theorem slot_of_constant (h : cs[k]? = some c) :
    (cs.flatMap slots)[totalWidth (cs.take k)]? = some (some c) := by
  rw [split_at_constant h, ← length_flatMap_slots, List.getElem?_append_right (Nat.le_refl _),
    Nat.sub_self]
  unfold slots
  cases c.isWide <;> rfl

theorem slot_behind_wide (h : cs[k]? = some c) (hwide : c.isWide = true) :
    (cs.flatMap slots)[totalWidth (cs.take k) + 1]? = some none := by
  rw [split_at_constant h, ← length_flatMap_slots,
    List.getElem?_append_right (Nat.le_add_right _ _), Nat.add_sub_cancel_left]
  simp [slots, hwide]

theorem slots_getElem?_iff {d : Constant} : d.slots[n]? = some (some c) ↔ n = 0 ∧ c = d := by
  unfold slots
  cases d.isWide with
  | false => rcases n with _ | n <;> simp [eq_comm]
  | true => rcases n with _ | _ | n <;> simp [eq_comm]

theorem constant_of_slot (h : (cs.flatMap slots)[n]? = some (some c)) :
    ∃ k, cs[k]? = some c ∧ n = totalWidth (cs.take k) := by
  induction cs generalizing n with
  | nil => simp at h
  | cons d rest ih =>
      rw [List.flatMap_cons] at h
      by_cases hn : n < d.slots.length
      · rw [List.getElem?_append_left hn, slots_getElem?_iff] at h
        obtain ⟨rfl, rfl⟩ := h
        exact ⟨0, rfl, rfl⟩
      · rw [List.getElem?_append_right (Nat.le_of_not_lt hn), length_slots] at h
        obtain ⟨k, hk, hwidth⟩ := ih h
        rw [length_slots] at hn
        refine ⟨k + 1, hk, ?_⟩
        rw [List.take_succ_cons, totalWidth]
        omega

theorem slot_iff : (cs.flatMap slots)[n]? = some (some c) ↔
    ∃ k, cs[k]? = some c ∧ n = totalWidth (cs.take k) := by
  refine ⟨constant_of_slot, ?_⟩
  rintro ⟨k, hk, rfl⟩
  exact slot_of_constant hk

end Constant

namespace ConstantPool

open Constant

variable {pool : ConstantPool} {cs : List Constant} {c : Constant} {index : UInt16}

structure Indexes (pool : ConstantPool) (cs : List Constant) : Prop where
  get_iff : ∀ index c, pool.get index = .ok c ↔
    ∃ k, cs[k]? = some c ∧ index.toNat = 1 + totalWidth (cs.take k)
  zero : pool.get 0 = .error (.invalidIndex 0)
  second : ∀ k c index, cs[k]? = some c → c.isWide = true →
    index.toNat = 2 + totalWidth (cs.take k) → pool.get index = .error (.invalidIndex index)
  beyond : ∀ index, totalWidth cs < index.toNat → pool.get index = .error (.invalidIndex index)

theorem get_eq_ok_iff : pool.get index = .ok c ↔
    index ≠ 0 ∧ pool.slots.toList[index.toNat - 1]? = some (some c) := by
  unfold get get?
  split
  next found hfound =>
    split at hfound
    next => cases hfound
    next hzero =>
      rw [Option.join_eq_some_iff, ← Array.getElem?_toList] at hfound
      simp [hzero, hfound]
  next hnone =>
    split at hnone
    next hzero => simp [hzero]
    next hzero =>
      rw [Option.join_eq_none_iff, ← Array.getElem?_toList] at hnone
      rcases hnone with hnone | hnone <;> simp [hzero, hnone]

theorem get_eq_error (h : ∀ c, pool.get index ≠ .ok c) :
    pool.get index = .error (.invalidIndex index) := by
  unfold get at h ⊢
  cases hfound : pool.get? index with
  | none => rfl
  | some c => exact absurd (by rw [hfound]) (h c)

theorem slots_pushAll_empty (cs : List Constant) :
    (empty.pushAll cs).slots.toList = cs.flatMap Constant.slots :=
  slots_pushAll

theorem toNat_ne_zero : index ≠ 0 ↔ 0 < index.toNat := by
  rw [Ne, ← UInt16.toNat_inj]
  exact Nat.pos_iff_ne_zero.symm

theorem indexes_pushAll (cs : List Constant) : (empty.pushAll cs).Indexes cs where
  get_iff index c := by
    rw [get_eq_ok_iff, slots_pushAll_empty, slot_iff, toNat_ne_zero]
    constructor
    · rintro ⟨hpos, k, hk, hindex⟩
      exact ⟨k, hk, by omega⟩
    · rintro ⟨k, hk, hindex⟩
      exact ⟨by omega, k, hk, by omega⟩
  zero := rfl
  second k c index hk hwide hindex := by
    refine get_eq_error fun d hd => ?_
    have hslot := (get_eq_ok_iff.mp hd).2
    have hsecond : index.toNat - 1 = totalWidth (cs.take k) + 1 := by omega
    rw [slots_pushAll_empty, hsecond, slot_behind_wide hk hwide] at hslot
    cases hslot
  beyond index hindex := by
    refine get_eq_error fun d hd => ?_
    obtain ⟨hlt, -⟩ := List.getElem?_eq_some_iff.mp (get_eq_ok_iff.mp hd).2
    rw [slots_pushAll_empty, length_flatMap_slots] at hlt
    omega

theorem decode_counted (count : UInt16) (input : Bytes) :
    decode (Bytes.ofUInt16 count ++ input) = decodeSlots count (count.toNat - 1) empty input :=
  bind_apply_ok (reads_word count input)

theorem decode_cut_short (hfits : ∀ c ∈ cs, c.textLength ≤ 65535) (hwide : c.isWide = true)
    (hwidth : totalWidth cs + 1 ≤ 65534) (rest : Bytes) :
    decode (Bytes.ofUInt16 (totalWidth cs + 2).toUInt16 ++
        (cs.flatMap Constant.encode ++ (c.encode ++ rest))) =
      .error (.invalidIndex (totalWidth cs + 2).toUInt16) := by
  have hread := Constant.reads_encode ((textLength_of_isWide hwide).trans_le (Nat.zero_le _)) rest
  rw [decode_counted, toNat_count (by omega), Nat.add_sub_assoc (by omega), ← length_flatMap_slots,
    decodeSlots_encode _ hfits]
  simp [decodeSlots, hread, hwide, bind, Except.bind]

theorem constants_are_indexed_by_width (hfits : ∀ c ∈ cs, c.textLength ≤ 65535)
    (hwidth : totalWidth cs ≤ 65534) :
    (∃ pool, Reads decode
        (Bytes.ofUInt16 (totalWidth cs + 1).toUInt16 ++ cs.flatMap Constant.encode) pool ∧
      pool.Indexes cs) ∧
    ∀ c : Constant, c.isWide = true → totalWidth cs + 1 ≤ 65534 → ∀ rest,
      decode (Bytes.ofUInt16 (totalWidth cs + 2).toUInt16 ++
          (cs.flatMap Constant.encode ++ (c.encode ++ rest))) =
        .error (.invalidIndex (totalWidth cs + 2).toUInt16) := by
  refine ⟨⟨_, ?_, indexes_pushAll cs⟩, fun c hwide hlast => decode_cut_short hfits hwide hlast⟩
  rw [← length_flatMap_slots] at hwidth ⊢
  exact reads_constants hfits hwidth

def mixedConstants : List Constant := [
  .integer 7, .long (-1), .utf8 "a/\x00🦊", .classRef 4, .double 0x3FF0000000000000]

theorem mixedConstants_are_indexed : (∀ c ∈ mixedConstants, c.textLength ≤ 65535) ∧
    totalWidth mixedConstants = 7 ∧
    (∃ pool, Reads decode
        (Bytes.ofUInt16 8 ++ mixedConstants.flatMap Constant.encode) pool ∧
      pool.get 2 = .ok (.long (-1)) ∧ pool.get 3 = .error (.invalidIndex 3) ∧
      pool.get 4 = .ok (.utf8 "a/\x00🦊") ∧ pool.get 7 = .error (.invalidIndex 7) ∧
      pool.get 8 = .error (.invalidIndex 8)) ∧
    ∀ rest, decode (Bytes.ofUInt16 9 ++ (mixedConstants.flatMap Constant.encode ++
      ((Constant.long 1).encode ++ rest))) = .error (.invalidIndex 9) := by
  have hfits : ∀ c ∈ mixedConstants, c.textLength ≤ 65535 := by decide +kernel
  obtain ⟨⟨pool, hread, hindexes⟩, hcut⟩ := constants_are_indexed_by_width hfits (by decide)
  refine ⟨hfits, rfl, ⟨pool, hread, ?_, ?_, ?_, ?_, ?_⟩, hcut (.long 1) rfl (by decide)⟩
  · exact (hindexes.get_iff 2 _).mpr ⟨1, rfl, rfl⟩
  · exact hindexes.second 1 _ 3 rfl rfl rfl
  · exact (hindexes.get_iff 4 _).mpr ⟨2, rfl, rfl⟩
  · exact hindexes.second 4 _ 7 rfl rfl rfl
  · exact hindexes.beyond 8 (by decide)

end ConstantPool

end Linkage
