import Linkage.ClassFile.Assembler
import Linkage.Proofs.ModifiedUtf8
import Linkage.Proofs.Reading

namespace Linkage

open Decoder

namespace Constant

def textLength : Constant → Nat
  | utf8 text => (Text.ModifiedUtf8.encode text).length
  | _ => 0

theorem reads_tagged {α : Type} {tag : UInt8} {k : UInt8 → Decoder α} {bytes : Bytes} {a : α}
    (h : Reads (k tag) bytes a) : Reads (byte >>= k) (tag :: bytes) a :=
  (reads_byte tag).bind h

theorem reads_wordPair {f : UInt16 → UInt16 → Constant} (a b : UInt16) :
    Reads (do return f (← word) (← word)) (Bytes.ofUInt16 a ++ Bytes.ofUInt16 b) (f a b) :=
  (reads_word a).bind ((reads_word b).end (.pure _))

theorem reads_text {text : String} (h : (Text.ModifiedUtf8.encode text).length ≤ 65535) :
    Reads decodeText (Bytes.ofUInt16 (Text.ModifiedUtf8.encode text).length.toUInt16 ++
      Text.ModifiedUtf8.encode text) text := by
  refine (reads_word _).bind ?_
  rw [toNat_count h]
  refine (reads_take _).end ?_
  rw [Text.ModifiedUtf8.decode_encode]
  exact .pure text

theorem reads_encode {c : Constant} (h : c.textLength ≤ 65535) : Reads decode c.encode c := by
  cases c with
  | utf8 text => exact reads_tagged ((reads_text h).end (.pure _))
  | integer value =>
      have hvalue : value.toUInt32.toInt32 = value := rfl
      exact reads_tagged ((reads_doubleWord _).end (hvalue ▸ .pure _))
  | float bits => exact reads_tagged ((reads_doubleWord bits).end (.pure _))
  | long value =>
      have hvalue : value.toUInt64.toInt64 = value := rfl
      exact reads_tagged ((reads_quadWord _).end (hvalue ▸ .pure _))
  | double bits => exact reads_tagged ((reads_quadWord bits).end (.pure _))
  | classRef name => exact reads_tagged ((reads_word name).end (.pure _))
  | string text => exact reads_tagged ((reads_word text).end (.pure _))
  | memberRef role owner member =>
      cases role with
      | field => exact reads_tagged (reads_wordPair owner member)
      | method => exact reads_tagged (reads_wordPair owner member)
      | interfaceMethod => exact reads_tagged (reads_wordPair owner member)
  | nameAndType name descriptor => exact reads_tagged (reads_wordPair name descriptor)
  | methodHandle mode member =>
      exact reads_tagged (reads_tagged ((reads_word member).end (.pure _)))
  | methodType descriptor => exact reads_tagged ((reads_word descriptor).end (.pure _))
  | dynamic form bootstrap member =>
      cases form with
      | constant => exact reads_tagged (reads_wordPair bootstrap member)
      | call => exact reads_tagged (reads_wordPair bootstrap member)
  | moduleRef name => exact reads_tagged ((reads_word name).end (.pure _))
  | packageRef name => exact reads_tagged ((reads_word name).end (.pure _))

end Constant

namespace ConstantPool

variable {p q r : ConstantPool} {c : Constant} {cs ds : List Constant} {n : Nat} {index : UInt16}

def pushAll (pool : ConstantPool) (cs : List Constant) : ConstantPool :=
  cs.foldl push pool

theorem pushAll_append : p.pushAll (cs ++ ds) = (p.pushAll cs).pushAll ds :=
  List.foldl_append

theorem slots_pushAll :
    (p.pushAll cs).slots.toList = p.slots.toList ++ cs.flatMap Constant.slots := by
  induction cs generalizing p with
  | nil => simp [pushAll]
  | cons c rest ih =>
      change ((p.push c).pushAll rest).slots.toList = _
      rw [ih, push]
      simp

theorem filterMap_slots (c : Constant) : c.slots.filterMap id = [c] := by
  unfold Constant.slots
  split <;> rfl

theorem constants_pushAll : (empty.pushAll cs).constants = cs := by
  rw [constants, slots_pushAll]
  change (cs.flatMap Constant.slots).filterMap id = cs
  induction cs with
  | nil => rfl
  | cons c rest ih =>
      rw [List.flatMap_cons, List.filterMap_append, filterMap_slots, ih, List.singleton_append]

def Grows (p q : ConstantPool) : Prop :=
  ∃ cs, q = p.pushAll cs

theorem Grows.refl (p : ConstantPool) : p.Grows p :=
  ⟨[], rfl⟩

theorem Grows.push (p : ConstantPool) (c : Constant) : p.Grows (p.push c) :=
  ⟨[c], rfl⟩

theorem Grows.trans (h : p.Grows q) (h' : q.Grows r) : p.Grows r := by
  obtain ⟨cs, rfl⟩ := h
  obtain ⟨ds, rfl⟩ := h'
  exact ⟨cs ++ ds, pushAll_append.symm⟩

theorem decodeSlots_wide {count : UInt16} {free : Nat} {input rest : Bytes} (hwide : c.isWide = true)
    (hread : Constant.decode input = .ok (c, rest)) :
    decodeSlots count (free + 2) p input = decodeSlots count free (p.push c) rest := by
  simp [decodeSlots, hread, hwide, bind, Except.bind]

theorem decodeSlots_narrow {count : UInt16} {free : Nat} {input rest : Bytes}
    (hnarrow : c.isWide = false) (hread : Constant.decode input = .ok (c, rest)) :
    decodeSlots count (free + 1) p input = decodeSlots count free (p.push c) rest := by
  cases free with
  | zero => simp [decodeSlots, hread, hnarrow, bind, Except.bind]
  | succ free => simp [decodeSlots, hread, hnarrow, bind, Except.bind]

theorem decodeSlots_encode (count : UInt16) (hfits : ∀ c ∈ cs, c.textLength ≤ 65535)
    (pool : ConstantPool) (free : Nat) (input : Bytes) :
    decodeSlots count ((cs.flatMap Constant.slots).length + free) pool
        (cs.flatMap Constant.encode ++ input) =
      decodeSlots count free (pool.pushAll cs) input := by
  induction cs generalizing pool with
  | nil => simp [pushAll]
  | cons c rest ih =>
      obtain ⟨hc, hrest⟩ := List.forall_mem_cons.mp hfits
      have hread := Constant.reads_encode hc (rest.flatMap Constant.encode ++ input)
      have hnext := ih hrest (pool.push c)
      have hfree : c.slots.length + (rest.flatMap Constant.slots).length + free =
          (rest.flatMap Constant.slots).length + free + c.slots.length := by
        omega
      rw [List.flatMap_cons, List.flatMap_cons, List.append_assoc, List.length_append, hfree]
      cases hwide : c.isWide with
      | true =>
          have hslots : c.slots.length = 2 := by simp [Constant.slots, hwide]
          rw [hslots, decodeSlots_wide hwide hread]
          exact hnext
      | false =>
          have hslots : c.slots.length = 1 := by simp [Constant.slots, hwide]
          rw [hslots, decodeSlots_narrow hwide hread]
          exact hnext

theorem reads_constants (hfits : ∀ c ∈ cs, c.textLength ≤ 65535)
    (hslots : (cs.flatMap Constant.slots).length ≤ 65534) :
    Reads decode (Bytes.ofUInt16 ((cs.flatMap Constant.slots).length + 1).toUInt16 ++
      cs.flatMap Constant.encode) (empty.pushAll cs) := by
  refine (reads_word _).bind ?_
  rw [toNat_count (by omega), Nat.add_sub_cancel]
  exact fun rest => decodeSlots_encode _ hfits empty 0 rest

theorem reads_encode (h : empty.Grows p) (hsize : p.slots.size ≤ 65534)
    (hfits : ∀ c ∈ p.constants, c.textLength ≤ 65535) : Reads decode p.encode p := by
  obtain ⟨cs, rfl⟩ := h
  rw [constants_pushAll] at hfits
  have hslots : (empty.pushAll cs).slots.size = (cs.flatMap Constant.slots).length := by
    rw [← Array.length_toList, slots_pushAll]
    rfl
  rw [encode, constants_pushAll, nextIndex, hslots]
  exact reads_constants hfits (hslots ▸ hsize)

theorem Grows.getElem? (h : p.Grows q) (hslot : p.slots.toList[n]? = some (some c)) :
    q.slots.toList[n]? = some (some c) := by
  obtain ⟨cs, rfl⟩ := h
  obtain ⟨hlt, -⟩ := List.getElem?_eq_some_iff.mp hslot
  rw [slots_pushAll, List.getElem?_append_left hlt, hslot]

theorem get?_of_slot (hsize : q.slots.size ≤ 65534)
    (hslot : q.slots.toList[n]? = some (some c)) : q.get? (n + 1).toUInt16 = some c := by
  obtain ⟨hlt, -⟩ := List.getElem?_eq_some_iff.mp hslot
  have hindex : (n + 1).toUInt16.toNat = n + 1 := toNat_count (by simp at hlt; omega)
  have hzero : (n + 1).toUInt16 ≠ 0 := by
    rw [Ne, ← UInt16.toNat_inj, hindex]
    exact Nat.succ_ne_zero n
  rw [get?, if_neg hzero, hindex, Nat.add_sub_cancel, ← Array.getElem?_toList, hslot]
  rfl

theorem get_of_get? (h : q.get? index = some c) : q.get index = .ok c := by
  rw [get, h]

theorem getText_of_get? {text : String} (h : q.get? index = some (.utf8 text)) :
    q.getText index = .ok text := by
  rw [getText, get_of_get? h]
  rfl

theorem ne_zero_of_get? (h : q.get? index = some c) : index ≠ 0 := by
  rintro rfl
  cases h

end ConstantPool

end Linkage
