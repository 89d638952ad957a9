import Linkage.ClassFile.Decoder
import Mathlib.Data.Nat.Bits
import Mathlib.Data.Nat.Bitwise

namespace Linkage

namespace Bytes

@[simp] theorem length_ofUInt16 (w : UInt16) : (ofUInt16 w).length = 2 := rfl

@[simp] theorem length_ofUInt32 (w : UInt32) : (ofUInt32 w).length = 4 := rfl

theorem join_halves {k n : Nat} (h : n < 2 ^ (k + k)) :
    (n >>> k % 2 ^ k) <<< k % 2 ^ (k + k) ||| n % 2 ^ k = n := by
  have hhigh : n >>> k < 2 ^ k := by
    rw [Nat.shiftRight_eq_div_pow]
    exact Nat.div_lt_of_lt_mul (by rwa [← Nat.pow_add])
  have hlow : n % 2 ^ k < 2 ^ k := Nat.mod_lt _ (Nat.two_pow_pos k)
  have hsum : (n >>> k) <<< k + n % 2 ^ k = n := by
    rw [Nat.shiftRight_eq_div_pow, Nat.shiftLeft_eq, Nat.div_add_mod']
  rw [Nat.mod_eq_of_lt hhigh, Nat.mod_eq_of_lt (by omega), ← Nat.shiftLeft_add_eq_or_of_lt hlow,
    hsum]

theorem joinUInt16_halves (w : UInt16) : joinUInt16 (w >>> 8).toUInt8 w.toUInt8 = w := by
  rw [← UInt16.toNat_inj]
  simpa [joinUInt16] using join_halves (k := 8) w.toNat_lt

theorem joinUInt32_halves (w : UInt32) : joinUInt32 (w >>> 16).toUInt16 w.toUInt16 = w := by
  rw [← UInt32.toNat_inj]
  simpa [joinUInt32] using join_halves (k := 16) w.toNat_lt

theorem joinUInt64_halves (w : UInt64) : joinUInt64 (w >>> 32).toUInt32 w.toUInt32 = w := by
  rw [← UInt64.toNat_inj]
  simpa [joinUInt64] using join_halves (k := 32) w.toNat_lt

end Bytes

namespace Decoder

variable {α β : Type} {d : Decoder α} {k : α → Decoder β} {bytes more : Bytes} {a : α} {b : β}

def Reads (d : Decoder α) (bytes : Bytes) (a : α) : Prop :=
  ∀ rest, d (bytes ++ rest) = .ok (a, rest)

theorem Reads.pure (a : α) : Reads (pure a) [] a := fun _ => rfl

theorem Reads.bind (hd : Reads d bytes a) (hk : Reads (k a) more b) :
    Reads (d >>= k) (bytes ++ more) b := by
  intro rest
  change (d (bytes ++ more ++ rest) >>= fun p => k p.1 p.2) = _
  rw [List.append_assoc, hd]
  exact hk rest

theorem Reads.lifted {x : Except FormatError α} (hx : x = .ok a) :
    Reads (liftM x : Decoder α) [] a := by
  subst hx
  exact fun _ => rfl

theorem Reads.lift {x : Except FormatError α} (hx : x = .ok a) (hk : Reads (k a) bytes b) :
    Reads (liftM x >>= k) bytes b :=
  (Reads.lifted hx).bind hk

theorem Reads.end (hd : Reads d bytes a) (hk : Reads (k a) [] b) : Reads (d >>= k) bytes b := by
  rw [← List.append_nil bytes]
  exact hd.bind hk

variable {rest : Bytes} {out : β × Bytes}

theorem Reads.exactly (hd : Reads d bytes a) : d bytes = .ok (a, []) := by
  have h := hd []
  rwa [List.append_nil] at h

theorem run_bind (hd : d bytes = .ok (a, rest)) (hk : k a rest = .ok out) :
    (d >>= k) bytes = .ok out := by
  change (d bytes >>= fun p => k p.1 p.2) = _
  rw [hd]
  exact hk

theorem run_lift {x : Except FormatError α} (hx : x = .ok a) (hk : k a bytes = .ok out) :
    (liftM x >>= k) bytes = .ok out :=
  run_bind (Reads.lifted hx bytes) hk

theorem within_of_run (hd : d bytes = .ok (a, [])) : within d bytes = .ok a := by
  rw [within, hd]
  rfl

theorem reads_byte (b : UInt8) : Reads byte [b] b := fun _ => rfl

theorem reads_word (w : UInt16) : Reads word (Bytes.ofUInt16 w) w := by
  intro rest
  change Except.ok (Bytes.joinUInt16 (w >>> 8).toUInt8 w.toUInt8, rest) = _
  rw [Bytes.joinUInt16_halves]

theorem reads_doubleWord (w : UInt32) : Reads doubleWord (Bytes.ofUInt32 w) w := by
  intro rest
  change Except.ok (Bytes.joinUInt32
    (Bytes.joinUInt16 ((w >>> 16).toUInt16 >>> 8).toUInt8 (w >>> 16).toUInt16.toUInt8)
    (Bytes.joinUInt16 (w.toUInt16 >>> 8).toUInt8 w.toUInt16.toUInt8), rest) = _
  rw [Bytes.joinUInt16_halves, Bytes.joinUInt16_halves, Bytes.joinUInt32_halves]

theorem reads_quadWord (w : UInt64) : Reads quadWord (Bytes.ofUInt64 w) w := by
  intro rest
  have hhigh := reads_doubleWord (w >>> 32).toUInt32 (Bytes.ofUInt32 w.toUInt32 ++ rest)
  have hlow := reads_doubleWord w.toUInt32 rest
  rw [Bytes.ofUInt64, List.append_assoc]
  simp only [quadWord, hhigh, hlow, bind, Except.bind]
  rw [Bytes.joinUInt64_halves]
  rfl

theorem reads_take (bytes : Bytes) : Reads (take bytes.length) bytes bytes := by
  intro rest
  simp [take, List.splitAt_eq]

variable {step : α → Decoder α} {acc out : α} {parts : List Bytes}

inductive Folds (step : α → Decoder α) : α → List Bytes → α → Prop
  | nil (acc : α) : Folds step acc [] acc
  | cons {acc mid out : α} {part : Bytes} {parts : List Bytes} (head : Reads (step acc) part mid)
      (tail : Folds step mid parts out) : Folds step acc (part :: parts) out

theorem Folds.reads (h : Folds step acc parts out) :
    Reads (fold step parts.length acc) parts.flatten out := by
  induction h with
  | nil acc => exact fun _ => rfl
  | cons head _ ih =>
      intro rest
      rw [List.flatten_cons, List.append_assoc, List.length_cons, fold, head]
      exact ih rest

theorem Folds.append {more : List Bytes} {last : α} (h : Folds step acc parts out)
    (h' : Folds step out more last) : Folds step acc (parts ++ more) last := by
  induction h with
  | nil _ => exact h'
  | cons head _ ih => exact .cons head (ih h')

theorem toNat_count {n : Nat} (h : n ≤ 65535) : n.toUInt16.toNat = n :=
  UInt16.toNat_ofNat_of_lt' (Nat.lt_succ_of_le h)

theorem Folds.counted (h : Folds step acc parts out) (hcount : parts.length ≤ 65535) :
    Reads (word >>= fun count => fold step count.toNat acc)
      (Bytes.ofUInt16 parts.length.toUInt16 ++ parts.flatten) out := by
  refine (reads_word _).bind ?_
  rw [toNat_count hcount]
  exact h.reads

end Decoder

end Linkage
