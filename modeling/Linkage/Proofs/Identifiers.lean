import Linkage.Mangle
import Mathlib.Algebra.Group.Nat.Defs
import Mathlib.Data.List.Basic

namespace Linkage

theorem Mangle.isPlain_eq (c : Char) : isPlain c = c.isAlphanum := by
  change _ = ((decide ('A' ≤ c ∧ c ≤ 'Z') || ('a' ≤ c && c ≤ 'z')) || ('0' ≤ c && c ≤ '9'))
  rw [Bool.decide_and]
  rfl

namespace Text

def IsWord (text : String) : Prop :=
  ∀ c ∈ text.toList, c.isAlphanum = true ∨ c = '_'

instance (text : String) : Decidable (IsWord text) :=
  List.decidableBAll (fun c : Char => c.isAlphanum = true ∨ c = '_') text.toList

section Hex

variable {width m n : Nat}

theorem isAlphanum_hexDigit (hn : n < 16) : (hexDigit n).isAlphanum = true := by
  have hall : ∀ n < 16, (hexDigit n).isAlphanum = true := by decide
  exact hall n hn

theorem hexDigit_inj (hm : m < 16) (hn : n < 16) (h : hexDigit m = hexDigit n) : m = n := by
  have hall : ∀ m < 16, ∀ n < 16, hexDigit m = hexDigit n → m = n := by decide
  exact hall m hm n hn h

theorem isAlphanum_of_mem_hex {c : Char} (h : c ∈ hex width n) : c.isAlphanum = true := by
  induction width generalizing n with
  | zero => cases h
  | succ width ih =>
      rw [hex, List.mem_append, List.mem_singleton] at h
      rcases h with hc | rfl
      · exact ih hc
      · exact isAlphanum_hexDigit (Nat.mod_lt n (by decide))

theorem hex_inj (hm : m < 16 ^ width) (hn : n < 16 ^ width) (h : hex width m = hex width n) :
    m = n := by
  induction width generalizing m n with
  | zero => omega
  | succ width ih =>
      rw [pow_succ] at hm hn
      obtain ⟨hfront, hlast⟩ := List.append_inj h (by rw [length_hex, length_hex])
      have hquotient : m / 16 = n / 16 := ih (by omega) (by omega) hfront
      have hdigit : m % 16 = n % 16 := by
        apply hexDigit_inj
        · exact Nat.mod_lt m (by decide)
        · exact Nat.mod_lt n (by decide)
        · exact List.singleton_inj.mp hlast
      omega

end Hex

theorem isWord_append {a b : String} : IsWord (a ++ b) ↔ IsWord a ∧ IsWord b := by
  simp only [IsWord, String.toList_append, List.forall_mem_append]

theorem isWord_flatMap {spell : Char → List Char} (h : ∀ c, IsWord (String.ofList (spell c)))
    (cs : List Char) : IsWord (String.ofList (cs.flatMap spell)) := by
  intro d hd
  rw [String.toList_ofList, List.mem_flatMap] at hd
  obtain ⟨c, -, hmem⟩ := hd
  apply h c
  rwa [String.toList_ofList]

theorem utf8Size_of_word {c : Char} (h : c.isAlphanum = true ∨ c = '_') : c.utf8Size = 1 := by
  rw [Char.utf8Size_eq_one_iff, UInt32.le_iff_toNat_le]
  change c.toNat ≤ 127
  rcases h with hc | rfl
  · rw [← Mangle.isPlain_eq] at hc
    simp [Mangle.isPlain, Char.le_def, UInt32.le_iff_toNat_le] at hc
    omega
  · decide

theorem IsWord.utf8ByteSize {text : String} (h : IsWord text) :
    text.utf8ByteSize = text.length := by
  obtain ⟨cs, rfl⟩ : ∃ cs, text = String.ofList cs := ⟨text.toList, String.ofList_toList.symm⟩
  induction cs with
  | nil => rfl
  | cons c cs ih =>
      rw [String.ofList_cons, isWord_append] at h
      have hc : c.utf8Size = 1 := utf8Size_of_word (h.1 c (by simp))
      rw [String.ofList_cons, String.utf8ByteSize_append, String.length_append,
        String.utf8ByteSize_singleton, String.length_singleton, hc, ih h.2]

end Text

end Linkage
