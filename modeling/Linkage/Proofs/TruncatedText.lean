import Linkage.Proofs.Search
import Linkage.Text.Truncate
import Mathlib.Order.Bounds.Basic

namespace Linkage.Text

variable {data : ByteArray} {text : String} {n trim bound : Nat}

def cuts (data : ByteArray) (bound : Nat) : Set Nat :=
  {n | n ≤ bound ∧ (data.extract 0 n).IsValidUTF8}

def lateCuts (data : ByteArray) (bound : Nat) : Set Nat :=
  {n ∈ cuts data bound | bound ≤ n + 3}

-- The character that begins at the last cut ends behind the bound, and has no more than four bytes.
theorem exists_cut (text : String) (hbound : bound ≤ text.toByteArray.size) :
    ∃ n, IsGreatest (cuts text.toByteArray bound) n ∧ bound ≤ n + 3 := by
  have hlast : (text.posLE ⟨bound⟩).offset.byteIdx ≤ bound := String.offset_posLE_le
  refine ⟨_, ⟨⟨hlast, (text.posLE ⟨bound⟩).isValid.isValidUTF8_extract_zero⟩, fun k hk => ?_⟩, ?_⟩
  · have hvalid : String.Pos.Raw.IsValid text ⟨k⟩ :=
      String.Pos.Raw.isValid_iff_isValidUTF8_extract_zero.mpr ⟨hk.1.trans hbound, hk.2⟩
    exact String.le_posLE_iff (p := ⟨⟨k⟩, hvalid⟩).mpr hk.1
  · by_cases hend : text.posLE ⟨bound⟩ = text.endPos
    · rw [hend]
      exact hbound.trans (Nat.le_add_right _ 3)
    · have hnext : bound < ((text.posLE ⟨bound⟩).next hend).offset.byteIdx :=
        String.posLE_lt_iff.mp String.Pos.lt_next
      have hwidth := Char.utf8Size_le_four ((text.posLE ⟨bound⟩).get hend)
      rw [String.Pos.byteIdx_offset_next] at hnext
      omega

theorem fromUTF8?_eq_some_iff : String.fromUTF8? data = some text ↔ text.toByteArray = data := by
  unfold String.fromUTF8?
  split
  next hvalid =>
    rw [Option.some_inj, ← String.toByteArray_inj, eq_comm]
    rfl
  next hinvalid =>
    refine iff_of_false nofun ?_
    rintro rfl
    exact hinvalid text.isValidUTF8

theorem fromUTF8?_eq_none_iff : String.fromUTF8? data = none ↔ ¬data.IsValidUTF8 := by
  unfold String.fromUTF8?
  split <;> simp_all

theorem trimmedText?_eq (h : n + trim = min data.size maxTextBytes) :
    trimmedText? data trim = String.fromUTF8? (data.extract 0 n) := by
  rw [trimmedText?, if_pos (by omega), ← h, Nat.add_sub_cancel]

theorem trimmedText?_of_lt (h : min data.size maxTextBytes < trim) :
    trimmedText? data trim = none :=
  if_neg (by omega)

theorem truncateUtf8_eq (data : ByteArray) :
    truncateUtf8 data = (List.range 4).findSome? (trimmedText? data) :=
  rfl

theorem not_mem_lateCuts (h : n + trim = min data.size maxTextBytes)
    (hnone : trimmedText? data trim = none) :
    n ∉ lateCuts data (min data.size maxTextBytes) := by
  rw [trimmedText?_eq h, fromUTF8?_eq_none_iff] at hnone
  exact fun hn => hnone hn.1.2

theorem truncateUtf8_eq_none_iff :
    truncateUtf8 data = none ↔ lateCuts data (min data.size maxTextBytes) = ∅ := by
  rw [truncateUtf8_eq, List.findSome?_eq_none_iff, Set.eq_empty_iff_forall_notMem]
  constructor
  · intro hnone n hn
    have hlate := hn.2
    obtain ⟨trim, htrim⟩ := Nat.exists_eq_add_of_le hn.1.1
    have hfour := hnone trim (List.mem_range.mpr (by omega))
    exact not_mem_lateCuts htrim.symm hfour hn
  · intro hempty trim htrim
    rcases Nat.lt_or_ge (min data.size maxTextBytes) trim with hlt | hle
    · exact trimmedText?_of_lt hlt
    · obtain ⟨n, hn⟩ := Nat.exists_eq_add_of_le' hle
      rw [trimmedText?_eq hn.symm, fromUTF8?_eq_none_iff]
      have hfour := List.mem_range.mp htrim
      exact fun hvalid => hempty n ⟨⟨by omega, hvalid⟩, by omega⟩

theorem exists_lateCut (h : truncateUtf8 data = some text) :
    ∃ n, IsGreatest (lateCuts data (min data.size maxTextBytes)) n ∧
      text.toByteArray = data.extract 0 n := by
  rw [truncateUtf8_eq] at h
  obtain ⟨trim, htrim, htext, hfewer⟩ := of_findSome?_range h
  rcases Nat.lt_or_ge (min data.size maxTextBytes) trim with hlt | hle
  · rw [trimmedText?_of_lt hlt] at htext
    cases htext
  · obtain ⟨n, hn⟩ := Nat.exists_eq_add_of_le' hle
    rw [trimmedText?_eq hn.symm, fromUTF8?_eq_some_iff] at htext
    refine ⟨n, ⟨⟨⟨by omega, htext ▸ text.isValidUTF8⟩, by omega⟩, fun k hk => ?_⟩, htext⟩
    by_contra hlonger
    obtain ⟨fewer, hk'⟩ := Nat.exists_eq_add_of_le hk.1.1
    exact not_mem_lateCuts hk'.symm (hfewer fewer (by omega)) hk

theorem truncateUtf8_eq_some_iff : truncateUtf8 data = some text ↔
    ∃ n, IsGreatest (lateCuts data (min data.size maxTextBytes)) n ∧
      text.toByteArray = data.extract 0 n := by
  refine ⟨exists_lateCut, ?_⟩
  rintro ⟨n, hn, htext⟩
  cases hfound : truncateUtf8 data with
  | none =>
      rw [truncateUtf8_eq_none_iff] at hfound
      exact absurd hn.1 (hfound ▸ Set.notMem_empty n)
  | some other =>
      obtain ⟨k, hk, hother⟩ := exists_lateCut hfound
      rw [Option.some_inj, ← String.toByteArray_inj, hother, htext, hk.unique hn]

theorem truncated_texts_are_longest (data : ByteArray) :
    (data.IsValidUTF8 → ∃ text n, truncateUtf8 data = some text ∧
      text.toByteArray = data.extract 0 n ∧ IsGreatest (cuts data (min data.size 262144)) n ∧
      min data.size 262144 ≤ n + 3) ∧
    (truncateUtf8 data = none ↔ lateCuts data (min data.size 262144) = ∅) ∧
    ∀ text, truncateUtf8 data = some text ↔
      ∃ n, IsGreatest (lateCuts data (min data.size 262144)) n ∧
        text.toByteArray = data.extract 0 n := by
  refine ⟨fun hvalid => ?_, truncateUtf8_eq_none_iff, fun text => truncateUtf8_eq_some_iff⟩
  obtain ⟨n, hn, hlate⟩ := exists_cut ⟨data, hvalid⟩ (Nat.min_le_left data.size 262144)
  have hgreatest : IsGreatest (lateCuts data (min data.size 262144)) n :=
    ⟨⟨hn.1, hlate⟩, fun k hk => hn.2 hk.1⟩
  exact ⟨⟨_, hn.1.2⟩, n, truncateUtf8_eq_some_iff.mpr ⟨n, hgreatest, rfl⟩, rfl, hn, hlate⟩

theorem isValidUTF8_utf8Encode_append_iff {cs : List Char} :
    (cs.utf8Encode ++ data).IsValidUTF8 ↔ data.IsValidUTF8 := by
  induction cs with
  | nil => rw [List.utf8Encode_nil, ByteArray.empty_append]
  | cons c cs ih =>
      rw [List.utf8Encode_cons, ByteArray.append_assoc,
        ByteArray.isValidUTF8_utf8Encode_singleton_append_iff, ih]

theorem size_utf8Encode_replicate (n : Nat) : (List.replicate n 'a').utf8Encode.size = n := by
  induction n with
  | zero => rfl
  | succ n ih =>
      rw [List.replicate_succ, List.utf8Encode_cons, ByteArray.size_append, ih, Nat.add_comm]
      rfl

def accented (n : Nat) : ByteArray :=
  (String.ofList (List.replicate n 'a')).toByteArray ++ "é".toByteArray

-- The bound is between the two bytes of the last letter.
theorem accented_is_shortened : (accented 262143).IsValidUTF8 ∧ (accented 262143).size = 262145 ∧
    truncateUtf8 (accented 262143) = some (String.ofList (List.replicate 262143 'a')) := by
  obtain ⟨n, hn⟩ : ∃ n, n = 262143 := ⟨_, rfl⟩
  rw [← hn]
  have hletters : (String.ofList (List.replicate n 'a')).toByteArray.size = n := by
    rw [String.toByteArray_ofList, size_utf8Encode_replicate]
  have hvalid : (accented n).IsValidUTF8 :=
    (String.isValidUTF8 _).append (String.isValidUTF8 _)
  have hsize : (accented n).size = n + 2 := by
    rw [accented, ByteArray.size_append, hletters]
    rfl
  have hwhole : (accented n).extract 0 n = (String.ofList (List.replicate n 'a')).toByteArray :=
    ByteArray.extract_append_eq_left hletters.symm
  have hhalf : ¬((accented n).extract 0 (n + 1)).IsValidUTF8 := by
    have hbyte : (accented n).extract n (n + 1) = "é".toByteArray.extract 0 1 :=
      ByteArray.extract_append_size_add' (i := 0) hletters.symm
    rw [ByteArray.extract_eq_extract_append_extract n (by omega) (by omega), hwhole, hbyte,
      String.toByteArray_ofList, isValidUTF8_utf8Encode_append_iff]
    decide
  obtain ⟨hkeeps, -, -⟩ := truncated_texts_are_longest (accented n)
  obtain ⟨text, k, htext, hbytes, ⟨⟨hle, hcut⟩, hgreatest⟩, -⟩ := hkeeps hvalid
  rw [hsize] at hle hgreatest
  have hlow : n ≤ k := hgreatest ⟨by omega, hwhole ▸ String.isValidUTF8 _⟩
  have hne : k ≠ n + 1 := fun h => hhalf (h ▸ hcut)
  obtain rfl : k = n := by omega
  rw [hwhole, String.toByteArray_inj] at hbytes
  exact ⟨hvalid, by omega, hbytes ▸ htext⟩

end Linkage.Text
