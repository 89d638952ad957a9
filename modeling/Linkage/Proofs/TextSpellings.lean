import Linkage.Proofs.ModifiedUtf8

namespace Linkage.Text

namespace Utf16

theorem toNat_ofNat {n : Nat} (h : n.isValidChar) : (Char.ofNat n).toNat = n := by
  rw [Char.ofNat, dif_pos h]
  rfl

theorem ofChar_ofNat {u : UInt16} (hhigh : ¬isHighSurrogate u = true)
    (hlow : ¬isLowSurrogate u = true) : ofChar (Char.ofNat u.toNat) = [u] := by
  have hu := u.toNat_lt
  rw [isHighSurrogate_iff] at hhigh
  rw [isLowSurrogate_iff] at hlow
  have hvalid : u.toNat.isValidChar := by
    change u.toNat < 0xD800 ∨ 0xDFFF < u.toNat ∧ u.toNat < 0x110000
    omega
  rw [ofChar, toNat_ofNat hvalid, if_pos hu]
  exact congrArg (fun u => [u]) UInt16.ofNat_toNat

theorem ofChar_pair {u v : UInt16} (hu : isHighSurrogate u = true) (hv : isLowSurrogate v = true) :
    ofChar (pair u v) = [u, v] := by
  rw [isHighSurrogate_iff] at hu
  rw [isLowSurrogate_iff] at hv
  have hvalid : (0x10000 + (u.toNat - 0xD800) * 0x400 + (v.toNat - 0xDC00)).isValidChar := by
    refine .inr ⟨?_, ?_⟩ <;> omega
  have hfirst : 0xD800 +
      (0x10000 + (u.toNat - 0xD800) * 0x400 + (v.toNat - 0xDC00) - 0x10000) / 0x400 = u.toNat := by
    omega
  have hsecond : 0xDC00 +
      (0x10000 + (u.toNat - 0xD800) * 0x400 + (v.toNat - 0xDC00) - 0x10000) % 0x400 = v.toNat := by
    omega
  rw [ofChar, pair, toNat_ofNat hvalid, if_neg (by omega), hfirst, hsecond]
  exact congrArg₂ (fun u v => [u, v]) UInt16.ofNat_toNat UInt16.ofNat_toNat

theorem eq_encode_of_decode {us : List UInt16} {cs : List Char} (h : decode us = some cs) :
    us = encode cs := by
  fun_induction decode us generalizing cs with
  | case1 =>
      obtain rfl := Option.some.inj h
      rfl
  | case2 => simp at h
  | case3 u hu =>
      obtain rfl := Option.some.inj h
      rw [Bool.or_eq_true, not_or] at hu
      rw [encode, List.flatMap_singleton, ofChar_ofNat hu.1 hu.2]
  | case4 => simp at h
  | case5 u v rest _ hu hv ih =>
      obtain ⟨cs, hcs, rfl⟩ := Option.map_eq_some_iff.mp h
      change _ = ofChar (pair u v) ++ encode cs
      rw [ofChar_pair hu hv, ← ih hcs]
      rfl
  | case6 => simp at h
  | case7 u v rest hlow hhigh ih =>
      obtain ⟨cs, hcs, rfl⟩ := Option.map_eq_some_iff.mp h
      change _ = ofChar (Char.ofNat u.toNat) ++ encode cs
      rw [ofChar_ofNat hhigh hlow, ← ih hcs]
      rfl

theorem decode_eq_some_iff {us : List UInt16} {cs : List Char} :
    decode us = some cs ↔ us = encode cs := by
  refine ⟨eq_encode_of_decode, ?_⟩
  rintro rfl
  exact decode_encode cs

end Utf16

namespace ModifiedUtf8

variable {u : UInt16} {us : List UInt16} {bytes group : List UInt8}

inductive Spells : List UInt8 → List UInt16 → Prop
  | nil : Spells [] []
  | cons {u : UInt16} {us : List UInt16} {group bytes : List UInt8} (head : IsGroup u group)
      (tail : Spells bytes us) : Spells (group ++ bytes) (u :: us)

theorem Spells.decodeUnits (h : Spells bytes us) : decodeUnits bytes = some us := by
  induction h with
  | nil => rfl
  | cons head _ ih => rw [head.decodeUnits, ih, Option.map_some]

theorem isContinuation_iff {b : UInt8} :
    isContinuation b = true ↔ 0x80 ≤ b.toNat ∧ b.toNat < 0xC0 := by
  simp [isContinuation, UInt8.le_iff_toNat_le, UInt8.lt_iff_toNat_lt]

theorem isGroup_one {a : UInt8} (hzero : ¬a = 0) (hone : a < 0x80) : IsGroup a.toUInt16 [a] := by
  rw [← UInt8.toNat_inj] at hzero
  rw [UInt8.lt_iff_toNat_lt] at hone
  have hvalue : a.toUInt16.toNat = a.toNat := UInt8.toNat_toUInt16 a
  have hgroup : IsGroup a.toUInt16 [a.toUInt16.toNat.toUInt8] :=
    .one (hvalue ▸ Nat.pos_of_ne_zero hzero) (hvalue ▸ hone)
  rwa [hvalue, toUInt8_toNat] at hgroup

theorem isGroup_two {a b : UInt8} (hmiddle : ¬a < 0xC0) (htwo : a < 0xE0)
    (hb : isContinuation b = true) :
    IsGroup ((a.toNat - 0xC0) * 0x40 + (b.toNat - 0x80)).toUInt16 [a, b] := by
  rw [UInt8.lt_iff_toNat_lt] at hmiddle htwo
  rw [isContinuation_iff] at hb
  change ¬a.toNat < 0xC0 at hmiddle
  change a.toNat < 0xE0 at htwo
  generalize hn : (a.toNat - 0xC0) * 0x40 + (b.toNat - 0x80) = n
  have hvalue : n.toUInt16.toNat = n := Utf16.toNat_toUInt16 (by omega)
  have hgroup : IsGroup n.toUInt16 (twoBytes n.toUInt16.toNat) := .two (by omega)
  have hfirst : 0xC0 + n / 0x40 = a.toNat := by omega
  have hsecond : 0x80 + n % 0x40 = b.toNat := by omega
  rwa [twoBytes, hvalue, hfirst, hsecond, toUInt8_toNat, toUInt8_toNat] at hgroup

theorem isGroup_three {a b c : UInt8} (htwo : ¬a < 0xE0) (hthree : a < 0xF0)
    (hb : isContinuation b = true) (hc : isContinuation c = true) :
    IsGroup ((a.toNat - 0xE0) * 0x1000 + (b.toNat - 0x80) * 0x40 + (c.toNat - 0x80)).toUInt16
      [a, b, c] := by
  rw [UInt8.lt_iff_toNat_lt] at htwo hthree
  rw [isContinuation_iff] at hb hc
  change ¬a.toNat < 0xE0 at htwo
  change a.toNat < 0xF0 at hthree
  generalize hn : (a.toNat - 0xE0) * 0x1000 + (b.toNat - 0x80) * 0x40 + (c.toNat - 0x80) = n
  have hvalue : n.toUInt16.toNat = n := Utf16.toNat_toUInt16 (by omega)
  have hgroup : IsGroup n.toUInt16 (threeBytes n.toUInt16.toNat) := .three
  have hfirst : 0xE0 + n / 0x1000 = a.toNat := by omega
  have hsecond : 0x80 + n / 0x40 % 0x40 = b.toNat := by omega
  have hthird : 0x80 + n % 0x40 = c.toNat := by omega
  rwa [threeBytes, hvalue, hfirst, hsecond, hthird, toUInt8_toNat, toUInt8_toNat,
    toUInt8_toNat] at hgroup

theorem spells_of_decodeUnits (h : ModifiedUtf8.decodeUnits bytes = some us) : Spells bytes us := by
  fun_induction ModifiedUtf8.decodeUnits bytes generalizing us with
  | case1 =>
      obtain rfl := Option.some.inj h
      exact .nil
  | case3 a rest hzero hone ih =>
      obtain ⟨us, hus, rfl⟩ := Option.map_eq_some_iff.mp h
      exact .cons (isGroup_one hzero hone) (ih hus)
  | case5 a _ _ hmiddle htwo b rest hb ih =>
      obtain ⟨us, hus, rfl⟩ := Option.map_eq_some_iff.mp h
      exact .cons (isGroup_two hmiddle htwo hb) (ih hus)
  | case8 a _ _ _ htwo hthree b c rest hbc ih =>
      obtain ⟨us, hus, rfl⟩ := Option.map_eq_some_iff.mp h
      rw [Bool.and_eq_true] at hbc
      exact .cons (isGroup_three htwo hthree hbc.1 hbc.2) (ih hus)
  | _ => simp at h

theorem decode_eq_some_iff {s : String} :
    decode bytes = some s ↔ Spells bytes (Utf16.encode s.toList) := by
  rw [decode, Option.bind_eq_bind, Option.bind_eq_some_iff]
  constructor
  · rintro ⟨us, hus, h⟩
    obtain ⟨cs, hcs, hs⟩ := Option.bind_eq_some_iff.mp h
    obtain rfl := Option.some.inj hs
    rw [String.toList_ofList, ← Utf16.decode_eq_some_iff.mp hcs]
    exact spells_of_decodeUnits hus
  · intro h
    refine ⟨_, h.decodeUnits, ?_⟩
    rw [Utf16.decode_encode]
    simp

theorem IsGroup.shortest (h : IsGroup u group) :
    group = encodeUnit u ∨ (encodeUnit u).length < group.length := by
  unfold encodeUnit
  dsimp only
  cases h with
  | one hpos h => exact .inl (if_pos ⟨hpos, h⟩).symm
  | two h =>
      split
      next => exact .inr (by simp [twoBytes])
      next => exact .inl rfl
  | three =>
      split
      next => exact .inr (by simp [threeBytes])
      next =>
        split
        next => exact .inr (by simp [threeBytes])
        next => exact .inl rfl

theorem IsGroup.eq_encodeUnit (h : IsGroup u group) (hu : 0x800 ≤ u.toNat) :
    group = encodeUnit u := by
  cases h with
  | one _ h => omega
  | two h => omega
  | three =>
      unfold encodeUnit
      dsimp only
      rw [if_neg (by omega), if_neg (by omega)]
      rfl

theorem encodeUnit_ne_threeBytes (hu : u.toNat < 0x800) : encodeUnit u ≠ threeBytes u.toNat := by
  intro h
  have hlength := congrArg List.length h
  unfold encodeUnit at hlength
  dsimp only at hlength
  split at hlength
  · simp [threeBytes] at hlength
  · simp [threeBytes] at hlength

theorem Spells.shortest (h : Spells bytes us) :
    bytes = us.flatMap encodeUnit ∨ (us.flatMap encodeUnit).length < bytes.length := by
  induction h with
  | nil => exact .inl rfl
  | cons head _ ih =>
      simp only [List.flatMap_cons, List.length_append]
      rcases head.shortest with rfl | hhead
      · rcases ih with rfl | htail
        · exact .inl rfl
        · exact .inr (by omega)
      · rcases ih with rfl | htail
        · exact .inr (by omega)
        · exact .inr (by omega)

theorem spells_encode (us : List UInt16) : Spells (us.flatMap encodeUnit) us := by
  induction us with
  | nil => exact .nil
  | cons u us ih => exact .cons (isGroup_encodeUnit u) ih

theorem Spells.append {more : List UInt8} {vs : List UInt16} (h : Spells bytes us)
    (h' : Spells more vs) : Spells (bytes ++ more) (us ++ vs) := by
  induction h with
  | nil => exact h'
  | cons head _ ih =>
      rw [List.append_assoc]
      exact .cons head ih

theorem spelled_once_iff : (∀ bytes, Spells bytes us → bytes = us.flatMap encodeUnit) ↔
    ∀ u ∈ us, 0x800 ≤ u.toNat := by
  constructor
  · intro honce u hu
    by_contra hlt
    obtain ⟨before, after, rfl⟩ := List.append_of_mem hu
    have hlong : IsGroup u (threeBytes u.toNat) := .three
    have hother := honce _ ((spells_encode before).append (.cons hlong (spells_encode after)))
    rw [List.flatMap_append, List.append_cancel_left_eq, List.flatMap_cons,
      List.append_cancel_right_eq] at hother
    exact encodeUnit_ne_threeBytes (Nat.lt_of_not_le hlt) hother.symm
  · intro hus bytes h
    induction h with
    | nil => rfl
    | cons head _ ih =>
        obtain ⟨hu, hus⟩ := List.forall_mem_cons.mp hus
        rw [List.flatMap_cons, head.eq_encodeUnit hu, ih hus]

theorem encodings_are_shortest_spellings (s : String) :
    (∀ bytes, decode bytes = some s ↔ Spells bytes (Utf16.encode s.toList)) ∧
    (∀ bytes, bytes = encode s ↔ decode bytes = some s ∧ bytes.length ≤ (encode s).length) ∧
    ((∀ bytes, decode bytes = some s → bytes = encode s) ↔
      ∀ u ∈ Utf16.encode s.toList, 0x800 ≤ u.toNat) := by
  refine ⟨fun bytes => decode_eq_some_iff, fun bytes => ⟨?_, ?_⟩, ?_⟩
  · rintro rfl
    exact ⟨decode_encode s, Nat.le_refl _⟩
  · rintro ⟨hdecode, hlength⟩
    rcases (decode_eq_some_iff.mp hdecode).shortest with hsame | hlonger
    · exact hsame
    · exact absurd hlonger (Nat.not_lt.mpr hlength)
  · simp only [decode_eq_some_iff]
    exact spelled_once_iff

theorem padded_letter_is_accepted : decode [0xC1, 0x81] = some "A" ∧ encode "A" = [0x41] ∧
    ¬∀ bytes s, decode bytes = some s ↔ bytes = encode s := by
  have haccepted : decode [0xC1, 0x81] = some "A" := by decide +kernel
  have hencoded : encode "A" = [0x41] := by decide +kernel
  refine ⟨haccepted, hencoded, fun hexact => ?_⟩
  have hsame := (hexact _ _).mp haccepted
  rw [hencoded] at hsame
  cases hsame

end ModifiedUtf8

end Linkage.Text
