import Linkage.Proofs.Identifiers
import Linkage.Proofs.ModifiedUtf8
import Mathlib.Data.List.Chain

namespace Linkage

namespace Text.Utf16

theorem ofChar_inj {c d : Char} (h : ofChar c = ofChar d) : c = d := by
  have hread := decode_ofChar c []
  rw [h, decode_ofChar] at hread
  exact (List.singleton_inj.mp (Option.some.inj hread)).symm

theorem ofChar_cases (c : Char) :
    (∃ u, ofChar c = [u] ∧ ¬isHighSurrogate u = true) ∨
      ∃ u v, ofChar c = [u, v] ∧ isHighSurrogate u = true := by
  have hvalid : c.toNat < 0xD800 ∨ 0xDFFF < c.toNat ∧ c.toNat < 0x110000 := c.valid
  unfold ofChar
  dsimp only
  split
  next hbasic =>
    refine .inl ⟨_, rfl, ?_⟩
    rw [isHighSurrogate_iff, toNat_toUInt16 hbasic]
    omega
  next hbeyond =>
    refine .inr ⟨_, _, rfl, ?_⟩
    rw [isHighSurrogate_iff, toNat_toUInt16 (by omega)]
    omega

end Text.Utf16

namespace Mangle

open Text

variable {c d : Char} {x y : List Char}

def escapeDigits : List Char := ['0', '1', '2', '3']

def spellUnit (u : UInt16) : List Char :=
  '_' :: '0' :: hex 4 u.toNat

def escapeDigit (c : Char) : Char :=
  if c = '_' then '1' else if c = ';' then '2' else if c = '[' then '3' else '0'

theorem spellUnit_append_inj {u v : UInt16} (h : spellUnit u ++ x = spellUnit v ++ y) :
    u = v ∧ x = y := by
  obtain ⟨hunit, hrest⟩ := List.append_inj h (by simp [spellUnit, length_hex])
  obtain ⟨-, hunit⟩ := List.cons.inj hunit
  obtain ⟨-, hhex⟩ := List.cons.inj hunit
  exact ⟨UInt16.toNat_inj.mp (hex_inj u.toNat_lt v.toNat_lt hhex), hrest⟩

theorem spellUnits_append_inj
    (h : (Utf16.ofChar c).flatMap spellUnit ++ x = (Utf16.ofChar d).flatMap spellUnit ++ y) :
    c = d ∧ x = y := by
  rcases Utf16.ofChar_cases c with ⟨u, hc, hu⟩ | ⟨u, u', hc, hu⟩ <;>
    rcases Utf16.ofChar_cases d with ⟨v, hd, hv⟩ | ⟨v, v', hd, hv⟩ <;>
    rw [hc, hd] at h <;>
    simp only [List.flatMap_cons, List.flatMap_nil, List.append_nil, List.append_assoc] at h <;>
    obtain ⟨rfl, htail⟩ := spellUnit_append_inj h
  · exact ⟨Utf16.ofChar_inj (hc.trans hd.symm), htail⟩
  · exact absurd hv hu
  · exact absurd hu hv
  · obtain ⟨rfl, hrest⟩ := spellUnit_append_inj htail
    exact ⟨Utf16.ofChar_inj (hc.trans hd.symm), hrest⟩

theorem escapeDigit_mem (c : Char) : escapeDigit c ∈ escapeDigits := by
  unfold escapeDigit
  split_ifs <;> decide

theorem eq_of_escapeDigit (h : escapeDigit c = escapeDigit d) (hmark : escapeDigit c ≠ '0') :
    c = d := by
  unfold escapeDigit at h hmark
  split_ifs at h hmark <;> simp_all

structure IsEscaped (c : Char) : Prop where
  plain : ¬isPlain c = true
  slash : c ≠ '/'

theorem IsEscaped.spellNative_eq (hc : IsEscaped c) :
    spellNative c = if escapeDigit c = '0' then (Utf16.ofChar c).flatMap spellUnit
      else ['_', escapeDigit c] := by
  unfold spellNative escapeDigit
  rw [if_neg hc.plain, if_neg hc.slash]
  split_ifs <;> simp_all
  rfl

theorem IsEscaped.starts (hc : IsEscaped c) :
    ∃ more, spellNative c = '_' :: escapeDigit c :: more := by
  rw [hc.spellNative_eq]
  split
  next hdigit =>
    rw [hdigit]
    rcases Utf16.ofChar_cases c with ⟨u, hc, -⟩ | ⟨u, v, hc, -⟩
    · exact ⟨_, by rw [hc]; rfl⟩
    · exact ⟨_, by rw [hc]; rfl⟩
  next => exact ⟨[], rfl⟩

theorem escaped_append_inj (hc : IsEscaped c) (hd : IsEscaped d)
    (h : spellNative c ++ x = spellNative d ++ y) : c = d ∧ x = y := by
  have hdigit : escapeDigit c = escapeDigit d := by
    obtain ⟨more, hmore⟩ := hc.starts
    obtain ⟨more', hmore'⟩ := hd.starts
    rw [hmore, hmore'] at h
    exact (List.cons.inj (List.cons.inj h).2).1
  by_cases hmark : escapeDigit c = '0'
  · rw [hc.spellNative_eq, hd.spellNative_eq, if_pos hmark, if_pos (hdigit ▸ hmark)] at h
    exact spellUnits_append_inj h
  · obtain rfl := eq_of_escapeDigit hdigit hmark
    exact ⟨rfl, List.append_cancel_left h⟩

def IsClosed (cs : List Char) : Prop :=
  ∀ k ∈ cs.head?, k ∉ escapeDigits

instance : DecidablePred IsClosed
  | [] => .isTrue (by simp [IsClosed])
  | k :: rest => decidable_of_iff (k ∉ escapeDigits) (by simp [IsClosed])

def IsUnambiguous (cs : List Char) : Prop :=
  cs.IsChain fun c k => c = '/' → k ∉ escapeDigits

theorem spelling_cases (c : Char) : isPlain c = true ∨ c = '/' ∨ IsEscaped c := by
  by_cases hplain : isPlain c = true
  · exact .inl hplain
  · by_cases hslash : c = '/'
    · exact .inr (.inl hslash)
    · exact .inr (.inr ⟨hplain, hslash⟩)

theorem spellNative_plain (hc : isPlain c = true) : spellNative c = [c] := by
  rw [spellNative, if_pos hc]

theorem head_spellNative (hc : ¬isPlain c = true) : ∃ more, spellNative c = '_' :: more := by
  rcases spelling_cases c with hplain | rfl | hescaped
  · exact absurd hplain hc
  · exact ⟨[], rfl⟩
  · obtain ⟨more, hmore⟩ := hescaped.starts
    exact ⟨_, hmore⟩

theorem plain_append_inj (hc : isPlain c = true) (h : spellNative c ++ x = spellNative d ++ y) :
    c = d ∧ x = y := by
  rw [spellNative_plain hc] at h
  by_cases hd : isPlain d = true
  · rw [spellNative_plain hd] at h
    exact List.cons.inj h
  · obtain ⟨more, hmore⟩ := head_spellNative hd
    rw [hmore] at h
    obtain rfl : c = '_' := (List.cons.inj h).1
    exact absurd hc (by decide)

theorem slash_append_ne (hx : IsClosed x) (hd : IsEscaped d) :
    spellNative '/' ++ x ≠ spellNative d ++ y := by
  intro h
  obtain ⟨more, hmore⟩ := hd.starts
  rw [hmore] at h
  obtain rfl : x = escapeDigit d :: (more ++ y) := (List.cons.inj h).2
  exact hx _ rfl (escapeDigit_mem d)

theorem spellNative_append_inj (hx : c = '/' → IsClosed x) (hy : d = '/' → IsClosed y)
    (h : spellNative c ++ x = spellNative d ++ y) : c = d ∧ x = y := by
  rcases spelling_cases c with hc | rfl | hc
  · exact plain_append_inj hc h
  · rcases spelling_cases d with hd | rfl | hd
    · obtain ⟨hchar, hrest⟩ := plain_append_inj hd h.symm
      exact ⟨hchar.symm, hrest.symm⟩
    · exact ⟨rfl, List.append_cancel_left h⟩
    · exact absurd h (slash_append_ne (hx rfl) hd)
  · rcases spelling_cases d with hd | rfl | hd
    · obtain ⟨hchar, hrest⟩ := plain_append_inj hd h.symm
      exact ⟨hchar.symm, hrest.symm⟩
    · exact absurd h.symm (slash_append_ne (hy rfl) hc)
    · exact escaped_append_inj hc hd h

theorem isClosed_flatMap {cs : List Char} (h : IsClosed cs) :
    IsClosed (cs.flatMap spellNative) := by
  cases cs with
  | nil => exact h
  | cons c cs =>
      rw [List.flatMap_cons]
      by_cases hc : isPlain c = true
      · rw [spellNative_plain hc]
        exact h
      · obtain ⟨more, hmore⟩ := head_spellNative hc
        rw [hmore]
        intro k hk
        obtain rfl := Option.some.inj hk
        decide

theorem spellNative_ne_nil (c : Char) : spellNative c ≠ [] := by
  by_cases hc : isPlain c = true
  · rw [spellNative_plain hc]
    exact List.cons_ne_nil c []
  · obtain ⟨more, hmore⟩ := head_spellNative hc
    rw [hmore]
    exact List.cons_ne_nil '_' more

theorem flatMap_spellNative_ne_nil (c : Char) (cs : List Char) :
    (c :: cs).flatMap spellNative ≠ [] := by
  rw [List.flatMap_cons]
  exact List.append_ne_nil_of_left_ne_nil (spellNative_ne_nil c) _

theorem flatMap_spellNative_inj {cs ds : List Char} (hcs : IsUnambiguous cs)
    (hds : IsUnambiguous ds) (h : cs.flatMap spellNative = ds.flatMap spellNative) : cs = ds := by
  induction cs generalizing ds with
  | nil =>
      cases ds with
      | nil => rfl
      | cons d ds => exact absurd h.symm (flatMap_spellNative_ne_nil d ds)
  | cons c cs ih =>
      cases ds with
      | nil => exact absurd h (flatMap_spellNative_ne_nil c cs)
      | cons d ds =>
          obtain ⟨hc, hcs⟩ := List.isChain_cons.mp hcs
          obtain ⟨hd, hds⟩ := List.isChain_cons.mp hds
          rw [List.flatMap_cons, List.flatMap_cons] at h
          obtain ⟨hchar, hrest⟩ := spellNative_append_inj
            (fun hslash => isClosed_flatMap fun k hk => hc k hk hslash)
            (fun hslash => isClosed_flatMap fun k hk => hd k hk hslash) h
          rw [hchar, ih hcs hds hrest]

theorem splitOn_cons_of_ne {c sep : Char} (hc : c ≠ sep) (cs : List Char) :
    ∃ part parts, (c :: cs).splitOn sep = (c :: part) :: parts := by
  obtain ⟨part, parts, hparts⟩ := List.exists_cons_of_ne_nil (List.splitOn_ne_nil sep cs)
  refine ⟨part, parts, ?_⟩
  rw [List.splitOn_cons_eq_if_modifyHead, if_neg (by simpa using hc), hparts]
  rfl

theorem isUnambiguous_of_components {cs : List Char}
    (h : ∀ part ∈ (cs.splitOn '/').tail, IsClosed part) : IsUnambiguous cs := by
  rw [IsUnambiguous, List.isChain_iff_forall_rel_of_append_cons_cons]
  rintro c k before after rfl rfl
  by_cases hk : k = '/'
  · subst hk
    decide
  · -- The character behind the slash begins a component, which is not the first.
    obtain ⟨part, parts, hparts⟩ := splitOn_cons_of_ne hk after
    have hmem : k :: part ∈ ((before ++ '/' :: k :: after).splitOn '/').tail := by
      rw [List.splitOn_append_cons_self, hparts,
        List.tail_append_of_ne_nil (List.splitOn_ne_nil '/' before)]
      exact List.mem_append_right _ List.mem_cons_self
    exact h (k :: part) hmem k rfl

structure Separable (cls method : String) : Prop where
  components : ∀ part ∈ (cls.toList.splitOn '/').tail, IsClosed part
  start : IsClosed method.toList
  single : '/' ∉ method.toList

theorem Separable.unambiguous {cls method : String} (h : Separable cls method) :
    IsUnambiguous (cls.toList ++ '/' :: method.toList) := by
  apply isUnambiguous_of_components
  rw [List.splitOn_append_cons_self, List.splitOn_eq_singleton h.single,
    List.tail_append_of_ne_nil (List.splitOn_ne_nil '/' cls.toList)]
  intro part hpart
  rcases List.mem_append.mp hpart with hcomponent | hmethod
  · exact h.components part hcomponent
  · obtain rfl := List.mem_singleton.mp hmethod
    exact h.start

theorem toList_nativeShort (cls method : String) :
    (nativeShort cls method).toList =
      "Java_".toList ++ (cls.toList ++ '/' :: method.toList).flatMap spellNative := by
  have hslash : "_".toList = spellNative '/' := rfl
  simp only [nativeShort, nativeIdentifier, String.toList_append, String.toList_ofList, hslash,
    List.flatMap_append, List.flatMap_cons, List.append_assoc]

theorem isWord_spellNative (c : Char) : IsWord (String.ofList (spellNative c)) := by
  intro d hd
  rw [String.toList_ofList] at hd
  rcases spelling_cases c with hc | rfl | hc
  · rw [spellNative_plain hc] at hd
    obtain rfl := List.mem_singleton.mp hd
    exact .inl (isPlain_eq d ▸ hc)
  · exact .inr (List.mem_singleton.mp hd)
  · rw [hc.spellNative_eq] at hd
    split at hd
    next =>
      obtain ⟨u, -, hu⟩ := List.mem_flatMap.mp hd
      rcases List.mem_cons.mp hu with rfl | hu
      · exact .inr rfl
      · rcases List.mem_cons.mp hu with rfl | hu
        · exact .inl rfl
        · exact .inl (isAlphanum_of_mem_hex hu)
    next =>
      have hdigits : ∀ k ∈ escapeDigits, k.isAlphanum = true := by simp [escapeDigits]
      rcases List.mem_cons.mp hd with rfl | hd
      · exact .inr rfl
      · obtain rfl := List.mem_singleton.mp hd
        exact .inl (hdigits _ (escapeDigit_mem c))

theorem isWord_nativeIdentifier (name : String) : IsWord (nativeIdentifier name) :=
  isWord_flatMap isWord_spellNative name.toList

theorem isWord_nativeShort (cls method : String) : IsWord (nativeShort cls method) := by
  rw [nativeShort, isWord_append, isWord_append, isWord_append]
  exact ⟨⟨⟨by decide, isWord_nativeIdentifier cls⟩, by decide⟩, isWord_nativeIdentifier method⟩

theorem native_names_do_not_collide (c m c' m' : String) :
    IsWord (nativeShort c m) ∧
    (Separable c m → Separable c' m' →
      (nativeShort c m = nativeShort c' m' ↔ c = c' ∧ m = m')) := by
  refine ⟨isWord_nativeShort c m, fun h h' => ⟨fun hnames => ?_, ?_⟩⟩
  · have hchars := congrArg String.toList hnames
    rw [toList_nativeShort, toList_nativeShort, List.append_cancel_left_eq] at hchars
    have hjoined := flatMap_spellNative_inj h.unambiguous h'.unambiguous hchars
    obtain ⟨hclass, hmethod⟩ := ClassName.join_inj h.single h'.single hjoined
    exact ⟨String.toList_inj.mp hclass, String.toList_inj.mp hmethod⟩
  · rintro ⟨rfl, rfl⟩
    rfl

theorem underscored_names_differ : Separable "a/_é" "f" ∧ Separable "a_/é" "f" ∧
    nativeShort "a/_é" "f" ≠ nativeShort "a_/é" "f" := by
  have h : Separable "a/_é" "f" := ⟨by decide, by decide, by decide⟩
  have h' : Separable "a_/é" "f" := ⟨by decide, by decide, by decide⟩
  refine ⟨h, h', fun hsame => ?_⟩
  have hnames := ((native_names_do_not_collide "a/_é" "f" "a_/é" "f").2 h h').mp hsame
  exact absurd hnames.1 (by decide)

example : nativeShort "a/1b" "f" = nativeShort "a_b" "f" := by
  decide +kernel

end Mangle

end Linkage
