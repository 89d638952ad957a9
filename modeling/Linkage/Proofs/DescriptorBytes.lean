import Linkage.Bytes
import Linkage.Proofs.DescriptorGrammar

namespace Linkage

namespace Text

def utf8 (cs : List Char) : Bytes :=
  cs.flatMap String.utf8EncodeChar

theorem utf8_cons (c : Char) (cs : List Char) :
    utf8 (c :: cs) = String.utf8EncodeChar c ++ utf8 cs :=
  List.flatMap_cons

theorem utf8_append (cs ds : List Char) : utf8 (cs ++ ds) = utf8 cs ++ utf8 ds :=
  List.flatMap_append

theorem utf8_toList (text : String) : utf8 text.toList = text.toUTF8.data.toList := by
  rw [String.toUTF8, ← String.utf8Encode_toList, List.utf8Encode, List.data_toByteArray, utf8]

theorem fromUTF8?_utf8 (cs : List Char) :
    String.fromUTF8? (utf8 cs).toByteArray = some (String.ofList cs) := by
  have hbytes : (utf8 cs).toByteArray = (String.ofList cs).toByteArray := by
    rw [String.toByteArray_ofList, List.utf8Encode, utf8]
  rw [hbytes, String.fromUTF8?, dif_pos (String.isValidUTF8 _)]
  rfl

theorem utf8_inj {cs ds : List Char} : utf8 cs = utf8 ds ↔ cs = ds := by
  constructor
  · intro h
    have htexts := fromUTF8?_utf8 cs
    rw [h, fromUTF8?_utf8, Option.some_inj, String.ofList_inj] at htexts
    exact htexts.symm
  · rintro rfl
    rfl

theorem utf8_eq_nil_iff {cs : List Char} : utf8 cs = [] ↔ cs = [] :=
  @utf8_inj cs []

theorem exists_utf8_cons (c : Char) (cs : List Char) : ∃ b rest, utf8 (c :: cs) = b :: rest := by
  apply List.exists_cons_of_ne_nil
  rw [Ne, utf8_eq_nil_iff]
  exact List.cons_ne_nil c cs

theorem utf8EncodeChar_of_lt {c : Char} (hc : c.toNat < 128) :
    String.utf8EncodeChar c = [c.toUInt8] := by
  apply String.utf8EncodeChar_eq_singleton
  rw [Char.utf8Size_eq_one_iff, UInt32.le_iff_toNat_le]
  exact Nat.le_of_lt_succ hc

theorem toUInt8_ofUInt8 (b : UInt8) : (Char.ofUInt8 b).toUInt8 = b :=
  UInt8.toUInt8_toUInt32 b

theorem toNat_toUInt8 {c : Char} (hc : c.toNat < 128) : c.toUInt8.toNat = c.toNat := by
  have hvalue : c.toUInt8.toNat = c.toNat % 256 := UInt32.toNat_toUInt8 c.val
  omega

theorem le_of_mem_utf8EncodeChar {c : Char} (hc : 128 ≤ c.toNat) {b : UInt8}
    (hb : b ∈ String.utf8EncodeChar c) : 128 ≤ b.toNat := by
  have hlong : ¬c.val.toNat ≤ 127 := Nat.not_le.mpr hc
  rw [String.utf8EncodeChar] at hb
  simp only [hlong, if_false] at hb
  -- Two, three or four bytes, each with its highest bit set.
  split at hb
  next =>
    simp only [List.mem_cons, List.not_mem_nil, or_false] at hb
    rcases hb with rfl | rfl <;> simp <;> omega
  next =>
    split at hb
    next =>
      simp only [List.mem_cons, List.not_mem_nil, or_false] at hb
      rcases hb with rfl | rfl | rfl <;> simp <;> omega
    next =>
      simp only [List.mem_cons, List.not_mem_nil, or_false] at hb
      rcases hb with rfl | rfl | rfl | rfl <;> simp <;> omega

theorem eq_of_mem_utf8EncodeChar {a c : Char} (ha : a.toNat < 128)
    (h : a.toUInt8 ∈ String.utf8EncodeChar c) : c = a := by
  have hbyte := toNat_toUInt8 ha
  rcases Nat.lt_or_ge c.toNat 128 with hc | hc
  · rw [utf8EncodeChar_of_lt hc, List.mem_singleton] at h
    rw [← Char.toNat_inj, ← toNat_toUInt8 hc, ← h, hbyte]
  · have := le_of_mem_utf8EncodeChar hc h
    omega

section

variable {a : Char} (ha : a.toNat < 128)
include ha

theorem head_eq_of_utf8 {c : Char} {cs : List Char} {rest : Bytes}
    (h : utf8 (c :: cs) = a.toUInt8 :: rest) : c = a := by
  have hne : String.utf8EncodeChar c ≠ [] := by simp
  obtain ⟨b, bs, hcode⟩ := List.exists_cons_of_ne_nil hne
  rw [utf8_cons, hcode, List.cons_append] at h
  apply eq_of_mem_utf8EncodeChar ha
  rw [hcode, List.head_eq_of_cons_eq h]
  exact List.mem_cons_self

theorem utf8_ne_cons {cs : List Char} (h : ∀ rest, cs ≠ a :: rest) (rest : Bytes) :
    utf8 cs ≠ a.toUInt8 :: rest := by
  intro hcode
  cases cs with
  | nil => cases hcode
  | cons c cs => exact h cs (congrArg (· :: cs) (head_eq_of_utf8 ha hcode))

theorem takeWhile_utf8 (cs : List Char) :
    (utf8 cs).takeWhile (· != a.toUInt8) = utf8 (cs.takeWhile (· != a)) := by
  induction cs with
  | nil => rfl
  | cons c cs ih =>
      by_cases hc : c = a
      · subst hc
        rw [utf8_cons, utf8EncodeChar_of_lt ha, List.singleton_append,
          List.takeWhile_cons_of_neg (by simp), List.takeWhile_cons_of_neg (by simp)]
        rfl
      · have hbytes : ∀ b ∈ String.utf8EncodeChar c, (b != a.toUInt8) = true := by
          intro b hb
          rw [bne_iff_ne]
          rintro rfl
          exact hc (eq_of_mem_utf8EncodeChar ha hb)
        rw [utf8_cons, List.takeWhile_append_of_pos hbytes, ih,
          List.takeWhile_cons_of_pos (by simpa using hc), utf8_cons]

theorem dropWhile_utf8 (cs : List Char) :
    (utf8 cs).dropWhile (· != a.toUInt8) = utf8 (cs.dropWhile (· != a)) := by
  have hsplit : utf8 (cs.takeWhile (· != a)) ++ (utf8 cs).dropWhile (· != a.toUInt8) =
      utf8 (cs.takeWhile (· != a)) ++ utf8 (cs.dropWhile (· != a)) := by
    rw [← takeWhile_utf8 ha, List.takeWhile_append_dropWhile, takeWhile_utf8 ha, ← utf8_append,
      List.takeWhile_append_dropWhile]
  exact List.append_cancel_left hsplit

end

end Text

inductive DescriptorFault where
  | malformed
  | notText
  deriving DecidableEq, Repr

namespace FieldType

def readBytes : Bytes → Except DescriptorFault (FieldType × Bytes)
  | [] => .error .malformed
  | tag :: rest =>
      if tag = 'L'.toUInt8 then
        let name := rest.takeWhile (· != ';'.toUInt8)
        match rest.dropWhile (· != ';'.toUInt8) with
        | [] => .error .malformed
        | _ :: rest =>
            if name = [] then .error .malformed
            else
              match String.fromUTF8? name.toByteArray with
              | some name => .ok (object name, rest)
              | none => .error .notText
      else if tag = '['.toUInt8 then
        match readBytes rest with
        | .ok (component, rest) => .ok (array component, rest)
        | .error fault => .error fault
      else
        match BaseType.ofTag? (Char.ofUInt8 tag) with
        | some type => .ok (base type, rest)
        | none => .error .malformed

theorem length_lt_of_readBytes {s rest : Bytes} {t : FieldType}
    (h : readBytes s = .ok (t, rest)) : rest.length < s.length := by
  fun_induction readBytes s generalizing t rest with
  | case1 => cases h
  | case2 => cases h
  | case3 => cases h
  | case4 s coded b after hdrop =>
      cases h
      have hle := (List.dropWhile_suffix (l := s) (· != ';'.toUInt8)).length_le
      rw [hdrop, List.length_cons] at hle
      rw [List.length_cons]
      omega
  | case5 => cases h
  | case6 s component after hread hobject ih =>
      cases h
      have := ih hread
      rw [List.length_cons]
      omega
  | case7 => cases h
  | case8 =>
      cases h
      rw [List.length_cons]
      omega
  | case9 => cases h

def ofBytes (bytes : Bytes) : Except DescriptorFault FieldType :=
  match readBytes bytes with
  | .ok (t, []) => .ok t
  | .ok (_, _ :: _) => .error .malformed
  | .error fault => .error fault

end FieldType

def ReturnType.ofBytes (bytes : Bytes) : Except DescriptorFault ReturnType :=
  if bytes = ['V'.toUInt8] then .ok void
  else (FieldType.ofBytes bytes).map value

namespace MethodType

def readParamBytes (done : List FieldType) (bytes : Bytes) :
    Except DescriptorFault (List FieldType × Bytes) :=
  match bytes with
  | [] => .error .malformed
  | b :: rest =>
      if b = ')'.toUInt8 then .ok (done, rest)
      else
        match _h : FieldType.readBytes (b :: rest) with
        | .ok (t, rest) => readParamBytes (done ++ [t]) rest
        | .error fault => .error fault
termination_by bytes.length
decreasing_by exact FieldType.length_lt_of_readBytes (by assumption)

def ofBytes : Bytes → Except DescriptorFault MethodType
  | [] => .error .malformed
  | b :: rest =>
      if b = '('.toUInt8 then do
        let (params, rest) ← readParamBytes [] rest
        let result ← ReturnType.ofBytes rest
        return ⟨params, result⟩
      else .error .malformed

end MethodType

section Agreement

open Text

def orMalformed {α : Type} : Option α → Except DescriptorFault α
  | some a => .ok a
  | none => .error .malformed

theorem BaseType.ofTag?_byte_of_none {c : Char} {cs : List Char} {b : UInt8} {rest : Bytes}
    (hcode : utf8 (c :: cs) = b :: rest) (htag : ofTag? c = none) :
    ofTag? (Char.ofUInt8 b) = none := by
  rw [Option.eq_none_iff_forall_ne_some]
  intro type htype
  have hbyte : b = type.tag.toUInt8 := by
    rw [← eq_tag_of_ofTag? htype, toUInt8_ofUInt8]
  have hc : c = type.tag := by
    rw [hbyte] at hcode
    exact head_eq_of_utf8 (by cases type <;> decide) hcode
  rw [hc, ofTag?_tag] at htag
  cases htag

theorem FieldType.readBytes_utf8 (cs : List Char) :
    readBytes (utf8 cs) = orMalformed ((read? cs).map (Prod.map id utf8)) := by
  have hsemicolon : ';'.toNat < 128 := by decide
  fun_induction read? cs with
  | case1 => rfl
  | case2 s c name d tail htail hname =>
      obtain rfl := head_dropWhile_semicolon htail
      have hcoded : utf8 (c :: name) ≠ [] := by simp [utf8_eq_nil_iff]
      have hafter : utf8 (';' :: tail) = ';'.toUInt8 :: utf8 tail := rfl
      change readBytes ('L'.toUInt8 :: utf8 s) = _
      simp only [readBytes, if_true, takeWhile_utf8 hsemicolon, dropWhile_utf8 hsemicolon, hname,
        htail, hafter, if_neg hcoded, fromUTF8?_utf8]
      rfl
  | case3 s hnone =>
      change readBytes ('L'.toUInt8 :: utf8 s) = _
      simp only [readBytes, if_true, takeWhile_utf8 hsemicolon, dropWhile_utf8 hsemicolon]
      cases hdrop : s.dropWhile (· != ';') with
      | nil => rfl
      | cons d tail =>
          obtain rfl := head_dropWhile_semicolon hdrop
          cases hname : s.takeWhile (· != ';') with
          | nil => rfl
          | cons c name => exact (hnone c name ';' tail hname hdrop).elim
  | case4 s component tail hread ih =>
      change readBytes ('['.toUInt8 :: utf8 s) = _
      rw [readBytes, if_neg (by decide), if_pos rfl, ih, hread]
      rfl
  | case5 s hread ih =>
      change readBytes ('['.toUInt8 :: utf8 s) = _
      rw [readBytes, if_neg (by decide), if_pos rfl, ih, hread]
      rfl
  | case6 c s hobject harray type htag =>
      rw [BaseType.eq_tag_of_ofTag? htag]
      cases type <;> rfl
  | case7 c s hobject harray htag =>
      obtain ⟨b, rest, hcode⟩ := exists_utf8_cons c s
      have hb {a : Char} (ha : a.toNat < 128) (hne : c ≠ a) : b ≠ a.toUInt8 := by
        rintro rfl
        exact hne (head_eq_of_utf8 ha hcode)
      rw [hcode, readBytes, if_neg (hb (by decide) hobject), if_neg (hb (by decide) harray),
        BaseType.ofTag?_byte_of_none hcode htag]
      rfl

theorem FieldType.ofBytes_utf8 (cs : List Char) :
    ofBytes (utf8 cs) =
      match read? cs with
      | some (t, []) => .ok t
      | _ => .error .malformed := by
  rw [ofBytes, readBytes_utf8]
  cases read? cs with
  | none => rfl
  | some parsed =>
      obtain ⟨t, rest⟩ := parsed
      cases rest with
      | nil => rfl
      | cons c rest =>
          obtain ⟨b, bytes, hcode⟩ := exists_utf8_cons c rest
          rw [Option.map_some, Prod.map_apply, hcode]
          rfl

theorem ReturnType.ofBytes_utf8 (cs : List Char) :
    ofBytes (utf8 cs) = orMalformed (read? cs) := by
  by_cases hvoid : cs = ['V']
  · subst hvoid
    rfl
  · have hbytes : utf8 cs ≠ ['V'.toUInt8] := by
      change utf8 cs ≠ utf8 ['V']
      rwa [Ne, utf8_inj]
    rw [ofBytes, if_neg hbytes, FieldType.ofBytes_utf8, read?.eq_2 cs hvoid]
    generalize FieldType.read? cs = parsed
    rcases parsed with _ | ⟨t, _ | ⟨c, rest⟩⟩ <;> rfl

theorem MethodType.readParamBytes_of_read {done : List FieldType} {bytes : Bytes}
    (hclose : ∀ rest, bytes ≠ ')'.toUInt8 :: rest) :
    readParamBytes done bytes =
      match FieldType.readBytes bytes with
      | .ok (t, rest) => readParamBytes (done ++ [t]) rest
      | .error fault => .error fault := by
  cases bytes with
  | nil =>
      rw [readParamBytes]
      rfl
  | cons b rest =>
      have hb : b ≠ ')'.toUInt8 := fun h => hclose rest (congrArg (· :: rest) h)
      rw [readParamBytes, if_neg hb]
      split <;> simp_all

theorem MethodType.readParamBytes_utf8 (done : List FieldType) (cs : List Char) :
    readParamBytes done (utf8 cs) =
      orMalformed ((readParams? cs).map (Prod.map (done ++ ·) utf8)) := by
  fun_induction readParams? cs generalizing done with
  | case1 s =>
      change readParamBytes done (')'.toUInt8 :: utf8 s) = _
      rw [readParamBytes, if_pos rfl, Option.map_some, Prod.map_apply, List.append_nil]
      rfl
  | case2 s hclose t after hread params rest hrest ih =>
      rw [readParamBytes_of_read (utf8_ne_cons (by decide) hclose), FieldType.readBytes_utf8, hread]
      change readParamBytes (done ++ [t]) (utf8 after) = _
      rw [ih, hrest, Option.map_some, Option.map_some, Prod.map_apply, Prod.map_apply,
        List.append_assoc, List.singleton_append]
  | case3 s hclose t after hread hrest ih =>
      rw [readParamBytes_of_read (utf8_ne_cons (by decide) hclose), FieldType.readBytes_utf8, hread]
      change readParamBytes (done ++ [t]) (utf8 after) = _
      rw [ih, hrest]
      rfl
  | case4 s hclose hread =>
      rw [readParamBytes_of_read (utf8_ne_cons (by decide) hclose), FieldType.readBytes_utf8, hread]
      rfl

theorem MethodType.ofBytes_utf8 (cs : List Char) :
    ofBytes (utf8 cs) = orMalformed (read? cs) := by
  by_cases hopen : ∃ rest, cs = '(' :: rest
  · obtain ⟨rest, rfl⟩ := hopen
    change ofBytes ('('.toUInt8 :: utf8 rest) = _
    rw [ofBytes, if_pos rfl, readParamBytes_utf8, read?]
    cases readParams? rest with
    | none => rfl
    | some parsed =>
        obtain ⟨params, rest⟩ := parsed
        change (do
          let result ← ReturnType.ofBytes (utf8 rest)
          return (⟨params, result⟩ : MethodType)) =
            orMalformed ((ReturnType.read? rest).map fun result => ⟨params, result⟩)
        rw [ReturnType.ofBytes_utf8]
        cases ReturnType.read? rest <;> rfl
  · have hne : ∀ rest, cs ≠ '(' :: rest := by
      rintro rest rfl
      exact hopen ⟨rest, rfl⟩
    rw [read?.eq_2 cs hne]
    cases hcode : utf8 cs with
    | nil => rfl
    | cons b rest =>
        have hb : b ≠ '('.toUInt8 := by
          rintro rfl
          exact utf8_ne_cons (by decide) hne rest hcode
        rw [ofBytes, if_neg hb]
        rfl

end Agreement

theorem descriptors_are_printed_types (text : String) :
    (∀ t, FieldType.ofDescriptor text = .ok t ↔ text = t.descriptor ∧ t.WellNamed) ∧
    (∀ m, MethodType.ofDescriptor text = .ok m ↔ text = m.descriptor ∧ m.WellNamed) ∧
    (∀ e, FieldType.ofDescriptor text = .error e ↔
      e = .invalidDescriptor text ∧ ¬∃ t : FieldType, text = t.descriptor ∧ t.WellNamed) ∧
    (∀ e, MethodType.ofDescriptor text = .error e ↔
      e = .invalidDescriptor text ∧ ¬∃ m : MethodType, text = m.descriptor ∧ m.WellNamed) ∧
    (FieldType.ofBytes text.toUTF8.data.toList).mapError (fun _ => .invalidDescriptor text) =
      FieldType.ofDescriptor text ∧
    (MethodType.ofBytes text.toUTF8.data.toList).mapError (fun _ => .invalidDescriptor text) =
      MethodType.ofDescriptor text ∧
    FieldType.ofBytes text.toUTF8.data.toList ≠ .error .notText ∧
    MethodType.ofBytes text.toUTF8.data.toList ≠ .error .notText := by
  refine ⟨fun t => FieldType.ofDescriptor_eq_ok_iff, fun m => MethodType.ofDescriptor_eq_ok_iff,
    fun e => FieldType.ofDescriptor_refused_iff, fun e => MethodType.ofDescriptor_refused_iff,
    ?_⟩
  have hfield := FieldType.ofBytes_utf8 text.toList
  have hmethod := MethodType.ofBytes_utf8 text.toList
  rw [Text.utf8_toList] at hfield hmethod
  rw [hfield, hmethod, FieldType.ofDescriptor, MethodType.ofDescriptor]
  generalize FieldType.read? text.toList = field
  generalize MethodType.read? text.toList = method
  refine ⟨?_, ?_, ?_, ?_⟩
  · rcases field with _ | ⟨t, _ | ⟨c, rest⟩⟩ <;> rfl
  · cases method <;> rfl
  · intro h
    rcases field with _ | ⟨t, _ | ⟨c, rest⟩⟩ <;> cases h
  · intro h
    cases method <;> cases h

example : MethodType.ofDescriptor "(L(é);[[J)V" =
    .ok ⟨[.object "(é)", .array (.array (.base .long))], .void⟩ := by
  decide +kernel

end Linkage
