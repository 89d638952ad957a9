import Linkage.ClassFile.Parser
import Linkage.Proofs.Outcome
import Linkage.Proofs.RoundTrip

namespace Linkage

open Outcome

namespace Decoder

variable {α β : Type} {d : Decoder α} {k : α → Decoder β} {front more : Bytes} {a : α} {b : β}

theorem bind_apply (d : Decoder α) (k : α → Decoder β) (input : Bytes) :
    (d >>= k) input = d input >>= fun out => k out.1 out.2 := rfl

theorem bind_apply_ok {input rest : Bytes} (h : d input = .ok (a, rest)) :
    (d >>= k) input = k a rest := by
  rw [bind_apply, h]
  rfl

theorem bind_apply_error {input : Bytes} {e : FormatError} (h : d input = .error e) :
    (d >>= k) input = .error e := by
  rw [bind_apply, h]
  rfl

theorem bind_lifted_ok {x : Except FormatError α} {input : Bytes} (h : x = .ok a) :
    (liftM x >>= k) input = k a input :=
  bind_apply_ok (Reads.lifted h input)

-- The decoder gives `a` for these bytes, whatever follows, and misses any that are cut off.
structure Takes (d : Decoder α) (front : Bytes) (a : α) : Prop where
  reads : Reads d front a
  starved : ∀ {p q}, front = p ++ q → q ≠ [] → d p = .error .unexpectedEnd

def Framed (d : Decoder α) : Prop :=
  ∀ input a rest, d input = .ok (a, rest) → ∃ front, input = front ++ rest ∧ Takes d front a

theorem Takes.nil (h : Reads d [] a) : Takes d [] a where
  reads := h
  starved := fun hsplit hq => absurd (List.append_eq_nil_iff.mp hsplit.symm).2 hq

theorem Takes.starved_bind {p q : Bytes} (hd : Takes d front a) (hsplit : front ++ more = p ++ q)
    (hk : ∀ part, more = part ++ q → k a part = .error .unexpectedEnd) :
    (d >>= k) p = .error .unexpectedEnd := by
  rcases List.append_eq_append_iff.mp hsplit with ⟨part, rfl, hmore⟩ | ⟨part, hfront, hrest⟩
  · rw [bind_apply_ok (hd.reads part)]
    exact hk part hmore
  · cases part with
    | nil =>
        rw [List.append_nil] at hfront
        subst hfront
        rw [bind_apply_ok hd.reads.exactly]
        exact hk [] hrest.symm
    | cons byte part => exact bind_apply_error (hd.starved hfront (List.cons_ne_nil _ _))

theorem Takes.bind (hd : Takes d front a) (hk : Takes (k a) more b) :
    Takes (d >>= k) (front ++ more) b where
  reads := hd.reads.bind hk.reads
  starved := fun hsplit hq => hd.starved_bind hsplit fun _ hmore => hk.starved hmore hq

theorem Framed.pure (a : α) : Framed (pure a : Decoder α) := by
  intro input a' rest h
  obtain ⟨rfl, rfl⟩ := Prod.mk.inj (Except.ok.inj h)
  exact ⟨[], rfl, .nil (Reads.pure a)⟩

theorem Framed.throw (e : FormatError) : Framed (throw e : Decoder α) := by
  intro input a rest h
  cases h

theorem Framed.lifted (x : Except FormatError α) : Framed (liftM x : Decoder α) := by
  cases x with
  | error e => exact Framed.throw e
  | ok a => exact Framed.pure a

theorem Framed.bind (hd : Framed d) (hk : ∀ a, Framed (k a)) : Framed (d >>= k) := by
  intro input b rest h
  rw [bind_apply, bind_ok_iff] at h
  obtain ⟨⟨a, mid⟩, hfirst, hsecond⟩ := h
  obtain ⟨front, rfl, hfront⟩ := hd _ _ _ hfirst
  obtain ⟨more, rfl, hmore⟩ := hk a _ _ _ hsecond
  exact ⟨front ++ more, (List.append_assoc _ _ _).symm, hfront.bind hmore⟩

theorem Framed.map (hd : Framed d) (f : α → β) : Framed (do return f (← d)) :=
  hd.bind fun _ => .pure _

theorem Framed.liftBind (x : Except FormatError α) (hk : ∀ a, Framed (k a)) :
    Framed (liftM x >>= k) :=
  (Framed.lifted x).bind hk

theorem take_apply (n : Nat) (input : Bytes) : take n input =
    if n ≤ input.length then .ok (input.take n, input.drop n) else .error .unexpectedEnd := by
  have hlength : (input.take n).length = n ↔ n ≤ input.length := by
    rw [List.length_take]
    omega
  simp only [take, List.splitAt_eq, hlength]

theorem framed_of_length {n : Nat} {f : Bytes → α} (h : ∀ input, d input =
    if n ≤ input.length then .ok (f (input.take n), input.drop n) else .error .unexpectedEnd) :
    Framed d := by
  intro input a rest hok
  rw [h] at hok
  split at hok
  next hn =>
    obtain ⟨rfl, rfl⟩ := Prod.mk.inj (Except.ok.inj hok)
    have hlength : (input.take n).length = n := List.length_take_of_le hn
    refine ⟨input.take n, (List.take_append_drop n input).symm, fun rest => ?_, fun hsplit hq => ?_⟩
    · rw [h, if_pos (by rw [List.length_append]; omega), List.take_left' hlength,
        List.drop_left' hlength]
    · have hsum := congrArg List.length hsplit
      have hpos := List.length_pos_iff.mpr hq
      rw [List.length_append] at hsum
      rw [h, if_neg (by omega)]
  next => cases hok

theorem framed_take (n : Nat) : Framed (take n) :=
  framed_of_length (f := id) (take_apply n)

theorem framed_byte : Framed byte := by
  refine framed_of_length (n := 1) (f := fun bytes => bytes.headD 0) fun input => ?_
  match input with
  | [] => rfl
  | b :: rest => simp [byte]

theorem word_eq_bytes : word = do return Bytes.joinUInt16 (← byte) (← byte) := by
  funext input
  match input with
  | [] => rfl
  | [_] => rfl
  | _ :: _ :: _ => rfl

theorem framed_word : Framed word := by
  rw [word_eq_bytes]
  exact framed_byte.bind fun _ => framed_byte.map _

theorem doubleWord_eq_words : doubleWord = do return Bytes.joinUInt32 (← word) (← word) := by
  funext input
  match input with
  | [] => rfl
  | [_] => rfl
  | [_, _] => rfl
  | [_, _, _] => rfl
  | _ :: _ :: _ :: _ :: _ => rfl

theorem framed_doubleWord : Framed doubleWord := by
  rw [doubleWord_eq_words]
  exact framed_word.bind fun _ => framed_word.map _

theorem framed_quadWord : Framed quadWord :=
  framed_doubleWord.bind fun high => framed_doubleWord.map (Bytes.joinUInt64 high)

theorem fold_succ (step : α → Decoder α) (n : Nat) (acc : α) :
    fold step (n + 1) acc = step acc >>= fold step n := by
  funext input
  rw [bind_apply, fold]
  cases step acc input <;> rfl

theorem framed_fold {step : α → Decoder α} (h : ∀ acc, Framed (step acc)) (n : Nat) (acc : α) :
    Framed (fold step n acc) := by
  induction n generalizing acc with
  | zero => exact Framed.pure acc
  | succ n ih =>
      rw [fold_succ]
      exact (h acc).bind ih

theorem Framed.table (h : Framed d) : Framed (table d) :=
  framed_word.bind fun _ => (framed_fold (fun _ => h.map _) _ _).map _

structure Delimits (d : Decoder α) (input : Bytes) : Prop where
  starved : ∀ {p q}, input = p ++ q → q ≠ [] → d p = .error .unexpectedEnd
  trailing : ∀ {t}, t ≠ [] → d (input ++ t) = .error (.trailingBytes t.length)

def Delimiting (d : Decoder α) : Prop :=
  ∀ input a rest, d input = .ok (a, rest) → Delimits d input

theorem Delimiting.finish (a : α) : Delimiting (do finished; return a) := by
  intro input a rest h
  obtain ⟨⟨⟨⟩, mid⟩, hfinished, -⟩ := bind_ok_iff.mp h
  cases input with
  | cons b input => cases hfinished
  | nil =>
      refine ⟨fun hsplit hq => absurd (List.append_eq_nil_iff.mp hsplit.symm).2 hq, fun ht => ?_⟩
      exact bind_apply_error (if_neg fun hempty => ht (List.isEmpty_iff.mp hempty))

theorem Framed.delimiting (hd : Framed d) (hk : ∀ a, Delimiting (k a)) : Delimiting (d >>= k) := by
  intro input b rest h
  obtain ⟨⟨a, mid⟩, hfirst, hsecond⟩ := bind_ok_iff.mp h
  obtain ⟨front, rfl, hfront⟩ := hd _ _ _ hfirst
  have hmid := hk a _ _ _ hsecond
  refine ⟨fun hsplit hq => hfront.starved_bind hsplit fun _ hmid' => hmid.starved hmid' hq,
    fun {t} ht => ?_⟩
  rw [List.append_assoc, bind_apply_ok (hfront.reads _)]
  exact hmid.trailing ht

end Decoder

open Decoder

namespace Constant

theorem framed_decodeText : Framed decodeText := by
  refine framed_word.bind fun _ => (framed_take _).bind fun bytes => ?_
  cases Text.ModifiedUtf8.decode bytes with
  | none => exact Framed.throw _
  | some text => exact Framed.pure text

theorem framed_decode : Framed decode := by
  refine framed_byte.bind fun tag => ?_
  split
  · exact framed_decodeText.map utf8
  · exact framed_doubleWord.map fun w => integer w.toInt32
  · exact framed_doubleWord.map float
  · exact framed_quadWord.map fun w => long w.toInt64
  · exact framed_quadWord.map double
  · exact framed_word.map classRef
  · exact framed_word.map string
  · exact framed_word.bind fun owner => framed_word.map (memberRef .field owner)
  · exact framed_word.bind fun owner => framed_word.map (memberRef .method owner)
  · exact framed_word.bind fun owner => framed_word.map (memberRef .interfaceMethod owner)
  · exact framed_word.bind fun name => framed_word.map (nameAndType name)
  · exact framed_byte.bind fun mode => framed_word.map (methodHandle mode)
  · exact framed_word.map methodType
  · exact framed_word.bind fun bootstrap => framed_word.map (dynamic .constant bootstrap)
  · exact framed_word.bind fun bootstrap => framed_word.map (dynamic .call bootstrap)
  · exact framed_word.map moduleRef
  · exact framed_word.map packageRef
  · exact Framed.throw _

end Constant

namespace ConstantPool

theorem decodeSlots_one (count : UInt16) (pool : ConstantPool) :
    decodeSlots count 1 pool = (do
      let c ← Constant.decode
      if c.isWide then throw (.invalidIndex count) else return pool.push c) := by
  funext input
  rw [decodeSlots, bind_apply]
  refine bind_congr fun out => ?_
  dsimp only
  cases out.1.isWide <;> rfl

theorem decodeSlots_add_two (count : UInt16) (free : Nat) (pool : ConstantPool) :
    decodeSlots count (free + 2) pool = (do
      let c ← Constant.decode
      if c.isWide then
        decodeSlots count free (pool.push c)
      else
        decodeSlots count (free + 1) (pool.push c)) := by
  funext input
  rw [decodeSlots, bind_apply]
  refine bind_congr fun out => ?_
  dsimp only
  cases out.1.isWide <;> rfl

theorem framed_decodeSlots (count : UInt16) :
    ∀ free pool, Framed (decodeSlots count free pool)
  | 0, pool => Framed.pure pool
  | 1, pool => by
      rw [decodeSlots_one]
      refine Constant.framed_decode.bind fun c => ?_
      split
      · exact Framed.throw _
      · exact Framed.pure _
  | free + 2, pool => by
      rw [decodeSlots_add_two]
      refine Constant.framed_decode.bind fun c => ?_
      split
      · exact framed_decodeSlots count free _
      · exact framed_decodeSlots count (free + 1) _

theorem framed_decode : Framed decode :=
  framed_word.bind fun count => framed_decodeSlots count _ empty

end ConstantPool

theorem Attributes.framed_decode (pool : ConstantPool) (owner : AttributeOwner) :
    Framed (decode pool owner) := by
  refine framed_word.bind fun _ => framed_fold (fun found => ?_) _ _
  exact framed_word.bind fun nameIndex => framed_doubleWord.bind fun _ => (framed_take _).bind
    fun _ => .liftBind (pool.getText nameIndex) fun _ => Framed.lifted _

namespace ClassFile

variable {file : ClassFile} {bytes : Bytes}

theorem framed_member {α : Type} (pool : ConstantPool) (owner : AttributeOwner)
    (f : UInt16 → String → String → Attributes → α) : Framed (do
      let access ← word
      let name ← pool.getText (← word)
      let descriptor ← pool.getText (← word)
      let attributes ← Attributes.decode pool owner
      return f access name descriptor attributes) :=
  framed_word.bind fun access => framed_word.bind fun name => .liftBind (pool.getText name)
    fun name => framed_word.bind fun descriptor => .liftBind (pool.getText descriptor)
    fun descriptor => (Attributes.framed_decode pool owner).map (f access name descriptor)

theorem framed_decodeField (pool : ConstantPool) : Framed (decodeField pool) :=
  framed_member pool .ofField fun access name descriptor found =>
    FieldDecl.mk ⟨access⟩ name descriptor found.signature found.initial

theorem framed_decodeMethod (pool : ConstantPool) : Framed (decodeMethod pool) :=
  framed_member pool .ofMethod fun access name descriptor found =>
    MethodDecl.mk ⟨access⟩ name descriptor found.signature found.body

theorem delimiting_decodeBody (version : ClassVersion) (pool : ConstantPool) :
    Delimiting (decodeBody version pool) :=
  framed_word.delimiting fun _ => framed_word.delimiting fun name =>
    (Framed.lifted (pool.getClassName name)).delimiting fun _ =>
    framed_word.delimiting fun superName =>
    (Framed.lifted (Attributes.optionalClassName pool superName)).delimiting fun _ =>
    (framed_word.bind fun name => Framed.lifted (pool.getClassName name)).table.delimiting fun _ =>
    (framed_decodeField pool).table.delimiting fun _ =>
    (framed_decodeMethod pool).table.delimiting fun _ =>
    (Attributes.framed_decode pool .ofClass).delimiting fun _ => .finish _

theorem delimiting_decode : Delimiting decode := by
  refine framed_doubleWord.delimiting fun found => ?_
  have hrest : Delimiting (do
      let minor ← word
      let major ← word
      let pool ← ConstantPool.decode
      decodeBody ⟨major, minor⟩ pool) :=
    framed_word.delimiting fun _ => framed_word.delimiting fun _ =>
      ConstantPool.framed_decode.delimiting fun _ => delimiting_decodeBody _ _
  split
  · exact (Framed.throw _).delimiting fun _ => hrest
  · exact hrest

theorem delimits_of_parse (h : parse bytes = .ok file) : Delimits decode bytes := by
  cases hdecode : decode bytes with
  | error e =>
      rw [parse, within, hdecode] at h
      cases h
  | ok out => exact delimiting_decode bytes out.1 out.2 hdecode

theorem parse_error {input : Bytes} {e : FormatError} (h : decode input = .error e) :
    parse input = .error e := by
  rw [parse, within, h]
  rfl

theorem accepted_bytes_are_delimited (h : parse bytes = .ok file) :
    (∀ cut, cut <+: bytes → cut ≠ bytes → parse cut = .error .unexpectedEnd) ∧
      (∀ t, t ≠ [] → parse (bytes ++ t) = .error (.trailingBytes t.length)) ∧
      ∀ bytes' file', parse bytes' = .ok file' → bytes <+: bytes' → bytes' = bytes := by
  have hdelimits := delimits_of_parse h
  have hcut : ∀ cut, cut <+: bytes → cut ≠ bytes → parse cut = .error .unexpectedEnd := by
    rintro cut ⟨t, rfl⟩ hne
    refine parse_error (hdelimits.starved rfl ?_)
    rintro rfl
    exact hne (List.append_nil cut).symm
  have hmore : ∀ t, t ≠ [] → parse (bytes ++ t) = .error (.trailingBytes t.length) :=
    fun t ht => parse_error (hdelimits.trailing ht)
  refine ⟨hcut, hmore, ?_⟩
  rintro bytes' file' h' ⟨t, rfl⟩
  by_contra hne
  have ht : t ≠ [] := by
    rintro rfl
    exact hne (List.append_nil bytes)
  rw [hmore t ht] at h'
  cases h'

theorem titledRunner_is_delimited :
    let bytes := titledRunner.assemble (some ("Extra", [1, 2]))
    parse bytes = .ok titledRunner ∧
      (∀ cut, cut <+: bytes → cut ≠ bytes → parse cut = .error .unexpectedEnd) ∧
      (∀ t, t ≠ [] → parse (bytes ++ t) = .error (.trailingBytes t.length)) ∧
      ∀ bytes' file', parse bytes' = .ok file' → bytes <+: bytes' → bytes' = bytes := by
  have h : parse (titledRunner.assemble (some ("Extra", [1, 2]))) = .ok titledRunner :=
    toOption_eq_some (by decide +kernel)
  exact ⟨h, accepted_bytes_are_delimited h⟩

end ClassFile

end Linkage
