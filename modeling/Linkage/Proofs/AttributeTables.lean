import Linkage.Proofs.Framing
import Mathlib.Data.List.Induction

namespace Linkage

open Decoder

inductive AttributeKind where
  | signature
  | initial
  | body
  | innerClasses
  deriving DecidableEq, Repr

inductive Finding where
  | signature (text : String)
  | initial (value : Literal)
  | body (code : MethodBody)
  | innerClasses (entries : List InnerClass)
  deriving DecidableEq, Repr

namespace Finding

def signature? : Finding → Option String
  | signature text => some text
  | _ => none

def initial? : Finding → Option Literal
  | initial value => some value
  | _ => none

def body? : Finding → Option MethodBody
  | body code => some code
  | _ => none

def innerClassEntries : Finding → List InnerClass
  | innerClasses entries => entries
  | _ => []

end Finding

namespace AttributeKind

def all : List AttributeKind := [signature, initial, body, innerClasses]

def name : AttributeKind → String
  | signature => "Signature"
  | initial => "ConstantValue"
  | body => "Code"
  | innerClasses => "InnerClasses"

def isOf : AttributeKind → AttributeOwner → Bool
  | signature, _ => true
  | initial, owner => owner = .ofField
  | body, owner => owner = .ofMethod
  | innerClasses, owner => owner = .ofClass

def read (pool : ConstantPool) : AttributeKind → Bytes → Except FormatError Finding
  | signature, content => (within (Attributes.decodeSignature pool) content).map .signature
  | initial, content => (within (Attributes.decodeInitial pool) content).map .initial
  | body, content => (within Attributes.decodeBody content).map .body
  | innerClasses, content =>
      (within (Attributes.decodeInnerClasses pool) content).map .innerClasses

end AttributeKind

def AttributeOwner.kind? (owner : AttributeOwner) (name : String) : Option AttributeKind :=
  AttributeKind.all.find? fun kind => kind.isOf owner && kind.name = name

structure RawAttribute where
  nameIndex : UInt16
  content : Bytes
  deriving DecidableEq, Repr

namespace RawAttribute

variable {pool : ConstantPool} {owner : AttributeOwner} {attributes : List RawAttribute}

def bytes (a : RawAttribute) : Bytes :=
  Bytes.ofUInt16 a.nameIndex ++ Bytes.ofUInt32 a.content.length.toUInt32 ++ a.content

def tableBytes (attributes : List RawAttribute) : Bytes :=
  Bytes.ofUInt16 attributes.length.toUInt16 ++ attributes.flatMap bytes

structure Fits (pool : ConstantPool) (a : RawAttribute) : Prop where
  named : ∃ name, pool.getText a.nameIndex = .ok name
  length : a.content.length < 2 ^ 32

def kind? (pool : ConstantPool) (owner : AttributeOwner) (a : RawAttribute) : Option AttributeKind :=
  (pool.getText a.nameIndex).toOption.bind owner.kind?

def isRecognized (pool : ConstantPool) (owner : AttributeOwner) (a : RawAttribute) : Bool :=
  (a.kind? pool owner).isSome

def recognized (pool : ConstantPool) (owner : AttributeOwner) (attributes : List RawAttribute) :
    List (AttributeKind × Bytes) :=
  attributes.filterMap fun a => (a.kind? pool owner).map (·, a.content)

def findings (pool : ConstantPool) (owner : AttributeOwner) (attributes : List RawAttribute) :
    Except FormatError (List Finding) :=
  (recognized pool owner attributes).mapM fun (kind, content) => kind.read pool content

theorem recognized_filter :
    recognized pool owner (attributes.filter (isRecognized pool owner)) =
      recognized pool owner attributes := by
  refine List.filterMap_filter.trans (List.filterMap_congr fun a _ => ?_)
  unfold isRecognized
  cases a.kind? pool owner <;> rfl

theorem reads_bytes {name : String} (a : RawAttribute) (hlength : a.content.length < 2 ^ 32)
    (hname : pool.getText a.nameIndex = .ok name) (found : Attributes) (rest : Bytes) :
    Attributes.decodeOne pool owner found (a.bytes ++ rest) =
      (Attributes.absorb pool owner found name a.content).map (·, rest) := by
  have hcount : a.content.length.toUInt32.toNat = a.content.length :=
    UInt32.toNat_ofNat_of_lt' hlength
  simp only [bytes, List.append_assoc, Attributes.decodeOne]
  rw [bind_apply_ok (reads_word _ _), bind_apply_ok (reads_doubleWord _ _), hcount,
    bind_apply_ok (reads_take _ _), bind_lifted_ok hname]
  cases Attributes.absorb pool owner found name a.content <;> rfl

end RawAttribute

namespace Attributes

variable {pool : ConstantPool} {owner : AttributeOwner} {attributes : List RawAttribute}
  {found : Attributes}

def extend (found : Attributes) : Finding → Attributes
  | .signature text => { found with signature := some text }
  | .initial value => { found with initial := some value }
  | .body code => { found with body := some code }
  | .innerClasses entries => { found with innerClasses := found.innerClasses ++ entries }

def ofFindings (found : List Finding) : Attributes where
  signature := (found.filterMap Finding.signature?).getLast?
  initial := (found.filterMap Finding.initial?).getLast?
  body := (found.filterMap Finding.body?).getLast?
  innerClasses := found.flatMap Finding.innerClassEntries

theorem ofFindings_concat (found : List Finding) (f : Finding) :
    ofFindings (found ++ [f]) = (ofFindings found).extend f := by
  cases f <;> simp [ofFindings, extend, Finding.signature?, Finding.initial?, Finding.body?,
    Finding.innerClassEntries]

theorem foldl_extend (found : List Finding) : found.foldl extend {} = ofFindings found := by
  induction found using List.reverseRecOn with
  | nil => rfl
  | append_singleton found f ih => rw [List.foldl_concat, ih, ofFindings_concat]

theorem absorb_of_kind {kind : AttributeKind} {content : Bytes} {name : String}
    (h : owner.kind? name = some kind) :
    absorb pool owner found name content = (kind.read pool content).map found.extend := by
  have hkind := List.find?_some h
  rw [Bool.and_eq_true, decide_eq_true_eq] at hkind
  obtain ⟨howner, rfl⟩ := hkind
  cases kind with
  | signature =>
      change (within (decodeSignature pool) content >>= fun text => _) = _
      rw [AttributeKind.read]
      cases within (decodeSignature pool) content <;> rfl
  | initial =>
      obtain rfl : owner = .ofField := of_decide_eq_true howner
      change (within (decodeInitial pool) content >>= fun value => _) = _
      rw [AttributeKind.read]
      cases within (decodeInitial pool) content <;> rfl
  | body =>
      obtain rfl : owner = .ofMethod := of_decide_eq_true howner
      change (within decodeBody content >>= fun code => _) = _
      rw [AttributeKind.read]
      cases within decodeBody content <;> rfl
  | innerClasses =>
      obtain rfl : owner = .ofClass := of_decide_eq_true howner
      change (within (decodeInnerClasses pool) content >>= fun entries => _) = _
      rw [AttributeKind.read]
      cases within (decodeInnerClasses pool) content <;> rfl

theorem absorb_of_no_kind {content : Bytes} {name : String} (h : owner.kind? name = none) :
    absorb pool owner found name content = .ok found := by
  have hnone : ∀ kind : AttributeKind, kind.isOf owner = true → kind.name ≠ name := by
    intro kind howner hname
    refine List.find?_eq_none.mp h kind ?_ (by simp [howner, hname])
    cases kind <;> simp [AttributeKind.all]
  unfold absorb
  split
  · exact absurd rfl (hnone .signature rfl)
  · exact absurd rfl (hnone .initial rfl)
  · exact absurd rfl (hnone .body rfl)
  · exact absurd rfl (hnone .innerClasses rfl)
  · rfl

theorem fold_decodeOne (h : ∀ a ∈ attributes, a.Fits pool) (found : Attributes) (rest : Bytes) :
    fold (decodeOne pool owner) attributes.length found
        (attributes.flatMap RawAttribute.bytes ++ rest) =
      (RawAttribute.findings pool owner attributes).map fun more =>
        (more.foldl extend found, rest) := by
  induction attributes generalizing found with
  | nil => rfl
  | cons a later ih =>
      obtain ⟨ha, hlater⟩ := List.forall_mem_cons.mp h
      obtain ⟨name, hname⟩ := ha.named
      rw [List.length_cons, fold_succ, List.flatMap_cons, List.append_assoc, bind_apply,
        a.reads_bytes ha.length hname]
      cases hkind : owner.kind? name with
      | none =>
          have hskip : RawAttribute.findings pool owner (a :: later) =
              RawAttribute.findings pool owner later := by
            simp [RawAttribute.findings, RawAttribute.recognized, RawAttribute.kind?, hname, hkind,
              Except.toOption]
          rw [absorb_of_no_kind hkind, hskip, ← ih hlater]
          rfl
      | some kind =>
          have hread : RawAttribute.findings pool owner (a :: later) = (do
              let first ← kind.read pool a.content
              let more ← RawAttribute.findings pool owner later
              return first :: more) := by
            simp [RawAttribute.findings, RawAttribute.recognized, RawAttribute.kind?, hname, hkind,
              Except.toOption]
          rw [absorb_of_kind hkind, hread]
          cases kind.read pool a.content with
          | error e => rfl
          | ok first =>
              refine (ih hlater (found.extend first)).trans ?_
              cases RawAttribute.findings pool owner later <;> rfl

theorem decode_tableBytes (hcount : attributes.length ≤ 65535)
    (h : ∀ a ∈ attributes, a.Fits pool) (rest : Bytes) :
    decode pool owner (RawAttribute.tableBytes attributes ++ rest) =
      (RawAttribute.findings pool owner attributes).map fun found => (ofFindings found, rest) := by
  rw [RawAttribute.tableBytes, List.append_assoc, decode, bind_apply_ok (reads_word _ _),
    toNat_count hcount, fold_decodeOne h]
  simp only [foldl_extend]

theorem tables_count_what_is_recognized (hcount : attributes.length ≤ 65535)
    (h : ∀ a ∈ attributes, a.Fits pool) (rest : Bytes) :
    decode pool owner (RawAttribute.tableBytes attributes ++ rest) =
        (RawAttribute.findings pool owner attributes).map (fun found => (ofFindings found, rest)) ∧
      decode pool owner (RawAttribute.tableBytes attributes ++ rest) =
        decode pool owner (RawAttribute.tableBytes
          (attributes.filter (RawAttribute.isRecognized pool owner)) ++ rest) := by
  have hall : decode pool owner (RawAttribute.tableBytes attributes ++ rest) = _ :=
    decode_tableBytes hcount h rest
  have hrecognized : decode pool owner (RawAttribute.tableBytes
      (attributes.filter (RawAttribute.isRecognized pool owner)) ++ rest) = _ :=
    decode_tableBytes ((List.length_filter_le _ _).trans hcount)
      (fun a ha => h a (List.mem_filter.mp ha).1) rest
  refine ⟨hall, ?_⟩
  rw [hall, hrecognized, RawAttribute.findings, RawAttribute.findings,
    RawAttribute.recognized_filter]

def markedPool : ConstantPool :=
  ConstantPool.empty.pushAll [.utf8 "Signature", .utf8 "Ljava/lang/Object;", .utf8 "TT;",
    .utf8 "InnerClasses", .utf8 "a/B", .classRef 5, .utf8 "Marker", .utf8 "Code",
    .utf8 "ConstantValue", .integer 7, .integer 9]

-- What an owner has no use for is not looked at, so it need not make sense there.
def markedTable : AttributeOwner → List RawAttribute
  | .ofClass => [⟨7, [1, 2, 3]⟩, ⟨1, [0, 2]⟩, ⟨4, [0, 1, 0, 6, 0, 0, 0, 0, 0, 1]⟩, ⟨8, [0]⟩,
      ⟨1, [0, 3]⟩, ⟨9, []⟩, ⟨4, [0, 1, 0, 6, 0, 6, 0, 5, 0, 9]⟩]
  | .ofField => [⟨9, [0, 10]⟩, ⟨4, [0]⟩, ⟨1, [0, 2]⟩, ⟨8, [0]⟩, ⟨9, [0, 11]⟩, ⟨7, []⟩]
  | .ofMethod => [⟨8, [0, 1, 0, 2, 0, 0, 0, 1, 0xB1, 0, 0, 0, 0]⟩, ⟨9, [0]⟩, ⟨1, [0, 3]⟩, ⟨4, [0]⟩,
      ⟨8, [0, 3, 0, 4, 0, 0, 0, 2, 0x03, 0xAC, 0, 0, 0, 0]⟩]

def markedFindings : AttributeOwner → List Finding
  | .ofClass => [.signature "Ljava/lang/Object;", .innerClasses [⟨"a/B", none, none, ⟨1⟩⟩],
      .signature "TT;", .innerClasses [⟨"a/B", some "a/B", some "a/B", ⟨9⟩⟩]]
  | .ofField => [.initial (.int 7), .signature "Ljava/lang/Object;", .initial (.int 9)]
  | .ofMethod => [.body ⟨1, 2, [0xB1]⟩, .signature "TT;", .body ⟨3, 4, [0x03, 0xAC]⟩]

theorem markedTable_fits : ∀ a ∈ markedTable owner, a.Fits markedPool := by
  have hchecked : ∀ a ∈ markedTable owner, (markedPool.getText a.nameIndex).toOption.isSome = true ∧
      a.content.length < 2 ^ 32 := by
    cases owner <;> decide +kernel
  intro a ha
  obtain ⟨hnamed, hlength⟩ := hchecked a ha
  obtain ⟨name, hname⟩ := Option.isSome_iff_exists.mp hnamed
  exact ⟨⟨name, Outcome.toOption_eq_some hname⟩, hlength⟩

theorem markedTable_findings :
    RawAttribute.findings markedPool owner (markedTable owner) = .ok (markedFindings owner) :=
  Outcome.toOption_eq_some (by cases owner <;> decide +kernel)

theorem markedTable_content :
    (markedTable .ofClass).length ≤ 65535 ∧ (∀ a ∈ markedTable .ofClass, a.Fits markedPool) ∧
    decode markedPool .ofClass (RawAttribute.tableBytes (markedTable .ofClass) ++ [0xFF]) = .ok
      ({ signature := some "TT;",
         innerClasses := [⟨"a/B", none, none, ⟨1⟩⟩, ⟨"a/B", some "a/B", some "a/B", ⟨9⟩⟩] },
       [0xFF]) ∧
    decode markedPool .ofClass (RawAttribute.tableBytes (markedTable .ofClass) ++ [0xFF]) =
      decode markedPool .ofClass (RawAttribute.tableBytes
        ((markedTable .ofClass).filter (RawAttribute.isRecognized markedPool .ofClass)) ++ [0xFF]) ∧
    decode markedPool .ofField (RawAttribute.tableBytes (markedTable .ofField) ++ [0xFF]) =
      .ok ({ signature := some "Ljava/lang/Object;", initial := some (.int 9) }, [0xFF]) ∧
    decode markedPool .ofMethod (RawAttribute.tableBytes (markedTable .ofMethod) ++ [0xFF]) =
      .ok ({ signature := some "TT;", body := some ⟨3, 4, [0x03, 0xAC]⟩ }, [0xFF]) := by
  have hcount : ∀ owner, (markedTable owner).length ≤ 65535 := by
    intro owner
    cases owner <;> decide
  have hread : ∀ owner,
      decode markedPool owner (RawAttribute.tableBytes (markedTable owner) ++ [0xFF]) =
        .ok (ofFindings (markedFindings owner), [0xFF]) := by
    intro owner
    rw [(tables_count_what_is_recognized (hcount owner) markedTable_fits [0xFF]).1,
      markedTable_findings]
    rfl
  refine ⟨hcount .ofClass, markedTable_fits, hread .ofClass, ?_, hread .ofField, hread .ofMethod⟩
  exact (tables_count_what_is_recognized (hcount .ofClass) markedTable_fits [0xFF]).2

end Attributes

end Linkage
