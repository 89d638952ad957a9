import Linkage.Proofs.Assembling

namespace Linkage

open Decoder

namespace Attributes

variable {q : ConstantPool} {found : Attributes} {index : UInt16}

theorem absorb_signature {owner : AttributeOwner} {s : String} (h : q.get? index = some (.utf8 s)) :
    absorb q owner found "Signature" (Bytes.ofUInt16 index) =
      .ok { found with signature := some s } := by
  have hread : within (decodeSignature q) (Bytes.ofUInt16 index) = .ok s :=
    within_of_run (run_bind (reads_word index).exactly
      (run_lift (ConstantPool.getText_of_get? h) rfl))
  rw [absorb, hread]
  rfl

theorem absorb_initial {c : Constant} {value : Literal} (h : q.get index = .ok c)
    (hvalue : literalOf q c = .ok value) :
    absorb q .ofField found "ConstantValue" (Bytes.ofUInt16 index) =
      .ok { found with initial := some value } := by
  have hread : within (decodeInitial q) (Bytes.ofUInt16 index) = .ok value :=
    within_of_run (run_bind (reads_word index).exactly (run_lift h (run_lift hvalue rfl)))
  rw [absorb, hread]
  rfl

theorem within_decodeBody {code : MethodBody} (h : code.instructions.length < 2 ^ 32) :
    within decodeBody (Bytes.ofUInt16 code.maxStack ++ Bytes.ofUInt16 code.maxLocals
      ++ Bytes.ofUInt32 code.instructions.length.toUInt32 ++ code.instructions
      ++ Bytes.ofUInt16 0 ++ Bytes.ofUInt16 0) = .ok code := by
  have hcount : code.instructions.length.toUInt32.toNat = code.instructions.length :=
    UInt32.toNat_ofNat_of_lt' h
  simp only [List.append_assoc]
  refine within_of_run (run_bind (reads_word _ _) (run_bind (reads_word _ _)
    (run_bind (reads_doubleWord _ _) ?_)))
  rw [hcount]
  exact run_bind (reads_take _ _) (run_bind (reads_word 0 _) (run_bind (reads_take [] _)
    (run_bind (reads_word 0).exactly rfl)))

theorem absorb_innerClasses {entries : List InnerClass} {bytes : Bytes}
    (h : Reads (table (decodeInnerClass q)) bytes entries) :
    absorb q .ofClass found "InnerClasses" bytes =
      .ok { found with innerClasses := found.innerClasses ++ entries } := by
  have hread : within (decodeInnerClasses q) bytes = .ok entries :=
    within_of_run (run_bind h.exactly rfl)
  rw [absorb, hread]
  rfl

theorem absorb_foreign {name : String} {content : Bytes} (hsignature : name ≠ "Signature")
    (hinner : name ≠ "InnerClasses") : absorb q .ofClass found name content = .ok found := by
  unfold absorb
  split <;> first | contradiction | rfl

end Attributes

namespace Assembler

open Attributes

variable {owner : AttributeOwner} {name : String} {content : Assembler Bytes}
  {effect : Attributes → Attributes}

theorem yields_namedAttribute
    (h : Yields content fun q bytes => bytes.length < 2 ^ 32 ∧
      ∀ found, absorb q owner found name bytes = .ok (effect found)) :
    Yields (namedAttribute name content) fun q part =>
      ∀ found, Reads (decodeOne q owner found) part (effect found) := by
  refine h.bind fun bytes => (yields_text name).end fun q index hname ⟨hlength, habsorb⟩ found => ?_
  have hcount : bytes.length.toUInt32.toNat = bytes.length := UInt32.toNat_ofNat_of_lt' hlength
  rw [List.append_assoc]
  refine (reads_word index).bind ((reads_doubleWord _).bind ?_)
  rw [hcount]
  refine (reads_take bytes).end (.lift (ConstantPool.getText_of_get? hname) ?_)
  intro rest
  rw [habsorb]
  rfl

abbrev Attaches (owner : AttributeOwner) (progs : List (Assembler Bytes))
    (effect : Attributes → Attributes) : Prop :=
  Fills progs (fun q => decodeOne q owner) effect

theorem attaches_signature (s : Option String) : Attaches owner (signature s) fun found =>
    { found with signature := s <|> found.signature } := by
  cases s with
  | none => exact .nil
  | some s =>
      refine .one (yields_namedAttribute ((yields_text s).end fun q index htext => ⟨?_, ?_⟩))
      · simp
      · exact fun found => absorb_signature htext

theorem attaches_initial (value : Option Literal) :
    Attaches .ofField (value.toList.map fun value => namedAttribute "ConstantValue"
      (word (literal value))) fun found => { found with initial := value <|> found.initial } := by
  cases value with
  | none => exact .nil
  | some value =>
      refine .one (yields_namedAttribute ((yields_literal value).end fun q index ⟨c, hc, hvalue⟩ =>
        ⟨?_, ?_⟩))
      · simp
      · exact fun found => absorb_initial hc hvalue

theorem attaches_body {code : Option MethodBody}
    (h : ∀ code' ∈ code, code'.instructions.length + 12 < 2 ^ 32) :
    Attaches .ofMethod (code.toList.map fun code => namedAttribute "Code" (body code)) fun found =>
      { found with body := code <|> found.body } := by
  cases code with
  | none => exact .nil
  | some code =>
      have hlength := h code rfl
      refine .one (yields_namedAttribute (.pure fun q => ⟨?_, fun found => ?_⟩))
      · simp only [List.length_append, Bytes.length_ofUInt16, Bytes.length_ofUInt32]
        omega
      · rw [absorb, within_decodeBody (by omega)]
        rfl

theorem yields_innerClass (entry : InnerClass) : Yields (innerClass entry) fun q part =>
    part.length = 8 ∧ Reads (decodeInnerClass q) part entry := by
  refine (yields_classRef _).bind fun inner => (yields_optionalClassRef _).bind fun outer =>
    (yields_optionalText _).end fun q simpleName hsimple houter ⟨hinner, _⟩ => ⟨rfl, ?_⟩
  simp only [List.append_assoc]
  exact (reads_word _).bind (.lift hinner ((reads_word _).bind (.lift houter
    ((reads_word _).bind (.lift hsimple ((reads_word _).end (.pure _)))))))

theorem yields_innerClasses {entries : List InnerClass} (h : entries.length ≤ 65535) :
    Yields (table (entries.map innerClass)) fun q bytes => bytes.length < 2 ^ 32 ∧
      Reads (Decoder.table (decodeInnerClass q)) bytes entries := by
  have hlength : Yields (table (entries.map innerClass)) fun _ bytes => bytes.length < 2 ^ 32 := by
    refine (yields_widths (n := 8) fun prog hprog => ?_).end fun q parts hparts => ?_
    · obtain ⟨entry, -, rfl⟩ := List.mem_map.mp hprog
      exact (yields_innerClass entry).weaken fun _ _ hentry => hentry.1
    · rw [List.length_map] at hparts
      rw [List.length_append, hparts, Bytes.length_ofUInt16]
      omega
  refine hlength.and (yields_items (fun entry _ => ?_) h)
  exact (yields_innerClass entry).weaken fun _ _ hentry => hentry.2

theorem attaches_innerClasses {entries : List InnerClass} (h : entries.length ≤ 65535) :
    Attaches .ofClass (innerClasses entries) fun found =>
      { found with innerClasses := found.innerClasses ++ entries } := by
  cases entries with
  | nil =>
      have hsame : (fun found : Attributes =>
          { found with innerClasses := found.innerClasses ++ [] }) = id := by
        funext found
        rw [List.append_nil]
        rfl
      rw [hsame]
      exact .nil
  | cons entry rest =>
      exact .one (yields_namedAttribute ((yields_innerClasses h).weaken fun q bytes hbytes =>
        ⟨hbytes.1, fun found => absorb_innerClasses hbytes.2⟩))

theorem attaches_foreign {extra : Option (String × Bytes)}
    (hlength : ∀ attr ∈ extra, attr.2.length < 2 ^ 32)
    (hname : ∀ attr ∈ extra, attr.1 ≠ "Signature" ∧ attr.1 ≠ "InnerClasses") :
    Attaches .ofClass (foreign extra) id := by
  cases extra with
  | none => exact .nil
  | some attr =>
      obtain ⟨hsignature, hinner⟩ := hname attr rfl
      exact .one (yields_namedAttribute (.pure fun q => ⟨hlength attr rfl, fun found =>
        absorb_foreign hsignature hinner⟩))

theorem yields_member {α : Type} {access : Access} {descriptor : String} {a : α}
    {attributes : List (Assembler Bytes)} (h : Attaches owner attributes effect)
    (hcount : attributes.length ≤ 65535) (f : UInt16 → String → String → Attributes → α)
    (ha : f access.bits name descriptor (effect {}) = a) :
    Yields (member access name descriptor attributes) fun q part =>
      Reads (do
        let access ← Decoder.word
        let name ← q.getText (← Decoder.word)
        let descriptor ← q.getText (← Decoder.word)
        let attributes ← decode q owner
        return f access name descriptor attributes) part a := by
  refine (yields_text name).bind fun _ => (yields_text descriptor).bind fun _ =>
    (h.table hcount).end fun q bytes hattributes hdescriptor hname => ?_
  simp only [List.append_assoc]
  exact (reads_word _).bind ((reads_word _).bind (.lift (ConstantPool.getText_of_get? hname)
    ((reads_word _).bind (.lift (ConstantPool.getText_of_get? hdescriptor)
      ((hattributes {}).end (ha ▸ .pure _))))))

theorem length_memberAttributes_le {ι : Type} (s : Option String) (o : Option ι)
    (prog : ι → Assembler Bytes) : (signature s ++ o.toList.map prog).length ≤ 65535 := by
  cases s <;> cases o <;> simp [signature]

theorem yields_field (f : FieldDecl) : Yields (field f) fun q part =>
    Reads (ClassFile.decodeField q) part f := by
  have hvalue : FieldDecl.mk f.access f.name f.descriptor (f.signature <|> none)
      (f.initial <|> none) = f := by
    simp
  exact yields_member ((attaches_signature f.signature).append (attaches_initial f.initial))
    (length_memberAttributes_le _ _ _) (fun access name descriptor found =>
      FieldDecl.mk ⟨access⟩ name descriptor found.signature found.initial) hvalue

theorem yields_method {m : MethodDecl}
    (h : ∀ code ∈ m.body, code.instructions.length + 12 < 2 ^ 32) : Yields (method m) fun q part =>
      Reads (ClassFile.decodeMethod q) part m := by
  have hvalue : MethodDecl.mk m.access m.name m.descriptor (m.signature <|> none)
      (m.body <|> none) = m := by
    simp
  exact yields_member ((attaches_signature m.signature).append (attaches_body h))
    (length_memberAttributes_le _ _ _) (fun access name descriptor found =>
      MethodDecl.mk ⟨access⟩ name descriptor found.signature found.body) hvalue

end Assembler

namespace ClassFile

def pool (file : ClassFile) (extra : Option (String × Bytes)) : ConstantPool :=
  ((Assembler.classBody file extra).run ConstantPool.empty).2

structure Fits (file : ClassFile) (extra : Option (String × Bytes)) : Prop where
  slots : (file.pool extra).slots.size ≤ 65534
  texts : ∀ c ∈ (file.pool extra).constants, c.textLength ≤ 65535
  interfaces : file.interfaces.length ≤ 65535
  fields : file.fields.length ≤ 65535
  methods : file.methods.length ≤ 65535
  innerClasses : file.innerClasses.length ≤ 65535
  bodies : ∀ m ∈ file.methods, ∀ code ∈ m.body, code.instructions.length + 12 < 2 ^ 32
  extra : ∀ attr ∈ extra, attr.2.length < 2 ^ 32

end ClassFile

variable {file : ClassFile} {extra : Option (String × Bytes)}

namespace Assembler

open Attributes

theorem yields_interfaces (h : file.interfaces.length ≤ 65535) :
    Yields (table (file.interfaces.map fun name => word (classRef name))) fun q bytes =>
      Reads (Decoder.table do q.getClassName (← Decoder.word)) bytes file.interfaces := by
  refine yields_items (fun name _ => (yields_classRef name).end fun q index hindex => ?_) h
  exact (reads_word index).end (.lifted hindex.1)

variable (h : file.Fits extra)
  (hname : ∀ attr ∈ extra, attr.1 ≠ "Signature" ∧ attr.1 ≠ "InnerClasses")
include h hname

theorem attaches_class :
    Attaches .ofClass (signature file.signature ++ innerClasses file.innerClasses ++ foreign extra)
      fun found => { found with
        signature := file.signature <|> found.signature
        innerClasses := found.innerClasses ++ file.innerClasses } :=
  ((attaches_signature _).append (attaches_innerClasses h.innerClasses)).append
    (attaches_foreign h.extra hname)

theorem yields_classBody : Yields (classBody file extra) fun q bytes =>
    ClassFile.decodeBody file.version q bytes = .ok (file, []) := by
  have hcount : (signature file.signature ++ innerClasses file.innerClasses
      ++ foreign extra).length ≤ 65535 := by
    unfold innerClasses
    cases file.signature <;> cases extra <;> split <;> simp [signature, foreign]
  refine (yields_classRef _).bind fun _ => (yields_optionalClassRef _).bind fun _ =>
    (yields_interfaces h.interfaces).bind fun _ =>
    (yields_items (fun f _ => yields_field f) h.fields).bind fun _ =>
    (yields_items (fun m hm => yields_method (h.bodies m hm)) h.methods).bind fun _ =>
    ((attaches_class h hname).table hcount).end
      fun q bytes hattributes hmethods hfields hinterfaces hsuper hthis => ?_
  have hsignature : (file.signature <|> none) = file.signature := by simp
  simp only [List.append_assoc]
  refine run_bind (reads_word _ _) (run_bind (reads_word _ _) (run_lift hthis.1
    (run_bind (reads_word _ _) (run_lift hsuper (run_bind (hinterfaces _) (run_bind (hfields _)
      (run_bind (hmethods _) (run_bind (hattributes {}).exactly ?_))))))))
  rw [hsignature]
  rfl

end Assembler

namespace ClassFile

theorem parse_assemble (h : file.Fits extra)
    (hname : ∀ attr ∈ extra, attr.1 ≠ "Signature" ∧ attr.1 ≠ "InnerClasses") :
    parse (file.assemble extra) = .ok file := by
  obtain ⟨hgrows, hbody⟩ := Assembler.yields_classBody h hname ConstantPool.empty
  have hpool := ConstantPool.reads_encode hgrows h.slots h.texts
  have hbytes : file.assemble extra = Bytes.ofUInt32 magic ++ (Bytes.ofUInt16 file.version.minor
      ++ (Bytes.ofUInt16 file.version.major ++ ((file.pool extra).encode
      ++ ((Assembler.classBody file extra).run ConstantPool.empty).1))) := by
    simp only [assemble, List.append_assoc]
    rfl
  rw [hbytes]
  -- The pool that is written is the last one, in which every index still means what it meant when
  -- the body was written.
  exact within_of_run (run_bind (reads_doubleWord magic _) (run_bind (reads_word _ _)
    (run_bind (reads_word _ _) (run_bind (hpool _) (hbody _ (.refl _) h.slots)))))

def titledRunner : ClassFile where
  version := ⟨52, 0⟩
  access := ⟨0x0021⟩
  name := "a/\x00🦊"
  superName := some "java/lang/Object"
  interfaces := ["a/Runner"]
  fields := [
    ⟨⟨0x0018⟩, "limit", "J", none, some (.long (-1))⟩,
    ⟨⟨0x0018⟩, "title", "Ljava/lang/String;", none, some (.string "a/Runner")⟩]
  methods := [⟨⟨0x0001⟩, "run", "()V", none, some ⟨0, 1, [0xB1]⟩⟩]
  signature := some "Ljava/lang/Object;"
  innerClasses := [⟨"a/B$C", some "a/B", none, ⟨0x0008⟩⟩]

theorem titledRunner_fits : titledRunner.Fits (some ("Extra", [1, 2])) where
  slots := by decide +kernel
  texts := by decide +kernel
  interfaces := by decide
  fields := by decide
  methods := by decide
  innerClasses := by decide
  bodies := by decide +kernel
  extra := by decide +kernel

theorem parse_titledRunner : titledRunner.Fits (some ("Extra", [1, 2])) ∧
    parse (titledRunner.assemble (some ("Extra", [1, 2]))) = .ok titledRunner :=
  ⟨titledRunner_fits, parse_assemble titledRunner_fits (by decide)⟩

end ClassFile

end Linkage
