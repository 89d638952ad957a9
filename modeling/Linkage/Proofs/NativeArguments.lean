import Linkage.Proofs.DescriptorGrammar
import Linkage.Proofs.NativeNames

namespace Linkage

def MethodType.parameterText (t : MethodType) : String :=
  String.join (t.params.map FieldType.descriptor)

namespace Mangle

variable {text : String} {t : MethodType}

theorem toList_parameterText (t : MethodType) :
    t.parameterText.toList = t.params.flatMap FieldType.descriptorChars := by
  rw [MethodType.parameterText, String.toList_join, List.flatMap_map]
  simp only [FieldType.descriptor, String.toList_ofList]

theorem toList_descriptor (h : MethodType.ofDescriptor text = .ok t) :
    text.toList = '(' :: (t.parameterText.toList ++ ')' :: t.result.descriptorChars) := by
  obtain ⟨rfl, -⟩ := MethodType.ofDescriptor_eq_ok_iff.mp h
  rw [MethodType.descriptor, String.toList_ofList, MethodType.descriptorChars,
    toList_parameterText]
  rfl

theorem argumentText_of_last {before after : List Char} (hafter : ')' ∉ after)
    (h : text.toList = '(' :: (before ++ ')' :: after)) :
    argumentText text = String.ofList before := by
  simp only [argumentText, h, ClassName.splitAtLast_join hafter]

theorem nativeIdentifier_append (a b : String) :
    nativeIdentifier (a ++ b) = nativeIdentifier a ++ nativeIdentifier b := by
  rw [nativeIdentifier, String.toList_append, List.flatMap_append, String.ofList_append]
  rfl

section

variable (h : MethodType.ofDescriptor text = .ok t) (cls method : String)
include h

theorem nativeLong_of_free (hfree : ')' ∉ t.result.descriptorChars) :
    nativeLong cls method text =
      nativeShort cls method ++ "__" ++ nativeIdentifier t.parameterText := by
  rw [nativeLong, argumentText_of_last hfree (toList_descriptor h), String.ofList_toList]

theorem nativeLong_of_last {before after : List Char}
    (hresult : t.result.descriptorChars = before ++ ')' :: after) (hafter : ')' ∉ after) :
    nativeLong cls method text = nativeShort cls method ++ "__" ++
      nativeIdentifier (t.parameterText ++ ")" ++ String.ofList before) := by
  have hlast : text.toList =
      '(' :: (t.parameterText ++ ")" ++ String.ofList before).toList ++ ')' :: after := by
    rw [toList_descriptor h, hresult]
    simp
  rw [nativeLong, argumentText_of_last hafter hlast, String.ofList_toList]

end

theorem native_names_spell_parameters (h : MethodType.ofDescriptor text = .ok t)
    (cls method : String) :
    (nativeLong cls method text =
        nativeShort cls method ++ "__" ++ nativeIdentifier t.parameterText ↔
      ')' ∉ t.result.descriptorChars) ∧
    ∀ before after, t.result.descriptorChars = before ++ ')' :: after → ')' ∉ after →
      nativeLong cls method text = nativeShort cls method ++ "__" ++
        nativeIdentifier (t.parameterText ++ ")" ++ String.ofList before) := by
  refine ⟨⟨fun hspelt hmem => ?_, nativeLong_of_free h cls method⟩,
    fun before after => nativeLong_of_last h cls method⟩
  obtain ⟨before, after, hresult, hafter⟩ := ClassName.exists_last_of_mem hmem
  -- The parenthesis is spelled behind the parameters, so that the name gets longer.
  rw [nativeLong_of_last h cls method hresult hafter, nativeIdentifier_append,
    nativeIdentifier_append] at hspelt
  have hparenthesis : (nativeIdentifier ")").length = 6 := by decide +kernel
  have hlength := congrArg String.length hspelt
  simp only [String.length_append, hparenthesis] at hlength
  omega

theorem parenthesized_parameter_is_spelled :
    (MethodType.ofDescriptor "(L);J)V" = .ok ⟨[.object ")", .base .long], .void⟩ ∧
      nativeLong "p/Q" "f" "(L);J)V" = nativeShort "p/Q" "f" ++ "__" ++ nativeIdentifier "L);J") ∧
    MethodType.ofDescriptor "(L);J)La)b;" =
      .ok ⟨[.object ")", .base .long], .value (.object "a)b")⟩ ∧
    nativeLong "p/Q" "f" "(L);J)La)b;" =
      nativeShort "p/Q" "f" ++ "__" ++ nativeIdentifier "L);J)La" := by
  have hvoid : MethodType.ofDescriptor "(L);J)V" = .ok ⟨[.object ")", .base .long], .void⟩ := by
    decide +kernel
  have hobject : MethodType.ofDescriptor "(L);J)La)b;" =
      .ok ⟨[.object ")", .base .long], .value (.object "a)b")⟩ := by decide +kernel
  constructor
  · exact ⟨hvoid, (native_names_spell_parameters hvoid "p/Q" "f").1.mpr (by decide)⟩
  · exact ⟨hobject, (native_names_spell_parameters hobject "p/Q" "f").2
      "La".toList "b;".toList (by decide) (by decide)⟩

theorem parenthesized_result_is_spelled :
    MethodType.ofDescriptor "()L);" = .ok ⟨[], .value (.object ")")⟩ ∧
    MethodType.ofDescriptor "()V" = .ok ⟨[], .void⟩ ∧
    nativeLong "p/Q" "f" "()L);" = "Java_p_Q_f___00029L" ∧
    nativeLong "p/Q" "f" "()V" = "Java_p_Q_f__" ∧
    ¬∀ cls method text t, MethodType.ofDescriptor text = .ok t →
      nativeLong cls method text =
        nativeShort cls method ++ "__" ++ nativeIdentifier t.parameterText := by
  have htype : MethodType.ofDescriptor "()L);" = .ok ⟨[], .value (.object ")")⟩ := by
    decide +kernel
  refine ⟨htype, by decide +kernel, by decide +kernel, by decide +kernel, fun hspelt => ?_⟩
  exact absurd (hspelt "p/Q" "f" _ _ htype) (by decide +kernel)

end Mangle

end Linkage
