import Linkage.ClassFile.Descriptor
import Mathlib.Data.List.TakeWhile

namespace Linkage

theorem split_at_semicolon {name : List Char} (hname : ';' ∉ name) (rest : List Char) :
    (name ++ ';' :: rest).takeWhile (· != ';') = name ∧
      (name ++ ';' :: rest).dropWhile (· != ';') = ';' :: rest := by
  have hpast : ∀ c ∈ name, (c != ';') = true := by
    intro c hc
    rw [bne_iff_ne]
    rintro rfl
    exact hname hc
  constructor
  · rw [List.takeWhile_append_of_pos hpast, List.takeWhile_cons_of_neg (by simp), List.append_nil]
  · rw [List.dropWhile_append_of_pos hpast, List.dropWhile_cons_of_neg (by simp)]

theorem head_dropWhile_semicolon {s rest : List Char} {c : Char}
    (h : s.dropWhile (· != ';') = c :: rest) : c = ';' := by
  have hc := List.head?_dropWhile_not (· != ';') s
  rw [h, List.head?_cons] at hc
  simpa using hc

theorem joined_at_semicolon {s rest : List Char} {c : Char}
    (h : s.dropWhile (· != ';') = c :: rest) :
    s = s.takeWhile (· != ';') ++ ';' :: rest ∧ ';' ∉ s.takeWhile (· != ';') := by
  constructor
  · rw [head_dropWhile_semicolon h] at h
    rw [← h, List.takeWhile_append_dropWhile]
  · intro hmem
    simpa using List.mem_takeWhile_imp hmem

theorem BaseType.eq_tag_of_ofTag? {c : Char} {b : BaseType} (h : ofTag? c = some b) :
    c = b.tag := by
  unfold ofTag? at h
  split at h <;> cases h <;> rfl

theorem refused_iff {α : Type} {outcome : Except FormatError α} {fault : FormatError}
    {Accepted : α → Prop} (hok : ∀ a, outcome = .ok a ↔ Accepted a)
    (herror : ∀ e, outcome = .error e → e = fault) {e : FormatError} :
    outcome = .error e ↔ e = fault ∧ ¬∃ a, Accepted a := by
  constructor
  · intro h
    constructor
    · exact herror e h
    · rintro ⟨a, ha⟩
      rw [(hok a).mpr ha] at h
      cases h
  · rintro ⟨rfl, hnone⟩
    cases h : outcome with
    | ok a => exact (hnone ⟨a, (hok a).mp h⟩).elim
    | error e' => rw [herror e' h]

namespace FieldType

def WellNamed : FieldType → Prop
  | base _ => True
  | object name => name ≠ "" ∧ ';' ∉ name.toList
  | array component => component.WellNamed

theorem printed_of_read? {s rest : List Char} {t : FieldType} (h : read? s = some (t, rest)) :
    s = t.descriptorChars ++ rest ∧ t.WellNamed := by
  fun_induction read? s generalizing t rest with
  | case1 => cases h
  | case2 s c name d tail htail hname =>
      cases h
      obtain ⟨hjoined, hfree⟩ := joined_at_semicolon htail
      rw [hname] at hjoined hfree
      rw [hjoined]
      constructor
      · simp [descriptorChars]
      · exact ⟨by simp, by rwa [String.toList_ofList]⟩
  | case3 => cases h
  | case4 s component tail hread ih =>
      cases h
      obtain ⟨rfl, hnamed⟩ := ih hread
      exact ⟨rfl, hnamed⟩
  | case5 => cases h
  | case6 c s _ _ type htag =>
      cases h
      rw [BaseType.eq_tag_of_ofTag? htag]
      exact ⟨rfl, trivial⟩
  | case7 => cases h

theorem read?_base (type : BaseType) (rest : List Char) :
    read? (type.tag :: rest) = some (base type, rest) := by
  cases type <;> rfl

theorem read?_object {name : List Char} (hne : name ≠ []) (hname : ';' ∉ name)
    (rest : List Char) :
    read? ('L' :: (name ++ ';' :: rest)) = some (object (String.ofList name), rest) := by
  obtain ⟨htake, hdrop⟩ := split_at_semicolon hname rest
  obtain ⟨c, name, rfl⟩ := List.exists_cons_of_ne_nil hne
  simp only [read?, htake, hdrop]

theorem read?_printed {t : FieldType} (ht : t.WellNamed) (rest : List Char) :
    read? (t.descriptorChars ++ rest) = some (t, rest) := by
  induction t with
  | base type => exact read?_base type rest
  | object name =>
      obtain ⟨hne, hfree⟩ := ht
      have hchars : name.toList ≠ [] := by
        rwa [Ne, String.toList_eq_nil_iff]
      have hprinted : (object name).descriptorChars ++ rest =
          'L' :: (name.toList ++ ';' :: rest) := by
        simp [descriptorChars]
      rw [hprinted, read?_object hchars hfree, String.ofList_toList]
  | array component ih =>
      change read? ('[' :: (component.descriptorChars ++ rest)) = _
      rw [read?, ih ht]

theorem read?_eq_some_iff {s rest : List Char} {t : FieldType} :
    read? s = some (t, rest) ↔ s = t.descriptorChars ++ rest ∧ t.WellNamed := by
  constructor
  · exact printed_of_read?
  · rintro ⟨rfl, ht⟩
    exact read?_printed ht rest

theorem printed_ne_cons {c : Char} (htag : BaseType.ofTag? c = none) (hobject : c ≠ 'L')
    (harray : c ≠ '[') (t : FieldType) (rest tail : List Char) :
    t.descriptorChars ++ rest ≠ c :: tail := by
  intro h
  cases t with
  | base type =>
      have hc : type.tag = c := List.head_eq_of_cons_eq h
      rw [← hc, BaseType.ofTag?_tag] at htag
      cases htag
  | object name => exact hobject (List.head_eq_of_cons_eq h).symm
  | array component => exact harray (List.head_eq_of_cons_eq h).symm

theorem ofDescriptor_eq_ok_iff {text : String} {t : FieldType} :
    ofDescriptor text = .ok t ↔ text = t.descriptor ∧ t.WellNamed := by
  have hprinted : text = t.descriptor ↔ text.toList = t.descriptorChars ++ [] := by
    rw [descriptor, List.append_nil, ← String.toList_inj, String.toList_ofList]
  rw [hprinted, ← read?_eq_some_iff, ofDescriptor]
  split <;> simp_all

theorem ofDescriptor_refused_iff {text : String} {e : FormatError} :
    ofDescriptor text = .error e ↔
      e = .invalidDescriptor text ∧ ¬∃ t : FieldType, text = t.descriptor ∧ t.WellNamed := by
  apply refused_iff (fun t => ofDescriptor_eq_ok_iff)
  intro e h
  unfold ofDescriptor at h
  split at h <;> cases h
  rfl

end FieldType

namespace ReturnType

def WellNamed : ReturnType → Prop
  | void => True
  | value type => type.WellNamed

theorem read?_eq_some_iff {s : List Char} {r : ReturnType} :
    read? s = some r ↔ s = r.descriptorChars ∧ r.WellNamed := by
  constructor
  · intro h
    unfold read? at h
    split at h
    next =>
      cases h
      exact ⟨rfl, trivial⟩
    next =>
      split at h
      next t hread =>
        cases h
        rw [FieldType.read?_eq_some_iff, List.append_nil] at hread
        exact hread
      next => cases h
  · rintro ⟨rfl, hr⟩
    cases r with
    | void => rfl
    | value t =>
        have hread : FieldType.read? t.descriptorChars = some (t, []) := by
          rw [FieldType.read?_eq_some_iff, List.append_nil]
          exact ⟨rfl, hr⟩
        have hvoid : t.descriptorChars ≠ ['V'] := by
          rw [← List.append_nil t.descriptorChars]
          exact t.printed_ne_cons rfl (by decide) (by decide) [] []
        change read? t.descriptorChars = _
        rw [read?, hread]
        exact hvoid

end ReturnType

namespace MethodType

structure WellNamed (m : MethodType) : Prop where
  params : ∀ p ∈ m.params, p.WellNamed
  result : m.result.WellNamed

theorem readParams?_of_read? {s rest : List Char} {t : FieldType}
    (hclose : ∀ tail, s ≠ ')' :: tail) (ht : FieldType.read? s = some (t, rest)) :
    readParams? s = (readParams? rest).map fun (params, rest) => (t :: params, rest) := by
  rw [readParams?.eq_2 s hclose]
  split
  next t' rest' ht' =>
    rw [ht] at ht'
    cases ht'
    cases readParams? rest <;> rfl
  next hnone =>
    rw [ht] at hnone
    cases hnone

theorem readParams?_eq_some_iff {s rest : List Char} {params : List FieldType} :
    readParams? s = some (params, rest) ↔
      s = params.flatMap FieldType.descriptorChars ++ ')' :: rest ∧
        ∀ p ∈ params, p.WellNamed := by
  constructor
  · intro h
    fun_induction readParams? s generalizing params rest with
    | case1 s =>
        cases h
        exact ⟨rfl, by simp⟩
    | case2 s hclose t after hread tail rest' hrest ih =>
        cases h
        rw [FieldType.read?_eq_some_iff] at hread
        obtain ⟨rfl, ht⟩ := hread
        obtain ⟨rfl, hparams⟩ := ih hrest
        exact ⟨by simp, List.forall_mem_cons.mpr ⟨ht, hparams⟩⟩
    | case3 => cases h
    | case4 => cases h
  · rintro ⟨rfl, hparams⟩
    induction params with
    | nil => simp [readParams?]
    | cons t params ih =>
        rw [List.forall_mem_cons] at hparams
        rw [List.flatMap_cons, List.append_assoc,
          readParams?_of_read? (t.printed_ne_cons rfl (by decide) (by decide) _)
            (FieldType.read?_printed hparams.1 _),
          ih hparams.2, Option.map_some]

theorem read?_eq_some_iff {s : List Char} {m : MethodType} :
    read? s = some m ↔ s = m.descriptorChars ∧ m.WellNamed := by
  constructor
  · intro h
    unfold read? at h
    split at h
    next s =>
      split at h
      next params rest hparams =>
        obtain ⟨result, hresult, rfl⟩ := Option.map_eq_some_iff.mp h
        rw [readParams?_eq_some_iff] at hparams
        rw [ReturnType.read?_eq_some_iff] at hresult
        obtain ⟨rfl, hparams⟩ := hparams
        obtain ⟨rfl, hresult⟩ := hresult
        exact ⟨rfl, hparams, hresult⟩
      next => cases h
    next => cases h
  · rintro ⟨rfl, hm⟩
    have hparams := readParams?_eq_some_iff.mpr
      ⟨(rfl : m.params.flatMap FieldType.descriptorChars ++ ')' :: m.result.descriptorChars = _),
        hm.params⟩
    have hresult := ReturnType.read?_eq_some_iff.mpr ⟨rfl, hm.result⟩
    change read? ('(' :: (m.params.flatMap FieldType.descriptorChars ++
      ')' :: m.result.descriptorChars)) = _
    simp only [read?, hparams, hresult, Option.map_some]

theorem ofDescriptor_eq_ok_iff {text : String} {m : MethodType} :
    ofDescriptor text = .ok m ↔ text = m.descriptor ∧ m.WellNamed := by
  have hprinted : text = m.descriptor ↔ text.toList = m.descriptorChars := by
    rw [descriptor, ← String.toList_inj, String.toList_ofList]
  rw [hprinted, ← read?_eq_some_iff, ofDescriptor]
  split <;> simp_all

theorem ofDescriptor_refused_iff {text : String} {e : FormatError} :
    ofDescriptor text = .error e ↔
      e = .invalidDescriptor text ∧ ¬∃ m : MethodType, text = m.descriptor ∧ m.WellNamed := by
  apply refused_iff (fun m => ofDescriptor_eq_ok_iff)
  intro e h
  unfold ofDescriptor at h
  split at h <;> cases h
  rfl

end MethodType

end Linkage
