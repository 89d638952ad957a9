import Linkage.Proofs.FieldLayout
import Linkage.Proofs.SupertypeWalk

namespace Linkage

def ClassInfo.onlyField (info : ClassInfo) (name descriptor : String) :
    Except LinkError (Option FieldRef) :=
  match info.fields.zipIdx.filter (·.1.isNamed name descriptor) with
  | [] => .ok none
  | [(_, index)] => .ok (some ⟨info.id, index⟩)
  | _ => .error ⟨info.name, .duplicateMember .field (name ++ ":" ++ descriptor)⟩

theorem FieldInfo.isNamed_iff {f : FieldInfo} {name descriptor : String} :
    f.isNamed name descriptor = true ↔ f.name = name ∧ f.descriptor = descriptor := by
  simp [isNamed]

theorem ClassInfo.onlyField_eq {info : ClassInfo}
    (h : info.fields.Pairwise fun a b => a.isNamed b.name b.descriptor = false)
    (name descriptor : String) :
    info.onlyField name descriptor = .ok (info.findField? name descriptor) := by
  have hpairs : (info.fields.zipIdx.filter (·.1.isNamed name descriptor)).Pairwise
      fun a b => a.1.isNamed b.1.name b.1.descriptor = false := by
    have hall : (info.fields.zipIdx.map (·.1)).Pairwise
        fun a b => a.isNamed b.name b.descriptor = false := by
      rwa [List.zipIdx_map_fst]
    exact (List.pairwise_map.mp hall).filter _
  have hmem {f : FieldInfo} {n : Nat} :
      (f, n) ∈ info.fields.zipIdx.filter (·.1.isNamed name descriptor) ↔
        info.fields[n]? = some f ∧ f.isNamed name descriptor = true := by
    rw [List.mem_filter, List.mem_zipIdx_iff_getElem?]
  unfold onlyField
  generalize info.fields.zipIdx.filter (·.1.isNamed name descriptor) = named at hpairs hmem
  match named with
  | [] =>
      have hnone : info.fields.findIdx? (·.isNamed name descriptor) = none := by
        refine List.findIdx?_eq_none_iff.mpr fun f hf => ?_
        obtain ⟨n, hn⟩ := List.mem_iff_getElem?.mp hf
        by_contra hnamed
        exact List.not_mem_nil (hmem.mpr ⟨hn, by simpa using hnamed⟩)
      simp [findField?, hnone]
  | [(f, n)] =>
      obtain ⟨hf, hnamed⟩ := hmem.mp (List.mem_singleton_self (f, n))
      have hfind : info.fields.findIdx? (·.isNamed name descriptor) = some n := by
        refine findIdx?_of_unique hf hnamed fun {j b} hb hnamed => ?_
        have hone := List.mem_singleton.mp (hmem.mpr ⟨hb, hnamed⟩)
        exact congrArg Prod.snd hone
      simp [findField?, hfind]
  | (a, _) :: (b, _) :: rest =>
      obtain ⟨-, ha⟩ := hmem.mp List.mem_cons_self
      obtain ⟨-, hb⟩ := hmem.mp (List.mem_cons_of_mem _ List.mem_cons_self)
      have hne := (List.pairwise_cons.mp hpairs).1 _ List.mem_cons_self
      obtain ⟨rfl, rfl⟩ := FieldInfo.isNamed_iff.mp hb
      rw [ha] at hne
      cases hne

namespace ClassGraph

open Relation

variable {g : ClassGraph} {rank : ClassId → Nat} {id c sup : ClassId} {info : ClassInfo}
  {seen stack roots : List ClassId} {once : Bool} {name descriptor : String} {d n : Nat}
  {found : Option FieldRef} {out : Part (Except LinkError (Option FieldRef))}
  {allowed : LinkOptions → Prop}

def searchTurn (g : ClassGraph) (once : Bool) (name descriptor : String) :
    Walk → Except LinkError (Option FieldRef) ⊕ Walk
  | (_, []) => .inl (.ok none)
  | (seen, next :: stack) =>
      if once && next ∈ seen then
        .inr (seen, stack)
      else
        match g.require next with
        | .error e => .inl (.error e)
        | .ok info =>
            match info.onlyField name descriptor with
            | .error e => .inl (.error e)
            | .ok (some field) => .inl (.ok (some field))
            | .ok none => .inr (next :: seen, (info.interfaces ++ info.superClass.toList) ++ stack)

def searchField (g : ClassGraph) (once : Bool) (name descriptor : String)
    (seen stack : List ClassId) : Part (Except LinkError (Option FieldRef)) :=
  runLoop (g.searchTurn once name descriptor) (seen, stack)

def DeclaresField (g : ClassGraph) (id : ClassId) (name descriptor : String) : Prop :=
  ∃ ref f, ref.owner = id ∧ g.field? ref = some f ∧ f.name = name ∧ f.descriptor = descriptor

theorem direct_of_searched (hinfo : g.info? id = some info)
    (hsup : sup ∈ info.interfaces ++ info.superClass.toList) : g.Direct id sup := by
  rw [Direct, directSupertypes_eq hinfo]
  exact List.mem_append.mpr (List.mem_append.mp hsup).symm

theorem fieldLookupWithin_congr (hrank : ∀ {id sup}, g.Direct id sup → rank sup < rank id)
    (hd : rank id < d) (hn : rank id < n) :
    g.fieldLookupWithin name descriptor n id = g.fieldLookupWithin name descriptor d id := by
  induction d generalizing n id with
  | zero => omega
  | succ d ih =>
      cases n with
      | zero => omega
      | succ n =>
          rw [fieldLookupWithin, fieldLookupWithin]
          split
          next info hinfo =>
            congr 1
            refine findSome?_congr fun sup hsup => ?_
            have hlt := hrank (direct_of_searched hinfo hsup)
            exact ih (by omega) (by omega)
          next => rfl

theorem Hierarchical.fieldLookup_eq (hg : g.Hierarchical) (hinfo : g.info? id = some info) :
    g.fieldLookup id name descriptor = (info.findField? name descriptor).or
      ((info.interfaces ++ info.superClass.toList).findSome?
        (g.fieldLookup · name descriptor)) := by
  obtain ⟨rank, hrank, hbound⟩ := hg.bounded
  have hlt := hbound (known_of_info hinfo)
  have hone : g.fieldLookup id name descriptor =
      g.fieldLookupWithin name descriptor (g.size + 2) id :=
    fieldLookupWithin_congr hrank (by omega) (by omega)
  rw [hone, fieldLookupWithin, hinfo]
  rfl

theorem declaresField_iff (hinfo : g.info? id = some info) :
    g.DeclaresField id name descriptor ↔ info.findField? name descriptor ≠ none := by
  simp only [ClassInfo.findField?, ne_eq, Option.map_eq_none_iff, List.findIdx?_eq_none_iff,
    not_forall, DeclaresField]
  constructor
  · rintro ⟨ref, f, rfl, hf, hnamed⟩
    rw [field?_eq hinfo] at hf
    exact ⟨f, List.mem_of_getElem? hf, by simpa using FieldInfo.isNamed_iff.mpr hnamed⟩
  · rintro ⟨f, hf, hnamed⟩
    obtain ⟨n, hn⟩ := List.mem_iff_getElem?.mp hf
    exact ⟨⟨id, n⟩, f, rfl, (field?_eq hinfo).trans hn,
      FieldInfo.isNamed_iff.mp (by simpa using hnamed)⟩

theorem DeclaresField.known (h : g.DeclaresField id name descriptor) : g.Known id := by
  obtain ⟨ref, f, rfl, hf, -⟩ := h
  obtain ⟨info, hinfo, -⟩ := Option.bind_eq_some_iff.mp hf
  exact known_of_info hinfo

theorem Hierarchical.fieldLookup_eq_none_iff (hg : g.Hierarchical) (hid : g.Known id) :
    g.fieldLookup id name descriptor = none ↔ ∀ c info, ReflTransGen g.Direct id c →
      g.info? c = some info → info.findField? name descriptor = none := by
  have hnone {c info} (hinfo : g.info? c = some info) :
      g.fieldLookup c name descriptor = none ↔ info.findField? name descriptor = none ∧
        ∀ sup, g.Direct c sup → g.fieldLookup sup name descriptor = none := by
    rw [hg.fieldLookup_eq hinfo, Option.or_eq_none_iff, List.findSome?_eq_none_iff]
    refine and_congr_right fun _ => forall_congr' fun sup => ?_
    rw [Direct, directSupertypes_eq hinfo, ClassInfo.directSupertypes, List.mem_append,
      List.mem_append, or_comm]
  obtain ⟨rank, hrank, -⟩ := hg.bounded
  constructor
  · intro h c info hpath hinfo
    induction hpath using ReflTransGen.head_induction_on with
    | refl => exact ((hnone hinfo).mp h).1
    | head hdirect _ ih =>
        obtain ⟨_, hbelow⟩ := direct_known hdirect
        exact ih (hg.known hdirect) (((hnone hbelow).mp h).2 _ hdirect)
  · intro h
    induction hn : rank id using Nat.strong_induction_on generalizing id with
    | _ n ih =>
        obtain ⟨info, hinfo⟩ := hid
        refine (hnone hinfo).mpr ⟨h id info .refl hinfo, fun sup hdirect => ?_⟩
        exact ih _ (hn ▸ hrank hdirect) (hg.known hdirect)
          (fun c info hpath => h c info (hpath.head hdirect)) rfl

def Proceeds (g : ClassGraph) (once : Bool) (name descriptor : String) (seen stack : List ClassId)
    (found : Option FieldRef) (out : Part (Except LinkError (Option FieldRef))) : Prop :=
  match found with
  | some field => out = .some (.ok (some field))
  | none => ∃ seen', (∀ c ∈ seen', c ∈ seen ∨ g.fieldLookup c name descriptor = none) ∧
      out = g.searchField once name descriptor seen' stack

def ClearedBelow (g : ClassGraph) (rank : ClassId → Nat) (n : Nat) (name descriptor : String)
    (seen : List ClassId) : Prop :=
  ∀ c ∈ seen, rank c < n → g.fieldLookup c name descriptor = none

theorem Proceeds.of_seen {mid : List ClassId}
    (h : g.Proceeds once name descriptor mid stack found out)
    (hmid : ∀ c ∈ mid, c ∈ seen ∨ (found = none → g.fieldLookup c name descriptor = none)) :
    g.Proceeds once name descriptor seen stack found out := by
  cases found with
  | some field => exact h
  | none =>
      obtain ⟨last, hlast, hgoes⟩ := h
      refine ⟨last, fun c hc => ?_, hgoes⟩
      rcases hlast c hc with hc | hnone
      · exact (hmid c hc).imp_right fun h => h rfl
      · exact .inr hnone

theorem ClearedBelow.visit (h : g.ClearedBelow rank n name descriptor seen) (hn : rank id < n) :
    g.ClearedBelow rank (rank id) name descriptor (id :: seen) := by
  intro c hc hlt
  rcases List.mem_cons.mp hc with rfl | hc
  · omega
  · exact h c hc (by omega)

theorem searchField_pass {next : ClassId} (hskip : (once && decide (next ∈ seen)) = true) :
    g.searchField once name descriptor seen (next :: stack) =
      g.searchField once name descriptor seen stack :=
  runLoop_next (by rw [searchTurn, if_pos hskip])

theorem searchField_found {next : ClassId} {field : FieldRef}
    (hskip : ¬(once && decide (next ∈ seen)) = true) (hrequire : g.require next = .ok info)
    (hfield : info.onlyField name descriptor = .ok (some field)) :
    g.searchField once name descriptor seen (next :: stack) = .some (.ok (some field)) :=
  runLoop_done (by
    rw [searchTurn, if_neg hskip, hrequire]
    simp only [hfield])

theorem searchField_visit {next : ClassId} (hskip : ¬(once && decide (next ∈ seen)) = true)
    (hrequire : g.require next = .ok info) (hfield : info.onlyField name descriptor = .ok none) :
    g.searchField once name descriptor seen (next :: stack) =
      g.searchField once name descriptor (next :: seen)
        ((info.interfaces ++ info.superClass.toList) ++ stack) :=
  runLoop_next (by
    rw [searchTurn, if_neg hskip, hrequire]
    simp only [hfield])

theorem proceeds_roots (hseen : g.ClearedBelow rank n name descriptor seen)
    (hstep : ∀ root ∈ roots, ∀ seen stack, g.ClearedBelow rank n name descriptor seen →
      g.Proceeds once name descriptor seen stack (g.fieldLookup root name descriptor)
        (g.searchField once name descriptor seen (root :: stack))) :
    g.Proceeds once name descriptor seen stack (roots.findSome? (g.fieldLookup · name descriptor))
      (g.searchField once name descriptor seen (roots ++ stack)) := by
  induction roots generalizing seen with
  | nil => exact ⟨seen, fun c hc => .inl hc, rfl⟩
  | cons root rest ih =>
      obtain ⟨hroot, hrest⟩ := List.forall_mem_cons.mp hstep
      have hfirst := hroot seen (rest ++ stack) hseen
      rw [List.findSome?_cons, List.cons_append]
      cases hfound : g.fieldLookup root name descriptor with
      | some field => rwa [hfound] at hfirst
      | none =>
          rw [hfound] at hfirst
          obtain ⟨mid, hmid, hgoes⟩ := hfirst
          have hclear : g.ClearedBelow rank n name descriptor mid := by
            intro c hc hlt
            rcases hmid c hc with hold | hnone
            · exact hseen c hold hlt
            · exact hnone
          rw [hgoes]
          exact (ih hclear hrest).of_seen fun c hc => (hmid c hc).imp_right fun hnone _ => hnone

theorem Coherent.distinct_fields (hg : g.Coherent allowed) (hinfo : g.info? id = some info) :
    info.fields.Pairwise fun a b => a.isNamed b.name b.descriptor = false := by
  obtain ⟨_, _, -, -, hdraft⟩ := hg.drafted hinfo
  exact resolveFields_ok (draft_members hdraft).1

-- By induction on the rank: a type on the way up is of higher rank than those searched from it.
theorem Coherent.proceeds (hg : g.Coherent allowed)
    (hrank : ∀ {id sup}, g.Direct id sup → rank sup < rank id) (hid : g.Known id)
    (hn : rank id < n) (hseen : g.ClearedBelow rank n name descriptor seen) :
    g.Proceeds once name descriptor seen stack (g.fieldLookup id name descriptor)
      (g.searchField once name descriptor seen (id :: stack)) := by
  induction hr : rank id using Nat.strong_induction_on generalizing id n seen stack with
  | _ r ih =>
      by_cases hskip : (once && decide (id ∈ seen)) = true
      · rw [searchField_pass hskip]
        simp only [Bool.and_eq_true, decide_eq_true_eq] at hskip
        rw [hseen id hskip.2 hn]
        exact ⟨seen, fun c hc => .inl hc, rfl⟩
      · obtain ⟨info, hinfo⟩ := hid
        have hlookup : g.fieldLookup id name descriptor = _ := hg.fieldLookup_eq hinfo
        have honly := ClassInfo.onlyField_eq (hg.distinct_fields hinfo) name descriptor
        rw [hlookup]
        cases hown : info.findField? name descriptor with
        | some field =>
            rw [hown] at honly
            exact searchField_found hskip (require_eq hinfo) honly
        | none =>
            rw [hown] at hlookup honly
            rw [searchField_visit hskip (require_eq hinfo) honly]
            rw [Option.none_or] at hlookup ⊢
            have hrest : g.Proceeds once name descriptor (id :: seen) stack _ _ :=
              proceeds_roots (hseen.visit hn) fun sup hsup seen stack hclear => by
                have hdirect := direct_of_searched hinfo hsup
                exact ih _ (hr ▸ hrank hdirect) (hg.known hdirect) (hrank hdirect) hclear rfl
            refine hrest.of_seen fun c hc => ?_
            rcases List.mem_cons.mp hc with rfl | hc
            · exact .inr fun hnone => hlookup.trans hnone
            · exact .inl hc

theorem Coherent.searchField_eq (hg : g.Coherent allowed) (hid : g.Known id) (once : Bool)
    (name descriptor : String) : g.searchField once name descriptor [] [id] =
      .some (.ok (g.fieldLookup id name descriptor)) := by
  obtain ⟨rank, hrank, -⟩ := hg.bounded
  have hclear : g.ClearedBelow rank (rank id + 1) name descriptor [] := by
    intro c hc
    cases hc
  have hproceeds : g.Proceeds once name descriptor [] [] _ _ :=
    hg.proceeds hrank hid (Nat.lt_succ_self _) hclear
  cases hfound : g.fieldLookup id name descriptor with
  | some field => rwa [hfound] at hproceeds
  | none =>
      rw [hfound] at hproceeds
      obtain ⟨last, -, hgoes⟩ := hproceeds
      exact hgoes.trans (runLoop_done rfl)

theorem field_search_follows_the_recursion (h : Reachable allowed g)
    (hlinked : g.status id = .linked info) (name descriptor : String) :
    (∀ once, g.searchField once name descriptor [] [id] =
        .some (.ok (g.fieldLookup id name descriptor))) ∧
      g.fieldLookup id name descriptor = (info.findField? name descriptor).or
        ((info.interfaces.findSome? (g.fieldLookup · name descriptor)).or
          (info.superClass.bind (g.fieldLookup · name descriptor))) ∧
      (g.fieldLookup id name descriptor = none ↔
        ∀ c, c = id ∨ c ∈ g.supertypes id → ¬g.DeclaresField c name descriptor) := by
  have hg := h.coherent
  have hinfo := known_of_linked hlinked
  have hid := known_of_info hinfo
  refine ⟨fun once => hg.searchField_eq hid once name descriptor, ?_, ?_⟩
  · rw [hg.fieldLookup_eq hinfo, List.findSome?_append]
    cases info.superClass <;> simp
  · have hreach : ∀ c, (c = id ∨ c ∈ g.supertypes id) ↔ ReflTransGen g.Direct id c := fun c => by
      rw [hg.mem_supertypes_iff, reflTransGen_iff_eq_or_transGen]
    rw [hg.fieldLookup_eq_none_iff hid]
    constructor
    · intro hnone c hc hdeclares
      obtain ⟨below, hbelow⟩ := hdeclares.known
      exact (declaresField_iff hbelow).mp hdeclares (hnone _ below ((hreach _).mp hc) hbelow)
    · intro hnone c below hpath hbelow
      by_contra hfound
      exact hnone c ((hreach c).mpr hpath) ((declaresField_iff hbelow).mpr hfound)

def box : ClassGraph :=
  program [
    { name := "Sized", access := .publicInterface,
      fields := [fieldDecl (Access.publicBit ||| Access.staticBit) "size" "I"] },
    { name := "Base", interfaces := ["Sized"], fields := [fieldDecl 0 "size" "I"] },
    { name := "Box", superName := some "Base", interfaces := ["Sized"] }] ⟨3⟩

theorem box_size : Reachable (fun _ => True) box ∧ box.isLinked ⟨3⟩ = true ∧
    box.declaredField? ⟨2⟩ "size" "I" = some ⟨⟨2⟩, 0⟩ ∧
    (∀ once, box.searchField once "size" "I" [] [⟨3⟩] = .some (.ok (some ⟨⟨1⟩, 0⟩))) ∧
    ∀ c, c = ⟨3⟩ ∨ c ∈ box.supertypes ⟨3⟩ → ¬box.DeclaresField c "weight" "D" := by
  have hreach : Reachable (fun _ => True) box := reachable_program _ _
  obtain ⟨hlinked, hbase, hsize, hweight⟩ : box.isLinked ⟨3⟩ = true ∧
      box.declaredField? ⟨2⟩ "size" "I" = some ⟨⟨2⟩, 0⟩ ∧
      box.fieldLookup ⟨3⟩ "size" "I" = some ⟨⟨1⟩, 0⟩ ∧
      box.fieldLookup ⟨3⟩ "weight" "D" = none := by
    decide +kernel
  obtain ⟨info, hinfo⟩ := linked_of_isLinked hlinked
  obtain ⟨hsearch, -, -⟩ := field_search_follows_the_recursion hreach hinfo "size" "I"
  obtain ⟨-, -, hnone⟩ := field_search_follows_the_recursion hreach hinfo "weight" "D"
  refine ⟨hreach, hlinked, hbase, fun once => ?_, hnone.mp hweight⟩
  rw [hsearch once, hsize]

end ClassGraph

end Linkage
