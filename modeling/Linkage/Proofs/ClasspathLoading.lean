import Linkage.Classpath.Load
import Linkage.Proofs.Registration
import Mathlib.Data.List.TakeWhile

namespace Linkage

namespace ClasspathEntry

def parsed (found : Except LoadError ClassSource) : Except LoadError ClassFile := do
  let source ← found
  (ClassFile.parse source.content).mapError (.classFile source.location)

def files (reader : EntryReader) (entry : ClasspathEntry) : List (Except LoadError ClassFile) :=
  (reader entry).map parsed

def isWhole (reader : EntryReader) (entry : ClasspathEntry) : Bool :=
  (entry.files reader).all Except.isOk

def Describes (name : String) : Prop :=
  name = "module-info" ∨ name = "package-info" ∨ ∃ package, name = package ++ "/package-info"

theorem endsWith_iff {name suffix : String} :
    name.endsWith suffix = true ↔ ∃ front, name = front ++ suffix := by
  rw [← String.endsWith_toSlice, String.Slice.endsWith_string_iff, String.copy_toSlice]
  constructor
  · rintro ⟨front, hfront⟩
    refine ⟨String.ofList front, ?_⟩
    rw [← String.toList_inj, String.toList_append, String.toList_ofList, hfront]
  · rintro ⟨front, rfl⟩
    rw [String.toList_append]
    exact ⟨_, rfl⟩

theorem isDescription_iff {name : String} : isDescription name = true ↔ Describes name := by
  rw [isDescription, Describes, Bool.or_eq_true, Bool.or_eq_true, decide_eq_true_eq,
    decide_eq_true_eq, endsWith_iff, or_assoc]

instance : DecidablePred Describes := fun _ => decidable_of_iff _ isDescription_iff

def records (origin : Origin) (classes : List ClassFile) : List ClassRecord :=
  (classes.filter fun file => ¬Describes file.name).map (ClassRecord.ofFile · origin)

def record? (origin : Origin) (file : ClassFile) : Option ClassRecord :=
  if isDescription file.name then none else some (.ofFile file origin)

theorem readSource_eq (origin : Origin) (found : Except LoadError ClassSource) :
    readSource origin found = (parsed found).map (record? origin) := by
  cases found with
  | error e => rfl
  | ok source =>
      simp only [readSource, parsed, bind, Except.bind]
      cases ClassFile.parse source.content <;> rfl

theorem filterMap_records (origin : Origin) (classes : List ClassFile) :
    (classes.map (record? origin)).filterMap id = records origin classes := by
  induction classes with
  | nil => rfl
  | cons file classes ih =>
      rw [List.map_cons, List.filterMap_cons, ih, records, records, record?]
      by_cases hname : Describes file.name
      · rw [if_pos (isDescription_iff.mpr hname), List.filter_cons_of_neg (by simpa using hname)]
        rfl
      · rw [if_neg (mt isDescription_iff.mp hname), List.filter_cons_of_pos (by simpa using hname)]
        rfl

theorem read_eq (reader : EntryReader) (origin : Origin) (entry : ClasspathEntry) :
    entry.read reader origin = ((entry.files reader).mapM id).map (records origin) := by
  have hfiles : (entry.files reader).mapM id = (reader entry).mapM parsed := List.mapM_map
  rw [read, hfiles, Outcome.mapM_hom (readSource_eq origin)]
  cases (reader entry).mapM parsed with
  | error e => rfl
  | ok classes => exact congrArg Except.ok (filterMap_records origin classes)

theorem records_append (origin : Origin) (classes more : List ClassFile) :
    records origin (classes ++ more) = records origin classes ++ records origin more := by
  rw [records, List.filter_append, List.map_append]
  rfl

end ClasspathEntry

namespace ClassGraph

open ClasspathEntry

def fresh (c : ClassRecord × Origin) : Slot :=
  ⟨c.1, c.2, .unlinked⟩

def withFirsts (g : ClassGraph) (cs : List (ClassRecord × Origin)) : ClassGraph :=
  ⟨g.slots ++ (((firsts cs).filter (isNew g.declared)).map fresh).toArray⟩

theorem isNew_concat (cs : List (ClassRecord × Origin)) (c : ClassRecord × Origin) :
    isNew (cs ++ [c]) = fun d => isNew cs d && !isNamed c.2 c.1.name d := by
  funext d
  rw [isNew, isNew, List.find?_append, List.find?_cons, isNamed_comm]
  cases cs.find? (isNamed d.2 d.1.name) <;> cases isNamed c.2 c.1.name d <;> rfl

theorem isNew_of_named {c d : ClassRecord × Origin} (h : isNamed c.2 c.1.name d = true)
    (cs : List (ClassRecord × Origin)) : isNew cs d = isNew cs c := by
  obtain ⟨horigin, hname⟩ := isNamed_iff.mp h
  rw [isNew, isNew, horigin, hname]

theorem firsts_cons_filter (cs : List (ClassRecord × Origin)) (c : ClassRecord × Origin)
    (rest : List (ClassRecord × Origin)) :
    (firsts (c :: rest)).filter (isNew cs) =
      [c].filter (isNew cs) ++ (firsts rest).filter (isNew (cs ++ [c].filter (isNew cs))) := by
  rw [firsts, List.filter_cons, List.filter_filter]
  by_cases hc : isNew cs c = true
  · rw [if_pos hc, List.filter_cons_of_pos hc, List.filter_nil, isNew_concat]
    rfl
  · have hother : ∀ d, (isNew cs d && !isNamed c.2 c.1.name d) = isNew cs d := by
      intro d
      cases hd : isNamed c.2 c.1.name d with
      | false => exact Bool.and_true _
      | true =>
          rw [Bool.not_eq_true] at hc
          rw [isNew_of_named hd, hc]
          rfl
    rw [if_neg hc, List.filter_cons_of_neg hc, List.filter_nil, List.append_nil]
    exact List.filter_congr fun d _ => hother d

theorem slots_add (g : ClassGraph) (c : ClassRecord × Origin) :
    (g.add c.1 c.2).2.slots = g.slots ++ (([c].filter (isNew g.declared)).map fresh).toArray := by
  cases hfound : g.declared.find? (isNamed c.2 c.1.name) with
  | none =>
      have hnew : isNew g.declared c = true := by
        rw [isNew, hfound]
        rfl
      rw [add_of_new hfound, List.filter_cons_of_pos hnew]
      simp [fresh]
  | some d =>
      have hold : ¬isNew g.declared c = true := by
        rw [isNew, hfound]
        exact Bool.false_ne_true
      obtain ⟨id, -, hadd⟩ := add_of_taken hfound
      rw [hadd, List.filter_cons_of_neg hold]
      simp

theorem added_eq (cs : List (ClassRecord × Origin)) (g : ClassGraph) :
    added cs g = g.withFirsts cs := by
  induction cs generalizing g with
  | nil => simp [added, after, withFirsts, firsts]
  | cons c rest ih =>
      have hstep : added (c :: rest) g = added rest (g.add c.1 c.2).2 := rfl
      rw [hstep, ih, withFirsts, withFirsts, declared_add, slots_add, firsts_cons_filter,
        List.map_append, ← List.append_toArray, Array.append_assoc]

theorem addAll_eq (g : ClassGraph) (records : List ClassRecord) (origin : Origin) :
    g.addAll records origin = added (records.map (·, origin)) g := by
  rw [addAll, added, after, List.map_map, List.foldl_map]
  rfl

theorem addAll_append (g : ClassGraph) (records more : List ClassRecord) (origin : Origin) :
    g.addAll (records ++ more) origin = (g.addAll records origin).addAll more origin :=
  List.foldl_append

theorem load_eq (reader : EntryReader) (origin : Origin) (entries : List ClasspathEntry) (g : ClassGraph) :
    load reader origin entries g =
      match (entries.flatMap (files reader)).mapM id with
      | .ok classes =>
          (.ok (records origin classes).length, g.addAll (records origin classes) origin)
      | .error e => (.error e, (load reader origin (entries.takeWhile (isWhole reader)) g).2) := by
  induction entries generalizing g with
  | nil => rfl
  | cons entry entries ih =>
      have hwhole : isWhole reader entry = ((entry.files reader).mapM id).isOk :=
        (Outcome.isOk_mapM_id _).symm
      rw [List.flatMap_cons, List.mapM_append, load, read_eq, List.takeWhile_cons, hwhole]
      cases hfiles : (entry.files reader).mapM id with
      | error e => rfl
      | ok classes =>
          simp only [Except.map, ih, bind, Except.bind, Except.isOk, Except.toBool, if_true, load,
            read_eq, hfiles]
          cases (entries.flatMap (files reader)).mapM id with
          | error e => rfl
          | ok rest => simp [pure, Except.pure, records_append, addAll_append]

theorem mapM_of_whole {reader : EntryReader} {entries : List ClasspathEntry}
    (h : ∀ entry ∈ entries, isWhole reader entry = true) :
    ∃ classes, (entries.flatMap (files reader)).mapM id = .ok classes := by
  have hok : ((entries.flatMap (files reader)).mapM id).isOk = true := by
    rw [Outcome.isOk_mapM_id, List.all_flatMap]
    exact List.all_eq_true.mpr h
  cases hparsed : (entries.flatMap (files reader)).mapM id with
  | error e =>
      rw [hparsed] at hok
      cases hok
  | ok classes => exact ⟨classes, rfl⟩

def held? (g : ClassGraph) (origin : Origin) (name : String) : Option Slot :=
  g.slots.toList.find? fun slot => slot.origin = origin && slot.record.name = name

def resolved? (g : ClassGraph) (name : String) : Option Slot :=
  (g.lookup name).bind g.slot?

theorem bind_slot_find? (g : ClassGraph) (origin : Origin) (name : String) :
    (g.find? origin name).bind g.slot? = g.held? origin name := by
  have hfind : g.find? origin name = (g.slots.toList.findIdx? fun slot =>
      slot.origin = origin && slot.record.name = name).map ClassId.mk := by
    rw [find?, ← List.findIdx?_toArray]
  rw [hfind, held?]
  cases hidx : g.slots.toList.findIdx? fun slot =>
      slot.origin = origin && slot.record.name = name with
  | none =>
      rw [List.findIdx?_eq_none_iff] at hidx
      symm
      simpa using hidx
  | some n =>
      rw [find?_of_findIdx? hidx]
      simp [slot?]

theorem resolved?_eq (g : ClassGraph) (name : String) :
    g.resolved? name = (g.held? .application name).or (g.held? .runtime name) := by
  rw [resolved?, lookup, ← bind_slot_find?, ← bind_slot_find?]
  cases hfound : g.find? .application name with
  | none => rfl
  | some id =>
      obtain ⟨slot, hslot, -⟩ := find_slot hfound
      simp [hslot]

theorem declared_find? (g : ClassGraph) (origin : Origin) (name : String) :
    g.declared.find? (isNamed origin name) =
      (g.held? origin name).map fun slot => (slot.record, slot.origin) := by
  rw [declared, List.find?_map]
  rfl

theorem held?_add (g : ClassGraph) (c : ClassRecord × Origin) (origin : Origin) (name : String) :
    (g.add c.1 c.2).2.held? origin name =
      (g.held? origin name).or (if isNamed origin name c then some (fresh c) else none) := by
  rw [held?, slots_add, Array.toList_append, List.find?_append, List.find?_map]
  change (g.held? origin name).or
    ((([c].filter (isNew g.declared)).find? (isNamed origin name)).map fresh) = _
  cases hheld : g.held? origin name with
  | some slot => rfl
  | none =>
      rw [Option.none_or, Option.none_or]
      by_cases hc : isNamed origin name c = true
      · obtain ⟨rfl, rfl⟩ := isNamed_iff.mp hc
        have hnew : isNew g.declared c = true := by
          rw [isNew, declared_find?, hheld]
          rfl
        rw [List.filter_cons_of_pos hnew, List.find?_cons_of_pos hc, if_pos hc, Option.map_some]
      · have hnone : ([c].filter (isNew g.declared)).find? (isNamed origin name) = none := by
          rw [List.find?_eq_none]
          intro d hd
          obtain rfl := List.mem_singleton.mp (List.mem_of_mem_filter hd)
          exact hc
        rw [hnone, if_neg hc, Option.map_none]

theorem held?_added (cs : List (ClassRecord × Origin)) (g : ClassGraph) (origin : Origin)
    (name : String) : (added cs g).held? origin name =
      (g.held? origin name).or ((cs.find? (isNamed origin name)).map fresh) := by
  induction cs generalizing g with
  | nil => simp [added, after]
  | cons c rest ih =>
      have hstep : added (c :: rest) g = added rest (g.add c.1 c.2).2 := rfl
      rw [hstep, ih, held?_add, Option.or_assoc, List.find?_cons]
      cases isNamed origin name c <;> rfl

theorem load_adds (reader : EntryReader) (origin : Origin) (entries : List ClasspathEntry) :
    ∃ records, ∀ g, (load reader origin entries g).2 = g.addAll records origin := by
  induction entries with
  | nil => exact ⟨[], fun g => rfl⟩
  | cons entry entries ih =>
      obtain ⟨more, hmore⟩ := ih
      cases hread : entry.read reader origin with
      | error e => exact ⟨[], fun g => by rw [load, hread]; rfl⟩
      | ok records =>
          refine ⟨records ++ more, fun g => ?_⟩
          rw [load, hread, addAll_append]
          exact hmore _

theorem load_comm (reader : EntryReader) (application runtime : List ClasspathEntry) (g : ClassGraph)
    (name : String) :
    (load reader .runtime runtime (load reader .application application g).2).2.resolved? name =
      (load reader .application application (load reader .runtime runtime g).2).2.resolved? name := by
  obtain ⟨as, has⟩ := load_adds reader .application application
  obtain ⟨rs, hrs⟩ := load_adds reader .runtime runtime
  have ha : (as.map (·, Origin.application)).find? (isNamed .runtime name) = none := by
    simp [isNamed]
  have hr : (rs.map (·, Origin.runtime)).find? (isNamed .application name) = none := by
    simp [isNamed]
  simp only [has, hrs, addAll_eq, resolved?_eq, held?_added, ha, hr, Option.map_none,
    Option.or_none]

theorem classpaths_load_in_order (reader : EntryReader) (origin : Origin) (entries : List ClasspathEntry)
    (g : ClassGraph) :
    (∀ classes : List ClassFile, entries.flatMap (files reader) = classes.map .ok →
      load reader origin entries g = (.ok (records origin classes).length,
        g.withFirsts ((records origin classes).map (·, origin)))) ∧
    (∀ (classes : List ClassFile) e rest,
      entries.flatMap (files reader) = classes.map Except.ok ++ .error e :: rest →
      ∃ n g', load reader origin (entries.takeWhile (isWhole reader)) g = (.ok n, g') ∧
        load reader origin entries g = (.error e, g')) ∧
    ∀ others name,
      (load reader .runtime others (load reader .application entries g).2).2.resolved? name =
        (load reader .application entries (load reader .runtime others g).2).2.resolved? name := by
  refine ⟨fun classes h => ?_, fun classes e rest h => ?_, fun others name =>
    load_comm reader entries others g name⟩
  · rw [load_eq, h, Outcome.mapM_id_ok, ← added_eq, ← addAll_eq]
  · have hwhole : ∀ entry ∈ entries.takeWhile (isWhole reader), isWhole reader entry = true :=
      fun entry hentry => List.mem_takeWhile_imp hentry
    obtain ⟨before, hbefore⟩ := mapM_of_whole hwhole
    have hload := load_eq reader origin (entries.takeWhile (isWhole reader)) g
    rw [hbefore] at hload
    refine ⟨_, _, hload, ?_⟩
    rw [load_eq, h, Outcome.mapM_id_error, hload]

section Shelf

def stubBytes (name : String) : Bytes :=
  [0xCA, 0xFE, 0xBA, 0xBE, 0, 0, 0, 0x34, 0, 3, 7, 0, 2, 1, 0, name.utf8ByteSize.toUInt8]
    ++ name.toUTF8.data.toList ++ [0, 0x21, 0, 1, 0, 0, 0, 0, 0, 0, 0, 0, 0, 0]

def stub (name : String) : ClassFile where
  version := .standard
  access := .publicClass
  name := name
  superName := none
  interfaces := []
  fields := []
  methods := []
  signature := none
  innerClasses := []

def shelf : EntryReader
  | .classDir "lib" =>
      [.ok ⟨"lib/A.class", stubBytes "A"⟩, .ok ⟨"lib/B.class", stubBytes "A"⟩,
        .ok ⟨"lib/module-info.class", stubBytes "module-info"⟩,
        .ok ⟨"lib/p/package-info.class", stubBytes "p/package-info"⟩,
        .ok ⟨"lib/package-info.class", stubBytes "package-info"⟩]
  | .jar "app.jar" =>
      [.ok ⟨"app.jar!/B.class", stubBytes "B"⟩, .ok ⟨"app.jar!/C.class", [0xCA, 0xFE]⟩]
  | entry => [.error (.unreadable entry.path)]

def libFiles : List ClassFile :=
  [stub "A", stub "A", stub "module-info", stub "p/package-info", stub "package-info"]

theorem files_lib : files shelf (.classDir "lib") = libFiles.map .ok := by
  decide +kernel

theorem files_app : files shelf (.jar "app.jar") =
    [.ok (stub "B"), .error (.classFile "app.jar!/C.class" .unexpectedEnd)] := by
  decide +kernel

theorem shelf_loads :
    (([.classDir "lib"] : List ClasspathEntry).flatMap (files shelf) = libFiles.map .ok ∧
      load shelf .application [.classDir "lib"] minimal = (.ok 2, minimal.withFirsts
        [(.ofFile (stub "A") .application, .application),
          (.ofFile (stub "A") .application, .application)])) ∧
    ([.classDir "lib", .jar "app.jar"] : List ClasspathEntry).flatMap (files shelf) =
      (libFiles ++ [stub "B"]).map .ok ++
        [.error (.classFile "app.jar!/C.class" .unexpectedEnd)] ∧
    load shelf .application [.classDir "lib", .jar "app.jar"] minimal =
      (.error (.classFile "app.jar!/C.class" .unexpectedEnd),
        (load shelf .application [.classDir "lib"] minimal).2) := by
  have hlib : ([.classDir "lib"] : List ClasspathEntry).flatMap (files shelf) =
      libFiles.map .ok := by
    rw [List.flatMap_singleton, files_lib]
  have hboth : ([.classDir "lib", .jar "app.jar"] : List ClasspathEntry).flatMap (files shelf) =
      (libFiles ++ [stub "B"]).map .ok ++
        [.error (.classFile "app.jar!/C.class" .unexpectedEnd)] := by
    rw [List.flatMap_cons, List.flatMap_singleton, files_lib, files_app]
    rfl
  have hwhole : ([.classDir "lib", .jar "app.jar"] : List ClasspathEntry).takeWhile
      (isWhole shelf) = [.classDir "lib"] := by
    simp only [List.takeWhile_cons, isWhole, files_lib, files_app]
    rfl
  have hrecords : records .application libFiles =
      [.ofFile (stub "A") .application, .ofFile (stub "A") .application] := by
    decide +kernel
  refine ⟨⟨hlib, ?_⟩, hboth, ?_⟩
  · have hload := (classpaths_load_in_order shelf .application _ minimal).1 _ hlib
    rw [hrecords] at hload
    exact hload
  · obtain ⟨n, g, hbefore, hload⟩ :=
      (classpaths_load_in_order shelf .application _ minimal).2.1 _ _ _ hboth
    rw [hwhole] at hbefore
    rw [hload, hbefore]

end Shelf

end ClassGraph

end Linkage
