import Linkage.Proofs.PoolCoding
import Linkage.Proofs.Search

namespace Linkage

open ConstantPool Decoder

namespace Assembler

variable {α β : Type} {x : Assembler α} {k : α → Assembler β} {a : α} {f : α → β}
  {post : ConstantPool → α → Prop} {post' : ConstantPool → β → Prop}

def Yields (x : Assembler α) (post : ConstantPool → α → Prop) : Prop :=
  ∀ pool : ConstantPool, pool.Grows (x.run pool).2 ∧
    ∀ q, (x.run pool).2.Grows q → q.slots.size ≤ 65534 → post q (x.run pool).1

theorem Yields.pure (h : ∀ q, post q a) : Yields (pure a) post :=
  fun pool => ⟨.refl pool, fun q _ _ => h q⟩

theorem Yields.bind (hx : Yields x post) (hk : ∀ a, Yields (k a) fun q b => post q a → post' q b) :
    Yields (x >>= k) post' := by
  intro pool
  obtain ⟨hgrows, hpost⟩ := hx pool
  obtain ⟨hgrows', hpost'⟩ := hk (x.run pool).1 (x.run pool).2
  refine ⟨hgrows.trans hgrows', fun q hq hsize => ?_⟩
  exact hpost' q hq hsize (hpost q (hgrows'.trans hq) hsize)

theorem Yields.weaken {post' : ConstantPool → α → Prop} (hx : Yields x post)
    (h : ∀ q a, post q a → post' q a) : Yields x post' :=
  fun pool => ⟨(hx pool).1, fun q hq hsize => h q _ ((hx pool).2 q hq hsize)⟩

theorem Yields.and {post' : ConstantPool → α → Prop} (hx : Yields x post) (hx' : Yields x post') :
    Yields x fun q a => post q a ∧ post' q a :=
  fun pool => ⟨(hx pool).1, fun q hq hsize => ⟨(hx pool).2 q hq hsize, (hx' pool).2 q hq hsize⟩⟩

theorem Yields.end (hx : Yields x post) (h : ∀ q a, post q a → post' q (f a)) :
    Yields (do return f (← x)) post' :=
  hx.bind fun a => .pure fun q => h q a

theorem yields_enter (c : Constant) : Yields (enter c) fun q index => q.get? index = some c := by
  intro pool
  refine ⟨.push pool c, fun q hq hsize => get?_of_slot hsize (hq.getElem? ?_)⟩
  change (pool.slots ++ c.slots).toList[pool.slots.size]? = some (some c)
  rw [Array.toList_appendList, List.getElem?_append_right (by simp), Array.length_toList,
    Nat.sub_self]
  unfold Constant.slots
  split <;> rfl

theorem slot_of_indexOf {pool : ConstantPool} {c : Constant} {index : UInt16}
    (h : pool.indexOf? c = some index) :
    ∃ n, pool.slots.toList[n]? = some (some c) ∧ (n + 1).toUInt16 = index := by
  obtain ⟨n, hn, hindex⟩ := Option.map_eq_some_iff.mp h
  obtain ⟨found, hfound, hsame⟩ := of_findIdx? hn
  rw [eq_of_beq hsame] at hfound
  exact ⟨n, hfound, hindex⟩

theorem yields_share (c : Constant) : Yields (share c) fun q index => q.get? index = some c := by
  intro pool
  cases hindex : pool.indexOf? c with
  | none =>
      have hrun : (share c).run pool = (enter c).run pool := by
        change share c pool = enter c pool
        rw [share, hindex]
      rw [hrun]
      exact yields_enter c pool
  | some index =>
      have hrun : (share c).run pool = (index, pool) := by
        change share c pool = (index, pool)
        rw [share, hindex]
      obtain ⟨n, hslot, rfl⟩ := slot_of_indexOf hindex
      rw [hrun]
      exact ⟨.refl pool, fun q hq hsize => get?_of_slot hsize (hq.getElem? hslot)⟩

theorem yields_text (s : String) : Yields (text s) fun q index => q.get? index = some (.utf8 s) :=
  yields_share (.utf8 s)

theorem yields_classRef (name : String) :
    Yields (classRef name) fun q index => q.getClassName index = .ok name ∧ index ≠ 0 := by
  refine (yields_text name).bind fun n => ?_
  refine (yields_share (.classRef n)).weaken fun q index href htext => ⟨?_, ne_zero_of_get? href⟩
  rw [getClassName, get_of_get? href]
  exact getText_of_get? htext

theorem yields_optionalClassRef (name : Option String) : Yields (optionalClassRef name) fun q index =>
    Attributes.optionalClassName q index = .ok name := by
  cases name with
  | none => exact .pure fun _ => rfl
  | some name =>
      refine (yields_classRef name).weaken fun q index ⟨hname, hzero⟩ => ?_
      rw [Attributes.optionalClassName, if_neg hzero, hname]
      rfl

theorem yields_optionalText (s : Option String) : Yields (optionalText s) fun q index =>
    Attributes.optionalText q index = .ok s := by
  cases s with
  | none => exact .pure fun _ => rfl
  | some s =>
      refine (yields_text s).weaken fun q index htext => ?_
      rw [Attributes.optionalText, if_neg (ne_zero_of_get? htext), getText_of_get? htext]
      rfl

theorem yields_literal (value : Literal) : Yields (literal value) fun q index =>
    ∃ c, q.get index = .ok c ∧ Attributes.literalOf q c = .ok value := by
  cases value with
  | int value => exact (yields_enter _).weaken fun q index h => ⟨_, get_of_get? h, rfl⟩
  | long value => exact (yields_enter _).weaken fun q index h => ⟨_, get_of_get? h, rfl⟩
  | float bits => exact (yields_enter _).weaken fun q index h => ⟨_, get_of_get? h, rfl⟩
  | double bits => exact (yields_enter _).weaken fun q index h => ⟨_, get_of_get? h, rfl⟩
  | string s =>
      refine (yields_text s).bind fun n => (yields_enter (.string n)).weaken fun q index h htext => ?_
      refine ⟨_, get_of_get? h, ?_⟩
      rw [Attributes.literalOf, getText_of_get? htext]
      rfl

variable {σ ι : Type} {step : ConstantPool → σ → Decoder σ} {effect effect' : σ → σ}
  {prog : Assembler Bytes} {progs progs' : List (Assembler Bytes)}

def Fills (progs : List (Assembler Bytes)) (step : ConstantPool → σ → Decoder σ) (effect : σ → σ) :
    Prop :=
  Yields (progs.mapM id) fun q parts => parts.length = progs.length ∧
    ∀ acc, Folds (step q) acc parts (effect acc)

theorem Fills.nil : Fills [] step id :=
  .pure fun _ => ⟨rfl, .nil⟩

theorem Fills.one (h : Yields prog fun q part => ∀ acc, Reads (step q acc) part (effect acc)) :
    Fills [prog] step effect := by
  rw [Fills, List.mapM_cons]
  refine h.bind fun part => .pure fun q hpart => ⟨rfl, fun acc => ?_⟩
  exact .cons (hpart acc) (.nil _)

theorem Fills.append (h : Fills progs step effect) (h' : Fills progs' step effect') :
    Fills (progs ++ progs') step (effect' ∘ effect) := by
  rw [Fills, List.mapM_append]
  refine h.bind fun parts => h'.end fun q parts' ⟨hlength', hfolds'⟩ ⟨hlength, hfolds⟩ => ⟨?_, ?_⟩
  · rw [List.length_append, List.length_append, hlength, hlength']
  · exact fun acc => (hfolds acc).append (hfolds' (effect acc))

theorem Fills.table (h : Fills progs step effect) (hcount : progs.length ≤ 65535) :
    Yields (table progs) fun q bytes => ∀ acc,
      Reads (Decoder.word >>= fun count => fold (step q) count.toNat acc) bytes (effect acc) := by
  refine Yields.end h fun q parts ⟨hlength, hfolds⟩ acc => ?_
  rw [← hlength]
  exact (hfolds acc).counted (hlength ▸ hcount)

theorem yields_widths {n : Nat} (h : ∀ prog ∈ progs, Yields prog fun _ part => part.length = n) :
    Yields (progs.mapM id) fun _ parts => parts.flatten.length = n * progs.length := by
  induction progs with
  | nil => exact .pure fun _ => rfl
  | cons prog rest ih =>
      obtain ⟨hprog, hrest⟩ := List.forall_mem_cons.mp h
      rw [List.mapM_cons]
      refine hprog.bind fun part => (ih hrest).end fun q parts hparts hpart => ?_
      rw [List.flatten_cons, List.length_append, hpart, hparts, List.length_cons, Nat.mul_succ,
        Nat.add_comm]

variable {write : ι → Assembler Bytes} {item : ConstantPool → Decoder ι} {items : List ι}

theorem fills_items (h : ∀ i ∈ items, Yields (write i) fun q part => Reads (item q) part i) :
    Fills (items.map write) (fun q acc => do return (← item q) :: acc) (items.reverse ++ ·) := by
  induction items with
  | nil => exact .nil
  | cons i rest ih =>
      obtain ⟨hi, hrest⟩ := List.forall_mem_cons.mp h
      have hone : Fills [write i] (fun q acc => do return (← item q) :: acc) (i :: ·) :=
        .one (hi.weaken fun q part hpart acc => hpart.end (.pure _))
      have hall := hone.append (ih hrest)
      rw [List.reverse_cons]
      simpa [Function.comp_def] using hall

theorem yields_items (h : ∀ i ∈ items, Yields (write i) fun q part => Reads (item q) part i)
    (hcount : items.length ≤ 65535) :
    Yields (table (items.map write)) fun q bytes => Reads (Decoder.table (item q)) bytes items := by
  refine ((fills_items h).table (by simpa using hcount)).weaken fun q bytes hreads => ?_
  have hall := (hreads []).end (k := fun acc => pure acc.reverse) (.pure _)
  simpa [Decoder.table, Decoder.replicate] using hall

end Assembler

end Linkage
