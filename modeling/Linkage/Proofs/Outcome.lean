namespace Linkage.Outcome

variable {α β ε : Type}

theorem bind_ok_iff {x : Except ε α} {f : α → Except ε β} {b : β} :
    x >>= f = .ok b ↔ ∃ a, x = .ok a ∧ f a = .ok b := by
  cases x with
  | error e => simp [bind, Except.bind]
  | ok a => simp [bind, Except.bind]

theorem pure_ok_iff {a b : α} : (pure a : Except ε α) = .ok b ↔ a = b := by
  simp [pure, Except.pure]

theorem map_ok_iff {f : α → β} {x : Except ε α} {b : β} :
    f <$> x = .ok b ↔ ∃ a, x = .ok a ∧ f a = b := by
  cases x with
  | error e => simp [Functor.map, Except.map]
  | ok a => simp [Functor.map, Except.map]

theorem toOption_eq_some {x : Except ε α} {a : α} (h : x.toOption = some a) : x = .ok a := by
  cases x with
  | error e => cases h
  | ok b => exact congrArg Except.ok (Option.some.inj h)

def error? : Except ε α → Option ε
  | .error e => some e
  | .ok _ => none

theorem error?_eq_some {x : Except ε α} {e : ε} (h : error? x = some e) : x = .error e := by
  cases x with
  | error e' => exact congrArg Except.error (Option.some.inj h)
  | ok a => cases h

theorem throw_bind (e : ε) (f : α → Except ε β) : throw e >>= f = .error e := rfl

theorem forM_ok {check : α → Except ε PUnit} {l : List α} (h : forM l check = .ok ()) :
    ∀ x ∈ l, check x = .ok () := by
  induction l with
  | nil => simp
  | cons x rest ih =>
      rw [List.forM_cons, bind_ok_iff] at h
      obtain ⟨_, hx, hrest⟩ := h
      exact List.forall_mem_cons.mpr ⟨hx, ih hrest⟩

theorem forM_congr {check check' : α → Except ε PUnit} {l : List α}
    (h : ∀ x ∈ l, check' x = check x) : forM l check' = forM l check := by
  induction l with
  | nil => rfl
  | cons x rest ih =>
      rw [List.forM_cons, List.forM_cons, h x (by simp), ih fun y hy => h y (by simp [hy])]

theorem mapM_ok_map {f : α → Except ε β} {h : β → α} (hf : ∀ {x y}, f x = .ok y → h y = x)
    {l : List α} {out : List β} (hout : l.mapM f = .ok out) : out.map h = l := by
  induction l generalizing out with
  | nil =>
      obtain rfl := pure_ok_iff.mp hout
      rfl
  | cons x rest ih =>
      rw [List.mapM_cons, bind_ok_iff] at hout
      obtain ⟨y, hy, hout⟩ := hout
      obtain ⟨ys, hys, hout⟩ := bind_ok_iff.mp hout
      obtain rfl := pure_ok_iff.mp hout
      rw [List.map_cons, hf hy, ih hys]

theorem map_of_mapM_ok {f : α → Except ε β} {h : α → Option β}
    (hf : ∀ {x y}, f x = .ok y → h x = some y) {l : List α} {out : List β}
    (hout : l.mapM f = .ok out) : l.map h = out.map some := by
  induction l generalizing out with
  | nil =>
      obtain rfl := pure_ok_iff.mp hout
      rfl
  | cons x rest ih =>
      rw [List.mapM_cons, bind_ok_iff] at hout
      obtain ⟨y, hy, hout⟩ := hout
      obtain ⟨ys, hys, hout⟩ := bind_ok_iff.mp hout
      obtain rfl := pure_ok_iff.mp hout
      rw [List.map_cons, List.map_cons, hf hy, ih hys]

theorem of_mem_mapM {f : α → Except ε β} {l : List α} {out : List β} (hout : l.mapM f = .ok out) :
    ∀ y ∈ out, ∃ x ∈ l, f x = .ok y := by
  induction l generalizing out with
  | nil =>
      obtain rfl := pure_ok_iff.mp hout
      simp
  | cons x rest ih =>
      rw [List.mapM_cons, bind_ok_iff] at hout
      obtain ⟨y, hy, hout⟩ := hout
      obtain ⟨ys, hys, hout⟩ := bind_ok_iff.mp hout
      obtain rfl := pure_ok_iff.mp hout
      refine List.forall_mem_cons.mpr ⟨⟨x, by simp, hy⟩, fun z hz => ?_⟩
      obtain ⟨x', hx', hz⟩ := ih hys z hz
      exact ⟨x', List.mem_cons_of_mem _ hx', hz⟩

theorem mapM_id_ok (l : List α) : (l.map Except.ok).mapM id = (.ok l : Except ε (List α)) := by
  induction l with
  | nil => rfl
  | cons x rest ih =>
      rw [List.map_cons, List.mapM_cons, ih]
      rfl

theorem mapM_id_error (l : List α) (e : ε) (rest : List (Except ε α)) :
    (l.map Except.ok ++ Except.error e :: rest).mapM id = .error e := by
  rw [List.mapM_append, mapM_id_ok]
  rfl

theorem isOk_mapM_id (outcomes : List (Except ε α)) :
    (outcomes.mapM id).isOk = outcomes.all Except.isOk := by
  induction outcomes with
  | nil => rfl
  | cons outcome rest ih =>
      rw [List.mapM_cons, List.all_cons, ← ih]
      cases outcome with
      | error e => rfl
      | ok a => cases rest.mapM id <;> rfl

theorem foldlM_keeps {step : β → α → Except ε β} {l : List α} {start out : β} (P : β → Prop)
    (hstep : ∀ acc x next, x ∈ l → P acc → step acc x = .ok next → P next) (hstart : P start)
    (h : l.foldlM step start = .ok out) : P out := by
  induction l generalizing start with
  | nil => exact pure_ok_iff.mp h ▸ hstart
  | cons x rest ih =>
      rw [List.foldlM_cons, bind_ok_iff] at h
      obtain ⟨next, hnext, hrest⟩ := h
      have hkeep := hstep start x next (by simp) hstart hnext
      exact ih (fun acc y next hy => hstep acc y next (by simp [hy])) hkeep hrest

theorem foldlM_congr {step step' : β → α → Except ε β} {l : List α} {start : β} (P : β → Prop)
    (hsame : ∀ acc x, x ∈ l → P acc → step' acc x = step acc x)
    (hstep : ∀ acc x next, x ∈ l → P acc → step acc x = .ok next → P next) (hstart : P start) :
    l.foldlM step' start = l.foldlM step start := by
  induction l generalizing start with
  | nil => rfl
  | cons x rest ih =>
      rw [List.foldlM_cons, List.foldlM_cons, hsame start x (by simp) hstart]
      cases hnext : step start x with
      | error e => rfl
      | ok next =>
          have hkeep := hstep start x next (by simp) hstart hnext
          exact ih (fun acc y hy => hsame acc y (by simp [hy]))
            (fun acc y next hy => hstep acc y next (by simp [hy])) hkeep

theorem mapM_hom {γ : Type} {f : α → Except ε β} {f' : α → Except ε γ} {h : β → γ}
    (hf : ∀ x, f' x = (f x).map h) (l : List α) : l.mapM f' = (l.mapM f).map (List.map h) := by
  induction l with
  | nil => rfl
  | cons x rest ih =>
      rw [List.mapM_cons, List.mapM_cons, hf, ih]
      cases f x with
      | error e => rfl
      | ok y => cases rest.mapM f <;> rfl

theorem foldlM_hom {α' β' : Type} {step : β → α → Except ε β} {step' : β' → α' → Except ε β'}
    {f : β → β'} {h : α → α'} (hstep : ∀ acc x, step' (f acc) (h x) = (step acc x).map f)
    (l : List α) (start : β) : (l.map h).foldlM step' (f start) = (l.foldlM step start).map f := by
  induction l generalizing start with
  | nil => rfl
  | cons x rest ih =>
      rw [List.map_cons, List.foldlM_cons, List.foldlM_cons, hstep]
      cases step start x with
      | error e => rfl
      | ok next => exact ih next

theorem foldlM_through {step : β → α → Except ε β} {l : List α} {start out : β} {x : α}
    (hx : x ∈ l) (h : l.foldlM step start = .ok out) :
    ∃ pre post before after, l = pre ++ x :: post ∧ pre.foldlM step start = .ok before ∧
      step before x = .ok after ∧ post.foldlM step after = .ok out := by
  obtain ⟨pre, post, rfl⟩ := List.append_of_mem hx
  rw [List.foldlM_append, bind_ok_iff] at h
  obtain ⟨before, hpre, h⟩ := h
  rw [List.foldlM_cons, bind_ok_iff] at h
  obtain ⟨after, hstep, hpost⟩ := h
  exact ⟨pre, post, before, after, rfl, hpre, hstep, hpost⟩

end Linkage.Outcome
