import Linkage.Proofs.Reachability

namespace Linkage

variable {α β : Type} {R S : ClassGraph → ClassGraph → Prop} {g h : ClassGraph}

structure Agree (R : ClassGraph → ClassGraph → Prop) (a b : Except LinkError α × ClassGraph) :
    Prop where
  result : a.1 = b.1
  related : R a.2 b.2

theorem Agree.mono {a b : Except LinkError α × ClassGraph} (hagree : Agree R a b)
    (hsub : R a.2 b.2 → S a.2 b.2) : Agree S a b :=
  ⟨hagree.result, hsub hagree.related⟩

namespace Linking

variable {x y : Linking α} {k k' : α → Linking β}

theorem agree_pure (hR : R g h) (a : α) :
    Agree R ((pure a : Linking α).result g) ((pure a : Linking α).result h) :=
  ⟨rfl, hR⟩

theorem agree_throw (hR : R g h) (e : LinkError) :
    Agree R ((throw e : Linking α).result g) ((throw e : Linking α).result h) :=
  ⟨rfl, hR⟩

theorem agree_ofExcept (hR : R g h) {out out' : Except LinkError α} (hout : out = out') :
    Agree R ((liftM out : Linking α).result g) ((liftM out' : Linking α).result h) := by
  subst hout
  cases out with
  | ok a => exact agree_pure hR a
  | error e => exact agree_throw hR e

theorem agree_read {k k' : ClassGraph → Linking β} (hk : Agree R ((k g).result g) ((k' h).result h)) :
    Agree R (((get : Linking ClassGraph) >>= k).result g)
      (((get : Linking ClassGraph) >>= k').result h) := by
  have hread : ∀ (k : ClassGraph → Linking β) (g : ClassGraph),
      ((get : Linking ClassGraph) >>= k).result g = (k g).result g := fun _ _ => rfl
  rw [hread, hread]
  exact hk

theorem agree_bind (hx : Agree R (x.result g) (y.result h))
    (hk : ∀ a, (x.result g).1 = .ok a → R (x.result g).2 (y.result h).2 →
      Agree R ((k a).result (x.result g).2) ((k' a).result (y.result h).2)) :
    Agree R ((x >>= k).result g) ((y >>= k').result h) := by
  obtain ⟨hresult, hrelated⟩ := hx
  rw [result_bind, result_bind]
  generalize x.result g = a at hresult hrelated hk
  generalize y.result h = b at hresult hrelated hk
  obtain ⟨out, g'⟩ := a
  obtain ⟨out', h'⟩ := b
  obtain rfl : out = out' := hresult
  cases out with
  | error e => exact ⟨rfl, hrelated⟩
  | ok a => exact hk a rfl hrelated

theorem agree_forM {step step' : ClassId → Linking Unit} {f : ClassId → ClassId}
    (hstep : ∀ id g h, R g h → Agree R ((step id).result g) ((step' (f id)).result h))
    (ids : List ClassId) (hR : R g h) :
    Agree R ((ids.forM step).result g) (((ids.map f).forM step').result h) := by
  induction ids generalizing g h with
  | nil => exact agree_pure hR ()
  | cons id rest ih => exact agree_bind (hstep id g h hR) fun _ _ hnext => ih hnext

end Linking

theorem ClassGraph.linkEach_agree
    {step step' : ClassId → ClassGraph → Except LinkError Unit × ClassGraph} {f : ClassId → ClassId}
    (hstep : ∀ id g h, R g h → Agree R (step id g) (step' (f id) h)) (ids : List ClassId)
    (hR : R g h) : Agree R (linkEach step ids g) (linkEach step' (ids.map f) h) := by
  induction ids generalizing g h with
  | nil => exact ⟨rfl, hR⟩
  | cons id rest ih =>
      obtain ⟨hresult, hrelated⟩ := hstep id g h hR
      simp only [List.map_cons, linkEach]
      generalize step id g = a at hresult hrelated
      generalize step' (f id) h = b at hresult hrelated
      obtain ⟨out, g'⟩ := a
      obtain ⟨out', h'⟩ := b
      obtain rfl : out = out' := hresult
      cases out with
      | error e => exact ⟨rfl, hrelated⟩
      | ok _ => exact ih hrelated

end Linkage
