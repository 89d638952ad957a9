import Linkage.Proofs.CallSelection
import Linkage.Proofs.Replay

namespace Linkage

open Outcome

variable {α β : Type} {options : LinkOptions}

namespace Linking

def Keeps (P : ClassGraph → Prop) (x : Linking α) : Prop :=
  ∀ g, P g → P (x.result g).2

variable {P : ClassGraph → Prop} {x : Linking α} {k : α → Linking β}

theorem Keeps.pure (a : α) : Keeps P (pure a : Linking α) :=
  fun _ hg => hg

theorem Keeps.throw (e : LinkError) : Keeps P (throw e : Linking α) :=
  fun _ hg => hg

theorem Keeps.get : Keeps P (get : Linking ClassGraph) :=
  fun _ hg => hg

theorem Keeps.ofExcept (out : Except LinkError α) : Keeps P (liftM out : Linking α) := by
  cases out with
  | ok a => exact .pure a
  | error e => exact .throw e

theorem Keeps.bind (hx : Keeps P x) (hk : ∀ a, Keeps P (k a)) : Keeps P (x >>= k) := by
  intro g hg
  have hkept := hx g hg
  rw [result_bind]
  cases hrun : x.result g with
  | mk out g' =>
      rw [hrun] at hkept
      cases out with
      | error e => exact hkept
      | ok a => exact hk a g' hkept

end Linking

namespace ClassGraph

open Linking

section

variable {P : ClassGraph → Prop} (hlink : ∀ id, Keeps P (link options id))
include hlink

theorem forM_keeps (ids : List ClassId) : Keeps P (ids.forM (link options)) := by
  induction ids with
  | nil => exact .pure ()
  | cons id rest ih => exact (hlink id).bind fun _ => ih

theorem linkName_keeps (name : String) : Keeps P (linkName options name) := by
  refine Keeps.get.bind fun _ => ?_
  split
  next id _ => exact (hlink id).bind fun _ => .pure id
  next => exact .throw _

theorem linkAll_keeps (origin : Origin) : Keeps P (linkAll options origin) :=
  Keeps.get.bind fun _ => Keeps.get.bind fun _ =>
    (forM_keeps hlink _).bind fun _ => Keeps.get.bind fun _ => .pure _

theorem resolveClass_keeps (current : ClassId) (name : String) :
    Keeps P (resolveClass options current name) := by
  refine Keeps.get.bind fun _ => Keeps.get.bind fun _ => ?_
  split
  next => exact .throw _
  next id _ =>
    refine (hlink id).bind fun _ => Keeps.get.bind fun _ => ?_
    split
    next => exact .pure id
    next => exact .throw _

theorem resolveCall_keeps (current : ClassId) (site : CallSite) :
    Keeps P (resolveCall options current site) := by
  refine (hlink current).bind fun _ => ?_
  split
  next =>
    split
    next target _ => exact .pure target
    next => exact Keeps.get.bind fun _ => .throw _
  next =>
    exact (resolveClass_keeps hlink current site.owner).bind fun _ => Keeps.get.bind fun _ =>
      .ofExcept _

theorem resolveFieldAccess_keeps (current : ClassId) (method : MethodRef) (site : FieldSite) :
    Keeps P (resolveFieldAccess options current method site) :=
  (hlink current).bind fun _ => (resolveClass_keeps hlink current site.owner).bind fun _ =>
    Keeps.get.bind fun _ => .ofExcept _

end

end ClassGraph

namespace Operation

def Resolves (options : LinkOptions) : Operation → Prop
  | add _ _ => False
  | link options' _ => options' = options
  | linkName options' _ => options' = options
  | linkAll options' _ => options' = options
  | resolveCall options' _ _ => options' = options
  | resolveFieldAccess options' _ _ _ => options' = options

variable {op : Operation} {g : ClassGraph}

theorem Resolves.uses (hop : op.Resolves options) : op.Uses (· = options) := by
  cases op with
  | add _ _ => exact hop.elim
  | _ => exact hop

theorem Resolves.keeps {P : ClassGraph → Prop} (hop : op.Resolves options)
    (hlink : ∀ id, Linking.Keeps P (ClassGraph.link options id)) (hg : P g) : P (op.run g) := by
  cases op with
  | add _ _ => exact hop.elim
  | link _ id =>
      obtain rfl : _ = options := hop
      exact hlink id g hg
  | linkName _ name =>
      obtain rfl : _ = options := hop
      exact ClassGraph.linkName_keeps hlink name g hg
  | linkAll _ origin =>
      obtain rfl : _ = options := hop
      exact ClassGraph.linkAll_keeps hlink origin g hg
  | resolveCall _ current site =>
      obtain rfl : _ = options := hop
      exact ClassGraph.resolveCall_keeps hlink current site g hg
  | resolveFieldAccess _ current method site =>
      obtain rfl : _ = options := hop
      exact ClassGraph.resolveFieldAccess_keeps hlink current method site g hg

end Operation

namespace ClassGraph

open Linking

variable {g h : ClassGraph} {id c : ClassId} {ops ops' : List Operation}
  {allowed : LinkOptions → Prop}

def Continues (options : LinkOptions) (g h : ClassGraph) : Prop :=
  h.declared = g.declared ∧ h.Current options

theorem link_keeps (id : ClassId) : Keeps (Continues options g) (link options id) := by
  intro h ⟨hdeclared, hcurrent⟩
  exact ⟨(linkWithin_spreads options (h.size + 1) id h).declared.trans hdeclared,
    linkWithin_current (h.size + 1) id h hcurrent⟩

theorem coherent_of_unlinked (hg : ∀ c, g.status c = .unlinked) : g.Coherent allowed := by
  have hinfo : ∀ id, g.info? id = empty.info? id := fun id => by
    rw [info?, hg id]
    rfl
  exact {
    toWellFormed := (coherent_empty : empty.Coherent allowed).toWellFormed.congr hinfo
    undrafted := fun {id info} hdrafted => by simp [hg id] at hdrafted
    finished := fun {id info} hknown => by simp [info?, hg id, Status.info?] at hknown }

theorem current_of_unlinked (hg : ∀ c, g.status c = .unlinked) : g.Current options :=
  fun id _ _ _ hinfo => by simp [info?, hg id, Status.info?] at hinfo

theorem after_keeps {P : ClassGraph → Prop} (hlink : ∀ id, Keeps P (link options id))
    (hops : ∀ op ∈ ops, op.Resolves options) (hg : P g) : P (g.after ops) := by
  induction ops generalizing g with
  | nil => exact hg
  | cons op rest ih =>
      obtain ⟨hop, hrest⟩ := List.forall_mem_cons.mp hops
      exact ih hrest (hop.keeps hlink hg)

theorem tandem_after (hg : ∀ c, g.status c = .unlinked) (hops : ∀ op ∈ ops, op.Resolves options) :
    Tandem options g (g.after ops) := by
  have hcoherent : g.Coherent (· = options) := coherent_of_unlinked hg
  have hcontinues : g.Continues options (g.after ops) :=
    after_keeps link_keeps hops ⟨rfl, current_of_unlinked hg⟩
  have hreaches : Reaches (· = options) g (g.after ops) :=
    reaches_after fun op hop => (hops op hop).uses
  obtain ⟨hafter, hadvances⟩ := hreaches.keeps hcoherent
  exact {
    lags := ⟨hcontinues.1, fun {c info} hc => by simp [hg c] at hc⟩
    linking := hadvances.linking_iff
    left := hcoherent
    right := hafter
    current := hcontinues.2 }

theorem link_agrees (ht : Tandem options g h) (id : ClassId) :
    Agree (Tandem options) ((link options id).result g) ((link options id).result h) := by
  have hagree := linkWithin_agree (g.size + 1) id g h ht (Nat.lt_succ_of_le (card_unlinkedIds_le g))
  have hlink : (link options id).result h = linkWithin options (g.size + 1) id h := by
    rw [← size_congr ht.lags.declared]
    rfl
  rw [hlink]
  exact hagree.mono ht.step

theorem canAccessClass_congr (hdeclared : h.declared = g.declared) (a b : ClassId) :
    h.canAccessClass a b = g.canAccessClass a b := by
  simp only [canAccessClass, samePackage, record?_congr hdeclared, name_congr hdeclared]

theorem resolveClass_agrees (ht : Tandem options g h) (current : ClassId) (name : String) :
    Agree (Tandem options) ((resolveClass options current name).result g)
      ((resolveClass options current name).result h) := by
  refine agree_read (agree_read ?_)
  rw [name_congr ht.lags.declared, lookup_congr ht.lags.declared]
  cases g.lookup name with
  | none => exact agree_throw ht _
  | some id =>
      refine agree_bind (link_agrees ht id) fun _ _ hnext => agree_read ?_
      rw [canAccessClass_congr hnext.lags.declared]
      split
      · exact agree_pure hnext id
      · exact agree_throw hnext _

theorem resolveCall_agrees (ht : Tandem options g h) (current : ClassId) (site : CallSite) :
    Agree (Tandem options) ((resolveCall options current site).result g)
      ((resolveCall options current site).result h) := by
  refine agree_bind (link_agrees ht current) fun _ hok hnext => ?_
  have hcurrent := (link_ensures ht.left (by rfl) current).post () hok
  split
  · cases arrayTarget site with
    | ok target => exact agree_pure hnext target
    | error fault =>
        refine agree_read ?_
        rw [name_congr hnext.lags.declared]
        exact agree_throw hnext _
  · have howner := resolveClass_ensures hnext.left (by rfl) current site.owner
    refine agree_bind (resolveClass_agrees hnext current site.owner)
      fun owner hok hlast => agree_read ?_
    exact agree_ofExcept hlast ((hlast.lags.retains hlast.left).selectCall hlast.left
      (howner.advances.extends.known hcurrent) (howner.post owner hok)).symm

theorem pending_of_unlinked (hg : ∀ c, g.status c = .unlinked) : g.Pending = g.Names := by
  funext a b
  simp [Pending, isLinked_of_status (hg a), Status.isLinked]

theorem linked_after_link {h : ClassGraph} (hg : ∀ c, g.status c = .unlinked)
    (ht : Tandem options g h) (hok : ((link options id).result g).1 = .ok ())
    (hpath : Relation.ReflTransGen g.Names id c) :
    ∃ info, ((link options id).result g).2.status c = .linked info ∧
      ((link options id).result h).2.status c = .linked info := by
  have hspreads : g.Spreads [id] ((link options id).result g) :=
    linkWithin_spreads options (g.size + 1) id g
  have hlinked : ((link options id).result g).2.isLinked c = true := by
    rw [show (link options id).result g = (.ok (), ((link options id).result g).2) from
      Prod.ext hok rfl] at hspreads
    refine hspreads.linked_iff.mpr (.inr ⟨id, by simp, ?_⟩)
    rwa [pending_of_unlinked hg]
  obtain ⟨info, hinfo⟩ := linked_of_isLinked hlinked
  exact ⟨info, hinfo, (link_agrees ht id).related.lags.linked hinfo⟩

structure Interchangeable (options : LinkOptions) (g h : ClassGraph) : Prop where
  link : ∀ id, ((link options id).result g).1 = ((link options id).result h).1
  linked : ∀ id, ((ClassGraph.link options id).result g).1 = .ok () →
    ∀ c, Relation.ReflTransGen g.Names id c →
      ∃ info, ((ClassGraph.link options id).result g).2.status c = .linked info ∧
        ((ClassGraph.link options id).result h).2.status c = .linked info
  call : ∀ current site, ((resolveCall options current site).result g).1 =
    ((resolveCall options current site).result h).1

theorem linking_ignores_history (hg : ∀ c, g.status c = .unlinked)
    (hops : ∀ op ∈ ops, op.Resolves options) (hops' : ∀ op ∈ ops', op.Resolves options) :
    Interchangeable options (g.after ops) (g.after ops') := by
  have ht := tandem_after hg hops
  have ht' := tandem_after hg hops'
  have hlink : ∀ id, ((link options id).result g).1 = ((link options id).result (g.after ops)).1 :=
    fun id => (link_agrees ht id).result
  have hlink' : ∀ id, ((link options id).result g).1 = ((link options id).result (g.after ops')).1 :=
    fun id => (link_agrees ht' id).result
  refine {
    link := fun id => (hlink id).symm.trans (hlink' id)
    linked := fun id hok c hpath => ?_
    call := fun current site => (resolveCall_agrees ht current site).result.symm.trans
      (resolveCall_agrees ht' current site).result }
  have hpath : Relation.ReflTransGen g.Names id c := names_congr ht.lags.declared ▸ hpath
  have hok := (hlink id).trans hok
  obtain ⟨info, hinfo, hafter⟩ := linked_after_link hg ht hok hpath
  obtain ⟨info', hinfo', hafter'⟩ := linked_after_link hg ht' hok hpath
  rw [hinfo, Status.linked.injEq] at hinfo'
  exact ⟨info, hafter, hinfo' ▸ hafter'⟩

def freshBase : ClassGraph :=
  minimal.after [
    .add { name := "Base" } .application,
    .add { name := "Derived", superName := some "Base" } .application,
    .add { name := "Broken", superName := some "Base", interfaces := ["Base"] } .application]

theorem freshBase_histories :
    Interchangeable {} (freshBase.after [.link {} ⟨3⟩])
      (freshBase.after [.linkName {} "Derived", .link {} ⟨3⟩]) ∧
    (freshBase.after [.link {} ⟨3⟩]).isLinked ⟨2⟩ = false ∧
    (freshBase.after [.linkName {} "Derived", .link {} ⟨3⟩]).isLinked ⟨2⟩ = true ∧
    error? ((link {} ⟨3⟩).result (freshBase.after [.link {} ⟨3⟩])).1 =
      some ⟨"Broken", .interfaceIsClass "Base"⟩ := by
  have hfresh : ∀ c, freshBase.status c = .unlinked := fun c => by
    simp only [freshBase, after, List.foldl, Operation.run, status_add, minimal]
    rfl
  have hops : ∀ op ∈ [Operation.link {} ⟨3⟩], op.Resolves {} := by simp [Operation.Resolves]
  have hops' : ∀ op ∈ [Operation.linkName {} "Derived", .link {} ⟨3⟩],
      op.Resolves {} := by simp [Operation.Resolves]
  exact ⟨linking_ignores_history hfresh hops hops', by decide +kernel⟩

end ClassGraph

end Linkage
