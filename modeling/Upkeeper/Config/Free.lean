import Upkeeper.Config.Override
/-!
# Freeing a configuration (`upk_svc_desc_free`, `upk_svclist_free`, `upk_ctrlconf_free`, `upk_ctrl_free_config`)

`UPKLIST_FREE` frees every node of a list. `upk_svc_desc_free` frees the strings of a service, and `LongDescription` a
second time at its end. So a configuration can be freed exactly if its strings are separate and none of its services has
a `LongDescription`, and then its strings are gone and nothing else (`upkCtrlFreeConfig_iff`).
-/

namespace Upkeeper

/-! ### The functions -/

/-- `UPKLIST_FREE`, of a list without `userdata`. The meta node goes, too, and what is left is the memory of the
nodes. -/
def UpkList.freeNodes {α : Type} (L : UpkList α) : Option (UpkList α) := do
  let (L, _) ← L.foreach (fun (L, w) => do
    let L ← L.unlink
    some (L, w)) (L.fresh + 1) ()
  some L

/-- `if(svc->Provides) UPKLIST_FREE(svc->Provides)` -/
def freeList {α : Type} : Option (UpkList α) → Option (Option (UpkList α))
  | none => some none
  | some L => do
    let L ← L.freeNodes
    some (some L)

/-- The custom actions: each script is freed and its pointer cleared, and the node is unlinked. -/
def freeActions (m : Heap) : Option (UpkList ActObject) → Option (Heap × Option (UpkList ActObject))
  | none => some (m, none)
  | some L => do
    let (L, m) ← L.foreach (UpkList.unlinking (fun m v => m.release v.script) fun v => { v with script := none })
      (L.fresh + 1) m
    some (m, some L)

/-- `upk_svc_desc_free`. The service is returned with what is left of its lists. -/
def upkSvcDescFree (m : Heap) (svc : SvcObject) : Option (Heap × SvcObject) := do
  let provides ← freeList svc.provides
  let m ← m.release svc.longDescription
  let prerequisites ← freeList svc.prerequisites
  let m ← m.release (svc.scripts .startScript)
  let m ← m.release (svc.scripts .stopScript)
  let m ← m.release (svc.scripts .reloadScript)
  let (m, customActions) ← freeActions m svc.customActions
  let m ← m.release (svc.scripts .pipeStdoutScript)
  let m ← m.release (svc.scripts .pipeStderrScript)
  let m ← m.release svc.longDescription
  some (m, svc.withLists provides prerequisites customActions)

/-- `upk_svclist_free`. The services are freed in their nodes, and then the nodes. -/
def upkSvclistFree (m : Heap) : Option (UpkList SvcObject) → Option (Heap × Option (UpkList SvcObject))
  | none => some (m, none)
  | some L => do
    let (L, m) ← L.foreach (UpkList.reading fun m svc => (upkSvcDescFree m svc).map Prod.fst) (L.fresh + 1) m
    let L ← L.freeNodes
    some (m, some L)

/-- The pointers of `upk_controller_config_t` -/
structure ControllerObject where
  svclist : Option (UpkList SvcObject)
  serviceDefaults : SvcObject

/-- `upk_ctrlconf_free` -/
def upkCtrlconfFree (m : Heap) (cfg : ControllerObject) : Option (Heap × ControllerObject) := do
  let (m, svclist) ← upkSvclistFree m cfg.svclist
  let (m, serviceDefaults) ← upkSvcDescFree m cfg.serviceDefaults
  some (m, ⟨svclist, serviceDefaults⟩)

/-- The global configurations that `upk_ctrl_free_config` frees -/
structure ConfigurationObjects where
  default : ControllerObject
  file : ControllerObject
  runtime : ControllerObject

/-- `upk_ctrl_free_config` -/
def upkCtrlFreeConfig (m : Heap) (g : ConfigurationObjects) :
    Option (Heap × ConfigurationObjects) := do
  let (m, default) ← upkCtrlconfFree m g.default
  let (m, file) ← upkCtrlconfFree m g.file
  let (m, runtime) ← upkCtrlconfFree m g.runtime
  some (m, ⟨default, file, runtime⟩)

/-! ### Every node is freed -/

namespace UpkList

variable {α ω : Type} {L M M' : UpkList α} {rest : List Addr} {vs : List α} {a : Addr} {f : ω → α → Option ω}
  {g : α → α}
  {w w' : ω}

/-- Nothing is left of the nodes. -/
def Gone (L : UpkList α) : Prop := ∀ a, L.heap a = none

theorem heap_foreachContinue (h : M.foreachContinue = some M') : M'.heap = M.heap := by
  unfold foreachContinue at h
  obtain ⟨n, -, h⟩ := Option.bind_eq_some_iff.mp h
  rw [← Option.some.inj h]

theorem foreachStep_unlinking_live (hthis : M.thisp = some a) (hprev : M.prevp = none)
    (h : foreachStep (unlinking f g) (M, w) = some (M', w')) (x : Addr) :
    (∃ n, M'.next x = some n) ↔ x ≠ a ∧ ∃ n, M.next x = some n := by
  simp only [foreachStep, unlinking, hthis, Option.bind_eq_bind, Option.bind_some, Option.bind_eq_some_iff] at h
  obtain ⟨⟨N, v⟩, ⟨c, hc, u, -, W, hW, N', hN', hpair⟩, K, hK, h⟩ := h
  obtain ⟨rfl, rfl⟩ := Prod.mk.inj (Option.some.inj hpair)
  obtain ⟨rfl, rfl⟩ := Prod.mk.inj (Option.some.inj h)
  have hwrite := Option.some.inj ((modifyVal_eq hc g).symm.trans hW)
  have hnextW : W.next = M.next := hwrite ▸ next_writeVal hc (g c.val)
  have hcell : W.next a = some c.next := by
    rw [hnextW]
    exact next_eq_some.mpr ⟨c.val, hc⟩
  obtain ⟨N'', hN'', -, -, hnext⟩ := unlink_start_eq (L := W) (by rw [← hwrite]; exact hthis) hcell
    (by rw [← hwrite]; exact hprev)
  obtain rfl := Option.some.inj (hN'.symm.trans hN'')
  have hsame : K.next = N'.next := by
    funext y
    rw [next, heap_foreachContinue hK]
    rfl
  rw [hsame, hnext, hnextW]
  exact exists_update_none

theorem foreachFrom_unlinking_live {fuel : Nat} (hf : Facing M rest vs) (hprev : M.prevp = none)
    (hrun : foreachFrom (unlinking f g) fuel (M, w) = some (M', w')) (x : Addr) :
    (∃ n, M'.next x = some n) ↔ x ∉ rest ∧ ∃ n, M.next x = some n := by
  induction rest generalizing M w vs fuel with
  | nil =>
    have hthis : M.thisp = none := hf.thisp
    cases fuel with
    | zero => cases hrun
    | succ fuel =>
      simp only [foreachFrom, hthis] at hrun
      obtain ⟨rfl, -⟩ := Prod.mk.inj (Option.some.inj hrun)
      simp
  | cons a rest ih =>
    obtain ⟨v, ws, rfl, -, -⟩ := hf.uncons
    have hthis : M.thisp = some a := hf.thisp
    cases fuel with
    | zero => cases hrun
    | succ fuel =>
      simp only [foreachFrom, hthis] at hrun
      obtain ⟨⟨N, u⟩, hN, hrun⟩ := Option.bind_eq_some_iff.mp hrun
      obtain ⟨N', hfN, hprevN, hstep⟩ := foreachStep_unlinking (f := f) g hf hprev
      obtain ⟨u', -, hpair⟩ := Option.map_eq_some_iff.mp ((hstep w).symm.trans hN)
      obtain ⟨rfl, rfl⟩ := Prod.mk.inj hpair
      rw [ih hfN hprevN hrun, foreachStep_unlinking_live hthis hprev hN, List.mem_cons, not_or]
      tauto

/-- **A pass that unlinks every node frees every node.** -/
theorem foreach_unlinking_gone {fuel : Nat} {l : List Addr} (h : Inv L l)
    (hrun : L.foreach (unlinking f g) fuel w = some (M, w')) : M.Gone := by
  obtain ⟨l', h', hvs⟩ := h.holds
  obtain rfl := h.toRep.unique h'.toRep
  obtain ⟨N, hN, hmoved, hf, hprev⟩ := facing_foreachInit h.chain hvs
  simp only [foreach, hN, Option.bind_eq_bind, Option.bind_some] at hrun
  intro a
  by_contra hcell
  obtain ⟨c, hc⟩ := Option.ne_none_iff_exists'.mp hcell
  obtain ⟨hnot, hlive⟩ := (foreachFrom_unlinking_live hf hprev hrun a).mp ⟨c.next, next_eq_some.mpr ⟨c.val, hc⟩⟩
  rw [hmoved.next] at hlive
  exact hnot ((h.live a).mp hlive)

theorem unlink_of_gone (hthis : L.thisp = some a) (hgone : L.heap a = none) : L.unlink = none := by
  cases hprev : L.prevp with
  | none => simp [unlink, free, hthis, hprev, hgone]
  | some p =>
    by_cases hp : p = a
    · simp [unlink, setNext, hthis, hprev, hp, hgone]
    · cases hc : L.heap p with
      | none => simp [unlink, setNext, hthis, hprev, hc]
      | some c =>
        have hkept : Function.update L.heap p (some { c with next := L.nextp }) a = none := by
          rw [Function.update_of_ne (Ne.symm hp), hgone]
        simp [unlink, setNext, free, hthis, hprev, hc, hkept]

theorem unlink_eq_unlinking (hthis : L.thisp = some a) (w : ω) :
    (L.unlink.bind fun L => some (L, w)) = unlinking (fun w _ => some w) id (L, w) := by
  cases hc : L.heap a with
  | none =>
    rw [unlink_of_gone hthis hc]
    simp [unlinking, hthis, hc]
  | some c =>
    have hself : ({ L with heap := Function.update L.heap a (some { c with val := id c.val }) } : UpkList α) = L := by
      rw [Function.update_eq_self_iff.mpr hc.symm]
    have hwrite : L.modifyVal (some a) id = some L := (modifyVal_eq hc id).trans (congrArg some hself)
    simp only [unlinking, hthis, hc, hwrite, Option.bind_eq_bind, Option.bind_some]

theorem foreachFrom_congr {b b' : UpkList α × ω → Option (UpkList α × ω)} (h : ∀ x, x.1.thisp ≠ none → b x = b' x)
    (fuel : Nat) (x : UpkList α × ω) : foreachFrom b fuel x = foreachFrom b' fuel x := by
  induction fuel generalizing x with
  | zero => rfl
  | succ fuel ih =>
    unfold foreachFrom
    cases hthis : x.1.thisp with
    | none => rfl
    | some a =>
      dsimp only
      rw [foreachStep, foreachStep, h x (by rw [hthis]; exact Option.some_ne_none a)]
      exact congrArg _ (funext ih)

theorem freeNodes_eq (L : UpkList α) :
    L.freeNodes = (L.foreach (unlinking (fun (w : Unit) _ => some w) id) (L.fresh + 1) ()).map Prod.fst := by
  have hbody : ∀ x : UpkList α × Unit, x.1.thisp ≠ none →
      (x.1.unlink.bind fun L => some (L, x.2)) = unlinking (fun w _ => some w) id x := by
    intro x hx
    obtain ⟨a, ha⟩ := Option.ne_none_iff_exists'.mp hx
    exact unlink_eq_unlinking ha x.2
  have hpass : L.foreach (fun (L, w) => do
      let L ← L.unlink
      some (L, w)) (L.fresh + 1) () = L.foreach (unlinking (fun (w : Unit) _ => some w) id) (L.fresh + 1) () := by
    unfold foreach
    exact congrArg _ (funext fun M => foreachFrom_congr hbody _ _)
  rw [freeNodes, hpass]
  cases L.foreach (unlinking (fun (w : Unit) _ => some w) id) (L.fresh + 1) () <;> rfl

/-- **`UPKLIST_FREE` frees every node of a list**, each one once. -/
theorem freeNodes_gone {l : List Addr} (h : Inv L l) : ∃ M, L.freeNodes = some M ∧ M.Gone := by
  obtain ⟨M, hrun⟩ := foreach_unlinking (f := fun (w : Unit) _ => some w) id h.holds (Nat.lt_succ_self L.fresh)
  have hrun := hrun ()
  have hfold : L.entries.foldlM (fun (w : Unit) _ => some w) () = some () := by
    induction L.entries with
    | nil => rfl
    | cons v vs ih => exact ih
  rw [hfold] at hrun
  exact ⟨M, by rw [freeNodes_eq, hrun]; rfl, foreach_unlinking_gone h hrun⟩

end UpkList

/-! ### Services -/

/-- Nothing is left of the nodes of the list, if there is one. -/
def ListGone {α : Type} (L : Option (UpkList α)) : Prop := ∀ l ∈ L, l.Gone

/-- Nothing is left of the lists. -/
structure SvcObject.Gone (d : SvcObject) : Prop where
  provides : ListGone d.provides
  prerequisites : ListGone d.prerequisites
  customActions : ListGone d.customActions

/-- The pointers of a service to strings, one after the other -/
def SvcObject.pointers (d : SvcObject) : List (Option Addr) :=
  [d.longDescription, d.scripts .startScript, d.scripts .stopScript, d.scripts .reloadScript] ++
    actionScripts d.customActions ++ [d.scripts .pipeStdoutScript, d.scripts .pipeStderrScript]

/-- What `upk_svc_desc_free` frees -/
def SvcObject.released (d : SvcObject) : List (Option Addr) := d.pointers ++ [d.longDescription]

section Services

variable {α : Type} {m m' : Heap} {svc svc' : SvcObject}

theorem freeList_gone {L : Option (UpkList α)} (h : Sound L) : ∃ L', freeList L = some L' ∧ ListGone L' := by
  cases L with
  | none => exact ⟨none, rfl, fun l hl => nomatch hl⟩
  | some L =>
    obtain ⟨l, hinv⟩ := h L rfl
    obtain ⟨M, hM, hgone⟩ := UpkList.freeNodes_gone hinv
    refine ⟨some M, ?_, fun l hl => Option.some.inj hl ▸ hgone⟩
    simp only [freeList, hM, Option.bind_eq_bind, Option.bind_some]

theorem freeActions_eq {L : Option (UpkList ActObject)} (h : Sound L) :
    ∃ L', ∀ m, freeActions m L = (m.releaseAll (actionScripts L)).map fun m => (m, L') := by
  cases L with
  | none => exact ⟨none, fun m => rfl⟩
  | some L =>
    obtain ⟨l, hinv⟩ := h L rfl
    obtain ⟨M, hrun⟩ := UpkList.foreach_unlinking (f := fun (m : Heap) (v : ActObject) => m.release v.script)
      (fun v => { v with script := none }) hinv.holds (Nat.lt_succ_self L.fresh)
    refine ⟨some M, fun m => ?_⟩
    have hfold : m.releaseAll (actionScripts (some L)) = L.entries.foldlM (fun m v => m.release v.script) m :=
      List.foldlM_map
    simp only [freeActions, hrun, hfold, Option.bind_eq_bind]
    cases L.entries.foldlM (fun m v => m.release v.script) m <;> rfl

theorem freeActions_gone {L L' : Option (UpkList ActObject)} (h : Sound L) (hrun : freeActions m L = some (m', L')) :
    ListGone L' := by
  cases L with
  | none =>
    obtain ⟨-, rfl⟩ := Prod.mk.inj (Option.some.inj hrun)
    exact fun l hl => nomatch hl
  | some L =>
    obtain ⟨l, hinv⟩ := h L rfl
    obtain ⟨⟨M, u⟩, hM, hpair⟩ := Option.bind_eq_some_iff.mp hrun
    obtain ⟨rfl, rfl⟩ := Prod.mk.inj (Option.some.inj hpair)
    exact fun l hl => Option.some.inj hl ▸ UpkList.foreach_unlinking_gone hinv hM

/-- **A service is freed:** its pointers are released, and `LongDescription` once more. -/
theorem upkSvcDescFree_eq (h : svc.Sound) :
    ∃ svc', ∀ m, upkSvcDescFree m svc = (m.releaseAll svc.released).map fun m => (m, svc') := by
  obtain ⟨provides, hprovides, -⟩ := freeList_gone h.provides
  obtain ⟨prerequisites, hprerequisites, -⟩ := freeList_gone h.prerequisites
  obtain ⟨acts, hacts⟩ := freeActions_eq h.customActions
  refine ⟨svc.withLists provides prerequisites acts, fun m => ?_⟩
  have hnil (m : Heap) : m.releaseAll [] = some m := rfl
  simp only [upkSvcDescFree, hprovides, hprerequisites, hacts, SvcObject.released, SvcObject.pointers,
    Heap.releaseAll_append, Heap.releaseAll_cons, hnil, Option.bind_eq_bind, Option.bind_some, Option.bind_fun_some,
    Option.bind_assoc, Option.bind_map, Option.map_bind, Function.comp_def]
  simp only [Option.map_eq_bind, Function.comp_def]

theorem upkSvcDescFree_gone (h : svc.Sound) (hrun : upkSvcDescFree m svc = some (m', svc')) : svc'.Gone := by
  obtain ⟨provides, hprovides, hgone₁⟩ := freeList_gone h.provides
  obtain ⟨prerequisites, hprerequisites, hgone₂⟩ := freeList_gone h.prerequisites
  simp only [upkSvcDescFree, hprovides, hprerequisites, Option.bind_eq_bind, Option.bind_some,
    Option.bind_eq_some_iff] at hrun
  obtain ⟨m₁, -, m₂, -, m₃, -, m₄, -, ⟨m₅, acts⟩, hacts, m₆, -, m₇, -, m₈, -, hpair⟩ := hrun
  obtain ⟨-, rfl⟩ := Prod.mk.inj (Option.some.inj hpair)
  exact ⟨hgone₁, hgone₂, freeActions_gone h.customActions hacts⟩

theorem foldlM_upkSvcDescFree (svcs : List SvcObject) (h : ∀ svc ∈ svcs, svc.Sound) (m : Heap) :
    svcs.foldlM (fun m svc => (upkSvcDescFree m svc).map Prod.fst) m =
      m.releaseAll (svcs.flatMap SvcObject.released) := by
  induction svcs generalizing m with
  | nil => rfl
  | cons svc svcs ih =>
    obtain ⟨svc', hfree⟩ := upkSvcDescFree_eq (h svc List.mem_cons_self)
    rw [List.foldlM_cons, List.flatMap_cons, Heap.releaseAll_append, hfree, Option.map_map]
    cases m.releaseAll svc.released with
    | none => rfl
    | some m₁ => exact ih (fun svc hsvc => h svc (List.mem_cons_of_mem _ hsvc)) m₁

/-- The services of a list -/
def servicesOf (L : Option (UpkList SvcObject)) : List SvcObject := (L.map UpkList.entries).getD []

theorem upkSvclistFree_eq {L : Option (UpkList SvcObject)} (h : Sound L) (hsvcs : ∀ svc ∈ servicesOf L, svc.Sound) :
    ∃ L', ListGone L' ∧ ∀ m, upkSvclistFree m L =
      (m.releaseAll ((servicesOf L).flatMap SvcObject.released)).map fun m => (m, L') := by
  cases L with
  | none =>
    have hnone : ListGone (none : Option (UpkList SvcObject)) := fun l hl => nomatch hl
    exact ⟨none, hnone, fun m => rfl⟩
  | some L =>
    obtain ⟨l, hinv⟩ := h L rfl
    obtain ⟨N, ⟨l', hinv', -⟩, -, -, hrun⟩ := UpkList.foreach_reading
      (f := fun (m : Heap) (svc : SvcObject) => (upkSvcDescFree m svc).map Prod.fst) hinv.holds (Nat.lt_succ_self L.fresh)
    obtain ⟨M, hM, hgone⟩ := UpkList.freeNodes_gone hinv'
    refine ⟨some M, fun l hl => Option.some.inj hl ▸ hgone, fun m => ?_⟩
    have hservices : servicesOf (some L) = L.entries := rfl
    rw [hservices] at hsvcs ⊢
    rw [← foldlM_upkSvcDescFree L.entries hsvcs m]
    simp only [upkSvclistFree, hrun, Option.bind_eq_bind]
    cases L.entries.foldlM (fun m svc => (upkSvcDescFree m svc).map Prod.fst) m with
    | none => rfl
    | some m₁ => simp only [Option.map_some, Option.bind_some, hM]

end Services

/-! ### Configurations -/

/-- The services of a configuration, and their defaults -/
def ControllerObject.services (cfg : ControllerObject) : List SvcObject :=
  servicesOf cfg.svclist ++ [cfg.serviceDefaults]

/-- The lists of a configuration are well formed. -/
structure ControllerObject.Sound (cfg : ControllerObject) : Prop where
  svclist : Upkeeper.Sound cfg.svclist
  services : ∀ svc ∈ cfg.services, svc.Sound

/-- Nothing is left of the lists. -/
structure ControllerObject.Gone (cfg : ControllerObject) : Prop where
  svclist : ListGone cfg.svclist
  serviceDefaults : cfg.serviceDefaults.Gone

namespace ConfigurationObjects

/-- All services, and all defaults -/
def services (g : ConfigurationObjects) : List SvcObject := g.default.services ++ g.file.services ++ g.runtime.services

/-- All pointers to strings -/
def strings (g : ConfigurationObjects) : List (Option Addr) := g.services.flatMap SvcObject.pointers

structure Sound (g : ConfigurationObjects) : Prop where
  default : g.default.Sound
  file : g.file.Sound
  runtime : g.runtime.Sound

structure Gone (g : ConfigurationObjects) : Prop where
  default : g.default.Gone
  file : g.file.Gone
  runtime : g.runtime.Gone

end ConfigurationObjects

section Configurations

variable {m m' : Heap} {cfg cfg' : ControllerObject} {g : ConfigurationObjects}

theorem upkCtrlconfFree_eq (h : cfg.Sound) : ∃ cfg', ∀ m, upkCtrlconfFree m cfg =
    (m.releaseAll (cfg.services.flatMap SvcObject.released)).map fun m => (m, cfg') := by
  obtain ⟨L', -, hlist⟩ := upkSvclistFree_eq h.svclist fun svc hsvc => h.services svc (List.mem_append_left _ hsvc)
  obtain ⟨svc', hsvc⟩ := upkSvcDescFree_eq (h.services cfg.serviceDefaults (List.mem_append_right _ List.mem_cons_self))
  refine ⟨⟨L', svc'⟩, fun m => ?_⟩
  rw [ControllerObject.services, List.flatMap_append, List.flatMap_singleton, Heap.releaseAll_append]
  simp only [upkCtrlconfFree, hlist, hsvc, Option.bind_eq_bind, Option.bind_map, Option.map_bind, Function.comp_def]
  cases m.releaseAll ((servicesOf cfg.svclist).flatMap SvcObject.released) with
  | none => rfl
  | some m₁ =>
    simp only [Option.bind_some]
    cases m₁.releaseAll cfg.serviceDefaults.released <;> rfl

theorem upkCtrlconfFree_gone (h : cfg.Sound) (hrun : upkCtrlconfFree m cfg = some (m', cfg')) : cfg'.Gone := by
  obtain ⟨L', hgone, hlist⟩ := upkSvclistFree_eq h.svclist fun svc hsvc => h.services svc (List.mem_append_left _ hsvc)
  obtain ⟨⟨m₁, L₁⟩, hL₁, hrun⟩ := Option.bind_eq_some_iff.mp hrun
  obtain ⟨⟨m₂, svc'⟩, hsvc, hpair⟩ := Option.bind_eq_some_iff.mp hrun
  obtain ⟨-, rfl⟩ := Prod.mk.inj (Option.some.inj hpair)
  obtain ⟨m₃, -, hpair⟩ := Option.map_eq_some_iff.mp ((hlist m).symm.trans hL₁)
  obtain ⟨-, rfl⟩ := Prod.mk.inj hpair
  exact ⟨hgone, upkSvcDescFree_gone (h.services _ (List.mem_append_right _ List.mem_cons_self)) hsvc⟩

theorem upkCtrlFreeConfig_eq (h : g.Sound) : ∃ g', ∀ m, upkCtrlFreeConfig m g =
    (m.releaseAll (g.services.flatMap SvcObject.released)).map fun m => (m, g') := by
  obtain ⟨default, hdefault⟩ := upkCtrlconfFree_eq h.default
  obtain ⟨file, hfile⟩ := upkCtrlconfFree_eq h.file
  obtain ⟨runtime, hruntime⟩ := upkCtrlconfFree_eq h.runtime
  refine ⟨⟨default, file, runtime⟩, fun m => ?_⟩
  rw [ConfigurationObjects.services, List.flatMap_append, List.flatMap_append, Heap.releaseAll_append,
    Heap.releaseAll_append]
  simp only [upkCtrlFreeConfig, hdefault, hfile, hruntime, Option.bind_eq_bind]
  cases m.releaseAll (g.default.services.flatMap SvcObject.released) with
  | none => rfl
  | some m₁ =>
    simp only [Option.map_some, Option.bind_some]
    cases m₁.releaseAll (g.file.services.flatMap SvcObject.released) with
    | none => rfl
    | some m₂ =>
      simp only [Option.map_some, Option.bind_some]
      cases m₂.releaseAll (g.runtime.services.flatMap SvcObject.released) <;> rfl

theorem upkCtrlFreeConfig_gone {g' : ConfigurationObjects} (h : g.Sound)
    (hrun : upkCtrlFreeConfig m g = some (m', g')) :
    g'.Gone := by
  simp only [upkCtrlFreeConfig, Option.bind_eq_bind, Option.bind_eq_some_iff] at hrun
  obtain ⟨⟨m₁, default⟩, hdefault, ⟨m₂, file⟩, hfile, ⟨m₃, runtime⟩, hruntime, hpair⟩ := hrun
  obtain ⟨-, rfl⟩ := Prod.mk.inj (Option.some.inj hpair)
  exact ⟨upkCtrlconfFree_gone h.default hdefault, upkCtrlconfFree_gone h.file hfile,
    upkCtrlconfFree_gone h.runtime hruntime⟩

/-- What is released twice has to be `NULL`. -/
theorem distinct_released_iff (svcs : List SvcObject) :
    m.Distinct (svcs.flatMap SvcObject.released) ↔
      m.Distinct (svcs.flatMap SvcObject.pointers) ∧ ∀ svc ∈ svcs, svc.longDescription = none := by
  have hperm : (svcs.flatMap SvcObject.pointers ++ svcs.flatMap fun svc => [svc.longDescription]).Perm
      (svcs.flatMap SvcObject.released) := List.flatMap_append_perm svcs _ _
  have hsub : (svcs.flatMap fun svc => [svc.longDescription]) ⊆ svcs.flatMap SvcObject.pointers := by
    intro p hp
    obtain ⟨svc, hsvc, hmem⟩ := List.mem_flatMap.mp hp
    obtain rfl := List.mem_singleton.mp hmem
    exact List.mem_flatMap.mpr ⟨svc, hsvc, by simp [SvcObject.pointers]⟩
  have hiff := Heap.distinct_append_of_subset (m := m) hsub
  constructor
  · intro h
    obtain ⟨hpointers, hnull⟩ := hiff.mp (h.perm hperm.symm)
    exact ⟨hpointers, fun svc hsvc => hnull _ (List.mem_flatMap.mpr ⟨svc, hsvc, List.mem_singleton_self _⟩)⟩
  · rintro ⟨hpointers, hnull⟩
    refine (hiff.mpr ⟨hpointers, fun p hp => ?_⟩).perm hperm
    obtain ⟨svc, hsvc, hmem⟩ := List.mem_flatMap.mp hp
    rw [List.mem_singleton.mp hmem, hnull svc hsvc]

theorem mem_released_iff (svcs : List SvcObject) (p : Option Addr) :
    p ∈ svcs.flatMap SvcObject.released ↔ p ∈ svcs.flatMap SvcObject.pointers := by
  simp only [List.mem_flatMap]
  refine exists_congr fun svc => and_congr_right fun _ => ?_
  rw [SvcObject.released, List.mem_append, List.mem_singleton]
  refine ⟨fun h => h.elim id fun hp => ?_, Or.inl⟩
  rw [hp]
  simp [SvcObject.pointers]

/-- **A configuration can be freed exactly if its pointers lead to different strings and none of its services has a
`LongDescription`**, and then its strings and its nodes are gone, and nothing else. -/
theorem upkCtrlFreeConfig_iff (m : Heap) (g : ConfigurationObjects) (h : g.Sound) :
    ((∃ m' g', upkCtrlFreeConfig m g = some (m', g')) ↔
        m.Distinct g.strings ∧ ∀ svc ∈ g.services, svc.longDescription = none) ∧
      ∀ m' g', upkCtrlFreeConfig m g = some (m', g') → g'.Gone ∧
        ∀ a, m'.text a = if some a ∈ g.strings then none else m.text a := by
  obtain ⟨g', hfree⟩ := upkCtrlFreeConfig_eq h
  have hiff := distinct_released_iff (m := m) g.services
  rw [← ConfigurationObjects.strings] at hiff
  refine ⟨?_, fun m' g'' hrun => ⟨upkCtrlFreeConfig_gone h hrun, fun a => ?_⟩⟩
  · rw [← hiff]
    constructor
    · rintro ⟨m', g'', hrun⟩
      obtain ⟨m₁, hm₁, -⟩ := Option.map_eq_some_iff.mp ((hfree m).symm.trans hrun)
      exact (Heap.releaseAll_eq_some_iff.mp hm₁).1
    · intro hdistinct
      refine ⟨m.without (g.services.flatMap SvcObject.released).reduceOption, g', ?_⟩
      rw [hfree, Heap.releaseAll_eq_some_iff.mpr ⟨hdistinct, rfl⟩]
      rfl
  · obtain ⟨m₁, hm₁, hpair⟩ := Option.map_eq_some_iff.mp ((hfree m).symm.trans hrun)
    obtain ⟨rfl, -⟩ := Prod.mk.inj hpair
    rw [(Heap.releaseAll_eq_some_iff.mp hm₁).2, Heap.without]
    refine if_congr ?_ rfl rfl
    rw [List.reduceOption_mem_iff, mem_released_iff, ConfigurationObjects.strings]

/-- A list of one service, in memory -/
def oneService (svc : SvcObject) : UpkList SvcObject where
  heap := Function.update (fun _ => none) 0 (some ⟨none, svc⟩)
  fresh := 1
  head := some 0
  tail := some 0
  prevp := none
  nextp := none
  tempp := none
  thisp := some 0
  count := 1

theorem oneService_holds (svc : SvcObject) : (oneService svc).Holds [svc] := by
  refine ⟨[0], ⟨⟨?_, rfl, rfl⟩, fun a => ?_, ?_, ?_, ?_, ?_⟩, rfl⟩
  · exact ⟨rfl, none, rfl, rfl⟩
  · by_cases ha : a = 0 <;> simp [oneService, UpkList.next, ha]
  all_goals simp [oneService]

/-- The built-in configuration is empty, the file sets a `StartScript` for a service, and that is in effect. -/
def exampleObjects : ConfigurationObjects where
  default := ⟨none, .clear⟩
  file := ⟨some (oneService (oneScript .startScript 0)), .clear⟩
  runtime := ⟨some (oneService (oneScript .startScript 1)), .clear⟩

theorem clear_sound : SvcObject.clear.Sound := by
  have hnone {α : Type} : Sound (none : Option (UpkList α)) := fun l hl => nomatch hl
  exact ⟨hnone, hnone, hnone⟩

theorem oneService_sound (a : Addr) :
    (ControllerObject.mk (some (oneService (oneScript .startScript a))) .clear).Sound := by
  have hholds := oneService_holds (oneScript .startScript a)
  refine ⟨sound_some hholds, fun svc hsvc => ?_⟩
  have hservices : servicesOf (some (oneService (oneScript .startScript a))) = [oneScript .startScript a] :=
    hholds.entries_eq
  rw [ControllerObject.services, hservices] at hsvc
  simp only [List.cons_append, List.nil_append, List.mem_cons, List.not_mem_nil, or_false] at hsvc
  have hclear := clear_sound
  rcases hsvc with rfl | rfl
  · exact ⟨hclear.provides, hclear.prerequisites, hclear.customActions⟩
  · exact hclear

theorem exampleObjects_sound : exampleObjects.Sound := by
  have hnone : Sound (none : Option (UpkList SvcObject)) := fun l hl => nomatch hl
  refine ⟨⟨hnone, fun svc hsvc => ?_⟩, oneService_sound 0, oneService_sound 1⟩
  obtain rfl := List.mem_singleton.mp hsvc
  exact clear_sound

/-- The two texts are freed. -/
theorem upkCtrlFreeConfig_iff_example : ∃ m' g', upkCtrlFreeConfig twoTexts exampleObjects = some (m', g') ∧
    g'.Gone ∧ m'.text 0 = none ∧ m'.text 1 = none := by
  obtain ⟨hiff, hgone⟩ := upkCtrlFreeConfig_iff twoTexts exampleObjects exampleObjects_sound
  have hstrings : exampleObjects.strings.reduceOption = [0, 1] := by decide
  have hdistinct : twoTexts.Distinct exampleObjects.strings := by
    refine ⟨by decide, fun a ha => ?_⟩
    rw [hstrings] at ha
    have hcases : a = 0 ∨ a = 1 := by simpa using ha
    rcases hcases with rfl | rfl <;> exact Option.some_ne_none _
  obtain ⟨m', g', hrun⟩ := hiff.mpr ⟨hdistinct, by decide⟩
  obtain ⟨hnodes, htext⟩ := hgone m' g' hrun
  exact ⟨m', g', hrun, hnodes, (htext 0).trans (if_pos (by decide)), (htext 1).trans (if_pos (by decide))⟩

end Configurations

/-! ### After an overlay -/

section Overlaid

variable {m m' : Heap} {dest high dest' high' : SvcObject}

/-- The slots of the pointers of a service, with `n` custom actions -/
def StringSlot.inOrder (n : Nat) : List StringSlot :=
  [.longDescription, .script .startScript, .script .stopScript, .script .reloadScript] ++
    (List.range n).map .action ++ [.script .pipeStdoutScript, .script .pipeStderrScript]

theorem StringSlot.nodup_inOrder (n : Nat) : (StringSlot.inOrder n).Nodup := by
  have hactions : ((List.range n).map StringSlot.action).Nodup := by
    refine List.nodup_range.map fun i j h => ?_
    exact StringSlot.action.inj h
  refine List.Nodup.append (List.Nodup.append (by decide) hactions ?_) (by decide) ?_
  · intro s hs hs'
    obtain ⟨i, -, rfl⟩ := List.mem_map.mp hs'
    simp at hs
  · intro s hs hs'
    rcases List.mem_append.mp hs with hs | hs
    · simp only [List.mem_cons, List.not_mem_nil, or_false] at hs hs'
      rcases hs' with rfl | rfl <;> simp at hs
    · obtain ⟨i, -, rfl⟩ := List.mem_map.mp hs
      simp at hs'

theorem SvcObject.pointers_eq (d : SvcObject) :
    d.pointers = (StringSlot.inOrder (actionScripts d.customActions).length).map d.strings := by
  have hactions : actionScripts d.customActions =
      ((List.range (actionScripts d.customActions).length).map StringSlot.action).map d.strings := by
    refine List.ext_getElem (by simp) fun i hi _ => ?_
    simp [SvcObject.strings, slots, List.getElem?_eq_getElem hi]
  rw [StringSlot.inOrder, List.map_append, List.map_append, ← hactions]
  rfl

theorem mem_pointers_script (d : SvcObject) (f : ScriptField) : d.scripts f ∈ d.pointers := by
  cases f <;> simp [SvcObject.pointers]

theorem charPtr_eq_null (m : Heap) (p : Option Addr) : charPtr m p = .null ↔ p = none := by
  cases p with
  | none => exact iff_of_true rfl rfl
  | some a => cases h : m.text a <;> simp [charPtr, h]

theorem Separate.free (h : Separate m dest high) (hlong : dest.longDescription = none) :
    ∃ x, upkSvcDescFree m dest = some x := by
  obtain ⟨val, hown⟩ := h.strings
  have hdistinct := (hown.comp Sum.inl_injective).distinct
    (StringSlot.nodup_inOrder (actionScripts dest.customActions).length)
  rw [Sum.elim_comp_inl, ← SvcObject.pointers_eq] at hdistinct
  have hall := (distinct_released_iff (m := m) [dest]).mpr
    ⟨by rwa [List.flatMap_singleton], fun svc hsvc => by rwa [List.mem_singleton.mp hsvc]⟩
  rw [List.flatMap_singleton] at hall
  obtain ⟨svc', hfree⟩ := upkSvcDescFree_eq h.lower
  refine ⟨(m.without dest.released.reduceOption, svc'), ?_⟩
  rw [hfree, Heap.releaseAll_eq_some_iff.mpr ⟨hall, rfl⟩]
  rfl

theorem free_needs {svc : SvcObject} (h : svc.Sound) {x : Heap × SvcObject} (hrun : upkSvcDescFree m svc = some x) :
    svc.longDescription = none ∧ ∀ f, charPtr m (svc.scripts f) ≠ .freed := by
  obtain ⟨svc', hfree⟩ := upkSvcDescFree_eq h
  obtain ⟨m₁, hm₁, -⟩ := Option.map_eq_some_iff.mp ((hfree m).symm.trans hrun)
  have hdistinct := (Heap.releaseAll_eq_some_iff.mp hm₁).1
  have hiff := distinct_released_iff (m := m) [svc]
  rw [List.flatMap_singleton, List.flatMap_singleton] at hiff
  obtain ⟨hpointers, hlong⟩ := hiff.mp hdistinct
  refine ⟨hlong svc (List.mem_singleton_self svc), fun f hfreed => ?_⟩
  have hmem := mem_pointers_script svc f
  cases hp : svc.scripts f with
  | none =>
    simp [hp, charPtr] at hfreed
  | some a =>
    rw [hp] at hfreed hmem
    have hlive := hpointers.live a (List.reduceOption_mem_iff.mpr hmem)
    cases htext : m.text a with
    | none => exact hlive htext
    | some s =>
      simp [charPtr, htext] at hfreed

theorem Separate.sound_overlaid (h : Separate m dest high) (happ : dest.Appendable high)
    (hrun : SvcObject.upkOverlaySvcconfValues m dest high = some (m', dest', high')) : dest'.Sound := by
  obtain ⟨val, hown⟩ := h.strings
  obtain ⟨v, w, rfl⟩ : ∃ v w, val = Sum.elim v w := ⟨val ∘ .inl, val ∘ .inr, (Sum.elim_comp_inl_inr val).symm⟩
  obtain ⟨provides, highProvides, hprovides, hd₁, -⟩ := overlaySvcids_spec h.lower.provides h.upper.provides happ.1
  obtain ⟨prerequisites, highPrerequisites, hprerequisites, hd₂, -⟩ :=
    overlaySvcids_spec h.lower.prerequisites h.upper.prerequisites happ.2
  obtain ⟨m₁, long, m₂, scripts₂, m₃, acts, highActs, m₄, scripts', hlong, hscripts, hactions, hpipes, hd₃, -⟩ :=
    stringsOverlaid h.lower.customActions h.upper.customActions hown
  simp only [SvcObject.upkOverlaySvcconfValues, hprovides, hlong, hprerequisites, hscripts, hactions, hpipes,
    Option.bind_eq_bind, Option.bind_some, Option.some.injEq, Prod.mk.injEq] at hrun
  obtain ⟨-, rfl, -⟩ := hrun
  exact ⟨hd₁, hd₂, hd₃⟩

/-- **A service that has been overlaid can be freed** exactly if neither has a `LongDescription` and the overlay has
freed no `PipeStdoutScript`. -/
theorem upkSvcDescFree_overlaid_iff (m : Heap) (dest high : SvcObject) (h : Separate m dest high)
    (happ : dest.Appendable high) :
    ∃ m' dest' high', SvcObject.upkOverlaySvcconfValues m dest high = some (m', dest', high') ∧
      ((∃ x, upkSvcDescFree m' dest' = some x) ↔ dest.longDescription = none ∧
        ¬ (high.desc m).longDescription.Has ∧ ¬ FreesPipe (dest.desc m).scripts (high.desc m).scripts) := by
  obtain ⟨m', dest', high', hrun, hvalue, -, -, -, hseparate⟩ := SvcObject.upkOverlaySvcconfValues_desc h happ
  obtain ⟨hdest, hhigh⟩ := h.live
  obtain ⟨scripts, hscripts, hdesc⟩ := (upkOverlaySvcconfValues_ok hhigh.longDescription).mp hvalue
  have hread : charPtr m' dest'.longDescription = (high.desc m).longDescription.over (dest.desc m).longDescription :=
    congrArg SvcDesc.longDescription hdesc
  have hscript (f : ScriptField) : charPtr m' (dest'.scripts f) = scripts f :=
    congrFun (congrArg SvcDesc.scripts hdesc) f
  refine ⟨m', dest', high', hrun, ?_, ?_⟩
  · rintro ⟨x, hfree⟩
    obtain ⟨hlong, hlive⟩ := free_needs (h.sound_overlaid happ hrun) hfree
    rw [hlong] at hread
    have hhas : ¬ (high.desc m).longDescription.Has := by
      intro hhas
      rw [CharPtr.over, if_pos hhas] at hread
      rwa [← hread] at hhas
    rw [CharPtr.over, if_neg hhas] at hread
    refine ⟨(charPtr_eq_null m _).mp hread.symm, hhas, fun hpipe => ?_⟩
    obtain ⟨scripts', hscripts', hfreed⟩ := overlayScripts_conflict hhigh.scripts hdest.scripts hpipe
    obtain rfl := Except.ok.inj (hscripts.symm.trans hscripts')
    exact hlive .pipeStdoutScript ((hscript _).trans hfreed)
  · rintro ⟨hlong, hhas, hpipe⟩
    obtain rfl := Except.ok.inj ((overlayScripts_ok hhigh.scripts hdest.scripts hpipe).symm.trans hscripts)
    rw [CharPtr.over, if_neg hhas] at hread
    have hnull : dest'.longDescription = none := by
      refine (charPtr_eq_null m' _).mp (hread.trans ?_)
      exact (charPtr_eq_null m _).mpr hlong
    refine (hseparate fun f hfreed => ?_).free hnull
    have hover := (hscript f).symm.trans hfreed
    dsimp only at hover
    unfold CharPtr.over at hover
    split at hover
    · exact hhigh.scripts f hover
    · exact hdest.scripts f hover

/-- A `PipeStderrScript` overlaid on a `StartScript` -/
theorem upkSvcDescFree_overlaid_iff_startScript :
    ∃ m' dest' high',
      SvcObject.upkOverlaySvcconfValues twoTexts (oneScript .startScript 0) (oneScript .pipeStderrScript 1) =
        some (m', dest', high') ∧
      ((∃ x, upkSvcDescFree m' dest' = some x) ↔ (oneScript .startScript 0).longDescription = none ∧
        ¬ ((oneScript .pipeStderrScript 1).desc twoTexts).longDescription.Has ∧
        ¬ FreesPipe ((oneScript .startScript 0).desc twoTexts).scripts
          ((oneScript .pipeStderrScript 1).desc twoTexts).scripts) := by
  refine upkSvcDescFree_overlaid_iff _ _ _ (separate_oneScript .startScript .pipeStderrScript)
    ⟨fun h hh => ?_, fun h hh => ?_⟩
  · exact nomatch hh
  · exact nomatch hh

end Overlaid

end Upkeeper
