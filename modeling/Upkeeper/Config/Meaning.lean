import Upkeeper.Config.Balance
/-!
# What a configuration file means

In a file that fits, an entry changes the service or the configuration that it stands in, and nothing else. The walk of
such a file applies its entries one after another.
-/

namespace Upkeeper

/-! ### The meaning of an entry -/

/-- An element of `Provides` or `Prerequisites` -/
def applySvcid (l : SvcidField) (d : SvcDesc) : Json → SvcDesc
  | .string s => upkSvcconfSvcidArrayAppender l s d
  | _ => d

/-- An entry of `CustomActions` -/
def applyCustomAction (d : SvcDesc) : CStr × Json → SvcDesc
  | (key, .string s) => upkSvcconfCustomactionArrayAppender key s d
  | _ => d

section Passwd

variable (passwd : CStr → Option (UInt32 × UInt32))

/-- An entry of a service -/
def applyServiceEntry (d : SvcDesc) : CStr × Json → SvcDesc
  | (key, .bool b) => upkSvcconfBoolHandler key b d
  | (key, .int i) => upkSvcconfIntHandler key i d
  | (key, .string s) => (upkSvcconfStringHandler passwd key s).toOption.elim d (· d)
  | (key, .array vs) =>
    (matchKey svcidKeys key).elim d fun l => vs.foldl (applySvcid l) (d.modifySvcids l fun ids => some (ids.getD []))
  | (key, .object es) =>
    if key.strcasecmpEq (cstr "CustomActions") then
      es.foldl applyCustomAction { d with customActions := some (d.customActions.getD []) }
    else d
  | _ => d

/-- The entries of a service -/
def applyService (es : List (CStr × Json)) (d : SvcDesc) : SvcDesc := es.foldl (applyServiceEntry passwd) d

/-- An entry of a file of the controller -/
def applyCtrlEntry (cfg : ControllerConfig) : CStr × Json → ControllerConfig
  | (key, .double dbl) => (upkCtrlconfDoubleHandler key dbl).toOption.elim cfg (· cfg)
  | (key, .int i) => (upkCtrlconfIntHandler key i).toOption.elim cfg (· cfg)
  | (key, .string s) => (upkCtrlconfStringHandler key s).toOption.elim cfg (· cfg)
  | (key, .object es) =>
    if key.strcasecmpEq (cstr "ServiceDefaults") then
      cfg.modifySvc .serviceDefaults fun d => applyService passwd es (upkParseSvcId key d)
    else cfg
  | _ => cfg

/-- An entry of a file of services: a service is added. -/
def applySvcconfEntry (cfg : ControllerConfig) : CStr × Json → ControllerConfig
  | (key, .object es) => { cfg with
      svclist := some (cfg.svclist.getD [] ++ [applyService passwd es (upkParseSvcId key upkSvcDescClear)]) }
  | _ => cfg

/-- A file of services -/
def applySvcconf (cfg : ControllerConfig) : Json → ControllerConfig
  | .object es => es.foldl (applySvcconfEntry passwd) cfg
  | _ => cfg

/-- A file of the controller -/
def applyCtrlconf (cfg : ControllerConfig) : Json → ControllerConfig
  | .object es => es.foldl (applyCtrlEntry passwd) cfg
  | _ => cfg

end Passwd

theorem applyServiceEntry_keeps {passwd : CStr → Option (UInt32 × UInt32)} {P : SvcDesc → Prop}
    (hbool : ∀ key b d, P d → P (upkSvcconfBoolHandler key b d))
    (hint : ∀ key i d, P d → P (upkSvcconfIntHandler key i d))
    (hstring : ∀ key s f d, upkSvcconfStringHandler passwd key s = .ok f → P d → P (f d))
    (hids : ∀ l f d, P d → P (d.modifySvcids l f))
    (hactions : ∀ (actions : Option (List CustActscr)) (d : SvcDesc), P d → P { d with customActions := actions })
    {d : SvcDesc} (h : P d) (e : CStr × Json) : P (applyServiceEntry passwd d e) := by
  obtain ⟨key, v⟩ := e
  cases v with
  | null | double => exact h
  | bool b => exact hbool key b d h
  | int i => exact hint key i d h
  | string s =>
    simp only [applyServiceEntry]
    cases hf : upkSvcconfStringHandler passwd key s with
    | error => exact h
    | ok f => exact hstring key s f d hf h
  | array vs =>
    simp only [applyServiceEntry]
    cases matchKey svcidKeys key with
    | none => exact h
    | some l =>
      refine List.foldlRecOn vs (applySvcid l) (hids l _ d h) fun d hd v _ => ?_
      cases v with
      | string s => exact hids l _ d hd
      | _ => exact hd
  | object es =>
    simp only [applyServiceEntry]
    split
    · refine List.foldlRecOn es applyCustomAction (hactions _ d h) fun d hd e _ => ?_
      obtain ⟨key, v⟩ := e
      cases v with
      | string s => exact hactions _ d hd
      | _ => exact hd
    · exact h

/-! ### The walk applies the entries -/

namespace ControllerConfig

variable {t : SvcTarget} {f g : SvcDesc → SvcDesc}

@[simp] theorem modifySvc_id (cfg : ControllerConfig) : cfg.modifySvc t id = cfg := by
  cases t with
  | serviceDefaults => rfl
  | svclist i => simp [modifySvc]

@[simp] theorem modifySvc_modifySvc (cfg : ControllerConfig) :
    (cfg.modifySvc t f).modifySvc t g = cfg.modifySvc t (g ∘ f) := by
  cases t with
  | serviceDefaults => rfl
  | svclist i => simp [modifySvc, Function.comp_def, List.modify_modify_eq]

end ControllerConfig

variable {passwd : CStr → Option (UInt32 × UInt32)} {t : SvcTarget} {l : SvcidField} {rest : List ConfNode}
  {w : ControllerConfig}

theorem ok_unchanged (stack : List ConfNode) (w : ControllerConfig) :
    (Except.ok ⟨stack, w⟩ : Except Stop ConfMeta) = .ok ⟨stack, w.modifySvc t id⟩ := by
  rw [ControllerConfig.modifySvc_id]

theorem parseArray_eq {node : ConfNode} {step : SvcDesc → Json → SvcDesc} {vs : List Json}
    (h : ∀ v ∈ vs, ∀ w, upkJsonParseNode (confCalls passwd) none v ⟨node :: rest, w⟩ =
      .ok ⟨node :: rest, w.modifySvc t (step · v)⟩) (w : ControllerConfig) :
    upkJsonParseArray (confCalls passwd) vs ⟨node :: rest, w⟩ =
      .ok ⟨node :: rest, w.modifySvc t (vs.foldl step)⟩ := by
  induction vs generalizing w with
  | nil => exact ok_unchanged _ w
  | cons v vs ih =>
    rw [upkJsonParseArray, h v (by simp)]
    refine (ih (fun v hv => h v (by simp [hv])) _).trans ?_
    rw [ControllerConfig.modifySvc_modifySvc]
    rfl

theorem parseObj_eq {node : ConfNode} {step : SvcDesc → CStr × Json → SvcDesc} {es : List (CStr × Json)}
    (h : ∀ e ∈ es, ∀ w, upkJsonParseEntry (confCalls passwd) e ⟨node :: rest, w⟩ =
      .ok ⟨node :: rest, w.modifySvc t (step · e)⟩) (w : ControllerConfig) :
    upkJsonParseObj (confCalls passwd) es ⟨node :: rest, w⟩ =
      .ok ⟨node :: rest, w.modifySvc t (es.foldl step)⟩ := by
  induction es generalizing w with
  | nil => exact ok_unchanged _ w
  | cons e es ih =>
    rw [upkJsonParseObj, h e (by simp)]
    refine (ih (fun e he => h e (by simp [he])) _).trans ?_
    rw [ControllerConfig.modifySvc_modifySvc]
    rfl

theorem parseNode_svcid {key : Option CStr} {v : Json} (hv : v.isScalar) (w : ControllerConfig) :
    upkJsonParseNode (confCalls passwd) key v ⟨svcidsNode t l :: rest, w⟩ =
      .ok ⟨svcidsNode t l :: rest, w.modifySvc t (applySvcid l · v)⟩ := by
  cases v with
  | array | object => simp [Json.isScalar] at hv
  | string s => rfl
  | _ => exact ok_unchanged _ w

theorem parseEntry_customAction {e : CStr × Json} (he : e.2.isScalar) (w : ControllerConfig) :
    upkJsonParseEntry (confCalls passwd) e ⟨customActionsNode t :: rest, w⟩ =
      .ok ⟨customActionsNode t :: rest, w.modifySvc t (applyCustomAction · e)⟩ := by
  obtain ⟨key, v⟩ := e
  cases v with
  | array | object => simp [Json.isScalar] at he
  | string s => rfl
  | _ => exact ok_unchanged _ w

theorem container_eq {value : Except Stop ConfMeta} {children : ConfMeta → Except Stop ConfMeta} {node top : ConfNode}
    {handler : Handlers ConfHandler → Option ConfHandler} {key : Option CStr} {v : Json} {w w' : ControllerConfig}
    (hvalue : value = .ok ⟨node :: top :: rest, w⟩)
    (hchildren : children ⟨node :: top :: rest, w⟩ = .ok ⟨node :: top :: rest, w'⟩) (hnone : handler top.handlers = none) :
    container (confCalls passwd) value children handler key v = .ok ⟨top :: rest, w'⟩ := by
  subst hvalue
  show (children _ >>= fun m => callTop (confCalls passwd) handler key v m.pop) = _
  rw [hchildren]
  show callTop (confCalls passwd) handler key v ⟨top :: rest, w'⟩ = _
  rw [callTop_cons rfl, hnone]

theorem parseEntry_service {e : CStr × Json} (he : serviceEntryFits e) (w : ControllerConfig) :
    upkJsonParseEntry (confCalls passwd) e ⟨serviceNode t :: rest, w⟩ =
      .ok ⟨serviceNode t :: rest, w.modifySvc t (applyServiceEntry passwd · e)⟩ := by
  obtain ⟨key, v⟩ := e
  cases v with
  | null | double => exact ok_unchanged _ w
  | bool | int => rfl
  | string s =>
    obtain ⟨f, hf⟩ : ∃ f, upkSvcconfStringHandler passwd key s = .ok f := by
      apply upkSvcconfStringHandler_ok
      intro hkey
      simpa [serviceEntryFits, hkey] using he
    show (upkSvcconfStringHandler passwd key s >>= fun f => .ok (ConfMeta.modifySvc t f _)) = _
    simp only [applyServiceEntry, hf]
    rfl
  | array vs =>
    simp only [serviceEntryFits, Bool.and_eq_true, List.all_eq_true] at he
    obtain ⟨l, hl⟩ := Option.isSome_iff_exists.mp he.1
    have hvalue : upkJsonValue (confCalls passwd) (some key) (.array vs) ⟨serviceNode t :: rest, w⟩ =
        .ok ⟨svcidsNode t l :: serviceNode t :: rest,
          w.modifySvc t (·.modifySvcids l fun ids => some (ids.getD []))⟩ := by
      show Except.ok (upkSvcconfArrayHandler t key _) = _
      rw [upkSvcconfArrayHandler, hl]
      rfl
    refine (container_eq hvalue (parseArray_eq (fun v hv => parseNode_svcid (he.2 v hv)) _) rfl).trans ?_
    rw [ControllerConfig.modifySvc_modifySvc]
    simp only [applyServiceEntry, hl]
    rfl
  | object es =>
    simp only [serviceEntryFits, Bool.and_eq_true, List.all_eq_true] at he
    have hvalue : upkJsonValue (confCalls passwd) (some key) (.object es) ⟨serviceNode t :: rest, w⟩ =
        .ok ⟨customActionsNode t :: serviceNode t :: rest,
          w.modifySvc t fun d => { d with customActions := some (d.customActions.getD []) }⟩ := by
      show Except.ok (upkSvcconfNestedObjectHandler t key _) = _
      rw [upkSvcconfNestedObjectHandler, if_pos he.1]
      rfl
    refine (container_eq hvalue (parseObj_eq (fun e he' => parseEntry_customAction (he.2 e he')) _) rfl).trans ?_
    rw [ControllerConfig.modifySvc_modifySvc]
    simp only [applyServiceEntry, he.1]
    rfl

/-- **The entries of a service are applied to it.** -/
theorem parseObj_service {es : List (CStr × Json)} (h : es.all serviceEntryFits) (w : ControllerConfig) :
    upkJsonParseObj (confCalls passwd) es ⟨serviceNode t :: rest, w⟩ =
      .ok ⟨serviceNode t :: rest, w.modifySvc t (applyService passwd es)⟩ :=
  parseObj_eq (fun e he => parseEntry_service (List.all_eq_true.mp h e he)) w

theorem Outcome.unpushed_ne_kept (o : Outcome) : o.unpushed ≠ .kept := by
  cases o <;> simp [unpushed]

theorem Outcome.keptIf_eq_kept {b : Bool} (h : keptIf b = .kept) : b = true := by
  cases b with
  | false => simp [keptIf] at h
  | true => rfl

theorem Outcome.andThen_eq_kept {o o' : Outcome} (h : o.andThen o' = .kept) : o = .kept ∧ o' = .kept := by
  cases o with
  | kept => exact ⟨rfl, h⟩
  | _ => simp [andThen] at h

theorem parseEntry_ctrl {e : CStr × Json} (he : ctrlEntryOutcome e = .kept) (w : ControllerConfig) :
    upkJsonParseEntry (confCalls passwd) e ⟨ctrlNode :: rest, w⟩ =
      .ok ⟨ctrlNode :: rest, applyCtrlEntry passwd w e⟩ := by
  obtain ⟨key, v⟩ := e
  simp only [ctrlEntryOutcome] at he
  cases v with
  | null | bool => rfl
  | array => simp [ctrlValueOutcome] at he
  | double dbl =>
    obtain ⟨f, hf⟩ : ∃ f, upkCtrlconfDoubleHandler key dbl = .ok f := by
      simp only [ctrlValueOutcome] at he
      unfold upkCtrlconfDoubleHandler
      split at he
      next hkey => exact ⟨_, if_pos hkey⟩
      next => simp at he
    show (upkCtrlconfDoubleHandler key dbl >>= fun f => .ok (ConfMeta.modifyCfg f _)) = _
    simp only [applyCtrlEntry, hf]
    rfl
  | int i =>
    obtain ⟨f, hf⟩ : ∃ f, upkCtrlconfIntHandler key i = .ok f := by
      simp only [ctrlValueOutcome] at he
      unfold upkCtrlconfIntHandler
      cases hkey : matchKey ctrlIntKeys key with
      | none => simp [hkey] at he
      | some k => cases k <;> exact ⟨_, rfl⟩
    show (upkCtrlconfIntHandler key i >>= fun f => .ok (ConfMeta.modifyCfg f _)) = _
    simp only [applyCtrlEntry, hf]
    rfl
  | string s =>
    obtain ⟨f, hf⟩ : ∃ f, upkCtrlconfStringHandler key s = .ok f := by
      simp only [ctrlValueOutcome] at he
      unfold upkCtrlconfStringHandler
      cases hkey : matchKey ctrlStringKeys key with
      | none => simp [hkey] at he
      | some f => exact ⟨_, rfl⟩
    show (upkCtrlconfStringHandler key s >>= fun f => .ok (ConfMeta.modifyCfg f _)) = _
    simp only [applyCtrlEntry, hf]
    rfl
  | object es =>
    simp only [ctrlValueOutcome] at he
    split at he
    next hkey =>
      have hvalue : upkJsonValue (confCalls passwd) (some key) (.object es) ⟨ctrlNode :: rest, w⟩ =
          .ok ⟨serviceNode .serviceDefaults :: ctrlNode :: rest,
            w.modifySvc .serviceDefaults (upkParseSvcId key)⟩ := by
        show Except.ok (upkCtrlconfObjectHandler key _) = _
        rw [upkCtrlconfObjectHandler, if_pos hkey]
        rfl
      refine (container_eq hvalue (parseObj_service (Outcome.keptIf_eq_kept he) _) rfl).trans ?_
      rw [ControllerConfig.modifySvc_modifySvc]
      simp only [applyCtrlEntry, hkey]
      rfl
    next => exact absurd he (Outcome.unpushed_ne_kept _)

theorem parseObj_ctrl {es : List (CStr × Json)} (h : ctrlEntriesOutcome es = .kept) (w : ControllerConfig) :
    upkJsonParseObj (confCalls passwd) es ⟨ctrlNode :: rest, w⟩ =
      .ok ⟨ctrlNode :: rest, es.foldl (applyCtrlEntry passwd) w⟩ := by
  induction es generalizing w with
  | nil => rfl
  | cons e es ih =>
    rw [ctrlEntriesOutcome] at h
    have hsplit := Outcome.andThen_eq_kept h
    rw [upkJsonParseObj, parseEntry_ctrl hsplit.1]
    exact ih hsplit.2 _

/-- **A file of the controller that fits is applied to the configuration.** -/
theorem upkCtrlconfPack_eq {doc : Json} (h : ctrlconfOutcome doc = .kept) (cfg : ControllerConfig) :
    upkCtrlconfPack passwd cfg (some doc) = .ok (applyCtrlconf passwd cfg doc) := by
  cases doc with
  | object es =>
    have hparse : upkJsonParseNode (confCalls passwd) none (.object es) ⟨[ctrlconfInitNode], cfg⟩ =
        .ok ⟨[ctrlconfInitNode], es.foldl (applyCtrlEntry passwd) cfg⟩ :=
      container_eq rfl (parseObj_ctrl h cfg) rfl
    rw [upkCtrlconfPack, hparse]
    rfl
  | array vs => exact absurd h (Outcome.unpushed_ne_kept _)
  | _ => rfl

theorem modifySvc_last (cfg : ControllerConfig) (svcs : List SvcDesc) (svc : SvcDesc) (f : SvcDesc → SvcDesc) :
    ({ cfg with svclist := some (svcs ++ [svc]) } : ControllerConfig).modifySvc (.svclist svcs.length) f =
      { cfg with svclist := some (svcs ++ [f svc]) } := by
  simp [ControllerConfig.modifySvc, List.modify_eq_take_cons_drop]

theorem parseEntry_svcconf {e : CStr × Json} (he : svcconfEntryFits e) (w : ControllerConfig) :
    upkJsonParseEntry (confCalls passwd) e ⟨svcNode :: rest, w⟩ =
      .ok ⟨svcNode :: rest, applySvcconfEntry passwd w e⟩ := by
  obtain ⟨key, v⟩ := e
  cases v with
  | array => simp [svcconfEntryFits] at he
  | object es =>
    refine (container_eq (w := { w with svclist := some (w.svclist.getD [] ++ [upkParseSvcId key upkSvcDescClear]) })
      rfl (parseObj_service (t := .svclist (w.svclist.getD []).length) he _) rfl).trans ?_
    rw [modifySvc_last]
    rfl
  | _ => rfl

theorem parseObj_svcconf {es : List (CStr × Json)} (h : es.all svcconfEntryFits) (w : ControllerConfig) :
    upkJsonParseObj (confCalls passwd) es ⟨svcNode :: rest, w⟩ =
      .ok ⟨svcNode :: rest, es.foldl (applySvcconfEntry passwd) w⟩ := by
  induction es generalizing w with
  | nil => rfl
  | cons e es ih =>
    rw [List.all_cons, Bool.and_eq_true] at h
    rw [upkJsonParseObj, parseEntry_svcconf h.1]
    exact ih h.2 _

/-- **A file of services that fits is applied to the configuration.** -/
theorem upkSvcconfPack_eq {doc : Json} (h : svcconfFits doc) (cfg : ControllerConfig) :
    upkSvcconfPack passwd cfg (some doc) = .ok (applySvcconf passwd cfg doc) := by
  cases doc with
  | object es =>
    have hparse : upkJsonParseNode (confCalls passwd) none (.object es) ⟨[svcconfInitNode], cfg⟩ =
        .ok ⟨[svcconfInitNode], es.foldl (applySvcconfEntry passwd) cfg⟩ :=
      container_eq rfl (parseObj_svcconf h cfg) rfl
    rw [upkSvcconfPack, hparse]
    rfl
  | array vs => cases h
  | _ => rfl

/-! ### What is accepted fits

No array and no object puts more on the stack than it takes from it. A walk that has lost the stack ends with fewer
nodes than it started with, and there was one only.
-/

/-- A stack of nodes of the configuration -/
def Owned (stack : List ConfNode) : Prop := stack ≠ [] ∧ ∀ node ∈ stack, ∃ o : Owner, o.Has node

namespace Owned

variable {stack : List ConfNode}

theorem noPopHandlers (h : Owned stack) : NoPopHandlers stack := by
  intro node hnode
  obtain ⟨o, ho⟩ := h.2 node hnode
  exact ho.noPopHandlers

theorem onTop (h : Owned stack) : ∃ o : Owner, o.OnTop stack := by
  cases stack with
  | nil => exact absurd rfl h.1
  | cons node rest =>
    obtain ⟨o, ho⟩ := h.2 node (by simp)
    exact ⟨o, ⟨node, rest, rfl, ho⟩, h.noPopHandlers⟩

theorem push {o : Owner} {node : ConfNode} (h : Owned stack) (hnode : o.Has node) : Owned (node :: stack) := by
  refine ⟨by simp, ?_⟩
  intro n hn
  rcases List.mem_cons.mp hn with rfl | hn
  · exact ⟨o, hnode⟩
  · exact h.2 n hn

end Owned

/-- A walk with the outcome has come from `m` to `m'`. -/
structure Descends (o : Outcome) (m m' : ConfMeta) : Prop where
  owned : Owned m'.stack
  le : m'.stack.length ≤ m.stack.length
  lt : o = .lost → m'.stack.length < m.stack.length

namespace Descends

variable {m m₁ m' : ConfMeta} {o o' : Outcome}

theorem andThen {o'' : Outcome} (head : Descends o m m₁) (tail : Descends o'' m₁ m') (hkept : o = .kept → o'' = o') :
    Descends (o.andThen o') m m' := by
  refine ⟨tail.owned, tail.le.trans head.le, ?_⟩
  intro hlost
  cases o with
  | kept =>
    obtain rfl := hkept rfl
    exact (tail.lt hlost).trans_le head.le
  | exits => simp [Outcome.andThen] at hlost
  | lost => exact tail.le.trans_lt (head.lt rfl)

theorem pop {handler : Handlers ConfHandler → Option ConfHandler} {key : Option CStr} {v : Json}
    (howned : Owned m₁.stack) (hnone : ∀ node ∈ m₁.stack, handler node.handlers = none)
    (h : callTop (confCalls passwd) handler key v m₁.pop = .ok m') :
    Owned m'.stack ∧ m'.stack.length + 1 = m₁.stack.length := by
  have hpopped : ∀ node ∈ m₁.pop.stack, handler node.handlers = none :=
    fun node hnode => hnone node (List.mem_of_mem_tail hnode)
  obtain ⟨hne, hcall⟩ | ⟨-, hcall⟩ := callTop_noHandler (confCalls passwd) key v hpopped
  · rw [hcall] at h
    obtain rfl := Except.ok.inj h
    refine ⟨⟨hne, fun node hnode => howned.2 node (List.mem_of_mem_tail hnode)⟩, ?_⟩
    show m₁.stack.tail.length + 1 = _
    have hpos := List.length_pos_iff.mpr howned.1
    rw [List.length_tail]
    omega
  · rw [hcall] at h
    exact nomatch h

variable {owner : Owner}

theorem scalar (h : owner.OnTop m.stack) (howned : Owned m.stack) {key : Option CStr} {v : Json} (hv : v.isScalar)
    (hwalked : upkJsonValue (confCalls passwd) key v m = .ok m') : Descends (owner.receives key v).ends m m' := by
  have hreceived := h.received passwd key v
  rw [hwalked] at hreceived
  cases hr : owner.receives key v with
  | keeps =>
    rw [hr] at hreceived
    obtain ⟨w, hw⟩ := hreceived
    obtain rfl := Except.ok.inj hw
    exact ⟨howned, le_rfl, fun hlost => nomatch hlost⟩
  | pushes o' => exact absurd hr (receives_scalar hv)
  | exits =>
    rw [hr] at hreceived
    exact nomatch hreceived
  | faults =>
    rw [hr] at hreceived
    obtain ⟨f, hf⟩ := hreceived
    exact nomatch hf

theorem container (h : owner.OnTop m.stack) (howned : Owned m.stack) {key : Option CStr} {v : Json}
    {handler : Handlers ConfHandler → Option ConfHandler}
    (hnone : ∀ stack : List ConfNode, Owned stack → ∀ node ∈ stack, handler node.handlers = none)
    {childrenOutcome : Owner → Outcome} {children : ConfMeta → Except Stop ConfMeta}
    (ih : ∀ (o' : Owner) m m', o'.OnTop m.stack → Owned m.stack → children m = .ok m' →
      Descends (childrenOutcome o') m m')
    (hwalked : Upkeeper.container (confCalls passwd) (upkJsonValue (confCalls passwd) key v m) children handler key v =
      .ok m') :
    Descends ((owner.receives key v).around owner childrenOutcome) m m' := by
  obtain ⟨m₁, hvalue, hwalked⟩ := Wire.bind_eq_ok.mp hwalked
  obtain ⟨m₂, hchildren, hend⟩ := Wire.bind_eq_ok.mp hwalked
  have hreceived := h.received passwd key v
  rw [hvalue] at hreceived
  cases hr : owner.receives key v with
  | keeps =>
    rw [hr] at hreceived
    obtain ⟨w, hw⟩ := hreceived
    obtain rfl := Except.ok.inj hw
    have hdescends := ih owner ⟨m.stack, w⟩ m₂ h howned hchildren
    have hpop := pop hdescends.owned (hnone _ hdescends.owned) hend
    have hle : m₂.stack.length ≤ m.stack.length := hdescends.le
    exact ⟨hpop.1, by omega, fun _ => by omega⟩
  | pushes o' =>
    rw [hr] at hreceived
    obtain ⟨node, w, hnode, hw⟩ := hreceived
    obtain rfl := Except.ok.inj hw
    have hdescends := ih o' _ _ (h.push hnode) (howned.push hnode) hchildren
    have hpop := pop hdescends.owned (hnone _ hdescends.owned) hend
    have hle : m₂.stack.length ≤ m.stack.length + 1 := hdescends.le
    refine ⟨hpop.1, by omega, fun hlost => ?_⟩
    have hlt : m₂.stack.length < m.stack.length + 1 := hdescends.lt hlost
    omega
  | exits =>
    rw [hr] at hreceived
    exact nomatch hreceived
  | faults =>
    rw [hr] at hreceived
    obtain ⟨f, hf⟩ := hreceived
    exact nomatch hf

end Descends

theorem next_owner {o : Owner} {outcome : Outcome} {keeps : Prop} {m m₁ : ConfMeta} (h : o.OnTop m.stack)
    (hspec : outcome.Describes m keeps (.ok m₁)) (howned : Owned m₁.stack) :
    ∃ o₁ : Owner, o₁.OnTop m₁.stack ∧ (outcome = .kept → o₁ = o) := by
  cases outcome with
  | kept =>
    obtain ⟨-, w, hw⟩ := hspec
    obtain rfl := Except.ok.inj hw
    exact ⟨o, h, fun _ => rfl⟩
  | exits => exact nomatch hspec.2
  | lost =>
    obtain ⟨o₁, ho₁⟩ := howned.onTop
    exact ⟨o₁, ho₁, fun hlost => nomatch hlost⟩

section

variable (passwd)

mutual

theorem descends_node : ∀ (o : Owner) (key : Option CStr) (v : Json) (m m' : ConfMeta), o.OnTop m.stack → Owned m.stack →
    upkJsonParseNode (confCalls passwd) key v m = .ok m' → Descends (outcome o key v) m m'
  | _, _, .object es, _, _, h, howned, hwalked =>
    Descends.container h howned (fun _ hs node hnode => (hs.noPopHandlers node hnode).1)
      (fun o' m m' => descends_obj o' es m m') hwalked
  | _, _, .array vs, _, _, h, howned, hwalked =>
    Descends.container h howned (fun _ hs node hnode => (hs.noPopHandlers node hnode).2)
      (fun o' m m' => descends_array o' vs m m') hwalked
  | _, _, .null, _, _, h, howned, hwalked => Descends.scalar h howned rfl hwalked
  | _, _, .bool _, _, _, h, howned, hwalked => Descends.scalar h howned rfl hwalked
  | _, _, .double _, _, _, h, howned, hwalked => Descends.scalar h howned rfl hwalked
  | _, _, .int _, _, _, h, howned, hwalked => Descends.scalar h howned rfl hwalked
  | _, _, .string _, _, _, h, howned, hwalked => Descends.scalar h howned rfl hwalked

theorem descends_array : ∀ (o : Owner) (vs : List Json) (m m' : ConfMeta), o.OnTop m.stack → Owned m.stack →
    upkJsonParseArray (confCalls passwd) vs m = .ok m' → Descends (arrayOutcome o vs) m m'
  | _, [], _, _, _, howned, hwalked => by
    obtain rfl := Except.ok.inj hwalked
    exact ⟨howned, le_rfl, fun hlost => nomatch hlost⟩
  | o, v :: vs, m, m', h, howned, hwalked => by
    obtain ⟨m₁, hhead, htail⟩ := Wire.bind_eq_ok.mp hwalked
    have hdescends := descends_node o none v m m₁ h howned hhead
    obtain ⟨o₁, ho₁, hkept⟩ := next_owner h (hhead ▸ outcome_spec passwd o none v m h) hdescends.owned
    exact hdescends.andThen (descends_array o₁ vs m₁ m' ho₁ hdescends.owned htail) fun hk => hkept hk ▸ rfl

theorem descends_obj : ∀ (o : Owner) (es : List (CStr × Json)) (m m' : ConfMeta), o.OnTop m.stack → Owned m.stack →
    upkJsonParseObj (confCalls passwd) es m = .ok m' → Descends (objOutcome o es) m m'
  | _, [], _, _, _, howned, hwalked => by
    obtain rfl := Except.ok.inj hwalked
    exact ⟨howned, le_rfl, fun hlost => nomatch hlost⟩
  | o, e :: es, m, m', h, howned, hwalked => by
    obtain ⟨m₁, hhead, htail⟩ := Wire.bind_eq_ok.mp hwalked
    have hdescends := descends_entry o e m m₁ h howned hhead
    obtain ⟨o₁, ho₁, hkept⟩ := next_owner h (hhead ▸ entryOutcome_spec passwd o e m h) hdescends.owned
    exact hdescends.andThen (descends_obj o₁ es m₁ m' ho₁ hdescends.owned htail) fun hk => hkept hk ▸ rfl

theorem descends_entry : ∀ (o : Owner) (e : CStr × Json) (m m' : ConfMeta), o.OnTop m.stack → Owned m.stack →
    upkJsonParseEntry (confCalls passwd) e m = .ok m' → Descends (entryOutcome o e) m m'
  | o, (key, v), m, m', h, howned, hwalked => descends_node o (some key) v m m' h howned hwalked

end

end

/-- **A file of the controller that is accepted fits.** -/
theorem kept_of_upkCtrlconfPack {cfg cfg' : ControllerConfig} {doc : Json}
    (h : upkCtrlconfPack passwd cfg (some doc) = .ok cfg') : ctrlconfOutcome doc = .kept := by
  obtain ⟨m', hwalked, -⟩ := Wire.bind_eq_ok.mp h
  have howned : Owned [ctrlconfInitNode] :=
    ⟨by simp, fun node hnode => ⟨.ctrlconfInit, List.mem_singleton.mp hnode⟩⟩
  have htop : Owner.ctrlconfInit.OnTop [ctrlconfInitNode] := onTop_start rfl
  have hspec := outcome_spec passwd .ctrlconfInit none doc ⟨[ctrlconfInitNode], cfg⟩ htop
  have hdescends := descends_node passwd .ctrlconfInit none doc ⟨[ctrlconfInitNode], cfg⟩ m' htop howned hwalked
  rw [hwalked, outcome_ctrlconfInit] at hspec
  rw [outcome_ctrlconfInit] at hdescends
  cases houtcome : ctrlconfOutcome doc with
  | kept => rfl
  | exits =>
    rw [houtcome] at hspec
    exact nomatch hspec.2
  | lost =>
    have hlt : m'.stack.length < 1 := hdescends.lt houtcome
    have hpos := List.length_pos_iff.mpr hdescends.owned.1
    omega

end Upkeeper
