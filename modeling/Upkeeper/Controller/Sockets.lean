import Upkeeper.Controller.Actions
import Upkeeper.Library.Machine
/-!
# Creating buddies (`ctrl_buddy.c`: `buddy_sock_path`, `create_buddy`)

`create_buddy` spawns a buddy unless `stat` finds a socket at its path. The result of `stat` is not checked, and its buffer
is static: when it fails, the decision is about the file that it found last. So no call depends on an earlier one exactly
when each `stat` that fails comes after one that did not find a socket (`createBuddy_independent_iff`).
-/

namespace Upkeeper

/-- `S_ISSOCK`: `S_IFMT` and `S_IFSOCK` -/
def sIsSock (mode : UInt32) : Bool := mode &&& 0xF000 == 0xC000

/-- `buddy_sock_path` of any `SvcRunPath`, if the path fits into `pathbuf` -/
def buddySockPathbuf (svcRunPath : CharBuf upkMaxPathLen) (name : CharBuf upkMaxStringLen) : Option CStr :=
  let path := CStr.concat [svcRunPath.toCStr, cstr "/", name.toCStr, cstr "/buddy.sock"]
  if path.chars.length < upkMaxPathLen then some path else none

theorem buddySockPathbuf_eq (b : Buddies) (buddy : SvcDesc) :
    buddySockPathbuf ⟨b.svcRunPath.toCStr, b.svcRunPath.fits.trans (by decide)⟩ buddy.name =
      some (buddySockPath b buddy).toCStr := by
  have hpath : CStr.concat [b.svcRunPath.toCStr, cstr "/", buddy.name.toCStr, cstr "/buddy.sock"] =
      (buddySockPath b buddy).toCStr := by
    refine CStr.ext ?_
    simp only [CStr.concat_chars, List.flatMap_cons, List.flatMap_nil, List.append_nil, buddySockPath, CStr.append,
      List.append_assoc]
  unfold buddySockPathbuf
  dsimp only
  rw [hpath, if_pos (buddySockPath b buddy).fits]

/-- A call of `create_buddy`: the configured directory, the service, and what `stat` would find at each path -/
structure CreateBuddyCall where
  svcRunPath : CharBuf upkMaxPathLen
  name : CharBuf upkMaxStringLen
  stat : CStr → Option UInt32

/-- The `st_mode` of the static buffer, and whether each call so far went on to `create_buddy_statedir` and `spawn_buddy`,
latest first -/
structure Creator where
  stMode : UInt32
  calls : List (CreateBuddyCall × Bool)

namespace Creator

/-- Before the first call -/
def init : Creator := ⟨0, []⟩

/-- `create_buddy` -/
def createBuddy (s : Creator) (c : CreateBuddyCall) : Option Creator := do
  let path ← buddySockPathbuf c.svcRunPath c.name
  -- a `stat` that fails leaves the buffer as it was
  let stMode := (c.stat path).getD s.stMode
  some ⟨stMode, (c, !sIsSock stMode) :: s.calls⟩

end Creator

/-- A socket exists at the path of the service. -/
def CreateBuddyCall.SocketExists (c : CreateBuddyCall) : Prop :=
  ∃ path ∈ buddySockPathbuf c.svcRunPath c.name, ∃ mode ∈ c.stat path, sIsSock mode = true

/-- Each call went on exactly when no socket existed at the path of its service. -/
def Creator.Independent (s : Creator) : Prop := ∀ c created, (c, created) ∈ s.calls → (created = true ↔ ¬ c.SocketExists)

/-- The path fits, and if `stat` fails, the file that it found last was no socket. -/
def Creator.Unmisled (s : Creator) (c : CreateBuddyCall) : Prop :=
  match buddySockPathbuf c.svcRunPath c.name with
  | none => False
  | some path => c.stat path = none → sIsSock s.stMode = false

instance (s : Creator) (c : CreateBuddyCall) : Decidable (s.Unmisled c) := by
  unfold Creator.Unmisled
  split <;> infer_instance

namespace Creator

variable {s s' : Creator} {c : CreateBuddyCall}

theorem createBuddy_eq {path : CStr} (hpath : buddySockPathbuf c.svcRunPath c.name = some path) :
    createBuddy s c = some ⟨(c.stat path).getD s.stMode, (c, !sIsSock ((c.stat path).getD s.stMode)) :: s.calls⟩ := by
  unfold createBuddy
  rw [hpath]
  rfl

/-- **Step lemma:** the decision is the right one exactly when it is not misled. -/
theorem createBuddy_decision {path : CStr} (hpath : buddySockPathbuf c.svcRunPath c.name = some path) :
    ((!sIsSock ((c.stat path).getD s.stMode)) = true ↔ ¬ c.SocketExists) ↔
      (c.stat path = none → sIsSock s.stMode = false) := by
  have hexists : c.SocketExists ↔ ∃ mode ∈ c.stat path, sIsSock mode = true := by
    unfold CreateBuddyCall.SocketExists
    rw [hpath]
    simp
  rw [hexists]
  cases c.stat path with
  | none => simp
  | some mode => simp

theorem Independent.of_cons {calls : List (CreateBuddyCall × Bool)} {mode mode' : UInt32} {created : Bool}
    (h : Independent ⟨mode, calls⟩) (hc : created = true ↔ ¬ c.SocketExists) :
    Independent ⟨mode', (c, created) :: calls⟩ := by
  intro c' created' hmem
  rcases List.mem_cons.mp hmem with heq | hmem
  · obtain ⟨rfl, rfl⟩ := Prod.mk.inj heq
    exact hc
  · exact h c' created' hmem

end Creator

/-- **Buddy creation does not depend on earlier calls** exactly in the runs in which each path fits and each `stat` that
fails comes after one that did not find a socket. -/
theorem createBuddy_independent_iff (calls : List CreateBuddyCall) :
    Machine.Safe Creator.createBuddy Creator.Independent Creator.init calls ↔
      Machine.Guarded Creator.createBuddy Creator.Unmisled Creator.init calls := by
  refine Machine.safe_iff_guarded (fun s c s' _ hrun h => ?_) (fun s c h hunmisled => ?_) nofun
  · obtain ⟨path, hpath, hs'⟩ := Option.bind_eq_some_iff.mp hrun
    obtain rfl := Option.some.inj hs'
    unfold Creator.Unmisled
    rw [hpath]
    exact (Creator.createBuddy_decision hpath).mp (h c _ List.mem_cons_self)
  · unfold Creator.Unmisled at hunmisled
    cases hpath : buddySockPathbuf c.svcRunPath c.name with
    | none =>
      rw [hpath] at hunmisled
      exact hunmisled.elim
    | some path =>
      rw [hpath] at hunmisled
      refine ⟨_, Creator.createBuddy_eq hpath, ?_⟩
      exact Creator.Independent.of_cons h ((Creator.createBuddy_decision hpath).mpr hunmisled)

/-- The call for a service under `/run/upkeeper`, where the sockets are those of some services -/
def createCall (sockets : List CStr) (name : CStr) : CreateBuddyCall where
  svcRunPath := strncpyPath (cstr "/run/upkeeper")
  name := strncpyString name
  stat path := if path ∈ sockets then some 0o140755 else none

/-- The buddy of `web` runs already: its socket is found, and then no buddy is spawned for `db` either. -/
theorem not_independent_secondService :
    ¬ Machine.Safe Creator.createBuddy Creator.Independent Creator.init
      [createCall [cstr "/run/upkeeper/web/buddy.sock"] (cstr "web"),
        createCall [cstr "/run/upkeeper/web/buddy.sock"] (cstr "db")] := by
  rintro ⟨-, s₁, hs₁, -, s₂, hs₂, hindependent⟩
  have hweb : buddySockPathbuf (strncpyPath (cstr "/run/upkeeper")) (strncpyString (cstr "web")) =
      some (cstr "/run/upkeeper/web/buddy.sock") := by decide +kernel
  have hdb : buddySockPathbuf (strncpyPath (cstr "/run/upkeeper")) (strncpyString (cstr "db")) =
      some (cstr "/run/upkeeper/db/buddy.sock") := by decide +kernel
  rw [Creator.createBuddy_eq hweb] at hs₁
  obtain rfl := Option.some.inj hs₁
  rw [Creator.createBuddy_eq hdb] at hs₂
  obtain rfl := Option.some.inj hs₂
  have hnone : (createCall [cstr "/run/upkeeper/web/buddy.sock"] (cstr "db")).stat (cstr "/run/upkeeper/db/buddy.sock") =
      none := by decide +kernel
  have hsome : (createCall [cstr "/run/upkeeper/web/buddy.sock"] (cstr "web")).stat (cstr "/run/upkeeper/web/buddy.sock") =
      some 0o140755 := by decide +kernel
  have hdecision := (show Creator.Independent _ from hindependent) _ _ List.mem_cons_self
  rw [hnone, hsome] at hdecision
  have hexists : ¬ (createCall [cstr "/run/upkeeper/web/buddy.sock"] (cstr "db")).SocketExists := by
    rintro ⟨path, hpath, mode, hmode, -⟩
    obtain rfl := Option.some.inj (hdb.symm.trans hpath)
    cases hnone.symm.trans hmode
  exact absurd (hdecision.mpr hexists) (by decide)

end Upkeeper
