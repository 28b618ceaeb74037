/-
# `AutoDev.Plugins.Host` — the plugin host and what it loads

`PluginHost` of `backend/plugins/host.py` over the rows of
`backend/plugins/store.py`.  Several hosts share one store, so a call names its
host, and with it the manifests as they lie on disk at that moment.

What is loaded is LOGGED: an entrypoint counts as loaded as soon as the loader is
known to be the in-process one.  `install` and `hot_reload` ask
`_compatibility_reason` before anything else; `enable` goes by the state of the
row alone, which another host may have written (`enabled_in_production`).

Rows hold the manifests `validate_manifest` parsed.  What `packaging` makes of a
version and a range is a parameter, as is `repr`.
-/
import AutoDev.Lib.History
import AutoDev.Lib.Table

namespace AutoDev.Plugins

open History

/-! ## Manifests -/

inductive RuntimeLoader where
  | inProcess
  | subprocess
  | wasm
  deriving DecidableEq

def RuntimeLoader.value : RuntimeLoader → String
  | .inProcess => "in-process"
  | .subprocess => "subprocess"
  | .wasm => "wasm"

structure RuntimeSpec where
  loader : RuntimeLoader
  entrypoint : String
  isolation : Option String := none
  deriving DecidableEq

/-- The blocks of `PermissionSpec` that need an isolation boundary. -/
structure PermissionSpec where
  networkEgress : List String := []
  filesystemRead : List String := []
  filesystemWrite : List String := []
  execCommands : List String := []
  secrets : List String := []
  deriving DecidableEq

structure PluginManifest where
  id : String
  version : String
  hostApi : String
  runtime : RuntimeSpec
  permissions : PermissionSpec := {}
  deriving DecidableEq

def privilegedInProcessPermissions (manifest : PluginManifest) : List String :=
  let permissions := manifest.permissions
  ([("permissions.network.egress", permissions.networkEgress),
    ("permissions.filesystem.read", permissions.filesystemRead),
    ("permissions.filesystem.write", permissions.filesystemWrite),
    ("permissions.exec.commands", permissions.execCommands),
    ("permissions.secrets", permissions.secrets)].filter fun block => block.2 ≠ []).map (·.1)

/-! ## Hosts and the store -/

inductive PluginState where
  | installed
  | enabled
  | disabled
  | uninstalled
  | rejected
  | quarantined
  deriving DecidableEq

def PluginState.value : PluginState → String
  | .installed => "installed"
  | .enabled => "enabled"
  | .disabled => "disabled"
  | .uninstalled => "uninstalled"
  | .rejected => "rejected"
  | .quarantined => "quarantined"

structure PluginRow where
  version : String
  state : PluginState
  manifestPath : String
  manifest : PluginManifest
  reason : String := ""
  deriving DecidableEq

structure PluginRecord extends PluginRow where
  pluginId : String
  deriving DecidableEq

structure PluginHost where
  hostApiVersion : String := "2.0.0"
  productionMode : Bool
  trustedInProcessPlugins : List String
  deriving DecidableEq

structure PluginLoad where
  host : PluginHost
  manifest : PluginManifest
  manifestPath : String
  deriving DecidableEq

/-- The shared store, and everything that was loaded, the last first. -/
structure PluginStore where
  rows : Table String PluginRow := ∅
  loads : List PluginLoad := []

inductive PluginError where
  | noValidManifest (pluginPath : String)
  | notRegistered (pluginId : String)
  | cannot (verb pluginId : String) (state : PluginState)
  deriving DecidableEq

def PluginError.message : PluginError → String
  | .noValidManifest pluginPath => s!"No valid plugin.yaml found under {pluginPath}"
  | .notRegistered pluginId => pluginId
  | .cannot verb pluginId state =>
    let value := state.value
    s!"Cannot {verb} plugin {pluginId} from state {value}"

abbrev PluginResult := PluginStore × Except PluginError PluginRecord

/-- `load_manifest`, where the file is there and valid. -/
abbrev Disk := String → Option PluginManifest

namespace PluginStore

variable (s : PluginStore)

def get (pluginId : String) : Option PluginRecord :=
  (s.rows.lookup pluginId).map fun row => { row with pluginId := pluginId }

def persist (manifestPath : String) (manifest : PluginManifest) (state : PluginState)
    (reason : String := "") : PluginStore × PluginRecord :=
  let row : PluginRow := ⟨manifest.version, state, manifestPath, manifest, reason⟩
  ({ s with rows := s.rows.insert manifest.id row }, { row with pluginId := manifest.id })

def transition (record : PluginRecord) (state : PluginState) (reason : String := "") :
    PluginStore × PluginRecord :=
  s.persist record.manifestPath record.manifest state reason

/-- `_load_entrypoint`, and the call of what it returns; `outcome` is what the plugin's code makes
of both. -/
def loadEntrypoint (host : PluginHost) (manifest : PluginManifest) (manifestPath : String)
    (outcome : Except String Unit) : PluginStore × Except String Unit :=
  if manifest.runtime.loader = .inProcess then
    ({ s with loads := ⟨host, manifest, manifestPath⟩ :: s.loads }, outcome)
  else
    let loader := manifest.runtime.loader.value
    (s, .error s!"runtime.loader {loader} is not supported by the E1-S2 host")

end PluginStore

/-! ## The operations -/

section Operations

variable (accepts : String → String → Bool) (repr : String → String)

variable (host : PluginHost) (disk : Disk) (s : PluginStore) (pluginId : String)

def productionInProcessReason (manifest : PluginManifest) : String :=
  if host.productionMode = false ∨ manifest.runtime.loader ≠ .inProcess then ""
  else if manifest.id ∉ host.trustedInProcessPlugins then
    let pluginId := manifest.id
    s!"production requires an explicit operator trust grant for in-process plugin {pluginId}"
  else if manifest.runtime.isolation ≠ none ∧ manifest.runtime.isolation ≠ some "none" then
    let isolation := repr (manifest.runtime.isolation.getD "")
    s!"the in-process loader cannot satisfy runtime.isolation={isolation}"
  else
    let privileged := privilegedInProcessPermissions manifest
    if privileged ≠ [] then
      "production rejects privileged permissions for trusted in-process plugins: " ++
        ", ".intercalate privileged
    else ""

def compatibilityReason (manifest : PluginManifest) : String :=
  if accepts host.hostApiVersion manifest.hostApi = false then
    let hostApi := manifest.hostApi
    let version := host.hostApiVersion
    s!"hostApi {hostApi} is incompatible with host {version}"
  else productionInProcessReason repr host manifest

def install (pluginPath : String) : PluginResult :=
  let manifestPath := pluginPath ++ "/plugin.yaml"
  match disk manifestPath with
  | none => (s, .error (.noValidManifest pluginPath))
  | some manifest =>
    let reason := compatibilityReason accepts repr host manifest
    let state := if reason ≠ "" then PluginState.rejected else .installed
    let persisted := s.persist manifestPath manifest state reason
    (persisted.1, .ok persisted.2)

def enable (outcome : Except String Unit) : PluginResult :=
  match s.get pluginId with
  | none => (s, .error (.notRegistered pluginId))
  | some record =>
    if record.state ≠ .installed ∧ record.state ≠ .disabled then
      (s, .error (.cannot "enable" pluginId record.state))
    else
      let loaded := s.loadEntrypoint host record.manifest record.manifestPath outcome
      let updated := match loaded.2 with
        | .error exc => loaded.1.transition record .quarantined exc
        | .ok () => loaded.1.transition record .enabled
      (updated.1, .ok updated.2)

def disable : PluginResult :=
  match s.get pluginId with
  | none => (s, .error (.notRegistered pluginId))
  | some record =>
    if record.state ≠ .enabled then (s, .error (.cannot "disable" pluginId record.state))
    else
      let updated := s.transition record .disabled
      (updated.1, .ok updated.2)

def uninstall : PluginResult :=
  match s.get pluginId with
  | none => (s, .error (.notRegistered pluginId))
  | some record =>
    -- an enabled plugin is disabled first, which leaves the record of that
    let disabled := if record.state = .enabled then s.transition record .disabled else (s, record)
    let updated := disabled.1.transition disabled.2 .uninstalled
    ({ updated.1 with rows := updated.1.rows.erase pluginId }, .ok updated.2)

/-- What `hot_reload` tries. -/
def reload (record : PluginRecord) (outcome : Except String Unit) :
    PluginStore × Option PluginManifest :=
  match disk record.manifestPath with
  | none => (s, none)
  | some manifest =>
    if compatibilityReason accepts repr host manifest ≠ "" then (s, none)
    else
      let loaded := s.loadEntrypoint host manifest record.manifestPath outcome
      (loaded.1, match loaded.2 with
        | .error _ => none
        | .ok () => some manifest)

/-- `PluginHost.hot_reload`; a failed one writes the old row back. -/
def hotReload (outcome : Except String Unit) : PluginResult :=
  match s.get pluginId with
  | none => (s, .error (.notRegistered pluginId))
  | some record =>
    if record.state ≠ .enabled then (s, .error (.cannot "hot-reload" pluginId record.state))
    else
      let tried := reload accepts repr host disk s record outcome
      match tried.2 with
      | none =>
        ({ tried.1 with rows := tried.1.rows.insert pluginId { record.toPluginRow with
            reason := "" } }, .ok record)
      | some manifest =>
        let updated := tried.1.persist record.manifestPath manifest .enabled
        (updated.1, .ok updated.2)

/-- A lifecycle operation; `outcome` is what the plugin's code does when it is loaded. -/
inductive HostOp where
  | install (pluginPath : String)
  | enable (pluginId : String) (outcome : Except String Unit)
  | disable (pluginId : String)
  | uninstall (pluginId : String)
  | hotReload (pluginId : String) (outcome : Except String Unit)

structure HostCall where
  host : PluginHost
  disk : Disk
  op : HostOp

def HostCall.perform (call : HostCall) : PluginResult :=
  match call.op with
  | .install pluginPath => Plugins.install accepts repr call.host call.disk s pluginPath
  | .enable pluginId outcome => Plugins.enable call.host s pluginId outcome
  | .disable pluginId => Plugins.disable s pluginId
  | .uninstall pluginId => Plugins.uninstall s pluginId
  | .hotReload pluginId outcome =>
    Plugins.hotReload accepts repr call.host call.disk s pluginId outcome

def PluginStore.step (call : HostCall) : PluginStore :=
  (call.perform accepts repr s).1

/-! ## What is claimed -/

/-- The host that loaded it is not in production, or its own check lets it pass. -/
def PluginLoad.Accepted (load : PluginLoad) : Prop :=
  load.host.productionMode = true → compatibilityReason accepts repr load.host load.manifest = ""

instance : DecidablePred (PluginLoad.Accepted accepts repr) :=
  fun _ => inferInstanceAs (Decidable (_ → _))

def PluginStore.LoadsAccepted : Prop :=
  ∀ load ∈ s.loads, load.Accepted accepts repr

instance : DecidablePred (PluginStore.LoadsAccepted accepts repr) :=
  fun s => inferInstanceAs (Decidable (∀ load ∈ s.loads, load.Accepted accepts repr))

def PluginRow.Loadable (row : PluginRow) : Prop :=
  (row.state = .installed ∨ row.state = .disabled) ∧ row.manifest.runtime.loader = .inProcess

instance : DecidablePred PluginRow.Loadable := fun _ => inferInstanceAs (Decidable (_ ∧ _))

/-- Where a host in production enables an in-process plugin, its own check accepts the stored
manifest. -/
def EnablesAccepted (call : HostCall) : Prop :=
  match call.op with
  | .enable pluginId _ =>
    call.host.productionMode = true → ∀ row ∈ s.rows.lookup pluginId, row.Loadable →
      compatibilityReason accepts repr call.host row.manifest = ""
  | _ => True

end Operations

/-! ## What an operation loads -/

section Loads

variable {accepts : String → String → Bool} {repr : String → String}

theorem loadEntrypoint_loads (s : PluginStore) (host : PluginHost) (manifest : PluginManifest)
    (path : String) (outcome : Except String Unit) :
    (s.loadEntrypoint host manifest path outcome).1.loads =
      if manifest.runtime.loader = .inProcess then ⟨host, manifest, path⟩ :: s.loads
      else s.loads := by
  rw [PluginStore.loadEntrypoint]
  split <;> rfl

theorem install_loads (host : PluginHost) (disk : Disk) (s : PluginStore) (path : String) :
    (install accepts repr host disk s path).1.loads = s.loads := by
  simp only [install]
  split <;> rfl

theorem enable_loads (host : PluginHost) (s : PluginStore) (pluginId : String)
    (outcome : Except String Unit) :
    (enable host s pluginId outcome).1.loads =
      match s.rows.lookup pluginId with
      | none => s.loads
      | some row =>
        if row.Loadable then ⟨host, row.manifest, row.manifestPath⟩ :: s.loads else s.loads := by
  simp only [enable, PluginStore.get]
  rcases s.rows.lookup pluginId with _ | row
  · rfl
  simp only [Option.map_some]
  by_cases hst : row.state ≠ .installed ∧ row.state ≠ .disabled
  · rw [if_pos hst, if_neg]
    rintro ⟨h | h, -⟩
    · exact hst.1 h
    · exact hst.2 h
  have hload : row.Loadable ↔ row.manifest.runtime.loader = .inProcess := by
    refine ⟨fun h => h.2, fun h => ⟨?_, h⟩⟩
    by_cases hi : row.state = .installed
    · exact .inl hi
    · exact .inr (not_not.mp fun hd => hst ⟨hi, hd⟩)
  rw [if_neg hst]
  simp only [hload]
  rw [← loadEntrypoint_loads s host row.manifest row.manifestPath outcome]
  split <;> rfl

theorem disable_loads (s : PluginStore) (pluginId : String) :
    (disable s pluginId).1.loads = s.loads := by
  simp only [disable]
  split
  · rfl
  · split <;> rfl

theorem uninstall_loads (s : PluginStore) (pluginId : String) :
    (uninstall s pluginId).1.loads = s.loads := by
  simp only [uninstall]
  split
  · rfl
  · split <;> rfl

theorem mem_hotReload_loads {host : PluginHost} {disk : Disk} {s : PluginStore}
    {pluginId : String} {outcome : Except String Unit} {load : PluginLoad}
    (h : load ∈ (hotReload accepts repr host disk s pluginId outcome).1.loads) :
    load ∈ s.loads ∨ load.Accepted accepts repr := by
  simp only [hotReload] at h
  split at h
  · exact .inl h
  rename_i record _
  split at h
  · exact .inl h
  have hreload : load ∈ (reload accepts repr host disk s record outcome).1.loads := by
    split at h <;> exact h
  simp only [reload] at hreload
  split at hreload
  · exact .inl hreload
  split at hreload
  · exact .inl hreload
  rename_i hok
  rw [loadEntrypoint_loads] at hreload
  split at hreload
  · rcases List.mem_cons.mp hreload with rfl | hmem
    · exact .inr fun _ => not_not.mp hok
    · exact .inl hmem
  · exact .inl hreload

theorem step_loadsAccepted {s : PluginStore} (hs : s.LoadsAccepted accepts repr)
    (call : HostCall) :
    (s.step accepts repr call).LoadsAccepted accepts repr ↔
      EnablesAccepted accepts repr s call := by
  obtain ⟨host, disk, op⟩ := call
  cases op with
  | install _ | disable _ | uninstall _ =>
    simp only [PluginStore.LoadsAccepted, PluginStore.step, HostCall.perform, install_loads,
      disable_loads, uninstall_loads, EnablesAccepted, iff_true]
    exact hs
  | hotReload pluginId outcome =>
    simp only [EnablesAccepted, iff_true]
    intro load hmem
    rcases mem_hotReload_loads hmem with hmem | hok
    · exact hs load hmem
    · exact hok
  | enable pluginId outcome =>
    simp only [PluginStore.LoadsAccepted, PluginStore.step, HostCall.perform, enable_loads,
      EnablesAccepted]
    rcases s.rows.lookup pluginId with _ | row
    · exact iff_of_true hs (by simp)
    simp only [Option.mem_some, forall_eq']
    by_cases hload : row.Loadable
    · simp only [if_pos hload, List.forall_mem_cons, PluginLoad.Accepted]
      exact ⟨fun h hprod _ => h.1 hprod, fun h => ⟨fun hprod => h hprod hload, hs⟩⟩
    · simp only [if_neg hload]
      exact iff_of_true hs fun _ h => absurd h hload

end Loads

/-- Along every history of calls, from any store: no host in production ever loads an in-process
plugin that its own check rejects, exactly if no host in production enables one. -/
theorem loads_accepted_iff (accepts : String → String → Bool) (repr : String → String)
    (rows : Table String PluginRow) (calls : List HostCall) :
    Throughout (PluginStore.step accepts repr) (PluginStore.LoadsAccepted accepts repr)
        ⟨rows, []⟩ calls ↔
      Meets (PluginStore.step accepts repr) (EnablesAccepted accepts repr) ⟨rows, []⟩ calls := by
  refine throughout_iff_meets (J := fun _ => True) (fun _ _ _ _ _ => trivial)
    (fun s call _ _ hs => step_loadsAccepted hs call) (fun _ _ => trivial) trivial ?_
  intro load hmem
  cases hmem

def untrusted : PluginManifest :=
  { id := "acme/tools", version := "1.0.0", hostApi := ">=2.0"
    runtime := { loader := .inProcess, entrypoint := "tools:register" } }

def acmeDisk : Disk := fun path => if path = "plugins/tools/plugin.yaml" then some untrusted else none

def devThenProd : List HostCall :=
  [⟨{ productionMode := false, trustedInProcessPlugins := [] }, acmeDisk, .install "plugins/tools"⟩,
   ⟨{ productionMode := true, trustedInProcessPlugins := [] }, acmeDisk,
    .enable "acme/tools" (.ok ())⟩]

/-- A host in production loads an in-process plugin that its check rejects. -/
theorem enabled_in_production :
    ¬ Throughout (PluginStore.step (fun _ _ => true) id)
      (PluginStore.LoadsAccepted (fun _ _ => true) id) {} devThenProd := by
  decide +kernel

/-! ## The table of loaded plugins -/

structure RunningHost where
  store : PluginStore := {}
  loaded : String → Option PluginManifest := fun _ => none

def PluginRow.live (row : PluginRow) : Option PluginManifest :=
  if row.state = .enabled then some row.manifest else none

namespace RunningHost

open PluginStore AList Function

variable (accepts : String → String → Bool) (repr : String → String) (host : PluginHost)
    (r : RunningHost)

/-- The manifest that a reload of the plugin loads, if it goes through. -/
def reloaded (disk : Disk) (pluginId : String) (outcome : Except String Unit) :
    Option PluginManifest :=
  (r.store.get pluginId).bind fun record =>
    if record.state = .enabled then (reload accepts repr host disk r.store record outcome).2
    else none

/-- What an operation makes of `_loaded`; `uninstall` goes through `disable`. -/
def load (disk : Disk) : HostOp → String → Option PluginManifest
  | .install _ => r.loaded
  | .enable pluginId outcome =>
    match (enable host r.store pluginId outcome).2 with
    | .ok record => if record.state = .enabled then update r.loaded pluginId record.manifest
      else r.loaded
    | .error _ => r.loaded
  | .disable pluginId | .uninstall pluginId =>
    match (disable r.store pluginId).2 with
    | .ok _ => update r.loaded pluginId none
    | .error _ => r.loaded
  | .hotReload pluginId outcome =>
    match r.reloaded accepts repr host disk pluginId outcome with
    | some manifest => update r.loaded pluginId manifest
    | none => r.loaded

def step (o : Disk × HostOp) : RunningHost :=
  ⟨r.store.step accepts repr ⟨host, o.1, o.2⟩, r.load accepts repr host o.1 o.2⟩

/-- A plugin is loaded exactly if it is enabled, and then from the stored manifest. -/
def Mirrors : Prop :=
  ∀ i, r.loaded i = (r.store.rows.lookup i).bind PluginRow.live

def KeepsLoaded (o : Disk × HostOp) : Prop :=
  match o.2 with
  | .install path => ∀ m ∈ o.1 (path ++ "/plugin.yaml"), r.loaded m.id = none
  | .hotReload pluginId outcome =>
    ∀ m ∈ r.reloaded accepts repr host o.1 pluginId outcome, m.id = pluginId
  | _ => True

/-- What is kept of each plugin: its row stands under the id of its manifest. -/
def Keeps (i : String) : Prop :=
  (∀ row ∈ r.store.rows.lookup i, row.manifest.id = i) ∧
    r.loaded i = (r.store.rows.lookup i).bind PluginRow.live

variable {accepts repr host r}

theorem keeps_of_ne {r' : RunningHost} (h : ∀ i, r.Keeps i) (pluginId : String)
    (hother : ∀ i, i ≠ pluginId → r'.loaded i = r.loaded i ∧
      r'.store.rows.lookup i = r.store.rows.lookup i) (hown : r'.Keeps pluginId) (i : String) :
    r'.Keeps i := by
  by_cases hi : i = pluginId
  · rwa [hi]
  · rw [Keeps, (hother i hi).1, (hother i hi).2]
    exact h i

theorem loadEntrypoint_rows (s : PluginStore) (manifest : PluginManifest) (path : String)
    (outcome : Except String Unit) :
    (s.loadEntrypoint host manifest path outcome).1.rows = s.rows := by
  rw [loadEntrypoint]
  split <;> rfl

theorem reload_rows (disk : Disk) (s : PluginStore) (record : PluginRecord)
    (outcome : Except String Unit) :
    (reload accepts repr host disk s record outcome).1.rows = s.rows := by
  simp only [reload]
  split
  · rfl
  · split
    · rfl
    · exact loadEntrypoint_rows ..

theorem step_keeps {o : Disk × HostOp} (h : ∀ i, r.Keeps i)
    (hc : r.KeepsLoaded accepts repr host o) (i : String) :
    (r.step accepts repr host o).Keeps i := by
  obtain ⟨disk, op⟩ := o
  cases op <;> simp only [KeepsLoaded, reloaded, step, load, PluginStore.step, HostCall.perform,
    install, enable, disable, uninstall, hotReload, PluginStore.get] at hc ⊢
  case install path =>
    rcases hd : disk (path ++ "/plugin.yaml") with _ | m
    · exact h i
    refine keeps_of_ne h m.id (fun i hi => ?_) ⟨?_, ?_⟩ i
    · exact ⟨rfl, lookup_insert_ne hi⟩
    · simp [persist]
    · rw [hc m hd]
      simp only [persist, lookup_insert, Option.bind_some, PluginRow.live]
      rw [if_neg (by split <;> simp)]
  case' enable pluginId outcome | disable pluginId | uninstall pluginId |
      hotReload pluginId outcome =>
    rcases hrow : r.store.rows.lookup pluginId with _ | row
    · exact h i
    obtain rfl := (h pluginId).1 row hrow
    simp only [hrow, Option.map_some, Option.bind_some] at hc ⊢
  -- the plugin's code has run by now, and has not touched the rows
  case' enable =>
    have hrows := @loadEntrypoint_rows host r.store row.manifest row.manifestPath outcome
    generalize r.store.loadEntrypoint host row.manifest row.manifestPath outcome = l at hrows ⊢
    rcases l with ⟨s₁, e | u⟩
  case' hotReload =>
    have hrows := @reload_rows accepts repr host disk r.store
      { row with pluginId := row.manifest.id } outcome
    generalize reload accepts repr host disk r.store _ outcome = l at hrows hc ⊢
    rcases l with ⟨s₁, _ | m⟩
  all_goals
    refine keeps_of_ne h row.manifest.id (fun i hi => ?_) ?_ i <;>
      cases hst : row.state <;>
      simp_all [Keeps, transition, persist, PluginRow.live, lookup_insert_ne, lookup_erase_ne]

end RunningHost

/-- Along every history of one host, from an empty store: as long as no loaded plugin is installed
anew and no reload finds another id, the loaded plugins are the enabled ones. -/
theorem loaded_mirrors (accepts : String → String → Bool) (repr : String → String)
    (host : PluginHost) (ops : List (Disk × HostOp))
    (h : Meets (RunningHost.step accepts repr host)
      (RunningHost.KeepsLoaded accepts repr host) {} ops) :
    Throughout (RunningHost.step accepts repr host) RunningHost.Mirrors {} ops := by
  have hstart : ∀ i, ({} : RunningHost).Keeps i := by
    intro i
    constructor
    · intro row hrow
      cases hrow
    · rfl
  exact (throughout_of_meets
    (fun _ _ => RunningHost.step_keeps) hstart h).imp fun _ h i => (h i).2

def enabledThen (op : HostOp) : List (Disk × HostOp) :=
  [.install "plugins/tools", .enable "acme/tools" (.ok ()), op].map (acmeDisk, ·)

theorem loaded_mirrors_disabled :
    Throughout (RunningHost.step (fun _ _ => true) id ⟨"2.0.0", false, []⟩) RunningHost.Mirrors {}
      (enabledThen (.disable "acme/tools")) :=
  loaded_mirrors _ _ _ _ ⟨fun _ _ => rfl, trivial, trivial, trivial⟩

/-- Installed once more, the plugin counts as not enabled, and is still loaded. -/
theorem installed_anew :
    ¬ Throughout (RunningHost.step (fun _ _ => true) id ⟨"2.0.0", false, []⟩) RunningHost.Mirrors {}
      (enabledThen (.install "plugins/tools")) := by
  rintro ⟨-, -, -, h⟩
  exact absurd (h "acme/tools") (by decide +kernel)

end AutoDev.Plugins
