import Mathlib.Data.Char
import Mathlib.Data.List.Lex
import PPBase.Hook

/-!
# The hook manager

The files of a directory register handlers with the hooks of the application. While a file is
loaded, the manager notes which bindings appear (`track`), and takes them for those of the file
once all of it has run (`loadFile`). They are removed when the file is reloaded, disabled or gone
(`unbindFile`).

What a file does when it is run is part of the directory as it is at that time (`HookFile`). Every
load is recorded with the registry before it and the bindings it made (`LoadRecord`); nothing reads
the record.
-/

namespace PPBase

/-- `HOOK_NAMES` -/
inductive HookName
  | bootstrap
  | serve
  | terminate
  | recordsListRequest
  | recordViewRequest
  | recordCreateRequest
  | recordUpdateRequest
  | recordDeleteRequest
  | recordAuthWithPasswordRequest
  | recordAuthWithOauth2Request
  | recordRequestOtpRequest
  | recordAuthWithOtpRequest
  | recordAuthRefreshRequest
  | recordAuthRequest
  | fileDownloadRequest
  | fileTokenRequest
  | realtimeConnectRequest
  | realtimeSubscribeRequest
  | realtimeMessageSend
  deriving DecidableEq

namespace HookName

/-- The hooks in the order in which they are searched. -/
def all : List HookName :=
  [bootstrap, serve, terminate, recordsListRequest, recordViewRequest, recordCreateRequest,
    recordUpdateRequest, recordDeleteRequest, recordAuthWithPasswordRequest,
    recordAuthWithOauth2Request, recordRequestOtpRequest, recordAuthWithOtpRequest,
    recordAuthRefreshRequest, recordAuthRequest, fileDownloadRequest, fileTokenRequest,
    realtimeConnectRequest, realtimeSubscribeRequest, realtimeMessageSend]

theorem mem_all (h : HookName) : h ∈ all := by
  cases h <;> decide

def text : HookName → Text
  | bootstrap => "bootstrap"
  | serve => "serve"
  | terminate => "terminate"
  | recordsListRequest => "records_list_request"
  | recordViewRequest => "record_view_request"
  | recordCreateRequest => "record_create_request"
  | recordUpdateRequest => "record_update_request"
  | recordDeleteRequest => "record_delete_request"
  | recordAuthWithPasswordRequest => "record_auth_with_password_request"
  | recordAuthWithOauth2Request => "record_auth_with_oauth2_request"
  | recordRequestOtpRequest => "record_request_otp_request"
  | recordAuthWithOtpRequest => "record_auth_with_otp_request"
  | recordAuthRefreshRequest => "record_auth_refresh_request"
  | recordAuthRequest => "record_auth_request"
  | fileDownloadRequest => "file_download_request"
  | fileTokenRequest => "file_token_request"
  | realtimeConnectRequest => "realtime_connect_request"
  | realtimeSubscribeRequest => "realtime_subscribe_request"
  | realtimeMessageSend => "realtime_message_send"

end HookName

/-- `HookRegistry` -/
abbrev HookRegistry (ε η : Type*) := HookName → Hook ε η

namespace HookRegistry

variable {ε η : Type*}

def new : HookRegistry ε η := fun h => Hook.new h.text

/-- All bindings, in the order in which they are searched. -/
def bindings (R : HookRegistry ε η) : List (HookName × HookBinding ε η) :=
  HookName.all.flatMap fun h => (R h).bindings.map fun e => (h, e.2)

end HookRegistry

/-- A binding of a file, as the manager keeps it. -/
structure HookFunction where
  hookType : HookName
  bindingId : Text
  deriving DecidableEq

/-- One call of a decorator such as `@pb.on_serve(id=..., priority=..., middleware=...)`. -/
structure Registration (ε η : Type*) where
  hook : HookName
  id : Option Text
  priority : ℤ
  predicate : Option (ε → Bool)
  handler : η
  middlewares : List η

inductive LoadOutcome
  | done
  | importFails
  | registerFails
  deriving DecidableEq

/-- What a file does when it is run: what it registers at the import and in `register()`, up to
the point where it fails. -/
structure HookFile (ε η : Type*) where
  hash : Text
  mtime : ℕ
  registrations : List (Registration ε η)
  outcome : LoadOutcome
  /-- `HOOK_NAME` and `HOOK_DESCRIPTION` -/
  name : Option Text
  description : Option Text
  /-- Routes or middleware of the application were to be changed while it runs. -/
  requiresRestart : Bool

/-- The hooks directory at one time, by file name. -/
abbrev HookDir (ε η : Type*) := Dict Text (HookFile ε η)

inductive HookStatus
  | loaded
  | error
  | disabled
  | unsupportedForHotReload
  deriving DecidableEq

structure HookFileState where
  filename : Text
  hookId : Text
  name : Text
  description : Text
  status : HookStatus
  enabled : Bool
  functions : List HookFunction
  fileHash : Option Text
  fileMtime : ℕ

/-- One load of a file. -/
structure LoadRecord (ε η : Type*) where
  hookId : Text
  filename : Text
  /-- The registry before the load. -/
  before : HookRegistry ε η
  registrations : List (Registration ε η)
  outcome : LoadOutcome
  /-- The bindings made for the registrations. -/
  bound : List (HookName × HookBinding ε η)

structure HookManager (ε η : Type*) where
  registry : HookRegistry ε η
  files : Dict Text HookFileState
  disabledHooks : List Text
  loads : List (LoadRecord ε η)

/-! ## File names -/

/-- `f.suffix == ".py"` -/
def isPython (filename : Text) : Bool := (".py" : Text) <:+ filename && 3 < filename.length

/-- `Path(filename).stem` -/
def stem (filename : Text) : Text :=
  match Text.rsplit? '.' filename with
  | none => filename
  | some (s, e) => if s = [] ∨ e = [] then filename else s

/-- `_hook_id_from_filename(filename)` -/
def hookIdFromFilename (lower : Text → Text) (filename : Text) : Text :=
  lower ((stem filename).map fun c => if c = ' ' ∨ c = '-' then '_' else c)

/-- The file names in order of code points. -/
def discoverFiles {ε η : Type*} (dir : HookDir ε η) : List Text :=
  (dir.keys.filter
    fun f => isPython f && f ≠ ("__init__.py" : Text) && f.head? ≠ some '_').mergeSort
    fun a b => decide (a ≤ b)

/-- `f"pb_hooks.{Path(filename).stem}"` -/
def moduleName (filename : Text) : Text := ("pb_hooks." : Text) ++ stem filename

namespace HookManager

variable {ε η : Type*} [DecidableEq η]

/-! ## Tracking -/

/-- The ids of the bindings are noted unless they were before. -/
def record (candidate : HookBinding ε η → Bool) (tracked : List HookFunction)
    (e : HookName × HookBinding ε η) : List HookFunction :=
  if tracked.any (fun t => t.bindingId = e.2.id) then tracked
  else if candidate e.2 then tracked ++ [{ hookType := e.1, bindingId := e.2.id }]
  else tracked

/-- The search of `tracking_decorator` for bindings of a handler. -/
def track (R : HookRegistry ε η) (handler : η) (tracked : List HookFunction) : List HookFunction :=
  R.bindings.foldl (record fun b => b.handler = handler) tracked

/-- `_scan_bindings_from_module(module, tracker)` -/
def scanBindingsFromModule (moduleOf : η → Option Text) (R : HookRegistry ε η) (module : Text)
    (tracked : List HookFunction) : List HookFunction :=
  R.bindings.foldl (record fun b => moduleOf b.handler = some module) tracked

/-- `hook.bind_func(handler, ...)` of one of the hooks, with the binding made. -/
def bindFunc (R : HookRegistry ε η) (hook : HookName) (handler : η) (id : Option Text)
    (priority : ℤ) (predicate : Option (ε → Bool)) :
    HookRegistry ε η × HookName × HookBinding ε η :=
  (Function.update R hook ((R hook).bind handler id priority predicate),
    hook, (R hook).newBinding handler id priority predicate)

/-- The id of a middleware, `f"{id}:middleware:{index}"`. -/
def middlewareId (id : Option Text) (index : ℕ) : Option Text :=
  match id with
  | none => none
  | some [] => none
  | some i => some (i ++ (":middleware:" : Text) ++ (toString index).toList)

/-- What a load has done so far. -/
structure Progress (ε η : Type*) where
  registry : HookRegistry ε η
  tracked : List HookFunction
  bound : List (HookName × HookBinding ε η)

def bindMiddlewares (r : Registration ε η) : ℕ → List η → Progress ε η → Progress ε η
  | _, [], p => p
  | index, m :: ms, p =>
    let made := bindFunc p.registry r.hook m (middlewareId r.id index) r.priority r.predicate
    bindMiddlewares r (index + 1) ms { p with registry := made.1, bound := p.bound ++ [made.2] }

/-- The decorator of the proxy, applied to a function. -/
def register (p : Progress ε η) (r : Registration ε η) : Progress ε η :=
  let p := bindMiddlewares r 0 r.middlewares p
  let made := bindFunc p.registry r.hook r.handler r.id r.priority r.predicate
  { registry := made.1
    tracked := track made.1 r.handler p.tracked
    bound := p.bound ++ [made.2] }

/-! ## Loading -/

/-- What the file does, where there may be none any more. -/
def fileOf (dir : HookDir ε η) (filename : Text) : HookFile ε η :=
  (dir.get? filename).getD
    { hash := [], mtime := 0, registrations := [], outcome := .importFails, name := none,
      description := none, requiresRestart := false }

/-- What the file registers in the registry. -/
def runFile (R : HookRegistry ε η) (file : HookFile ε η) : Progress ε η :=
  file.registrations.foldl register ⟨R, [], []⟩

/-- The bindings that are taken for those of the file. -/
def trackedFunctions (moduleOf : η → Option Text) (filename : Text) (p : Progress ε η) :
    List HookFunction :=
  if p.tracked = [] then scanBindingsFromModule moduleOf p.registry (moduleName filename) p.tracked
  else p.tracked

/-- The state after a load. -/
def loadedState (moduleOf : η → Option Text) (file : HookFile ε η) (p : Progress ε η)
    (state : HookFileState) : HookFileState :=
  let state := { state with functions := [], fileHash := some file.hash, fileMtime := file.mtime }
  match file.outcome with
  | .importFails => { state with status := .error }
  | .registerFails =>
    { state with
      name := file.name.getD state.hookId
      description := file.description.getD []
      status := .error }
  | .done =>
    { state with
      name := file.name.getD state.hookId
      description := file.description.getD []
      functions := trackedFunctions moduleOf state.filename p
      status := if file.requiresRestart then .unsupportedForHotReload else .loaded }

def loadRecord (R : HookRegistry ε η) (file : HookFile ε η) (state : HookFileState) :
    LoadRecord ε η where
  hookId := state.hookId
  filename := state.filename
  before := R
  registrations := file.registrations
  outcome := file.outcome
  bound := (runFile R file).bound

/-- `_load_file(state)` -/
def loadFile (moduleOf : η → Option Text) (dir : HookDir ε η) (s : HookManager ε η)
    (state : HookFileState) : HookManager ε η :=
  let file := fileOf dir state.filename
  let p := runFile s.registry file
  { s with
    registry := p.registry
    files := s.files.set state.hookId (loadedState moduleOf file p state)
    loads := s.loads ++ [loadRecord s.registry file state] }

/-- `_unbind_file(state)` of a state, without its files. -/
def unbindFile (R : HookRegistry ε η) (functions : List HookFunction) : HookRegistry ε η :=
  functions.foldl
    (fun R f => Function.update R f.hookType ((R f.hookType).unbind f.bindingId)) R

def newState (disabledHooks : List Text) (hookId filename : Text) : HookFileState where
  filename := filename
  hookId := hookId
  name := hookId
  description := []
  status := if hookId ∈ disabledHooks then .disabled else .loaded
  enabled := hookId ∉ disabledHooks
  functions := []
  fileHash := none
  fileMtime := 0

variable (lower : Text → Text) (moduleOf : η → Option Text)

/-- A file that the manager sees for the first time. -/
def addFile (dir : HookDir ε η) (s : HookManager ε η) (filename : Text) : HookManager ε η :=
  let state := newState s.disabledHooks (hookIdFromFilename lower filename) filename
  let s := { s with files := s.files.set state.hookId state }
  if state.enabled then loadFile moduleOf dir s state else s

/-- `initial_load()` -/
def initialLoad (dir : HookDir ε η) (s : HookManager ε η) : HookManager ε η :=
  (discoverFiles dir).foldl (addFile lower moduleOf dir) s

/-- `_unbind_file(state)` and `_load_file(state)` -/
def reload (dir : HookDir ε η) (s : HookManager ε η) (state : HookFileState) : HookManager ε η :=
  loadFile moduleOf dir { s with registry := unbindFile s.registry state.functions }
    { state with functions := [] }

/-- `reload_file(hook_id)` -/
def reloadFile (dir : HookDir ε η) (s : HookManager ε η) (hookId : Text) : HookManager ε η :=
  match s.files.get? hookId with
  | none => s
  | some state =>
    if state.enabled then reload moduleOf dir s state
    else { s with files := s.files.set hookId { state with status := .disabled } }

/-- `disable_hook(hook_id)` -/
def disableHook (s : HookManager ε η) (hookId : Text) : HookManager ε η :=
  match s.files.get? hookId with
  | none => s
  | some state =>
    { s with
      registry := unbindFile s.registry state.functions
      files := s.files.set hookId
        { state with functions := [], enabled := false, status := .disabled }
      disabledHooks := hookId :: s.disabledHooks }

/-- `enable_hook(hook_id)` -/
def enableHook (dir : HookDir ε η) (s : HookManager ε η) (hookId : Text) : HookManager ε η :=
  match s.files.get? hookId with
  | none => s
  | some state =>
    loadFile moduleOf dir { s with disabledHooks := s.disabledHooks.filter (· ≠ hookId) }
      { state with enabled := true }

/-- A file of the directory is gone. -/
def removeFile (s : HookManager ε η) (hookId : Text) : HookManager ε η :=
  match s.files.get? hookId with
  | none => s
  | some state =>
    { s with
      registry := unbindFile s.registry state.functions
      files := s.files.del hookId
      disabledHooks := s.disabledHooks.filter (· ≠ hookId) }

/-- One file of the directory, when it is scanned again. -/
def rescanFile (dir : HookDir ε η) (s : HookManager ε η) (filename : Text) : HookManager ε η :=
  match s.files.get? (hookIdFromFilename lower filename) with
  | none => addFile lower moduleOf dir s filename
  | some state =>
    let file := fileOf dir filename
    if state.enabled && (state.fileHash ≠ some file.hash || state.fileMtime ≠ file.mtime) then
      reload moduleOf dir s state
    else s

/-- `rescan()` -/
def rescan (dir : HookDir ε η) (s : HookManager ε η) : HookManager ε η :=
  let currentFiles := discoverFiles dir
  let currentIds := currentFiles.map (hookIdFromFilename lower)
  let removed := s.files.keys.filter (· ∉ currentIds)
  currentFiles.foldl (rescanFile lower moduleOf dir) (removed.foldl removeFile s)

/-- An operation, with the directory as it is then. -/
inductive Op (ε η : Type*)
  | initialLoad (dir : HookDir ε η)
  | rescan (dir : HookDir ε η)
  | reloadFile (dir : HookDir ε η) (hookId : Text)
  | enableHook (dir : HookDir ε η) (hookId : Text)
  | disableHook (hookId : Text)

def step (s : HookManager ε η) : Op ε η → HookManager ε η
  | .initialLoad dir => initialLoad lower moduleOf dir s
  | .rescan dir => rescan lower moduleOf dir s
  | .reloadFile dir hookId => reloadFile moduleOf dir s hookId
  | .enableHook dir hookId => enableHook moduleOf dir s hookId
  | .disableHook hookId => disableHook s hookId

end HookManager

end PPBase
