import SingBox.Foundation.Run

/-!
# The controller of the lxd daemon

The daemon keeps one core instance. `Apply` stages and validates a config, swaps the instance and
falls back to the last config that worked; `Rollback` (also `Start`) and `Stop` start that config
and stop the core; `bootstrap` decides what runs after a start of the daemon. The state on disk
(last-good, candidate, pending marker, run intent, and the snapshot of the hooks) is written one
file at a time.

Every access to a file, the service or a hook is a step of its own, and the process can die between
any two. The operations run one at a time, under `applyAccess`. The service closes the old instance
and then starts the new one or fails. An instance has the content of its config and the names `ν` of
its interfaces; the hooks are given facts `φ` about a core.
-/

namespace SingBox.Lxd

open Foundation

/-- Why the core is gone. -/
inductive StopReason
  | fatal
  | stop
  | shutdown
  | recover
deriving DecidableEq, Repr

/-- The hooks, with the facts they are given. A crash of the process is recorded among them, with
the facts of the core whose announcement it cut off, if its snapshot was written already. -/
inductive Hook (φ : Type)
  | preStart (passed : Bool)
  | postStart (current : φ)
  | postReload (current previous : φ)
  | postStop (reason : StopReason) (previous : φ)
  | crash (cutOff : Option φ)
deriving DecidableEq, Repr

/-- The command line, and the files it names as they are found at boot. -/
structure Options where
  /-- The content of the `--config-force` file, if the option is given; inside, `none` if the file
  cannot be read. -/
  configForce : Option (Option String)
  /-- The content of the seed, in the same way. -/
  configPath : Option (Option String)
  run : Bool
deriving DecidableEq, Repr

/-- Where the boot config is from. -/
inductive Source
  | configForce
  | lastGood
  | seed
deriving DecidableEq, Repr

/-- What a start is for. -/
inductive Purpose
  /-- An apply, which falls back to last-good. -/
  | apply
  | fallback
  | rollback
  | boot (options : Options) (source : Source)
deriving DecidableEq, Repr

/-- The pending marker is cleared at the end of an apply. -/
def Purpose.clears : Purpose → Bool
  | .apply | .fallback => true
  | _ => false

/-- A config that has started is saved as last-good, unless it is last-good. -/
def Purpose.saves : Purpose → Bool
  | .apply => true
  | .boot _ source => source ≠ .lastGood
  | _ => false

/-- What follows on the removal of the snapshot. -/
inductive After
  | finish (clear : Bool)
  | boot (options : Options)
  | exit
deriving DecidableEq, Repr

/-- Where an operation is: what its next step does. -/
inductive Place (φ : Type)
  | down
  | idle
  | staging (content : String)
  | validating (content : String)
  | marking (content : String)
  /-- `pre_start`. -/
  | gate (content : String) (purpose : Purpose)
  /-- `StartOrReloadService`, with the facts of the core that was running. -/
  | starting (content : String) (previous : Option φ) (purpose : Purpose)
  /-- `LoadLastGood` after a failed swap. -/
  | falling (content : String) (previous : Option φ)
  /-- `SetWasRunning(true)`. -/
  | intending (content : String) (previous : Option φ) (purpose : Purpose)
  | saving (content : String) (previous : Option φ) (purpose : Purpose)
  | recording (previous : Option φ) (clear : Bool)
  /-- `post_start` or `post_reload`. -/
  | announcing (previous : Option φ) (clear : Bool)
  | ending (reason : StopReason) (previous : φ) (after : After)
  | removing (after : After)
  /-- The pending marker is removed. -/
  | clearing
  /-- `LoadLastGood` of a rollback. -/
  | loading
  /-- `SetWasRunning(false)`. -/
  | stopping
  | closing (previous : Option φ) (shutdown : Bool)
  /-- The snapshot is read at boot. -/
  | recovering (options : Options)
  /-- The pending marker is read and removed at boot. -/
  | unmarking (options : Options)
  /-- The boot config and the run intent are read. -/
  | resolving (options : Options)
deriving DecidableEq, Repr

/-- The files of the state directory. -/
structure Disk (φ : Type) where
  lastGood : Option String
  candidate : Option String
  pending : Bool
  wasRunning : Option Bool
  snapshot : Option φ
deriving DecidableEq, Repr

/-- The state of the daemon. -/
structure State (ν φ : Type) where
  disk : Disk φ
  inst : Option (String × ν)
  running : Bool
  activeContent : String
  interruptedApply : Bool
  place : Place φ
  /-- The hooks fired so far, the last first. -/
  fired : List (Hook φ)
  /-- The configs that have reached started. -/
  reached : List String
deriving DecidableEq, Repr

/-- What happens next. -/
inductive Event (ν : Type)
  | apply (content : String)
  | rollback
  | stop
  | shutdown
  | boot (options : Options)
  /-- The next step of the operation. `ok` is the outcome of a file, validation or hook step. -/
  | proceed (ok : Bool)
  /-- The outcome of a start: the names of the interfaces, or a failure. -/
  | started (names : Option ν)
  /-- A start at boot fails on a busy device, and is tried again. -/
  | busy
  | crash
deriving DecidableEq, Repr

variable {ν φ : Type} (configFacts : String → Option ν → φ)

/-- The facts of the running core. -/
def State.liveFacts (s : State ν φ) : Option φ :=
  if s.running then some (configFacts s.activeContent (s.inst.map Prod.snd)) else none

def State.setActive (s : State ν φ) (content : String) : State ν φ :=
  { s with activeContent := content, running := true }

/-- `setFatal`, and the state after a stop. -/
def State.setInactive (s : State ν φ) : State ν φ :=
  { s with activeContent := "", running := false }

def State.goto (s : State ν φ) (place : Place φ) : State ν φ := { s with place := place }

def State.fire (s : State ν φ) (hook : Hook φ) : State ν φ := { s with fired := hook :: s.fired }

/-- The end of an operation. -/
def State.finish (s : State ν φ) (clear : Bool) : State ν φ :=
  s.goto (if clear then .clearing else .idle)

/-- `announceFatal`: the facts of the core that existed, or of the config that did not come up. -/
def State.announceFatal (s : State ν φ) (previous : Option φ) (failed : String) (clear : Bool) :
    State ν φ :=
  s.setInactive.goto (.ending .fatal (previous.getD (configFacts failed none)) (.finish clear))

/-- An operation that starts `content` fires `pre_start` if no core is running. -/
def State.enterStart (s : State ν φ) (content : String) (purpose : Purpose) : State ν φ :=
  match s.liveFacts configFacts with
  | none => s.goto (.gate content purpose)
  | some previous => s.goto (.starting content (some previous) purpose)

/-- `resolveBootConfig`. `readable` says whether last-good can be read. -/
def resolveBootConfig (disk : Disk φ) (options : Options) (readable : Bool) :
    Option (String × Source) :=
  match options.configForce with
  | some forced => forced.map (·, .configForce)
  | none =>
    match (if readable then disk.lastGood else none) with
    | some content => some (content, .lastGood)
    | none => (options.configPath.join).map (·, .seed)

/-- The core is started at boot. -/
def shouldRun (disk : Disk φ) (options : Options) : Bool :=
  options.run || disk.wasRunning != some false

/-- The outcome of a start. -/
def afterStart (s : State ν φ) (content : String) (previous : Option φ) (purpose : Purpose) :
    Option ν → State ν φ
  | some names =>
    { s with inst := some (content, names), reached := content :: s.reached }.goto
      (.intending content previous purpose)
  | none =>
    let s := { s with inst := none }
    match purpose with
    | .apply => s.goto (.falling content previous)
    | _ => s.announceFatal configFacts previous content purpose.clears

/-- The next step of an operation that is not a start. -/
def proceed (s : State ν φ) (ok : Bool) : Place φ → State ν φ
  | .staging content =>
    if ok then { s with disk.candidate := some content }.goto (.validating content)
    else s.goto .idle
  | .validating content => if ok then s.goto (.marking content) else s.goto .idle
  | .marking content =>
    if ok then { s with disk.pending := true }.enterStart configFacts content .apply
    else s.goto .idle
  | .gate content purpose =>
    let s := s.fire (.preStart ok)
    if ok then s.goto (.starting content none purpose)
    else s.setInactive.finish purpose.clears
  | .falling content previous =>
    match (if ok then s.disk.lastGood else none) with
    | some lastGood =>
      if lastGood = content then s.announceFatal configFacts previous content true
      else s.goto (.starting lastGood previous .fallback)
    | none => s.announceFatal configFacts previous content true
  | .intending content previous purpose =>
    let s := if ok then { s with disk.wasRunning := some true } else s
    if purpose.saves then s.goto (.saving content previous purpose)
    else (s.setActive content).goto (.recording previous purpose.clears)
  | .saving content previous purpose =>
    let s := if ok then { s with disk.lastGood := some content } else s
    (s.setActive content).goto (.recording previous purpose.clears)
  | .recording previous clear =>
    let s := if ok then { s with disk.snapshot := s.liveFacts configFacts } else s
    s.goto (.announcing previous clear)
  | .announcing previous clear =>
    match s.liveFacts configFacts, previous with
    | some current, none => (s.fire (.postStart current)).finish clear
    | some current, some previous => (s.fire (.postReload current previous)).finish clear
    | none, _ => s.finish clear
  | .ending reason previous after => (s.fire (.postStop reason previous)).goto (.removing after)
  | .removing after =>
    let s := if ok then { s with disk.snapshot := none } else s
    match after with
    | .finish clear => s.finish clear
    | .boot options => s.goto (.unmarking options)
    | .exit => { s with inst := none }.goto .down
  | .clearing =>
    let s := if ok then { s with disk.pending := false } else s
    s.goto .idle
  | .loading =>
    match (if ok then s.disk.lastGood else none) with
    | none => s.goto .idle
    | some lastGood => s.enterStart configFacts lastGood .rollback
  | .stopping =>
    let s := if ok then { s with disk.wasRunning := some false } else s
    s.goto (.closing (s.liveFacts configFacts) false)
  | .closing previous shutdown =>
    let s := { s with inst := none }.setInactive
    match previous with
    | none => s.goto (if shutdown then .down else .idle)
    | some previous =>
      s.goto (.ending (if shutdown then .shutdown else .stop) previous
        (if shutdown then .exit else .finish false))
  | .recovering options =>
    match (if ok then s.disk.snapshot else none) with
    | none => s.goto (.unmarking options)
    | some previous => s.goto (.ending .recover previous (.boot options))
  | .unmarking options =>
    let s := { s with interruptedApply := s.disk.pending }
    { s with disk.pending := if ok then false else s.disk.pending }.goto (.resolving options)
  | .resolving options =>
    match resolveBootConfig s.disk options ok with
    | none => s.goto .idle
    | some (content, source) =>
      if content = "" ∨ ¬ shouldRun s.disk options then s.goto .idle
      else s.goto (.gate content (.boot options source))
  | place => s.goto place

/-- The announcement that a crash cuts off. -/
def State.cutOff (s : State ν φ) : Option φ :=
  match s.place with
  | .announcing _ _ => s.liveFacts configFacts
  | _ => none

/-- The transitions. -/
def step (s : State ν φ) (event : Event ν) : State ν φ :=
  match event, s.place with
  | .crash, .down => s
  -- The process dies, with the instance and the records in memory.
  | .crash, _ =>
    ({ s with inst := none, interruptedApply := false }.setInactive.fire
      (.crash (s.cutOff configFacts))).goto .down
  | .boot options, .down => s.goto (.recovering options)
  | .apply content, .idle => s.goto (.staging content)
  | .rollback, .idle => s.goto .loading
  | .stop, .idle => s.goto .stopping
  | .shutdown, .idle => s.goto (.closing (s.liveFacts configFacts) true)
  | .started names, .starting content previous purpose =>
    afterStart configFacts s content previous purpose names
  | .busy, .starting _ _ (.boot _ _) => { s with inst := none }
  | .proceed ok, place => proceed configFacts s ok place
  | _, _ => s

/-- A state directory before the first start of the daemon. -/
def initial (lastGood : Option String) (wasRunning : Option Bool) : State ν φ where
  disk := ⟨lastGood, none, false, wasRunning, none⟩
  inst := none
  running := false
  activeContent := ""
  interruptedApply := false
  place := .down
  fired := []
  reached := []

end SingBox.Lxd
