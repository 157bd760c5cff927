import EspModemLink.Air780e.BringUp
import EspModemLink.Ml307.BringUp

/-!
# The registry of modules

Each driver registers how its module is recognised and how its `IModuleHal` is made. Detection asks
the entries in the order in which they were registered, which is that of the static objects of the
translation units and is left open here.
-/

namespace EspModemLink.Device

open AtChannel Bytes Transcript

inductive ModuleType where
  | kUnknown | kMl307 | kEc801E | kEc600N | kBg95 | kBg96 | kL610 | kN58 | kA7670C | kEspAt
  | kAir780E
deriving DecidableEq

/-- `IModuleHal`, as far as a device is brought up with it. -/
structure ModuleHal (σ : Type) where
  moduleType : ModuleType
  initializeHal : HalM σ Unit

/-- `ModuleEntry`. There may be no `DetectFn`, and a `CreateFn` may answer nothing. -/
structure ModuleEntry (σ : Type) where
  type : ModuleType
  detect : Option (StateM σ Bool)
  create : Option (ModuleHal σ)

section

variable {σ : Type}

/-- The loop of `DetectModule`. -/
def detectModule : List (ModuleEntry σ) → HalM σ (ModuleHal σ)
  | [] => throw ⟨.kNotSupported, 0, "no compatible module detected"⟩
  | entry :: rest =>
      match entry.detect with
      | none => detectModule rest
      | some detect => do
          if ← detect then
            match entry.create with
            | some hal => return hal
            | none => detectModule rest
          else detectModule rest

/-- The loop of `CreateModule`. -/
def createModule (type : ModuleType) : List (ModuleEntry σ) → Result (ModuleHal σ)
  | [] => .error ⟨.kNotSupported, 0, "module type not registered"⟩
  | entry :: rest =>
      if entry.type = type then
        match entry.create with
        | some hal => .ok hal
        | none => createModule type rest
      else createModule type rest

end

/-! ## The two drivers -/

section

variable {σ : Type} (port : Port σ)

def atLine : Bytes := atCommand []
def cgmrLine : Bytes := atCommand ['+', 'C', 'G', 'M', 'R']
def kProbeTimeout : ℕ := 1000

/-- A line of the answer carries a mark. -/
def carries (mark : Bytes) (lines : List Bytes) : Bool := lines.any fun line => (find mark line).isSome

/-- `DetectMl307` and `DetectAir780e`, which look for different marks. -/
def detectBy (mark : Bytes) : StateM σ Bool := do
  match ← port.sendCommand atLine kProbeTimeout with
  | .error _ => return false
  | .ok () =>
      match ← port.sendCommand cgmrLine kProbeTimeout with
      | .error _ => return false
      | .ok () => return carries mark (port.getResponseLines (← get))

def ml307Mark : Bytes := ascii ['M', 'L', '3', '0', '7']
def air780eMark : Bytes := ascii ['A', 'i', 'r', 'M', '2', 'M']

def detectMl307 : StateM σ Bool := detectBy port ml307Mark
def detectAir780e : StateM σ Bool := detectBy port air780eMark

def createMl307Hal : ModuleHal σ := ⟨.kMl307, Ml307.initializeHal port⟩
def createAir780eHal : ModuleHal σ := ⟨.kAir780E, Air780e.initializeHal port⟩

/-- The drivers that this library has. -/
inductive Driver where
  | ml307 | air780e
deriving DecidableEq

def Driver.type : Driver → ModuleType
  | ml307 => .kMl307
  | air780e => .kAir780E

def Driver.mark : Driver → Bytes
  | ml307 => ml307Mark
  | air780e => air780eMark

def Driver.script : Driver → List Step
  | ml307 => Ml307.initializeScript
  | air780e => Air780e.initializeScript

/-- What a driver registers. -/
def Driver.entry : Driver → ModuleEntry σ
  | ml307 => ⟨.kMl307, some (detectMl307 port), some (createMl307Hal port)⟩
  | air780e => ⟨.kAir780E, some (detectAir780e port), some (createAir780eHal port)⟩

def Driver.hal : Driver → ModuleHal σ
  | ml307 => createMl307Hal port
  | air780e => createAir780eHal port

theorem Driver.entry_eq (driver : Driver) :
    driver.entry port = ⟨driver.type, some (detectBy port driver.mark), some (driver.hal port)⟩ := by
  cases driver <;> rfl

@[simp] theorem Driver.hal_moduleType (driver : Driver) :
    (driver.hal port).moduleType = driver.type := by
  cases driver <;> rfl

theorem Driver.adds_initializeHal (driver : Driver) (s : σ) :
    Adds (driver.hal port.transcribed).initializeHal s fun r _ es =>
      FollowsScript driver.script r es := by
  cases driver with
  | ml307 => exact Ml307.adds_initializeHal port s
  | air780e => exact Air780e.adds_initializeHal port s

/-- The registry behind the static objects of some drivers. -/
def registry (drivers : List Driver) : List (ModuleEntry σ) := drivers.map (Driver.entry port)

end

end EspModemLink.Device
