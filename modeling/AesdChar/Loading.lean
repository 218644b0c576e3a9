import AesdChar.InFlight

/-!
# Loading and unloading

The module's life: `aesd_init_module` with the steps that can fail, `aesd_cleanup_module`, and what
the kernel keeps for it, the number and the cdev it has registered and the files that are open. An
open file is a use of the module, since `aesd_fops` names its owner, and a module in use is not
unloaded. The memory that one load of the module leaves behind is still taken under the next one.
-/

namespace AesdChar

open Lib

def EBUSY : Int := 16

/-! ### Character devices -/

structure DevT where
  major : Nat
  minor : Nat
  deriving DecidableEq

def MKDEV (major minor : Nat) : DevT := ⟨major, minor⟩

@[simp] theorem MKDEV_major (major minor : Nat) : (MKDEV major minor).major = major := rfl

/-- `aesd_minor`, which nothing sets. -/
def aesdMinor : Nat := 0

structure Chrdevs where
  /-- The numbers that are taken, by this driver or another one. -/
  regions : Finset DevT
  /-- The numbers at which the driver's cdev answers. -/
  cdevs : Finset DevT
  /-- The numbers given back, or the cdev taken from them, where there was nothing. -/
  strays : List DevT

namespace Chrdevs

/-- `choice` is the major number that the kernel finds. -/
def allocChrdevRegion (chrdevs : Chrdevs) (choice : Option Nat) (minor : Nat) :
    Option DevT × Chrdevs :=
  match choice with
  | none => (none, chrdevs)
  | some major =>
      if MKDEV major minor ∈ chrdevs.regions then (none, chrdevs)
      else (some (MKDEV major minor),
        { chrdevs with regions := insert (MKDEV major minor) chrdevs.regions })

def unregisterChrdevRegion (chrdevs : Chrdevs) (dev : DevT) : Chrdevs :=
  if dev ∈ chrdevs.regions then { chrdevs with regions := chrdevs.regions.erase dev }
  else { chrdevs with strays := dev :: chrdevs.strays }

/-- `result` is what the call returns. -/
def cdevAdd (chrdevs : Chrdevs) (result : Int) (dev : DevT) : Chrdevs :=
  if result = 0 then { chrdevs with cdevs := insert dev chrdevs.cdevs } else chrdevs

def cdevDel (chrdevs : Chrdevs) (dev : DevT) : Chrdevs :=
  if dev ∈ chrdevs.cdevs then { chrdevs with cdevs := chrdevs.cdevs.erase dev }
  else { chrdevs with strays := dev :: chrdevs.strays }

end Chrdevs

/-! ### The machine -/

structure Machine where
  /-- The heap and `aesd_device`, and the positions of the files. -/
  system : System
  chrdevs : Chrdevs
  aesdMajor : Nat
  loaded : Bool
  /-- How often the module has been loaded. The device of each load is another object. -/
  loads : Nat
  /-- How often the device has been opened; the files are numbered in that order. -/
  opened : Nat
  files : Finset Nat
  /-- The device that `filp->private_data` points at, by the load it belongs to. -/
  privateData : Nat → Nat
  /-- A call has come to a device whose load is over. -/
  oops : Bool

/-- What comes from outside the driver: `none` when there is no number left, and the 0 or the error
that `cdev_add` returns. -/
structure InitEnv where
  major : Option Nat
  cdevAdd : Int
  cdevAdd_nonpos : cdevAdd ≤ 0

inductive Request where
  | insmod (env : InitEnv)
  | rmmod
  | openFile (dev : DevT)
  | call (call : Call)
  | release (file : Nat)

namespace Machine

/-- Before the module is loaded for the first time. -/
def boot (config : KmallocConfig) (others : Finset DevT) : Machine where
  system := System.init config
  chrdevs := ⟨others, ∅, []⟩
  aesdMajor := 0
  loaded := false
  loads := 0
  opened := 0
  files := ∅
  privateData := fun _ => 0
  oops := false

/-- `aesd_device` after the `memset` and `aesd_circular_buffer_init`. -/
def freshDevice : AesdDev := ⟨aesdCircularBufferInit, none, 0⟩

def aesdSetupCdev (env : InitEnv) (machine : Machine) : Int × Machine :=
  let devno := MKDEV machine.aesdMajor aesdMinor
  (env.cdevAdd, { machine with chrdevs := machine.chrdevs.cdevAdd env.cdevAdd devno })

def aesdInitModule (env : InitEnv) (machine : Machine) : Int × Machine :=
  match machine.chrdevs.allocChrdevRegion env.major aesdMinor with
  | (none, chrdevs) => (-EBUSY, { machine with chrdevs := chrdevs, aesdMajor := 0 })
  | (some dev, chrdevs) =>
      let (result, machine) := aesdSetupCdev env { machine with
        system := ⟨⟨machine.system.kernel.heap, freshDevice⟩, machine.system.fPos⟩
        chrdevs := chrdevs
        aesdMajor := dev.major }
      if result ≠ 0 then
        (result, { machine with chrdevs := machine.chrdevs.unregisterChrdevRegion dev })
      else (result, machine)

def aesdCleanupModule (machine : Machine) : Machine :=
  let devno := MKDEV machine.aesdMajor aesdMinor
  { machine with
    system := ⟨AesdChar.aesdCleanupModule machine.system.kernel, machine.system.fPos⟩
    chrdevs := (machine.chrdevs.cdevDel devno).unregisterChrdevRegion devno }

/-- Links the file to the device of the load that is there. -/
def aesdOpen (machine : Machine) (file : Nat) : Machine :=
  { machine with privateData := Function.update machine.privateData file machine.loads }

/-- A module whose init function returns an error is thrown away again. -/
def insmod (machine : Machine) (env : InitEnv) : Machine :=
  if machine.loaded then machine
  else
    let (result, machine) := aesdInitModule env machine
    if 0 ≤ result then { machine with loaded := true, loads := machine.loads + 1 } else machine

def rmmod (machine : Machine) : Machine :=
  if machine.loaded ∧ machine.files = ∅ then { machine.aesdCleanupModule with loaded := false }
  else machine

/-- The number decides whether the driver is asked at all. -/
def openFile (machine : Machine) (dev : DevT) : Machine :=
  if dev ∈ machine.chrdevs.cdevs then
    let file := machine.opened
    { machine.aesdOpen file with
      system := ⟨machine.system.kernel, Function.update machine.system.fPos file 0⟩
      opened := file + 1
      files := insert file machine.files }
  else machine

def fileCall (machine : Machine) (call : Call) : Machine :=
  if call.file ∈ machine.files then
    if machine.loaded ∧ machine.privateData call.file = machine.loads then
      { machine with system := machine.system.step call }
    else { machine with oops := true }
  else machine

/-- There is nothing for `aesd_release` to do. -/
def release (machine : Machine) (file : Nat) : Machine :=
  { machine with files := machine.files.erase file }

def step (machine : Machine) : Request → Machine
  | .insmod env => machine.insmod env
  | .rmmod => machine.rmmod
  | .openFile dev => machine.openFile dev
  | .call call => machine.fileCall call
  | .release file => machine.release file

def run (machine : Machine) (requests : List Request) : Machine := Lib.run step machine requests

/-! ### What happens in a run -/

/-- The calls that come to the driver, with the load whose device they are for. -/
def reaches (machine : Machine) : Request → List (Nat × Call)
  | .call call =>
      if call.file ∈ machine.files then [(machine.privateData call.file, call)] else []
  | _ => []

def callsIn (reached : List (Nat × Call)) (load : Nat) : List Call :=
  (reached.filter (·.1 = load)).map (·.2)

/-- The calls for the device of one load. -/
def callsOf (machine : Machine) (requests : List Request) (load : Nat) : List Call :=
  callsIn (history step reaches machine requests) load

def answers (file : Nat) (machine : Machine) : Request → List Response
  | .call call =>
      if call.file = file ∧ file ∈ machine.files then (machine.system.response call).toList else []
  | _ => []

/-- What the user of a file gets. -/
def responses (machine : Machine) (requests : List Request) (file : Nat) : List Response :=
  history step (answers file) machine requests

end Machine

end AesdChar
