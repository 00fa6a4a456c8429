import TestPrograms.Foundations.Runs

/-! # `pci_enabler`

The probe and the remove function of the driver, over what the PCI core keeps of a device.
The outcomes of the kernel calls are parameters of a probe.
-/

namespace TestPrograms.PciEnabler

/-! ## The PCI core -/

inductive Driver where
  | enabler
  | other
  deriving DecidableEq, Repr

/-- A live I/O mapping: the resource it maps, and where. -/
structure Mapping where
  resource : Nat
  address : Nat
  deriving DecidableEq, Repr

structure PciDev where
  enableCount : Int
  /-- Who has requested the regions. -/
  owner : Option Driver
  mappings : List Mapping
  deriving DecidableEq, Repr

/-- What the four calls of a probe come to: return codes, and pointers that may be null. -/
structure Outcome where
  enable : Int
  request : Int
  mmio0 : Nat
  mmio1 : Nat
  deriving DecidableEq, Repr

def pciEnableDevice (rc : Int) (pdev : PciDev) : Int × PciDev :=
  (rc, if rc = 0 then { pdev with enableCount := pdev.enableCount + 1 } else pdev)

def pciDisableDevice (pdev : PciDev) : PciDev := { pdev with enableCount := pdev.enableCount - 1 }

/-- Regions that are taken are refused with `-EBUSY`. -/
def pciRequestRegions (rc : Int) (pdev : PciDev) : Int × PciDev :=
  if pdev.owner ≠ none then (-16, pdev)
  else (rc, if rc = 0 then { pdev with owner := some .enabler } else pdev)

/-- The regions are freed whoever has requested them. -/
def pciReleaseRegions (pdev : PciDev) : PciDev := { pdev with owner := none }

def ioremap (resource address : Nat) (pdev : PciDev) : Nat × PciDev :=
  (address, if address = 0 then pdev
    else { pdev with mappings := pdev.mappings ++ [⟨resource, address⟩] })

/-! ## The driver -/

section

variable {Dev : Type}

/-- The `static` variables of `pci_enabler_init_one`. -/
structure Statics (Dev : Type) where
  pcidev : Option Dev
  boardIdx : Int

-- `err_out: …`
def errOut (pdev : PciDev) : PciDev := pciDisableDevice (pciReleaseRegions pdev)

/-- `pci_enabler_init_one`; the pointers of the mappings are local variables. -/
def initOne (dev : Dev) (outcome : Outcome) (statics : Statics Dev) (pdev : PciDev) :
    Int × Statics Dev × PciDev :=
  let (rc, pdev) := pciEnableDevice outcome.enable pdev
  if rc ≠ 0 then (-1, statics, errOut pdev)
  else
    let (rc, pdev) := pciRequestRegions outcome.request pdev
    if rc ≠ 0 then (-1, statics, errOut pdev)
    else
      let statics := { statics with boardIdx := statics.boardIdx + 1 }
      let (mmio0Ptr, pdev) := ioremap 0 outcome.mmio0 pdev
      if mmio0Ptr = 0 then (-1, statics, errOut pdev)
      else
        let (mmio1Ptr, pdev) := ioremap 2 outcome.mmio1 pdev
        if mmio1Ptr = 0 then (-1, statics, errOut pdev)
        else (0, { statics with pcidev := some dev }, pdev)

/-- `pci_enabler_remove_one`; the calls of `iounmap` are compiled for `macchan` only. -/
def removeOne (pdev : PciDev) : PciDev := pciDisableDevice (pciReleaseRegions pdev)

/-! ## Probes and removes -/

/-- `bound` is what the driver core knows: the devices whose probe returned 0. -/
structure Bus (Dev : Type) where
  devices : Dev → PciDev
  bound : Dev → Bool
  statics : Statics Dev

inductive Event (Dev : Type) where
  | probe (dev : Dev) (outcome : Outcome)
  | remove (dev : Dev)
  deriving DecidableEq, Repr

inductive Stuck where
  | bound
  | notBound
  deriving DecidableEq, Repr

variable [DecidableEq Dev]

/-- The driver core probes devices without a driver and removes the ones it has bound. -/
def step (bus : Bus Dev) : Event Dev → Except Stuck (Bus Dev)
  | .probe dev outcome =>
    if bus.bound dev then .error .bound
    else
      let (rc, statics, pdev) := initOne dev outcome bus.statics (bus.devices dev)
      .ok {
        devices := Function.update bus.devices dev pdev
        bound := Function.update bus.bound dev (rc = 0)
        statics }
  | .remove dev =>
    if bus.bound dev then
      .ok { bus with
        devices := Function.update bus.devices dev (removeOne (bus.devices dev))
        bound := Function.update bus.bound dev false }
    else .error .notBound

end

end TestPrograms.PciEnabler
