import Mathlib.Algebra.Group.Nat.Defs
import K64.Keyboard
import Mathlib.Data.Int.Basic

/-! # The installer wizard

The wizard of `k64s_builtin.c`: three steps with a focus, a list of disks that is read again before every
screen, and the call that writes the disk. Of a screen only what it shows as selected is kept. -/
namespace Installer

open Keyboard

abbrev Str := List UInt8

structure BlockDevice where
  name : Str
  source : Str
  isPartition : Bool
  online : Bool
  writable : Bool
  blockCount : ℕ
  blockSize : ℕ

structure InstallerDisk where
  name : Str
  bytes : ℕ

structure Wizard where
  step : ℤ
  focus : ℤ
  diskIndex : ℕ
  diskCount : ℕ
  sudoer : Bool
  confirm : Bool
  quit : Bool
  installed : Bool
  username : Str
  password : Str
  message : String
  disks : ℕ → InstallerDisk

def usernameSize : ℕ := 32

def passwordSize : ℕ := 48

def diskNameSize : ℕ := 32

def maxDisks : ℕ := 8

/-- `installer_copy` into an array of a size. -/
def installerCopy (size : ℕ) (src : Str) : Str := src.take (size - 1)

def installerAppendChar (dst : Str) (dstSize : ℕ) (ch : UInt8) : Str :=
  if dstSize ≤ dst.length + 1 ∨ ch < 32 ∨ 126 < ch then dst else dst ++ [ch]

def installerBackspace (dst : Str) : Str := dst.dropLast

/-- Names and sources that are not a disk: "rootmod", "multiboot" and "memory". -/
def rootmodName : Str := [114, 111, 111, 116, 109, 111, 100]

def multibootSource : Str := [109, 117, 108, 116, 105, 98, 111, 111, 116]

def memorySource : Str := [109, 101, 109, 111, 114, 121]

def BlockDevice.listed (dev : BlockDevice) : Bool :=
  !dev.isPartition && dev.online && dev.writable && dev.name != rootmodName &&
    dev.source != multibootSource &&
    dev.source != memorySource

def listDisks : List (Option BlockDevice) → Wizard → Wizard
  | [], w => w
  | dev :: rest, w =>
    if maxDisks ≤ w.diskCount then w
    else
      match dev with
      | none => listDisks rest w
      | some dev =>
        if dev.listed then
          listDisks rest { w with
            disks := Function.update w.disks w.diskCount
              ⟨installerCopy diskNameSize dev.name, dev.blockCount * dev.blockSize % 2 ^ 64⟩
            diskCount := w.diskCount + 1 }
        else listDisks rest w

def installerRefreshDisks (w : Wizard) (devices : List (Option BlockDevice)) : Wizard :=
  let w := listDisks devices { w with diskCount := 0 }
  if w.diskCount ≤ w.diskIndex then
    { w with diskIndex := if 0 < w.diskCount then w.diskCount - 1 else 0 }
  else w

/-- What a screen shows: the step and the name of the disk that is selected, or will be written. -/
structure Screen where
  step : ℤ
  selected : Option Str
  message : String

def installerDraw (w : Wizard) : Screen where
  step := w.step
  selected :=
    if w.step = 0 then if w.diskIndex < w.diskCount then some (w.disks w.diskIndex).name else none
    else if w.step = 1 then none
    else if w.diskCount ≠ 0 then some (w.disks w.diskIndex).name
    else none
  message := w.message

inductive Action where
  | draw (screen : Screen)
  /-- `k64_fs_install_to_block_device`, with the box as it was. -/
  | install (name : Str) (confirm : Bool)

/-- The answers of the account and of the disk in a round. -/
structure Answers where
  created : Bool
  installed : Bool

def maxFocus (w : Wizard) : ℤ := if w.step = 1 then 4 else if w.step = 2 then 2 else 1

def installerFocusNext (w : Wizard) (dir : ℤ) : Wizard :=
  let focus := w.focus + dir
  let focus := if focus < 0 then maxFocus w else focus
  let focus := if maxFocus w < focus then 0 else focus
  { w with focus := focus }

def installerFocusIsLast (w : Wizard) : Bool :=
  if w.step = 1 then w.focus == 4 else if w.step = 2 then w.focus == 2 else w.focus == 1

def installerNextStep (w : Wizard) : Wizard :=
  let w := { w with message := "" }
  if w.step = 0 ∧ w.diskCount = 0 then { w with message := "No writable target disk found." }
  else if w.step < 2 then { w with step := w.step + 1, focus := 0 }
  else w

def installerPrevStep (w : Wizard) : Wizard :=
  let w := { w with message := "" }
  if 0 < w.step then { w with step := w.step - 1, focus := 0 } else w

def installerRunInstall (w : Wizard) (a : Answers) : Wizard × List Action :=
  if w.confirm = false then ({ w with message := "Check the confirmation box before installing." }, [])
  else if w.diskCount = 0 then ({ w with message := "No target disk selected." }, [])
  else
    let devName := (w.disks w.diskIndex).name
    if w.username ≠ [] ∧ w.password ≠ [] ∧ a.created = false then
      ({ w with message := "User creation failed." }, [])
    else
      let w := { w with message := "Installing K64XFS system. Please wait..." }
      let actions := [.draw (installerDraw w), .install devName w.confirm]
      if a.installed = false then
        ({ w with message := "Install failed. Check target disk and try again." }, actions)
      else
        ({ w with
          installed := true
          message := "Install complete. Remove ISO and reboot from disk." }, actions)

def handleChar (w : Wizard) (ch : UInt8) : Wizard :=
  if ch = 110 ∨ ch = 78 then installerNextStep w
  else if ch = 98 ∨ ch = 66 then installerPrevStep w
  else if (ch = 120 ∨ ch = 88) ∧ w.step = 1 ∧ w.focus = 2 then { w with sudoer := !w.sudoer }
  else if (ch = 120 ∨ ch = 88) ∧ w.step = 2 ∧ w.focus = 0 then { w with confirm := !w.confirm }
  else if ch = 32 ∧ w.step = 1 ∧ w.focus = 2 then { w with sudoer := !w.sudoer }
  else if ch = 32 ∧ w.step = 2 ∧ w.focus = 0 then { w with confirm := !w.confirm }
  else if w.step = 1 ∧ w.focus = 0 then
    { w with username := installerAppendChar w.username usernameSize ch }
  else if w.step = 1 ∧ w.focus = 1 then
    { w with password := installerAppendChar w.password passwordSize ch }
  else w

def handleEnter (w : Wizard) (a : Answers) : Wizard × List Action :=
  if w.installed then ({ w with quit := true }, [])
  else if w.step = 0 then (installerNextStep w, [])
  else if w.step = 1 ∧ w.focus = 2 then ({ w with sudoer := !w.sudoer }, [])
  else if w.step = 1 ∧ w.focus = 3 then (installerPrevStep w, [])
  else if w.step = 1 then (installerNextStep w, [])
  else if w.step = 2 ∧ w.focus = 0 then ({ w with confirm := !w.confirm }, [])
  else if w.step = 2 ∧ w.focus = 1 then (installerPrevStep w, [])
  else if w.step = 2 then installerRunInstall w a
  else (w, [])

def installerHandleEvent (w : Wizard) (e : KeyEvent) (a : Answers) : Wizard × List Action :=
  match e.type with
  | .escape => ({ w with quit := true }, [])
  | .tab =>
    if installerFocusIsLast w then
      if w.step < 2 then (installerNextStep w, []) else installerRunInstall w a
    else (installerFocusNext w 1, [])
  | .up =>
    if w.step = 0 ∧ w.focus = 0 ∧ 0 < w.diskIndex then ({ w with diskIndex := w.diskIndex - 1 }, [])
    else (installerFocusNext w (-1), [])
  | .down =>
    if w.step = 0 ∧ w.focus = 0 ∧ w.diskIndex + 1 < w.diskCount then
      ({ w with diskIndex := w.diskIndex + 1 }, [])
    else (installerFocusNext w 1, [])
  | .left => (installerPrevStep w, [])
  | .right => (installerNextStep w, [])
  | .backspace =>
    let w := if w.step = 1 ∧ w.focus = 0 then
      { w with username := installerBackspace w.username } else w
    (if w.step = 1 ∧ w.focus = 1 then { w with password := installerBackspace w.password } else w, [])
  | .char => (handleChar w e.ch, [])
  | .enter => handleEnter w a
  | _ => (w, [])

/-- One round: the devices that are there, the event, and the answers of what it calls. -/
structure Round where
  devices : List (Option BlockDevice)
  event : KeyEvent
  answers : Answers

/-- One round of `installer_wizard_run`: the disks are read, the screen is drawn, the event is handled. -/
def wizardRound (w : Wizard) (r : Round) : Wizard × List Action :=
  let w := installerRefreshDisks w r.devices
  let (w', actions) := installerHandleEvent w r.event r.answers
  (w', .draw (installerDraw w) :: actions)

def wizardStart (devices : List (Option BlockDevice)) : Wizard :=
  installerRefreshDisks
    { step := 0, focus := 0, diskIndex := 0, diskCount := 0, sudoer := true, confirm := false,
      quit := false,
      installed := false, username := installerCopy usernameSize [117, 115, 101, 114], password := [],
      message := "", disks := fun _ => ⟨[], 0⟩ } devices

end Installer
