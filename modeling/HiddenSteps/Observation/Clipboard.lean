import HiddenSteps.Observation.ActiveWindow
import Mathlib.Data.List.Infix

/-!
# Clipboard — what kind of thing has been copied, and how large it is

The Linux source notices another owner of the selection and asks it for the selection, twice: for
the formats it offers, and for the bytes in one of them, which are counted and dropped.  The Windows
source asks the system.
-/

namespace HiddenSteps
namespace Observation

open Systems Text

/-! ## Linux -/

namespace Linux

inductive XEvent where
  | selectionNotify (property : Nat)
  | other
  deriving DecidableEq

/-- What the X server and the owner of the selection answer during a poll. -/
structure SelectionAnswers where
  getSelectionOwner : Except String Nat
  /-- Converting to `TARGETS`, with its flush. -/
  convertTargets : Except String Unit
  /-- The events polled until the deadline. -/
  targetsEvents : List (Except String (Option XEvent))
  targets : Nat → Except String (List UInt8)
  /-- The names asked for while a target is chosen. -/
  atomName : Nat → Except String (List UInt8)
  /-- The name asked for once it is chosen. -/
  targetName : Nat → Except String (List UInt8)
  convertTarget : Nat → Except String Unit
  targetEvents : Nat → List (Except String (Option XEvent))
  /-- The selection in a target format, by the property it is put in. -/
  data : Nat → Nat → Except String (List UInt8)

structure ClipboardMetadataSource where
  lastOwner : Option Nat
  deriving DecidableEq

namespace ClipboardMetadataSource

def id : String := "linux.clipboard_metadata"

/-- The property of the first notification; `none` when the deadline comes before it. -/
def waitForSelectionNotify : List (Except String (Option XEvent)) → Except String (Option Nat)
  | [] => .ok none
  | .error e :: _ => .error e
  | .ok (some (.selectionNotify property)) :: _ => .ok (some property)
  | .ok _ :: events => waitForSelectionNotify events

/-- The atoms in the value of a property, four bytes each. -/
def atoms : List UInt8 → List Nat
  | b₀ :: b₁ :: b₂ :: b₃ :: bytes =>
      (b₀.toNat + 256 * (b₁.toNat + 256 * (b₂.toNat + 256 * b₃.toNat))) :: atoms bytes
  | _ => []

def isText (name : Except String (List UInt8)) : Bool :=
  match name with
  | .ok name =>
      let name := (fromUtf8Lossy name).toList
      decide ("UTF8".toList <:+: name) || decide ("STRING".toList <:+: name)
  | .error _ => false

/-- A target that sounds like text, or else the first one. -/
def chooseTarget (answers : SelectionAnswers) (targets : List Nat) : Option Nat :=
  (targets.find? fun a => isText (answers.atomName a)).or targets.head?

/-- The questions about a new selection. -/
def probe (answers : SelectionAnswers) : Except String (Option CapturedSignal) := do
  answers.convertTargets
  match ← waitForSelectionNotify answers.targetsEvents with
  | none => return none
  | some property =>
      let value ← answers.targets property
      match chooseTarget answers (atoms value) with
      | none => return none
      | some target =>
          let contentType ← answers.targetName target
          answers.convertTarget target
          match ← waitForSelectionNotify (answers.targetEvents target) with
          | none => return none
          | some property =>
              let value ← answers.data target property
              return some
                { sourceId := id
                  payload := .clipboardMetadata (fromUtf8Lossy contentType) value.length }

def poll (source : ClipboardMetadataSource) (answers : SelectionAnswers) :
    Except String (List CapturedSignal) × ClipboardMetadataSource :=
  match answers.getSelectionOwner with
  | .error e => (.error e, source)
  | .ok owner =>
      -- the owner is remembered before anything is asked of it
      if owner = 0 ∨ some owner = source.lastOwner then (.ok [], { lastOwner := some owner })
      else ((probe answers).map Option.toList, { lastOwner := some owner })

end ClipboardMetadataSource
end Linux

/-! ## Windows -/

namespace Windows

/-- What the system answers during a poll. -/
structure ClipboardAnswers where
  getClipboardSequenceNumber : Nat
  openClipboard : Bool
  /-- The first format on offer, zero for none. -/
  enumClipboardFormats : Nat
  /-- Empty for the predefined formats. -/
  getClipboardFormatName : Nat → List UInt16
  getClipboardData : Nat → Option (List UInt8)

structure ClipboardMetadataSource where
  lastSequence : Nat
  deriving DecidableEq

namespace ClipboardMetadataSource

def id : String := "windows.clipboard_metadata"

def new : ClipboardMetadataSource := { lastSequence := 0 }

def formatName (answers : ClipboardAnswers) (format : Nat) : String :=
  let name := answers.getClipboardFormatName format
  if name.isEmpty then "format:" ++ toString format else fromUtf16Lossy name

/-- The questions about a new content. -/
def probe (answers : ClipboardAnswers) : Option CapturedSignal :=
  if answers.openClipboard then
    let format := answers.enumClipboardFormats
    if format = 0 then none
    else
      (answers.getClipboardData format).map fun data =>
        { sourceId := id
          payload := .clipboardMetadata (formatName answers format) data.length }
  else none

def poll (source : ClipboardMetadataSource) (answers : ClipboardAnswers) :
    Except String (List CapturedSignal) × ClipboardMetadataSource :=
  let sequence := answers.getClipboardSequenceNumber
  if sequence = source.lastSequence then (.ok [], source)
  else (.ok (probe answers).toList, { lastSequence := sequence })

end ClipboardMetadataSource
end Windows

/-! ## What is reported -/

end Observation
end HiddenSteps
