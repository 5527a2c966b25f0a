import Asm2Runtime.SharedStore
import Mathlib.Algebra.Group.Int.Defs

/-!
# Preferences in the store

`nativeGetPreference` and `nativeSetPreference` keep their values in the
DataSharing store, under keys with a reserved beginning. A bundle is the map its
getters and putters show.
-/

namespace Asm2Runtime.SharedFile

section StorageKey

/-- The reserved beginning of every key that holds a preference. -/
def preferenceKeyPrefix : List UInt8 := ascii "__asm2_shared_pref_v1__"

/-- The length before the name keeps a pair of a name and a key apart from every other pair. -/
def preferenceStorageKey (allocated : Bool) (preferenceName key : Option CString) :
    Option CString :=
  let name := preferenceName.getD .empty
  match key with
  | none => none
  | some key =>
    let lengthText := decimal name.length ++ ascii ":"
    let total := preferenceKeyPrefix.length + lengthText.length + name.length + 1 + key.length + 1
    if lengthText.length ≥ 32 ∨ total > 2 ^ 32 - 1 then none
    else if total - 1 > sharedMaxKeySize then none
    else if allocated then
      some (.ofBuffer (preferenceKeyPrefix ++ lengthText ++ name.bytes ++ ascii ":" ++
        key.bytes ++ [0]))
    else none

end StorageKey

section Bundles

/-- The values the getters of a bundle know. -/
inductive BundleValue where
  | int (value : Int32)
  | long (value : Int64)
  | boolean (value : Bool)
  | object (chars : Option CString)
  deriving DecidableEq

abbrev Bundle := String → Option BundleValue

def Bundle.getInt (b : Bundle) (key : String) (preset : Int32) : Int32 :=
  match b key with
  | some (.int value) => value
  | _ => preset

def Bundle.getLong (b : Bundle) (key : String) (preset : Int64) : Int64 :=
  match b key with
  | some (.long value) => value
  | _ => preset

def Bundle.getBoolean (b : Bundle) (key : String) (preset : Bool) : Bool :=
  match b key with
  | some (.boolean value) => value
  | _ => preset

def Bundle.getString (b : Bundle) (key : String) : Option CString :=
  match b key with
  | some (.object chars) => chars
  | _ => none

/-- A put that may fail, with whether it did not. -/
def Bundle.put (b : Bundle) (accepted : Bool) (key : String) (value : BundleValue) :
    Bool × Bundle :=
  if accepted then (true, Function.update b key (some value)) else (false, b)

end Bundles

section Numbers

/-- `%d` -/
def signedDecimal (value : Int) : List UInt8 :=
  if value < 0 then ascii "-" ++ decimal value.natAbs else decimal value.natAbs

def isSpace (c : UInt8) : Bool := c == 0x20 || (0x09 ≤ c && c ≤ 0x0d)

def isDigit (c : UInt8) : Bool := 0x30 ≤ c && c ≤ 0x39

def splitSign : List UInt8 → Bool × List UInt8
  | 0x2d :: rest => (true, rest)
  | 0x2b :: rest => (false, rest)
  | text => (false, text)

/-- `strtol` in base ten for a type from `low` to `high`: the value and the unread rest, or
nothing when `errno` is set. -/
def strtol (low high : Int) (text : List UInt8) : Option (Int × List UInt8) :=
  let signed := splitSign (text.dropWhile isSpace)
  let digits := signed.2.takeWhile isDigit
  if digits = [] then some (0, text)
  else
    let size : Nat := digits.foldl (fun n c => 10 * n + (c.toNat - 0x30)) 0
    let value : Int := if signed.1 then -size else size
    if value < low ∨ high < value then none
    else some (value, signed.2.dropWhile isDigit)

/-- Accepts what `strtol` reads to the end, behind the mark `i:`. -/
def parsePreferenceInt (text : CString) : Option Int32 :=
  match text.bytes with
  | 0x69 :: 0x3a :: c :: rest =>
    -- A `long` has 32 bits on the target.
    match strtol (-2 ^ 31) (2 ^ 31 - 1) (c :: rest) with
    | some (value, []) => if -2 ^ 31 ≤ value ∧ value ≤ 2 ^ 31 - 1 then some (.ofInt value) else none
    | _ => none
  | _ => none

def parsePreferenceLong (text : CString) : Option Int64 :=
  match text.bytes with
  | 0x6a :: 0x3a :: c :: rest =>
    match strtol (-2 ^ 63) (2 ^ 63 - 1) (c :: rest) with
    | some (value, []) => some (.ofInt value)
    | _ => none
  | _ => none

end Numbers

section Access

structure GetOracle where
  keyAllocated : Bool
  copied : Bool
  /-- Whether the put of the stored value, and then that of the preset, is accepted. -/
  putStored : Bool
  putPreset : Bool

/-- The caller's own default goes in as the result, under the type asked for. -/
def preferencePutDefault (accepted : Bool) (bundle : Bundle) (type : Int32) : Bundle :=
  match type.toInt with
  | 0 => (bundle.put accepted "npResult" (.int (bundle.getInt "npDefaultValue" 0))).2
  | 1 => (bundle.put accepted "npResult" (.long (bundle.getLong "npDefaultValue" 0))).2
  | 2 => (bundle.put accepted "npResult" (.boolean (bundle.getBoolean "npDefaultValue" false))).2
  | 3 => (bundle.put accepted "npResult" (.object (bundle.getString "npDefaultValue"))).2
  | _ => bundle

/-- What a stored text gives as a value of the type asked for. -/
def storedValue (type : Int32) (stored : CString) : Option BundleValue :=
  match type.toInt with
  | 0 => (parsePreferenceInt stored).map .int
  | 1 => (parsePreferenceLong stored).map .long
  | 2 =>
    match stored.bytes with
    | [0x7a, 0x3a, 0x30] => some (.boolean false)
    | [0x7a, 0x3a, 0x31] => some (.boolean true)
    | _ => none
  | 3 =>
    match stored.bytes with
    | 0x73 :: 0x3a :: rest => some (.object (some (.ofBuffer (rest ++ [0]))))
    | _ => none
  | _ => none

/-- The bundle handed back. The store is only read. -/
def preferenceGet (o : GetOracle) (w : World) (bundle : Bundle) : Bundle :=
  let type := bundle.getInt "npDataType" 0
  let storageKey :=
    preferenceStorageKey o.keyAllocated (bundle.getString "npPrefName") (bundle.getString "npKey")
  let stored :=
    match storageKey with
    | none => none
    | some key => sharedValueCopy o.copied w (some key)
  match stored with
  | none => preferencePutDefault o.putPreset bundle type
  | some stored =>
    if 0 ≤ type.toInt ∧ type.toInt ≤ 3 then
      match storedValue type stored with
      | none => preferencePutDefault o.putPreset bundle type
      | some value =>
        let put := bundle.put o.putStored "npResult" value
        if put.1 then put.2 else preferencePutDefault o.putPreset put.2 type
    else bundle

structure PreferenceSetOracle where
  keyAllocated : Bool
  encodedAllocated : Bool
  set : SetOracle

/-- The text that is stored for the bundle's data, when its type has one. -/
def encodedPreference (bundle : Bundle) : Option CString :=
  match (bundle.getInt "npDataType" 0).toInt with
  | 0 => some (.ofBuffer (ascii "i:" ++ signedDecimal (bundle.getInt "npData" 0).toInt ++ [0]))
  | 1 => some (.ofBuffer (ascii "j:" ++ signedDecimal (bundle.getLong "npData" 0).toInt ++ [0]))
  | 2 => some (.ofBuffer ((if bundle.getBoolean "npData" false then ascii "z:1" else ascii "z:0") ++
      [0]))
  | 3 =>
    match bundle.getString "npData" with
    | none => none
    | some value =>
      if value.length ≤ sharedMaxValueSize - 2 then
        some (.ofBuffer (ascii "s:" ++ value.bytes ++ [0]))
      else none
  | _ => none

/-- A type that has no text form stores nothing. -/
def preferenceSet (o : PreferenceSetOracle) (w : World) (bundle : Bundle) :
    Checked (Outcome × World) :=
  let storageKey :=
    preferenceStorageKey o.keyAllocated (bundle.getString "npPrefName") (bundle.getString "npKey")
  let encoded := if o.encodedAllocated then encodedPreference bundle else none
  match storageKey, encoded with
  | some key, some text => sharedValueSetLocked o.set w (some key) (some text)
  | _, _ => return (.refused, w)

end Access

section Installer

def installerPreferences : CString := .ofBuffer (ascii "GameActivityPrefs")
def installerSdKey : CString := .ofBuffer (ascii "SDFolder")

structure InstallerOracle where
  keyAllocated : Bool
  copied : Bool
  encodedAllocated : Bool
  set : SetOracle

/-- Whether a stored preference is of the type string, whatever its text. -/
def startsString (text : CString) : Bool :=
  match text.bytes with
  | 0x73 :: 0x3a :: _ => true
  | _ => false

/-- The directory is stored once. A string that is there already stays. -/
def ensureInstallerPreferences (o : InstallerOracle) (w : World) : Checked (Outcome × World) :=
  match w.state.resourceDirectory with
  | none => return (.refused, w)
  | some resource =>
    match preferenceStorageKey o.keyAllocated (some installerPreferences) (some installerSdKey) with
    | none => return (.refused, w)
    | some storageKey =>
      if (sharedValueCopy o.copied w (some storageKey)).any startsString then
        return (⟨true, none⟩, w)
      else if resource.length > sharedMaxValueSize - 2 ∨ o.encodedAllocated = false then
        return (.refused, w)
      else
        sharedValueSetLocked o.set w (some storageKey)
          (some (.ofBuffer (ascii "s:" ++ resource.bytes ++ [0])))

end Installer

end Asm2Runtime.SharedFile
