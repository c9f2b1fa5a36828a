import Mathlib.Data.List.DropRight
import Osnos.Fat.Geometry

/-! Short names, long-name slots and the accumulator that joins them.
A C string is the list of its bytes before the terminating zero. -/
namespace Osnos.Fat

abbrev Slot := Nat → UInt8
def upcase (c : UInt8) : UInt8 := if 97 ≤ c ∧ c ≤ 122 then c - 32 else c
def downcase (c : UInt8) : UInt8 := if 65 ≤ c ∧ c ≤ 90 then c + 32 else c
def pad (n : Nat) (xs : List UInt8) : List UInt8 := xs ++ List.replicate (n - xs.length) 32

/-- The packed 11-byte form of a path component, or `none` where it does not fit. -/
def nameTo83 (name : List UInt8) : Option (List UInt8) :=
  let base := name.takeWhile (· ≠ 46)
  if base.length > 8 ∨ 32 ∈ base then none
  else match name.dropWhile (· ≠ 46) with
    | [] => some (pad 8 (base.map upcase) ++ pad 3 [])
    | _ :: ext =>
      if 46 ∈ ext ∨ 32 ∈ ext ∨ ext.length > 3 then none
      else some (pad 8 (base.map upcase) ++ pad 3 (ext.map upcase))

variable (raw : Slot)

def bytesAt (start n : Nat) : List UInt8 := (List.range n).map fun i => raw (start + i)
def name11 : List UInt8 := bytesAt raw 0 11
def cstr (xs : List UInt8) : List UInt8 := xs.takeWhile (· ≠ 0)

def nameFrom83Ext (ntFlags : UInt8) : List UInt8 :=
  let base := (bytesAt raw 0 8).rdropWhile (· = 32)
  let ext := (bytesAt raw 8 3).rdropWhile (· = 32)
  let base := if ntFlags &&& 0x08 ≠ 0 then base.map downcase else base
  let ext := if ntFlags &&& 0x10 ≠ 0 then ext.map downcase else ext
  cstr (if ext = [] then base else base ++ 46 :: ext)

def nameFrom83 : List UInt8 := nameFrom83Ext raw 0

structure Dirent where
  name : List UInt8
  shortName : List UInt8
  isDir : Bool
  size : Nat
  firstCluster : Nat
  direntLba : Nat
  direntOffset : Nat
  deriving DecidableEq

def isDirSlot : Bool := raw 11 &&& 0x10 ≠ 0

def parseDirent (lba off : Nat) : Dirent where
  name := nameFrom83Ext raw (raw 0x0C)
  shortName := nameFrom83 raw
  isDir := isDirSlot raw
  size := rd32 raw 28
  firstCluster := rd16 raw 26
  direntLba := lba
  direntOffset := off

def isLfnSlot : Bool := raw 11 &&& 0x0F = 0x0F
def isVolSlot : Bool := raw 11 &&& 0x08 ≠ 0
def direntIsValid : Bool := raw 0 ≠ 0xE5 && !isLfnSlot raw && !isVolSlot raw
def lfnCharByteOffsets : List Nat := [1, 3, 5, 7, 9, 14, 16, 18, 20, 22, 24, 28, 30]

def lfnChecksum11 (name11 : List UInt8) : UInt8 :=
  name11.foldl (fun sum c => ((sum &&& 1) <<< 7 ||| sum >>> 1) + c) 0

def lfnExtractFrom (slot : Slot) : List Nat → List UInt8
  | [] => []
  | o :: rest =>
    if slot o = 0 ∧ slot (o + 1) = 0 then []
    else if slot o = 0xFF ∧ slot (o + 1) = 0xFF then []
    else (if slot (o + 1) ≠ 0 then 63 else slot o) :: lfnExtractFrom slot rest

def lfnExtractChars (slot : Slot) : List UInt8 := lfnExtractFrom slot lfnCharByteOffsets

/-- `lfn_accum_t`. The name buffer has 64 bytes, of which the last only ever
holds the terminator; it starts zeroed where the C array starts undefined. -/
structure LfnAccum where
  active : Bool
  totalSlots : Nat
  nextSeq : Nat
  checksum : UInt8
  name : Nat → UInt8

namespace LfnAccum

def empty : LfnAccum := ⟨false, 0, 0, 0, fun _ => 0⟩
def reset (a : LfnAccum) : LfnAccum := ⟨false, 0, 0, 0, Function.update a.name 0 0⟩

/-- The stores of one slot's characters, none past byte 62. -/
def store (name : Nat → UInt8) (base : Nat) (chunk : List UInt8) : Nat → UInt8 := fun k =>
  if base ≤ k ∧ k < base + chunk.length ∧ k < 63 then chunk.getD (k - base) 0 else name k

/-- The merge that follows the checks of `lfn_accum_consume`. The base offset of
sequence number 0 is `(size_t)-13`, past every store; the counter is a byte. -/
def merge (a : LfnAccum) (seq : Nat) (isLast : Bool) (chunk : List UInt8) : LfnAccum :=
  let base := if seq = 0 then 2 ^ 64 - 13 else (seq - 1) * 13
  let name := store a.name base chunk
  let name := if isLast then Function.update name (min (base + chunk.length) 63) 0 else name
  { a with name := name, nextSeq := (a.nextSeq + 255) % 256 }

def consume (a : LfnAccum) (slot : Slot) : LfnAccum :=
  let seq := (slot 0 &&& 0x1F).toNat
  let isLast : Bool := slot 0 &&& 0x40 ≠ 0
  let cksum := slot 13
  if isLast then
    if seq = 0 ∨ seq > 5 then a.reset
    else merge { a.reset with active := true, totalSlots := seq, nextSeq := seq, checksum := cksum }
      seq isLast (lfnExtractChars slot)
  else if !a.active then a
  else if cksum ≠ a.checksum then a.reset
  else if seq ≠ a.nextSeq then a.reset
  else merge a seq isLast (lfnExtractChars slot)

def finalize (a : LfnAccum) (name11 : List UInt8) : Option (List UInt8) :=
  if a.active ∧ a.nextSeq = 0 ∧ a.checksum = lfnChecksum11 name11 then
    some (cstr ((List.range 63).map a.name))
  else none

end LfnAccum

def nameIequal (a b : List UInt8) : Bool := a.map upcase = b.map upcase

end Osnos.Fat
