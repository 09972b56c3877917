import Ikran.Lib.CString
import Mathlib.Data.List.GetD

/-!
# The strings that are shared

A string of `string_lib.c` is the text of a block that counts its references. A copy of it is one more
reference; who opens a string to write gets the block when it is not shared, and another block otherwise.

The references of the callers are kept beside the blocks: each holder has a place, which is `NULL` after the
reference was freed.
-/

namespace Strlib

open CStr

/-! ## Blocks -/

def stringSignature : UInt16 := 0x5354

/-- `string_block_t`, with all bytes that were allocated for `data`. -/
structure StringBlock where
  refcount : UInt16
  length : UInt16
  signature : UInt16
  data : CStr

/-- The bytes in front of the first terminator. -/
def StringBlock.text (b : StringBlock) : CStr := b.data.takeWhile (· ≠ nul)

/-- What `cpr_malloc` returns, by the blocks that are allocated, the number of the call, and the size. It
gives no memory that is in use. The bytes of new memory can have any values. -/
structure Allocator where
  malloc : (ℕ → Option StringBlock) → ℕ → ℕ → Option ℕ
  bytes : ℕ → ℕ → Char
  unused : ∀ {blocks call size p}, malloc blocks call size = some p → blocks p = none

/-- The blocks at their addresses, `empty_str`, how often memory was asked for, and whether a byte outside of
the blocks was written. -/
structure Mem where
  blocks : ℕ → Option StringBlock
  emptyStr : Option ℕ := none
  calls : ℕ := 0
  fault : Bool := false

/-- A number as a C `int`. -/
def toInt (n : ℕ) : ℤ := (n : ℤ).bmod (2 ^ 32)

def intMax : ℤ := 2147483647

/-- `sizeof(string_block_t)`. -/
def sizeofStringBlock : ℕ := 32

def overlay (data : CStr) (offset : ℕ) (bytes : CStr) : CStr :=
  data.take offset ++ bytes ++ data.drop (offset + bytes.length)

namespace Mem

/-- Update the block at an address. -/
def modifyBlock (m : Mem) (p : ℕ) (f : StringBlock → StringBlock) : Mem :=
  { m with blocks := Function.update m.blocks p ((m.blocks p).map f) }

def text (m : Mem) (p : ℕ) : CStr := ((m.blocks p).map StringBlock.text).getD []

/-- Bytes are written to a block from an offset on. What does not fit is written behind it. -/
def write (m : Mem) (p : ℕ) (offset : ℕ) (bytes : CStr) : Mem :=
  match m.blocks p with
  | none => { m with fault := true }
  | some b =>
    if offset + bytes.length ≤ b.data.length then
      m.modifyBlock p fun b => { b with data := overlay b.data offset bytes }
    else { m with fault := true }

def strlibIsString (m : Mem) : Option ℕ → Bool
  | none => false
  | some p =>
    match m.blocks p with
    | none => false
    | some b => b.signature = stringSignature

def strlibCopy (m : Mem) (str : Option ℕ) : Option ℕ × Mem :=
  match str with
  | none => (none, m)
  | some p =>
    if m.strlibIsString (some p) = false then (none, m)
    else
      match m.blocks p with
      | none => (none, m)
      | some b =>
        -- the count stays at the largest number
        if b.refcount < 0xffff ∧ some p ≠ m.emptyStr then
          (some p, m.modifyBlock p fun b => { b with refcount := b.refcount + 1 })
        else (some p, m)

def strlibFree (m : Mem) (str : Option ℕ) : Mem :=
  match str with
  | none => m
  | some p =>
    if m.strlibIsString (some p) = false ∨ some p = m.emptyStr then m
    else
      match m.blocks p with
      | none => m
      | some b =>
        if b.refcount - 1 = 0 then { m with blocks := Function.update m.blocks p none }
        else m.modifyBlock p fun b => { b with refcount := b.refcount - 1 }

end Mem

/-! ## Functions that allocate -/

namespace Allocator

variable (a : Allocator)

/-- The length of a new string: that of the text when none is given. -/
def mallocLength (str : CStr) (length : ℤ) : ℤ := if length < 0 then toInt str.length else length

/-- The `cpr_malloc` of `strlib_malloc`. A size that is no `int` is none that can be had. -/
def allocate (m : Mem) (str : CStr) (length : ℤ) : Option ℕ :=
  if mallocLength str length < 0 ∨ intMax < sizeofStringBlock + mallocLength str length + 1 then none
  else a.malloc m.blocks m.calls (sizeofStringBlock + (mallocLength str length).toNat + 1)

def rawBytes (call n : ℕ) : CStr := (List.range n).map (a.bytes call)

/-- The block that `strlib_malloc` fills: the text, cut to the length by `sstrncpy`, and a terminator at the
end. -/
def newBlock (call : ℕ) (str : CStr) (length : ℕ) : StringBlock where
  refcount := 1
  length := UInt16.ofNat length
  signature := stringSignature
  data := overlay (overlay (a.rawBytes call (length + 1)) 0 (str.take length ++ [nul])) length [nul]

def strlibMalloc (m : Mem) (str : CStr) (length : ℤ) : Option ℕ × Mem :=
  match a.allocate m str length with
  | none => (none, { m with calls := m.calls + 1 })
  | some p =>
    (some p, { m with
      blocks := Function.update m.blocks p (some (a.newBlock m.calls str (mallocLength str length).toNat))
      calls := m.calls + 1 })

/-- `strlib_empty`. The count of the empty string is written without a look at the result of
`strlib_malloc`. -/
def strlibEmpty (m : Mem) : Option ℕ × Mem :=
  match m.emptyStr with
  | some p => (some p, m)
  | none =>
    match a.strlibMalloc m [] (-1) with
    | (none, m) => (none, { m with fault := true })
    | (some p, m) =>
      (some p, { m.modifyBlock p fun b => { b with refcount := 0xffff } with emptyStr := some p })

/-- The new string, for which the old one is freed. When there is no memory, it is the old one. -/
def handBack (p : ℕ) : Option ℕ × Mem → Option ℕ × Mem
  | (none, m) => (some p, m)
  | (some q, m) => (some q, m.strlibFree (some p))

def strlibOpen (m : Mem) (str : Option ℕ) (length : ℤ) : Option ℕ × Mem :=
  match str with
  | none => (none, m)
  | some p =>
    if m.strlibIsString (some p) = false then (none, m)
    else
      match m.blocks p with
      | none => (none, m)
      | some b =>
        if b.refcount = 1 ∧ length ≤ b.length.toNat then (some p, m)
        else handBack p (a.strlibMalloc m b.text length)

def strlibUpdate (m : Mem) (destination : Option ℕ) (source : Option CStr) : Option ℕ × Mem :=
  match destination with
  | none => (none, m)
  | some p =>
    match source with
    | none | some [] => a.strlibEmpty (m.strlibFree (some p))
    | some (c :: s) => handBack p (a.strlibMalloc m (c :: s) (-1))

/-- The `strcpy` of `strlib_append` into the string that was opened. -/
def copyBehind (curlen : ℕ) (toappendStr : CStr) : Option ℕ × Mem → Option ℕ × Mem
  | (none, m) => (none, m)
  | (some q, m) => (some q, m.write q curlen (toappendStr ++ [nul]))

def strlibAppend (m : Mem) (str : Option ℕ) (toappendStr : CStr) : Option ℕ × Mem :=
  match str with
  | none => (none, m)
  | some p =>
    let curlen := (m.text p).length
    copyBehind curlen toappendStr (a.strlibOpen m (some p) (toInt (curlen + toappendStr.length + 1)))

end Allocator

/-! ## Holders -/

/-- The blocks, and the references of the holders. -/
structure Holders where
  mem : Mem
  refs : List (Option ℕ) := []

/-- What a holder does: make a string, take the empty one, copy a reference, and replace or free its own.
A string that is opened is written, byte after byte, and closed. -/
inductive StrOp
  | malloc (str : CStr) (length : ℤ)
  | empty
  | copy (holder : ℕ)
  | update (holder : ℕ) (source : Option CStr)
  | append (holder : ℕ) (toappendStr : CStr)
  | openWrite (holder : ℕ) (length : ℤ) (bytes : List (ℕ × Char))
  | free (holder : ℕ)

/-- The holder whose reference is replaced or freed, or whose string is written. -/
def StrOp.own : StrOp → Option ℕ
  | .malloc _ _ | .empty | .copy _ => none
  | .update i _ | .append i _ | .openWrite i _ _ | .free i => some i

namespace Holders

/-- The reference of a holder; `NULL` when it has none. -/
def ref (s : Holders) (holder : ℕ) : Option ℕ := (s.refs[holder]?).join

/-- A new holder gets a reference. -/
def take (s : Holders) (r : Option ℕ × Mem) : Holders := { mem := r.2, refs := s.refs ++ [r.1] }

/-- A holder gets another reference for its own. -/
def replace (s : Holders) (holder : ℕ) (r : Option ℕ × Mem) : Holders :=
  { mem := r.2, refs := s.refs.set holder r.1 }

end Holders

/-- The bytes that a holder writes to an open string. -/
def Mem.writeBytes (m : Mem) (str : Option ℕ) (bytes : List (ℕ × Char)) : Mem :=
  match str with
  | none => m
  | some p => bytes.foldl (fun m w => m.write p w.1 [w.2]) m

def Allocator.openWrite (a : Allocator) (m : Mem) (str : Option ℕ) (length : ℤ) (bytes : List (ℕ × Char)) :
    Option ℕ × Mem :=
  ((a.strlibOpen m str length).1, (a.strlibOpen m str length).2.writeBytes (a.strlibOpen m str length).1 bytes)

def Holders.step (a : Allocator) (s : Holders) : StrOp → Holders
  | .malloc str length => s.take (a.strlibMalloc s.mem str length)
  | .empty => s.take (a.strlibEmpty s.mem)
  | .copy i => s.take (s.mem.strlibCopy (s.ref i))
  | .update i source => s.replace i (a.strlibUpdate s.mem (s.ref i) source)
  | .append i toappendStr => s.replace i (a.strlibAppend s.mem (s.ref i) toappendStr)
  | .openWrite i length bytes => s.replace i (a.openWrite s.mem (s.ref i) length bytes)
  | .free i => s.replace i (none, s.mem.strlibFree (s.ref i))

/-- No string was made, and nobody holds a reference. -/
def Holders.init : Holders := { mem := { blocks := fun _ => none } }

end Strlib
