import Sp2Module.NumberText
import Sp2Module.PatchConfig
import Sp2Module.Text

/-!
# Patch scripts

A script has an entry on each line: a type, an address and a payload with an arrow between them.
Strings are lists of characters. `StartsWith` with a string asks the current culture, which is the
parameter `CompareInfo`; it may pass over characters that it ignores. Each part is read by a
function of the runtime library that takes more than the script is meant to have and fails with
exceptions of its own.
-/

namespace Sp2Module

/-- What `StartsWith` asks of the current culture. -/
structure CompareInfo where
  isPrefix : List Char → List Char → Bool

/-- The comparison of the invariant culture on text without ignorable characters. -/
def CompareInfo.ordinal : CompareInfo where
  isPrefix s p := p.isPrefixOf s

inductive PatchTypeEnum where
  | bl
  | b
  | data
  | ptr
deriving DecidableEq, Repr

namespace PatchTypeEnum

def all : List PatchTypeEnum := [bl, b, data, ptr]

def word : PatchTypeEnum → List Char
  | bl => "bl".toList
  | b => "b".toList
  | data => "data".toList
  | ptr => "ptr".toList

def value : PatchTypeEnum → ℕ
  | bl => 0
  | b => 1
  | data => 2
  | ptr => 3

/-- The member of a value, which may have none. -/
def ofValue (v : ℤ) : Option PatchTypeEnum := all.find? fun t => (t.value : ℤ) = v

end PatchTypeEnum

/-- `Char.IsWhiteSpace`. -/
def isWhiteSpace (c : Char) : Bool :=
  isWhite c || (0x2000 ≤ c.toNat && c.toNat ≤ 0x200A) ||
    [0x85, 0xA0, 0x1680, 0x2028, 0x2029, 0x202F, 0x205F, 0x3000].contains c.toNat

/-- A list of names with commas between them. -/
def enumParseNames (names : List (List Char × ℕ)) (value : List Char) : Except Exception ℤ :=
  match (value.splitOn ',').mapM fun name => names.lookup (trim isWhiteSpace name) with
  | none => .error .argument
  | some values => .ok (values.foldl (· ||| ·) 0 : ℕ)

/-- `Enum.Parse`, for an enumeration over `int`. Text that begins like a number is tried as one
first; a digit that is not from 0 to 9 begins no number. -/
def enumParse (names : List (List Char × ℕ)) (value : List Char) : Except Exception ℤ :=
  match trim isWhiteSpace value with
  | [] => .error .argument
  | c :: s =>
    if c.isDigit ∨ c = '-' ∨ c = '+' then
      match (intParse (c :: s) : Except Exception ℤ) with
      | .ok v => .ok v
      | .error .format => enumParseNames names (c :: s)
      | .error x => .error x
    else enumParseNames names (c :: s)

def PatchTypeEnum.parse (s : List Char) : Except Exception ℤ :=
  enumParse (all.map fun t => (t.word, t.value)) s

/-- The modules that an address may name. -/
def moduleWords : List (List Char × NsoTypeEnum) :=
  [("rtld".toList, .rtld), ("main".toList, .main), ("sdk".toList, .sdk)]

/-- `$` stands before a newline at the end, too. -/
def dropNewline (s : List Char) : List Char := if s.getLast? = some '\n' then s.dropLast else s

/-- `([0-9]{1,})|(0x[0-9a-fA-F]{1,})` up to the end. -/
def numberPattern (s : List Char) : Bool :=
  match dropNewline s with
  | '0' :: 'x' :: digits => digits ≠ [] && digits.all isHexDigit
  | digits => digits ≠ [] && digits.all Char.isDigit

/-- The two sides of the plus where the text matches
`^(rtld|main|sdk)\+(([0-9]{1,})|(0x[0-9a-fA-F]{1,}))$`, the first one as the module it names. -/
def addressMatch (s : List Char) : Option (NsoTypeEnum × List Char) :=
  match s.splitOn '+' with
  | [word, number] =>
    if numberPattern number then (moduleWords.lookup word).map fun nsoType => (nsoType, number)
    else none
  | _ => none

/-- No culture joins the `x` with a digit behind it. -/
def parseOffset (number : List Char) : Except Exception UInt32 :=
  match number with
  | '0' :: 'x' :: digits => uintParseHex digits
  | digits => uintParse digits

/-- `MemAddress(string)`. -/
def MemAddress.parse (ci : CompareInfo) (s : List Char) : Except Exception MemAddress :=
  if ci.isPrefix s ['!'] then
    match s with
    | [] => .error .argumentOutOfRange
    | _ :: name => .ok (.symbol (String.ofList name))
  else
    match addressMatch s with
    | none => .error (.app (.patchConfig ("Invalid address : " ++ String.ofList s)))
    | some (nsoType, number) => (parseOffset number).map (.offset nsoType)

/-- The UTF-16 code units of a character. -/
def utf16 (c : Char) : List ℕ :=
  if c.toNat < 0x10000 then [c.toNat]
  else [0xD800 + (c.toNat - 0x10000) / 0x400, 0xDC00 + (c.toNat - 0x10000) % 0x400]

/-- A code unit as a hexadecimal digit. -/
def hexUnit (u : ℕ) : Option ℕ :=
  if isHexDigit (Char.ofNat u) then some (digitValue (Char.ofNat u)) else none

/-- `Convert.ToByte(s, 16)` for two code units. A plus may stand before one digit. -/
def toByte16 (u v : ℕ) : Except Exception UInt8 :=
  if u = '-'.toNat then .error .argument
  else if u = '+'.toNat then
    match hexUnit v with
    | none => .error .format
    | some d => .ok (UInt8.ofNat d)
  else
    match hexUnit u, hexUnit v with
    | some d, some d' => .ok (UInt8.ofNat (16 * d + d'))
    | _, _ => .error .format

def hexUnitsToBytes : List ℕ → Except Exception Bytes
  | [] => .ok []
  | [_] => .error .argumentOutOfRange
  | u :: v :: units => do
    let byte ← toByte16 u v
    let bytes ← hexUnitsToBytes units
    return byte :: bytes

def hexToBytes (hex : List Char) : Except Exception Bytes := hexUnitsToBytes (hex.flatMap utf16)

def isBlank (c : Char) : Bool := c == ' '

namespace PatchEntry

def invalidEntry (line : List Char) : Exception :=
  .app (.patchConfig ("Invalid Entry : \"" ++ String.ofList line ++ "\""))

/-- The payload of the entry, by the type. -/
def parseData (ci : CompareInfo) (line : List Char) (patchType : ℤ) (rest : List (List Char)) :
    Except Exception PatchData :=
  match PatchTypeEnum.ofValue patchType, rest with
  | none, _ => .error (.app (.patchConfig "Invalid patch type"))
  | some .bl, [payload] => (MemAddress.parse ci payload).map .bl
  | some .b, [payload] => (MemAddress.parse ci payload).map .b
  | some .ptr, [payload] => (MemAddress.parse ci payload).map .ptr
  | some .data, [payload] => (hexToBytes payload).map .data
  | some _, _ => .error (invalidEntry line)

/-- The parts of the line, without the blanks around them. -/
def fields (line : List Char) : List (List Char) := (splitPair '-' '>' line).map (trim isBlank)

/-- `PatchEntry(string)`. -/
def parse (ci : CompareInfo) (line : List Char) : Except Exception PatchEntry :=
  match fields line with
  | type :: address :: rest => do
    let patchType ← PatchTypeEnum.parse type
    let address ← MemAddress.parse ci address
    let data ← parseData ci line patchType rest
    return ⟨address, data⟩
  | _ => .error (invalidEntry line)

end PatchEntry

def isTabOrBlank (c : Char) : Bool := c == '\t' || c == ' '

/-- `PatchConfig.GetHooks`, for the lines of the file. -/
def getHooks (ci : CompareInfo) : List (List Char) → Except Exception (List PatchEntry)
  | [] => .ok []
  | line :: lines =>
    let s := trim isTabOrBlank line
    if s = [] ∨ ci.isPrefix s ['#'] then getHooks ci lines
    else do
      let entry ← PatchEntry.parse ci s
      let entries ← getHooks ci lines
      return entry :: entries

end Sp2Module
