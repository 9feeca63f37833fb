import CheckRealtime.ConfigTree
/-!
# ConfigWrite — `config_write` of libconfig

What is written of a tree.  A floating point number is written by `printFloat`, given the text it was read from; for the
library that is `floatText` of what `snprintf` makes of the number.
-/
namespace CheckRealtime.Libconfig

/-! ## Numbers and strings -/

/-- `%X`. -/
def hexNat (n : Nat) : Str := (Nat.toDigits 16 n).map (fun c => UInt8.ofNat c.toUpper.toNat)

/-- A digit of it. -/
def xchar (n : Nat) : UInt8 := UInt8.ofNat (if n < 10 then 48 + n else 55 + n)

/-- The number an `int` or `long long` of `bits` bits is as `%X` and `%llX` take it. -/
def asUnsigned (bits : Nat) (i : Int) : Nat := (i % 2 ^ bits).toNat

/-- The loop that looks for the last character that is not `'0'`, but for the first one of the text. -/
def dropZeros : Str → Str
  | []     => []
  | c :: s => match (s.reverse.dropWhile (· == 48)).reverse with
    | []     => c :: s
    | d :: t => c :: d :: t

/-- What becomes of `fbuf`, so that a floating point number can be told from an integer. -/
def floatText (fbuf : Str) : Str :=
  if fbuf.contains 101 then fbuf
  else if !fbuf.contains 46 then fbuf ++ ascii ".0"
  else dropZeros fbuf

def escapeByte (c : UInt8) : Str :=
  if c == 34 || c == 92 then [92, c]
  else if c == 10 then ascii "\\n"
  else if c == 13 then ascii "\\r"
  else if c == 12 then ascii "\\f"
  else if c == 9 then ascii "\\t"
  else if 32 ≤ c then [c]
  else ascii "\\x" ++ [xchar (c.toNat / 16), xchar (c.toNat % 16)]

/-! ## Settings -/

/-- `__config_indent`: a field of at least one blank, or tabs. -/
def indent (depth tabWidth : Nat) : Str :=
  if tabWidth ≠ 0 then List.replicate (max 1 ((depth - 1) * tabWidth)) 32 else List.replicate (depth - 1) 9

/-- `__config_write_setting`, around what `__config_write_value` writes of the value. -/
def writeSetting (tabWidth depth : Nat) (name : Option Str) (setting : Setting) (value : Str) : Str :=
  (if depth > 1 then indent depth tabWidth else []) ++
    (match name with
      | none      => []
      | some name => name ++ [32, if setting.isGroup then 58 else 61, 32]) ++
    value ++ (if depth > 0 then ascii ";\n" else [])

section
variable (printFloat : Str → Str) (tabWidth : Nat)

mutual

/-- `__config_write_value` -/
def writeValue : Nat → Setting → Str
  | _, .boolean ival       => if ival then ascii "true" else ascii "false"
  | _, .int ival .hex      => ascii "0x" ++ hexNat (asUnsigned 32 ival)
  | _, .int ival .decimal  => dec ival
  | _, .int64 llval .hex     => ascii "0x" ++ (hexNat (asUnsigned 64 llval) ++ [76])
  | _, .int64 llval .decimal => dec llval ++ [76]
  | _, .float text         => printFloat text
  | _, .string sval        => 34 :: ((cstr sval).flatMap escapeByte ++ [34])
  | depth, .list vs        => ascii "( " ++ (writeElems (depth + 1) vs ++ ascii ")")
  | depth, .array vs       => ascii "[ " ++ (writeElems (depth + 1) vs ++ ascii "]")
  | depth, .group ms       =>
    (if depth > 0 then 10 :: ((if depth > 1 then indent depth tabWidth else []) ++ ascii "\x7b\n") else []) ++
      (writeMembers (depth + 1) ms ++
        ((if depth > 1 then indent depth tabWidth else []) ++ (if depth > 0 then ascii "\x7d" else [])))

/-- The elements of a list or an array. -/
def writeElems : Nat → List Setting → Str
  | _, []          => []
  | depth, v :: vs => writeValue depth v ++ ((if vs.isEmpty then [] else ascii ",") ++ (32 :: writeElems depth vs))

/-- The settings of a group. -/
def writeMembers : Nat → List (Str × Setting) → Str
  | _, []                  => []
  | depth, (name, v) :: ms => writeSetting tabWidth depth (some name) v (writeValue depth v) ++ writeMembers depth ms

end

/-- `config_write` -/
def write (root : Setting) : Str := writeSetting tabWidth 0 none root (writeValue printFloat tabWidth 0 root)

end

/-! ## The floating point numbers of a tree -/

mutual

/-- The tree with the texts of its floating point numbers replaced. -/
def mapFloats (f : Str → Str) : Setting → Setting
  | .int ival format    => .int ival format
  | .int64 llval format => .int64 llval format
  | .float text         => .float (f text)
  | .string sval        => .string sval
  | .boolean ival       => .boolean ival
  | .array vs           => .array (mapFloatsElems f vs)
  | .list vs            => .list (mapFloatsElems f vs)
  | .group ms           => .group (mapFloatsMembers f ms)

def mapFloatsElems (f : Str → Str) : List Setting → List Setting
  | []      => []
  | v :: vs => mapFloats f v :: mapFloatsElems f vs

def mapFloatsMembers (f : Str → Str) : List (Str × Setting) → List (Str × Setting)
  | []              => []
  | (name, v) :: ms => (name, mapFloats f v) :: mapFloatsMembers f ms

end

mutual

def floats : Setting → List Str
  | .float text => [text]
  | .array vs   => floatsElems vs
  | .list vs    => floatsElems vs
  | .group ms   => floatsMembers ms
  | _           => []

def floatsElems : List Setting → List Str
  | []      => []
  | v :: vs => floats v ++ floatsElems vs

def floatsMembers : List (Str × Setting) → List Str
  | []           => []
  | (_, v) :: ms => floats v ++ floatsMembers ms

end

end CheckRealtime.Libconfig
