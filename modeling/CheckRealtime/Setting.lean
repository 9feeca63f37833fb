import CheckRealtime.Throwing
import CheckRealtime.Util
/-!
# Setting — the tree `cfg.readFile` leaves, and `libconfig::Setting`

What the program asks of a setting: its members and elements, whether a name is there, and the casts, which convert
nothing since `autoConvert` is never switched on.  Each accessor is a `Throwing.Reads` with its condition.
-/
namespace CheckRealtime

open Throwing (Reads)

/-- `CONFIG_FORMAT_DEFAULT` and `CONFIG_FORMAT_HEX`. -/
inductive IntFormat where
  | decimal | hex
deriving DecidableEq

/-- `config_setting_t`.  A floating point number is kept as the text `atof` was given. -/
inductive Setting where
  | int (ival : Int) (format : IntFormat)
  | int64 (llval : Int) (format : IntFormat)
  | float (text : Str)
  | string (sval : Str)
  | boolean (ival : Bool)
  | array (elements : List Setting)
  | list (elements : List Setting)
  | group (members : List (Str × Setting))

/-- The exceptions the accessors throw. -/
inductive ConfigException where
  | settingType | settingNotFound
deriving DecidableEq

/-- `PATH_TOKENS`. -/
def isPathToken (c : UInt8) : Bool := (ascii ":./").contains c

/-- `__config_name_compare`: `char` is signed. -/
def configNameCompare : Str → Str → Int
  | [], []                 => 0
  | [], q :: _             => if isPathToken q then 0 else -1
  | p :: _, []             => if isPathToken p then 0 else 1
  | p :: a, q :: b         =>
    if isPathToken p && isPathToken q then 0
    else if isPathToken p then -1
    else if isPathToken q then 1
    else if p.toInt8 < q.toInt8 then -1
    else if p.toInt8 > q.toInt8 then 1
    else configNameCompare a b

namespace Setting

/-- The elements of `value.list`. -/
def elements : Setting → List Setting
  | .array elements => elements
  | .list elements  => elements
  | .group members  => members.map Prod.snd
  | _               => []

/-- `config_setting_length`. -/
def getLength (s : Setting) : Nat := s.elements.length

/-- `config_setting_get_member`. -/
def member : Setting → Str → Option Setting
  | .group members, name => (members.find? (fun m => configNameCompare name m.1 = 0)).map Prod.snd
  | _, _                 => none

def exists_ (s : Setting) (name : Str) : Bool := (s.member name).isSome

def isAggregate : Setting → Bool
  | .array _ => true
  | .list _  => true
  | .group _ => true
  | _        => false

def isGroup : Setting → Bool
  | .group _ => true
  | _        => false

/-- `operator[](int)`. -/
def index (s : Setting) (i : Nat) : Except ConfigException Setting :=
  if !s.isAggregate then .error .settingType
  else match s.elements[i]? with
    | none   => .error .settingNotFound
    | some e => .ok e

/-- `operator[](const char *)`. -/
def key (s : Setting) (name : Str) : Except ConfigException Setting :=
  if !s.isGroup then .error .settingType
  else match s.member name with
    | none   => .error .settingNotFound
    | some m => .ok m

/-- `operator int`. -/
def toInt : Setting → Except ConfigException Int
  | .int ival _ => .ok ival
  | _           => .error .settingType

/-- `operator std::string`, and `operator const char *`: a string that was read is never `NULL`. -/
def toStr : Setting → Except ConfigException Str
  | .string sval => .ok sval
  | _            => .error .settingType

/-- `lookupValue` of an `int`, which leaves `value` alone when there is none. -/
def lookupInt (s : Setting) (name : Str) (value : Int) : Int :=
  match s.key name >>= Setting.toInt with
  | .ok v    => v
  | .error _ => value

/-! ## What is asked, as conditions and values -/

def isString : Setting → Bool
  | .string _ => true
  | _         => false

def isInt : Setting → Bool
  | .int .. => true
  | _       => false

def stringD : Setting → Str
  | .string sval => sval
  | _            => []

def intD : Setting → Int
  | .int ival _ => ival
  | _           => 0

/-- The member, or one that has no elements and is of no type asked for. -/
def get (s : Setting) (name : Str) : Setting := (s.member name).getD (.float [])

theorem reads_toStr (s : Setting) : Reads s.toStr (s.isString = true) s.stringD := by
  cases s <;> exact ⟨fun h => (by first | rfl | cases h), fun h => (by first | exact absurd rfl h | exact ⟨_, rfl⟩)⟩

theorem reads_toInt (s : Setting) : Reads s.toInt (s.isInt = true) s.intD := by
  cases s <;> exact ⟨fun h => (by first | rfl | cases h), fun h => (by first | exact absurd rfl h | exact ⟨_, rfl⟩)⟩

theorem isGroup_of_member {s : Setting} {name : Str} {m : Setting} (h : s.member name = some m) : s.isGroup = true := by
  cases s <;> first | rfl | cases h

theorem key_eq (s : Setting) (name : Str) (m : Setting) (h : s.member name = some m) : s.key name = .ok m := by
  rw [key, isGroup_of_member h, h]
  rfl

theorem reads_key (s : Setting) (name : Str) : Reads (s.key name) (s.exists_ name = true) (s.get name) := by
  rw [exists_, get]
  cases h : s.member name with
  | some m => exact ⟨fun _ => key_eq s name m h, fun hn => absurd rfl hn⟩
  | none =>
    refine ⟨fun hs => (by cases hs), fun _ => ?_⟩
    unfold key
    rw [h]
    split
    · exact ⟨_, rfl⟩
    · exact ⟨_, rfl⟩

/-- Inside the bound `operator[](int)` throws nothing. -/
theorem index_eq (s : Setting) (i : Nat) (e : Setting) (h : s.elements[i]? = some e) : s.index i = .ok e := by
  have ha : s.isAggregate = true := by
    cases s <;> first | rfl | cases h
  rw [index, ha, h]
  rfl

end Setting

end CheckRealtime
