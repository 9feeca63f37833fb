import CheckRealtime.Munch
import CheckRealtime.Setting
import CheckRealtime.Startup
/-!
# ConfigScanner — `scanner.l` of libconfig

The rules in the order of the file, the start conditions and the actions; `scan` runs them as flex does, over the text and the
files it includes, and gives the tokens up to the end or the first `TOK_ERROR`.

A start condition and a string under construction outlive the end of a file: text that ends in a comment or a string ends
there, and an included one goes on in the file that includes it.
-/
namespace CheckRealtime.Libconfig

open Munch (Pattern)
open Munch.Pattern (one seq alt star plus opt)
open Startup (isDigit atoi strtol)

/-- A floating point number is the text `atof` is given. -/
inductive Token where
  | boolean (ival : Bool)
  | integer (ival : Int)
  | integer64 (llval : Int)
  | hex (ival : Int)
  | hex64 (llval : Int)
  | float (text : Str)
  | string (sval : Str)
  | name (sval : Str)
  | equals | comma | semicolon
  | arrayStart | arrayEnd | listStart | listEnd | groupStart | groupEnd
  | garbage | error
deriving DecidableEq

/-- The start conditions. -/
inductive Mode where
  | initial | comment | string | include
deriving DecidableEq

/-- The rules.  Those that append one character to a string differ in the character written and the one meant. -/
inductive Rule where
  | begin (text : Str) (mode : Mode)
  | inComment
  | chunk
  | escape (written meant : UInt8)
  | hexchar
  | backslash
  | closeString
  | includeOpen
  | closeInclude
  | newline
  | blanks
  | punct (chars : Str) (token : Token)
  | boolean (text : Str) (ival : Bool)
  | name | float | integer | integer64 | hex | hex64
  | comment
  | garbage
  -- what flex does with a character that no rule matches
  | echo
deriving DecidableEq

/-! ## The patterns -/

def isBlank (c : UInt8) : Bool := c == 32 || c == 9
def isLetter (c : UInt8) : Bool := (65 ≤ c && c ≤ 90) || (97 ≤ c && c ≤ 122)
def isXdigit (c : UInt8) : Bool := isDigit c || (65 ≤ c && c ≤ 70) || (97 ≤ c && c ≤ 102)
def isNameStart (c : UInt8) : Bool := isLetter c || c == 42
def isNameChar (c : UInt8) : Bool := c == 45 || isLetter c || isDigit c || c == 95 || c == 42
def toLower (c : UInt8) : UInt8 := if 65 ≤ c && c ≤ 90 then c + 32 else c

def char (c : UInt8) : Pattern UInt8 := one (fun d => d == c)
def oneOf (chars : Str) : Pattern UInt8 := one (fun d => chars.contains d)
def text (w : Str) : Pattern UInt8 := w.foldr (fun c a => seq (char c) a) .empty

/-- `[Tt][Rr][Uu][Ee]` and the like. -/
def caseless (w : Str) : Pattern UInt8 := w.foldr (fun c a => seq (one (fun d => toLower d == c)) a) .empty

def sign : Pattern UInt8 := opt (oneOf (ascii "-+"))
def digits : Pattern UInt8 := plus (one isDigit)
def exponent : Pattern UInt8 := seq (oneOf (ascii "eE")) (seq sign digits)
def integer : Pattern UInt8 := seq sign digits
def hex : Pattern UInt8 := seq (char 48) (seq (oneOf (ascii "Xx")) (plus (one isXdigit)))
/-- `L(L)?` -/
def long : Pattern UInt8 := seq (char 76) (opt (char 76))

def float : Pattern UInt8 :=
  alt (seq sign (seq (opt (star (one isDigit))) (seq (char 46) (seq (star (one isDigit)) (opt exponent)))))
    (seq sign (seq digits (seq (opt (seq (char 46) (star (one isDigit)))) exponent)))

def pattern : Rule → Pattern UInt8
  | .begin w _     => text w
  | .inComment     => one (fun _ => true)
  | .chunk         => plus (one (fun c => c != 34 && c != 92))
  | .escape w _    => text [92, w]
  | .hexchar       => seq (char 92) (seq (oneOf (ascii "Xx")) (seq (one isXdigit) (one isXdigit)))
  | .backslash     => char 92
  | .closeString   => char 34
  | .includeOpen   => seq (star (one isBlank)) (seq (text (ascii "@include")) (seq (plus (one isBlank)) (char 34)))
  | .closeInclude  => char 34
  | .newline       => oneOf [10, 13, 12]
  | .blanks        => plus (one isBlank)
  | .punct chars _ => oneOf chars
  | .boolean w _   => caseless w
  | .name          => seq (one isNameStart) (star (one isNameChar))
  | .float         => float
  | .integer       => integer
  | .integer64     => seq integer long
  | .hex           => hex
  | .hex64         => seq hex long
  -- `$` looks at the end of the line and leaves it
  | .comment       => seq (alt (char 35) (text (ascii "//"))) (seq (star (one (fun c => c != 10))) (char 10))
  | .garbage       => one (fun c => c != 10)
  | .echo          => .none

/-- How much of the match is trailing context. -/
def Rule.context : Rule → Nat
  | .comment => 1
  | _        => 0

def rules (mode : Mode) (atBol : Bool) : List Rule :=
  match mode with
  | .initial => [.begin (ascii "/*") .comment, .begin (ascii "\"") .string] ++ (if atBol then [.includeOpen] else []) ++
    [.newline, .blanks, .punct (ascii "=:") .equals, .punct (ascii ",") .comma, .punct (ascii "\x7b") .groupStart,
      .punct (ascii "\x7d") .groupEnd, .boolean (ascii "true") true, .boolean (ascii "false") false, .name, .float, .integer,
      .integer64, .hex, .hex64, .punct (ascii "[") .arrayStart, .punct (ascii "]") .arrayEnd, .punct (ascii "(") .listStart,
      .punct (ascii ")") .listEnd, .punct (ascii ";") .semicolon, .comment, .garbage]
  | .comment => [.begin (ascii "*/") .initial, .inComment]
  | .string  => [.chunk, .escape 110 10, .escape 114 13, .escape 116 9, .escape 102 12, .escape 92 92, .escape 34 34, .hexchar,
      .backslash, .closeString]
  | .include => [.chunk, .escape 92 92, .escape 34 34, .closeInclude]

/-! ## The actions -/

def xdigit (c : UInt8) : Nat := if isDigit c then c.toNat - 48 else (toLower c).toNat - 87

/-- The value of the hexadecimal digits at the head. -/
def hexValue (s : Str) : Nat := (s.takeWhile isXdigit).foldl (fun n c => 16 * n + xdigit c) 0

/-- `strtoul` in base 16, after `0x`, which stays within an `unsigned long`; `strtoull` does too. -/
def strtoul (s : Str) : Nat := min (hexValue (s.drop 2)) (2 ^ 64 - 1)

/-- The cast to `long long`. -/
def toLong (x : Int) : Int := x.bmod (2 ^ 64)

/-- What an action does: the start condition and the string from there on, with a token or an included file. -/
inductive Act where
  | go (mode : Mode) (string : Str)
  | token (token : Token) (string : Str)
  | push (file : Str)

def act (mode : Mode) (string : Str) (yytext : Str) : Rule → Act
  | .begin _ mode'  => .go mode' string
  | .includeOpen    => .go .include string
  | .chunk          => .go mode (string ++ cstr yytext)
  | .escape _ meant => .go mode (string ++ [meant])
  | .hexchar        => .go mode (string ++ cstr [UInt8.ofNat (hexValue (yytext.drop 2))])
  | .backslash      => .go mode (string ++ [92])
  | .closeString    => .token (.string string) []
  | .closeInclude   => .push string
  | .punct _ token  => .token token string
  | .boolean _ ival => .token (.boolean ival) string
  | .name           => .token (.name yytext) string
  | .float          => .token (.float yytext) string
  | .integer        => .token (.integer (atoi yytext)) string
  | .integer64      => .token (.integer64 (strtol yytext)) string
  | .hex            => .token (.hex (toInt (strtoul yytext))) string
  | .hex64          => .token (.hex64 (toLong (strtoul yytext))) string
  | .garbage        => .token .garbage string
  | .inComment | .newline | .blanks | .comment | .echo => .go mode string

/-- What scanning a file gives, and the start condition and string it ends in. -/
structure Lexed where
  toks   : List Token
  mode   : Mode
  string : Str
  failed : Bool
deriving DecidableEq

def Lexed.after (toks : List Token) (l : Lexed) : Lexed := { l with toks := toks ++ l.toks }

/-- The rule taken and the length of the match. -/
def taken (mode : Mode) (atBol : Bool) (text : Str) : Rule × Nat := (Munch.munch pattern (rules mode atBol) text).getD (.echo, 1)

/-- One file, from its start; `skip` characters of the text belong to the last match. -/
def scan (file : Str → Option Lexed) : Str → Nat → Bool → Mode → Str → Lexed
  | [], _, _, mode, string               => ⟨[], mode, string, false⟩
  | _ :: s, skip + 1, atBol, mode, string => scan file s skip atBol mode string
  | c :: s, 0, atBol, mode, string        =>
    let (rule, n) := taken mode atBol (c :: s)
    let yytext := (c :: s).take (n - rule.context)
    let skip := yytext.length - 1
    let atBol := yytext.getLast? == some 10
    match act mode string yytext rule with
    | .go mode string    => scan file s skip atBol mode string
    -- every token is one of the start condition `INITIAL`
    | .token tok string  => (scan file s skip atBol .initial string).after [tok]
    | .push name         => match file name with
      | none       => ⟨[.error], .include, [], true⟩
      | some lexed =>
        if lexed.failed then lexed else (scan file s skip atBol lexed.mode lexed.string).after lexed.toks

def MAX_INCLUDE_DEPTH : Nat := 10

/-- A file and those it includes, when `room` more may be open at once. -/
def scanFile (files : Str → Option Str) : Nat → Str → Lexed
  | 0, text        => scan (fun _ => none) text 0 true .initial []
  | room + 1, text => scan (fun name => (files name).map (scanFile files room)) text 0 true .initial []

/-- The tokens of a file; `files` is what there is to include. -/
def tokens (files : Str → Option Str) (text : Str) : List Token := (scanFile files MAX_INCLUDE_DEPTH text).toks

end CheckRealtime.Libconfig
