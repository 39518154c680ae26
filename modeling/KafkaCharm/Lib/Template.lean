import KafkaCharm.Lib.Regex

/-! The second argument of `re.sub` has escapes of its own: `\1` and `\g<1>` stand for what a group
took, `\n` for a line feed, `\101` for the character of that octal number. An escape of an ASCII
letter that means nothing is an error, as is a group that the pattern does not have; any other
escaped character stands for itself with its backslash. -/

namespace PyRe

open PyText

/-- `int` refuses texts with more digits than this. -/
def maxStrDigits : Nat := 4300

/-- `str.lower`, `str.upper` and `str.isidentifier`. -/
structure Unicode where
  lower : Str → Str
  upper : Str → Str
  isIdentifier : Str → Bool

/-- A part of a template. -/
inductive Part where
  | literal (s : Str)
  | reference (n : Nat)
  deriving DecidableEq, Repr

def isOctal (c : Char) : Bool := '0' ≤ c && c ≤ '7'

def digit (c : Char) : Nat := c.toNat - '0'.toNat

/-- The escapes that stand for one character. -/
def escapes : List (Char × Char) :=
  [('a', '\x07'), ('b', '\x08'), ('f', '\x0c'), ('n', '\n'), ('r', '\r'), ('t', '\t'), ('v', '\x0b'),
   ('\\', '\\')]

/-- A reference to a group that the pattern has. -/
def addGroup (p : Pattern) (n : Nat) : Except Exn Part :=
  if n ≤ p.groups then .ok (.reference n) else .error .reError

/-- `\g<name>`, behind the `g`. -/
def groupReference (u : Unicode) (p : Pattern) (s : Str) : Except Exn (Part × Str) :=
  match s with
  | '<' :: s =>
    let name := s.takeWhile (· ≠ '>')
    match s.dropWhile (· ≠ '>') with
    | [] => .error .reError
    | _ :: rest =>
      if name = [] then .error .reError
      else if name.all Char.isDigit then
        if maxStrDigits < name.length then .error .valueError
        else do
          let part ← addGroup p (Nat.ofDigitChars 10 name 0)
          return (part, rest)
      else if u.isIdentifier name then
        match Dict.get? p.groupindex name with
        | some n => do
          let part ← addGroup p n
          return (part, rest)
        | none => .error .indexError
      else .error .reError
  | _ => .error .reError

/-- `\0` with up to two more octal digits, behind the `0`. -/
def octalEscape (s : Str) : Part × Str :=
  let digits := (s.take 2).takeWhile isOctal
  (.literal [Char.ofNat (digits.foldl (fun n c => 8 * n + digit c) 0)], s.drop digits.length)

/-- `\c` for a digit `c` other than 0: three octal digits are a character, fewer digits a
group of one or two digits. -/
def digitEscape (p : Pattern) (c : Char) (s : Str) : Except Exn (Part × Str) :=
  match s with
  | d :: e :: rest =>
    if d.isDigit then
      if isOctal c && isOctal d && isOctal e then
        let n := 64 * digit c + 8 * digit d + digit e
        if 0o377 < n then .error .reError else .ok (.literal [Char.ofNat n], rest)
      else do
        let part ← addGroup p (10 * digit c + digit d)
        return (part, e :: rest)
    else do
      let part ← addGroup p (digit c)
      return (part, d :: e :: rest)
  | [d] =>
    if d.isDigit then do
      let part ← addGroup p (10 * digit c + digit d)
      return (part, [])
    else do
      let part ← addGroup p (digit c)
      return (part, [d])
  | [] => do
    let part ← addGroup p (digit c)
    return (part, [])

/-- One part of a template. -/
def nextPart (u : Unicode) (p : Pattern) : Str → Except Exn (Part × Str)
  | ['\\'] => .error .reError
  | '\\' :: c :: s =>
    if c = 'g' then groupReference u p s
    else if c = '0' then .ok (octalEscape s)
    else if c.isDigit then digitEscape p c s
    else
      match Dict.get? escapes c with
      | some d => .ok (.literal [d], s)
      | none => if c.isAlpha then .error .reError else .ok (.literal ['\\', c], s)
  | c :: s => .ok (.literal [c], s)
  | [] => .ok (.literal [], [])

/-- The parts of a text; every part takes a character, so the length is fuel enough. -/
def parseParts (u : Unicode) (p : Pattern) : Nat → Str → Except Exn (List Part)
  | 0, _ => .ok []
  | _ + 1, [] => .ok []
  | fuel + 1, s => do
    let (part, rest) ← nextPart u p s
    let parts ← parseParts u p fuel rest
    return part :: parts

/-- `re._parser.parse_template`. -/
def parseTemplate (u : Unicode) (p : Pattern) (template : Str) : Except Exn (List Part) :=
  parseParts u p template.length template

/-- What a template makes of a match; a group that took no part is empty. -/
def expand (parts : List Part) (m : Found) : Str :=
  parts.flatMap fun part =>
    match part with
    | .literal s => s
    | .reference 0 => m.taken
    | .reference n => (m.group n).getD []

/-- `re.sub` with a function that may raise in place of a template. -/
def Pattern.subWith (p : Pattern) (repl : Found → Except Exn Str) (s : Str) : Except Exn Str := do
  let texts ← (p.scan [] 0 s).mapM fun piece =>
    match piece with
    | .skipped c => pure [c]
    | .found m => repl m
  return texts.flatten

end PyRe
