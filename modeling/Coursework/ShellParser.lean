import Mathlib.Data.List.Basic
import Mathlib.Tactic.Common

/-!
# The parser of the shell

`gettoken`, `peek`, `parsecmd` and the functions that it calls in `sh.c`.  A pointer
into the command line is the rest of the line from there; the end of the line is
the empty rest, where the null character stands.  The functions of the parser call
each other, and `fuel` bounds the depth of the calls.

A command holds pointers to the beginning and to the end of its words.
`nulterminate` writes a null character at every end.
-/

namespace Coursework.Shell

def MAXARGS : Nat := 10

def O_RDONLY : Nat := 0x000
def O_WRONLY : Nat := 0x001
def O_CREATE : Nat := 0x200

def whitespace : List Char := [' ', '\t', '\r', '\n', '\x0b']
def symbols : List Char := ['<', '|', '>', '&', ';', '(', ')']

/-- A character of a word. -/
def isWordChar (c : Char) : Bool :=
  !decide (c ∈ whitespace) && !decide (c ∈ symbols)

/-- `struct cmd`, with words of the type `W`. -/
inductive Cmd (W : Type)
  | exec (argv : List W)
  | redir (cmd : Cmd W) (file : W) (mode fd : Nat)
  | pipe (left right : Cmd W)
  | list (left right : Cmd W)
  | back (cmd : Cmd W)
  deriving DecidableEq

/-- The pointers to the beginning and the end of a word. -/
abbrev Extent := List Char × List Char

/-- The texts with which `panic` is called. -/
inductive Panic
  | syntaxError
  | missingFile
  | parseblock
  | missingParenthesis
  | tooManyArgs
  deriving DecidableEq

def Panic.text : Panic → String
  | .syntaxError => "syntax"
  | .missingFile => "missing file for redirection"
  | .parseblock => "parseblock"
  | .missingParenthesis => "syntax - missing )"
  | .tooManyArgs => "too many args"

inductive Failure
  /-- not finished yet -/
  | fuel
  | panic (reason : Panic)
  deriving DecidableEq

/-! ## Tokens -/

/-- `while(s < es && strchr(whitespace, *s)) s++`. -/
def skip (s : List Char) : List Char :=
  s.dropWhile (· ∈ whitespace)

/-- What `gettoken` returns: the code of the token, its beginning and end, and the
cursor. -/
structure Lexeme where
  ret : Char
  q : List Char
  eq : List Char
  s : List Char

/-- The token at a cursor that is not at a white space character. -/
def tokenAt (s : List Char) : Char × List Char :=
  match s with
  | [] => ('\x00', [])
  | '>' :: '>' :: rest => ('+', rest)
  | c :: rest =>
      if c ∈ symbols then (c, rest) else ('a', s.dropWhile isWordChar)

def gettoken (ps : List Char) : Lexeme :=
  let q := skip ps
  let token := tokenAt q
  ⟨token.1, q, token.2, skip token.2⟩

/-- `peek` at a cursor from which it has skipped white space. -/
def peek (s : List Char) (toks : List Char) : Bool :=
  match s with
  | [] => false
  | c :: _ => decide (c ∈ toks)

/-! ## Commands -/

/-- Store an argument in the `execcmd` inside of redirections. -/
def Cmd.addArg {W : Type} : Cmd W → W → Cmd W
  | .exec argv, arg => .exec (argv ++ [arg])
  | .redir cmd file mode fd, arg => .redir (cmd.addArg arg) file mode fd
  | cmd, _ => cmd

/-- `redircmd` for the token of a redirection. -/
def redirect {W : Type} (cmd : Cmd W) (tok : Char) (file : W) : Cmd W :=
  if tok = '<' then .redir cmd file O_RDONLY 0
  else .redir cmd file (O_WRONLY ||| O_CREATE) 1

def parseredirs : Nat → Cmd Extent → List Char → Except Failure (Cmd Extent × List Char)
  | 0, _, _ => .error .fuel
  | fuel + 1, cmd, s =>
      if peek (skip s) ['<', '>'] then
        let tok := gettoken (skip s)
        let file := gettoken tok.s
        if file.ret ≠ 'a' then .error (.panic .missingFile)
        else parseredirs fuel (redirect cmd tok.ret (file.q, file.eq)) file.s
      else .ok (cmd, skip s)

/-- The loop of `parseline` over `&`. -/
def parsebacks : Nat → Cmd Extent → List Char → Except Failure (Cmd Extent × List Char)
  | 0, _, _ => .error .fuel
  | fuel + 1, cmd, s =>
      if peek (skip s) ['&'] then parsebacks fuel (.back cmd) (gettoken (skip s)).s
      else .ok (cmd, skip s)

/-- The loop of `parseexec` over the arguments. -/
def parseargs : Nat → Nat → Cmd Extent → List Char → Except Failure (Cmd Extent × List Char)
  | 0, _, _, _ => .error .fuel
  | fuel + 1, argc, ret, s =>
      if peek (skip s) ['|', ')', '&', ';'] then .ok (ret, skip s)
      else
        let tok := gettoken (skip s)
        if tok.ret = '\x00' then .ok (ret, tok.s)
        else if tok.ret ≠ 'a' then .error (.panic .syntaxError)
        else if MAXARGS ≤ argc + 1 then .error (.panic .tooManyArgs)
        else
          match parseredirs fuel (ret.addArg (tok.q, tok.eq)) tok.s with
          | .error failure => .error failure
          | .ok (ret, s) => parseargs fuel (argc + 1) ret s

mutual

def parseline : Nat → List Char → Except Failure (Cmd Extent × List Char)
  | 0, _ => .error .fuel
  | fuel + 1, s =>
      match parsepipe fuel s with
      | .error failure => .error failure
      | .ok (cmd, s) =>
          match parsebacks fuel cmd s with
          | .error failure => .error failure
          | .ok (cmd, s) =>
              if peek (skip s) [';'] then
                match parseline fuel (gettoken (skip s)).s with
                | .error failure => .error failure
                | .ok (right, s) => .ok (.list cmd right, s)
              else .ok (cmd, skip s)

def parsepipe : Nat → List Char → Except Failure (Cmd Extent × List Char)
  | 0, _ => .error .fuel
  | fuel + 1, s =>
      match parseexec fuel s with
      | .error failure => .error failure
      | .ok (cmd, s) =>
          if peek (skip s) ['|'] then
            match parsepipe fuel (gettoken (skip s)).s with
            | .error failure => .error failure
            | .ok (right, s) => .ok (.pipe cmd right, s)
          else .ok (cmd, skip s)

def parseblock : Nat → List Char → Except Failure (Cmd Extent × List Char)
  | 0, _ => .error .fuel
  | fuel + 1, s =>
      if peek (skip s) ['('] then
        match parseline fuel (gettoken (skip s)).s with
        | .error failure => .error failure
        | .ok (cmd, s) =>
            if peek (skip s) [')'] then parseredirs fuel cmd (gettoken (skip s)).s
            else .error (.panic .missingParenthesis)
      else .error (.panic .parseblock)

def parseexec : Nat → List Char → Except Failure (Cmd Extent × List Char)
  | 0, _ => .error .fuel
  | fuel + 1, s =>
      if peek (skip s) ['('] then parseblock fuel (skip s)
      else
        match parseredirs fuel (.exec []) (skip s) with
        | .error failure => .error failure
        | .ok (ret, s) => parseargs fuel 0 ret s

end

/-! ## Null-terminated words -/

/-- `*p = 0` for a pointer into a line of the length `length`. -/
def terminate (length : Nat) (buffer : List Char) (p : List Char) : List Char :=
  buffer.set (length - p.length) '\x00'

def nulterminate (length : Nat) : Cmd Extent → List Char → List Char
  | .exec argv, buffer => argv.foldl (fun buffer word => terminate length buffer word.2) buffer
  | .redir cmd file _ _, buffer => terminate length (nulterminate length cmd buffer) file.2
  | .pipe left right, buffer => nulterminate length right (nulterminate length left buffer)
  | .list left right, buffer => nulterminate length right (nulterminate length left buffer)
  | .back cmd, buffer => nulterminate length cmd buffer

/-- The command, and the buffer of the line after `nulterminate`. -/
def parsecmd (fuel : Nat) (s : List Char) : Except Failure (Cmd Extent × List Char) :=
  match parseline fuel s with
  | .error failure => .error failure
  | .ok (cmd, rest) =>
      if skip rest = [] then .ok (cmd, nulterminate s.length cmd (s ++ ['\x00']))
      else .error (.panic .syntaxError)

/-- The string at a pointer into the buffer of a line. -/
def stringAt (length : Nat) (buffer : List Char) (p : List Char) : List Char :=
  (buffer.drop (length - p.length)).takeWhile (· ≠ '\x00')

/-- The command with the strings that its pointers refer to. -/
def Cmd.map {V W : Type} (f : V → W) : Cmd V → Cmd W
  | .exec argv => .exec (argv.map f)
  | .redir cmd file mode fd => .redir (cmd.map f) (f file) mode fd
  | .pipe left right => .pipe (left.map f) (right.map f)
  | .list left right => .list (left.map f) (right.map f)
  | .back cmd => .back (cmd.map f)

end Coursework.Shell
