import Coursework.ShellParser

/-!
# The grammar of command lines

Tokens, the strings that spell a sequence of tokens, and the derivations of a command
line with their trees.  The grammar is over words of any type: over the words of a
line, and over the pointers that the parser keeps of them.
-/

namespace Coursework.Shell

variable {V W : Type}

/-- A word, or another token with the code that `gettoken` returns for it. -/
inductive Token (W : Type)
  | word (text : W)
  | symbol (ret : Char)

def Token.map (f : V → W) : Token V → Token W
  | .word text => .word (f text)
  | .symbol ret => .symbol ret

/-- A redirection: the code of `<`, `>` or `>>`, and the file. -/
structure Redirection (W : Type) where
  tok : Char
  file : W

/-- The codes of the redirections. -/
def redirectionCodes : List Char := ['<', '>', '+']

def Redirection.tokens (redirection : Redirection W) : List (Token W) :=
  [.symbol redirection.tok, .word redirection.file]

/-- A word or a redirection of a simple command. -/
inductive Part (W : Type)
  | word (text : W)
  | redirection (change : Redirection W)

namespace Part

def tokens : Part W → List (Token W)
  | .word text => [.word text]
  | .redirection change => change.tokens

def word? : Part W → Option W
  | .word text => some text
  | .redirection _ => none

def redirection? : Part W → Option (Redirection W)
  | .word _ => none
  | .redirection change => some change

end Part

/-- The command within redirections, the first one innermost. -/
def wrap (cmd : Cmd W) (redirections : List (Redirection W)) : Cmd W :=
  redirections.foldl (fun cmd redirection => redirect cmd redirection.tok redirection.file) cmd

/-- A command in the background, once for each `&`. -/
def backs : Nat → Cmd W → Cmd W
  | 0, cmd => cmd
  | n + 1, cmd => backs n (.back cmd)

inductive Category
  | line
  | pipe
  | exec

/-- The redirections have their codes. -/
def Coded (redirections : List (Redirection W)) : Prop :=
  ∀ redirection ∈ redirections, redirection.tok ∈ redirectionCodes

/-- The derivations of token sequences, with their trees. -/
inductive Derives : Category → List (Token W) → Cmd W → Prop
  | line {tokens : List (Token W)} {cmd : Cmd W} (n : Nat) : Derives .pipe tokens cmd →
      Derives .line (tokens ++ List.replicate n (.symbol '&')) (backs n cmd)
  | list {tokens more : List (Token W)} {cmd right : Cmd W} (n : Nat) :
      Derives .pipe tokens cmd → Derives .line more right →
      Derives .line (tokens ++ (List.replicate n (.symbol '&') ++ .symbol ';' :: more))
        (.list (backs n cmd) right)
  | single {tokens : List (Token W)} {cmd : Cmd W} : Derives .exec tokens cmd →
      Derives .pipe tokens cmd
  | pipe {tokens more : List (Token W)} {cmd right : Cmd W} : Derives .exec tokens cmd →
      Derives .pipe more right →
      Derives .pipe (tokens ++ .symbol '|' :: more) (.pipe cmd right)
  | block {tokens : List (Token W)} {cmd : Cmd W} (redirections : List (Redirection W)) :
      Coded redirections → Derives .line tokens cmd →
      Derives .exec (.symbol '(' :: (tokens ++ .symbol ')' ::
        redirections.flatMap Redirection.tokens)) (wrap cmd redirections)
  | simple (parts : List (Part W)) : Coded (parts.filterMap Part.redirection?) →
      (parts.filterMap Part.word?).length ≤ MAXARGS - 1 →
      Derives .exec (parts.flatMap Part.tokens)
        (wrap (.exec (parts.filterMap Part.word?)) (parts.filterMap Part.redirection?))

/-- White space characters only. -/
def Blank (s : List Char) : Prop :=
  ∀ c ∈ s, c ∈ whitespace

/-- The strings that spell a sequence of tokens, with optional white space between them and
every token as long as possible. -/
inductive Spells : List (Token (List Char)) → List Char → Prop
  | blank {s : List Char} : Blank s → Spells [] s
  | symbol {blank rest : List Char} {c : Char} {tokens : List (Token (List Char))} :
      Blank blank → c ∈ symbols → (c = '>' → rest.head? ≠ some '>') → Spells tokens rest →
      Spells (.symbol c :: tokens) (blank ++ c :: rest)
  | append {blank rest : List Char} {tokens : List (Token (List Char))} :
      Blank blank → Spells tokens rest →
      Spells (.symbol '+' :: tokens) (blank ++ '>' :: '>' :: rest)
  | word {blank text rest : List Char} {tokens : List (Token (List Char))} :
      Blank blank → text ≠ [] → (∀ c ∈ text, isWordChar c = true) →
      (∀ c, rest.head? = some c → isWordChar c = false) → Spells tokens rest →
      Spells (.word text :: tokens) (blank ++ (text ++ rest))

/-- A command line is generated with a tree. -/
def Generates (s : List Char) (tree : Cmd (List Char)) : Prop :=
  ∃ tokens, Spells tokens s ∧ Derives .line tokens tree

end Coursework.Shell
