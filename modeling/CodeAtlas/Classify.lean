import CodeAtlas.Language
import CodeAtlas.Path
import CodeAtlas.Text.Matcher
import CodeAtlas.Text.Utf8
/-!
The language of a file. The extension decides where it can; headers, which two languages share,
and files without an extension are told apart by their first bytes.
-/
namespace CodeAtlas.Classify

open Text Text.Matcher

def sampleSize : Nat := 4096

def cppMark : Matcher :=
  oneOf
    [ inOrder [lineStart, blanks,
        oneOf
          [ inOrder [text "class", gap, atLeastOne wordChar],
            next (text "namespace") wordEdge,
            inOrder [text "template", blanks, text "<"],
            inOrder [keyword ["public", "private", "protected"], blanks, text ":"] ]],
      text "std::",
      inOrder [wordEdge, text "using", gap, text "namespace", wordEdge] ]

def headerLanguage (bytes : ByteArray) : Language :=
  if cppMark.occurs (Utf8.lossy (bytes.extract 0 sampleSize)).toList then .cpp else .c

def interpreterLanguage? : String → Option Language
  | "python" => some .python
  | "node" | "nodejs" => some .javascript
  | "sh" | "bash" | "zsh" | "dash" | "ksh" => some .shell
  | "ruby" => some .ruby
  | "php" => some .php
  | _ => none

/-- The program that the words of an interpreter line run; one that only sets up the environment
hands over to the first word that is no option. -/
def interpreter? (command : List Char) : Option (List Char) :=
  match words command with
  | [] => none
  | first :: rest =>
    let program := ((fields '/' first).getLast?).getD []
    if program = "env".toList then rest.find? fun w => w.head? != some '-' else some program

/-- The language that the interpreter line of a script names; a version at the end of the name of
the interpreter does not count. -/
def scriptLanguage? (bytes : ByteArray) : Option Language :=
  let first := bytes.toList.takeWhile (· != 10)
  (Utf8.strict? ⟨first.toArray⟩).bind fun line =>
    (after? ['#', '!'] (trim line.toList)).bind fun command =>
      (interpreter? command).bind fun program =>
        interpreterLanguage?
          (String.ofList (trimEndWhile (fun c => c.isDigit || c == '.') program))

def needsHead (path : Path) : Bool :=
  match path.extension?.map lower with
  | some ext => ext == "h"
  | none => true

/-- The language of a file with a path and first bytes, which may be out of reach. -/
def language (path : Path) (head : Option ByteArray) : Language :=
  match path.extension?.map lower with
  | some ext =>
    if ext == "h" then (head.map headerLanguage).getD .c
    else (Language.ofExtension? ext).getD .unknown
  | none => (head.bind scriptLanguage?).getD .unknown

end CodeAtlas.Classify
