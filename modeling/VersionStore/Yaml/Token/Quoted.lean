import VersionStore.Yaml.Token

namespace VersionStore.Yaml

/-!
# Quoted scalars

Between single marks, a mark written twice stands for itself. Between double
marks, a backslash begins an escape: of a letter, of a character's number in
hexadecimal digits, or of a line end, which then counts for nothing. Line ends
that are not escaped are folded.
-/

/-- The character of a one-letter escape. -/
def escaped? (c : Char) : Option Char :=
  match c with
  | '0' => some '\x00'
  | 'a' => some '\x07'
  | 'b' => some '\x08'
  | 't' => some '\t'
  | '\t' => some '\t'
  | 'n' => some '\n'
  | 'v' => some '\x0b'
  | 'f' => some '\x0c'
  | 'r' => some '\r'
  | 'e' => some '\x1b'
  | ' ' => some ' '
  | '"' => some '"'
  | '/' => some '/'
  | '\\' => some '\\'
  | 'N' => some '\u0085'
  | '_' => some '\u00a0'
  | 'L' => some '\u2028'
  | 'P' => some '\u2029'
  | _ => none

/-- The number of digits behind an escape by number. -/
def escapeWidth? (c : Char) : Option Nat :=
  match c with
  | 'x' => some 2
  | 'u' => some 4
  | 'U' => some 8
  | _ => none

/-- The value of a hexadecimal digit. -/
def hexDigit? (c : Char) : Option Nat :=
  if c.isDigit then some (c.toNat - 48)
  else if 'a' ≤ c ∧ c ≤ 'f' then some (c.toNat - 87)
  else if 'A' ≤ c ∧ c ≤ 'F' then some (c.toNat - 55)
  else none

/-- What of an escape was read. -/
inductive Escape where
  /-- No escape has begun. -/
  | none
  /-- A single mark, which has to be followed by another. -/
  | mark
  /-- A backslash. -/
  | backslash
  /-- Some digits of a number, with `left` of them to come. -/
  | number (left value : Nat)
  deriving Repr

/-- The rest of a quoted scalar, of which `text` was read in reverse and `gap`
stands behind that. -/
def quotedFrom (quote : Char) (text : List Char) (gap : Gap) (escape : Escape) (mark : Mark) :
    List Char → Parsed (String × Cursor)
  | [] => .error (.malformed mark)
  | c :: rest =>
      let here : Cursor := ⟨c :: rest, mark⟩
      match escape with
      | .mark => quotedFrom quote (c :: text) {} .none (mark.after c) rest
      | .backslash =>
          if isBreak c then
            quotedFrom quote text ⟨[], [], true⟩ .none (mark.after c) rest
          else
            match escaped? c, escapeWidth? c with
            | some plain, _ => quotedFrom quote (plain :: text) {} .none (mark.after c) rest
            | _, some width => quotedFrom quote text {} (.number width 0) (mark.after c) rest
            | _, _ => here.refuse
      | .number left value =>
          match hexDigit? c with
          | none => here.refuse
          | some digit =>
              let value := value * 16 + digit
              if 1 < left then
                quotedFrom quote text {} (.number (left - 1) value) (mark.after c) rest
              else if value.isValidChar then
                quotedFrom quote (Char.ofNat value :: text) {} .none (mark.after c) rest
              else here.refuse
      | .none =>
          if isBlank c || isBreak c then
            quotedFrom quote text (gap.push c) .none (mark.after c) rest
          else if here.atDocumentMark then here.refuse
          else
            let text := gap.folded.reverse ++ text
            if c == quote then
              if quote == '\'' && rest.head? == some quote then
                quotedFrom quote text {} .mark (mark.after c) rest
              else .ok (String.ofList text.reverse, here.next)
            else if c == '\\' && quote == '"' then
              quotedFrom quote text {} .backslash (mark.after c) rest
            else quotedFrom quote (c :: text) {} .none (mark.after c) rest

/-- Read a scalar between quotation marks, of which the first is the next
character. -/
def Cursor.quoted (quote : Char) (cursor : Cursor) : Parsed (String × Cursor) :=
  quotedFrom quote [] {} .none cursor.next.mark cursor.next.rest

end VersionStore.Yaml
