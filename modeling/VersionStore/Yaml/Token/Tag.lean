import VersionStore.Yaml.Token.Quoted

namespace VersionStore.Yaml

/-!
# Names, tags and directives

A tag is written in full between angle brackets, or as a handle and a suffix;
directives at the head of a document say which version it is written in and what
further handles stand for. Characters of a tag may be written as octets behind a
percent sign, so a tag is kept as its octets, one character each; an octet of zero
ends it.
-/

/-- The characters before the first of number zero. -/
def upToZero (chars : List Char) : String :=
  String.ofList (chars.takeWhile (·.toNat != 0))

/-- The name of an anchor or alias behind its sign. -/
def Cursor.name (cursor : Cursor) : Parsed (String × Cursor) :=
  let (name, behind) := cursor.next.span isNameChar
  let ends := endsWord behind.peek? || behind.peek?.any "?:,]\x7d%@\x60".toList.contains
  if name.isEmpty || !ends then behind.refuse else .ok (String.ofList name, behind)

/-- True for the characters of a tag; `full` tells whether those that structure
flow collections are allowed. -/
def isTagChar (full : Bool) (c : Char) : Bool :=
  isNameChar c || ";/?:@&=+$.%!~*'()".toList.contains c || (full && (c == ',' || c == '[' || c == ']'))

/-- The number of octets that make up a character, as the first of them shows. -/
def octetCount? (octet : Nat) : Option Nat :=
  if octet < 0x80 then some 1
  else if octet < 0xC0 then none
  else if octet < 0xE0 then some 2
  else if octet < 0xF0 then some 3
  else if octet < 0xF8 then some 4
  else none

/-- True for an octet behind the first of a character. -/
def isFollowing (octet : Nat) : Bool :=
  0x80 ≤ octet && octet < 0xC0

/-- The characters of a tag, of which `text` was read in reverse and `left` octets
of a character are to come. -/
def tagFrom (full : Bool) (left : Nat) (text : List Char) (mark : Mark) :
    List Char → Parsed (List Char × Cursor)
  | '%' :: high :: low :: rest =>
      let here : Cursor := ⟨'%' :: high :: low :: rest, mark⟩
      match hexDigit? high, hexDigit? low with
      | some high, some low =>
          let octet := 16 * high + low
          let text := Char.ofNat octet :: text
          let mark := (here.skip 3).mark
          if left = 0 then
            match octetCount? octet with
            | some count => tagFrom full (count - 1) text mark rest
            | none => here.refuse
          else if isFollowing octet then tagFrom full (left - 1) text mark rest
          else here.refuse
      | _, _ => here.refuse
  | chars =>
      match chars with
      | [] => if left = 0 then .ok (text.reverse, ⟨[], mark⟩) else .error (.malformed mark)
      | c :: rest =>
          if left = 0 && isTagChar full c && c != '%' then
            tagFrom full 0 (c :: text) (mark.after c) rest
          else if left = 0 && c != '%' then .ok (text.reverse, ⟨c :: rest, mark⟩)
          else .error (.malformed mark)

/-- The characters of a tag, of which there has to be one. -/
def Cursor.tagText (full : Bool) (cursor : Cursor) : Parsed (List Char × Cursor) := do
  let (text, behind) ← tagFrom full 0 [] cursor.mark cursor.rest
  if text.isEmpty then behind.refuse else return (text, behind)

/-- A handle: an exclamation mark, or a name between two of them. What begins like
a handle but does not end like one is given as well. -/
def Cursor.handle (cursor : Cursor) : List Char × Cursor :=
  let (name, behind) := cursor.next.span isNameChar
  if behind.peek? == some '!' then ('!' :: name ++ ['!'], behind.next) else ('!' :: name, behind)

/-- True for a handle that ends with the mark it begins with. -/
def isClosedHandle (handle : List Char) : Bool :=
  1 < handle.length && handle.getLast? == some '!'

/-- The handle and the suffix of a tag. The mark alone is a tag of its own. -/
def tagParts (cursor : Cursor) : Parsed (String × String × Cursor) := do
  if cursor.second? == some '<' then
    let (text, behind) ← (cursor.skip 2).tagText true
    if behind.peek? == some '>' then return ("", upToZero text, behind.next) else behind.refuse
  else
    let (handle, behind) := cursor.handle
    if isClosedHandle handle then
      let (text, behind) ← behind.tagText false
      return (String.ofList handle, upToZero text, behind)
    else
      let (text, behind) ← tagFrom false 0 [] behind.mark behind.rest
      let suffix := upToZero (handle.tail ++ text)
      return if suffix.isEmpty then ("", "!", behind) else ("!", suffix, behind)

/-- Read a tag. A word has to end behind it. -/
def Cursor.tag (flow : Bool) (cursor : Cursor) : Parsed (TokenKind × Cursor) := do
  let (handle, suffix, behind) ← tagParts cursor
  if endsWord behind.peek? || (flow && behind.peek? == some ',') then
    return (.tag handle suffix, behind)
  else behind.refuse

/-- A number of at most nine digits. -/
def versionNumber (cursor : Cursor) : Parsed (Nat × Cursor) :=
  let (digits, behind) := cursor.span Char.isDigit
  if digits.isEmpty || 9 < digits.length then behind.refuse
  else .ok (digits.foldl (fun value c => value * 10 + (c.toNat - 48)) 0, behind)

/-- The version behind the name of its directive. -/
def versionDirective (cursor : Cursor) : Parsed (TokenKind × Cursor) := do
  let (major, behind) ← versionNumber cursor.skipBlanks
  if behind.peek? != some '.' then behind.refuse
  else
    let (minor, behind) ← versionNumber behind.next
    return (.version major minor, behind)

/-- The handle and its meaning behind the name of their directive. -/
def handleDirective (cursor : Cursor) : Parsed (TokenKind × Cursor) := do
  let start := cursor.skipBlanks
  let (handle, behind) := start.handle
  if start.peek? != some '!' then start.refuse
  else if handle != ['!'] && !isClosedHandle handle then behind.refuse
  else if !behind.peek?.any isBlank then behind.refuse
  else
    let (text, behind) ← behind.skipBlanks.tagText true
    if endsWord behind.peek? then
      return (.handle (String.ofList handle) (upToZero text), behind)
    else behind.refuse

/-- Read a directive with the rest of its line. -/
def Cursor.directive (cursor : Cursor) : Parsed (TokenKind × Cursor) := do
  let (name, behind) := cursor.next.span isNameChar
  let (kind, behind) ←
    if !endsWord behind.peek? then behind.refuse
    else if name == ['Y', 'A', 'M', 'L'] then versionDirective behind
    else if name == ['T', 'A', 'G'] then handleDirective behind
    else behind.refuse
  return (kind, ← behind.skipLine)

end VersionStore.Yaml
