import KnownIssues.Json.Record

/-!
# Formats

A format is a reader together with the writer beside it.  Writing has a `Style`: `compact` puts
nothing between the tokens, `indented` a line for each item with two blanks for each level, and a
blank behind each colon.  A list or an object without items is a pair of brackets in either style.
-/

namespace KnownIssues.Json

/-! ### Writing -/

/-- What stands between tokens: in front of an item at a level, and behind a colon. -/
structure Style where
  newline : Nat → List Char
  afterColon : List Char

namespace Style

/-- Nothing between the tokens. -/
def compact : Style :=
  ⟨fun _ => [], []⟩

/-- A line for each item. -/
def indented : Style :=
  ⟨fun level => '\n' :: List.replicate (2 * level) ' ', [' ']⟩

/-- The items with a comma between each two. -/
def separate : List (List Char) → List Char
  | [] => []
  | [x] => x
  | x :: y :: items => x ++ ',' :: separate (y :: items)

/-- The items between brackets at a level. -/
def enclose (style : Style) (opening closing : Char) (level : Nat) (items : List (List Char)) :
    List Char :=
  match items with
  | [] => [opening, closing]
  | items =>
    opening :: (separate (items.map (style.newline (level + 1) ++ ·)) ++ style.newline level
      ++ [closing])

/-- A list of written items. -/
def list (style : Style) (level : Nat) (items : List (List Char)) : List Char :=
  style.enclose '[' ']' level items

/-- An object of names and written values. -/
def object (style : Style) (level : Nat) (members : List (String × List Char)) : List Char :=
  style.enclose '\x7b' '\x7d' level
    (members.map fun m => quote m.1 ++ ':' :: (style.afterColon ++ m.2))

end Style

/-! ### Formats -/

/-- How a value is read, and how it is written in a style at a level. -/
structure Format (α : Type) where
  reader : Reader α
  write : Style → Nat → α → List Char

namespace Format

variable {α : Type}

/-- Reads a whole text. -/
def decode (f : Format α) (text : String) : Except Fault α :=
  f.reader.decode text

/-- The value in one line. -/
def compact (f : Format α) (a : α) : String :=
  .ofList (f.write .compact 0 a)

/-- The value with a line for each item. -/
def pretty (f : Format α) (a : α) : String :=
  .ofList (f.write .indented 0 a)

/-- Texts. -/
def text : Format String :=
  ⟨.text, fun _ _ s => quote s⟩

/-- Words of 64 bits, in decimal digits. -/
def word : Format UInt64 :=
  ⟨.word, fun _ _ n => Nat.toDigits 10 n.toNat⟩

/-- Lists. -/
def list (f : Format α) : Format (List α) :=
  ⟨.list f.reader, fun style level as => style.list level (as.map (f.write style (level + 1)))⟩

end Format

/-- The field that a draft keeps where `get` finds it and `put` leaves it. -/
def Field.of {δ β : Type} (name : String) (get : δ → Option β) (put : β → δ → δ)
    (p : Reader β) : Field δ :=
  ⟨name, fun draft => (get draft).isSome, p.map put⟩

end KnownIssues.Json
