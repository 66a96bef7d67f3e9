import StepPipeline.Document.Fault

/-!
# Cursors

A cursor is the unread part of a text and the place where it begins.
-/
namespace StepPipeline.Document

structure Cursor where
  rest : List Char
  place : Position
  deriving Repr

namespace Cursor

def ofString (s : String) : Cursor :=
  ⟨s.toList, .start⟩

/-- The place that names the next octet, or the end of the text. -/
def peek (cur : Cursor) : Position :=
  match cur.rest with
  | [] => cur.place
  | c :: _ => cur.place.into c

def skipBlanks : List Char → Position → Cursor
  | [], p => ⟨[], p⟩
  | c :: rest, p =>
    if c = ' ' ∨ c = '\n' ∨ c = '\t' ∨ c = '\r' then skipBlanks rest (p.after c)
    else ⟨c :: rest, p⟩

/-- The cursor behind spaces, tabs and line ends. -/
def skip (cur : Cursor) : Cursor :=
  skipBlanks cur.rest cur.place

/-- The place at the end of the text. -/
def last (cur : Cursor) : Position :=
  cur.place.afterAll cur.rest

end Cursor
end StepPipeline.Document
