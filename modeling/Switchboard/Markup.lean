/-!
# Markup

Elements with sorted attributes and text, written without white space between them.
-/
namespace Switchboard

/-- An element with attributes, text and elements inside, in this order. -/
inductive Markup where
  | element (name : String) (attributes : List (String × String)) (text : String) (children : List Markup)

namespace Markup

def escapeText (c : Char) : String :=
  if c = '&' then "&amp;" else if c = '<' then "&lt;" else if c = '>' then "&gt;" else c.toString

/-- A character of an attribute: quotes and line breaks are escaped too. -/
def escapeAttribute (c : Char) : String :=
  if c = '"' then "&quot;"
  else if c = '\r' then "&#13;"
  else if c = '\n' then "&#10;"
  else if c = '\t' then "&#09;"
  else escapeText c

def escape (f : Char → String) (s : String) : String := s.toList.foldl (fun acc c => acc ++ f c) ""

def renderAttributes (as : List (String × String)) : String :=
  as.foldl (fun acc a => acc ++ " " ++ a.1 ++ "=\"" ++ escape escapeAttribute a.2 ++ "\"") ""

def before (a b : String × String) : Bool := decide (a.1 ≤ b.1)

mutual

/-- The text of an element; one with nothing inside closes itself. -/
def render : Markup → String
  | .element name as text children =>
    let head := "<" ++ name ++ renderAttributes (as.mergeSort before)
    if text = "" && children.isEmpty then head ++ " />"
    else head ++ ">" ++ escape escapeText text ++ renderAll children ++ "</" ++ name ++ ">"

def renderAll : List Markup → String
  | [] => ""
  | m :: rest => render m ++ renderAll rest

end

def document (m : Markup) : String := "<?xml version=\"1.0\" encoding=\"UTF-8\"?>" ++ m.render

end Markup

end Switchboard
