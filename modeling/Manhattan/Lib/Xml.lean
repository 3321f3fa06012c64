/-!
# Document trees

A parsed XML document as libxml2 hands it out: elements with a name and children, text and
comments. Every node has a name, that of a text is `text` and that of a comment
`comment`, so a program that goes by names does not see the difference between a comment
and an element it does not know.

`nodeListGetString` is the text among a list of children. An element without children has
none (a null pointer).

Mirroring notes:
- CDATA sections are texts. Attributes, entities and processing instructions are left out:
  no program here looks at them.
- A list of children without a text among them has the empty string.
-/

namespace Manhattan.Lib

inductive Xml where
  | element (name : String) (children : List Xml)
  | text (content : String)
  | comment (content : String)

namespace Xml

def name : Xml → String
  | element name _ => name
  | text _ => "text"
  | comment _ => "comment"

def children : Xml → List Xml
  | element _ children => children
  | _ => []

/-- The characters of a text node; other nodes have none. -/
def content : Xml → String
  | text content => content
  | _ => ""

/-- `xmlNodeListGetString` -/
def nodeListGetString : List Xml → Option String
  | [] => none
  | nodes => some (String.join (nodes.map content))

theorem nodeListGetString_isSome (nodes : List Xml) :
    (nodeListGetString nodes).isSome = !nodes.isEmpty := by
  cases nodes <;> rfl

theorem nodeListGetString_eq_none_iff (nodes : List Xml) :
    nodeListGetString nodes = none ↔ nodes = [] := by
  cases nodes with
  | nil => exact iff_of_true rfl rfl
  | cons node nodes => exact iff_of_false (Option.some_ne_none _) (List.cons_ne_nil _ _)

end Xml

end Manhattan.Lib
