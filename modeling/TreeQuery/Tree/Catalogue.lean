import TreeQuery.Tree

/-!
# A small catalogue

A document to try expressions on:

```text
<library>                                  1
  <book id="b1" lang="en">                 2, attributes 3 4
    <title>Dune</title>                    5, text 6
    <price>9.5</price>                     7, text 8
  </book>
  <!-- shelf two -->                       9
  <book id="b2">                           10, attribute 11
    <title>Emma</title>                    12, text 13
    <price>4</price>                       14, text 15
  </book>
  <?sort by-title?>                        16
  <magazine>                               17
    <title>Wired</title>                   18, text 19
  </magazine>
</library>
```
-/

namespace TreeQuery.Tree

/-- The document above. -/
def catalogue : Tree :=
  let t := empty.addElement 0 (.simple "library")
  let t := t.addElement 1 (.simple "book")
  let t := t.addAttribute 2 (.simple "id") "b1"
  let t := t.addAttribute 2 (.simple "lang") "en"
  let t := t.addLeaf 2 (.simple "title") "Dune"
  let t := t.addLeaf 2 (.simple "price") "9.5"
  let t := t.addComment 1 " shelf two "
  let t := t.addElement 1 (.simple "book")
  let t := t.addAttribute 10 (.simple "id") "b2"
  let t := t.addLeaf 10 (.simple "title") "Emma"
  let t := t.addLeaf 10 (.simple "price") "4"
  let t := t.addInstruction 1 (.simple "sort") "by-title"
  let t := t.addElement 1 (.simple "magazine")
  t.addLeaf 17 (.simple "title") "Wired"

end TreeQuery.Tree
