import Recovery.Lib.Fuel

/-!
# Loading a theme (`gui/pages.cpp`)

* `Xml` — an element; `Theme` — files, and what constructors and others look up in them.
* `findStyle`, `findNode` — `PageManager::FindStyle`, and `FindNode` with its styles.
* `processNode` — `Page::ProcessNode`, with its templates.
* `load` — `PageSet::Load`, with its includes.

A depth is counted down: `left` is 10 less `depth`.  The objects of a page are left out, and so is
what is loaded into `mResources`.

A loop that waits for an element with a name does not end when there is none, so the functions are
`Comp`s of `Lib.Fuel`, and `Gui.ThemeTermination` says when they return.
-/

set_option autoImplicit false

namespace Recovery.Gui

open Recovery.Lib

inductive Xml where
  | node (name : String) (attributes : List (String × String)) (children : List Xml)

namespace Xml

def name : Xml → String
  | node name _ _ => name

def children : Xml → List Xml
  | node _ _ children => children

/-- `first_attribute(name)`. -/
def firstAttribute (e : Xml) (name : String) : Option String :=
  match e with
  | node _ attributes _ => attributes.lookup name

/-- `first_node(name)`, and its siblings of that name. -/
def nodes (e : Xml) (name : String) : List Xml := e.children.filter (·.name = name)

def firstNode (e : Xml) (name : String) : Option Xml := (e.nodes name).head?

end Xml

/-! ## Styles -/

/-- One `<style>` of a file is looked at. -/
def styleRound (name : String) : List Xml → Comp (List Xml ⊕ Option Xml)
  | [] => pure (.inr none)
  | node :: next =>
    match node.firstAttribute "name" with
    -- `continue` comes back to the same node
    | none => pure (.inl (node :: next))
    | some n => if name = n then pure (.inr (some node)) else pure (.inl next)

/-- `FindStyle`, in the `<styles>` of the files that are loaded. -/
def findStyle (name : String) : List Xml → Comp (Option Xml)
  | [] => pure none
  | itr :: styles => do
    match ← Comp.loop (styleRound name) (itr.nodes "style") with
    | some node => pure (some node)
    | none => findStyle name styles

/-- One `<style>` of an element is looked at; `find` is `FindNode` at the next depth. -/
def refRound (styles : List Xml) (find : Xml → Comp (Option Xml)) :
    List Xml → Comp (List Xml ⊕ Option Xml)
  | [] => pure (.inr none)
  | style :: next =>
    match style.firstAttribute "name" with
    -- `continue`, again
    | none => pure (.inl (style :: next))
    | some name => do
      match ← findStyle name styles with
      | none => pure (.inl next)
      | some node =>
        match ← find node with
        | none => pure (.inl next)
        | some stylenode => pure (.inr (some stylenode))

/-- The style of an element that has no `<style>`. -/
def styleName (parent : Xml) : String :=
  ((parent.firstAttribute "style").or (parent.firstAttribute "type")).getD parent.name

def findNode (styles : List Xml) (nodename : String) : Nat → Xml → Comp (Option Xml)
  | 0, parent => pure (parent.firstNode nodename)
  | left + 1, parent =>
    match parent.firstNode nodename with
    | some child => pure (some child)
    | none =>
      if parent.nodes "style" ≠ [] then
        Comp.loop (refRound styles (findNode styles nodename left)) (parent.nodes "style")
      else do
        match ← findStyle (styleName parent) styles with
        | some node => findNode styles nodename left node
        | none => pure none

/-! ## Templates -/

/-- What a constructor looks up, depending on what it found, and the world after it. -/
inductive Lookups (ω : Type) where
  | done (world : ω)
  /-- Something else does not return. -/
  | endless (world : ω)
  | find (parent : Xml) (nodename : String) (next : Option Xml → Lookups ω)

variable {ω : Type}

def Lookups.run (styles : List Xml) : Lookups ω → Comp ω
  | .done world => pure world
  | .endless _ => Comp.never
  | .find parent nodename next => do
    let node ← findNode styles nodename 10 parent
    (next node).run styles

/-- The elements that objects are made of. -/
def objectTypes : List String :=
  ["text", "image", "fill", "action", "console", "terminal", "button", "checkbox", "fileselector",
    "animation", "progressbar", "slider", "slidervalue", "listbox", "keyboard", "input",
    "partitionlist", "patternpassword", "textbox"]

/-- One `<template>` of a file is looked at; `process` is `ProcessNode` at the next depth.  The result
is whether to go on, `node_found`, and the world. -/
def templateRound (process : Xml → ω → Comp (Bool × ω)) (name : String) (nodeFound : Bool) :
    List Xml × ω → Comp ((List Xml × ω) ⊕ (Bool × Bool × ω))
  | ([], world) => pure (.inr (true, nodeFound, world))
  | (node :: next, world) =>
    match node.firstAttribute "name" with
    -- `continue`, again
    | none => pure (.inl (node :: next, world))
    | some n =>
      if name = n then do
        let (ok, world) ← process node world
        return .inr (ok, true, world)
      -- in a file after the one with the template, nothing behind its first `<template>`
      else if nodeFound then pure (.inr (true, nodeFound, world))
      else pure (.inl (next, world))

/-- The loop over the `<templates>` of the files that are loaded; it does not end at a hit. -/
def processTemplates (process : Xml → ω → Comp (Bool × ω)) (name : String) :
    Bool → List Xml → ω → Comp (Bool × ω)
  | _, [], world => pure (true, world)
  | nodeFound, itr :: templates, world => do
    let (ok, nodeFound, world) ←
      Comp.loop (templateRound process name nodeFound) (itr.nodes "template", world)
    if ok then processTemplates process name nodeFound templates world else pure (false, world)

/-- The type of the object that an element stands for. -/
def objectType (child : Xml) : String :=
  if child.name = "object" then (child.firstAttribute "type").getD "*unspecified*" else child.name

/-- The children of a page or a template. -/
def processChildren (construct : String → Xml → ω → Lookups ω) (styles templates : List Xml)
    (process : Xml → ω → Comp (Bool × ω)) : List Xml → ω → Comp (Bool × ω)
  | [], world => pure (true, world)
  | child :: next, world =>
    if child.name = "background" then
      processChildren construct styles templates process next world
    else if objectType child ∈ objectTypes then do
      let world ← (construct (objectType child) child world).run styles
      processChildren construct styles templates process next world
    else if objectType child = "template" then
      match child.firstAttribute "name" with
      | none => processChildren construct styles templates process next world
      | some name => do
        let (ok, world) ← processTemplates process name false templates world
        if ok then processChildren construct styles templates process next world
        else pure (false, world)
    else processChildren construct styles templates process next world

def processNode (construct : String → Xml → ω → Lookups ω) (styles templates : List Xml) :
    Nat → Xml → ω → Comp (Bool × ω)
  | 0, _, world => pure (false, world)
  | left + 1, page, world =>
    processChildren construct styles templates (processNode construct styles templates left)
      page.children world

/-! ## Files -/

/-- A theme: finitely many documents, by their top elements, and the code that loads their parts. -/
structure Theme (ω : Type) where
  docs : List (List Xml)
  /-- `LoadFileToBuffer`, and `parse`. -/
  read : String → Option (List Xml)
  read_mem : ∀ {filename doc}, read filename = some doc → doc ∈ docs
  basepath : String
  construct : String → Xml → ω → Lookups ω
  loadDetails : Xml → ω → Int × ω
  loadResources : Xml → ω → Lookups ω
  loadVariables : Xml → ω → Lookups ω
  loadCursorData : Xml → ω → Lookups ω

/-- `LoadingContext`, with the number of pages of the set. -/
structure LoadingContext (ω : Type) where
  filenames : List String
  /-- The size of `xmlbuffers`. -/
  xmlbuffers : Nat
  styles : List Xml
  templates : List Xml
  pages : Nat
  world : ω

variable (theme : Theme ω)

/-- A part of a file that may be missing. -/
def loadPart (part : Xml → ω → Lookups ω) (child : Option Xml) (ctx : LoadingContext ω) :
    Comp (LoadingContext ω) :=
  match child with
  | none => pure ctx
  | some child => do
    let world ← (part child ctx.world).run ctx.styles
    return { ctx with world }

/-- `new Page(child, &ctx.templates)`, and whether it has a name. -/
def loadPage (page : Xml) (ctx : LoadingContext ω) : Comp (LoadingContext ω) :=
  match page.firstAttribute "name" with
  | none => pure ctx
  | some name => do
    let (_, world) ← processNode theme.construct ctx.styles ctx.templates 10 page ctx.world
    return { ctx with world, pages := if name = "" then ctx.pages else ctx.pages + 1 }

def loadPages : List Xml → LoadingContext ω → Comp (Int × LoadingContext ω)
  | [], ctx => pure (if ctx.pages > 0 then 0 else -1, ctx)
  | page :: next, ctx => do
    let ctx ← loadPage theme page ctx
    loadPages next ctx

/-- One `<xmlfile>` is looked at; `load` is `Load`. -/
def includeRound (load : String → LoadingContext ω → Comp (Int × LoadingContext ω)) :
    List Xml × LoadingContext ω →
      Comp ((List Xml × LoadingContext ω) ⊕ (Int × LoadingContext ω))
  | ([], ctx) => pure (.inr (0, ctx))
  | (xmlfile :: next, ctx) =>
    match xmlfile.firstAttribute "name" with
    -- `continue`, again
    | none => pure (.inl (xmlfile :: next, ctx))
    | some name => do
      let (rc, ctx) ← load (theme.basepath ++ name) ctx
      if rc ≠ 0 then pure (.inr (rc, ctx)) else pure (.inl (next, ctx))

/-- `<recovery>` or `<install>`. -/
def rootOf (doc : List Xml) : Option Xml :=
  (doc.find? (·.name = "recovery")).or (doc.find? (·.name = "install"))

/-- `Load` from `LoadResources` to `LoadPages`. -/
def loadParts (root : Xml) (ctx : LoadingContext ω) : Comp (Int × LoadingContext ω) := do
  let ctx ← loadPart theme.loadResources (root.firstNode "resources") ctx
  let ctx ← loadPart theme.loadVariables (root.firstNode "variables") ctx
  let ctx ← loadPart theme.loadCursorData (root.firstNode "mousecursor") ctx
  let ctx := { ctx with
    templates := ctx.templates ++ (root.firstNode "templates").toList
    styles := ctx.styles ++ (root.firstNode "styles").toList }
  match root.firstNode "pages" with
  | none => pure (0, ctx)
  | some pages => loadPages theme (pages.nodes "page") ctx

/-- The `<xmlfile>`s of the first `<include>`. -/
def includesOf (root : Xml) : List Xml := (root.firstNode "include").elim [] (·.nodes "xmlfile")

def loadRoot (load : String → LoadingContext ω → Comp (Int × LoadingContext ω)) (root : Xml)
    (ctx : LoadingContext ω) : Comp (Int × LoadingContext ω) := do
  let (rc, ctx) ← loadParts theme root ctx
  if rc ≠ 0 then pure (-1, ctx)
  else Comp.loop (includeRound theme load) (includesOf root, ctx)

/-- `Load` up to `LoadDetails`: what it returns there, or the root element. -/
def openFile (filename : String) (ctx : LoadingContext ω) :
    (Int × LoadingContext ω) ⊕ (Xml × LoadingContext ω) :=
  let isMain := ctx.xmlbuffers = 0
  if filename ∈ ctx.filenames then .inl (0, ctx)
  else
    let ctx := { ctx with filenames := filename :: ctx.filenames }
    match theme.read filename with
    | none => .inl (-1, ctx)
    | some doc =>
      let ctx := { ctx with xmlbuffers := ctx.xmlbuffers + 1 }
      match rootOf doc with
      | none => .inl (-1, ctx)
      | some root =>
        let (rc, world) := if isMain then theme.loadDetails root ctx.world else (0, ctx.world)
        let ctx := { ctx with world }
        if rc ≠ 0 then .inl (rc, ctx) else .inr (root, ctx)

/-- `Load`, with files that include one another at most `n` deep. -/
def load : Nat → String → LoadingContext ω → Comp (Int × LoadingContext ω)
  | 0, _, _ => Comp.never
  | n + 1, filename, ctx =>
    match openFile theme filename ctx with
    | .inl r => pure r
    | .inr (root, ctx) => loadRoot theme (load n) root ctx

end Recovery.Gui
