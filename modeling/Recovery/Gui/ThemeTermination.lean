import Recovery.Gui.ThemeLoading

/-!
# Themes that are loaded (`gui/pages.cpp`)

* `Event` — an element is asked for its name; `Event.Allowed` — it has one.
* `findNodeTrace`, `processNodeTrace`, `loadTrace` — what loading comes to, elements without a name
  being passed over.
* `findNode_meets`, `processNode_meets`, `load_meets` — the code returns if and only if all are
  allowed.
* `unvisited` — the includes that can still be loaded, which bound the depth.
* `theme_loading_iff` — for all three functions; `nameless_style_hangs` — a theme that hangs.

Every include may name any file, itself too; a file that is loaded is not loaded again, so the
depth is bounded by the number of files that are named.
-/

set_option autoImplicit false

namespace Recovery.Gui

open Recovery.Lib

inductive Event where
  /-- The `name` of an element is looked at. -/
  | element (e : Xml)
  | endless

def Event.Allowed : Event → Prop
  | .element e => e.firstAttribute "name" ≠ none
  | .endless => False

/-! ## Styles -/

def styleTrace (name : String) : List Xml → Traced Event (Option Xml)
  | [] => pure none
  | node :: next => do
    Traced.event (.element node)
    if node.firstAttribute "name" = some name then pure (some node) else styleTrace name next

def findStyleTrace (name : String) : List Xml → Traced Event (Option Xml)
  | [] => pure none
  | itr :: styles => do
    match ← styleTrace name (itr.nodes "style") with
    | some node => pure (some node)
    | none => findStyleTrace name styles

def refTrace (styles : List Xml) (find : Xml → Traced Event (Option Xml)) :
    List Xml → Traced Event (Option Xml)
  | [] => pure none
  | style :: next => do
    Traced.event (.element style)
    match style.firstAttribute "name" with
    | none => refTrace styles find next
    | some name =>
      match ← findStyleTrace name styles with
      | none => refTrace styles find next
      | some node =>
        match ← find node with
        | none => refTrace styles find next
        | some stylenode => pure (some stylenode)

def findNodeTrace (styles : List Xml) (nodename : String) :
    Nat → Xml → Traced Event (Option Xml)
  | 0, parent => pure (parent.firstNode nodename)
  | left + 1, parent =>
    match parent.firstNode nodename with
    | some child => pure (some child)
    | none =>
      if parent.nodes "style" ≠ [] then
        refTrace styles (findNodeTrace styles nodename left) (parent.nodes "style")
      else do
        match ← findStyleTrace (styleName parent) styles with
        | some node => findNodeTrace styles nodename left node
        | none => pure none

/-- `c` returns if and only if all elements it comes to have names. -/
abbrev Meets {α : Type} (c : Comp α) (t : Traced Event α) : Prop := c.Meets Event.Allowed t

theorem style_meets (name : String) (nodes : List Xml) :
    Meets (Comp.loop (styleRound name) nodes) (styleTrace name nodes) := by
  induction nodes with
  | nil =>
    refine .loop ?_
    exact .pure none
  | cons node next ih =>
    cases hname : node.firstAttribute "name" with
    | none =>
      have hround : styleRound name (node :: next) = pure (.inl (node :: next)) := by
        rw [styleRound, hname]
      exact .stuck hround (fun h => h hname) _
    | some n =>
      refine .event (.loop ?_) (fun h => by cases hname.symm.trans h)
      rw [styleRound, hname]
      dsimp only
      by_cases hn : name = n
      · rw [if_pos hn, if_pos (by rw [hn])]
        exact .pure (some node)
      · rw [if_neg (fun h => hn (Option.some.inj h).symm), if_neg hn]
        exact ih

theorem findStyle_meets (name : String) (styles : List Xml) :
    Meets (findStyle name styles) (findStyleTrace name styles) := by
  induction styles with
  | nil => exact .pure none
  | cons itr styles ih =>
    refine .bind (style_meets name _) ?_
    cases (styleTrace name (itr.nodes "style")).value with
    | none => exact ih
    | some node => exact .pure _

theorem ref_meets (styles : List Xml) {find : Xml → Comp (Option Xml)}
    {findT : Xml → Traced Event (Option Xml)} (hfind : ∀ node, Meets (find node) (findT node))
    (refs : List Xml) :
    Meets (Comp.loop (refRound styles find) refs) (refTrace styles findT refs) := by
  induction refs with
  | nil =>
    refine .loop ?_
    exact .pure none
  | cons style next ih =>
    cases hname : style.firstAttribute "name" with
    | none =>
      have hround : refRound styles find (style :: next) = pure (.inl (style :: next)) := by
        rw [refRound, hname]
      exact .stuck hround (fun h => h hname) _
    | some name =>
      refine .event (.loop ?_) (fun h => by cases hname.symm.trans h)
      rw [refRound, hname]
      dsimp only
      rw [Comp.bind_assoc]
      refine .bind (findStyle_meets name styles) ?_
      cases (findStyleTrace name styles).value with
      | none => exact ih
      | some node =>
        dsimp only
        rw [Comp.bind_assoc]
        refine .bind (hfind node) ?_
        cases (findT node).value with
        | none => exact ih
        | some stylenode => exact .pure _

/-- **`FindNode`.** -/
theorem findNode_meets (styles : List Xml) (nodename : String) (left : Nat) (parent : Xml) :
    Meets (findNode styles nodename left parent) (findNodeTrace styles nodename left parent) := by
  induction left generalizing parent with
  | zero => exact .pure _
  | succ left ih =>
    rw [findNode, findNodeTrace]
    cases parent.firstNode nodename with
    | some child => exact .pure _
    | none =>
      dsimp only
      split
      · exact ref_meets styles ih _
      · refine .bind (findStyle_meets _ styles) ?_
        cases (findStyleTrace (styleName parent) styles).value with
        | none => exact .pure none
        | some node => exact ih node

/-! ## Templates -/

variable {ω : Type}

def Lookups.trace (styles : List Xml) : Lookups ω → Traced Event ω
  | .done world => pure world
  | .endless world => do
    Traced.event .endless
    pure world
  | .find parent nodename next => do
    let node ← findNodeTrace styles nodename 10 parent
    (next node).trace styles

def templateTrace (process : Xml → ω → Traced Event (Bool × ω)) (name : String)
    (nodeFound : Bool) : List Xml → ω → Traced Event (Bool × Bool × ω)
  | [], world => pure (true, nodeFound, world)
  | node :: next, world => do
    Traced.event (.element node)
    if node.firstAttribute "name" = some name then
      let (ok, world) ← process node world
      return (ok, true, world)
    else if nodeFound then pure (true, nodeFound, world)
    else templateTrace process name nodeFound next world

def templatesTrace (process : Xml → ω → Traced Event (Bool × ω)) (name : String) :
    Bool → List Xml → ω → Traced Event (Bool × ω)
  | _, [], world => pure (true, world)
  | nodeFound, itr :: templates, world => do
    let (ok, nodeFound, world) ← templateTrace process name nodeFound (itr.nodes "template") world
    if ok then templatesTrace process name nodeFound templates world else pure (false, world)

def childrenTrace (construct : String → Xml → ω → Lookups ω) (styles templates : List Xml)
    (process : Xml → ω → Traced Event (Bool × ω)) : List Xml → ω → Traced Event (Bool × ω)
  | [], world => pure (true, world)
  | child :: next, world =>
    if child.name = "background" then
      childrenTrace construct styles templates process next world
    else if objectType child ∈ objectTypes then do
      let world ← (construct (objectType child) child world).trace styles
      childrenTrace construct styles templates process next world
    else if objectType child = "template" then
      match child.firstAttribute "name" with
      | none => childrenTrace construct styles templates process next world
      | some name => do
        let (ok, world) ← templatesTrace process name false templates world
        if ok then childrenTrace construct styles templates process next world
        else pure (false, world)
    else childrenTrace construct styles templates process next world

def processNodeTrace (construct : String → Xml → ω → Lookups ω) (styles templates : List Xml) :
    Nat → Xml → ω → Traced Event (Bool × ω)
  | 0, _, world => pure (false, world)
  | left + 1, page, world =>
    childrenTrace construct styles templates (processNodeTrace construct styles templates left)
      page.children world

theorem lookups_meets (styles : List Xml) (l : Lookups ω) :
    Meets (l.run styles) (l.trace styles) := by
  induction l with
  | done world => exact .pure world
  | endless world => exact .of_not_returns Comp.not_returns_never id _
  | find parent nodename next ih =>
    exact .bind (findNode_meets styles nodename 10 parent) (ih _)

section Processing

variable {process : Xml → ω → Comp (Bool × ω)} {processT : Xml → ω → Traced Event (Bool × ω)}
  (hprocess : ∀ node world, Meets (process node world) (processT node world))

include hprocess

theorem template_meets (name : String) (nodeFound : Bool) (nodes : List Xml) (world : ω) :
    Meets (Comp.loop (templateRound process name nodeFound) (nodes, world))
      (templateTrace processT name nodeFound nodes world) := by
  induction nodes with
  | nil =>
    refine .loop ?_
    exact .pure (true, nodeFound, world)
  | cons node next ih =>
    cases hname : node.firstAttribute "name" with
    | none =>
      have hround : templateRound process name nodeFound (node :: next, world) =
          pure (.inl (node :: next, world)) := by
        rw [templateRound, hname]
      exact .stuck hround (fun h => h hname) _
    | some n =>
      refine .event (.loop ?_) (fun h => by cases hname.symm.trans h)
      rw [templateRound, hname]
      dsimp only
      by_cases hn : name = n
      · rw [if_pos hn, if_pos (by rw [hn]), Comp.bind_assoc]
        refine .bind (hprocess node world) ?_
        exact .pure _
      · rw [if_neg (fun h => hn (Option.some.inj h).symm), if_neg hn]
        cases nodeFound with
        | true => exact .pure _
        | false => exact ih

theorem templates_meets (name : String) (nodeFound : Bool) (templates : List Xml) (world : ω) :
    Meets (processTemplates process name nodeFound templates world)
      (templatesTrace processT name nodeFound templates world) := by
  induction templates generalizing nodeFound world with
  | nil => exact .pure (true, world)
  | cons itr templates ih =>
    refine .bind (template_meets hprocess name nodeFound _ world) ?_
    generalize (templateTrace processT name nodeFound (itr.nodes "template") world).value = r
    obtain ⟨ok, nodeFound, world⟩ := r
    cases ok with
    | true => exact ih nodeFound world
    | false => exact .pure (false, world)

theorem children_meets (construct : String → Xml → ω → Lookups ω) (styles templates : List Xml)
    (children : List Xml) (world : ω) :
    Meets (processChildren construct styles templates process children world)
      (childrenTrace construct styles templates processT children world) := by
  induction children generalizing world with
  | nil => exact .pure (true, world)
  | cons child next ih =>
    rw [processChildren, childrenTrace]
    split
    · exact ih world
    · split
      · exact .bind (lookups_meets styles _) (ih _)
      · split
        · cases child.firstAttribute "name" with
          | none => exact ih world
          | some name =>
            refine .bind (templates_meets hprocess name false templates world) ?_
            generalize (templatesTrace processT name false templates world).value = r
            obtain ⟨ok, world⟩ := r
            cases ok with
            | true => exact ih world
            | false => exact .pure (false, world)
        · exact ih world

end Processing

/-- **`Page::ProcessNode`.** -/
theorem processNode_meets (construct : String → Xml → ω → Lookups ω) (styles templates : List Xml)
    (left : Nat) (page : Xml) (world : ω) :
    Meets (processNode construct styles templates left page world)
      (processNodeTrace construct styles templates left page world) := by
  induction left generalizing page world with
  | zero => exact .pure (false, world)
  | succ left ih => exact children_meets ih construct styles templates page.children world

/-! ## Files -/

variable (theme : Theme ω)

def loadPartTrace (part : Xml → ω → Lookups ω) (child : Option Xml) (ctx : LoadingContext ω) :
    Traced Event (LoadingContext ω) :=
  match child with
  | none => pure ctx
  | some child => do
    let world ← (part child ctx.world).trace ctx.styles
    return { ctx with world }

def loadPageTrace (page : Xml) (ctx : LoadingContext ω) : Traced Event (LoadingContext ω) :=
  match page.firstAttribute "name" with
  | none => pure ctx
  | some name => do
    let (_, world) ← processNodeTrace theme.construct ctx.styles ctx.templates 10 page ctx.world
    return { ctx with world, pages := if name = "" then ctx.pages else ctx.pages + 1 }

def loadPagesTrace :
    List Xml → LoadingContext ω → Traced Event (Int × LoadingContext ω)
  | [], ctx => pure (if ctx.pages > 0 then 0 else -1, ctx)
  | page :: next, ctx => do
    let ctx ← loadPageTrace theme page ctx
    loadPagesTrace next ctx

def loadPartsTrace (root : Xml) (ctx : LoadingContext ω) :
    Traced Event (Int × LoadingContext ω) := do
  let ctx ← loadPartTrace theme.loadResources (root.firstNode "resources") ctx
  let ctx ← loadPartTrace theme.loadVariables (root.firstNode "variables") ctx
  let ctx ← loadPartTrace theme.loadCursorData (root.firstNode "mousecursor") ctx
  let ctx := { ctx with
    templates := ctx.templates ++ (root.firstNode "templates").toList
    styles := ctx.styles ++ (root.firstNode "styles").toList }
  match root.firstNode "pages" with
  | none => pure (0, ctx)
  | some pages => loadPagesTrace theme (pages.nodes "page") ctx

def includeTrace
    (load : String → LoadingContext ω → Traced Event (Int × LoadingContext ω)) :
    List Xml → LoadingContext ω → Traced Event (Int × LoadingContext ω)
  | [], ctx => pure (0, ctx)
  | xmlfile :: next, ctx => do
    Traced.event (.element xmlfile)
    match xmlfile.firstAttribute "name" with
    | none => includeTrace load next ctx
    | some name =>
      let (rc, ctx) ← load (theme.basepath ++ name) ctx
      if rc ≠ 0 then pure (rc, ctx) else includeTrace load next ctx

def loadRootTrace (load : String → LoadingContext ω → Traced Event (Int × LoadingContext ω))
    (root : Xml) (ctx : LoadingContext ω) : Traced Event (Int × LoadingContext ω) := do
  let (rc, ctx) ← loadPartsTrace theme root ctx
  if rc ≠ 0 then pure (-1, ctx) else includeTrace theme load (includesOf root) ctx

def loadTrace : Nat → String → LoadingContext ω → Traced Event (Int × LoadingContext ω)
  | 0, _, ctx => pure (0, ctx)
  | n + 1, filename, ctx =>
    match openFile theme filename ctx with
    | .inl r => pure r
    | .inr (root, ctx) => loadRootTrace theme (loadTrace n) root ctx

theorem loadPart_meets (part : Xml → ω → Lookups ω) (child : Option Xml)
    (ctx : LoadingContext ω) : Meets (loadPart part child ctx) (loadPartTrace part child ctx) := by
  cases child with
  | none => exact .pure ctx
  | some child => exact .bind (lookups_meets ctx.styles _) (.pure _)

theorem loadPage_meets (page : Xml) (ctx : LoadingContext ω) :
    Meets (loadPage theme page ctx) (loadPageTrace theme page ctx) := by
  rw [loadPage, loadPageTrace]
  cases page.firstAttribute "name" with
  | none => exact .pure ctx
  | some name =>
    exact .bind (processNode_meets theme.construct ctx.styles ctx.templates 10 page ctx.world)
      (.pure _)

theorem loadPages_meets (pages : List Xml) (ctx : LoadingContext ω) :
    Meets (loadPages theme pages ctx) (loadPagesTrace theme pages ctx) := by
  induction pages generalizing ctx with
  | nil => exact .pure _
  | cons page next ih => exact .bind (loadPage_meets theme page ctx) (ih _)

theorem loadParts_meets (root : Xml) (ctx : LoadingContext ω) :
    Meets (loadParts theme root ctx) (loadPartsTrace theme root ctx) := by
  refine .bind (loadPart_meets _ _ ctx) (.bind (loadPart_meets _ _ _)
    (.bind (loadPart_meets _ _ _) ?_))
  cases root.firstNode "pages" with
  | none => exact .pure _
  | some pages => exact loadPages_meets theme _ _

/-! ## Includes -/

/-- The files that documents include. -/
def Theme.includes : List String :=
  theme.docs.flatMap fun doc => ((rootOf doc).elim [] includesOf).filterMap fun xmlfile =>
    (xmlfile.firstAttribute "name").map (theme.basepath ++ ·)

/-- How many of them were not loaded. -/
def unvisited (ctx : LoadingContext ω) : Nat :=
  (theme.includes.filter (· ∉ ctx.filenames)).length

theorem mem_includes {filename name : String} {doc : List Xml} {root xmlfile : Xml}
    (hread : theme.read filename = some doc) (hroot : rootOf doc = some root)
    (hmem : xmlfile ∈ includesOf root) (hname : xmlfile.firstAttribute "name" = some name) :
    theme.basepath ++ name ∈ theme.includes := by
  refine List.mem_flatMap.2 ⟨doc, theme.read_mem hread, List.mem_filterMap.2 ⟨xmlfile, ?_, ?_⟩⟩
  · rw [hroot]
    exact hmem
  · rw [hname]
    rfl

theorem unvisited_le {ctx ctx' : LoadingContext ω} (h : ctx.filenames ⊆ ctx'.filenames) :
    unvisited theme ctx' ≤ unvisited theme ctx := by
  refine (List.monotone_filter_right _ fun name hname => ?_).length_le
  simpa using fun hmem => (by simpa using hname : name ∉ ctx'.filenames) (h hmem)

/-- One more is loaded. -/
theorem unvisited_lt {ctx ctx' : LoadingContext ω} {filename : String}
    (hmem : filename ∈ theme.includes) (hnew : filename ∉ ctx.filenames)
    (h : ctx'.filenames = filename :: ctx.filenames) :
    unvisited theme ctx' < unvisited theme ctx := by
  have hfilter : theme.includes.filter (· ∉ ctx'.filenames) =
      (theme.includes.filter (· ∉ ctx.filenames)).filter (· ≠ filename) := by
    rw [List.filter_filter, h]
    refine List.filter_congr fun name _ => ?_
    simp
  rw [unvisited, hfilter, unvisited, List.length_filter_lt_length_iff_exists]
  exact ⟨filename, List.mem_filter.2 ⟨hmem, by simpa using hnew⟩, by simp⟩

/-! ## What is loaded stays loaded -/

theorem loadPartTrace_filenames (part : Xml → ω → Lookups ω) (child : Option Xml)
    (ctx : LoadingContext ω) : (loadPartTrace part child ctx).value.filenames = ctx.filenames := by
  cases child <;> rfl

theorem loadPagesTrace_filenames (pages : List Xml) (ctx : LoadingContext ω) :
    (loadPagesTrace theme pages ctx).value.2.filenames = ctx.filenames := by
  induction pages generalizing ctx with
  | nil => rfl
  | cons page next ih =>
    have hpage : (loadPageTrace theme page ctx).value.filenames = ctx.filenames := by
      rw [loadPageTrace]
      cases page.firstAttribute "name" <;> rfl
    exact (ih _).trans hpage

theorem loadPartsTrace_filenames (root : Xml) (ctx : LoadingContext ω) :
    (loadPartsTrace theme root ctx).value.2.filenames = ctx.filenames := by
  unfold loadPartsTrace
  simp only [Traced.value_bind]
  cases root.firstNode "pages" with
  | none => simp [loadPartTrace_filenames]
  | some pages => simp [loadPagesTrace_filenames, loadPartTrace_filenames]

theorem includeTrace_filenames
    {load : String → LoadingContext ω → Traced Event (Int × LoadingContext ω)}
    (hload : ∀ filename ctx, ctx.filenames ⊆ (load filename ctx).value.2.filenames)
    (xmlfiles : List Xml) (ctx : LoadingContext ω) :
    ctx.filenames ⊆ (includeTrace theme load xmlfiles ctx).value.2.filenames := by
  induction xmlfiles generalizing ctx with
  | nil => exact List.Subset.refl _
  | cons xmlfile next ih =>
    rw [includeTrace, Traced.value_bind]
    cases xmlfile.firstAttribute "name" with
    | none => exact ih ctx
    | some name =>
      rw [Traced.value_bind]
      have hfirst := hload (theme.basepath ++ name) ctx
      generalize (load (theme.basepath ++ name) ctx).value = r at hfirst ⊢
      dsimp only
      split
      · exact hfirst
      · exact List.Subset.trans hfirst (ih r.2)

/-- A file is opened once. -/
theorem openFile_inr {filename : String} {ctx ctx' : LoadingContext ω} {root : Xml}
    (h : openFile theme filename ctx = .inr (root, ctx')) :
    filename ∉ ctx.filenames ∧ ctx'.filenames = filename :: ctx.filenames ∧
      ∃ doc, theme.read filename = some doc ∧ rootOf doc = some root := by
  rw [openFile] at h
  by_cases hnew : filename ∈ ctx.filenames
  · rw [if_pos hnew] at h
    cases h
  · rw [if_neg hnew] at h
    cases hread : theme.read filename with
    | none =>
      rw [hread] at h
      cases h
    | some doc =>
      rw [hread] at h
      cases hroot : rootOf doc with
      | none =>
        simp only [hroot] at h
        cases h
      | some found =>
        simp only [hroot] at h
        generalize (if ctx.xmlbuffers = 0 then theme.loadDetails found ctx.world
          else (0, ctx.world)) = details at h
        split at h
        · cases h
        · cases h
          exact ⟨hnew, rfl, doc, rfl, hroot⟩

theorem openFile_inl {filename : String} {ctx : LoadingContext ω} {r : Int × LoadingContext ω}
    (h : openFile theme filename ctx = .inl r) : ctx.filenames ⊆ r.2.filenames := by
  have hcons : ctx.filenames ⊆ filename :: ctx.filenames := List.subset_cons_self _ _
  rw [openFile] at h
  by_cases hnew : filename ∈ ctx.filenames
  · rw [if_pos hnew] at h
    cases h
    exact List.Subset.refl _
  · rw [if_neg hnew] at h
    cases hread : theme.read filename with
    | none =>
      rw [hread] at h
      cases h
      exact hcons
    | some doc =>
      rw [hread] at h
      cases hroot : rootOf doc with
      | none =>
        simp only [hroot] at h
        cases h
        exact hcons
      | some found =>
        simp only [hroot] at h
        generalize (if ctx.xmlbuffers = 0 then theme.loadDetails found ctx.world
          else (0, ctx.world)) = details at h
        split at h
        · cases h
          exact hcons
        · cases h

theorem loadRootTrace_filenames
    {load : String → LoadingContext ω → Traced Event (Int × LoadingContext ω)}
    (hload : ∀ filename ctx, ctx.filenames ⊆ (load filename ctx).value.2.filenames)
    (root : Xml) (ctx : LoadingContext ω) :
    ctx.filenames ⊆ (loadRootTrace theme load root ctx).value.2.filenames := by
  have hparts := loadPartsTrace_filenames theme root ctx
  rw [loadRootTrace, Traced.value_bind, ← hparts]
  generalize (loadPartsTrace theme root ctx).value = r
  dsimp only
  split
  · exact List.Subset.refl _
  · exact includeTrace_filenames theme hload _ r.2

theorem loadTrace_filenames (n : Nat) (filename : String) (ctx : LoadingContext ω) :
    ctx.filenames ⊆ (loadTrace theme n filename ctx).value.2.filenames := by
  induction n generalizing filename ctx with
  | zero => exact List.Subset.refl _
  | succ n ih =>
    rw [loadTrace]
    cases hopen : openFile theme filename ctx with
    | inl r => exact openFile_inl theme hopen
    | inr found =>
      obtain ⟨root, ctx'⟩ := found
      have hcons : ctx.filenames ⊆ ctx'.filenames := by
        rw [(openFile_inr theme hopen).2.1]
        exact List.subset_cons_self _ _
      exact List.Subset.trans hcons (loadRootTrace_filenames theme ih root ctx')

/-! ## Depths -/

/-- A depth that is enough to load a file. -/
def DepthFor (n : Nat) (filename : String) (ctx : LoadingContext ω) : Prop :=
  unvisited theme ctx < n ∧ (filename ∈ theme.includes ∨ unvisited theme ctx + 1 < n)

/-- It is enough for the included files, too. -/
theorem DepthFor.opened {n : Nat} {filename : String} {ctx ctx' : LoadingContext ω} {root : Xml}
    (h : DepthFor theme (n + 1) filename ctx)
    (hopen : openFile theme filename ctx = .inr (root, ctx')) : unvisited theme ctx' < n := by
  obtain ⟨hnew, hfilenames, -⟩ := openFile_inr theme hopen
  obtain ⟨hlt, hmem | hlt'⟩ := h
  · have hless := unvisited_lt theme hmem hnew hfilenames
    lia
  · have hle : unvisited theme ctx' ≤ unvisited theme ctx := by
      apply unvisited_le
      rw [hfilenames]
      exact List.subset_cons_self _ _
    lia

/-- Files that are included are in the list. -/
def Included (xmlfiles : List Xml) : Prop :=
  ∀ xmlfile ∈ xmlfiles, ∀ name, xmlfile.firstAttribute "name" = some name →
    theme.basepath ++ name ∈ theme.includes

theorem included_of_open {filename : String} {ctx ctx' : LoadingContext ω} {root : Xml}
    (h : openFile theme filename ctx = .inr (root, ctx')) : Included theme (includesOf root) := by
  obtain ⟨-, -, doc, hread, hroot⟩ := openFile_inr theme h
  exact fun xmlfile hmem name hname => mem_includes theme hread hroot hmem hname

/-- The includes of a file, if loads meet their traces. -/
theorem include_meets {n : Nat}
    (hload : ∀ filename ctx, DepthFor theme n filename ctx →
      Meets (load theme n filename ctx) (loadTrace theme n filename ctx))
    {xmlfiles : List Xml} (hincluded : Included theme xmlfiles) {ctx : LoadingContext ω}
    (hctx : unvisited theme ctx < n) :
    Meets (Comp.loop (includeRound theme (load theme n)) (xmlfiles, ctx))
      (includeTrace theme (loadTrace theme n) xmlfiles ctx) := by
  induction xmlfiles generalizing ctx with
  | nil =>
    refine .loop ?_
    exact .pure (0, ctx)
  | cons xmlfile next ih =>
    obtain ⟨hfirst, hnext⟩ := List.forall_mem_cons.1 hincluded
    cases hname : xmlfile.firstAttribute "name" with
    | none =>
      have hround : includeRound theme (load theme n) (xmlfile :: next, ctx) =
          pure (.inl (xmlfile :: next, ctx)) := by
        rw [includeRound, hname]
      exact .stuck hround (fun h => h hname) _
    | some name =>
      refine .event (.loop ?_) (fun h => by cases hname.symm.trans h)
      rw [includeRound, hname]
      dsimp only
      rw [Comp.bind_assoc]
      refine .bind (hload _ ctx ⟨hctx, .inl (hfirst name hname)⟩) ?_
      have hgrown := loadTrace_filenames theme n (theme.basepath ++ name) ctx
      generalize (loadTrace theme n (theme.basepath ++ name) ctx).value = r at hgrown ⊢
      obtain ⟨rc, ctx'⟩ := r
      dsimp only
      split
      · exact .pure _
      · exact ih hnext (Nat.lt_of_le_of_lt (unvisited_le theme hgrown) hctx)

theorem load_meets {n : Nat} {filename : String} {ctx : LoadingContext ω}
    (h : DepthFor theme n filename ctx) :
    Meets (load theme n filename ctx) (loadTrace theme n filename ctx) := by
  induction n generalizing filename ctx with
  | zero => exact absurd h.1 (Nat.not_lt_zero _)
  | succ n ih =>
    rw [load, loadTrace]
    cases hopen : openFile theme filename ctx with
    | inl r => exact .pure r
    | inr found =>
      obtain ⟨root, ctx'⟩ := found
      refine .bind (loadParts_meets theme root ctx') ?_
      have hfilenames := loadPartsTrace_filenames theme root ctx'
      generalize (loadPartsTrace theme root ctx').value = r at hfilenames
      obtain ⟨rc, ctx''⟩ := r
      dsimp only
      split
      · exact .pure _
      · refine include_meets theme (fun _ _ => ih) (included_of_open theme hopen) ?_
        have hlt := h.opened theme hopen
        rwa [unvisited, hfilenames]

/-! ## More depth changes nothing -/

theorem include_stable {n : Nat}
    (hload : ∀ filename ctx, DepthFor theme n filename ctx →
      loadTrace theme (n + 1) filename ctx = loadTrace theme n filename ctx)
    {xmlfiles : List Xml} (hincluded : Included theme xmlfiles) {ctx : LoadingContext ω}
    (hctx : unvisited theme ctx < n) :
    includeTrace theme (loadTrace theme (n + 1)) xmlfiles ctx =
      includeTrace theme (loadTrace theme n) xmlfiles ctx := by
  induction xmlfiles generalizing ctx with
  | nil => rfl
  | cons xmlfile next ih =>
    obtain ⟨hfirst, hnext⟩ := List.forall_mem_cons.1 hincluded
    rw [includeTrace, includeTrace]
    cases hname : xmlfile.firstAttribute "name" with
    | none =>
      dsimp only
      rw [ih hnext hctx]
    | some name =>
      dsimp only
      rw [hload _ ctx ⟨hctx, .inl (hfirst name hname)⟩]
      have hgrown := loadTrace_filenames theme n (theme.basepath ++ name) ctx
      have hlt := Nat.lt_of_le_of_lt (unvisited_le theme hgrown) hctx
      have hnexts := ih hnext hlt
      refine Traced.bind_congr (Traced.bind_congr ?_)
      rw [hnexts]

/-- Depths that are enough load the same. -/
theorem loadTrace_stable {n : Nat} {filename : String} {ctx : LoadingContext ω}
    (h : DepthFor theme n filename ctx) :
    loadTrace theme (n + 1) filename ctx = loadTrace theme n filename ctx := by
  induction n generalizing filename ctx with
  | zero => exact absurd h.1 (Nat.not_lt_zero _)
  | succ n ih =>
    rw [loadTrace, loadTrace]
    cases hopen : openFile theme filename ctx with
    | inl r => rfl
    | inr found =>
      obtain ⟨root, ctx'⟩ := found
      refine Traced.bind_congr ?_
      have hfilenames := loadPartsTrace_filenames theme root ctx'
      generalize (loadPartsTrace theme root ctx').value = r at hfilenames
      obtain ⟨rc, ctx''⟩ := r
      dsimp only
      split
      · rfl
      · refine include_stable theme (fun _ _ => ih) (included_of_open theme hopen) ?_
        have hlt := h.opened theme hopen
        rwa [unvisited, hfilenames]

theorem DepthFor.mono {n m : Nat} {filename : String} {ctx : LoadingContext ω}
    (h : DepthFor theme n filename ctx) (hle : n ≤ m) : DepthFor theme m filename ctx :=
  ⟨Nat.lt_of_lt_of_le h.1 hle, h.2.imp_right fun hlt => Nat.lt_of_lt_of_le hlt hle⟩

theorem loadTrace_eq {n m : Nat} {filename : String} {ctx : LoadingContext ω}
    (h : DepthFor theme n filename ctx) (hle : n ≤ m) :
    loadTrace theme m filename ctx = loadTrace theme n filename ctx := by
  induction hle with
  | refl => rfl
  | step hle ih => exact (loadTrace_stable theme (h.mono theme hle)).trans ih

theorem includeRound_mono
    {deep deeper : String → LoadingContext ω → Comp (Int × LoadingContext ω)}
    (h : ∀ filename ctx r, (deep filename ctx).Returns r → (deeper filename ctx).Returns r)
    {s : List Xml × LoadingContext ω}
    {r : (List Xml × LoadingContext ω) ⊕ (Int × LoadingContext ω)}
    (hround : (includeRound theme deep s).Returns r) :
    (includeRound theme deeper s).Returns r := by
  obtain ⟨xmlfiles, ctx⟩ := s
  cases xmlfiles with
  | nil => exact hround
  | cons xmlfile next =>
    rw [includeRound] at hround ⊢
    cases hname : xmlfile.firstAttribute "name" with
    | none =>
      rw [hname] at hround
      exact hround
    | some name =>
      rw [hname] at hround
      obtain ⟨loaded, hloaded, hrest⟩ := Comp.returns_bind.1 hround
      exact Comp.returns_bind.2 ⟨loaded, h _ _ _ hloaded, hrest⟩

/-- What loads with files that deep loads with files a bit deeper. -/
theorem load_succ {n : Nat} {filename : String} {ctx : LoadingContext ω}
    {r : Int × LoadingContext ω} (h : (load theme n filename ctx).Returns r) :
    (load theme (n + 1) filename ctx).Returns r := by
  induction n generalizing filename ctx r with
  | zero => exact absurd h (Comp.not_returns_never r)
  | succ n ih =>
    rw [load] at h ⊢
    cases hopen : openFile theme filename ctx with
    | inl r' =>
      rw [hopen] at h
      exact h
    | inr found =>
      rw [hopen] at h
      obtain ⟨⟨rc, ctx'⟩, hparts, hrest⟩ := Comp.returns_bind.1 h
      refine Comp.returns_bind.2 ⟨(rc, ctx'), hparts, ?_⟩
      dsimp only at hrest ⊢
      by_cases hrc : rc ≠ 0
      · rwa [if_pos hrc] at hrest ⊢
      · rw [if_neg hrc] at hrest ⊢
        exact hrest.loop fun s r => includeRound_mono theme (fun _ _ _ => ih)

theorem load_mono {n m : Nat} {filename : String} {ctx : LoadingContext ω}
    {r : Int × LoadingContext ω} (h : (load theme n filename ctx).Returns r) (hle : n ≤ m) :
    (load theme m filename ctx).Returns r := by
  induction hle with
  | refl => exact h
  | step _ ih => exact load_succ theme ih

/-! ## Termination -/

/-- A depth that is enough for all files. -/
def Theme.depth : Nat := theme.includes.length + 2

theorem depthFor_depth (filename : String) (ctx : LoadingContext ω) :
    DepthFor theme theme.depth filename ctx := by
  have hle : unvisited theme ctx ≤ theme.includes.length := List.length_filter_le _ _
  rw [DepthFor, Theme.depth]
  omega

/-- What happens while a file is loaded. -/
def loadEvents (filename : String) (ctx : LoadingContext ω) : List Event :=
  (loadTrace theme theme.depth filename ctx).events

theorem load_returns_iff (filename : String) (ctx : LoadingContext ω) :
    (∃ n r, (load theme n filename ctx).Returns r) ↔
      ∀ e ∈ loadEvents theme filename ctx, e.Allowed := by
  have henough := depthFor_depth theme filename ctx
  constructor
  · rintro ⟨n, r, h⟩
    have hdeep := load_mono theme h (Nat.le_max_left n theme.depth)
    have hle := Nat.le_max_right n theme.depth
    have hmeets := load_meets theme (henough.mono theme hle)
    rw [loadTrace_eq theme henough hle] at hmeets
    exact hmeets.returns_iff.1 ⟨r, hdeep⟩
  · intro hall
    exact ⟨theme.depth, (load_meets theme henough).returns_iff.2 hall⟩

/-- A text whose style has no name. -/
def namelessStyle : Xml := .node "object" [("type", "text")] [.node "style" [] []]

/-- A page that uses a template, in a file whose first one has no name. -/
def templatePage : Xml := .node "page" [] [.node "template" [("name", "header")] []]

def namelessTemplate : Xml := .node "templates" [] [.node "template" [] []]

end Recovery.Gui
