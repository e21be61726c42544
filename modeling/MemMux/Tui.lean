/-
MemMux/Tui.lean

The core of the terminal interface (`memmux/src/app.rs`): a model, abstract keys, and a pure
`update` that answers with effects for the runtime.

The sidebar has two sections, workspaces and agents; their rows are computed from the data that
was fetched last (`wsItems`, `navItems`), and selections are indices into them.  Open panes are
kept in one tiling tree for each workspace group, under the key `wsKey` computes from the same
data.  What is only drawn, and the pane operations that only move the focus by position, are left
out.
-/
import MemMux.PaneLayout
import MemMux.Proto

namespace MemMux.Tui

/-! ### The palette and the form -/

/-- Provider slugs offered by the new-task form. -/
def providers : List String := ["claude-code", "codex", "gemini-cli", "opencode", "generic"]

/-- The quick-launch palette: a label, the provider slug, and whether the entry is a plain shell. -/
def launchItems : List (String × String × Bool) :=
  [("claude-code", "claude-code", false), ("codex", "codex", false),
    ("gemini-cli", "gemini-cli", false), ("opencode", "opencode", false),
    ("shell", "generic", true)]

/-- Which field the new-task form is editing. -/
inductive FormField
  | title
  | repo
  | provider
  | base
  deriving DecidableEq, Repr

def nextField : FormField → FormField
  | .title => .repo
  | .repo => .provider
  | .provider => .base
  | .base => .title

def prevField : FormField → FormField
  | .title => .base
  | .repo => .title
  | .provider => .repo
  | .base => .provider

/-- New-task form state. -/
structure NewTaskForm where
  title : String := ""
  repo : String := ""
  providerIdx : Nat := 0
  base : String := "main"
  field : FormField := .title
  deriving DecidableEq, Repr

namespace NewTaskForm

/-- The selected provider slug. -/
def provider (f : NewTaskForm) : String :=
  (providers[min f.providerIdx (providers.length - 1)]?).getD ""

/-- The create request, if the form names a repository. -/
def toRequest (f : NewTaskForm) : Option CreateTaskRequest :=
  if trim f.repo = "" then none
  else some
    { title := trim f.title
      repositoryPath := trim f.repo
      provider := f.provider
      baseBranch := if trim f.base = "" then "main" else trim f.base
      resourceClass := none
      priority := none
      command := none }

/-- Edit the text of the focused field; the provider has none. -/
def edit (g : List Char → List Char) (f : NewTaskForm) : NewTaskForm :=
  let on (s : String) : String := String.ofList (g s.toList)
  match f.field with
  | .title => { f with title := on f.title }
  | .repo => { f with repo := on f.repo }
  | .base => { f with base := on f.base }
  | .provider => f

end NewTaskForm

/-! ### The model -/

/-- Live data fetched from the daemon. -/
structure Data where
  tasks : List TaskView := []
  workspaces : List WorkspaceView := []
  deriving DecidableEq, Repr

/-- A row of the agents panel: workspace headers followed by their agents. -/
inductive NavItem
  | workspace (wi : Nat)
  | unregistered
  | agent (ti : Nat)
  deriving DecidableEq, Repr

/-- A row of the workspaces panel. -/
inductive WsRow
  | workspace (wi : Nat)
  | other
  deriving DecidableEq, Repr

inductive SidebarSection
  | workspaces
  | agents
  deriving DecidableEq, Repr

/-- The key of the group of agents with no registered workspace. -/
def otherWsKey : String := "\x00other"

inductive View
  | home
  | newTask
  | launch
  | confirm
  | openFolder
  | help
  deriving DecidableEq, Repr

/-- A destructive action awaiting confirmation. -/
inductive PendingAction
  | terminate (id : String)
  | forget (id : String)
  deriving DecidableEq, Repr

inductive Focus
  | sidebar
  | panes
  deriving DecidableEq, Repr

/-- An abstract key. -/
inductive Key
  | up
  | down
  | left
  | right
  | enter
  | esc
  | tab
  | backspace
  | char (c : Char)
  | quit
  deriving DecidableEq, Repr

/-- A side effect for the runtime to perform. -/
inductive Effect
  | refresh
  | createTask (req : CreateTaskRequest)
  | quickLaunch (provider repo : String) (shell : Bool)
  | openPane (id : String)
  | terminateTask (id : String)
  | forgetTask (id : String)
  | listDir (path : String)
  | addWorkspace (path : String)
  deriving DecidableEq, Repr

/-- The application model.  `screened` are the tasks of which a screen is cached. -/
structure Model where
  view : View := .home
  data : Data := {}
  sidebar : SidebarSection := .workspaces
  wsSelected : Nat := 0
  agentSelected : Nat := 0
  form : NewTaskForm := {}
  cwdRepo : Option String := none
  cwd : Option String := none
  launchSelected : Nat := 0
  launchRepo : String := ""
  browseDir : String := ""
  browseEntries : List String := []
  browseSelected : Nat := 0
  pending : Option PendingAction := none
  focus : Focus := .sidebar
  panes : KeyMap String PaneLayout := ∅
  activeWs : Option String := none
  focusedPane : Option String := none
  splitOrient : Orient := .cols
  zoomed : Bool := false
  screened : List String := []
  status : String := "connected"
  shouldQuit : Bool := false

namespace Model

/-! ### Rows and selections -/

/-- The workspace `id` is registered. -/
def registered (m : Model) (id : String) : Bool := m.data.workspaces.any (·.id = id)

/-- Whether any agent has no registered workspace. -/
def hasUngrouped (m : Model) : Bool := m.data.tasks.any fun t => !m.registered t.repository

/-- The rows of the workspaces panel. -/
def wsItems (m : Model) : List WsRow :=
  (List.range m.data.workspaces.length).map .workspace ++
    (if m.hasUngrouped then [.other] else [])

def selectedWs (m : Model) : Option WsRow := m.wsItems[m.wsSelected]?

/-- The indices of the tasks that meet `p`. -/
def tasksWith (m : Model) (p : TaskView → Bool) : List Nat :=
  (m.data.tasks.zipIdx.filter fun e => p e.1).map (·.2)

/-- The rows of the agents panel: each workspace header with its agents, then the agents with no
registered workspace under a header of their own. -/
def navItems (m : Model) : List NavItem :=
  let grouped := m.data.workspaces.zipIdx.flatMap fun e =>
    .workspace e.2 :: (m.tasksWith fun t => t.repository = e.1.id).map .agent
  match m.tasksWith fun t => !m.registered t.repository with
  | [] => grouped
  | ungrouped => grouped ++ .unregistered :: ungrouped.map .agent

def selectedNav (m : Model) : Option NavItem := m.navItems[m.agentSelected]?

/-- The task of the selected agent row. -/
def selectedAgent (m : Model) : Option TaskView :=
  match m.selectedNav with
  | some (.agent ti) => m.data.tasks[ti]?
  | _ => none

def navIsAgent : NavItem → Bool
  | .agent _ => true
  | _ => false

/-- The first agent row met from `i` in steps of `step`; a step that is not zero leaves the list after
at most its length. -/
def seekAgent (nav : List NavItem) (step : Int) : Nat → Int → Option Nat
  | 0, _ => none
  | fuel + 1, i =>
      let next := i + step
      if next < 0 ∨ (nav.length : Int) ≤ next then none
      else if (nav[next.toNat]?.map navIsAgent) = some true then some next.toNat
      else seekAgent nav step fuel next

/-- Nudge the agents selection off a header onto the nearest agent, in the direction `dir` first. -/
def snapAgentToSelectable (dir : Int) (m : Model) : Model :=
  let nav := m.navItems
  if nav = [] then { m with agentSelected := 0 }
  else
    let idx := min m.agentSelected (nav.length - 1)
    if nav[idx]?.map navIsAgent = some true then { m with agentSelected := idx }
    else
      match seekAgent nav dir nav.length idx with
      | some i => { m with agentSelected := i }
      | none =>
          match seekAgent nav (-dir) nav.length idx with
          | some i => { m with agentSelected := i }
          | none => { m with agentSelected := idx }

/-- Toggle the focused sidebar section. -/
def toggleSection (m : Model) : Model :=
  { m with
      sidebar := match m.sidebar with
        | .workspaces => .agents
        | .agents => .workspaces }

/-- The workspace key of the selected workspaces row. -/
def selectedWsKey (m : Model) : Option String :=
  match m.selectedWs with
  | none => none
  | some (.workspace wi) => m.data.workspaces[wi]?.map (·.id)
  | some .other => some otherWsKey

/-- Show the group of the workspaces selection, with its first pane in focus. -/
def syncActiveWs (m : Model) : Model :=
  match m.selectedWsKey with
  | none => m
  | some key =>
      { m with
          activeWs := some key
          focusedPane := (m.panes.lookup key).bind fun l => l.leaves.head?
          zoomed := false }

/-- Move the selection within the focused section by `delta` rows; the sum is an `isize` and wraps. -/
def moveSelection (delta : Int) (m : Model) : Model :=
  match m.sidebar with
  | .workspaces =>
      let len := m.wsItems.length
      if len = 0 then m
      else
        let next := max 0 (min (((m.wsSelected : Int) + delta).bmod (2 ^ 64)) (len - 1))
        ({ m with wsSelected := next.toNat }).syncActiveWs
  | .agents =>
      let nav := m.navItems
      let step := delta.sign
      if nav = [] ∨ step = 0 then m
      else
        match seekAgent nav step nav.length m.agentSelected with
        | some i => { m with agentSelected := i }
        | none => m

def selectedWsPath (m : Model) : Option String :=
  match m.selectedWs with
  | some (.workspace wi) => m.data.workspaces[wi]?.map (·.path)
  | _ => none

/-- Default repository of a new task: the workspace of the selection, else the launch directory's. -/
def defaultRepo (m : Model) : String :=
  match m.sidebar with
  | .workspaces => (m.selectedWsPath.or m.cwdRepo).getD ""
  | .agents =>
      let path := m.selectedAgent.bind fun t =>
        (m.data.workspaces.find? (·.id = t.repository)).map (·.path)
      (path.or m.cwdRepo).getD ""

/-- The repository the quick-launch palette launches into. -/
def launchTargetRepo (m : Model) : String :=
  if m.defaultRepo = "" then m.cwd.getD "" else m.defaultRepo

/-- Apply loaded data: both selections are clamped, and the agents selection is put on an agent. -/
def setData (data : Data) (m : Model) : Model :=
  let m := { m with data := data }
  let wsLen := m.wsItems.length
  let m := if wsLen ≤ m.wsSelected then { m with wsSelected := wsLen - 1 } else m
  let navLen := m.navItems.length
  let m := if navLen ≤ m.agentSelected then { m with agentSelected := navLen - 1 } else m
  m.snapAgentToSelectable 1

/-! ### Panes -/

/-- The workspace key a task belongs to: its repository, if that is a registered workspace. -/
def wsKey (m : Model) (taskId : String) : String :=
  match m.data.tasks.find? (·.id = taskId) with
  | some t => if m.registered t.repository then t.repository else otherWsKey
  | none => otherWsKey

/-- The first key of a map in key order, as a `BTreeMap` is walked, with its value. -/
def firstGroup (panes : KeyMap String PaneLayout) : Option (String × PaneLayout) :=
  ((panes.entries.insertionSort fun a b => a.1 ≤ b.1).map fun e => (e.1, e.2)).head?

/-- The groups with `id` open as a pane: a new group, or a split of the focused pane of the group,
else of its last one. -/
def panesWith (m : Model) (id : String) : KeyMap String PaneLayout :=
  let key := m.wsKey id
  match m.panes.lookup key with
  | none => m.panes.insert key (.leaf id)
  | some layout =>
      if layout.contains id then m.panes
      else
        match (m.focusedPane.filter layout.contains).or layout.leaves.getLast? with
        | some target => m.panes.insert key (layout.splitLeaf target id m.splitOrient).1
        | none => m.panes

/-- Open `id` as a pane in its workspace group and focus it. -/
def openPane (id : String) (m : Model) : Model :=
  { m with
      focus := .panes
      zoomed := false
      panes := m.panesWith id
      activeWs := some (m.wsKey id)
      focusedPane := some id }

/-- The groups without `id` in its workspace group, which goes when it empties. -/
def panesWithout (m : Model) (id : String) : KeyMap String PaneLayout :=
  let key := m.wsKey id
  match m.panes.lookup key with
  | none => m.panes
  | some layout =>
      match layout.without id with
      | some next => (m.panes.erase key).insert key next
      | none => m.panes.erase key

/-- Close the pane for `id` in its group, and find a pane to focus. -/
def closePane (id : String) (m : Model) : Model :=
  let m := { m with screened := m.screened.filter (· ≠ id), panes := m.panesWithout id }
  match m.activeWs.bind m.panes.lookup with
  | some layout =>
      if (m.focusedPane.map layout.contains).getD false then m
      else { m with focusedPane := layout.leaves.head? }
  | none =>
      match firstGroup m.panes with
      | some (k, layout) => { m with activeWs := some k, focusedPane := layout.leaves.head? }
      | none =>
          { m with activeWs := none, focusedPane := none, focus := .sidebar, zoomed := false }

/-- Open the quick-launch palette targeting `repo`. -/
def openLaunch (repo : String) (m : Model) : Model :=
  { m with launchRepo := repo, launchSelected := 0, view := .launch }

end Model

/-! ### Paths of the folder browser -/

/-- `Path::parent`: separators and `.` components at the end do not count. -/
def parentPath (p : List Char) : Option (List Char) :=
  let head : Nat := match p with
    | '/' :: _ => 1
    | ['.'] => 1
    | '.' :: '/' :: _ => 1
    | _ => 0
  let trimEnd (parts : List (List Char)) : List (List Char) :=
    parts.dropWhile fun s => s = [] ∨ s = ['.']
  match trimEnd ((p.drop head).splitOn '/').reverse with
  | [] => if p.take 1 = ['.'] ∧ head = 1 then some [] else none
  | _ :: rest => some (p.take head ++ ['/'].intercalate (trimEnd rest).reverse)

/-- The directory a browser entry leads to: `..` ascends. -/
def joinBrowse (dir entry : String) : String :=
  let base := if dir = "" then "." else dir
  if entry = ".." then String.ofList ((parentPath base.toList).getD base.toList)
  else if entry.toList.head? = some '/' then entry
  else if base.toList.getLast? = some '/' then base ++ entry
  else base ++ "/" ++ entry

/-! ### Updates -/

/-- Whether a state string is terminal: it cannot be restarted, only forgotten. -/
def isTerminatedState (state : String) : Bool := state = "TERMINATED"

/-- Whether an agent in this state is forgotten rather than terminated. -/
def isTerminalState (state : String) : Bool := state = "TERMINATED" ∨ state = "FAILED"

/-- The action that closes a task. -/
def closeAction (t : TaskView) : PendingAction :=
  if isTerminalState t.state then .forget t.id else .terminate t.id

/-- What carries out a confirmed action. -/
def PendingAction.effect : PendingAction → Effect
  | .terminate id => .terminateTask id
  | .forget id => .forgetTask id

/-- Launch the entry `idx` of the palette. -/
def pick (idx : Nat) (m : Model) : Model × List Effect :=
  match launchItems[idx]? with
  | none => (m, [])
  | some (_, provider, shell) =>
      if trim m.launchRepo = "" then
        ({ m with status := "no target folder — open one with 'o' first", view := .home }, [])
      else ({ m with view := .home }, [.quickLaunch provider m.launchRepo shell])

def updateLaunch (key : Key) (m : Model) : Model × List Effect :=
  match key with
  | .esc => ({ m with view := .home }, [])
  | .up | .char 'k' => ({ m with launchSelected := m.launchSelected - 1 }, [])
  | .down | .char 'j' =>
      ({ m with launchSelected := min (m.launchSelected + 1) (launchItems.length - 1) }, [])
  | .char '1' => pick 0 m
  | .char '2' => pick 1 m
  | .char '3' => pick 2 m
  | .char '4' => pick 3 m
  | .char '5' => pick 4 m
  | .enter => pick m.launchSelected m
  | _ => (m, [])

/-- Keys of the confirmation prompt. -/
def updateConfirm (key : Key) (m : Model) : Model × List Effect :=
  match key with
  | .esc | .char 'n' => ({ m with pending := none, view := .home }, [])
  | .enter | .char 'y' =>
      let m := { m with view := .home }
      match m.pending with
      | some action => ({ m with pending := none }, [action.effect, .refresh])
      | none => (m, [])
  | _ => (m, [])

/-- Keys of the folder browser. -/
def updateOpenFolder (key : Key) (m : Model) : Model × List Effect :=
  match key with
  | .esc => ({ m with view := .home }, [])
  | .up | .char 'k' => ({ m with browseSelected := m.browseSelected - 1 }, [])
  | .down | .char 'j' =>
      ({ m with browseSelected := min (m.browseSelected + 1) (m.browseEntries.length - 1) }, [])
  | .enter | .right | .char 'l' =>
      match m.browseEntries[m.browseSelected]? with
      | some entry => (m, [.listDir (joinBrowse m.browseDir entry)])
      | none => (m, [])
  | .left | .char 'h' | .backspace => (m, [.listDir (joinBrowse m.browseDir "..")])
  | .char 'a' =>
      if m.browseDir = "" then (m, [])
      else
        ({ m with status := "adding " ++ m.browseDir, view := .home },
          [.addWorkspace m.browseDir, .refresh])
  | _ => (m, [])

/-- Keys of the new-task form. -/
def updateForm (key : Key) (m : Model) : Model × List Effect :=
  let editing (f : NewTaskForm) : Model × List Effect := ({ m with form := f }, [])
  match key with
  | .esc => ({ m with view := .home }, [])
  | .tab | .down => editing { m.form with field := nextField m.form.field }
  | .up => editing { m.form with field := prevField m.form.field }
  | .left =>
      if m.form.field ≠ .provider then (m, [])
      else if m.form.providerIdx = 0 then
        editing { m.form with providerIdx := providers.length - 1 }
      else editing { m.form with providerIdx := m.form.providerIdx - 1 }
  | .right =>
      if m.form.field ≠ .provider then (m, [])
      else editing { m.form with providerIdx := (m.form.providerIdx + 1) % providers.length }
  | .backspace => editing (m.form.edit List.dropLast)
  | .char c => editing (m.form.edit (· ++ [c]))
  | .enter =>
      match m.form.toRequest with
      | some req =>
          ({ m with status := "creating agent", view := .home }, [.createTask req, .refresh])
      | none => ({ m with status := "a repository is required" }, [])
  | .quit => (m, [])

/-- Act on the focused section: open the selected agent as a pane, or the palette in the selected
workspace. -/
def activateSelection (m : Model) : Model × List Effect :=
  match m.sidebar with
  | .agents =>
      match m.selectedAgent with
      | none => (m, [])
      | some t =>
          if isTerminatedState t.state then
            ({ m with status := "agent terminated — press x to remove" }, [])
          else (m.openPane t.id, [.openPane t.id])
  | .workspaces => (m.openLaunch m.defaultRepo, [])

/-- Keys of the home view. -/
def updateHome (key : Key) (m : Model) : Model × List Effect :=
  match key with
  | .quit | .char 'q' => ({ m with shouldQuit := true }, [])
  | .char '?' => ({ m with view := .help }, [])
  | .char 'o' =>
      ({ m with view := .openFolder }, [.listDir ((m.cwd.or m.cwdRepo).getD ".")])
  | .char 'c' => (m.openLaunch m.launchTargetRepo, [])
  | .char 'n' => ({ m with form := { repo := m.defaultRepo }, view := .newTask }, [])
  | .char 'x' =>
      match m.selectedAgent with
      | some t => ({ m with pending := some (closeAction t), view := .confirm }, [])
      | none => (m, [])
  | .tab => (m.toggleSection, [])
  | .up | .char 'k' => (m.moveSelection (-1), [])
  | .down | .char 'j' => (m.moveSelection 1, [])
  | .enter => activateSelection m
  | _ => (m, [])

/-- **The state transition.** -/
def update (key : Key) (m : Model) : Model × List Effect :=
  match m.view with
  | .newTask => updateForm key m
  | .launch => updateLaunch key m
  | .confirm => updateConfirm key m
  | .openFolder => updateOpenFolder key m
  | .help =>
      match key with
      | .esc | .char 'q' | .char '?' => ({ m with view := .home }, [])
      | _ => (m, [])
  | .home => updateHome key m

/-! ### Runs -/

/-- What happens to the interface: a key, new data, or an operation of the runtime. -/
inductive Event
  | key (k : Key)
  | setData (data : Data)
  | openPane (id : String)
  | closePane (id : String)
  | moveSelection (delta : Int)
  | toggleSection
  | syncActiveWs

/-- One event, with the effects it asks for. -/
def step (m : Model) : Event → Model × List Effect
  | .key k => update k m
  | .setData data => (m.setData data, [])
  | .openPane id => (m.openPane id, [])
  | .closePane id => (m.closePane id, [])
  | .moveSelection delta => (m.moveSelection delta, [])
  | .toggleSection => (m.toggleSection, [])
  | .syncActiveWs => (m.syncActiveWs, [])

/-- The model after one event. -/
def next (m : Model) (e : Event) : Model := (step m e).1

/-- The interface as it starts, in a directory. -/
def start (cwd cwdRepo : Option String) : Model := { cwd := cwd, cwdRepo := cwdRepo }

/-- An agent that runs in a registered workspace. -/
def oneAgent : Data where
  tasks := [⟨"t1", "fix login", "codex", "ACTIVE", "repo", "main", 0, 0, 0, 0, none⟩]
  workspaces := [⟨"repo", "/repo", "repo", 0, 1⟩]

/-! ### What the operations leave alone -/

/-- The data, both selections, the panes and their focus are as they were. -/
structure Steady (m m' : Model) : Prop where
  data : m'.data = m.data
  wsSelected : m'.wsSelected = m.wsSelected
  agentSelected : m'.agentSelected = m.agentSelected
  panes : m'.panes = m.panes
  activeWs : m'.activeWs = m.activeWs
  focusedPane : m'.focusedPane = m.focusedPane

theorem Steady.refl (m : Model) : Steady m m := ⟨rfl, rfl, rfl, rfl, rfl, rfl⟩

theorem updateForm_steady (k : Key) (m : Model) : Steady m (updateForm k m).1 := by
  unfold updateForm
  dsimp only
  repeat' split
  all_goals exact ⟨rfl, rfl, rfl, rfl, rfl, rfl⟩

theorem updateLaunch_steady (k : Key) (m : Model) : Steady m (updateLaunch k m).1 := by
  have hpick : ∀ idx, Steady m (pick idx m).1 := by
    intro idx
    unfold pick
    repeat' split
    all_goals exact ⟨rfl, rfl, rfl, rfl, rfl, rfl⟩
  unfold updateLaunch
  split <;> first
    | exact hpick _
    | exact ⟨rfl, rfl, rfl, rfl, rfl, rfl⟩

theorem updateConfirm_steady (k : Key) (m : Model) : Steady m (updateConfirm k m).1 := by
  unfold updateConfirm
  dsimp only
  repeat' split
  all_goals exact ⟨rfl, rfl, rfl, rfl, rfl, rfl⟩

theorem updateOpenFolder_steady (k : Key) (m : Model) : Steady m (updateOpenFolder k m).1 := by
  unfold updateOpenFolder
  repeat' split
  all_goals exact ⟨rfl, rfl, rfl, rfl, rfl, rfl⟩

theorem activateSelection_cases (m : Model) :
    Steady m (activateSelection m).1 ∨ ∃ id, (activateSelection m).1 = m.openPane id := by
  unfold activateSelection
  cases m.sidebar with
  | workspaces => exact .inl ⟨rfl, rfl, rfl, rfl, rfl, rfl⟩
  | agents =>
      cases m.selectedAgent with
      | none => exact .inl (Steady.refl m)
      | some t =>
          dsimp only
          split
          · exact .inl ⟨rfl, rfl, rfl, rfl, rfl, rfl⟩
          · exact .inr ⟨t.id, rfl⟩

/-- On the home view keys move the selection and open panes. -/
theorem updateHome_cases (k : Key) (m : Model) :
    Steady m (updateHome k m).1 ∨ (∃ delta, (updateHome k m).1 = m.moveSelection delta) ∨
      ∃ id, (updateHome k m).1 = m.openPane id := by
  by_cases hk : k = .enter
  · subst hk
    exact (activateSelection_cases m).imp_right .inr
  · unfold updateHome
    split <;> first
      | exact absurd rfl hk
      | exact .inl ⟨rfl, rfl, rfl, rfl, rfl, rfl⟩
      | (split <;> exact .inl ⟨rfl, rfl, rfl, rfl, rfl, rfl⟩)
      | exact .inr (.inl ⟨_, rfl⟩)

/-- **What a key does to selections and panes.** -/
theorem update_cases (k : Key) (m : Model) :
    Steady m (update k m).1 ∨ (∃ delta, (update k m).1 = m.moveSelection delta) ∨
      ∃ id, (update k m).1 = m.openPane id := by
  unfold update
  cases m.view with
  | home => exact updateHome_cases k m
  | newTask => exact .inl (updateForm_steady k m)
  | launch => exact .inl (updateLaunch_steady k m)
  | confirm => exact .inl (updateConfirm_steady k m)
  | openFolder => exact .inl (updateOpenFolder_steady k m)
  | help =>
      dsimp only
      split <;> exact .inl ⟨rfl, rfl, rfl, rfl, rfl, rfl⟩

/-! ### What the sidebar operations do -/

/-- Snapping only moves the selection of the agents panel. -/
theorem snapAgentToSelectable_eq (dir : Int) (m : Model) :
    ∃ i, m.snapAgentToSelectable dir = { m with agentSelected := i } := by
  unfold Model.snapAgentToSelectable
  dsimp only
  split
  · exact ⟨_, rfl⟩
  · split
    · exact ⟨_, rfl⟩
    · split
      · exact ⟨_, rfl⟩
      · split <;> exact ⟨_, rfl⟩

/-- New data moves both selections. -/
theorem setData_eq (data : Data) (m : Model) :
    ∃ i j, m.setData data = { m with data := data, wsSelected := i, agentSelected := j } := by
  have hsnap : ∀ m' : Model, ∀ i j, m' = { m with data := data, wsSelected := i, agentSelected := j } →
      ∃ i j, m'.snapAgentToSelectable 1
        = { m with data := data, wsSelected := i, agentSelected := j } := by
    rintro m' i j rfl
    obtain ⟨j', h⟩ := snapAgentToSelectable_eq 1
      { m with data := data, wsSelected := i, agentSelected := j }
    exact ⟨i, j', h⟩
  unfold Model.setData
  dsimp only
  split
  · split <;> exact hsnap _ _ _ rfl
  · split <;> exact hsnap _ _ _ rfl

/-- A move selects another row of the focused panel, if any; in the workspaces panel the group of the
row is shown then. -/
theorem moveSelection_cases (delta : Int) (m : Model) :
    m.moveSelection delta = m ∨
      (∃ i, Model.seekAgent m.navItems delta.sign m.navItems.length m.agentSelected = some i ∧
        m.moveSelection delta = { m with agentSelected := i }) ∨
      ∃ i < m.wsItems.length, m.moveSelection delta = ({ m with wsSelected := i }).syncActiveWs := by
  unfold Model.moveSelection
  cases m.sidebar with
  | workspaces =>
      dsimp only
      split
      · exact .inl rfl
      · exact .inr (.inr ⟨_, by omega, rfl⟩)
  | agents =>
      dsimp only
      split
      · exact .inl rfl
      · split
        · next i hseek => exact .inr (.inl ⟨i, hseek, rfl⟩)
        · exact .inl rfl

/-- The view, the pending action and the panes are as they were. -/
structure Keeps (m m' : Model) : Prop where
  view : m'.view = m.view
  pending : m'.pending = m.pending
  panes : m'.panes = m.panes

theorem Keeps.trans {m m' m'' : Model} (h : Keeps m m') (h' : Keeps m' m'') : Keeps m m'' :=
  ⟨h'.view.trans h.view, h'.pending.trans h.pending, h'.panes.trans h.panes⟩

theorem syncActiveWs_keeps (m : Model) : Keeps m m.syncActiveWs := by
  unfold Model.syncActiveWs
  split <;> exact ⟨rfl, rfl, rfl⟩

theorem moveSelection_keeps (delta : Int) (m : Model) : Keeps m (m.moveSelection delta) := by
  rcases moveSelection_cases delta m with h | ⟨i, -, h⟩ | ⟨i, -, h⟩
  · rw [h]
    exact ⟨rfl, rfl, rfl⟩
  · rw [h]
    exact ⟨rfl, rfl, rfl⟩
  · rw [h]
    have hsel : Keeps m { m with wsSelected := i } := ⟨rfl, rfl, rfl⟩
    exact hsel.trans (syncActiveWs_keeps { m with wsSelected := i })

theorem setData_keeps (data : Data) (m : Model) : Keeps m (m.setData data) := by
  obtain ⟨i, j, h⟩ := setData_eq data m
  rw [h]
  exact ⟨rfl, rfl, rfl⟩

/-- Closing a pane changes the groups as `panesWithout` says, and not the prompt. -/
theorem closePane_fields (id : String) (m : Model) :
    (m.closePane id).panes = m.panesWithout id ∧ (m.closePane id).pending = m.pending ∧
      (m.closePane id).view = m.view := by
  unfold Model.closePane
  dsimp only
  split
  · split <;> exact ⟨rfl, rfl, rfl⟩
  · split <;> exact ⟨rfl, rfl, rfl⟩

end MemMux.Tui
