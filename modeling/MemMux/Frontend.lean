/-
MemMux/Frontend.lean

The event loop of the terminal interface (`memmux/src/main.rs`) over the pane sessions
(`PaneManager` of `memmux/src/pane.rs`).

One turn of the loop synchronises the sessions with the panes, handles one event of the terminal, and
fetches new data if it is time.  What the daemon and the file system answer is part of the turn
(`Daemon`), and so is the size of the screen.  Frames to the daemon are recorded as they are
written (`PaneManager.sent`); what it sends back is only drawn, and left out.
-/
import MemMux.Attach
import MemMux.Leader
import MemMux.Tiles

namespace MemMux.Tui

/-! ### Pane sessions -/

/-- The open pane sessions with their sizes, rows first, and the frames that were written to them. -/
structure PaneManager where
  sessions : KeyMap String (UInt16 × UInt16) := ∅
  sent : List (String × AttachClientMsg) := []

namespace PaneManager

/-- Open a session for `id` (no-op if one already exists). -/
def openSession (id : String) (rows cols : UInt16) (attach : Except String Unit)
    (p : PaneManager) : Except String PaneManager :=
  if id ∈ p.sessions then .ok p
  else
    match attach with
    | .ok () =>
        .ok { sessions := p.sessions.insert id (rows, cols)
              sent := p.sent ++ [(id, .resize rows cols)] }
    | .error e => .error e

/-- Close and drop a session; that sends `Detach`. -/
def close (id : String) (p : PaneManager) : PaneManager :=
  if id ∈ p.sessions then
    { sessions := p.sessions.erase id, sent := p.sent ++ [(id, .detach)] }
  else p

/-- Drop every session not present in `keep`. -/
def retain (keep : List String) (p : PaneManager) : PaneManager :=
  (p.sessions.keys.filter (· ∉ keep)).foldl (fun p id => p.close id) p

/-- Forward input bytes to the session `id`, if open. -/
def sendInput (id : String) (bytes : List UInt8) (p : PaneManager) : PaneManager :=
  if id ∈ p.sessions then { p with sent := p.sent ++ [(id, .input bytes)] } else p

/-- Resize a session's terminal; an empty size, and the one it has, are no news. -/
def resize (id : String) (rows cols : UInt16) (p : PaneManager) : PaneManager :=
  match p.sessions.lookup id with
  | none => p
  | some size =>
      if (rows, cols) = size ∨ rows = 0 ∨ cols = 0 then p
      else
        { sessions := p.sessions.insert id (rows, cols)
          sent := p.sent ++ [(id, .resize rows cols)] }

end PaneManager

/-! ### The runtime -/

/-- What the daemon and the file system answer while one effect is applied. -/
structure Daemon where
  /-- whether a create request gets any response at all -/
  call : CreateTaskRequest → Except String Unit
  create : CreateTaskRequest → Except String String
  start : String → Except String Unit
  restart : String → Except String Unit
  terminate : String → Except String Unit
  forget : String → Except String Unit
  addWorkspace : String → Except String Unit
  fetch : Except String Data
  attach : String → Except String Unit
  canonicalize : String → Option String
  /-- the names of the directories in a directory -/
  readDir : String → Except String (List String)
  shell : Option String

/-- The size of the screen: columns and rows. -/
abbrev Screen := UInt16 × UInt16

/-- The state of the event loop. -/
structure Frontend where
  model : Model
  pfx : Prefix := {}
  prefixActive : Bool := false
  resizing : Bool := false
  panes : PaneManager := {}

/-- Apply fetched data. -/
def Model.refresh (fetched : Except String Data) (m : Model) : Model :=
  match fetched with
  | .ok data => { m.setData data with status := "connected" }
  | .error e => { m with status := "daemon unreachable: " ++ e }

/-- The workspace path of the focused pane's task. -/
def Model.focusedPaneRepo (m : Model) : Option String :=
  m.focusedPane.bind fun fid =>
    (m.data.tasks.find? (·.id = fid)).bind fun t =>
      (m.data.workspaces.find? (·.id = t.repository)).map (·.path)

/-- The repository a pane split should launch into. -/
def Model.splitTargetRepo (m : Model) : String := m.focusedPaneRepo.getD m.launchTargetRepo

/-- Open the quick-launch palette from within the pane grid. -/
def Model.openLaunchFromPanes (m : Model) : Model :=
  { m with launchRepo := m.splitTargetRepo, launchSelected := 0, view := .launch }

/-- List the sub-directories of `path` for the folder browser; `..` leads out of all but the root. -/
def Model.listDir (d : Daemon) (path : String) (m : Model) : Model :=
  let canonical := (d.canonicalize path).getD path
  let up := if (parentPath canonical.toList).isSome then [".."] else []
  let m := { m with browseDir := canonical, browseSelected := 0 }
  match d.readDir canonical with
  | .ok dirs => { m with browseEntries := up ++ dirs.insertionSort (· ≤ ·) }
  | .error e =>
      { m with browseEntries := up, status := "cannot read " ++ path ++ ": " ++ e }

/-- The request of a quick launch. -/
def quickLaunchRequest (provider repo : String) (command : Option (List String)) :
    CreateTaskRequest where
  title := ""
  repositoryPath := repo
  provider := provider
  baseBranch := "main"
  resourceClass := none
  priority := none
  command := command

section Solved

variable (solve : Solver)

/-- Each visible pane's inner size, rows first: its rectangle less a border of one cell. -/
def Model.paneSizes (screen : Screen) (m : Model) : List (String × (UInt16 × UInt16)) :=
  match m.activePanes with
  | none => []
  | some layout =>
      let area := gridArea screen.1 screen.2
      let rects :=
        if m.zoomed then
          match m.focusedPane with
          | some f => [(f, area)]
          | none => layout.leafRects solve area
        else layout.leafRects solve area
      rects.map fun e => (e.1, saturatingSub e.2.height 2, saturatingSub e.2.width 2)

namespace Frontend

/-- The ids of all open panes, in any group. -/
def allIds (f : Frontend) : List String := f.model.panes.values.flatMap PaneLayout.leaves

/-- Resize one visible pane's session, and cache its screen. -/
def syncPane (e : String × (UInt16 × UInt16)) (f : Frontend) : Frontend :=
  let panes := f.panes.resize e.1 e.2.1 e.2.2
  let screened :=
    if e.1 ∈ panes.sessions ∧ e.1 ∉ f.model.screened then f.model.screened ++ [e.1]
    else f.model.screened
  { f with panes := panes, model := { f.model with screened := screened } }

/-- Drop the sessions of closed panes; resize and cache the visible ones. -/
def syncPanes (screen : Screen) (f : Frontend) : Frontend :=
  let keep := f.allIds
  let f := { f with panes := f.panes.retain keep }
  let f := (f.model.paneSizes solve screen).foldl (fun f e => f.syncPane e) f
  { f with model := { f.model with screened := f.model.screened.filter (· ∈ keep) } }

/-- Bring a task's provider up (start, else restart) and open it as a live pane. -/
def openAgentPane (screen : Screen) (d : Daemon) (id : String) (f : Frontend) : Frontend :=
  if (d.start id).isOk || (d.restart id).isOk then
    let m := (f.model.refresh d.fetch).openPane id
    let size := (((m.paneSizes solve screen).find? (·.1 = id)).map (·.2)).getD (24, 80)
    match f.panes.openSession id (max size.1 1) (max size.2 1) (d.attach id) with
    | .ok panes => { f with model := m, panes := panes }
    | .error e => { f with model := { m with status := "attach failed: " ++ e }.closePane id }
  else
    let m := (f.model.closePane id).refresh d.fetch
    { f with
        model := { m with status := id ++ ": agent exited — Enter to retry, x to remove" } }

/-- Close the pane and the session of a task that is gone. -/
def dropPane (d : Daemon) (id status : String) (f : Frontend) : Frontend :=
  let m := { f.model.closePane id with status := status }
  { f with model := m.refresh d.fetch, panes := f.panes.close id }

/-- Show a message in the status line. -/
def say (status : String) (f : Frontend) : Frontend :=
  { f with model := { f.model with status := status } }

/-- Apply one effect against the daemon and the local pane manager. -/
def applyEffect (screen : Screen) (d : Daemon) (e : Effect) (f : Frontend) : Frontend :=
  match e with
  | .refresh => { f with model := f.model.refresh d.fetch }
  | .createTask req =>
      match d.call req with
      | .ok () => { f with model := f.model.refresh d.fetch }
      | .error e => f.say ("create failed: " ++ e)
  | .quickLaunch provider repo shell =>
      let command := if shell then some [d.shell.getD "/bin/sh"] else none
      match d.create (quickLaunchRequest provider repo command) with
      | .ok id => (f.say ("launched " ++ provider)).openAgentPane solve screen d id
      | .error e => f.say ("launch failed: " ++ e)
  | .openPane id => f.openAgentPane solve screen d id
  | .terminateTask id =>
      match d.terminate id with
      | .ok () => f.dropPane d id ("terminated " ++ id)
      | .error e => f.say ("terminate failed: " ++ e)
  | .forgetTask id =>
      match d.forget id with
      | .ok () => f.dropPane d id ("removed " ++ id)
      | .error e => f.say ("remove failed: " ++ e)
  | .listDir path => { f with model := f.model.listDir d path }
  | .addWorkspace path =>
      match d.addWorkspace path with
      | .ok () => { f with model := f.model.refresh d.fetch }
      | .error e => f.say ("open folder failed: " ++ e)

/-- Apply the effects of a key one after another; the daemon may answer each one differently. -/
def applyEffects (screen : Screen) : List Effect → (Nat → Daemon) → Frontend → Frontend
  | [], _, f => f
  | e :: es, ds, f =>
      applyEffects screen es (fun i => ds (i + 1)) (f.applyEffect solve screen (ds 0) e)

/-- Change the model only. -/
def onModel (g : Model → Model) (f : Frontend) : Frontend := { f with model := g f.model }

/-- Close the focused pane and its session. -/
def closeFocused (f : Frontend) : Frontend :=
  match f.model.focusedPane with
  | some id => { f with model := f.model.closePane id, panes := f.panes.close id }
  | none => f

/-- Forward bytes to the focused pane's agent. -/
def typeBytes (bytes : List UInt8) (f : Frontend) : Frontend :=
  match f.model.focusedPane with
  | some id => { f with panes := f.panes.sendInput id bytes }
  | none => f

/-- A key in resize mode: it moves the boundary of the focused split, or leaves the mode. -/
def resizeKey (code : KeyCode) (f : Frontend) : Frontend :=
  match code with
  | .esc | .enter | .char 'r' => { f with resizing := false }
  | .char 'h' | .left => f.onModel (Model.resizeFocused .left)
  | .char 'j' | .down => f.onModel (Model.resizeFocused .down)
  | .char 'k' | .up => f.onModel (Model.resizeFocused .up)
  | .char 'l' | .right => f.onModel (Model.resizeFocused .right)
  | _ => f

/-- A key after the leader: a pane command, or the leader again for its literal byte. -/
def commandKey (screen : Screen) (code : KeyCode) (ctrl : Bool) (f : Frontend) : Frontend :=
  let grid := gridArea screen.1 screen.2
  match code with
  | .char 'o' | .char 'd' | .esc => f.onModel fun m => { m with focus := .sidebar }
  | .char 'h' => f.onModel (Model.focusDir solve .left grid)
  | .char 'j' => f.onModel (Model.focusDir solve .down grid)
  | .char 'k' => f.onModel (Model.focusDir solve .up grid)
  | .char 'l' => f.onModel (Model.focusDir solve .right grid)
  | .char 'z' => f.onModel Model.toggleZoom
  | .char 'x' => f.closeFocused
  | .char 'r' => { f with resizing := true }
  | .char 'v' => f.onModel fun m => { m with splitOrient := .cols }.openLaunchFromPanes
  | .char '-' => f.onModel fun m => { m with splitOrient := .rows }.openLaunchFromPanes
  | _ => if f.pfx.pressed code ctrl then f.typeBytes [f.pfx.literalByte] else f

/-- Keys while a pane is focused: the leader and a command, or else bytes for the agent. -/
def handlePaneKey (screen : Screen) (code : KeyCode) (ctrl : Bool) (f : Frontend) : Frontend :=
  if f.resizing then f.resizeKey code
  else if f.prefixActive then { f with prefixActive := false }.commandKey solve screen code ctrl
  else if f.pfx.pressed code ctrl then { f with prefixActive := true }
  else
    match keyToBytes code ctrl with
    | some bytes => f.typeBytes bytes
    | none => f

/-! ### Turns -/

/-- An event of the terminal that the loop acts on. -/
inductive Input
  | key (code : KeyCode) (ctrl : Bool) (daemon : Nat → Daemon)
  /-- the left button is pressed -/
  | click (col row : UInt16)

/-- Keys go to the focused pane grid, or to the pure interface; clicks are for the home view. -/
def handle (screen : Screen) (i : Input) (f : Frontend) : Frontend :=
  match i with
  | .key code ctrl ds =>
      if f.model.view = .home ∧ f.model.focus = .panes then
        f.handlePaneKey solve screen code ctrl
      else
        match mapKey code ctrl with
        | some k =>
            let (m, effects) := update k f.model
            applyEffects solve screen effects ds { f with model := m }
        | none => f
  | .click col row =>
      if f.model.view = .home then
        f.onModel (Model.handleMouseClick solve screen.1 screen.2 col row)
      else f

/-- One turn of the loop: what the screen is like, a hint of the update check, an event, and new data if
it is time for it. -/
structure Turn where
  screen : Screen
  hint : Option String
  input : Option Input
  fetched : Option (Except String Data)

/-- The interface as it is drawn in a turn. -/
def drawn (t : Turn) (f : Frontend) : Frontend :=
  let f := f.syncPanes solve t.screen
  match t.hint with
  | some msg => f.say msg
  | none => f

/-- The interface after the event of a turn, if there is one. -/
def handled (t : Turn) (f : Frontend) : Frontend :=
  match t.input with
  | some i => f.handle solve t.screen i
  | none => f

/-- The interface after the fetch of a turn, if there is one. -/
def fetched (t : Turn) (f : Frontend) : Frontend :=
  match t.fetched with
  | some data => if f.model.shouldQuit then f else f.onModel (Model.refresh data)
  | none => f

/-- One turn of the loop, which ends with the one that quits. -/
def turn (f : Frontend) (t : Turn) : Frontend :=
  if f.model.shouldQuit then f else ((f.drawn solve t).handled solve t).fetched t

/-- The interface as it is started: in a directory, with a leader from the configuration, after a first
fetch. -/
def launch (cwd cwdRepo leader : Option String) (fetched : Except String Data)
    (autostart : Except String Bool) : Frontend :=
  let m := (start cwd cwdRepo).refresh fetched
  let status := match autostart with
    | .ok true => "started daemon"
    | .ok false => m.status
    | .error e => "daemon auto-start failed: " ++ e
  { model := { m with status := status }, pfx := .load leader }

end Frontend

end Solved

end MemMux.Tui
