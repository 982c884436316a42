import AiryFS.Transfer.Archive

/-! Importing an archive as a directory: stage it beside the target, then swap.

The staging directory is a hidden sibling of the target. The swap renames the target away,
renames the staging directory into its place and removes the old tree; an import into the
root does this for each child. The lock that the swap takes excludes every other writer.
-/

set_option autoImplicit false

namespace AiryFS

open Foundation

namespace Disk

/-- A call of a rollback, whose own failure is swallowed. -/
def undo (operation : Volume → Except Failure Volume) : Transfer Unit := fun disk =>
  .ok () { disk with volume := settle disk.volume (operation disk.volume) }

/-- A call whose failure is swallowed while everything else goes on. -/
def quietly (operation : Volume → Except Failure Volume) : Transfer Unit :=
  tryCatch (mutate operation) fun _ disk => .ok () { disk with abandoned := true }

end Disk

namespace TreeImport

structure Options where
  replace : Bool
  allowRoot : Bool

/-- The two names that `uuid` supplies, and what becomes of the `record` callback, when there is one. -/
structure Deps where
  stagingId : Text
  backupId : Text
  record : Option (Except Failure Unit)

def normalizeTreePath (path : Text) : Text := absolute '/' (fields '/' path)

def siblingPath (parent name : Text) : Text := (if parent = ['/'] then [] else parent) ++ '/' :: name

/-- `target.slice(0, target.lastIndexOf('/')) || '/'`. -/
def parentOf (target : Text) : Text :=
  let above := (target.rdropWhile (· != '/')).dropLast
  if above = [] then ['/'] else above

def Deps.stagingName (deps : Deps) : Text := ".airyfs-import-".toList ++ deps.stagingId

def Deps.backupName (deps : Deps) : Text := ".airyfs-backup-".toList ++ deps.backupId

/-- `deps.record?.(..)`: the journal is not part of the volume. -/
def Deps.recorded (deps : Deps) : Transfer Unit :=
  match deps.record with
  | none => return ()
  | some outcome => Attempt.lift outcome

def mapArchiveError (failure : Failure) : Failure :=
  match failure with
  | .coded code message => if code = "ArchiveError" then .http 400 "INVALID_ARCHIVE" message else failure
  | _ => failure

/-- `fs.rm(path, { recursive: true, force: true })`. -/
def discard (path : Text) (volume : Volume) : Except Failure Volume := AgentFS.rm volume path true true

/-- A directory that is not empty stays. -/
def discardEmpty (path : Text) (volume : Volume) : Except Failure Volume :=
  match AgentFS.readdir volume path with
  | .ok (_ :: _) => .ok volume
  | _ => discard path volume

/-- Extraction into a new staging directory, which goes again when it fails. -/
def stage (chunkSize : Nat) (staging : Text) (stream : Archive.Stream) : Transfer Archive.TreeSummary := do
  tryCatch (Disk.mutate fun volume => AgentFS.mkdir volume staging) fun failure => throw (mapArchiveError failure)
  tryCatch (Archive.extractTree chunkSize staging stream) fun failure => do
    Disk.undo (discard staging)
    throw (mapArchiveError failure)

/-! ## A target below the root -/

/-- The swap, and whether there was something to replace. -/
def swap (target staging backup : Text) (options : Options) (deps : Deps) : Transfer Bool := do
  let targetExisted ← tryCatch (do
    let _ ← Disk.inspect fun volume => AgentFS.stat volume target
    return true) fun _ => return false
  let shown := String.ofList target
  Attempt.lift (refuse (targetExisted = true ∧ options.replace = false)
    (.http 409 "EEXIST" s!"Import target already exists: {shown} (use ?replace=true)"))
  if targetExisted then Disk.mutate fun volume => AgentFS.rename volume target backup
  tryCatch (Disk.mutate fun volume => AgentFS.rename volume staging target) fun failure => do
    if targetExisted then Disk.undo fun volume => AgentFS.rename volume backup target
    throw failure
  deps.recorded
  return targetExisted

def importBelow (chunkSize : Nat) (target : Text) (stream : Archive.Stream) (options : Options) (deps : Deps) :
    Transfer Archive.TreeSummary := do
  let parent := parentOf target
  let staging := siblingPath parent deps.stagingName
  let summary ← stage chunkSize staging stream
  let backup := siblingPath parent deps.backupName
  let targetExisted ← tryCatch (swap target staging backup options deps) fun failure => do
    Disk.undo (discard staging)
    throw (mapArchiveError failure)
  if targetExisted then Disk.quietly (discard backup)
  return summary

/-! ## The root -/

section Root

variable (stagingName backupName : Text)

def rootPath (name : Text) : Text := siblingPath ['/'] name

def stagedPath (name : Text) : Text := siblingPath (rootPath stagingName) name

def backedUpPath (name : Text) : Text := siblingPath (rootPath backupName) name

/-- The handler of the inner `try`: what was published goes, what was moved away comes back. -/
def rollBack (published movedToBackup : List Text) : Transfer Unit := do
  published.forM fun name => Disk.undo (discard (rootPath name))
  movedToBackup.reverse.forM fun name => Disk.undo fun volume =>
    AgentFS.rename volume (backedUpPath backupName name) (rootPath name)

/-- A call of the inner `try`, where so much was published and moved away. -/
def guarded {α : Type} (published movedToBackup : List Text) (call : Transfer α) : Transfer α :=
  tryCatch call fun failure => do
    rollBack backupName published movedToBackup
    throw failure

/-- The first loop. -/
def moveAway : List Text → List Text → Transfer (List Text)
  | movedToBackup, [] => return movedToBackup
  | movedToBackup, name :: existing => do
    guarded backupName [] movedToBackup
      (Disk.mutate fun volume => AgentFS.rename volume (rootPath name) (backedUpPath backupName name))
    moveAway (movedToBackup ++ [name]) existing

/-- The second loop. -/
def publish (movedToBackup : List Text) : List Text → List Text → Transfer (List Text)
  | published, [] => return published
  | published, name :: staged => do
    guarded backupName published movedToBackup
      (Disk.mutate fun volume => AgentFS.rename volume (stagedPath stagingName name) (rootPath name))
    publish movedToBackup (published ++ [name]) staged

/-- The handler of the outer `try`. -/
def cleanUp (backupCreated : Bool) : Transfer Unit := do
  Disk.undo (discard (rootPath stagingName))
  if backupCreated then Disk.undo (discardEmpty (rootPath backupName))

/-- A call of the outer `try`. -/
def cleanly {α : Type} (backupCreated : Bool) (call : Transfer α) : Transfer α :=
  tryCatch call fun failure => do
    cleanUp stagingName backupName backupCreated
    throw (mapArchiveError failure)

/-- The children that are there, and the directory they go to. -/
def prepareBackup (options : Options) : Transfer (List Text) := do
  let listed ← Disk.inspect fun volume => AgentFS.readdir volume ['/']
  let existing := listed.filter fun name => name ≠ stagingName && name ≠ backupName
  Attempt.lift (refuse (existing ≠ [] ∧ options.replace = false)
    (.http 409 "EEXIST" "Import target already exists: / (use replace)"))
  Disk.mutate fun volume => AgentFS.mkdir volume (rootPath backupName)
  return existing

/-- Out with the old children, in with the staged ones. -/
def exchange (existing : List Text) : Transfer Unit := do
  let movedToBackup ← moveAway backupName [] existing
  let staged ← guarded backupName [] movedToBackup
    (Disk.inspect fun volume => AgentFS.readdir volume (rootPath stagingName))
  let _ ← publish stagingName backupName movedToBackup [] staged
  Disk.quietly (discard (rootPath stagingName))

/-- The outer `try`. -/
def swapChildren (options : Options) : Transfer Unit := do
  let existing ← cleanly stagingName backupName false (prepareBackup stagingName backupName options)
  cleanly stagingName backupName true (exchange stagingName backupName existing)

end Root

def importTreeRoot (chunkSize : Nat) (stream : Archive.Stream) (options : Options) (deps : Deps) : Transfer Archive.TreeSummary := do
  let summary ← stage chunkSize (rootPath deps.stagingName) stream
  swapChildren deps.stagingName deps.backupName options
  Disk.quietly (discard (rootPath deps.backupName))
  deps.recorded
  return summary

def importTree (chunkSize : Nat) (path : Text) (stream : Option Archive.Stream) (options : Options) (deps : Deps) :
    Transfer Archive.TreeSummary :=
  match stream with
  | none => throw (.http 400 "INVALID_ARGUMENT" "Missing archive body")
  | some stream =>
    let target := normalizeTreePath path
    if target = ['/'] then
      if options.allowRoot then importTreeRoot chunkSize stream options deps
      else throw (.http 400 "INVALID_PATH" "Import target must be a non-root directory")
    else importBelow chunkSize target stream options deps

end TreeImport

end AiryFS
