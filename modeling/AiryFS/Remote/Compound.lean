import AiryFS.Storage.Statements
import AiryFS.Foundation.Closure

/-! The compound namespace operations a remote client sends as one statement.

A call arrives as a list of bound values. The checks on the values throw before the
transaction; inside it every outcome is a status, and a status below one leaves the
tables as they were.
-/

set_option autoImplicit false

namespace AiryFS

open Foundation

namespace Remote

def requireSafeInteger (value : JsValue) (name : String) : Except Failure Int :=
  match value with
  | .integer n => if isSafeInteger n then return n else throw (.error s!"{name} must be a safe integer")
  | _ => throw (.error s!"{name} must be a safe integer")

def requireText (value : JsValue) (name : String) : Except Failure Text :=
  match value with
  | .text text => return text
  | _ => throw (.error s!"{name} must be text")

def requireBytes (value : JsValue) : Except Failure Bytes :=
  match value with
  | .blob bytes => return bytes
  | _ => throw (.error "data must be a blob")

/-- `bindings[index]`, where an absent element is `undefined` and no check accepts it. -/
def binding (bindings : List JsValue) (index : Nat) : JsValue := bindings.getD index .null

variable (volume : Volume)

def dentryExists (parentIno : Int) (name : Text) : Bool := (volume.dentry? parentIno name).isSome

def inodeMode (ino : Int) : Option Int := (volume.inode? ino).map (·.mode)

/-- `mode !== null && (mode & S_IFMT) === S_IFDIR`. -/
def directoryMode (mode : Option Int) : Bool := mode.any isDirectory

/-- `fs_dentry d JOIN fs_inode i ON i.ino = d.ino`. -/
def joined (parentIno : Int) (name : Text) : Option InodeRow :=
  (volume.dentry? parentIno name).bind fun entry => volume.inode? entry.ino

/-- Set both times of a directory whose entries changed. -/
def touchTimes (ino nowSecs nowNsecs : Int) : Volume :=
  volume.modifyInode ino fun row => { row with
    ctime := nowSecs, mtime := nowSecs, ctimeNsec := nowNsecs, mtimeNsec := nowNsecs }

/-- The columns of an inode a compound operation creates. -/
def newRow (mode nlink uid gid : Int) (size : Nat) (rdev nowSecs nowNsecs : Int) : InodeRow where
  ino := 0
  mode := mode
  nlink := nlink
  uid := uid
  gid := gid
  size := size
  atime := nowSecs
  mtime := nowSecs
  ctime := nowSecs
  rdev := rdev
  atimeNsec := nowNsecs
  mtimeNsec := nowNsecs
  ctimeNsec := nowNsecs

/-! ## Creating a node -/

inductive NodeKind where
  | mkdir
  | mknod
  /-- With the link's target. -/
  | symlink (target : Text)
  deriving DecidableEq, Repr

/-- The arguments of `airyfs_create_node_v1` after its checks. -/
structure CreateNode where
  kind : NodeKind
  parentIno : Int
  name : Text
  mode : Int
  uid : Int
  gid : Int
  rdev : Int
  nowSecs : Int
  nowNsecs : Int
  deriving DecidableEq, Repr

/-- The byte length of `new TextEncoder().encode(text)`. -/
def encodedLength (text : Text) : Nat := (text.map fun c => c.utf8Size).sum

def NodeKind.parse (kind : Text) (target : JsValue) : Except Failure NodeKind :=
  if kind = "mkdir".toList then return .mkdir
  else if kind = "mknod".toList then return .mknod
  else if kind = "symlink".toList then do
    let target ← requireText target "target"
    return .symlink target
  else
    let shown := String.ofList kind
    throw (.error s!"invalid airyfs_create_node_v1 kind: {shown}")

def CreateNode.parse (bindings : List JsValue) : Except Failure CreateNode := do
  refuse (bindings.length ≠ 10) (.error "airyfs_create_node_v1 requires ten arguments")
  let kind ← requireText (binding bindings 0) "kind"
  let parentIno ← requireSafeInteger (binding bindings 1) "parent_ino"
  let name ← requireText (binding bindings 2) "name"
  let mode ← requireSafeInteger (binding bindings 3) "mode"
  let uid ← requireSafeInteger (binding bindings 4) "uid"
  let gid ← requireSafeInteger (binding bindings 5) "gid"
  let rdev ← requireSafeInteger (binding bindings 6) "rdev"
  let nowSecs ← requireSafeInteger (binding bindings 8) "now_secs"
  let nowNsecs ← requireSafeInteger (binding bindings 9) "now_nsecs"
  let kind ← NodeKind.parse kind (binding bindings 7)
  return { kind, parentIno, name, mode, uid, gid, rdev, nowSecs, nowNsecs }

/-- The row of the new inode. A directory starts with two links, and only a made node keeps
the mode and device it was sent with. -/
def CreateNode.row (call : CreateNode) : InodeRow :=
  match call.kind with
  | .mkdir => newRow (modeWith S_IFDIR call.mode 0o7777) 2 call.uid call.gid 0 0 call.nowSecs call.nowNsecs
  | .mknod => newRow call.mode 1 call.uid call.gid 0 call.rdev call.nowSecs call.nowNsecs
  | .symlink target =>
    newRow (S_IFLNK ||| 0o777 : Nat) 1 call.uid call.gid (encodedLength target) 0 call.nowSecs call.nowNsecs

/-- The last statement: a new directory also counts as a link of its parent. -/
def CreateNode.finish (call : CreateNode) (volume : Volume) : Volume :=
  match call.kind with
  | .mkdir => volume.modifyInode call.parentIno fun row => { row with
      nlink := row.nlink + 1, ctime := call.nowSecs, mtime := call.nowSecs,
      ctimeNsec := call.nowNsecs, mtimeNsec := call.nowNsecs }
  | _ => touchTimes volume call.parentIno call.nowSecs call.nowNsecs

def insertTarget (ino : Int) (kind : NodeKind) : Except Failure Volume :=
  match kind with
  | .symlink target => volume.insertSymlink ino target
  | _ => return volume

def CreateNode.run (call : CreateNode) : Except Failure (Int × Volume) :=
  if dentryExists volume call.parentIno call.name then return (0, volume)
  else if ¬directoryMode (inodeMode volume call.parentIno) then return (-1, volume)
  else do
    let (ino, volume) ← volume.insertInode call.row
    refuse (¬isSafeInteger ino ∨ ino ≤ 0) (.error "failed to allocate inode")
    let volume ← volume.insertDentry { name := call.name, parentIno := call.parentIno, ino }
    let volume ← insertTarget volume ino call.kind
    return (ino, call.finish volume)

def executeRemoteCreateNode (bindings : List JsValue) : Except Failure (Int × Volume) := do
  let call ← CreateNode.parse bindings
  call.run volume

/-! ## Linking -/

structure Link where
  sourceIno : Int
  parentIno : Int
  name : Text
  nowSecs : Int
  nowNsecs : Int
  deriving DecidableEq, Repr

def Link.parse (bindings : List JsValue) : Except Failure Link := do
  refuse (bindings.length ≠ 5) (.error "airyfs_link_v1 requires five arguments")
  let sourceIno ← requireSafeInteger (binding bindings 0) "source_ino"
  let parentIno ← requireSafeInteger (binding bindings 1) "new_parent_ino"
  let name ← requireText (binding bindings 2) "new_name"
  let nowSecs ← requireSafeInteger (binding bindings 3) "now_secs"
  let nowNsecs ← requireSafeInteger (binding bindings 4) "now_nsecs"
  return { sourceIno, parentIno, name, nowSecs, nowNsecs }

def Link.run (call : Link) : Except Failure (Int × Volume) :=
  if dentryExists volume call.parentIno call.name then return (0, volume)
  else match inodeMode volume call.sourceIno with
    | none => return (-1, volume)
    | some sourceMode =>
      if isDirectory sourceMode then return (-2, volume)
      else if ¬directoryMode (inodeMode volume call.parentIno) then return (-1, volume)
      else do
        let volume ← volume.insertDentry { name := call.name, parentIno := call.parentIno, ino := call.sourceIno }
        let volume := volume.updateInode call.sourceIno fun row => { row with
          nlink := row.nlink + 1, ctime := call.nowSecs, ctimeNsec := call.nowNsecs }
        return (call.sourceIno, touchTimes volume call.parentIno call.nowSecs call.nowNsecs)

def executeRemoteLink (bindings : List JsValue) : Except Failure (Int × Volume) := do
  let call ← Link.parse bindings
  call.run volume

/-! ## Renaming -/

structure Rename where
  oldParentIno : Int
  oldName : Text
  newParentIno : Int
  newName : Text
  nowSecs : Int
  nowNsecs : Int
  deriving DecidableEq, Repr

def Rename.parse (bindings : List JsValue) : Except Failure Rename := do
  refuse (bindings.length ≠ 6) (.error "airyfs_rename_v1 requires six arguments")
  let oldParentIno ← requireSafeInteger (binding bindings 0) "old_parent_ino"
  let oldName ← requireText (binding bindings 1) "old_name"
  let newParentIno ← requireSafeInteger (binding bindings 2) "new_parent_ino"
  let newName ← requireText (binding bindings 3) "new_name"
  let nowSecs ← requireSafeInteger (binding bindings 4) "now_secs"
  let nowNsecs ← requireSafeInteger (binding bindings 5) "now_nsecs"
  refuse (oldParentIno ≤ 0 ∨ newParentIno ≤ 0 ∨ oldName = [] ∨ newName = [])
    (.error "invalid airyfs_rename_v1 arguments")
  return { oldParentIno, oldName, newParentIno, newName, nowSecs, nowNsecs }

/-- `ancestors(ino)` of the recursive query: the inode and everything above it. -/
def ancestors (ino : Int) : Finset Int :=
  closure (volume.dentry.rows.map fun entry => (entry.ino, entry.parentIno)) ino

/-- Whether the destination of a rename may be replaced, as its failing status. -/
def replacementStatus (source destination : InodeRow) : Option Int :=
  if isDirectory destination.mode ∧ ¬isDirectory source.mode then some (-2)
  else if ¬isDirectory destination.mode ∧ isDirectory source.mode then some (-3)
  else if isDirectory destination.mode ∧ volume.hasChildren destination.ino then some (-4)
  else none

/-- Drop the entry of a replaced destination and its link, or all links of a directory,
and the inode itself when nothing holds it any more. -/
def Rename.replace (call : Rename) (destination : InodeRow) : Volume :=
  let volume := volume.deleteDentry call.newParentIno call.newName
  let volume :=
    if isDirectory destination.mode then
      let volume := volume.updateInode destination.ino fun row => { row with
        nlink := 0, ctime := call.nowSecs, ctimeNsec := call.nowNsecs }
      volume.updateInode call.newParentIno fun row => { row with nlink := row.nlink - 1 }
    else volume.updateInode destination.ino fun row => { row with
      nlink := row.nlink - 1, ctime := call.nowSecs, ctimeNsec := call.nowNsecs }
  if (volume.inode? destination.ino).any (·.nlink = 0) ∧ ¬volume.leased destination.ino call.nowSecs then
    volume.deleteInode destination.ino
  else volume

/-- The statements after the destination is clear. -/
def Rename.move (call : Rename) (source : InodeRow) : Except Failure (Int × Volume) := do
  let volume ← volume.moveDentry call.newParentIno call.newName call.oldParentIno call.oldName
  let volume :=
    if isDirectory source.mode ∧ call.oldParentIno ≠ call.newParentIno then
      let volume := volume.updateInode call.oldParentIno fun row => { row with nlink := row.nlink - 1 }
      volume.updateInode call.newParentIno fun row => { row with nlink := row.nlink + 1 }
    else volume
  let volume := volume.updateInode source.ino fun row => { row with
    ctime := call.nowSecs, ctimeNsec := call.nowNsecs }
  let volume := touchTimes volume call.oldParentIno call.nowSecs call.nowNsecs
  let volume :=
    if call.oldParentIno ≠ call.newParentIno then
      touchTimes volume call.newParentIno call.nowSecs call.nowNsecs
    else volume
  return (source.ino, volume)

def Rename.run (call : Rename) : Except Failure (Int × Volume) :=
  if ¬directoryMode (inodeMode volume call.oldParentIno) ∨
      ¬directoryMode (inodeMode volume call.newParentIno) then return (-1, volume)
  else match joined volume call.oldParentIno call.oldName with
    | none => return (-1, volume)
    | some source =>
      if source.ino = 1 then return (-6, volume)
      else if call.oldParentIno = call.newParentIno ∧ call.oldName = call.newName then
        return (source.ino, volume)
      else if isDirectory source.mode ∧ source.ino ∈ ancestors volume call.newParentIno then
        return (-5, volume)
      else match joined volume call.newParentIno call.newName with
        | none => call.move volume source
        | some destination =>
          if destination.ino = source.ino then return (source.ino, volume)
          else match replacementStatus volume source destination with
            | some status => return (status, volume)
            | none => call.move (call.replace volume destination) source

def executeRemoteRename (bindings : List JsValue) : Except Failure (Int × Volume) := do
  let call ← Rename.parse bindings
  call.run volume

/-! ## Open-handle leases

The remote client's lease bookkeeping is a sequence of independent statements; the
client's clock supplies the times.
-/

/-- One statement on the leases, or on the inodes they no longer hold. -/
inductive LeaseStatement where
  /-- `pin_open_inode`. -/
  | pinOpenInode (sessionId : Text) (ino expiresAt : Int)
  /-- The first statement of `unpin_open_inode`. -/
  | decrementOpenCount (sessionId : Text) (ino : Int)
  /-- Its second. -/
  | deleteReleased (sessionId : Text) (ino : Int)
  /-- Its third. -/
  | reapInode (ino now : Int)
  | renewOpenLeases (sessionId : Text) (inos : List Int) (expiresAt : Int)
  /-- The first statement of `cleanup_open_session`. -/
  | cleanupOpenSession (sessionId : Text)
  /-- The first statement of `reap_expired_open_inodes`. -/
  | deleteExpired (now : Int)
  | reapOrphanInodes
  deriving DecidableEq, Repr

def pinOpenInode (sessionId : Text) (ino expiresAt : Int) : Volume :=
  match volume.inode? ino with
  | none => volume
  | some _ =>
    let openCount := match volume.openInode.find? (sessionId, ino) with
      | some lease => lease.openCount + 1
      | none => 1
    { volume with openInode := volume.openInode.upsert { sessionId, ino, openCount, expiresAt } }

def reapOrphanInodes : Volume :=
  volume.deleteInodes fun row => row.nlink = 0 && row.ino ≠ ROOT_INO &&
    !volume.openInode.rows.any fun lease => lease.ino = row.ino

def reapInode (ino now : Int) : Volume :=
  volume.deleteInodes fun row => row.ino = ino && row.nlink = 0 && ino ≠ ROOT_INO && !volume.leased ino now

def renewed (selected : OpenInodeRow → Bool) (expiresAt : Int) (lease : OpenInodeRow) : OpenInodeRow :=
  if selected lease then { lease with expiresAt } else lease

theorem renewed_key (selected : OpenInodeRow → Bool) (expiresAt : Int) (lease : OpenInodeRow) :
    (renewed selected expiresAt lease).key = lease.key := by
  unfold renewed
  split <;> rfl

def decremented (sessionId : Text) (ino : Int) (lease : OpenInodeRow) : OpenInodeRow :=
  if lease.sessionId = sessionId ∧ lease.ino = ino then { lease with openCount := lease.openCount - 1 } else lease

theorem decremented_key (sessionId : Text) (ino : Int) (lease : OpenInodeRow) :
    (decremented sessionId ino lease).key = lease.key := by
  unfold decremented
  split <;> rfl

def LeaseStatement.run (statement : LeaseStatement) : Volume :=
  match statement with
  | .pinOpenInode sessionId ino expiresAt => Remote.pinOpenInode volume sessionId ino expiresAt
  | .decrementOpenCount sessionId ino =>
    { volume with openInode := volume.openInode.modify (decremented sessionId ino) (decremented_key sessionId ino) }
  | .deleteReleased sessionId ino => { volume with openInode := volume.openInode.deleteWhere fun lease =>
      lease.sessionId = sessionId && lease.ino = ino && lease.openCount ≤ 0 }
  | .reapInode ino now => Remote.reapInode volume ino now
  | .renewOpenLeases sessionId inos expiresAt =>
    let selected (lease : OpenInodeRow) : Bool := lease.sessionId = sessionId && inos.contains lease.ino
    { volume with openInode := volume.openInode.modify (renewed selected expiresAt) (renewed_key selected expiresAt) }
  | .cleanupOpenSession sessionId => { volume with openInode := volume.openInode.deleteWhere fun lease =>
      lease.sessionId = sessionId }
  | .deleteExpired now => { volume with openInode := volume.openInode.deleteWhere fun lease =>
      lease.expiresAt ≤ now || lease.openCount ≤ 0 }
  | .reapOrphanInodes => Remote.reapOrphanInodes volume

end Remote

end AiryFS
