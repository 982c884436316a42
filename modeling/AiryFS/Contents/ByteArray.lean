import AiryFS.Contents.Writing
import AiryFS.Foundation.Runs

/-! Chunked contents against a byte array, over sequences of writes by both writers.

The byte array takes every write that the code accepts. The chunks keep up with it as long
as a remote write begins no later than in the chunk where the file ends, and a direct
truncation does not lengthen the file: both leave chunks short or missing otherwise.
-/

set_option autoImplicit false

namespace AiryFS

open Foundation

namespace Contents

inductive Operation where
  | remotePwrite (bindings : List JsValue)
  | remoteTruncate (bindings : List JsValue)
  | pwrite (ino : Int) (offset : Nat) (data : Bytes)
  | truncate (ino : Int) (newSize : Nat)
  deriving DecidableEq, Repr

namespace Operation

def execute (chunkSize : Nat) (volume : Volume) : Operation → Except Failure Volume
  | remotePwrite bindings => (Remote.executeRemotePwrite volume bindings).map Prod.snd
  | remoteTruncate bindings => (Remote.executeRemoteTruncate volume bindings).map Prod.snd
  | pwrite ino offset data => AgentFSFile.pwrite ⟨ino, chunkSize⟩ volume offset data
  | truncate ino newSize => AgentFSFile.truncate ⟨ino, chunkSize⟩ volume newSize

/-- The file that an operation names, and what it does to a byte array. -/
def effect : Operation → Option (Int × (Bytes → Bytes))
  | remotePwrite bindings => (Remote.Pwrite.parse bindings).toOption.map fun call =>
    (call.ino, fun content => posixWrite content call.offset call.data)
  | remoteTruncate bindings => (Remote.Truncate.parse bindings).toOption.map fun call =>
    (call.ino, fun content => posixTruncate content call.newSize)
  | pwrite ino offset data => some (ino, fun content => posixWrite content offset data)
  | truncate ino newSize => some (ino, fun content => posixTruncate content newSize)

/-- The byte array of a file after an operation that was accepted. -/
def apply (ino : Int) (content : Bytes) (operation : Operation) : Bytes :=
  match operation.effect with
  | none => content
  | some (target, change) => if target = ino then change content else content

/-- The volume, and the byte array of one of its files. -/
def step (chunkSize : Nat) (ino : Int) (state : Volume × Bytes) (operation : Operation) : Volume × Bytes :=
  match operation.execute chunkSize state.1 with
  | .error _ => state
  | .ok volume => (volume, operation.apply ino state.2)

/-- A remote call is sent with the chunk size of the volume. -/
def Sized (chunkSize : Nat) : Operation → Prop
  | remotePwrite bindings => ∀ call ∈ (Remote.Pwrite.parse bindings).toOption, call.chunkSize = chunkSize
  | remoteTruncate bindings => ∀ call ∈ (Remote.Truncate.parse bindings).toOption, call.chunkSize = chunkSize
  | _ => True

/-- A remote write that the quota admits begins no later than in the chunk where the file ends,
and a direct truncation that it admits does not lengthen the file. -/
def Contiguous (chunkSize : Nat) (ino : Int) (state : Volume × Bytes) : Operation → Prop
  | remotePwrite bindings => ∀ call ∈ (Remote.Pwrite.parse bindings).toOption, call.ino = ino →
    ∀ row ∈ state.1.inode? ino, state.1.quotaUpdate row.size (max row.size (call.offset + call.data.length)) = .ok () →
      call.offset / chunkSize ≤ row.size / chunkSize
  | truncate target newSize => target = ino →
    ∀ row ∈ state.1.inode? ino, state.1.quotaUpdate row.size newSize = .ok () → newSize ≤ row.size
  | _ => True

instance (chunkSize : Nat) : DecidablePred (Sized chunkSize) := by
  intro operation
  unfold Sized
  cases operation <;> infer_instance

instance (chunkSize : Nat) (ino : Int) (state : Volume × Bytes) : DecidablePred (Contiguous chunkSize ino state) := by
  intro operation
  unfold Contiguous
  cases operation <;> infer_instance

end Operation

end Contents

/-- The direct adapter reads the content: its length is the size of the inode, the whole file
at every path of the inode, and every window of it. -/
structure Volume.ReadsAs (volume : Volume) (chunkSize : Nat) (ino : Int) (content : Bytes) : Prop where
  size : ∃ row, volume.inode? ino = some row ∧ row.size = content.length
  whole : ∀ path, AgentFS.resolvePath volume path = some ino →
    ∃ volume', AgentFS.readFile volume path = .ok (content, volume')
  window : ∀ offset size, AgentFSFile.pread ⟨ino, chunkSize⟩ volume offset size = (content.drop offset).take size

namespace Contents

variable {chunkSize : Nat} {ino : Int} {volume : Volume} {content : Bytes}

theorem readsAs_of_stores (positive : 0 < chunkSize) (stores : volume.Stores chunkSize ino content) :
    volume.ReadsAs chunkSize ino content := by
  obtain ⟨row, stored, kind, size⟩ := stores.file
  refine ⟨⟨row, stored, size⟩, ?_, ?_⟩
  · intro path resolved
    refine ⟨volume.updateInode ino fun row => { row with atime := volume.now }, ?_⟩
    have file : ¬AgentFS.knownDirectory (AgentFS.getInodeMode volume ino) = true := by
      rw [AgentFS.getInodeMode, stored]
      change ¬isDirectory row.mode = true
      rw [kind]
      exact Bool.false_ne_true
    rw [AgentFS.readFile, AgentFS.resolvePathOrThrow_of_resolved resolved]
    change (refuse _ _ >>= fun _ => pure _) = _
    rw [refuse_of_not file, stores.laidOut.whole positive]
    rfl
  · intro offset size
    exact AgentFSFile.pread_laidOut stores.laidOut positive offset size

/-- An operation on the file writes what it writes to the array; one on another leaves both alone. -/
theorem apply_stores {target : Int} {changed : Bytes} {volume' : Volume} (edits : Volume.Edits target volume volume')
    (own : target = ino → volume'.Stores chunkSize ino changed) (stores : volume.Stores chunkSize ino content) :
    volume'.Stores chunkSize ino (if target = ino then changed else content) := by
  split
  · rename_i same
    exact own same
  · rename_i different
    exact edits.stores (Ne.symm different) stores

/-- The quota that a resize passed was asked about the size before. -/
theorem admitted {volume' written : Volume} (rewrites : Volume.Rewrites ino volume written) {change : InodeRow → InodeRow}
    (resized : written.resizeInode ino change = .ok volume') {row : InodeRow} (stored : volume.inode? ino = some row) :
    volume.quotaUpdate row.size (change row).size = .ok () := by
  obtain ⟨⟨data, rfl⟩, _⟩ := rewrites
  exact Volume.resizeInode_quota { volume with data } ino change resized stored

theorem execute_stores (positive : 0 < chunkSize) {operation : Operation} (sized : operation.Sized chunkSize)
    (contiguous : operation.Contiguous chunkSize ino (volume, content)) {volume' : Volume}
    (done : operation.execute chunkSize volume = .ok volume') (stores : volume.Stores chunkSize ino content) :
    volume'.Stores chunkSize ino (operation.apply ino content) := by
  obtain ⟨row, stored, _, size⟩ := stores.file
  -- The remote operations also return a status.
  have mapped : ∀ {result : Except Failure (Int × Volume)}, result.map Prod.snd = .ok volume' →
      ∃ status, result = .ok (status, volume') := by
    intro result returned
    cases result with
    | error failure => cases returned
    | ok pair => exact ⟨pair.1, by rw [← Except.ok.inj returned]⟩
  cases operation with
  | remotePwrite bindings =>
    obtain ⟨status, executed⟩ := mapped done
    obtain ⟨call, parsed, ran⟩ := bind_eq_ok.mp executed
    obtain ⟨result, written, returned⟩ := bind_eq_ok.mp ran
    rw [pure_eq_ok, Prod.mk.injEq] at returned
    rw [returned.2] at written
    have known : call ∈ (Remote.Pwrite.parse bindings).toOption := by rw [parsed]; rfl
    have chunked := sized call known
    have filled := Remote.Pwrite.parse_filled parsed
    obtain ⟨edits, own⟩ := Remote.Pwrite.run_ok written
    rw [Operation.apply, Operation.effect, parsed]
    change volume'.Stores chunkSize ino (if call.ino = ino then posixWrite content call.offset call.data else content)
    refine apply_stores edits ?_ stores
    intro same
    rw [chunked, same] at own
    refine own positive filled stores ?_
    have start := contiguous call known same row stored
    rw [← size]
    apply start
    obtain ⟨_, _, resized⟩ := bind_eq_ok.mp written
    have rewrites := Remote.Pwrite.loop_rewrites call.ino call.chunkSize call.data.length volume call.offset call.data
    exact admitted rewrites resized (by rw [same]; exact stored)
  | remoteTruncate bindings =>
    obtain ⟨status, executed⟩ := mapped done
    obtain ⟨call, parsed, ran⟩ := bind_eq_ok.mp executed
    have chunked := sized call (by rw [parsed]; rfl)
    obtain ⟨edits, own⟩ := Remote.Truncate.run_ok ran
    rw [Operation.apply, Operation.effect, parsed]
    change volume'.Stores chunkSize ino (if call.ino = ino then posixTruncate content call.newSize else content)
    refine apply_stores edits ?_ stores
    intro same
    rw [chunked, same] at own
    exact own positive stores
  | pwrite target offset data =>
    obtain ⟨edits, own⟩ := @AgentFSFile.pwrite_ok _ _ content _ _ _ done
    change volume'.Stores chunkSize ino (if target = ino then posixWrite content offset data else content)
    refine apply_stores edits ?_ stores
    rintro rfl
    exact own positive stores
  | truncate target newSize =>
    obtain ⟨edits, own⟩ := @AgentFSFile.truncate_ok _ _ content _ _ done
    change volume'.Stores chunkSize ino (if target = ino then posixTruncate content newSize else content)
    refine apply_stores edits ?_ stores
    rintro rfl
    refine own positive ?_ stores
    rw [← size]
    apply contiguous rfl row stored
    exact admitted (AgentFSFile.truncate_rewrites _ _ _) done stored

theorem step_stores (positive : 0 < chunkSize) (state : Volume × Bytes) (operation : Operation)
    (stores : state.1.Stores chunkSize ino state.2)
    (allowed : operation.Sized chunkSize ∧ operation.Contiguous chunkSize ino state) :
    (operation.step chunkSize ino state).1.Stores chunkSize ino (operation.step chunkSize ino state).2 := by
  unfold Operation.step
  split
  · exact stores
  · rename_i volume' done
    exact execute_stores positive allowed.1 allowed.2 done stores

end Contents

open Contents in
/-- The volume and the byte array after a sequence of operations. -/
def Contents.after (chunkSize : Nat) (ino : Int) (state : Volume × Bytes) (operations : List Operation) :
    Volume × Bytes := run (fun state operation => operation.step chunkSize ino state) state operations

open Contents in
/-- In every state of a run whose writes begin within reach and whose direct truncations do not
lengthen the file, what the direct adapter reads is the byte array. -/
theorem chunkedContents {chunkSize : Nat} (positive : 0 < chunkSize) {volume : Volume} {ino : Int} {content : Bytes}
    (start : volume.Stores chunkSize ino content) (operations reached : List Contents.Operation)
    (allowed : Guarded (fun state operation => operation.step chunkSize ino state)
      (fun state operation => operation.Sized chunkSize ∧ operation.Contiguous chunkSize ino state)
      (volume, content) operations) (earlier : reached <+: operations) :
    (after chunkSize ino (volume, content) reached).1.ReadsAs chunkSize ino
      (after chunkSize ino (volume, content) reached).2 := by
  have stores := @run_invariant_reached _ _ _ _ (fun state : Volume × Bytes => state.1.Stores chunkSize ino state.2)
    (fun state operation kept allowed => step_stores positive state operation kept allowed) _ _ _ start allowed earlier
  exact readsAs_of_stores positive stores

/-! Chunks of four bytes, and one file, made by the remote client. -/

def oneFile : Volume :=
  settle (Volume.fresh 0) ((Remote.executeRemoteCreateNode (Volume.fresh 0) [.text "mknod".toList, .integer 1,
    .text "f".toList, .integer 0o100644, .integer 0, .integer 0, .integer 0, .null, .integer 0, .integer 0]).map Prod.snd)

def remoteWrite (offset : Int) (data : Bytes) : Contents.Operation :=
  .remotePwrite [.integer 2, .integer offset, .blob data, .integer 4, .integer 0, .integer 0]

/-- A write past the end by each writer, one from chunk to chunk, and a truncation of each kind. -/
def mixedWrites : List Contents.Operation :=
  [remoteWrite 2 [1, 2, 3], .pwrite 2 7 [4, 5],
    .remoteTruncate [.integer 2, .integer 14, .integer 4, .integer 0, .integer 0], .truncate 2 6]

theorem oneFile_stores : oneFile.Stores 4 2 [] := by
  refine ⟨⟨{ Remote.newRow 0o100644 1 0 0 0 0 0 0 with ino := 2 }, by decide, by decide, rfl⟩, ?_⟩
  have none : oneFile.data = .empty := by decide
  unfold Volume.LaidOut
  funext index
  rw [Volume.chunk?, none]
  rfl

theorem chunkedContents_mixedWrites :
    (Contents.after 4 2 (oneFile, []) mixedWrites).1.ReadsAs 4 2 [0, 0, 1, 2, 3, 0] := by
  have reads := chunkedContents (by decide) oneFile_stores mixedWrites mixedWrites (by decide) List.prefix_rfl
  have bytes : (Contents.after 4 2 (oneFile, []) mixedWrites).2 = [0, 0, 1, 2, 3, 0] := by decide
  rw [← bytes]
  exact reads

/-- A remote write behind the chunk of the end, and a direct truncation that lengthens. -/
def sparseWrites : List Contents.Operation := [remoteWrite 0 [1], remoteWrite 8 [2]]

def lengthening : List Contents.Operation := [remoteWrite 0 [1], .truncate 2 3]

/-- The first leaves no chunk between the two bytes, and the second stores no zeros. -/
theorem sparseWrites_read_short : (∀ operation ∈ sparseWrites ++ lengthening, operation.Sized 4) ∧
    ¬(Contents.after 4 2 (oneFile, []) sparseWrites).1.ReadsAs 4 2 (Contents.after 4 2 (oneFile, []) sparseWrites).2 ∧
    ¬(Contents.after 4 2 (oneFile, []) lengthening).1.ReadsAs 4 2 (Contents.after 4 2 (oneFile, []) lengthening).2 := by
  refine ⟨by decide, ?_, ?_⟩
  · intro reads
    have window := reads.window 0 9
    revert window
    decide
  · intro reads
    have window := reads.window 0 3
    revert window
    decide

end AiryFS
