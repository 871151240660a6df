/-
File transfers that fail.

`FileTransfer::receiveFile` opens its output file before it reads anything, which
truncates a file that is there, and removes it when the size or a block does not
arrive or the size is too large.  A datanode that answers UPDATE_FILE with a NACK has
then no copy any more.

* `receiveStoredFile_failed` — the two ways in which the call returns false, wherever
  the stream ends;
* `update_nacked` — a NACK to UPDATE_FILE comes from such a call, and the version file
  has not been written;
* `failed_transfer_keeps_iff` — exactly when the file and its version are as before;
* `nacked_update_drops_copy` — an update that ends within its size.
-/
import SquidStorage.Channel
import SquidStorage.DataNodeSession

open BigEndian

namespace Squid

/-- The condition: the output file does not open, or there is nothing to lose. -/
def Disk.KeepsOnFailure (disk : Disk) (path : Bytes) : Prop :=
  disk.openOutput (disk.resolvePath path) = .refused ∨ disk.resolvePath path ∉ disk.files

/-- What a failed transfer leaves: the disk as it is when the output file does not open,
and otherwise the disk without the file. -/
def Disk.LeftByFailure (disk : Disk) (path : Bytes) (disk' : Disk) : Prop :=
  (disk.openOutput (disk.resolvePath path) = .refused ∧ disk' = disk) ∨
    (disk.openOutput (disk.resolvePath path) = .opened ∧
      disk' = disk.discard (disk.resolvePath path))

theorem Disk.discard_of_not_mem {disk : Disk} {name : Bytes} (h : name ∉ disk.files) :
    disk.discard name = disk := by
  have hfiles : disk.files.erase name = disk.files := by
    refine Std.ExtTreeMap.ext_getElem? fun k => ?_
    simp only [Std.ExtTreeMap.getElem?_erase, Std.LawfulEqCmp.compare_eq_iff_eq]
    split
    · rename_i hk
      rw [← hk, Std.ExtTreeMap.getElem?_eq_none h]
    · rfl
  rw [Disk.discard, hfiles]

/-! ### The transfer -/

/-- A failed transfer on whole runs of bytes. -/
theorem receiveStoredFile_failed {disk disk' : Disk} {path : Bytes} {s t : Proto}
    (h : (receiveStoredFile disk path).run s = (.done (false, disk'), t)) :
    disk.LeftByFailure path disk' := by
  rw [receiveStoredFile] at h
  cases hopen : disk.openOutput (disk.resolvePath path) with
  | threw e =>
    simp only [hopen, raiseError] at h
    simp at h
  | refused =>
    simp only [hopen] at h
    obtain ⟨hdone, -⟩ := Prod.mk.inj h
    exact .inl ⟨hopen, (Prod.mk.inj (Outcome.done.inj hdone)).2.symm⟩
  | opened =>
    simp only [hopen] at h
    obtain ⟨data, u, -, hrest⟩ := bind_eq_done h
    cases data with
    | none =>
      obtain ⟨hdone, -⟩ := Prod.mk.inj hrest
      exact .inr ⟨hopen, (Prod.mk.inj (Outcome.done.inj hdone)).2.symm⟩
    | some data =>
      obtain ⟨hdone, -⟩ := Prod.mk.inj hrest
      exact absurd (Prod.mk.inj (Outcome.done.inj hdone)).1 (by simp)

/-- The same when the bytes come in pieces and the file is written block by block. -/
theorem StreamM.receiveStoredFile_failed {disk disk' : Disk} {path : Bytes} {e e' : Endpoint}
    (h : (StreamM.receiveStoredFile disk path).run e = (.done (false, disk'), e')) :
    disk.LeftByFailure path disk' := by
  have hsame := StreamM.refines_receiveStoredFile disk path e e.whole (cut_whole e)
  rw [h] at hsame
  generalize hrun : (Squid.receiveStoredFile disk path).run e.whole = result at hsame
  cases hsame with
  | done _ _ => exact Squid.receiveStoredFile_failed hrun

/-- **When a failed transfer leaves the file as it was.** -/
theorem Disk.LeftByFailure.keeps {disk disk' : Disk} {path : Bytes}
    (h : disk.LeftByFailure path disk') :
    (disk.KeepsOnFailure path → disk' = disk) ∧
      (disk'.files[disk.resolvePath path]? = disk.files[disk.resolvePath path]? →
        disk.KeepsOnFailure path) := by
  rcases h with ⟨hopen, rfl⟩ | ⟨hopen, rfl⟩
  · exact ⟨fun _ => rfl, fun _ => .inl hopen⟩
  · constructor
    · rintro (hrefused | habsent)
      · rw [hopen] at hrefused
        simp at hrefused
      · exact Disk.discard_of_not_mem habsent
    · intro hsame
      refine .inr fun hmem => ?_
      -- the file has been removed
      rw [Std.ExtTreeMap.mem_iff_isSome_getElem?, ← hsame] at hmem
      simp [Disk.discard] at hmem

/-! ### A datanode's NACK -/

/-- The last frame that has been written is a NACK. -/
def Proto.Nacked (s : Proto) : Prop :=
  ∃ pre seq, s.out = pre ++ [.frame (ackFrame false seq)]

/-- The ACK of an update is no NACK. -/
theorem ackVersion_ne_nack (seq seq' v : UInt32) :
    frameBytes .response flagResponse seq 0 [fieldBool .ack true, fieldUint32 .fileVersion v]
      ≠ ackFrame false seq' := by
  intro heq
  have hack := parseMessage_frameBytes (fits_ack_version true v) .response flagResponse seq 0 []
  have hnack := parseMessage_frameBytes (fits_ack false) .response flagResponse seq' 0 []
  rw [heq, ackFrame, hnack] at hack
  simp at hack

/-- **A NACK to UPDATE_FILE**: the transfer has failed, and nothing else is written. -/
theorem update_nacked {node node' : DataNode} {msg : Message} {s t : Proto}
    (hop : msg.opcode = .updateFile)
    (h : (requestDispatcher node msg).run s = (.done node', t)) (hnack : t.Nacked) :
    ∃ u v, (receiveStoredFile node.disk (msg.getString .filePath)).run u
      = (.done (false, node'.disk), v) := by
  have hdispatch : requestDispatcher node msg = storeUpload node (msg.getString .filePath)
      (toInt32 (msg.getUint32 .fileVersion 0))
      (responseVersion true (toInt32 (msg.getUint32 .fileVersion 0))) := by
    simp only [requestDispatcher, hop]
    rfl
  rw [hdispatch, storeUpload, bind_done (response_run true s), finishStore] at h
  obtain ⟨⟨received, disk⟩, v, hreceive, hrest⟩ := bind_eq_done h
  dsimp only at hrest
  cases received with
  | false =>
    rw [if_neg (by simp), bind_done (response_run false v)] at hrest
    obtain ⟨hdone, -⟩ := Prod.mk.inj hrest
    obtain rfl := Outcome.done.inj hdone
    exact ⟨_, _, hreceive⟩
  | true =>
    -- the transfer has succeeded: the last frame is an ACK with the version
    rw [if_pos rfl, responseVersion, responseAckWithVersion,
      bind_done (sendFrame_fits (fits_ack_version true _) _ _ v)] at hrest
    obtain ⟨-, rfl⟩ := Prod.mk.inj hrest
    obtain ⟨pre, seq, hout⟩ := hnack
    have hlast := (List.append_inj' hout rfl).2
    exact absurd (Sent.frame.inj (List.singleton_inj.mp hlast)) (ackVersion_ne_nack _ _ _)

/-- **Failed transfers.**  A call of `receiveFile` that returns false leaves its output
file as it was exactly when the file could not be opened or was not there; and so does
an UPDATE_FILE that a datanode NACKs, with the version of the file. -/
theorem failed_transfer_keeps_iff (disk : Disk) (path : Bytes) :
    (∀ (disk' : Disk) (e e' : Endpoint),
      (StreamM.receiveStoredFile disk path).run e = (.done (false, disk'), e') →
      (disk'.files[disk.resolvePath path]? = disk.files[disk.resolvePath path]?
        ↔ disk.KeepsOnFailure path)) ∧
    ∀ (node node' : DataNode) (msg : Message) (s t : Proto), node.disk = disk →
      msg.opcode = .updateFile → msg.getString .filePath = path →
      (requestDispatcher node msg).run s = (.done node', t) → t.Nacked →
      (node'.disk.files[disk.resolvePath path]? = disk.files[disk.resolvePath path]? ∧
          node'.disk.getFileVersion path = disk.getFileVersion path
        ↔ disk.KeepsOnFailure path) := by
  constructor
  · intro disk' e e' h
    obtain ⟨hkeeps, hsame⟩ := (StreamM.receiveStoredFile_failed h).keeps
    refine ⟨hsame, fun hkeep => ?_⟩
    rw [hkeeps hkeep]
  · rintro node node' msg s t rfl hop rfl h hnack
    obtain ⟨u, v, hreceive⟩ := update_nacked hop h hnack
    obtain ⟨hkeeps, hsame⟩ := (receiveStoredFile_failed hreceive).keeps
    refine ⟨fun hboth => hsame hboth.1, fun hkeep => ?_⟩
    rw [hkeeps hkeep]
    exact ⟨rfl, rfl⟩

/-- A datanode that stores `a` under version 1. -/
def oneCopy : DataNode :=
  { peer := { kind := .dataNode, processName := [100] }
    disk := (({} : Disk).store [97] [1, 2, 3]).setFileVersion [97] 1 }

/-- UPDATE_FILE for the path, version 2. -/
def updateMessage (path : Bytes) : Message :=
  { opcode := .updateFile
    fields := [fieldString .filePath path, fieldUint32 .fileVersion 2] }

/-- The end of a connection that is closed within the size of a file. -/
def closedWithin : Proto := { inp := [0, 0, 0], peerClosed := true }

/-- The same end with its bytes in two pieces. -/
def closedPieces : Endpoint :=
  { proto := closedWithin, arrivals := [[0, 0], [0]], quotas := fun _ => 0 }

/-- The transfer of a file that is not there fails, and the datanode is as before. -/
theorem failed_transfer_keeps_absent :
    (∃ disk' e', (StreamM.receiveStoredFile oneCopy.disk [98]).run closedPieces
        = (.done (false, disk'), e') ∧
      disk'.files[([98] : Bytes)]? = oneCopy.disk.files[([98] : Bytes)]?) ∧
    ∃ node' t, (requestDispatcher oneCopy (updateMessage [98])).run closedWithin
        = (.done node', t) ∧ t.Nacked ∧
      node'.disk.files[([98] : Bytes)]? = oneCopy.disk.files[([98] : Bytes)]? ∧
      node'.disk.getFileVersion [98] = oneCopy.disk.getFileVersion [98] := by
  have habsent : oneCopy.disk.KeepsOnFailure [98] := .inr (by decide)
  constructor
  · refine ⟨_, _, rfl, ?_⟩
    exact ((failed_transfer_keeps_iff oneCopy.disk [98]).1 _ closedPieces _ rfl).mpr habsent
  · refine ⟨_, _, rfl, ⟨[.frame (ackFrame true 0)], 1, rfl⟩, ?_⟩
    exact ((failed_transfer_keeps_iff oneCopy.disk [98]).2 oneCopy _ (updateMessage [98])
      closedWithin _ rfl rfl rfl rfl ⟨[.frame (ackFrame true 0)], 1, rfl⟩).mpr habsent

/-- The transfer of the stored file fails in the same way: the datanode NACKs the
update, and has no copy of the file any more. -/
theorem nacked_update_drops_copy :
    oneCopy.disk.files[([97] : Bytes)]? = some [1, 2, 3] ∧
    (∃ disk' e', (StreamM.receiveStoredFile oneCopy.disk [97]).run closedPieces
        = (.done (false, disk'), e') ∧ disk'.files[([97] : Bytes)]? = none) ∧
    ∃ node' t, (requestDispatcher oneCopy (updateMessage [97])).run closedWithin
        = (.done node', t) ∧ t.Nacked ∧ node'.disk.files[([97] : Bytes)]? = none :=
  ⟨by decide, ⟨_, _, rfl, by decide⟩,
    _, _, rfl, ⟨[.frame (ackFrame true 0)], 1, rfl⟩, by decide⟩

end Squid
